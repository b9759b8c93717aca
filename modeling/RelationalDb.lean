import RelationalDb.Storage.SlottedPageLayout
import RelationalDb.Storage.PageTable
import RelationalDb.Storage.PinSafety
import RelationalDb.Storage.PoolContents
import RelationalDb.Storage.TransparentCache
import RelationalDb.Access.HeapFile
import RelationalDb.Storage.PoolSession
import RelationalDb.Access.HeapCalls
import RelationalDb.Access.HeapState
import RelationalDb.Access.HeapRuns
import RelationalDb.Access.ChainSafety
import RelationalDb.Access.HeapMaps
import RelationalDb.Cursor
import RelationalDb.Access.HeapScan
import RelationalDb.Common.Tuple
import RelationalDb.Executor.Operator
import RelationalDb.Executor.Denotation
import RelationalDb.Executor.ExecutorRuns
import RelationalDb.Catalog.CatalogCodec
import RelationalDb.Catalog.CatalogBootstrap
import RelationalDb.Model.DynamicCodec
import RelationalDb.Access.HeapRecords
import RelationalDb.Catalog.Catalog
import RelationalDb.Model.TableManager
import RelationalDb.Access.HeapShift
import RelationalDb.Catalog.CatalogState
import RelationalDb.Catalog.CatalogRows
import RelationalDb.Catalog.CatalogCalls
import RelationalDb.Catalog.CatalogInit
import RelationalDb.Model.DatabaseRuns
import RelationalDb.Model.Restart
import RelationalDb.Catalog.CatalogAnswers
import RelationalDb.Model.TableAnswers
import RelationalDb.Model.TableCache
import RelationalDb.Model.ColumnOrder
import RelationalDb.Model.TableNames
import RelationalDb.Access.HeapOnDisk
import RelationalDb.Model.Durability
import RelationalDb.Executor.SeqScanOp
import RelationalDb.Executor.SeqScan
import RelationalDb.Model.SystemTables
import RelationalDb.FileSystem
import RelationalDb.Server.DbServer
import RelationalDb.Storage.SlottedPageRuns
import RelationalDb.Server.ServerRuns
import RelationalDb.Storage.PoolCalls
import RelationalDb.Storage.PinBalance
import RelationalDb.Access.HeapPins
import RelationalDb.Model.PinRuns
import RelationalDb.Access.HeapWriteBacks
import RelationalDb.Access.HeapOrder
import RelationalDb.Access.RestartSafety
import RelationalDb.Executor.ScanExact
import RelationalDb.Storage.SlotRecords
import RelationalDb.Model.EmptyRows
import RelationalDb.Model.RowLayout
import RelationalDb.Access.SharedRuns
import RelationalDb.Access.HeapInsert
import RelationalDb.Access.HeapExhaustion
import RelationalDb.Access.ExhaustedInserts
import RelationalDb.Access.CrowdedRuns
import RelationalDb.Access.HeapDeletion
import RelationalDb.Model.SchemaEnforcement
import RelationalDb.Model.RowPadding
import RelationalDb.Executor.ScanRuns
import RelationalDb.Storage.Eviction
import RelationalDb.Access.SnapshotScan
import RelationalDb.Access.SheetRuns
import RelationalDb.Access.SpaceLedger
import RelationalDb.Executor.PlanState
import RelationalDb.Executor.ScanPlan
import RelationalDb.Model.CatalogContents
import RelationalDb.Model.DatabaseChanges
import RelationalDb.Model.PageOwners
import RelationalDb.Model.TableRows
import RelationalDb.Model.TableSpace
import RelationalDb.Planner.OpenPlans
import RelationalDb.Storage.PageIds
import RelationalDb.Storage.Residents
import RelationalDb.Storage.WrittenPages
import RelationalDb.Model.DatabaseProgress
