import RelationalDb.Access.HeapRecords
import RelationalDb.Catalog.CatalogBootstrap
import RelationalDb.Catalog.CatalogCodec

set_option autoImplicit false

namespace RelationalDb

/-- The relations `_tables`, `_attributes` and `_types`. -/
inductive CatalogTable where
  | tables
  | attributes
  | types
  deriving DecidableEq

/-- `Catalog`. The world behind its pointers to the pool and the disk is part of
its state; a relation is its heap file. -/
structure Catalog (N : Nat) where
  world : World N
  relations : CatalogTable → Option HeapFile

abbrev CatalogProgram (N : Nat) (α : Type) : Type := Program (Catalog N) Error α

namespace Catalog

variable {N : Nat}

def setPool (catalog : Catalog N) (bm : BufferManager N DiskManager) : Catalog N :=
  { catalog with world := { catalog.world with bm := bm } }

def onPool {α : Type} (program : Heap N α) : CatalogProgram N α :=
  Program.within (fun catalog => catalog.world.bm) setPool program

/-- `value()` of the optional that holds a relation. -/
def relation (table : CatalogTable) : CatalogProgram N HeapFile := do
  match (← get).relations table with
  | some hf => return hf
  | none => Program.throw .badOptionalAccess

/-- `emplace`. -/
def emplace (table : CatalogTable) (hf : HeapFile) : CatalogProgram N Unit :=
  modify fun catalog =>
    { catalog with relations := Function.update catalog.relations table (some hf) }

/-- `InsertRaw` of an encoded row. -/
def insertRaw (table : CatalogTable) (bytes : List UInt8) : CatalogProgram N (Option Rid) := do
  let hf ← relation table
  let (rid, hf) ← onPool (hf.insert bytes)
  emplace table hf
  return rid

/-- `TablesCatalog::Insert`. -/
def insertTable (row : TableInfo) : CatalogProgram N (Option Rid) :=
  insertRaw .tables (TableInfoCodec.encode row)

/-- `AttributesCatalog::Insert`. -/
def insertColumn (row : ColumnInfo) : CatalogProgram N (Option Rid) :=
  insertRaw .attributes (ColumnInfoCodec.encode row)

/-- `TypesCatalog::Insert`. -/
def insertType (row : TypeInfo) : CatalogProgram N (Option Rid) :=
  insertRaw .types (TypeInfoCodec.encode row)

/-- The loop body of `Lookup`. -/
def lookupBody (tableName : List UInt8) (_ : Unit) (bytes : List UInt8) :
    Option (Unit ⊕ TableInfo) := do
  let table ← TableInfoCodec.decode bytes
  if table.tableName = tableName then return .inr table else return .inl ⟨⟩

/-- `TablesCatalog::Lookup`. -/
def lookup (tableName : List UInt8) : CatalogProgram N (Option TableInfo) := do
  let hf ← relation .tables
  match ← onPool (hf.forRecords 0 (lookupBody tableName) ⟨⟩) with
  | .inl _ => return none
  | .inr table => return some table

/-- The loop body of `GetColumns`. -/
def columnsBody (tableId : Uuid) (res : List ColumnInfo) (bytes : List UInt8) :
    Option (List ColumnInfo ⊕ Empty) := do
  let col ← ColumnInfoCodec.decode bytes
  if col.tableId = tableId then return .inl (res ++ [col]) else return .inl res

/-- `AttributesCatalog::GetColumns`. -/
def getColumns (tableId : Uuid) : CatalogProgram N (List ColumnInfo) := do
  let hf ← relation .attributes
  match ← onPool (hf.forRecords 0 (columnsBody tableId) []) with
  | .inl res => return res

/-- The loop body of `GetTypes`. -/
def typesBody (res : List TypeInfo) (bytes : List UInt8) : Option (List TypeInfo ⊕ Empty) := do
  let type ← TypeInfoCodec.decode bytes
  return .inl (res ++ [type])

/-- `TypesCatalog::GetTypes`. -/
def getTypes : CatalogProgram N (List TypeInfo) := do
  let hf ← relation .types
  match ← onPool (hf.forRecords 0 typesBody []) with
  | .inl res => return res

/-- `IsInitialised`. `buf` is what the stack array holds before the read. -/
def isInitialised (buf : Page) : CatalogProgram N Bool := do
  let disk := (← get).world.bm.disk
  if DiskManager.getNumPages disk.dbIo ≤ 0 then return false
  else return (disk.readPage rootPageId buf).load 0 4 == dbMagic

def loadCatalogs : CatalogProgram N Unit := do
  emplace .tables (HeapFile.openHeap dbTablesFileId dbTablesRootPageId)
  emplace .attributes (HeapFile.openHeap dbAttributesFileId dbAttributesRootPageId)
  emplace .types (HeapFile.openHeap dbTypesFileId dbTypesRootPageId)

def headerPage : Page := Region.store (fun _ => 0) 0 4 dbMagic

/-- Page 0 goes to the disk past the pool. -/
def bootstrapHeader : CatalogProgram N Unit := do
  let pid ← onPool HeapFile.allocatePage
  Program.assert (pid = rootPageId)
  onPool (modify fun bm => { bm with disk := writePage bm.disk pid headerPage })

/-- The first page of a relation. `_bm->unpin` does not tell the policy. -/
def bootstrapPage (expected : Int) : CatalogProgram N Unit := do
  let pid ← onPool HeapFile.allocatePage
  Program.assert (pid = expected)
  let frame ← onPool (BufferManager.request pid)
  onPool (BufferManager.modifyData frame HeapFile.initHeapPage)
  onPool (BufferManager.markDirty frame)
  onPool (BufferManager.unpin frame)

def insertBuiltinTypes : CatalogProgram N Unit := do
  let _ ← insertType { typeId := intType, size := intSize, typeName := [] }
  let _ ← insertType { typeId := textType, size := textSize, typeName := [] }

def insertColumns : List ColumnInfo → CatalogProgram N Unit
  | [] => return ⟨⟩
  | col :: rest => do
      let _ ← insertColumn col
      insertColumns rest

def insertCatalogMetadata : CatalogProgram N Unit := do
  let _ ← insertTable
    { tableId := dbTablesTableId, tableName := dbTablesTable, heapFileId := dbTablesFileId
      firstPageId := dbTablesRootPageId }
  insertColumns tablesCatalogSchema
  let _ ← insertTable
    { tableId := dbAttributesTableId, tableName := dbAttributesTable
      heapFileId := dbAttributesFileId, firstPageId := dbAttributesRootPageId }
  insertColumns attrCatalogSchema
  let _ ← insertTable
    { tableId := dbTypesTableId, tableName := dbTypesTable, heapFileId := dbTypesFileId
      firstPageId := dbTypesRootPageId }
  insertColumns typesCatalogSchema

def bootstrapCatalogs : CatalogProgram N Unit := do
  bootstrapHeader
  bootstrapPage dbTablesRootPageId
  bootstrapPage dbAttributesRootPageId
  bootstrapPage dbTypesRootPageId
  loadCatalogs
  insertBuiltinTypes
  insertCatalogMetadata
  onPool BufferManager.flushAll

/-- `Init`. -/
def init (buf : Page) : CatalogProgram N Unit := do
  if ← isInitialised buf then loadCatalogs else bootstrapCatalogs

/-- `HeapFile::Create`; the world lists the heap files that were made. -/
def makeHeap (fileId : Uuid) : CatalogProgram N HeapFile := do
  let hf ← onPool (HeapFile.create fileId)
  modify fun catalog =>
    { catalog with world := { catalog.world with heaps := catalog.world.heaps ++ [hf] } }
  return hf

def columnInfo (tableId : Uuid) (col : RawColumnInfo) : ColumnInfo :=
  { tableId, colName := col.colName, typeId := col.typeId, ordinalPosition := col.ordinalPosition }

/-- `CreateTable`, given the random bytes of its two ids. -/
def createTable (tableRandom fileRandom : Uuid) (tableName : List UInt8)
    (columns : List RawColumnInfo) : CatalogProgram N Uuid := do
  let tableId := generateUuid tableRandom
  let fid := generateUuid fileRandom
  let hf ← makeHeap fid
  let _ ← insertTable { tableId, tableName, heapFileId := fid, firstPageId := hf.firstPageId }
  insertColumns (columns.map (columnInfo tableId))
  return tableId

def lookupTable (tableName : List UInt8) : CatalogProgram N (Option TableInfo) := lookup tableName

def getTableColumns (tableId : Uuid) : CatalogProgram N (List ColumnInfo) := getColumns tableId

end Catalog

end RelationalDb
