import RelationalDb.Access.HeapOnDisk
import RelationalDb.Model.Restart
import RelationalDb.Model.TableAnswers

set_option autoImplicit false

namespace RelationalDb

open HeapFile
open BufferManager (OnDisk)

namespace Catalog

variable {N : Nat} {catalog catalog' : Catalog N} {s : HeapState} {names : List (List UInt8)}
  {ids : List Uuid}

theorem insertTable_onDisk {view : Int → Option Page} {pages : Int}
    (steady : BufferManager.Steady catalog.world.bm view (fun _ => 0) pages)
    (relations : catalog.relations .tables = some CatalogTable.tables.heapFile)
    (onDisk : OnDisk catalog.world.bm s.view) {page : Page}
    (present : view dbTablesRootPageId = some page)
    (layout : SlottedPage.Layout page headerSize) {row : TableInfo}
    (fits : room view (TableInfoCodec.encode row) dbTablesRootPageId = true)
    (short : row.tableName.length < 2 ^ 32) {result : Option Rid}
    (returned : (insertTable row).Returns catalog result catalog') :
    ∀ pageId kept, s.view pageId = some kept → stored catalog'.world.bm.disk pageId = some kept := by
  have bounded : (TableInfoCodec.encode row).length < 2 ^ 63 := by
    rw [TableInfoCodec.encode_length]
    omega
  obtain ⟨frame, bm₁, bm', rid, requested, inserted, disk⟩ :=
    @insert_firstPage N _ _ _ _ steady CatalogTable.tables.heapFile _ _ (by decide) present layout
      bounded fits
  unfold insertTable insertRaw Program.Returns at returned
  rw [(relation_returns relations).bind_eq, (onPool_returns catalog inserted).bind_eq] at returned
  cases returned
  intro pageId kept known
  show stored bm'.disk pageId = some kept
  rw [disk]
  exact (onDisk.request steady.toValid requested).stored pageId kept known

theorem createTable_onDisk (holds : Holds catalog s) (onDisk : OnDisk catalog.world.bm s.view)
    (more : s.pages + 1 < 2 ^ 31) {tableRandom fileRandom : Uuid} {name : List UInt8}
    (short : name.length < 2 ^ 32)
    (fits : 40 + name.length + 4 ≤ (HeapState.pageBin s.view dbTablesRootPageId).space)
    {tableId : Uuid} (returned : (createTable tableRandom fileRandom name []).Returns catalog tableId
      catalog') :
    ∀ pageId kept, s.view pageId = some kept → stored catalog'.world.bm.disk pageId = some kept := by
  obtain ⟨raw, bm₁, created, steady₁⟩ :=
    create_returns holds.shows.steady more (generateUuid fileRandom)
  have onDisk₁ := create_onDisk onDisk holds.shows.steady more created
  unfold createTable Program.Returns at returned
  rw [(makeHeap_made created).bind_eq] at returned
  obtain ⟨result, middle, inserted, rest⟩ := Program.returns_bind.mp returned
  cases rest
  have linked := holds.shows.sound.linked _ _ (holds.present .tables)
  have member : dbTablesRootPageId ∈ s.chain CatalogTable.tables.index := linked.first_mem (by decide)
  obtain ⟨_, inside, page, present, layout⟩ := holds.shows.sound.page member
  have same : Function.update s.view s.pages (some (initHeapPage raw)) dbTablesRootPageId =
      s.view dbTablesRootPageId := Function.update_of_ne (Int.ne_of_lt inside) _ _
  refine @insertTable_onDisk N (catalog.withHeap bm₁ ⟨generateUuid fileRandom, s.pages⟩) _ s _ _
    steady₁ (holds.relations .tables) onDisk₁ _ (same.trans present) layout _ ?_ short _ inserted
  rw [HeapState.room_eq (same.trans present), HeapState.pageBin_congr same,
    TableInfoCodec.encode_length]
  exact decide_eq_true fits

end Catalog

namespace TableManager

variable {N : Nat} {manager manager' : TableManager N} {s : HeapState} {names : List (List UInt8)}
  {ids : List Uuid} {rids : List (Nat × Rid)}

def OnFile (manager : TableManager N) (pageId : Int) : Prop :=
  stored manager.catalog.world.bm.disk pageId = manager.catalog.world.bm.contents pageId

/-- Page 0 and the pages of `db_tables` and `db_attributes` are in the file as the pool
has them. -/
structure CatalogOnFile (manager : TableManager N) : Prop where
  header : OnFile manager rootPageId
  relations : ∀ (table : CatalogTable) (chain : List Int), table ≠ .types →
    Chain manager.catalog.world.bm.contents table.heapFile.firstPageId chain →
      ∀ pageId ∈ chain, OnFile manager pageId

/-- Fresh objects over a file with the relations of the catalog. -/
theorem restart_reads [NeZero N] (manager : TableManager N) (raw : Fin N → Page) (buf : Page)
    (sound : s.Sound) (present : ∀ table : CatalogTable, s.heaps[table.index]? = some table.heapFile)
    (header : stored manager.catalog.world.bm.disk rootPageId = some Catalog.headerPage)
    (inFile : ∀ table : CatalogTable, table ≠ .types → ∀ pageId ∈ s.chain table.index,
      stored manager.catalog.world.bm.disk pageId = s.view pageId)
    (small : manager.catalog.world.bm.disk.dbIo.size / pageSize < 2 ^ 31) :
    ∃ manager' view pages, (restart raw buf).Returns manager ⟨⟩ manager' ∧
      Catalog.Reads manager'.catalog view pages s.rows := by
  obtain ⟨catalog', pages, opened, reads⟩ := Catalog.init_reads raw buf
    manager.catalog.world.heaps sound present header inFile small
  have inner := onCatalog_returns (new raw manager.catalog.world.bm.disk.dbIo
    manager.catalog.world.heaps) opened
  refine ⟨⟨catalog', fun _ => none⟩, _, pages, ?_, reads⟩
  apply (Program.get_returns _).bind
  exact ((Program.returns_set _ _ _ ⟨⟩).mpr rfl).bind inner

theorem Stands.sameCatalog_of_reads (stands : Stands manager s names ids rids)
    {view : Int → Option Page} {pages : Int} (reads : Catalog.Reads manager'.catalog view pages s.rows) :
    SameCatalog manager manager' := by
  constructor
  · intro name
    obtain ⟨_, found, _⟩ := stands.holds.lookup_returns stands.catalogued name
    obtain ⟨_, found', _⟩ :=
      reads.lookup_returns (Catalog.decodes_tables stands.catalogued) name
    exact ⟨_, _, _, found, found'⟩
  · intro tableId
    obtain ⟨_, listed, _⟩ := stands.holds.getColumns_returns stands.catalogued tableId
    obtain ⟨_, listed', _⟩ :=
      reads.getColumns_returns (Catalog.decodes_columns stands.catalogued) tableId
    exact ⟨_, _, _, listed, listed'⟩

/-- A catalog whose pages are in the file when the process ends answers after the restart
as it did before. -/
theorem restart_keeps_catalog [NeZero N] (start : TableManager N) (initialised : Initialised start)
    (log : List (Event N)) (manager : TableManager N) (run : DatabaseRun start log manager)
    (onFile : CatalogOnFile manager) (raw : Fin N → Page) (buf : Page) :
    ∃ manager', (restart raw buf).Returns manager ⟨⟩ manager' ∧ SameCatalog manager manager' := by
  obtain ⟨s, stands, _, _⟩ := runState initialised run
  have sound := stands.holds.shows.sound
  have header : stored manager.catalog.world.bm.disk rootPageId = some Catalog.headerPage := by
    rw [onFile.header]
    exact stands.holds.shows.steady.toBacked.contents_eq stands.catalogued.header
  have inFile : ∀ table : CatalogTable, table ≠ .types → ∀ pageId ∈ s.chain table.index,
      stored manager.catalog.world.bm.disk pageId = s.view pageId := by
    intro table followed pageId member
    rw [onFile.relations table _ followed (stands.chain_iff.mpr rfl) pageId member,
      stands.contents_eq member]
  obtain ⟨manager', view, pages, returned, reads⟩ := restart_reads manager raw buf sound
    stands.catalogued.present header inFile stands.file_small
  exact ⟨manager', returned, stands.sameCatalog_of_reads reads⟩

theorem Stands.catalogOnFile (stands : Stands manager s names ids rids)
    (flushed : Flushed manager s) : CatalogOnFile manager := by
  have onFile : ∀ pageId page, s.view pageId = some page → OnFile manager pageId := by
    intro pageId page present
    rw [OnFile, flushed pageId page present]
    exact (stands.holds.shows.steady.toBacked.contents_eq present).symm
  refine ⟨onFile _ _ stands.catalogued.header, ?_⟩
  intro table chain _ linked pageId member
  rw [← stands.chain_iff.mp linked] at member
  obtain ⟨_, _, page, present, _⟩ := stands.holds.shows.sound.page member
  exact onFile pageId page present

/-- A database with one table, flushed and opened again. -/
theorem restart_keeps_catalog_table :
    ∃ (start manager manager' : TableManager bufferPoolSize) (log : List (Event bufferPoolSize)),
      DatabaseRun start log manager ∧ createdNames log = [ascii "t"] ∧
      (restart (fun _ _ => 0) (fun _ => 0)).Returns manager ⟨⟩ manager' ∧
      SameCatalog manager manager' := by
  obtain ⟨start, manager, log, initialised, run, flushed, names⟩ := flushedTable_exists
  obtain ⟨s, stands, _, whole⟩ := runState initialised run
  obtain ⟨manager', returned, same⟩ := restart_keeps_catalog start initialised log manager run
    (stands.catalogOnFile (whole flushed)) (fun _ _ => 0) (fun _ => 0)
  exact ⟨start, manager, manager', log, run, names, returned, same⟩

theorem Booted.space (booted : Booted manager s) :
    (HeapState.pageBin s.view dbTablesRootPageId).space = 8018 := by
  have holds := booted.state.stands.holds
  have member : dbTablesRootPageId ∈ s.chain CatalogTable.tables.index :=
    (holds.shows.sound.linked _ _ (holds.present .tables)).first_mem (by decide)
  have spaces : (s.relationBins .tables).map (·.space) = [8018] := by
    rw [booted.tables]
    decide
  rw [← List.mem_singleton, ← spaces]
  exact List.mem_map_of_mem (List.mem_map_of_mem member)

/-- A new table that is not flushed is lost. -/
theorem restart_loses_table : ∃ start manager manager' : TableManager bufferPoolSize,
    Initialised start ∧
      databaseStep [] start ⟨.createTable (fun _ => 0) (fun _ => 0) (ascii "t") [],
        .ok (.created (generateUuid fun _ => 0))⟩ manager ∧
      (restart (fun _ _ => 0) (fun _ => 0)).Returns manager ⟨⟩ manager' ∧
      ¬ SameCatalog manager manager' := by
  have noColumns : ∀ column ∈ ([] : List RawColumnInfo), HeapState.ColumnFits column.colName :=
    fun column member => absurd member List.not_mem_nil
  obtain ⟨start, manager, initialised, step, _⟩ := @first_createTable bufferPoolSize _
    (ascii "t") [] (sized_of_fits (by decide) noColumns) (by decide)
  obtain ⟨s, booted⟩ := initialised.booted
  obtain ⟨_, s', created⟩ := booted.state.created step
  have stands := booted.state.stands
  have few := booted.few
  obtain ⟨result, inner, isAnswer⟩ := Program.answer_eq_some.mp step.1
  obtain ⟨catalog', made, rfl⟩ := onCatalog_cases inner
  have stored : s.InFile catalog'.world.bm.disk.dbIo := by
    cases result with
    | error reason => cases isAnswer
    | ok tableId =>
        have space := booted.space
        exact Catalog.createTable_onDisk stands.holds booted.onDisk (by omega) (by decide)
          (by rw [space]; decide) made
  have inFile : ∀ table : CatalogTable, table ≠ .types → ∀ pageId ∈ s.chain table.index,
      RelationalDb.stored catalog'.world.bm.disk pageId = s.view pageId := by
    intro table _ pageId member
    obtain ⟨_, _, page, present, _⟩ := stands.holds.shows.sound.page member
    rw [present]
    exact stored pageId page present
  obtain ⟨manager', view, pages, returned, reads⟩ := restart_reads (start.setCatalog catalog')
    (fun _ _ => 0) (fun _ => 0) stands.holds.shows.sound stands.catalogued.present
    (stored _ _ stands.catalogued.header) inFile created.after.file_small
  refine ⟨start, _, manager', initialised, step, returned, fun same => ?_⟩
  obtain ⟨table, _, _, before, after⟩ := same.tables (ascii "t")
  have free := stands.free (show ascii "t" ∉ knownNames [] by decide)
  have found := created.after.finds_iff.mpr (created.find?_new free (by decide))
  obtain ⟨_, lost, _⟩ := reads.lookup_returns (Catalog.decodes_tables stands.catalogued) (ascii "t")
  have now := (before.value_eq found.choose_spec).1
  have later := (after.value_eq lost).1
  rw [now, show ((s.rows .tables).filterMap TableInfoCodec.decode).find? _ = _ from free] at later
  cases later

end TableManager

end RelationalDb
