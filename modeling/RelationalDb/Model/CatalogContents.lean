import RelationalDb.Model.SchemaEnforcement
import RelationalDb.Model.SystemTables
import RelationalDb.Model.TableNames

set_option autoImplicit false

namespace RelationalDb

/-- A row of `db_tables` without the place of its heap. -/
structure TableEntry where
  tableId : Uuid
  tableName : List UInt8
  heapFileId : Uuid
  deriving DecidableEq

def TableInfo.entry (row : TableInfo) : TableEntry := ⟨row.tableId, row.tableName, row.heapFileId⟩

/-- What a catalog is for: the tables in the order of their creation, and the columns of all
tables. -/
structure CatalogContents where
  tables : List TableEntry
  columns : List ColumnInfo

namespace CatalogContents

open HeapState (TableFits ColumnFits)

variable {N : Nat}

def system : CatalogContents := ⟨Catalog.systemRows.map TableInfo.entry, Catalog.systemColumns⟩

/-- A row that fits no page is left out, and the other rows of the table are not. -/
def create (contents : CatalogContents) (table : TableEntry) (columns : List RawColumnInfo) :
    CatalogContents where
  tables := contents.tables ++ if TableFits table.tableName then [table] else []
  columns := contents.columns ++
    (columns.map (Catalog.columnInfo table.tableId)).filter (ColumnFits ·.colName)

def lookup (contents : CatalogContents) (name : List UInt8) : Option TableEntry :=
  contents.tables.find? (·.tableName = name)

end CatalogContents

namespace TableManager

open HeapState (TableFits ColumnFits)

variable {N : Nat} {manager manager' : TableManager N} {s s' : HeapState}
  {names : List (List UInt8)} {ids : List Uuid} {rids : List (Nat × Rid)}
  {log : List (Event N)} {event : Event N}

/-- What the calls of a run make of the catalog. -/
def catalogContents : List (Event N) → CatalogContents
  | [] => .system
  | event :: log =>
      match event.op with
      | .createTable tableRandom fileRandom name columns =>
          (catalogContents log).create
            ⟨generateUuid tableRandom, name, generateUuid fileRandom⟩ columns
      | _ => catalogContents log

/-- The calls of the catalog answer from these contents: `LookupTable` with the first table of the
name and a heap there is, `GetTableColumns` with the columns of the table and `GetTypes` with the
built-in types, and `db_tables` has a row for each table and no other row. -/
structure AnswersFrom (manager : TableManager N) (contents : CatalogContents) : Prop where
  lookupTable : ∀ name, ∃ answer, Finds manager name answer ∧
    answer.map TableInfo.entry = contents.lookup name
  heaps : ∀ name row, Finds manager name (some row) →
    ⟨row.heapFileId, row.firstPageId⟩ ∈ systemHeaps ++ manager.catalog.world.heaps
  getTableColumns : ∀ tableId, ∃ cols, Lists manager tableId cols ∧
    cols.Perm (contents.columns.filter (·.tableId = tableId))
  getTypes : ∃ after, Catalog.getTypes.Returns manager.catalog Catalog.builtinTypes after
  dbTables : ∃ (records : List (Rid × List UInt8)) (rows : List TableInfo),
    Holds manager .tables records ∧
    records.map (fun record => TableInfoCodec.decode record.2) = rows.map some ∧
    (rows.map TableInfo.entry).Perm contents.tables

/-- The rows of the relations are the contents of the catalog. -/
structure Records (contents : CatalogContents) (s : HeapState) : Prop where
  found : ∀ name, (s.tableRows.find? (·.tableName = name)).map TableInfo.entry =
    contents.lookup name
  tables : (s.tableRows.map TableInfo.entry).Perm contents.tables
  columns : s.columnRows.Perm contents.columns
  types : s.rows .types = Catalog.builtinTypes.map TypeInfoCodec.encode

theorem Records.same {contents : CatalogContents} (records : Records contents s)
    (same : s.SameRows s') : Records contents s' := by
  refine ⟨?_, ?_, ?_, ?_⟩
  · rw [same.tableRows]
    exact records.found
  · rw [same.tableRows]
    exact records.tables
  · rw [same.columnRows]
    exact records.columns
  · rw [HeapState.rows, same]
    exact records.types

section Created

variable {tableId fileId : Uuid} {tableName : List UInt8} {columns : List RawColumnInfo}
  {contents : CatalogContents}
  (created : s.TableCreated tableId fileId tableName
    (columns.map (Catalog.columnInfo tableId)) s') (sound : s.Sound)
  (catalogued : s.Catalogued names ids)

include created sound catalogued

/-- A name that is taken keeps its row, and a new name gets the new one. -/
theorem Records.found_create (records : Records contents s) (first : s.FirstRows)
    (name : List UInt8) :
    (s'.tableRows.find? (·.tableName = name)).map TableInfo.entry =
      (contents.create ⟨tableId, tableName, fileId⟩ columns).lookup name := by
  have own := Catalog.columnInfo_own tableId columns
  have more := created.tableRows sound catalogued own
  have before := records.found name
  rw [CatalogContents.lookup, CatalogContents.create, List.find?_append]
  rw [CatalogContents.lookup] at before
  cases taken : s.tableRows.find? (·.tableName = name) with
  | some row =>
      rw [created.find?_kept sound catalogued own first taken, ← before, taken]
      rfl
  | none =>
      rw [← before, taken, Option.map_none, Option.none_or]
      by_cases fits : TableFits tableName
      · rw [if_pos fits] at more
        rw [if_pos fits]
        by_cases named : tableName = name
        · rw [more.find?_self (by simpa using named) taken,
            List.find?_cons_of_pos (by simpa using named)]
          rfl
        · rw [more.find?_other (by simpa using named), taken,
            List.find?_cons_of_neg (by simpa using named)]
          rfl
      · rw [if_neg fits] at more
        rw [if_neg fits, more, taken]
        rfl

theorem Records.create (records : Records contents s) (first : s.FirstRows) :
    Records (contents.create ⟨tableId, tableName, fileId⟩ columns) s' := by
  have own := Catalog.columnInfo_own tableId columns
  refine ⟨records.found_create created sound catalogued first, ?_, ?_, ?_⟩
  · have more := created.tableRows sound catalogued own
    rw [CatalogContents.create]
    split at more
    · rename_i fits
      rw [if_pos fits]
      have step := more.perm.map TableInfo.entry
      exact step.trans ((records.tables.cons _).trans (List.perm_append_singleton _ _).symm)
    · rename_i tooLong
      rw [if_neg tooLong, List.append_nil, more]
      exact records.tables
  · exact (created.columnRows_perm sound catalogued own).trans (records.columns.append_right _)
  · rw [HeapState.rows, created.types_bins sound catalogued own]
    exact records.types

end Created

theorem Records.evolves {op : Op N} {outcome : Except Error Answer}
    (records : Records (catalogContents log) s) (evolves : Evolves op s s') (sound : s.Sound)
    (catalogued : s.Catalogued names ids) (first : s.FirstRows) :
    Records (catalogContents (⟨op, outcome⟩ :: log)) s' := by
  cases op with
  | createTable tableRandom fileRandom name columns =>
      exact records.create evolves sound catalogued first
  | lookupTable name => exact records.same evolves
  | getTableColumns tableId => exact records.same evolves
  | openTable name => exact records.same evolves
  | insert name values => exact records.same evolves
  | heap op => exact records.same evolves
  | flushAll => exact records.same evolves
  | restart raw buf => exact records.same evolves

theorem Booted.tableRows (booted : Booted manager s) : s.tableRows = Catalog.systemRows := by
  have inserted : Catalog.systemRows.foldl HeapState.withTableRow [⟨8180, []⟩] =
      FirstFit.insertAll 8180 rowSize [⟨8180, []⟩]
        (Catalog.systemRows.map TableInfoCodec.encode) := rfl
  have inverse : ∀ row ∈ Catalog.systemRows,
      TableInfoCodec.decode (TableInfoCodec.encode row) = some row := by
    simp only [Catalog.systemRows, List.forall_mem_cons, List.not_mem_nil, false_imp_iff,
      implies_true, and_true]
    refine ⟨?_, ?_, ?_⟩ <;> exact TableInfoCodec.decode_encode (by decide) (by decide) (by decide)
  rw [HeapState.tableRows, HeapState.rows, booted.tables, inserted,
    FirstFit.insertAll_first (show _ ≤ 8180 by decide)]
  rw [show FirstFit.contents ([] : List (FirstFit.Bin (List UInt8))) = [] from rfl,
    List.append_nil, List.nil_append, List.filterMap_map]
  exact (List.filterMap_congr inverse).trans List.filterMap_some

theorem Booted.columnRows (booted : Booted manager s) : s.columnRows = Catalog.systemColumns := by
  have fits : ∀ column ∈ Catalog.systemColumns, ColumnFits column.colName := by decide
  rw [HeapState.columnRows, HeapState.rows, booted.columns,
    FirstFit.insertAll_first (show _ ≤ 8180 by decide)]
  exact (congrArg _ (List.append_nil _)).trans (filterMap_decode_encode fits)

theorem Booted.records (booted : Booted manager s) :
    Records (catalogContents ([] : List (Event N))) s := by
  refine ⟨?_, ?_, ?_, ?_⟩
  · intro name
    rw [booted.tableRows, CatalogContents.lookup, catalogContents, CatalogContents.system,
      List.find?_map]
    rfl
  · rw [booted.tableRows]
    exact List.Perm.refl _
  · rw [booted.columnRows]
    exact List.Perm.refl _
  · rw [HeapState.rows, booted.types]
    rfl

theorem records_all [NeZero N] {start : TableManager N} (initialised : Initialised start)
    (run : DatabaseRun start log manager) :
    ∃ s, RunState log manager s ∧ Records (catalogContents log) s := by
  apply run.invariant fun log manager =>
    ∃ s, RunState log manager s ∧ Records (catalogContents log) s
  · obtain ⟨s, booted⟩ := initialised.booted
    exact ⟨s, booted.state, booted.records⟩
  · intro log manager event manager' _ holds taken
    obtain ⟨s, state, records⟩ := holds
    obtain ⟨s', evolves, _, state'⟩ := state.step taken
    exact ⟨s', state', records.evolves evolves state.stands.holds.shows.sound
      state.stands.catalogued state.first⟩

theorem builtinTypes_decode : ∀ type ∈ Catalog.builtinTypes,
    TypeInfoCodec.decode (TypeInfoCodec.encode type) = some type := by
  simp only [Catalog.builtinTypes, List.forall_mem_cons, List.not_mem_nil, false_imp_iff,
    implies_true, and_true]
  refine ⟨?_, ?_⟩ <;> exact TypeInfoCodec.decode_encode (by decide)

theorem Records.getTypes_returns {contents : CatalogContents} (records : Records contents s)
    (holds : manager.catalog.Holds s) :
    ∃ after, Catalog.getTypes.Returns manager.catalog Catalog.builtinTypes after := by
  have decodes : ∀ bytes ∈ s.rows .types, ∃ type, TypeInfoCodec.decode bytes = some type := by
    intro bytes member
    rw [records.types] at member
    obtain ⟨type, among, rfl⟩ := List.mem_map.mp member
    exact ⟨type, builtinTypes_decode type among⟩
  have read : (s.rows .types).filterMap TypeInfoCodec.decode = Catalog.builtinTypes := by
    rw [records.types, List.filterMap_map]
    exact (List.filterMap_congr builtinTypes_decode).trans List.filterMap_some
  obtain ⟨bm', returned, _⟩ := holds.getTypes_returns decodes
  rw [read] at returned
  exact ⟨_, returned⟩

theorem Records.answers {contents : CatalogContents} (records : Records contents s)
    (stands : Stands manager s names ids rids) : AnswersFrom manager contents := by
  refine ⟨?_, ?_, ?_, records.getTypes_returns stands.holds, ?_⟩
  · intro name
    exact ⟨_, stands.finds_iff.mpr rfl, records.found name⟩
  · intro name row finds
    obtain ⟨i, present, _⟩ := (stands.catalogued.leadsTo_of_find (stands.finds_iff.mp finds)).place
    rw [← stands.holds.shows.heaps] at present
    exact List.mem_of_getElem? present
  · intro tableId
    exact ⟨_, stands.lists_iff.mpr rfl, records.columns.filter _⟩
  · obtain ⟨inPages, holds, same⟩ := stands.rows_iff.mpr (rfl : s.rows .tables = s.rows .tables)
    refine ⟨inPages, s.tableRows, holds, ?_, records.tables⟩
    have decodes : ∀ record ∈ inPages, (TableInfoCodec.decode record.2).isSome := by
      intro record member
      have among : record.2 ∈ s.rows .tables := by
        rw [← same]
        exact List.mem_map_of_mem member
      obtain ⟨row, decoded⟩ := Catalog.decodes_tables stands.catalogued _ among
      rw [decoded]
      rfl
    have read : s.tableRows = inPages.filterMap fun record => TableInfoCodec.decode record.2 := by
      rw [HeapState.tableRows, ← same, List.filterMap_map]
      rfl
    rw [read, List.map_filterMap_some_eq_filter_map_isSome, List.filter_eq_self.mpr]
    intro found member
    obtain ⟨record, among, rfl⟩ := List.mem_map.mp member
    exact decodes record among

/-- The catalog answers as the calls of the run have made it, whatever else was done in between
and however often the file was opened again. -/
theorem catalog_answers [NeZero N] (start : TableManager N) (initialised : Initialised start)
    (log : List (Event N)) (manager : TableManager N) (run : DatabaseRun start log manager) :
    AnswersFrom manager (catalogContents log) := by
  obtain ⟨s, state, records⟩ := records_all initialised run
  exact records.answers state.stands

theorem catalog_answers_first : ∃ manager : TableManager bufferPoolSize,
    AnswersFrom manager (CatalogContents.system.create
      ⟨generateUuid fun _ => 0, ascii "t", generateUuid fun _ => 0⟩
      [⟨ascii "c", intType, 1⟩]) := by
  obtain ⟨start, manager, table, manager₁, first⟩ := first_opened intType
  exact ⟨manager, catalog_answers start first.initialised [firstCall intType] manager first.run⟩

end TableManager

end RelationalDb
