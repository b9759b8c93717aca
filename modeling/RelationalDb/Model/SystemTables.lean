import RelationalDb.Executor.SeqScan
import RelationalDb.Model.ColumnOrder

set_option autoImplicit false

namespace RelationalDb

open HeapFile

namespace CatalogTable

/-- `Decode`: the row that the codec reads, as values, with the schema of the codec. -/
def decode : CatalogTable → List UInt8 → Option Tuple
  | tables, bytes =>
      (TableInfoCodec.decode bytes).map fun row =>
        ⟨TableInfoCodec.toValues row, TableInfoCodec.getSchema⟩
  | attributes, bytes =>
      (ColumnInfoCodec.decode bytes).map fun row =>
        ⟨ColumnInfoCodec.toValues row, ColumnInfoCodec.getSchema⟩
  | types, bytes =>
      (TypeInfoCodec.decode bytes).map fun row =>
        ⟨TypeInfoCodec.toValues row, TypeInfoCodec.getSchema⟩

def schema : CatalogTable → Schema
  | tables => tablesCatalogSchema
  | attributes => attrCatalogSchema
  | types => typesCatalogSchema

def row : CatalogTable → TableInfo := Catalog.systemRow

theorem row_id (table : CatalogTable) (random : Uuid) :
    generateUuid random ≠ table.row.tableId := by
  cases table with
  | tables => exact generateUuid_ne_makeUuid random 2
  | attributes => exact generateUuid_ne_makeUuid random 3
  | types => exact generateUuid_ne_makeUuid random 4

end CatalogTable

def UserTable.relation (table : UserTable) : Relation := ⟨table.hf, table.decode⟩

/-- The content of a field, whatever its type is. -/
def Value.content : Value → List UInt8
  | .int value => leBytes 4 value.toNat
  | .text value => value
  | .uuid value => value.read 0 16
  | .pageId value => int32Bytes value

def Tuple.fields (tup : Tuple) : List (List UInt8) := tup.values.map Value.content

namespace DynamicCodec

/-- A first column of type `INT` takes four bytes. -/
theorem decode_int {bytes : List UInt8} {column : ColumnInfo} {rest : Schema}
    {values : List Value} (isInt : column.typeId = intType)
    (decoded : decode bytes (column :: rest) = some values) :
    ∃ value more, values = .int value :: more := by
  simp only [decode, decodeFrom, isInt, ↓reduceIte] at decoded
  obtain ⟨offset, _, decoded⟩ := Option.bind_eq_some_iff.mp decoded
  obtain ⟨⟨value, offset'⟩, _, decoded⟩ := Option.bind_eq_some_iff.mp decoded
  obtain ⟨more, _, same⟩ := Option.bind_eq_some_iff.mp decoded
  exact ⟨value, more, (Option.some.inj same).symm⟩

theorem decode_types {bytes : List UInt8} (length : bytes.length = 10) :
    decode bytes typesCatalogSchema = none := by
  have padding : skipPadding 0 intType = some 0 ∧ skipPadding 4 intType = some 4 ∧
      skipPadding 8 textType = some 8 := by decide
  have text : textType ≠ intType := by decide
  have first : readUInt32 bytes 0 = some (UInt32.ofNat (leNat (bytes.take 4)), 4) := by
    simp [readUInt32, readFixed, readBytes, length]
  have second : readUInt32 bytes 4 = some (UInt32.ofNat (leNat ((bytes.drop 4).take 4)), 8) := by
    simp [readUInt32, readFixed, readBytes, length]
  have third : readString bytes 8 = none := by
    simp [readString, readUInt32, readFixed, readBytes, length]
  simp [decode, decodeFrom, typesCatalogSchema, padding, text, first, second, third]

end DynamicCodec

namespace TableManager

variable {N : Nat} {manager manager' : TableManager N} {s s' : HeapState}

/-- The scan of the table that `OpenTable` gives and the scan of the relation of the
catalog both come to an end, and with the same fields. -/
def ReadsSame (manager : TableManager N) (name : List UInt8) (table : CatalogTable) : Prop :=
  ∃ user manager' hf it tuples after rows after',
    (openTable name).Returns manager user manager' ∧
      manager'.catalog.relations table = some hf ∧
      (SeqScanOp.scan user.relation).Returns ⟨manager'.catalog.world.bm, it⟩ tuples after ∧
      (SeqScanOp.scan ⟨hf, table.decode⟩).Returns ⟨manager'.catalog.world.bm, it⟩ rows after' ∧
      tuples.map Tuple.fields = rows.map Tuple.fields

/-- Every name that leads to a heap of the catalog reads the same both ways. -/
def SystemTablesReadSame (manager : TableManager N) : Prop :=
  ∀ name row table, Finds manager name (some row) →
    manager.catalog.relations table = some (openHeap row.heapFileId row.firstPageId) →
      ReadsSame manager name table

/-- What the catalog says about its own relations, and a first row of `db_types`. -/
structure SystemState (manager : TableManager N) (s : HeapState) : Prop where
  found : ∀ table : CatalogTable,
    s.tableRows.find? (·.tableName = table.row.tableName) = some table.row
  columns : ∀ table : CatalogTable,
    s.columnRows.filter (·.tableId = table.row.tableId) = table.schema
  types : ∃ bytes rest, s.rows .types = bytes :: rest ∧ bytes.length = 10
  cached : ∀ (table : CatalogTable) user, manager.cache table.row.tableName = some user →
    user.schema = table.schema ∧ user.hf = table.heapFile

/-- What is loaded for a name of the catalog. -/
theorem SystemState.loaded (system : SystemState manager s) {table : CatalogTable}
    {user : UserTable} (loaded : Loaded s table.row.tableName user) :
    user.schema = table.schema ∧ user.hf = table.heapFile := by
  obtain ⟨row, found, rfl⟩ := loaded
  rw [system.found table, Option.some.injEq] at found
  subst found
  refine ⟨system.columns table, ?_⟩
  cases table <;> rfl

theorem Booted.system (booted : Booted manager s) (empty : manager.cache = fun _ => none) :
    SystemState manager s := by
  have columns : s.columnRows = Catalog.systemColumns := by
    have small : ∀ column ∈ Catalog.systemColumns, HeapState.ColumnFits column.colName := by decide
    rw [HeapState.columnRows, HeapState.rows, booted.columns,
      FirstFit.insertAll_first (show _ ≤ 8180 by decide), List.nil_append]
    exact (congrArg _ (List.append_nil _)).trans (filterMap_decode_encode small)
  have tables : s.tableRows = Catalog.systemRows := by
    have inserted : Catalog.systemRows.foldl HeapState.withTableRow [⟨8180, []⟩] =
        FirstFit.insertAll 8180 rowSize [⟨8180, []⟩]
          (Catalog.systemRows.map TableInfoCodec.encode) := rfl
    have inverse : ∀ table, TableInfoCodec.decode (TableInfoCodec.encode (Catalog.systemRow table)) =
        some (Catalog.systemRow table) := by
      intro table
      cases table <;> exact TableInfoCodec.decode_encode (by decide) (by decide) (by decide)
    rw [HeapState.tableRows, HeapState.rows, booted.tables, inserted,
      FirstFit.insertAll_first (show _ ≤ 8180 by decide)]
    simp only [Catalog.systemRows, FirstFit.contents, List.map_cons, List.map_nil, List.nil_append,
      List.flatMap_nil, List.append_nil, List.filterMap_cons, List.filterMap_nil, inverse]
  refine ⟨?_, ?_, ?_, ?_⟩
  · intro table
    rw [tables]
    cases table <;> rfl
  · intro table
    rw [columns]
    cases table <;> decide
  · rw [HeapState.rows, booted.types, FirstFit.insertAll_first (show _ ≤ 8180 by decide)]
    exact ⟨_, _, rfl, by decide⟩
  · intro table user cached
    rw [empty] at cached
    cases cached

theorem SystemState.evolves {op : Op N} {names : List (List UInt8)} {ids : List Uuid}
    (system : SystemState manager s) (evolves : Evolves op s s') (sound : s.Sound)
    (catalogued : s.Catalogued names ids) (first : s.FirstRows)
    (kept : CacheFrom s manager manager') : SystemState manager' s' := by
  refine ⟨?_, ?_, ?_, ?_⟩
  · intro table
    exact TableManager.Evolves.find?_kept evolves sound catalogued first (system.found table)
  · intro table
    rw [← system.columns table]
    rcases evolves.cases with same | ⟨tableRandom, _, _, columns, _, created⟩
    · rw [same.columnRows]
    · exact created.columnRows_other sound catalogued (Catalog.columnInfo_own _ columns)
        (table.row_id tableRandom)
  · have same : s'.rows .types = s.rows .types := by
      rcases evolves.cases with same | ⟨_, _, _, columns, _, created⟩
      · rw [HeapState.rows, same]
        rfl
      · rw [HeapState.rows, created.types_bins sound catalogued (Catalog.columnInfo_own _ columns)]
        rfl
    rw [same]
    exact system.types
  · intro table user cached
    rcases kept _ _ cached with before | loaded
    · exact system.cached table user before
    · exact system.loaded loaded

theorem systemState [NeZero N] {start : TableManager N} (initialised : Initialised start)
    {log : List (Event N)} (run : DatabaseRun start log manager) :
    ∃ s, RunState log manager s ∧ SystemState manager s := by
  apply run.invariant fun log manager => ∃ s, RunState log manager s ∧ SystemState manager s
  · obtain ⟨s, booted⟩ := initialised.booted
    obtain ⟨raw, buf, returned⟩ := initialised
    exact ⟨s, booted.state, booted.system (onCatalog_keeps _ _ _ _ returned)⟩
  · intro log manager event manager' _ holds taken
    obtain ⟨s, state, system⟩ := holds
    obtain ⟨s', evolves, kept, state'⟩ := state.step taken
    exact ⟨s', state', system.evolves evolves state.stands.holds.shows.sound state.stands.catalogued
      state.first kept⟩

theorem SystemState.first_row (system : SystemState manager s) (table : CatalogTable) :
    ∃ bytes rest, s.rows table = bytes :: rest ∧ (table = .types → bytes.length = 10) := by
  cases table with
  | tables =>
      cases rows : s.rows .tables with
      | nil =>
          have found := system.found .tables
          rw [HeapState.tableRows, rows] at found
          cases found
      | cons bytes rest => exact ⟨bytes, rest, rfl, fun impossible => by cases impossible⟩
  | attributes =>
      cases rows : s.rows .attributes with
      | nil =>
          have columns := system.columns .attributes
          rw [HeapState.columnRows, rows] at columns
          cases columns
      | cons bytes rest => exact ⟨bytes, rest, rfl, fun impossible => by cases impossible⟩
  | types =>
      obtain ⟨bytes, rest, rows, length⟩ := system.types
      exact ⟨bytes, rest, rows, fun _ => length⟩

/-- What the two scans make of a first row: an `INT` of four bytes where the codec has a
UUID of sixteen, or no result. -/
theorem fields_differ (table : CatalogTable) {user : UserTable} {first second : List UInt8}
    {tup row : Tuple} (schema : user.schema = table.schema)
    (types : table = .types → first.length = 10) (userRow : user.decode first = some tup)
    (catalogRow : table.decode second = some row) : tup.fields ≠ row.fields := by
  obtain ⟨values, decoded, same⟩ := Option.bind_eq_some_iff.mp userRow
  cases same
  rw [schema] at decoded
  have four : ∀ (value : UInt32) (id : Uuid), (Value.int value).content ≠ (Value.uuid id).content := by
    intro value id same
    have lengths := congrArg List.length same
    rw [Value.content, Value.content, leBytes_length, Region.read_length] at lengths
    cases lengths
  intro same
  cases table with
  | tables =>
      obtain ⟨value, more, rfl⟩ := DynamicCodec.decode_int rfl decoded
      obtain ⟨info, _, rfl⟩ := Option.map_eq_some_iff.mp catalogRow
      exact four value info.tableId (List.cons.inj same).1
  | attributes =>
      obtain ⟨value, more, rfl⟩ := DynamicCodec.decode_int rfl decoded
      obtain ⟨info, _, rfl⟩ := Option.map_eq_some_iff.mp catalogRow
      exact four value info.tableId (List.cons.inj same).1
  | types =>
      rw [show CatalogTable.types.schema = typesCatalogSchema from rfl,
        DynamicCodec.decode_types (types rfl)] at decoded
      cases decoded

theorem not_readsSame {log : List (Event N)} (state : RunState log manager s)
    (system : SystemState manager s) (table : CatalogTable) :
    ¬ ReadsSame manager table.row.tableName table := by
  intro reads
  obtain ⟨user, manager', hf, it, tuples, after, rows, after', opened, relation, scanned,
    scanned', same⟩ := reads
  have opens : user.schema = table.schema ∧ user.hf = table.heapFile ∧
      manager'.catalog.Holds s := by
    rcases state.stands.openTable_cases table.row.tableName with ⟨missing, _⟩ |
      ⟨user', after, opened', origin, _, _, stands'⟩
    · rw [system.found table] at missing
      cases missing
    · obtain ⟨rfl, rfl⟩ := opened.value_eq opened'
      rcases origin with cached | loaded
      · exact ⟨(system.cached table user cached).1, (system.cached table user cached).2, stands'.holds⟩
      · exact ⟨(system.loaded loaded).1, (system.loaded loaded).2, stands'.holds⟩
  obtain ⟨schema, heap, holds⟩ := opens
  have heap' : hf = table.heapFile := by
    rw [holds.relations table, Option.some.injEq] at relation
    exact relation.symm
  have linked := holds.shows.sound.linked _ _ (holds.present table)
  obtain ⟨bytes, rest, first, types⟩ := system.first_row table
  have records := HeapState.contents_bins s.view (s.chain table.index)
  rw [show FirstFit.contents (HeapState.bins s.view (s.chain table.index)) = bytes :: rest from first]
    at records
  obtain ⟨⟨rid, _⟩, more, listed, rfl, _⟩ := List.map_eq_cons_iff.mp records.symm
  have userLinked : Chain s.view user.relation.hf.firstPageId (s.chain table.index) := by
    rw [UserTable.relation, heap]
    exact linked
  obtain ⟨read, tup, tuples', length, decoded, rfl⟩ :=
    SeqScanOp.scan_first userLinked holds.shows.steady listed scanned
  rw [← heap'] at linked
  obtain ⟨read', row, rows', _, decoded', rfl⟩ :=
    SeqScanOp.scan_first linked holds.shows.steady listed scanned'
  exact fields_differ table schema (fun isTypes => length.trans (types isTypes)) decoded decoded'
    (List.cons.inj same).1

/-- In no state do the relations of the catalog read the same as the tables of their names. -/
theorem systemTables_differ [NeZero N] (start : TableManager N) (initialised : Initialised start)
    (log : List (Event N)) (manager : TableManager N) (run : DatabaseRun start log manager) :
    ¬ SystemTablesReadSame manager ∧
      ∀ table : CatalogTable, Finds manager table.row.tableName (some table.row) ∧
        ¬ ReadsSame manager table.row.tableName table := by
  obtain ⟨s, state, system⟩ := systemState initialised run
  have finds : ∀ table : CatalogTable, Finds manager table.row.tableName (some table.row) :=
    fun table => state.stands.finds_iff.mpr (system.found table)
  refine ⟨?_, fun table => ⟨finds table, not_readsSame state system table⟩⟩
  intro same
  exact not_readsSame state system .tables
    (same _ _ .tables (finds .tables) (state.stands.holds.relations .tables))

/-- After a table was made and flushed. -/
theorem systemTables_differ_table :
    ∃ (start manager : TableManager bufferPoolSize) (log : List (Event bufferPoolSize)),
      Initialised start ∧ DatabaseRun start log manager ∧ createdNames log = [ascii "t"] ∧
      ∀ table : CatalogTable, ¬ ReadsSame manager table.row.tableName table := by
  obtain ⟨start, manager, log, initialised, run, _, names⟩ := flushedTable_exists
  exact ⟨start, manager, log, initialised, run, names, fun table =>
    ((systemTables_differ start initialised log manager run).2 table).2⟩

/-- A new database already reads `db_tables` in two ways. -/
theorem systemTables_differ_at : ∃ manager : TableManager bufferPoolSize, Initialised manager ∧
    ¬ SystemTablesReadSame manager := by
  obtain ⟨manager, initialised⟩ :=
    @initialised_exists bufferPoolSize _ (fun _ _ => 0) (fun _ => 0)
  obtain ⟨s, state, system⟩ := systemState initialised .nil
  refine ⟨manager, initialised, fun same => not_readsSame state system .tables ?_⟩
  exact same _ _ .tables (state.stands.finds_iff.mpr (system.found .tables))
    (state.stands.holds.relations .tables)

end TableManager

end RelationalDb
