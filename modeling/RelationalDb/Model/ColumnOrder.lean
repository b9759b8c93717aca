import RelationalDb.Model.TableCache

set_option autoImplicit false

namespace RelationalDb

def ofTable (tableId : Uuid) (bytes : List UInt8) : Bool :=
  (ColumnInfoCodec.decode bytes).any (·.tableId = tableId)

theorem ofTable_encode {tableId : Uuid} {column : ColumnInfo}
    (fits : HeapState.ColumnFits column.colName) :
    ofTable tableId (ColumnInfoCodec.encode column) = decide (column.tableId = tableId) := by
  rw [ofTable, ColumnInfoCodec.decode_encode fits.short]
  rfl

theorem filter_ofTable {rows : List (List UInt8)} (encoded : ∀ bytes ∈ rows, ∃ column,
      bytes = ColumnInfoCodec.encode column ∧ HeapState.ColumnFits column.colName) (tableId : Uuid) :
    rows.filter (ofTable tableId) =
      ((rows.filterMap ColumnInfoCodec.decode).filter (·.tableId = tableId)).map
        ColumnInfoCodec.encode := by
  induction rows with
  | nil => rfl
  | cons bytes rest ih =>
      obtain ⟨column, rfl, fits⟩ := encoded bytes List.mem_cons_self
      have tail := ih fun other member => encoded other (List.mem_cons_of_mem _ member)
      have own := @ofTable_encode tableId column fits
      rw [List.filterMap_cons_some (ColumnInfoCodec.decode_encode fits.short), List.filter_cons,
        List.filter_cons, own, tail]
      split
      · rw [List.map_cons]
      · rfl

/-- Encoded rows are read back. -/
theorem filterMap_decode_encode {columns : List ColumnInfo}
    (fits : ∀ column ∈ columns, HeapState.ColumnFits column.colName) :
    (columns.map ColumnInfoCodec.encode).filterMap ColumnInfoCodec.decode = columns := by
  induction columns with
  | nil => rfl
  | cons column rest ih =>
      have own := ColumnInfoCodec.decode_encode (fits column List.mem_cons_self).short
      rw [List.map_cons, List.filterMap_cons_some own,
        ih fun other member => fits other (List.mem_cons_of_mem _ member)]

theorem HeapState.Catalogued.rows_filter {s : HeapState} {names : List (List UInt8)}
    {ids : List Uuid} (catalogued : s.Catalogued names ids) (tableId : Uuid) :
    (s.rows .attributes).filter (ofTable tableId) =
      (s.columnRows.filter (·.tableId = tableId)).map ColumnInfoCodec.encode := by
  apply filter_ofTable
  intro bytes member
  obtain ⟨column, same, fits, _⟩ := catalogued.columns bytes member
  exact ⟨column, same, fits⟩

namespace TableManager

open HeapFile
open HeapState (TableFits ColumnFits)

variable {N : Nat} {manager manager' : TableManager N} {s s' : HeapState} {name : List UInt8}
  {log : List (Event N)} {tableRandom fileRandom : Uuid} {columns : List RawColumnInfo}

/-- The columns are listed with the ordinal positions 1, 2, 3 and so on. -/
def Declared (columns : List RawColumnInfo) : Prop :=
  columns.map (·.ordinalPosition.toNat) = List.range' 1 columns.length

instance (columns : List RawColumnInfo) : Decidable (Declared columns) :=
  inferInstanceAs (Decidable (_ = _))

/-- The free space of the pages of a relation. -/
def Spaces (manager : TableManager N) (table : CatalogTable) (spaces : List Nat) : Prop :=
  ∃ chain, Chain manager.catalog.world.bm.contents table.heapFile.firstPageId chain ∧
    (HeapState.bins manager.catalog.world.bm.contents chain).map (·.space) = spaces

/-- No row of the columns has to go to a page in front of the row before it. -/
def RoomInOrder (manager : TableManager N) (columns : List RawColumnInfo) : Prop :=
  ∃ spaces, Spaces manager .attributes spaces ∧
    FirstFit.Ordered 8180 spaces (columns.map (·.colName.length + 30))

/-- `GetTableColumns` and the schema of `OpenTable` have the columns as they were
declared. -/
def InOrder (manager : TableManager N) (tableId : Uuid) (name : List UInt8)
    (columns : List RawColumnInfo) : Prop :=
  Lists manager tableId (columns.map (Catalog.columnInfo tableId)) ∧
    ∃ table after, (openTable name).Returns manager table after ∧
      table.schema = columns.map (Catalog.columnInfo tableId)

theorem Stands.roomInOrder_iff {names : List (List UInt8)} {ids : List Uuid}
    {rids : List (Nat × Rid)} (stands : Stands manager s names ids rids) :
    RoomInOrder manager columns ↔
      FirstFit.Ordered 8180 ((s.relationBins .attributes).map (·.space))
        (columns.map (·.colName.length + 30)) := by
  constructor
  · intro room
    obtain ⟨_, ⟨chain, linked, rfl⟩, ordered⟩ := room
    rw [← stands.chain_iff.mp linked, stands.bins_eq] at ordered
    exact ordered
  · intro ordered
    rw [← stands.bins_eq] at ordered
    exact ⟨_, ⟨_, stands.chain_iff.mpr rfl, rfl⟩, ordered⟩

theorem columnInfo_fits (columnsFit : ∀ column ∈ columns, ColumnFits column.colName)
    (tableId : Uuid) :
    ∀ column ∈ columns.map (Catalog.columnInfo tableId), ColumnFits column.colName := by
  intro column member
  obtain ⟨col, among, rfl⟩ := List.mem_map.mp member
  exact columnsFit col among

theorem Declared.nodup (declared : Declared columns)
    (columnsFit : ∀ column ∈ columns, ColumnFits column.colName) (tableId : Uuid) :
    ((columns.map (Catalog.columnInfo tableId)).map ColumnInfoCodec.encode).Nodup := by
  have fits := columnInfo_fits columnsFit tableId
  have positions : ((columns.map (Catalog.columnInfo tableId)).map
      (·.ordinalPosition.toNat)).Nodup := by
    rw [List.map_map]
    exact declared ▸ List.nodup_range'
  apply List.Nodup.map_on _ (positions.of_map _)
  intro first firstMember second secondMember same
  have decoded := ColumnInfoCodec.decode_encode (fits first firstMember).short
  rw [same, ColumnInfoCodec.decode_encode (fits second secondMember).short,
    Option.some.injEq] at decoded
  exact decoded.symm

theorem encode_sizes (columns : List RawColumnInfo) (tableId : Uuid) :
    ((columns.map (Catalog.columnInfo tableId)).map ColumnInfoCodec.encode).map rowSize =
      columns.map (·.colName.length + 30) := by
  rw [List.map_map, List.map_map]
  apply List.map_congr_left
  intro column _
  exact congrArg (· + 4) (ColumnInfoCodec.encode_length _)

/-- The rows of a table with a new id keep their order if they go to no earlier page. -/
theorem Created.columns_eq_iff
    (created : Created log manager s tableRandom fileRandom name columns manager' s')
    (columnsFit : ∀ column ∈ columns, ColumnFits column.colName) (declared : Declared columns)
    (unused : s.columnRows.filter (·.tableId = generateUuid tableRandom) = []) :
    s'.columnRows.filter (·.tableId = generateUuid tableRandom) =
        columns.map (Catalog.columnInfo (generateUuid tableRandom)) ↔
      FirstFit.Ordered 8180 ((s.relationBins .attributes).map (·.space))
        (columns.map (·.colName.length + 30)) := by
  have fits := columnInfo_fits columnsFit (generateUuid tableRandom)
  have after := created.after.catalogued.rows_filter (generateUuid tableRandom)
  have before := created.before.catalogued.rows_filter (generateUuid tableRandom)
  rw [unused, List.map_nil, List.filter_eq_nil_iff] at before
  have old : ∀ bytes ∈ FirstFit.contents (s.relationBins .attributes),
      ofTable (generateUuid tableRandom) bytes = false :=
    fun bytes member => Bool.eq_false_iff.mpr (before bytes member)
  have new : ∀ bytes ∈ (columns.map (Catalog.columnInfo (generateUuid tableRandom))).map
      ColumnInfoCodec.encode, ofTable (generateUuid tableRandom) bytes = true := by
    intro bytes member
    obtain ⟨column, among, rfl⟩ := List.mem_map.mp member
    rw [ofTable_encode (fits column among)]
    exact decide_eq_true (Catalog.columnInfo_own _ columns column among)
  have bins := created.rows.attributes_bins created.before.holds.shows.sound
    created.before.catalogued (Catalog.columnInfo_own _ columns) fits
  have packed := @FirstFit.filter_contents_insertAll_iff _ 8180 rowSize _ _ _ old new
    (declared.nodup columnsFit _)
  rw [encode_sizes, ← bins] at packed
  rw [← packed, show FirstFit.contents (s'.relationBins .attributes) = s'.rows .attributes from rfl,
    after]
  constructor
  · intro same
    rw [same]
  · intro same
    have rows := congrArg (List.filterMap ColumnInfoCodec.decode) same
    rw [filterMap_decode_encode fits, filterMap_decode_encode] at rows
    · exact rows
    · intro column member
      obtain ⟨bytes, among, decoded⟩ := List.mem_filterMap.mp (List.mem_of_mem_filter member)
      obtain ⟨column', isRow, small, _⟩ := created.after.catalogued.columns bytes among
      rw [isRow, ColumnInfoCodec.decode_encode small.short, Option.some.injEq] at decoded
      rw [← decoded]
      exact small

theorem Created.unused
    (created : Created log manager s tableRandom fileRandom name columns manager' s')
    (columnsFit : ∀ column ∈ columns, ColumnFits column.colName)
    (same : s'.columnRows.filter (·.tableId = generateUuid tableRandom) =
      columns.map (Catalog.columnInfo (generateUuid tableRandom))) :
    s.columnRows.filter (·.tableId = generateUuid tableRandom) = [] := by
  have own := Catalog.columnInfo_own (generateUuid tableRandom) columns
  have whole := created.rows.columnRows_perm created.before.holds.shows.sound
    created.before.catalogued own
  have fits : (columns.map (Catalog.columnInfo (generateUuid tableRandom))).filter
      (ColumnFits ·.colName) = columns.map (Catalog.columnInfo (generateUuid tableRandom)) := by
    rw [List.filter_eq_self]
    exact fun column member => decide_eq_true (columnInfo_fits columnsFit _ column member)
  have new : (columns.map (Catalog.columnInfo (generateUuid tableRandom))).filter
      (·.tableId = generateUuid tableRandom) =
        columns.map (Catalog.columnInfo (generateUuid tableRandom)) := by
    rw [List.filter_eq_self]
    exact fun column member => decide_eq_true (own column member)
  have part := (whole.filter (·.tableId = generateUuid tableRandom)).length_eq
  rw [fits, List.filter_append, new, same, List.length_append] at part
  apply List.eq_nil_of_length_eq_zero
  omega

theorem Created.openTable_returns
    (created : Created log manager s tableRandom fileRandom name columns manager' s')
    (fits : TableFits name) (free : s.tableRows.find? (·.tableName = name) = none)
    (notCached : manager'.cache name = none) :
    ∃ table after, (openTable name).Returns manager' table after ∧
      table.schema = s'.columnRows.filter (·.tableId = generateUuid tableRandom) := by
  have found := created.find?_new free fits
  rcases created.after.openTable_cases name with ⟨missing, _⟩ |
    ⟨table, after, opened, cached | ⟨row, isRow, rfl⟩, _⟩
  · rw [found] at missing
    cases missing
  · rw [notCached] at cached
    cases cached
  · rw [found, Option.some.injEq] at isRow
    refine ⟨_, after, opened, ?_⟩
    rw [← isRow]

theorem createTable_notCached [NeZero N] (holds : CacheState log manager s)
    (free : s.tableRows.find? (·.tableName = name) = none) {outcome : Except Error Answer}
    (step : databaseStep log manager ⟨.createTable tableRandom fileRandom name columns, outcome⟩
      manager') : manager'.cache name = none := by
  have kept : manager'.cache = manager.cache :=
    ((onCatalog_keeps _).bind fun _ => .pure _) _ _ _ step.1
  rw [kept]
  cases present : manager.cache name with
  | none => rfl
  | some table =>
      obtain ⟨row, found⟩ := holds.found name table present
      rw [free] at found
      cases found

theorem inOrder_iff [NeZero N] {start : TableManager N} (initialised : Initialised start)
    (run : DatabaseRun start log manager) (free : Finds manager name none) (fits : TableFits name)
    (columnsFit : ∀ column ∈ columns, ColumnFits column.colName) (declared : Declared columns)
    {outcome : Except Error Answer}
    (step : databaseStep log manager ⟨.createTable tableRandom fileRandom name columns, outcome⟩
      manager') :
    InOrder manager' (generateUuid tableRandom) name columns ↔
      Lists manager (generateUuid tableRandom) [] ∧ RoomInOrder manager columns := by
  obtain ⟨s, holds⟩ := cacheState initialised run
  obtain ⟨_, s', created⟩ := holds.state.created step
  have noRow := created.before.finds_iff.mp free
  have notCached := createTable_notCached holds noRow step
  rw [created.before.roomInOrder_iff, created.before.lists_iff, InOrder, created.after.lists_iff]
  constructor
  · intro inOrder
    have unused := created.unused columnsFit inOrder.1
    exact ⟨unused, (created.columns_eq_iff columnsFit declared unused).mp inOrder.1⟩
  · intro condition
    have same := (created.columns_eq_iff columnsFit declared condition.1).mpr condition.2
    have opens := created.openTable_returns fits noRow notCached
    rw [same] at opens
    exact ⟨same, opens⟩

/-- A new table has its columns in the declared order exactly if no row of them has to
go to a page in front of the row before it, and no other row has the generated id. -/
theorem createTable_inOrder_iff [NeZero N] (start : TableManager N)
    (initialised : Initialised start) (log : List (Event N)) (manager : TableManager N)
    (run : DatabaseRun start log manager) (tableRandom fileRandom : Uuid) (name : List UInt8)
    (columns : List RawColumnInfo) (free : Finds manager name none) (fits : TableFits name)
    (columnsFit : ∀ column ∈ columns, ColumnFits column.colName) (declared : Declared columns)
    (outcome : Except Error Answer) (manager' : TableManager N)
    (step : databaseStep log manager ⟨.createTable tableRandom fileRandom name columns, outcome⟩
      manager') :
    InOrder manager' (generateUuid tableRandom) name columns ↔
      Lists manager (generateUuid tableRandom) [] ∧ RoomInOrder manager columns :=
  inOrder_iff initialised run free fits columnsFit declared step

theorem Initialised.roomInOrder_iff [NeZero N] {start : TableManager N}
    (initialised : Initialised start) :
    RoomInOrder start columns ↔
      FirstFit.Ordered 8180 [7748] (columns.map (·.colName.length + 30)) := by
  obtain ⟨s, booted⟩ := initialised.booted
  have spaces : (s.relationBins .attributes).map (·.space) = [7748] := by
    rw [booted.columns]
    decide
  rw [booted.state.stands.roomInOrder_iff, spaces]

/-- The third column fits the page that was too full for the second. -/
theorem createTable_reorders : ∃ start manager' : TableManager bufferPoolSize,
    Initialised start ∧
      databaseStep [] start ⟨.createTable (fun _ => 0) (fun _ => 0) (ascii "t")
        [⟨List.replicate 5000 0, intType, 1⟩, ⟨List.replicate 5000 1, intType, 2⟩,
          ⟨ascii "c", intType, 3⟩], .ok (.created (generateUuid fun _ => 0))⟩ manager' ∧
      ¬ InOrder manager' (generateUuid fun _ => 0) (ascii "t")
        [⟨List.replicate 5000 0, intType, 1⟩, ⟨List.replicate 5000 1, intType, 2⟩,
          ⟨ascii "c", intType, 3⟩] := by
  have columnsFit : ∀ column ∈ [(⟨List.replicate 5000 0, intType, 1⟩ : RawColumnInfo),
      ⟨List.replicate 5000 1, intType, 2⟩, ⟨ascii "c", intType, 3⟩],
      ColumnFits column.colName := by
    simp only [List.mem_cons, List.not_mem_nil, or_false, forall_eq_or_imp, forall_eq, ColumnFits,
      List.length_replicate]
    decide
  obtain ⟨start, manager', initialised, step, free⟩ := @first_createTable bufferPoolSize _
    (ascii "t") _ (sized_of_fits (by decide) columnsFit) (by decide)
  refine ⟨start, manager', initialised, step, fun inOrder => ?_⟩
  have condition := (inOrder_iff initialised .nil (free (by decide)) (by decide) columnsFit
    (by decide) step).mp inOrder
  have ordered := initialised.roomInOrder_iff.mp condition.2
  simp only [List.map_cons, List.map_nil, List.length_replicate] at ordered
  revert ordered
  decide

theorem createTable_inOrder_iff_three : ∃ start manager' : TableManager bufferPoolSize,
    Initialised start ∧ InOrder manager' (generateUuid fun _ => 0) (ascii "t")
      [⟨ascii "c", intType, 1⟩, ⟨ascii "d", textType, 2⟩, ⟨ascii "e", intType, 3⟩] := by
  have columnsFit : ∀ column ∈ [(⟨ascii "c", intType, 1⟩ : RawColumnInfo),
      ⟨ascii "d", textType, 2⟩, ⟨ascii "e", intType, 3⟩], ColumnFits column.colName := by
    simp only [List.mem_cons, List.not_mem_nil, or_false, forall_eq_or_imp, forall_eq]
    decide
  obtain ⟨start, manager', initialised, step, free⟩ := @first_createTable bufferPoolSize _
    (ascii "t") _ (sized_of_fits (by decide) columnsFit) (by decide)
  obtain ⟨s, booted⟩ := initialised.booted
  have holds := booted.state
  have unused : s.columnRows.filter (·.tableId = generateUuid fun _ => 0) = [] := by
    rw [List.filter_eq_nil_iff]
    intro column member same
    have known := holds.stands.column_known member
    rw [decide_eq_true_iff.mp same] at known
    exact fresh_id List.not_mem_nil known
  refine ⟨start, manager', initialised, ?_⟩
  exact (createTable_inOrder_iff start initialised [] start .nil (fun _ => 0) (fun _ => 0)
    (ascii "t") _ (free (by decide)) (by decide) columnsFit (by decide) _ manager' step).mpr
      ⟨holds.stands.lists_iff.mpr unused, initialised.roomInOrder_iff.mpr (by decide)⟩

end TableManager

end RelationalDb
