import RelationalDb.Catalog.CatalogAnswers
import RelationalDb.Model.Restart

set_option autoImplicit false

namespace RelationalDb.TableManager

open HeapFile
open HeapState (TableFits ColumnFits)

variable {N : Nat}

/-- `LookupTable` gives this answer. -/
def Finds (manager : TableManager N) (name : List UInt8) (answer : Option TableInfo) : Prop :=
  ∃ after, (Catalog.lookupTable name).Returns manager.catalog answer after

/-- `GetTableColumns` gives this answer. -/
def Lists (manager : TableManager N) (tableId : Uuid) (cols : List ColumnInfo) : Prop :=
  ∃ after, (Catalog.getTableColumns tableId).Returns manager.catalog cols after

/-- The live records of a relation, as the bytes of the pages have them now. -/
def Holds (manager : TableManager N) (table : CatalogTable) (records : List (Rid × List UInt8)) :
    Prop :=
  ∃ chain, Chain manager.catalog.world.bm.contents table.heapFile.firstPageId chain ∧
    heapRecords manager.catalog.world.bm.contents chain = records

variable {manager manager' : TableManager N} {s s' : HeapState} {names : List (List UInt8)}
  {ids : List Uuid} {rids : List (Nat × Rid)} {name : List UInt8}

theorem Stands.finds_iff (stands : Stands manager s names ids rids) {answer : Option TableInfo} :
    Finds manager name answer ↔ s.tableRows.find? (·.tableName = name) = answer := by
  obtain ⟨bm', found, _⟩ := stands.holds.lookup_returns stands.catalogued name
  constructor
  · intro finds
    obtain ⟨after, returned⟩ := finds
    exact (found.value_eq returned).1
  · intro same
    rw [same] at found
    exact ⟨_, found⟩

theorem Stands.lists_iff (stands : Stands manager s names ids rids) {tableId : Uuid}
    {cols : List ColumnInfo} :
    Lists manager tableId cols ↔ s.columnRows.filter (·.tableId = tableId) = cols := by
  obtain ⟨bm', listed, _⟩ := stands.holds.getColumns_returns stands.catalogued tableId
  constructor
  · intro lists
    obtain ⟨after, returned⟩ := lists
    exact (listed.value_eq returned).1
  · intro same
    rw [same] at listed
    exact ⟨_, listed⟩

/-- The pages of a relation. -/
theorem Stands.chain_iff (stands : Stands manager s names ids rids) {table : CatalogTable}
    {chain : List Int} :
    Chain manager.catalog.world.bm.contents table.heapFile.firstPageId chain ↔
      s.chain table.index = chain := by
  have own := stands.holds.shows.chained.linked table.index table.heapFile (by
    rw [stands.holds.shows.heaps]
    exact stands.catalogued.present table)
  constructor
  · intro linked
    exact own.unique linked
  · intro same
    rw [← same]
    exact own

theorem Stands.contents_eq (stands : Stands manager s names ids rids) {i : Nat} {pageId : Int}
    (member : pageId ∈ s.chain i) :
    manager.catalog.world.bm.contents pageId = s.view pageId :=
  stands.holds.shows.sound.contents_eq stands.holds.shows.steady.toBacked member

theorem Stands.bins_eq (stands : Stands manager s names ids rids) (table : CatalogTable) :
    HeapState.bins manager.catalog.world.bm.contents (s.chain table.index) =
      s.relationBins table :=
  HeapState.bins_congr fun _ member => stands.contents_eq member

theorem Stands.rows_iff (stands : Stands manager s names ids rids) {table : CatalogTable}
    {rows : List (List UInt8)} :
    (∃ records, Holds manager table records ∧ records.map Prod.snd = rows) ↔
      s.rows table = rows := by
  have same : (heapRecords manager.catalog.world.bm.contents (s.chain table.index)).map Prod.snd =
      s.rows table := by
    rw [← HeapState.contents_bins, stands.bins_eq]
    rfl
  constructor
  · intro holds
    obtain ⟨_, ⟨chain, linked, rfl⟩, rfl⟩ := holds
    rw [← stands.chain_iff.mp linked]
    exact same.symm
  · intro isRows
    exact ⟨_, ⟨_, stands.chain_iff.mpr rfl, rfl⟩, same.trans isRows⟩

theorem Stands.free (stands : Stands manager s names ids rids) (unknown : name ∉ names) :
    s.tableRows.find? (·.tableName = name) = none := by
  cases found : s.tableRows.find? (·.tableName = name) with
  | none => rfl
  | some row =>
      have named := (stands.catalogued.leadsTo_of_find found).named
      have same : row.tableName = name := by simpa using List.find?_some found
      rw [same] at named
      exact absurd named unknown

theorem fresh_id {log : List (Event N)} {random : Uuid}
    (newId : generateUuid random ∉ createdIds log) : generateUuid random ∉ knownIds log := by
  intro known
  rcases List.mem_append.mp known with created | system
  · exact newId created
  · simp only [Catalog.systemIds, List.mem_cons, List.not_mem_nil, or_false] at system
    rcases system with same | same | same
    · exact generateUuid_ne_makeUuid random 2 same
    · exact generateUuid_ne_makeUuid random 3 same
    · exact generateUuid_ne_makeUuid random 4 same

theorem Stands.column_known (stands : Stands manager s names ids rids) {column : ColumnInfo}
    (member : column ∈ s.columnRows) : column.tableId ∈ ids := by
  obtain ⟨bytes, among, decoded⟩ := List.mem_filterMap.mp member
  obtain ⟨column', same, fits, known⟩ := stands.catalogued.columns bytes among
  rw [same, ColumnInfoCodec.decode_encode fits.short, Option.some.injEq] at decoded
  rw [← decoded]
  exact known

/-- A `CreateTable` of a run, with the pages before and after. -/
structure Created (log : List (Event N)) (manager : TableManager N) (s : HeapState)
    (tableRandom fileRandom : Uuid) (name : List UInt8) (columns : List RawColumnInfo)
    (manager' : TableManager N) (s' : HeapState) : Prop where
  before : Stands manager s (knownNames log) (knownIds log) (issued (heapEvents log))
  first : s.FirstRows
  after : Stands manager' s' (name :: knownNames log) (generateUuid tableRandom :: knownIds log)
    (issued (heapEvents log))
  rows : s.TableCreated (generateUuid tableRandom) (generateUuid fileRandom) name
    (columns.map (Catalog.columnInfo (generateUuid tableRandom))) s'
  heaps : manager'.catalog.world.heaps =
    manager.catalog.world.heaps ++ [⟨generateUuid fileRandom, s.pages⟩]

variable {log : List (Event N)} {tableRandom fileRandom : Uuid} {columns : List RawColumnInfo}

theorem RunState.created [NeZero N] (holds : RunState log manager s)
    {outcome : Except Error Answer}
    (step : databaseStep log manager ⟨.createTable tableRandom fileRandom name columns, outcome⟩
      manager') :
    outcome = .ok (.created (generateUuid tableRandom)) ∧
      ∃ s', Created log manager s tableRandom fileRandom name columns manager' s' := by
  obtain ⟨stands, first, _⟩ := holds
  obtain ⟨ended, sized, unwrapped⟩ := step
  obtain ⟨rfl, s', creates, stands'⟩ := stands.createTable_ends sized unwrapped ended
  exact ⟨rfl, s', stands, first, stands', creates.created, creates.heaps⟩

theorem created_of_step [NeZero N] {start : TableManager N} (initialised : Initialised start)
    (run : DatabaseRun start log manager) {outcome : Except Error Answer}
    (step : databaseStep log manager ⟨.createTable tableRandom fileRandom name columns, outcome⟩
      manager') :
    outcome = .ok (.created (generateUuid tableRandom)) ∧
      ∃ s s', Created log manager s tableRandom fileRandom name columns manager' s' := by
  obtain ⟨s, holds⟩ := runState initialised run
  exact ⟨(holds.created step).1, s, (holds.created step).2⟩

section Created

variable (created : Created log manager s tableRandom fileRandom name columns manager' s')

include created

theorem Created.tableRows :
    if TableFits name then
      FirstFit.OneMore s.tableRows
        ⟨generateUuid tableRandom, name, generateUuid fileRandom, s.pages⟩ s'.tableRows
    else s'.tableRows = s.tableRows :=
  created.rows.tableRows created.before.holds.shows.sound created.before.catalogued
    (Catalog.columnInfo_own _ columns)

/-- The columns the catalog has for the new table. -/
theorem Created.columns_perm (newId : generateUuid tableRandom ∉ createdIds log) :
    (s'.columnRows.filter (·.tableId = generateUuid tableRandom)).Perm
      ((columns.map (Catalog.columnInfo (generateUuid tableRandom))).filter
        (ColumnFits ·.colName)) := by
  have whole := created.rows.columnRows_perm created.before.holds.shows.sound
    created.before.catalogued
    (Catalog.columnInfo_own _ columns)
  have old : s.columnRows.filter (·.tableId = generateUuid tableRandom) = [] := by
    rw [List.filter_eq_nil_iff]
    intro column member same
    have known := created.before.column_known member
    rw [decide_eq_true_iff.mp same] at known
    exact fresh_id newId known
  have new : ((columns.map (Catalog.columnInfo (generateUuid tableRandom))).filter
      (ColumnFits ·.colName)).filter (·.tableId = generateUuid tableRandom) =
        (columns.map (Catalog.columnInfo (generateUuid tableRandom))).filter
          (ColumnFits ·.colName) := by
    rw [List.filter_eq_self]
    intro column member
    exact decide_eq_true (Catalog.columnInfo_own _ columns column (List.mem_of_mem_filter member))
  have part := whole.filter (·.tableId = generateUuid tableRandom)
  rw [List.filter_append, old, new, List.nil_append] at part
  exact part

theorem Created.find?_new (free : s.tableRows.find? (·.tableName = name) = none)
    (fits : TableFits name) : s'.tableRows.find? (·.tableName = name) =
      some ⟨generateUuid tableRandom, name, generateUuid fileRandom, s.pages⟩ := by
  have more := created.tableRows
  rw [if_pos fits] at more
  exact more.find?_self (decide_eq_true rfl) free

theorem Created.find?_other {other : List UInt8} (apart : other ≠ name) :
    s'.tableRows.find? (·.tableName = other) = s.tableRows.find? (·.tableName = other) := by
  have more := created.tableRows
  split at more
  · apply more.find?_other
    simpa using Ne.symm apart
  · rw [more]

end Created

/-- The catalog after a `CreateTable` that went as it should. -/
structure AnswersNew (manager : TableManager N) (tableId fileId : Uuid) (name : List UInt8)
    (columns : List RawColumnInfo) (manager' : TableManager N) : Prop where
  table : ∃ firstPageId, manager'.catalog.world.heaps =
      manager.catalog.world.heaps ++ [⟨fileId, firstPageId⟩] ∧
    Finds manager' name (some ⟨tableId, name, fileId, firstPageId⟩)
  columns : ∃ cols, Lists manager' tableId cols ∧
    cols.Perm (columns.map (Catalog.columnInfo tableId))
  otherTables : ∀ other, other ≠ name → ∃ answer, Finds manager other answer ∧
    Finds manager' other answer
  otherColumns : ∀ other, other ≠ tableId → ∃ cols, Lists manager other cols ∧
    Lists manager' other cols

/-- The rows of a table and of its columns that fit a page are shorter than 2^63 bytes. -/
theorem sized_of_fits (fits : TableFits name) (columnsFit : ∀ column ∈ columns,
    ColumnFits column.colName) : Catalog.Sized name columns := by
  unfold TableFits at fits
  refine ⟨by omega, ?_⟩
  intro column member
  have small := columnsFit column member
  unfold ColumnFits at small
  omega

/-- A `CreateTable` with a free name and rows that fit a page adds its table to the
catalog and changes no other answer. -/
theorem createTable_answers [NeZero N] (start : TableManager N) (initialised : Initialised start)
    (log : List (Event N)) (manager : TableManager N) (run : DatabaseRun start log manager)
    (tableRandom fileRandom : Uuid) (newId : generateUuid tableRandom ∉ createdIds log)
    (name : List UInt8) (columns : List RawColumnInfo) (free : Finds manager name none)
    (fits : TableFits name) (columnsFit : ∀ column ∈ columns, ColumnFits column.colName) :
    (nextAllocated manager.catalog.world.bm + columns.length + 2 < 2 ^ 31 →
      ∃ outcome manager', databaseStep log manager
        ⟨.createTable tableRandom fileRandom name columns, outcome⟩ manager') ∧
    ∀ outcome manager', databaseStep log manager
        ⟨.createTable tableRandom fileRandom name columns, outcome⟩ manager' →
      outcome = .ok (.created (generateUuid tableRandom)) ∧
        AnswersNew manager (generateUuid tableRandom) (generateUuid fileRandom) name columns
          manager' := by
  constructor
  · intro room
    obtain ⟨s, stands, _, _⟩ := runState initialised run
    have next : nextAllocated manager.catalog.world.bm = s.pages :=
      stands.holds.shows.steady.allocated.next
    obtain ⟨manager', _, step, _⟩ := stands.createTable_step (sized_of_fits fits columnsFit)
      (by omega) tableRandom fileRandom log
    exact ⟨_, manager', step⟩
  · intro outcome manager' step
    obtain ⟨rfl, s, s', created⟩ := created_of_step initialised run step
    have found := created.find?_new (created.before.finds_iff.mp free) fits
    refine ⟨rfl, ⟨s.pages, created.heaps, created.after.finds_iff.mpr found⟩,
      ⟨_, created.after.lists_iff.mpr rfl, ?_⟩, ?_, ?_⟩
    · have all : (columns.map (Catalog.columnInfo (generateUuid tableRandom))).filter
          (ColumnFits ·.colName) = columns.map (Catalog.columnInfo (generateUuid tableRandom)) := by
        rw [List.filter_eq_self]
        intro column member
        obtain ⟨col, among, rfl⟩ := List.mem_map.mp member
        exact decide_eq_true (columnsFit col among)
      rw [← all]
      exact created.columns_perm newId
    · intro other apart
      refine ⟨_, created.before.finds_iff.mpr rfl, created.after.finds_iff.mpr ?_⟩
      exact created.find?_other apart
    · intro other apart
      refine ⟨_, created.before.lists_iff.mpr rfl, created.after.lists_iff.mpr ?_⟩
      exact created.rows.columnRows_other created.before.holds.shows.sound
        created.before.catalogued (Catalog.columnInfo_own _ columns) apart.symm

/-- The first table of a new database. -/
theorem createTable_answers_first : ∃ start manager' : TableManager bufferPoolSize,
    Initialised start ∧ AnswersNew start (generateUuid fun _ => 0) (generateUuid fun _ => 0)
      (ascii "t") [⟨ascii "c", intType, 1⟩] manager' := by
  obtain ⟨start, initialised⟩ := @initialised_exists bufferPoolSize _ (fun _ _ => 0) (fun _ => 0)
  obtain ⟨s, booted⟩ := initialised.booted
  have stands := booted.state.stands
  have few := booted.few
  have free : Finds start (ascii "t") none := stands.finds_iff.mpr (stands.free (by decide))
  have small : ∀ column ∈ [(⟨ascii "c", intType, 1⟩ : RawColumnInfo)], ColumnFits column.colName := by
    intro column member
    rw [List.mem_singleton.mp member]
    decide
  obtain ⟨ends, answers⟩ := createTable_answers start initialised [] start .nil (fun _ => 0)
    (fun _ => 0) List.not_mem_nil (ascii "t") [⟨ascii "c", intType, 1⟩] free (by decide) small
  have next : nextAllocated start.catalog.world.bm = s.pages :=
    stands.holds.shows.steady.allocated.next
  obtain ⟨outcome, manager', step⟩ :=
    ends (show nextAllocated start.catalog.world.bm + 1 + 2 < 2 ^ 31 by omega)
  exact ⟨start, manager', initialised, (answers outcome manager' step).2⟩

/-- `CreateTable` has created the whole table, or it reports failure and has left the
rows of the catalog alone. -/
def AllOrNothing (manager : TableManager N) (name : List UInt8) (columns : List RawColumnInfo)
    (outcome : Except Error Answer) (manager' : TableManager N) : Prop :=
  (∃ tableId, outcome = .ok (.created tableId) ∧
    (∃ row, Finds manager' name (some row) ∧ row.tableId = tableId) ∧
    ∃ cols, Lists manager' tableId cols ∧
      ∀ column ∈ columns, Catalog.columnInfo tableId column ∈ cols) ∨
  ∃ reason, outcome = .error reason ∧ ∀ table records, Holds manager table records →
    Holds manager' table records

/-- The name is free and every row fits a page. -/
structure Creatable (manager : TableManager N) (name : List UInt8) (columns : List RawColumnInfo) :
    Prop where
  free : Finds manager name none
  table : TableFits name
  columns : ∀ column ∈ columns, ColumnFits column.colName

theorem Created.allOrNothing
    (created : Created log manager s tableRandom fileRandom name columns manager' s')
    (creatable : Creatable manager name columns) :
    AllOrNothing manager name columns (.ok (.created (generateUuid tableRandom))) manager' := by
  have found := created.find?_new (created.before.finds_iff.mp creatable.free) creatable.table
  refine Or.inl ⟨_, rfl, ⟨_, created.after.finds_iff.mpr found, rfl⟩, _,
    created.after.lists_iff.mpr rfl, ?_⟩
  intro column member
  have whole := created.rows.columnRows_perm created.before.holds.shows.sound
    created.before.catalogued (Catalog.columnInfo_own _ columns)
  rw [List.mem_filter, whole.mem_iff, List.mem_append]
  refine ⟨Or.inr (List.mem_filter.mpr ⟨List.mem_map_of_mem member, ?_⟩), decide_eq_true rfl⟩
  exact decide_eq_true (creatable.columns column member)

/-- Without one of the conditions something is missing. -/
theorem Created.creatable
    (created : Created log manager s tableRandom fileRandom name columns manager' s')
    (newId : generateUuid tableRandom ∉ createdIds log)
    (whole : AllOrNothing manager name columns (.ok (.created (generateUuid tableRandom))) manager') :
    Creatable manager name columns := by
  rcases whole with ⟨tableId, same, ⟨row, found, own⟩, cols, listed, all⟩ | ⟨_, failed, _⟩
  · cases same
    have isRow := created.after.finds_iff.mp found
    have more := created.tableRows
    have oldId : ∀ row ∈ s.tableRows, row.tableId ≠ generateUuid tableRandom := by
      intro other member isNew
      have known := (created.before.catalogued.row_of_mem member).2.known
      rw [isNew] at known
      exact fresh_id newId known
    have fits : TableFits name := by
      by_contra tooLong
      rw [if_neg tooLong] at more
      rw [more] at isRow
      exact oldId row (List.mem_of_find?_eq_some isRow) own
    refine ⟨created.before.finds_iff.mpr ?_, fits, ?_⟩
    · cases taken : s.tableRows.find? (·.tableName = name) with
      | none => rfl
      | some old =>
          have still := created.rows.find?_kept created.before.holds.shows.sound
            created.before.catalogued (Catalog.columnInfo_own _ columns) created.first taken
          rw [isRow, Option.some.injEq] at still
          rw [still] at own
          exact absurd own (oldId old (List.mem_of_find?_eq_some taken))
    · intro column member
      rw [← created.after.lists_iff.mp listed] at all
      have kept := (created.columns_perm newId).mem_iff.mp (all column member)
      exact decide_eq_true_iff.mp (List.mem_filter.mp kept).2
  · cases failed

/-- `CreateTable` is all or nothing exactly for a free name and rows that fit a page. -/
theorem createTable_allOrNothing_iff [NeZero N] (start : TableManager N)
    (initialised : Initialised start) (log : List (Event N)) (manager : TableManager N)
    (run : DatabaseRun start log manager) (tableRandom fileRandom : Uuid) (name : List UInt8)
    (columns : List RawColumnInfo) (outcome : Except Error Answer) (manager' : TableManager N)
    (step : databaseStep log manager ⟨.createTable tableRandom fileRandom name columns, outcome⟩
      manager') :
    (Creatable manager name columns → AllOrNothing manager name columns outcome manager') ∧
    (generateUuid tableRandom ∉ createdIds log →
      AllOrNothing manager name columns outcome manager' → Creatable manager name columns) := by
  obtain ⟨rfl, s, s', created⟩ := created_of_step initialised run step
  exact ⟨created.allOrNothing, created.creatable⟩

theorem single_fits {column : RawColumnInfo} (fits : ColumnFits column.colName) :
    ∀ other ∈ [column], ColumnFits other.colName := by
  intro other member
  rw [List.mem_singleton.mp member]
  exact fits

theorem first_createTable [NeZero N] (name : List UInt8) {columns : List RawColumnInfo}
    (sized : Catalog.Sized name columns) (few : columns.length ≤ 20) :
    ∃ start manager' : TableManager N, Initialised start ∧
      databaseStep [] start ⟨.createTable (fun _ => 0) (fun _ => 0) name columns,
        .ok (.created (generateUuid fun _ => 0))⟩ manager' ∧
      (name ∉ systemNames → Finds start name none) := by
  obtain ⟨start, initialised⟩ := @initialised_exists N _ (fun _ _ => 0) (fun _ => 0)
  obtain ⟨s, booted⟩ := initialised.booted
  have stands := booted.state.stands
  have pages := booted.few
  obtain ⟨manager', _, step, _⟩ :=
    stands.createTable_step sized (by omega) (fun _ => 0) (fun _ => 0) []
  exact ⟨start, manager', initialised, step, fun free => stands.finds_iff.mpr (stands.free free)⟩

/-- A table with a column whose row fits no page is created without the column. -/
theorem createTable_loses_column : ∃ start manager' : TableManager bufferPoolSize,
    Initialised start ∧
      databaseStep [] start ⟨.createTable (fun _ => 0) (fun _ => 0) (ascii "t")
        [⟨List.replicate 9000 0, intType, 1⟩], .ok (.created (generateUuid fun _ => 0))⟩ manager' ∧
      ¬ AllOrNothing start (ascii "t") [⟨List.replicate 9000 0, intType, 1⟩]
        (.ok (.created (generateUuid fun _ => 0))) manager' := by
  have sized : Catalog.Sized (ascii "t") [⟨List.replicate 9000 0, intType, 1⟩] := by
    refine ⟨by decide, fun column member => ?_⟩
    rw [List.mem_singleton.mp member, List.length_replicate]
    omega
  obtain ⟨start, manager', initialised, step, _⟩ :=
    @first_createTable bufferPoolSize _ (ascii "t") _ sized (Nat.le_of_ble_eq_true rfl)
  refine ⟨start, manager', initialised, step, fun whole => ?_⟩
  obtain ⟨_, s, s', created⟩ := created_of_step initialised .nil step
  have fits := (created.creatable List.not_mem_nil whole).columns _ (List.mem_singleton_self _)
  rw [ColumnFits, List.length_replicate] at fits
  omega

theorem createTable_allOrNothing_iff_first : ∃ start manager' : TableManager bufferPoolSize,
    Initialised start ∧ AllOrNothing start (ascii "t") [⟨ascii "c", intType, 1⟩]
      (.ok (.created (generateUuid fun _ => 0))) manager' := by
  have small := @single_fits ⟨ascii "c", intType, 1⟩ (by decide)
  obtain ⟨start, manager', initialised, step, free⟩ :=
    @first_createTable bufferPoolSize _ (ascii "t") _ (sized_of_fits (by decide) small) (by decide)
  refine ⟨start, manager', initialised, ?_⟩
  exact (createTable_allOrNothing_iff start initialised [] start .nil (fun _ => 0) (fun _ => 0)
    (ascii "t") [⟨ascii "c", intType, 1⟩] _ manager' step).1
      ⟨free (by decide), by decide, small⟩

end RelationalDb.TableManager
