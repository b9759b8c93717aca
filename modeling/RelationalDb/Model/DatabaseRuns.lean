import RelationalDb.Catalog.CatalogAnswers
import RelationalDb.Catalog.CatalogReopen
import RelationalDb.Model.TableManager

set_option autoImplicit false

namespace RelationalDb.TableManager

open HeapFile

variable {N : Nat}

structure Event (N : Nat) where
  op : Op N
  outcome : Except Error Answer

/-- The calls on heap files with their answers. -/
def heapEvents : List (Event N) → List HeapEvent
  | [] => []
  | event :: log =>
      match event.op, event.outcome with
      | .heap op, .ok (.heap answer) => ⟨op, .ok answer⟩ :: heapEvents log
      | _, _ => heapEvents log

def createdNames : List (Event N) → List (List UInt8)
  | [] => []
  | event :: log =>
      match event.op, event.outcome with
      | .createTable _ _ name _, .ok _ => name :: createdNames log
      | _, _ => createdNames log

def createdIds : List (Event N) → List Uuid
  | [] => []
  | event :: log =>
      match event.op, event.outcome with
      | .createTable tableRandom _ _ _, .ok _ => generateUuid tableRandom :: createdIds log
      | _, _ => createdIds log

/-- The last call was `flush_all`. -/
def EndsFlushed : List (Event N) → Prop
  | ⟨.flushAll, _⟩ :: _ => True
  | _ => False

/-- Rows of tables that were created, record ids their heap issued, byte strings
shorter than 2^63, and a file that is opened again only after a flush. -/
def Given (log : List (Event N)) : Op N → Prop
  | .createTable _ _ name columns => Catalog.Sized name columns
  | .insert name values => name ∉ systemNames ∧
      ∀ schema bytes, DynamicCodec.encode values schema = some bytes → bytes.length < 2 ^ 63
  | .heap op => GivenRids (heapEvents log) op
  | .restart _ _ => EndsFlushed log
  | _ => True

/-- The calls that a call does the work of: `CreateTable` makes a heap and inserts
one row after the other. -/
def Op.parts : Op N → List (Op N)
  | createTable tableRandom fileRandom name columns =>
      heap (.create (generateUuid fileRandom)) ::
        columns.inits.map (createTable tableRandom fileRandom name)
  | op => [op]

/-- There are fewer than 2^31 pages: the id of the next page has not wrapped round. -/
def Unwrapped [NeZero N] (manager : TableManager N) (op : Op N) : Prop :=
  ∀ part ∈ op.parts, ∀ outcome manager', part.run manager = some (outcome, manager') →
    0 ≤ nextAllocated manager'.catalog.world.bm

def databaseStep [NeZero N] (log : List (Event N)) (manager : TableManager N) (event : Event N)
    (manager' : TableManager N) : Prop :=
  event.op.run manager = some (event.outcome, manager') ∧ Given log event.op ∧
    Unwrapped manager event.op

abbrev DatabaseRun [NeZero N] (start : TableManager N) :
    List (Event N) → TableManager N → Prop :=
  Run databaseStep start

/-- A catalog on an empty file that `Init` has set up. -/
def Initialised [NeZero N] (manager : TableManager N) : Prop :=
  ∃ raw buf, (onCatalog (Catalog.init buf)).Returns (new raw File.empty []) ⟨⟩ manager

/-- A table of the cache leads to its heap. -/
structure Cached (s : HeapState) (names : List (List UInt8)) (name : List UInt8)
    (table : UserTable) : Prop where
  named : name ∈ names
  made : table.hf.firstPageId ≠ invalidPageId
  place : ∃ i, s.heaps[i]? = some table.hf ∧ (name ∉ systemNames → 3 ≤ i)

/-- Every page is on the disk as it is in the pool. -/
def Flushed (manager : TableManager N) (s : HeapState) : Prop :=
  ∀ pageId page, s.view pageId = some page →
    stored manager.catalog.world.bm.disk pageId = some page

/-- A catalog and a cache on the pages of a heap state, with the names and the ids of
the tables that were created and the record ids that were issued. -/
structure Stands (manager : TableManager N) (s : HeapState) (names : List (List UInt8))
    (ids : List Uuid) (rids : List (Nat × Rid)) : Prop where
  holds : manager.catalog.Holds s
  catalogued : s.Catalogued names ids
  cached : ∀ name table, manager.cache name = some table → Cached s names name table
  known : ∀ entry ∈ rids, s.Known (3 + entry.1) entry.2

def knownNames (log : List (Event N)) : List (List UInt8) := createdNames log ++ systemNames

def knownIds (log : List (Event N)) : List Uuid := createdIds log ++ Catalog.systemIds

structure RunState (log : List (Event N)) (manager : TableManager N) (s : HeapState) : Prop where
  stands : Stands manager s (knownNames log) (knownIds log) (issued (heapEvents log))
  first : s.FirstRows
  flushed : EndsFlushed log → Flushed manager s

variable {manager manager' : TableManager N} {s s' : HeapState} {names : List (List UInt8)}
  {ids : List Uuid} {rids : List (Nat × Rid)} {name : List UInt8} {table : UserTable}

theorem Cached.kept (cached : Cached s names name table) {names' : List (List UInt8)}
    (more : names ⊆ names') (heaps : ∀ (i : Nat) (hf : HeapFile), s.heaps[i]? = some hf →
      hf.firstPageId ≠ invalidPageId → s'.heaps[i]? = some hf) : Cached s' names' name table := by
  obtain ⟨i, found, own⟩ := cached.place
  exact ⟨more cached.named, cached.made, i, heaps i _ found cached.made, own⟩

/-- The catalog has changed and the pages have not. -/
theorem Stands.withCatalog (stands : Stands manager s names ids rids) {catalog : Catalog N}
    (holds : catalog.Holds s) : Stands (manager.setCatalog catalog) s names ids rids :=
  ⟨holds, stands.catalogued, stands.cached, stands.known⟩

def withTable (manager : TableManager N) (name : List UInt8) (table : UserTable) :
    TableManager N :=
  { manager with cache := Function.update manager.cache name (some table) }

theorem store_returns (manager : TableManager N) (name : List UInt8) (table : UserTable) :
    (store name table).Returns manager ⟨⟩ (manager.withTable name table) := rfl

theorem Stands.withTable (stands : Stands manager s names ids rids)
    (cached : Cached s names name table) :
    Stands (manager.withTable name table) s names ids rids := by
  refine ⟨stands.holds, stands.catalogued, ?_, stands.known⟩
  intro other found present
  simp only [TableManager.withTable, Function.update_apply] at present
  split at present
  · rename_i same
    cases present
    rw [same]
    exact cached
  · exact stands.cached other found present

theorem Stands.effect (stands : Stands manager s names ids rids) {op : HeapOp} {answer : HeapAnswer}
    (effect : HeapState.Effect op answer s s')
    (apart : ∀ table : CatalogTable, op.target ≠ some table.index) {catalog : Catalog N}
    (holds : catalog.Holds s') : Stands (manager.setCatalog catalog) s' names ids rids := by
  have sound := stands.holds.shows.sound
  refine ⟨holds, stands.catalogued.other sound effect apart, ?_, ?_⟩
  · intro name table found
    apply (stands.cached name table found).kept (List.Subset.refl names)
    exact fun i hf present made => effect.heaps_kept present made
  · intro entry member
    exact effect.known sound (stands.known entry member)

theorem Stands.sameRows (stands : Stands manager s names ids rids) {op : HeapOp}
    {answer : HeapAnswer} (effect : HeapState.Effect op answer s s')
    (apart : ∀ table : CatalogTable, op.target ≠ some table.index) : s.SameRows s' := by
  intro table
  exact effect.rows_eq stands.holds.shows.sound (stands.catalogued.present table) (apart table)

theorem onCatalog_returns (manager : TableManager N) {α : Type} {program : CatalogProgram N α}
    {value : α} {catalog : Catalog N} (returned : program.Returns manager.catalog value catalog) :
    (onCatalog program).Returns manager value (manager.setCatalog catalog) :=
  Program.Returns.within TableManager.catalog setCatalog returned

theorem onCatalog_cases {α : Type} {program : CatalogProgram N α} {outcome : Except Error α}
    (ended : onCatalog program manager = some (outcome, manager')) :
    ∃ catalog, program manager.catalog = some (outcome, catalog) ∧
      manager.setCatalog catalog = manager' :=
  Program.within_eq_some.mp ended

/-- What `OpenTable` builds from the rows of the catalog. -/
def Loaded (s : HeapState) (name : List UInt8) (table : UserTable) : Prop :=
  ∃ row, s.tableRows.find? (·.tableName = name) = some row ∧
    table = ⟨openHeap row.heapFileId row.firstPageId,
      s.columnRows.filter (·.tableId = row.tableId), row.tableId⟩

/-- The cache has only tables that were in it or that were loaded. -/
def CacheFrom (s : HeapState) (manager manager' : TableManager N) : Prop :=
  ∀ name table, manager'.cache name = some table →
    manager.cache name = some table ∨ Loaded s name table

theorem CacheFrom.withTable (from_before : CacheFrom s manager manager')
    (origin : manager'.cache name = some table ∨ Loaded s name table) :
    CacheFrom s manager (manager'.withTable name table) := by
  intro other found present
  simp only [TableManager.withTable, Function.update_apply] at present
  split at present
  · rename_i same
    cases present
    rw [same]
    rcases origin with cached | loaded
    · exact from_before name table cached
    · exact Or.inr loaded
  · exact from_before other found present

/-- How `OpenTable` of a name that is not in the cache ends. -/
theorem Stands.loadTable_cases (stands : Stands manager s names ids rids) (name : List UInt8) :
    (s.tableRows.find? (·.tableName = name) = none ∧
      ∃ manager', (loadTable name).Throws manager (.runtimeError "Invalid table name.") manager' ∧
        CacheFrom s manager manager' ∧ Stands manager' s names ids rids) ∨
    ∃ table manager', (loadTable name).Returns manager table manager' ∧ Loaded s name table ∧
      CacheFrom s manager manager' ∧ Cached s names name table ∧
      Stands manager' s names ids rids := by
  obtain ⟨bm₁, found, holds₁⟩ := stands.holds.lookup_returns stands.catalogued name
  have looked := onCatalog_returns manager found
  have stands₁ := stands.withCatalog holds₁
  cases isRow : s.tableRows.find? (·.tableName = name) with
  | none =>
      rw [isRow] at looked
      refine Or.inl ⟨rfl, manager.setCatalog (manager.catalog.setPool bm₁), ?_,
        fun _ _ present => Or.inl present, stands₁⟩
      unfold Program.Throws loadTable
      rw [looked.bind_eq]
      rfl
  | some row =>
      rw [isRow] at looked
      obtain ⟨bm₂, columns, holds₂⟩ := holds₁.getColumns_returns stands.catalogued row.tableId
      have listed := onCatalog_returns (manager.setCatalog (manager.catalog.setPool bm₁)) columns
      have leads := stands.catalogued.leadsTo_of_find isRow
      have loaded : Loaded s name ⟨openHeap row.heapFileId row.firstPageId,
          s.columnRows.filter (·.tableId = row.tableId), row.tableId⟩ := ⟨row, isRow, rfl⟩
      have cached : Cached s names name
          ⟨openHeap row.heapFileId row.firstPageId, s.columnRows.filter (·.tableId = row.tableId),
            row.tableId⟩ := by
        have same : row.tableName = name := by simpa using List.find?_some isRow
        rw [← same]
        refine ⟨leads.named, ?_, leads.place⟩
        intro invalid
        have lower := leads.lower
        rw [show row.firstPageId = invalidPageId from invalid] at lower
        exact absurd lower (by decide)
      have kept : CacheFrom s manager ((manager.setCatalog (manager.catalog.setPool bm₁)).setCatalog
          ((manager.catalog.setPool bm₁).setPool bm₂)) := fun _ _ present => Or.inl present
      refine Or.inr ⟨_, _, ?_, loaded, kept.withTable (Or.inr loaded), cached,
        (stands₁.withCatalog holds₂).withTable cached⟩
      apply looked.bind
      apply listed.bind
      exact (store_returns _ name _).bind (Program.pure_returns _ _)

theorem Stands.openTable_cases (stands : Stands manager s names ids rids) (name : List UInt8) :
    (s.tableRows.find? (·.tableName = name) = none ∧
      ∃ reason manager', (openTable name).Throws manager reason manager' ∧
        CacheFrom s manager manager' ∧ Stands manager' s names ids rids) ∨
    ∃ table manager', (openTable name).Returns manager table manager' ∧
      (manager.cache name = some table ∨ Loaded s name table) ∧ CacheFrom s manager manager' ∧
      Cached s names name table ∧ Stands manager' s names ids rids := by
  have looks := Program.get_returns (ε := Error) manager
  cases present : manager.cache name with
  | some table =>
      have start : openTable name manager = some (.ok table, manager) := by
        rw [openTable, looks.bind_eq, present]
        rfl
      exact Or.inr ⟨table, manager, start, Or.inl rfl, fun _ _ found => Or.inl found,
        stands.cached name table present, stands⟩
  | none =>
      have start : openTable name manager = loadTable name manager := by
        rw [openTable, looks.bind_eq, present]
      rcases stands.loadTable_cases name with ⟨none, manager', thrown, kept, stands'⟩ |
        ⟨table, manager', returned, loaded, kept, cached, stands'⟩
      · exact Or.inl ⟨none, _, manager', start.trans thrown, kept, stands'⟩
      · exact Or.inr ⟨table, manager', start.trans returned, Or.inr loaded, kept, cached, stands'⟩

theorem Stands.lookupTable_returns [NeZero N] (stands : Stands manager s names ids rids)
    (name : List UInt8) :
    ∃ manager', (Op.lookupTable name).run.Returns manager
        (.found (s.tableRows.find? (·.tableName = name))) manager' ∧
      Stands manager' s names ids rids := by
  obtain ⟨bm', found, holds'⟩ := stands.holds.lookup_returns stands.catalogued name
  have looked := onCatalog_returns manager found
  exact ⟨_, looked.bind (Program.pure_returns _ _), stands.withCatalog holds'⟩

theorem Stands.getTableColumns_returns [NeZero N] (stands : Stands manager s names ids rids)
    (tableId : Uuid) :
    ∃ manager', (Op.getTableColumns tableId).run.Returns manager
        (.columns (s.columnRows.filter (·.tableId = tableId))) manager' ∧
      Stands manager' s names ids rids := by
  obtain ⟨bm', columns, holds'⟩ := stands.holds.getColumns_returns stands.catalogued tableId
  have listed := onCatalog_returns manager columns
  exact ⟨_, listed.bind (Program.pure_returns _ _), stands.withCatalog holds'⟩

/-- A `CreateTable` that ended has created its table. -/
theorem Stands.createTable_ends [NeZero N] (stands : Stands manager s names ids rids)
    {tableRandom fileRandom : Uuid} {columns : List RawColumnInfo} {outcome : Except Error Answer}
    (sized : Catalog.Sized name columns)
    (unwrapped : Unwrapped manager (.createTable tableRandom fileRandom name columns))
    (ended : (Op.createTable tableRandom fileRandom name columns).run manager =
      some (outcome, manager')) :
    outcome = .ok (.created (generateUuid tableRandom)) ∧
      ∃ s', Catalog.Creates manager.catalog s tableRandom fileRandom name columns manager'.catalog s' ∧
        Stands manager' s' (name :: names) (generateUuid tableRandom :: ids) rids := by
  obtain ⟨_, inner, rfl⟩ := Program.answer_eq_some.mp ended
  obtain ⟨catalog', created, rfl⟩ := onCatalog_cases inner
  have heap : ∀ outcome' bm', HeapFile.create (generateUuid fileRandom) manager.catalog.world.bm =
      some (outcome', bm') → 0 ≤ nextAllocated bm' := by
    intro outcome' bm' made
    have part := unwrapped (.heap (.create (generateUuid fileRandom))) List.mem_cons_self
    obtain ⟨answer, w', ran, pool⟩ := World.create_ends made
    have whole : (Op.heap (.create (generateUuid fileRandom)) : Op N).run manager =
        some (answer.map Answer.heap, manager.setCatalog { manager.catalog with world := w' }) :=
      Program.answer_eq_some.mpr ⟨answer, Program.within_eq_some.mpr ⟨w', ran, rfl⟩, rfl⟩
    rw [← pool]
    exact part _ _ whole
  obtain ⟨rfl, s', creates⟩ := stands.holds.createTable_ends sized created heap (by
    intro part outcome' after begins partCreated
    have among : Op.createTable tableRandom fileRandom name part ∈
        (Op.createTable tableRandom fileRandom name columns : Op N).parts :=
      List.mem_cons_of_mem _ (List.mem_map.mpr ⟨part, List.mem_inits _ _ |>.mpr begins, rfl⟩)
    have whole : (Op.createTable tableRandom fileRandom name part).run manager =
        some (outcome'.map Answer.created, manager.setCatalog after) :=
      Program.answer_eq_some.mpr
        ⟨outcome', Program.within_eq_some.mpr ⟨after, partCreated, rfl⟩, rfl⟩
    exact unwrapped _ among _ _ whole)
  have sound := stands.holds.shows.sound
  refine ⟨rfl, s', creates, creates.holds, ?_, ?_, ?_⟩
  · apply creates.created.catalogued sound stands.catalogued
    intro column member
    obtain ⟨col, _, rfl⟩ := List.mem_map.mp member
    rfl
  · intro other table found
    apply (stands.cached other table found).kept (List.subset_cons_self name names)
    exact fun i hf present made => creates.created.heaps_kept present made
  · intro entry member
    exact creates.created.known sound (stands.known entry member)

theorem insertInto_inner {values : List Value} {outcome : Except Error (Option Rid)}
    (ended : insertInto name table values manager = some (outcome, manager')) :
    ∃ bytes outcome', DynamicCodec.encode values table.schema = some bytes ∧
      table.hf.insert bytes manager.catalog.world.bm =
        some (outcome', manager'.catalog.world.bm) := by
  have inner : ∃ outcome', table.insert values manager.catalog.world.bm =
      some (outcome', manager'.catalog.world.bm) := by
    rcases Program.bind_cases ended with ⟨placed, middle, inserted, done⟩ | ⟨_, thrown, _⟩
    · obtain ⟨catalog, inside, rfl⟩ := onCatalog_cases inserted
      obtain ⟨bm', onBm, rfl⟩ := Catalog.onPool_cases inside
      cases done
      exact ⟨_, onBm⟩
    · obtain ⟨catalog, inside, rfl⟩ := onCatalog_cases thrown
      obtain ⟨bm', onBm, rfl⟩ := Catalog.onPool_cases inside
      exact ⟨_, onBm⟩
  obtain ⟨_, inner⟩ := inner
  rcases Program.bind_cases inner with ⟨bytes, middle, encoded, rest⟩ | ⟨_, impossible, _⟩
  · obtain ⟨isSome, rfl⟩ := Program.returns_ofOption.mp encoded
    rcases Program.bind_cases rest with ⟨⟨rid, hf⟩, middle, inserted, done⟩ | ⟨_, thrown, _⟩
    · cases done
      exact ⟨bytes, _, isSome, inserted⟩
    · exact ⟨bytes, _, isSome, thrown⟩
  · exact absurd impossible Program.not_throws_ofOption

theorem insertInto_returns (name : List UInt8) {values : List Value} {bytes : List UInt8}
    {result : Option Rid} {bm' : BufferManager N DiskManager}
    (encoded : DynamicCodec.encode values table.schema = some bytes)
    (inserted : (table.hf.insert bytes).Returns manager.catalog.world.bm (result, table.hf) bm') :
    (insertInto name table values).Returns manager result
      ((manager.setCatalog (manager.catalog.setPool bm')).withTable name table) := by
  have inner : (table.insert values).Returns manager.catalog.world.bm (result, table) bm' := by
    apply (Program.returns_ofOption.mpr ⟨encoded, rfl⟩).bind
    exact Program.Returns.bind inserted (Program.pure_returns _ _)
  apply (onCatalog_returns manager (Catalog.onPool_returns manager.catalog inner)).bind
  exact (store_returns _ name table).bind (Program.pure_returns _ _)

/-- A `UserTable::Insert` that ended has left the catalog alone. -/
theorem Stands.insertInto_ends (stands : Stands manager s names ids rids) {values : List Value}
    {outcome : Except Error (Option Rid)} (cached : Cached s names name table)
    (own : name ∉ systemNames)
    (bounded : ∀ schema bytes, DynamicCodec.encode values schema = some bytes →
      bytes.length < 2 ^ 63)
    (ended : insertInto name table values manager = some (outcome, manager'))
    (unwrapped : 0 ≤ nextAllocated manager'.catalog.world.bm) :
    ∃ s' bm', s.SameRows s' ∧ Stands manager' s' names ids rids ∧
      manager' = (manager.setCatalog (manager.catalog.setPool bm')).withTable name table := by
  obtain ⟨bytes, outcome', encoded, inserted⟩ := insertInto_inner ended
  obtain ⟨i, present, behind⟩ := cached.place
  obtain ⟨result, s', rfl, effect, holds'⟩ := stands.holds.heapInsert_ends present cached.made
    (bounded _ _ encoded) inserted unwrapped
  have whole := insertInto_returns name encoded inserted
  unfold Program.Returns at whole
  rw [whole, Option.some.injEq, Prod.mk.injEq] at ended
  have apart : ∀ table : CatalogTable, (HeapOp.insert i bytes).target ≠ some table.index := by
    intro table same
    have target : i = table.index := Option.some.inj same
    have bound := table.index_lt
    have lower := behind own
    omega
  have stands' := stands.effect effect apart holds'
  refine ⟨s', _, stands.sameRows effect apart, ?_, ended.2.symm⟩
  rw [← ended.2]
  exact stands'.withTable (cached.kept (List.Subset.refl names)
    fun _ _ found made => effect.heaps_kept found made)

theorem Stands.insert_ends [NeZero N] (stands : Stands manager s names ids rids)
    {values : List Value} {outcome : Except Error (Option Rid)} (own : name ∉ systemNames)
    (bounded : ∀ schema bytes, DynamicCodec.encode values schema = some bytes →
      bytes.length < 2 ^ 63)
    (ended : TableManager.insert name values manager = some (outcome, manager'))
    (unwrapped : 0 ≤ nextAllocated manager'.catalog.world.bm) :
    ∃ s', s.SameRows s' ∧ CacheFrom s manager manager' ∧ Stands manager' s' names ids rids := by
  unfold TableManager.insert at ended
  rcases stands.openTable_cases name with ⟨_, reason, after, thrown, kept, stands'⟩ |
    ⟨table, after, opened, origin, kept, cached, stands'⟩
  · have whole : (openTable name >>= fun table => insertInto name table values) manager =
        some (.error reason, after) := Program.Throws.bind thrown
    rw [whole, Option.some.injEq, Prod.mk.injEq] at ended
    rw [← ended.2]
    exact ⟨s, fun _ => rfl, kept, stands'⟩
  · rw [opened.bind_eq] at ended
    obtain ⟨s', bm', same, stands'', whole⟩ :=
      stands'.insertInto_ends cached own bounded ended unwrapped
    refine ⟨s', same, ?_, stands''⟩
    rw [whole]
    intro other found present
    simp only [TableManager.withTable, Function.update_apply] at present
    split at present
    · rename_i isName
      cases present
      rw [isName]
      exact origin
    · exact kept other found present

theorem shift_allowed {log : List HeapEvent} {op : HeapOp} (given : GivenRids log op)
    (known : ∀ entry ∈ issued log, s.Known (3 + entry.1) entry.2) :
    World.Allowed s (op.shift 3) := by
  cases op with
  | create fileId => trivial
  | openEmpty fileId => trivial
  | insert i data => exact given
  | get i rid => exact known _ given
  | update i rid data => exact known _ given.1
  | delete i rid => exact known _ given

theorem shift_target (op : HeapOp) (table : CatalogTable) : (op.shift 3).target ≠ some table.index := by
  have bound := table.index_lt
  cases op with
  | create fileId => exact (Option.some_ne_none _).symm
  | openEmpty fileId => exact (Option.some_ne_none _).symm
  | get i rid => exact (Option.some_ne_none _).symm
  | insert i data =>
      intro same
      have target : 3 + i = table.index := Option.some.inj same
      omega
  | update i rid data =>
      intro same
      have target : 3 + i = table.index := Option.some.inj same
      omega
  | delete i rid =>
      intro same
      have target : 3 + i = table.index := Option.some.inj same
      omega

/-- A call on a heap of a client that ended did not throw. -/
theorem Stands.heap_ends {log : List HeapEvent}
    (stands : Stands manager s names ids (issued log)) {op : HeapOp}
    {outcome : Except Error HeapAnswer} (given : GivenRids log op)
    (ended : onWorld op.run manager = some (outcome, manager'))
    (unwrapped : 0 ≤ nextAllocated manager'.catalog.world.bm) :
    ∃ answer s', outcome = .ok answer ∧ s.SameRows s' ∧
      Stands manager' s' names ids (issued (⟨op, .ok answer⟩ :: log)) := by
  obtain ⟨w', ran, rfl⟩ := Program.within_eq_some.mp ended
  have shifted := @World.shifts_run N systemHeaps op manager.catalog.world
  rw [ran, Option.map_some] at shifted
  have shows := stands.holds.shows
  obtain ⟨answer', s', same, effect, shows'⟩ :=
    shows.step (shift_allowed given stands.known) shifted unwrapped
  cases outcome with
  | error reason => cases same
  | ok answer =>
      rw [Except.map, Except.ok.injEq] at same
      rw [← same] at effect
      have stands' := stands.effect effect (shift_target op)
        (show Catalog.Holds { manager.catalog with world := w' } s' from
          ⟨shows', stands.holds.relations⟩)
      refine ⟨answer, s', rfl, stands.sameRows effect (shift_target op), stands'.holds,
        stands'.catalogued, stands'.cached, ?_⟩
      intro entry member
      rcases issued_cases member with earlier | ⟨data, rfl, rfl⟩
      · exact stands'.known entry earlier
      · exact (effect.placed_new shows.sound).1

theorem Stands.flushAll_returns (stands : Stands manager s names ids rids) :
    ∃ manager', (onCatalog (Catalog.onPool BufferManager.flushAll)).Returns manager ⟨⟩ manager' ∧
      Stands manager' s names ids rids ∧ Flushed manager' s := by
  obtain ⟨steady', whole⟩ := stands.holds.shows.steady.flushAll
  have holds' := stands.holds.setPool steady' rfl stands.holds.shows.sound
  exact ⟨_, onCatalog_returns manager (Catalog.onPool_returns manager.catalog
    (BufferManager.flushAll_returns _)), stands.withCatalog holds', whole⟩

theorem Flushed.inFile (flushed : Flushed manager s) :
    s.InFile manager.catalog.world.bm.disk.dbIo := flushed

theorem Stands.file_small (stands : Stands manager s names ids rids) :
    manager.catalog.world.bm.disk.dbIo.size / pageSize < 2 ^ 31 := by
  have upper := stands.holds.shows.sound.room
  have size : manager.catalog.world.bm.disk.dbIo.size < (s.pages.toNat + 1) * pageSize :=
    stands.holds.shows.steady.allocated.size
  have pages : manager.catalog.world.bm.disk.dbIo.size / pageSize < s.pages.toNat + 1 :=
    Nat.div_lt_of_lt_mul (by rwa [Nat.mul_comm] at size)
  omega

/-- Fresh objects over the file of others. -/
structure Reopens (manager manager' : TableManager N) : Prop where
  heaps : manager'.catalog.world.heaps = manager.catalog.world.heaps
  disk : manager'.catalog.world.bm.disk = DiskManager.openFile manager.catalog.world.bm.disk.dbIo
  noCache : manager'.cache = fun _ => none

/-- After a flush, fresh objects over the file hold what the old ones held. -/
theorem Stands.restart_returns [NeZero N] (stands : Stands manager s names ids rids)
    (flushed : Flushed manager s) (raw : Fin N → Page) (buf : Page) :
    ∃ manager', (restart raw buf).Returns manager ⟨⟩ manager' ∧
      Stands manager' (s.reopened manager.catalog.world.bm.disk.dbIo) names ids rids ∧
      Reopens manager manager' := by
  have sound := stands.holds.shows.sound
  have inFile := flushed.inFile
  obtain ⟨catalog', opened, holds', heaps, disk⟩ :=
    Catalog.init_reopened raw buf sound inFile stands.holds.shows.heaps.symm
      stands.catalogued.header stands.file_small
  have inner := onCatalog_returns (new raw manager.catalog.world.bm.disk.dbIo
    manager.catalog.world.heaps) opened
  refine ⟨⟨catalog', fun _ => none⟩, ?_, ⟨holds', inFile.catalogued sound stands.catalogued, ?_, ?_⟩,
    heaps, disk, rfl⟩
  · apply (Program.get_returns _).bind
    exact ((Program.returns_set _ _ _ ⟨⟩).mpr rfl).bind inner
  · intro name table found
    cases found
  · intro entry member
    exact inFile.known (stands.known entry member)

theorem Unwrapped.alone [NeZero N] {op : Op N} (unwrapped : Unwrapped manager op)
    (alone : op.parts = [op]) {outcome : Except Error Answer}
    (ended : op.run manager = some (outcome, manager')) :
    0 ≤ nextAllocated manager'.catalog.world.bm := by
  apply unwrapped op _ outcome manager' ended
  rw [alone]
  exact List.mem_singleton_self op

/-- What a call does to the rows of the catalog: only `CreateTable` adds some. -/
def Evolves (op : Op N) (s s' : HeapState) : Prop :=
  match op with
  | .createTable tableRandom fileRandom name columns =>
      s.TableCreated (generateUuid tableRandom) (generateUuid fileRandom) name
        (columns.map (Catalog.columnInfo (generateUuid tableRandom))) s'
  | _ => s.SameRows s'

/-- Calls on the catalog alone leave the cache. -/
theorem onCatalog_keeps {α : Type} (program : CatalogProgram N α) :
    Program.Keeps (onCatalog program) TableManager.cache := by
  intro manager outcome manager' ended
  obtain ⟨_, _, rfl⟩ := onCatalog_cases ended
  rfl

theorem keeps_cacheFrom {α : Type} {program : Program (TableManager N) Error α}
    (keeps : Program.Keeps program TableManager.cache) {outcome : Except Error α}
    (ended : program manager = some (outcome, manager')) : CacheFrom s manager manager' := by
  intro name table present
  rw [keeps _ _ _ ended] at present
  exact Or.inl present

theorem Evolves.cases {op : Op N} (evolves : Evolves op s s') :
    s.SameRows s' ∨ ∃ tableRandom fileRandom name columns,
      op = .createTable tableRandom fileRandom name columns ∧
      s.TableCreated (generateUuid tableRandom) (generateUuid fileRandom) name
        (columns.map (Catalog.columnInfo (generateUuid tableRandom))) s' := by
  cases op with
  | createTable tableRandom fileRandom name columns =>
      exact Or.inr ⟨tableRandom, fileRandom, name, columns, rfl, evolves⟩
  | lookupTable name => exact Or.inl evolves
  | getTableColumns tableId => exact Or.inl evolves
  | openTable name => exact Or.inl evolves
  | insert name values => exact Or.inl evolves
  | heap op => exact Or.inl evolves
  | flushAll => exact Or.inl evolves
  | restart raw buf => exact Or.inl evolves

theorem Evolves.firstRows {op : Op N} (evolves : Evolves op s s') (sound : s.Sound)
    (catalogued : s.Catalogued names ids) (first : s.FirstRows) : s'.FirstRows := by
  rcases evolves.cases with same | ⟨tableRandom, fileRandom, name, columns, _, created⟩
  · exact first.same (same .tables)
  · exact created.firstRows sound catalogued (Catalog.columnInfo_own _ columns) first

theorem Evolves.find?_kept {op : Op N} (evolves : Evolves op s s') (sound : s.Sound)
    (catalogued : s.Catalogued names ids) (first : s.FirstRows) {row : TableInfo}
    (found : s.tableRows.find? (·.tableName = name) = some row) :
    s'.tableRows.find? (·.tableName = name) = some row := by
  rcases evolves.cases with same | ⟨tableRandom, fileRandom, other, columns, _, created⟩
  · rw [same.tableRows]
    exact found
  · exact created.find?_kept sound catalogued (Catalog.columnInfo_own _ columns) first found

theorem RunState.step_stands [NeZero N] {log : List (Event N)} {event : Event N}
    (holds : RunState log manager s) (taken : databaseStep log manager event manager') :
    ∃ s', Evolves event.op s s' ∧ CacheFrom s manager manager' ∧
      Stands manager' s' (knownNames (event :: log)) (knownIds (event :: log))
        (issued (heapEvents (event :: log))) ∧
      (EndsFlushed (event :: log) → Flushed manager' s') := by
  obtain ⟨stands, _, flushed⟩ := holds
  obtain ⟨op, outcome⟩ := event
  obtain ⟨ended, given, unwrapped⟩ := taken
  cases op with
  | createTable tableRandom fileRandom name columns =>
      have kept : CacheFrom s manager manager' :=
        keeps_cacheFrom ((onCatalog_keeps _).bind fun _ => .pure _) ended
      obtain ⟨rfl, s', creates, stands'⟩ := stands.createTable_ends given unwrapped ended
      exact ⟨s', creates.created, kept, stands', False.elim⟩
  | lookupTable name =>
      have kept : CacheFrom s manager manager' :=
        keeps_cacheFrom ((onCatalog_keeps _).bind fun _ => .pure _) ended
      obtain ⟨after, returned, stands'⟩ := stands.lookupTable_returns name
      rw [show (Op.lookupTable name).run manager = some (_, after) from returned] at ended
      cases ended
      exact ⟨s, fun _ => rfl, kept, stands', False.elim⟩
  | getTableColumns tableId =>
      have kept : CacheFrom s manager manager' :=
        keeps_cacheFrom ((onCatalog_keeps _).bind fun _ => .pure _) ended
      obtain ⟨after, returned, stands'⟩ := stands.getTableColumns_returns tableId
      rw [show (Op.getTableColumns tableId).run manager = some (_, after) from returned] at ended
      cases ended
      exact ⟨s, fun _ => rfl, kept, stands', False.elim⟩
  | openTable name =>
      obtain ⟨outcome', inner, rfl⟩ := Program.answer_eq_some.mp ended
      rcases stands.openTable_cases name with ⟨_, reason, after, thrown, kept, stands'⟩ |
        ⟨table, after, opened, _, kept, _, stands'⟩
      · rw [show TableManager.openTable name manager = some (_, after) from thrown] at inner
        cases inner
        exact ⟨s, fun _ => rfl, kept, stands', False.elim⟩
      · rw [show TableManager.openTable name manager = some (_, after) from opened] at inner
        cases inner
        exact ⟨s, fun _ => rfl, kept, stands', False.elim⟩
  | insert name values =>
      have room := unwrapped.alone rfl ended
      obtain ⟨outcome', inner, rfl⟩ := Program.answer_eq_some.mp ended
      obtain ⟨s', same, kept, stands'⟩ := stands.insert_ends given.1 given.2 inner room
      exact ⟨s', same, kept, stands', False.elim⟩
  | heap op =>
      have room := unwrapped.alone rfl ended
      obtain ⟨outcome', inner, rfl⟩ := Program.answer_eq_some.mp ended
      have kept : CacheFrom s manager manager' := by
        obtain ⟨_, _, rfl⟩ := Program.within_eq_some.mp inner
        exact fun _ _ present => Or.inl present
      obtain ⟨answer, s', rfl, same, stands'⟩ := stands.heap_ends given inner room
      exact ⟨s', same, kept, stands', False.elim⟩
  | flushAll =>
      have kept : CacheFrom s manager manager' :=
        keeps_cacheFrom ((onCatalog_keeps _).bind fun _ => .pure _) ended
      obtain ⟨after, returned, stands', whole⟩ := stands.flushAll_returns
      have done : (Op.flushAll : Op N).run.Returns manager .done after :=
        returned.bind (Program.pure_returns _ _)
      rw [show (Op.flushAll : Op N).run manager = some (_, after) from done] at ended
      cases ended
      exact ⟨s, fun _ => rfl, kept, stands', fun _ => whole⟩
  | restart raw buf =>
      have inFile := (flushed given).inFile
      obtain ⟨after, returned, stands', opened⟩ := stands.restart_returns (flushed given) raw buf
      have done : (Op.restart raw buf).run.Returns manager .done after :=
        returned.bind (Program.pure_returns _ _)
      rw [show (Op.restart raw buf).run manager = some (_, after) from done] at ended
      cases ended
      refine ⟨_, inFile.sameRows stands.holds.shows.sound, ?_, stands', False.elim⟩
      intro name table present
      rw [opened.noCache] at present
      cases present

theorem RunState.step [NeZero N] {log : List (Event N)} {event : Event N}
    (holds : RunState log manager s) (taken : databaseStep log manager event manager') :
    ∃ s', Evolves event.op s s' ∧ CacheFrom s manager manager' ∧
      RunState (event :: log) manager' s' := by
  obtain ⟨s', evolves, kept, stands', flushed'⟩ := holds.step_stands taken
  have first' := evolves.firstRows holds.stands.holds.shows.sound holds.stands.catalogued holds.first
  exact ⟨s', evolves, kept, stands', first', flushed'⟩

/-- A database that `Init` has just set up. -/
structure Booted (manager : TableManager N) (s : HeapState) : Prop where
  state : RunState [] manager s
  tables : s.relationBins .tables = Catalog.systemRows.foldl HeapState.withTableRow [⟨8180, []⟩]
  columns : s.relationBins .attributes = FirstFit.insertAll 8180 rowSize [⟨8180, []⟩]
    (Catalog.systemColumns.map ColumnInfoCodec.encode)
  types : s.relationBins .types = FirstFit.insertAll 8180 rowSize [⟨8180, []⟩]
    (Catalog.builtinTypes.map TypeInfoCodec.encode)
  few : s.pages ≤ 20
  onDisk : BufferManager.OnDisk manager.catalog.world.bm s.view

theorem Initialised.booted [NeZero N] (initialised : Initialised manager) :
    ∃ s, Booted manager s := by
  obtain ⟨raw, buf, returned⟩ := initialised
  obtain ⟨catalog', s, init, booting, onDisk⟩ := Catalog.init_empty raw buf
  have inner := onCatalog_returns (new raw File.empty []) init
  obtain ⟨_, rfl⟩ := returned.value_eq inner
  refine ⟨s, ⟨⟨booting.holds, booting.catalogued, ?_, ?_⟩, booting.first, False.elim⟩,
    booting.tableBins, booting.bins, booting.typeBins, booting.bound, onDisk⟩
  · intro name table found
    cases found
  · intro entry member
    cases member

/-- Every point of a run has a catalog and heaps on a heap state. -/
theorem runState [NeZero N] {start : TableManager N} (initialised : Initialised start)
    {log : List (Event N)} (run : DatabaseRun start log manager) : ∃ s, RunState log manager s := by
  apply run.invariant fun log manager => ∃ s, RunState log manager s
  · obtain ⟨s, booted⟩ := initialised.booted
    exact ⟨s, booted.state⟩
  · intro log manager event manager' _ holds taken
    obtain ⟨s, holds⟩ := holds
    obtain ⟨s', _, _, holds'⟩ := holds.step taken
    exact ⟨s', holds'⟩

theorem Stands.unwrapped (stands : Stands manager s names ids rids) :
    0 ≤ nextAllocated manager.catalog.world.bm := by
  have allocated := stands.holds.shows.steady.allocated
  rw [show nextAllocated manager.catalog.world.bm = s.pages from allocated.next]
  exact allocated.lower

/-- With page ids for all its insertions a `CreateTable` wraps none. -/
theorem Stands.createTable_unwrapped [NeZero N] (stands : Stands manager s names ids rids)
    {columns : List RawColumnInfo} (sized : Catalog.Sized name columns)
    (more : s.pages + columns.length + 2 < 2 ^ 31) (tableRandom fileRandom : Uuid) :
    Unwrapped manager (.createTable tableRandom fileRandom name columns) := by
  intro part member outcome manager' ended
  rcases List.mem_cons.mp member with rfl | later
  · obtain ⟨raw, bm', returned, steady'⟩ :=
      create_returns stands.holds.shows.steady (by omega) (generateUuid fileRandom)
    obtain ⟨answer, w', ran, pool⟩ :=
      @World.create_ends N manager.catalog.world _ _ bm' returned
    obtain ⟨_, inner, rfl⟩ := Program.answer_eq_some.mp ended
    obtain ⟨w'', ran', rfl⟩ := Program.within_eq_some.mp inner
    rw [ran, Option.some.injEq, Prod.mk.injEq] at ran'
    have next : nextAllocated w'.bm = s.pages + 1 := by
      rw [pool]
      exact steady'.allocated.next
    have given := stands.holds.shows.sound.given
    show 0 ≤ nextAllocated w''.bm
    rw [← ran'.2, next]
    omega
  · obtain ⟨front, begins, rfl⟩ := List.mem_map.mp later
    have begins := (List.mem_inits front columns).mp begins
    have shorter := begins.length_le
    have sized' : Catalog.Sized name front :=
      ⟨sized.table, fun column among => sized.columns column (begins.subset among)⟩
    obtain ⟨catalog', s', creates⟩ :=
      stands.holds.createTable_creates sized' (by omega) tableRandom fileRandom
    obtain ⟨_, inner, rfl⟩ := Program.answer_eq_some.mp ended
    obtain ⟨catalog'', created, rfl⟩ := onCatalog_cases inner
    rw [show Catalog.createTable tableRandom fileRandom name front manager.catalog =
      some (_, catalog') from creates.returned, Option.some.injEq, Prod.mk.injEq] at created
    have allocated := creates.holds.shows.steady.allocated
    show 0 ≤ nextAllocated catalog''.world.bm
    rw [← created.2, show nextAllocated catalog'.world.bm = s'.pages from allocated.next]
    exact allocated.lower

theorem Stands.createTable_step [NeZero N] (stands : Stands manager s names ids rids)
    {columns : List RawColumnInfo} (sized : Catalog.Sized name columns)
    (more : s.pages + columns.length + 2 < 2 ^ 31) (tableRandom fileRandom : Uuid)
    (log : List (Event N)) :
    ∃ manager' s', databaseStep log manager
        ⟨.createTable tableRandom fileRandom name columns,
          .ok (.created (generateUuid tableRandom))⟩ manager' ∧
      Catalog.Creates manager.catalog s tableRandom fileRandom name columns manager'.catalog s' ∧
      Stands manager' s' (name :: names) (generateUuid tableRandom :: ids) rids := by
  obtain ⟨catalog', s', creates⟩ :=
    stands.holds.createTable_creates sized more tableRandom fileRandom
  have unwrapped := stands.createTable_unwrapped sized more tableRandom fileRandom
  have returned := onCatalog_returns manager creates.returned
  have ended : (Op.createTable tableRandom fileRandom name columns).run.Returns manager
      (.created (generateUuid tableRandom)) (manager.setCatalog catalog') :=
    returned.bind (Program.pure_returns _ _)
  obtain ⟨_, s'', creates', stands'⟩ := stands.createTable_ends sized unwrapped ended
  exact ⟨_, s'', ⟨ended, sized, unwrapped⟩, creates', stands'⟩

theorem Stands.flushAll_step [NeZero N] (stands : Stands manager s names ids rids)
    (log : List (Event N)) :
    ∃ manager', databaseStep log manager ⟨.flushAll, .ok .done⟩ manager' ∧
      Stands manager' s names ids rids := by
  obtain ⟨manager', returned, stands', _⟩ := stands.flushAll_returns
  have ended : (Op.flushAll : Op N).run.Returns manager .done manager' :=
    returned.bind (Program.pure_returns _ _)
  refine ⟨manager', ⟨ended, trivial, ?_⟩, stands'⟩
  intro part member outcome after endedPart
  rw [List.mem_singleton.mp member, show (Op.flushAll : Op N).run manager = some (_, manager') from
    ended, Option.some.injEq, Prod.mk.injEq] at endedPart
  rw [← endedPart.2]
  exact stands'.unwrapped

theorem Stands.openTable_step [NeZero N] (stands : Stands manager s names ids rids)
    {row : TableInfo} (found : s.tableRows.find? (·.tableName = name) = some row)
    (log : List (Event N)) :
    ∃ table manager', databaseStep log manager ⟨.openTable name, .ok (.opened table)⟩ manager' ∧
      (openTable name).Returns manager table manager' ∧
      (manager.cache name = some table ∨ Loaded s name table) := by
  rcases stands.openTable_cases name with ⟨missing, _⟩ |
    ⟨table, manager', opened, origin, _, _, stands'⟩
  · rw [found] at missing
    cases missing
  · have ended : (Op.openTable name).run.Returns manager (.opened table) manager' :=
      opened.bind (Program.pure_returns _ _)
    refine ⟨table, manager', ⟨ended, trivial, ?_⟩, opened, origin⟩
    intro part member outcome after endedPart
    rw [List.mem_singleton.mp member, show (Op.openTable name).run manager = some (_, manager') from
      ended, Option.some.injEq, Prod.mk.injEq] at endedPart
    rw [← endedPart.2]
    exact stands'.unwrapped

theorem initialised_exists [NeZero N] (raw : Fin N → Page) (buf : Page) :
    ∃ manager : TableManager N, Initialised manager := by
  obtain ⟨_, _, init, _⟩ := Catalog.init_empty raw buf
  exact ⟨_, raw, buf, onCatalog_returns (new raw File.empty []) init⟩

end RelationalDb.TableManager
