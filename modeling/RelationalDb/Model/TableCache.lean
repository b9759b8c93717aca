import RelationalDb.Model.TableAnswers

set_option autoImplicit false

namespace RelationalDb.TableManager

open HeapFile

variable {N : Nat}

/-- `Lookup` of a name and `GetColumns` of the table it finds. -/
def uncached (name : List UInt8) : CatalogProgram N (Option (TableInfo × List ColumnInfo)) := do
  match ← Catalog.lookup name with
  | none => return none
  | some row => return some (row, ← Catalog.getColumns row.tableId)

def Answers (manager : TableManager N) (name : List UInt8)
    (answer : Option (TableInfo × List ColumnInfo)) : Prop :=
  ∃ after, (uncached name).Returns manager.catalog answer after

variable {manager manager' : TableManager N} {s s' : HeapState} {names : List (List UInt8)}
  {ids : List Uuid} {rids : List (Nat × Rid)} {name : List UInt8} {table : UserTable}

theorem Stands.answers (stands : Stands manager s names ids rids) {row : TableInfo}
    (found : s.tableRows.find? (·.tableName = name) = some row) :
    Answers manager name (some (row, s.columnRows.filter (·.tableId = row.tableId))) := by
  obtain ⟨bm₁, looked, holds₁⟩ := stands.holds.lookup_returns stands.catalogued name
  obtain ⟨bm₂, listed, _⟩ := holds₁.getColumns_returns stands.catalogued row.tableId
  rw [found] at looked
  refine ⟨(manager.catalog.setPool bm₁).setPool bm₂, looked.bind ?_⟩
  exact listed.bind (Program.pure_returns _ _)

/-- What a table was loaded from stays, if no table is created with its id. -/
theorem Evolves.loaded {op : Op N} (evolves : Evolves op s s') (sound : s.Sound)
    (catalogued : s.Catalogued names ids) (first : s.FirstRows)
    (newId : ∀ tableRandom fileRandom name columns,
      op = .createTable tableRandom fileRandom name columns → generateUuid tableRandom ∉ ids)
    (loaded : Loaded s name table) : Loaded s' name table := by
  obtain ⟨row, found, rfl⟩ := loaded
  refine ⟨row, evolves.find?_kept sound catalogued first found, ?_⟩
  rcases evolves.cases with same | ⟨tableRandom, fileRandom, other, columns, isCreate, created⟩
  · rw [same.columnRows]
  · have known := (catalogued.leadsTo_of_find found).known
    have apart : generateUuid tableRandom ≠ row.tableId := by
      intro same
      rw [← same] at known
      exact newId _ _ _ _ isCreate known
    rw [created.columnRows_other sound catalogued (Catalog.columnInfo_own _ columns) apart]

theorem createdIds_sublist (event : Event N) (log : List (Event N)) :
    (createdIds log).Sublist (createdIds (event :: log)) := by
  rw [createdIds]
  split
  · exact List.sublist_cons_self _ _
  · exact List.Sublist.refl _

theorem RunState.loaded [NeZero N] {log : List (Event N)} {event : Event N}
    (holds : RunState log manager s) (taken : databaseStep log manager event manager')
    (evolves : Evolves event.op s s') (distinct : (createdIds (event :: log)).Nodup)
    (loaded : Loaded s name table) : Loaded s' name table := by
  have stands := holds.stands
  apply evolves.loaded stands.holds.shows.sound stands.catalogued holds.first _ loaded
  intro tableRandom fileRandom other columns isCreate
  obtain ⟨op, outcome⟩ := event
  obtain rfl : op = _ := isCreate
  obtain ⟨ended, sized, unwrapped⟩ := taken
  obtain ⟨rfl, _⟩ := stands.createTable_ends sized unwrapped ended
  exact fresh_id (List.nodup_cons.mp distinct).1

/-- The tables of the cache are in the catalog. If all generated ids are distinct, they
are what the catalog has for them now. -/
structure CacheState (log : List (Event N)) (manager : TableManager N) (s : HeapState) : Prop where
  state : RunState log manager s
  found : ∀ name table, manager.cache name = some table →
    ∃ row, s.tableRows.find? (·.tableName = name) = some row
  loaded : (createdIds log).Nodup → ∀ name table, manager.cache name = some table →
    Loaded s name table

theorem CacheState.step [NeZero N] {log : List (Event N)} {event : Event N}
    (holds : CacheState log manager s) (taken : databaseStep log manager event manager') :
    ∃ s', Evolves event.op s s' ∧ CacheState (event :: log) manager' s' := by
  obtain ⟨s', evolves, kept, state'⟩ := holds.state.step taken
  have stands := holds.state.stands
  have sound := stands.holds.shows.sound
  refine ⟨s', evolves, state', ?_, ?_⟩
  · intro name table present
    have before : ∃ row, s.tableRows.find? (·.tableName = name) = some row := by
      rcases kept name table present with cached | ⟨row, found, _⟩
      · exact holds.found name table cached
      · exact ⟨row, found⟩
    obtain ⟨row, found⟩ := before
    exact ⟨row, evolves.find?_kept sound stands.catalogued holds.state.first found⟩
  · intro distinct name table present
    have before : Loaded s name table := by
      rcases kept name table present with cached | loaded
      · exact holds.loaded (distinct.sublist (createdIds_sublist event log)) name table cached
      · exact loaded
    exact holds.state.loaded taken evolves distinct before

theorem cacheState [NeZero N] {start : TableManager N} (initialised : Initialised start)
    {log : List (Event N)} (run : DatabaseRun start log manager) :
    ∃ s, CacheState log manager s := by
  apply run.invariant fun log manager => ∃ s, CacheState log manager s
  · obtain ⟨s, booted⟩ := initialised.booted
    obtain ⟨raw, buf, returned⟩ := initialised
    have empty := onCatalog_keeps _ _ _ _ returned
    refine ⟨s, booted.state, ?_, ?_⟩
    · intro name table present
      rw [empty] at present
      cases present
    · intro _ name table present
      rw [empty] at present
      cases present
  · intro log manager event manager' _ holds taken
    obtain ⟨s, holds⟩ := holds
    obtain ⟨s', _, holds'⟩ := holds.step taken
    exact ⟨s', holds'⟩

/-- `OpenTable` returns what the catalog has, if all generated ids are distinct. -/
theorem CacheState.opened {log : List (Event N)} (holds : CacheState log manager s)
    (distinct : (createdIds log).Nodup) (opened : (openTable name).Returns manager table manager') :
    Loaded s name table := by
  rcases holds.state.stands.openTable_cases name with ⟨_, reason, after, thrown, _⟩ |
    ⟨table', after, returned, cached | loaded, _⟩
  · cases opened.symm.trans thrown
  · obtain ⟨rfl, _⟩ := returned.value_eq opened
    exact holds.loaded distinct name _ cached
  · obtain ⟨rfl, _⟩ := returned.value_eq opened
    exact loaded

theorem databaseStep_functional [NeZero N] (log : List (Event N)) (manager : TableManager N)
    (event : Event N) (a b : TableManager N) (first : databaseStep log manager event a)
    (second : databaseStep log manager event b) : a = b := by
  have same := first.1.symm.trans second.1
  rw [Option.some.injEq, Prod.mk.injEq] at same
  exact same.2

/-- What `OpenTable` returns is what the catalog would answer without the cache, and a
name that was found is found with the same row ever after. -/
theorem openTable_agrees [NeZero N] (start : TableManager N) (initialised : Initialised start)
    (log : List (Event N)) (manager : TableManager N) (run : DatabaseRun start log manager)
    (distinct : (createdIds log).Nodup) (name : List UInt8) :
    (∀ table manager', databaseStep log manager ⟨.openTable name, .ok (.opened table)⟩ manager' →
      ∃ row cols, Answers manager name (some (row, cols)) ∧
        Answers manager' name (some (row, cols)) ∧ table.tableId = row.tableId ∧
        table.hf.firstPageId = row.firstPageId ∧ table.schema = cols) ∧
    ∀ row, Finds manager name (some row) → ∀ later manager',
      DatabaseRun start (later ++ log) manager' → Finds manager' name (some row) := by
  obtain ⟨s, holds⟩ := cacheState initialised run
  have stands := holds.state.stands
  constructor
  · intro table manager' step
    obtain ⟨s', same, holds'⟩ := holds.step step
    obtain ⟨outcome, inner, isTable⟩ := Program.answer_eq_some.mp step.1
    have loaded : Loaded s name table := by
      cases outcome with
      | error reason => cases isTable
      | ok opened =>
          cases isTable
          exact holds.opened distinct inner
    obtain ⟨row, found, rfl⟩ := loaded
    have after := holds'.state.stands.answers (show s'.tableRows.find? (·.tableName = name) =
      some row by rw [HeapState.SameRows.tableRows same]; exact found)
    rw [HeapState.SameRows.columnRows same] at after
    exact ⟨row, _, stands.answers found, after, rfl, rfl, rfl⟩
  · intro row finds later manager' run'
    have found : ∃ s', RunState (later ++ log) manager' s' ∧
        s'.tableRows.find? (·.tableName = name) = some row := by
      apply Run.after databaseStep_functional run run' fun log manager =>
        ∃ s, RunState log manager s ∧ s.tableRows.find? (·.tableName = name) = some row
      · exact ⟨s, holds.state, stands.finds_iff.mp finds⟩
      · intro log manager event manager' _ before taken
        obtain ⟨s, state, found⟩ := before
        obtain ⟨s', evolves, _, state'⟩ := state.step taken
        exact ⟨s', state', evolves.find?_kept state.stands.holds.shows.sound
          state.stands.catalogued state.first found⟩
    obtain ⟨s', state', found⟩ := found
    exact state'.stands.finds_iff.mpr found

/-- The columns whose rows fit a page, as the catalog has them. -/
def listedColumns (tableId : Uuid) (columns : List RawColumnInfo) : Schema :=
  (columns.map (Catalog.columnInfo tableId)).filter (HeapState.ColumnFits ·.colName)

theorem createdIds_append (later log : List (Event N)) :
    (createdIds log).Sublist (createdIds (later ++ log)) := by
  induction later with
  | nil => exact List.Sublist.refl _
  | cons event later ih => exact ih.trans (createdIds_sublist event (later ++ log))

/-- What a table can be loaded from stays for the rest of a run. -/
theorem CacheState.loaded_after [NeZero N] {start : TableManager N} {log later : List (Event N)}
    (holds : CacheState log manager s) (run : DatabaseRun start log manager)
    (run' : DatabaseRun start (later ++ log) manager')
    (distinct : (createdIds (later ++ log)).Nodup)
    (loaded : Loaded s name table) :
    ∃ s', CacheState (later ++ log) manager' s' ∧ Loaded s' name table := by
  have stays := Run.after databaseStep_functional run run' fun log manager =>
    ∃ s, CacheState log manager s ∧ ((createdIds log).Nodup → Loaded s name table)
  obtain ⟨s', holds', kept⟩ := stays ⟨s, holds, fun _ => loaded⟩ (by
    intro log manager event manager' _ before taken
    obtain ⟨s, holds, kept⟩ := before
    obtain ⟨s', evolves, holds'⟩ := holds.step taken
    refine ⟨s', holds', fun distinct => holds.state.loaded taken evolves distinct ?_⟩
    exact kept (distinct.sublist (createdIds_sublist event log)))
  exact ⟨s', holds', kept distinct⟩

/-- A table that was created has its columns whenever it is opened. -/
theorem opened_schema [NeZero N] {start : TableManager N} (initialised : Initialised start)
    {log : List (Event N)} (run : DatabaseRun start log manager) {tableRandom fileRandom : Uuid}
    {columns : List RawColumnInfo} (free : Finds manager name none)
    (fits : HeapState.TableFits name) {outcome : Except Error Answer}
    {later : List (Event N)} {manager₁ manager₂ : TableManager N}
    (run₁ : DatabaseRun start
      (later ++ ⟨.createTable tableRandom fileRandom name columns, outcome⟩ :: log) manager₁)
    (distinct : (createdIds
      (later ++ ⟨.createTable tableRandom fileRandom name columns, outcome⟩ :: log)).Nodup)
    (opened : (openTable name).Returns manager₁ table manager₂) :
    table.schema.Perm (listedColumns (generateUuid tableRandom) columns) := by
  obtain ⟨middle, run'⟩ := run₁.split
  cases run' with
  | cons previous step =>
      obtain rfl := run.unique databaseStep_functional previous
      obtain ⟨rfl, s, s', created⟩ := created_of_step initialised run step
      have shorter := distinct.sublist (createdIds_append later _)
      have fresh : (generateUuid tableRandom :: createdIds log).Nodup := shorter
      have found := created.find?_new (created.before.finds_iff.mp free) fits
      obtain ⟨s₁, holds₁⟩ := cacheState initialised (run.cons step)
      have stands₁ := holds₁.state.stands
      have loaded : Loaded s₁ name ⟨openHeap (generateUuid fileRandom) s.pages,
          s'.columnRows.filter (·.tableId = generateUuid tableRandom),
          generateUuid tableRandom⟩ := by
        refine ⟨_, stands₁.finds_iff.mp (created.after.finds_iff.mpr found), ?_⟩
        rw [stands₁.lists_iff.mp (created.after.lists_iff.mpr rfl)]
      obtain ⟨s₂, holds₂, row, isRow, same⟩ :=
        holds₁.loaded_after (run.cons step) run₁ distinct loaded
      obtain ⟨row', isRow', rfl⟩ := holds₂.opened distinct opened
      rw [isRow, Option.some.injEq] at isRow'
      rw [← isRow', ← same]
      exact created.columns_perm (List.nodup_cons.mp fresh).1

/-- The first table of a new database is opened. -/
theorem openTable_agrees_first : ∃ (start manager : TableManager bufferPoolSize) (table : UserTable)
    (row : TableInfo), Initialised start ∧ row.tableId = (generateUuid fun _ => 0) ∧
      Answers manager (ascii "t") (some (row, table.schema)) ∧ table.tableId = row.tableId := by
  have small := @single_fits ⟨ascii "c", intType, 1⟩ (by decide)
  obtain ⟨start, manager, initialised, step, free⟩ :=
    @first_createTable bufferPoolSize _ (ascii "t") _ (sized_of_fits (by decide) small) (by decide)
  have run := Run.nil.cons step
  obtain ⟨_, s, s', created⟩ := created_of_step initialised .nil step
  have found := created.find?_new (created.before.finds_iff.mp (free (by decide))) (by decide)
  obtain ⟨table, manager', opens, _⟩ := created.after.openTable_step found [_]
  obtain ⟨row, cols, answers, _, sameId, _, rfl⟩ :=
    (openTable_agrees start initialised [_] manager run (List.nodup_singleton _) (ascii "t")).1
      table manager' opens
  have answers' := created.after.answers found
  obtain ⟨_, first⟩ := answers
  obtain ⟨_, second⟩ := answers'
  have same := (first.value_eq second).1
  rw [Option.some.injEq, Prod.mk.injEq] at same
  refine ⟨start, manager, table, row, initialised, ?_, ⟨_, first⟩, sameId⟩
  rw [same.1]

end RelationalDb.TableManager
