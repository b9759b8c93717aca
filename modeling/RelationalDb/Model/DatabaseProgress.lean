import RelationalDb.Model.TableRows

set_option autoImplicit false

namespace RelationalDb.TableManager

open HeapFile

variable {N : Nat}

/-- The name of the table that a call opens. -/
def Op.tableOpened : Op N → Option (List UInt8)
  | openTable name => some name
  | insert name _ => some name
  | _ => none

/-- How many page ids are enough for a call. -/
def Op.pageIds : Op N → Nat
  | createTable _ _ _ columns => columns.length + 2
  | insert _ _ => 1
  | heap _ => 2
  | _ => 0

/-- A call on a heap file that there is, or with a row that `Encode` gets through: its assertion
holds and it divides by no zero. -/
def Op.Defined (manager : TableManager N) : Op N → Prop
  | insert name values => ∀ table manager',
      (TableManager.openTable name).Returns manager table manager' →
      (DynamicCodec.encode values table.schema).isSome = true
  | heap op => ∀ i data, op = .insert i data → i < manager.catalog.world.heaps.length
  | _ => True

def Op.Misses (op : Op N) (manager : TableManager N) : Prop :=
  ∃ name, op.tableOpened = some name ∧ Finds manager name none

/-- Only a table that is not there is refused. -/
structure Ends (manager : TableManager N) (op : Op N) (outcome : Except Error Answer) : Prop where
  refused : op.Misses manager → outcome = .error (.runtimeError "Invalid table name.")
  served : ¬ op.Misses manager → ∃ answer, outcome = .ok answer

variable {manager manager' : TableManager N} {s : HeapState} {names : List (List UInt8)}
  {ids : List Uuid} {rids : List (Nat × Rid)} {name : List UInt8} {log : List (Event N)}

theorem Ends.served_with {op : Op N} (found : ¬ op.Misses manager) (answer : Answer) :
    Ends manager op (.ok answer) :=
  ⟨fun misses => absurd misses found, fun _ => ⟨answer, rfl⟩⟩

theorem Op.not_misses {op : Op N} (none : op.tableOpened = none) : ¬ op.Misses manager := by
  intro misses
  obtain ⟨name, opens, _⟩ := misses
  rw [none] at opens
  cases opens

theorem Op.misses_iff {op : Op N} (opens : op.tableOpened = some name) :
    op.Misses manager ↔ Finds manager name none := by
  constructor
  · intro misses
    obtain ⟨other, same, missing⟩ := misses
    rw [opens, Option.some.injEq] at same
    rw [same]
    exact missing
  · intro missing
    exact ⟨name, opens, missing⟩

theorem Ends.refused_with {op : Op N} (misses : op.Misses manager) :
    Ends manager op (.error (.runtimeError "Invalid table name.")) :=
  ⟨fun _ => rfl, fun found => absurd misses found⟩

theorem Stands.openTable_missing (stands : Stands manager s names ids rids)
    (missing : s.tableRows.find? (·.tableName = name) = none)
    (uncached : manager.cache name = none) :
    ∃ manager', (openTable name).Throws manager (.runtimeError "Invalid table name.") manager' ∧
      Stands manager' s names ids rids := by
  have start : openTable name manager = loadTable name manager := by
    rw [openTable, Program.Returns.bind_eq (Program.get_returns manager), uncached]
  rcases stands.loadTable_cases name with ⟨_, manager', thrown, _, stands'⟩ |
    ⟨_, _, _, ⟨row, found, _⟩, _⟩
  · exact ⟨manager', start.trans thrown, stands'⟩
  · rw [missing] at found
    cases found

/-- `OpenTable` throws exactly when the catalog has no table of the name: a table in the cache is
one of the catalog. -/
theorem CacheState.openTable_ends [NeZero N] (holds : CacheState log manager s) (name : List UInt8) :
    (Finds manager name none ∧ ∃ manager' names ids rids,
      (openTable name).Throws manager (.runtimeError "Invalid table name.") manager' ∧
      Stands manager' s names ids rids) ∨
    ¬ Finds manager name none ∧ ∃ table manager' names ids rids,
      (openTable name).Returns manager table manager' ∧ Stands manager' s names ids rids := by
  have stands := holds.state.stands
  rw [stands.finds_iff]
  cases found : s.tableRows.find? (·.tableName = name) with
  | none =>
      have uncached : manager.cache name = none := by
        rw [Option.eq_none_iff_forall_ne_some]
        intro table cached
        obtain ⟨row, isRow⟩ := holds.found name table cached
        rw [found] at isRow
        cases isRow
      obtain ⟨manager', thrown, stands'⟩ := stands.openTable_missing found uncached
      exact Or.inl ⟨rfl, manager', _, _, _, thrown, stands'⟩
  | some row =>
      obtain ⟨table, manager', _, opened, _⟩ := stands.openTable_step found log
      exact Or.inr ⟨Option.some_ne_none row, table, manager', _, _, _, opened,
        (stands.opened opened).2⟩

/-- A call on a heap of a client, with two page ids left, ends. -/
theorem Stands.heap_step [NeZero N] {events : List HeapEvent}
    (stands : Stands manager s names ids (issued events)) {op : HeapOp}
    (given : GivenRids events op)
    (made : ∀ i data, op = .insert i data → i < manager.catalog.world.heaps.length)
    (room : s.pages + 2 < 2 ^ 31) :
    ∃ answer manager', (Op.heap op).run.Returns manager (.heap answer) manager' ∧
      0 ≤ nextAllocated manager'.catalog.world.bm := by
  have inside : ∀ i data, op.shift 3 = .insert i data →
      i < (World.behind systemHeaps manager.catalog.world).heaps.length := by
    intro i data same
    cases op with
    | insert j =>
        cases same
        have bound := made j data rfl
        rw [World.behind, List.length_append, show systemHeaps.length = 3 from rfl]
        omega
    | create => cases same
    | openEmpty => cases same
    | get => cases same
    | update => cases same
    | delete => cases same
  obtain ⟨answer, w', s', performs⟩ :=
    stands.holds.shows.progress (shift_allowed given stands.known) inside room
  -- the heap files of the catalog stand in front of those of clients
  have shifted := @World.shifts_run N systemHeaps op manager.catalog.world
  have ended : (op.shift 3).run (World.behind systemHeaps manager.catalog.world) =
      some (.ok answer, w') := performs.ended
  rw [show systemHeaps.length = 3 from rfl, ended] at shifted
  obtain ⟨⟨outcome, w₁⟩, ran, same⟩ := Option.map_eq_some_iff.mp shifted.symm
  obtain ⟨same, behind⟩ := Prod.mk.inj same
  cases outcome with
  | error reason => cases same
  | ok answer₁ =>
      have inner : (onWorld op.run).Returns manager answer₁
          (manager.setCatalog { manager.catalog with world := w₁ }) :=
        Program.within_eq_some.mpr ⟨w₁, ran, rfl⟩
      refine ⟨answer₁, _, inner.bind (Program.pure_returns _ _), ?_⟩
      have lower := performs.shows.unwrapped
      rw [← behind] at lower
      exact lower

/-- A call that is defined, with the page ids it needs, is a step of the run. -/
theorem CacheState.calls_step [NeZero N] (holds : CacheState log manager s) (op : Op N)
    (given : Given log op) (room : nextAllocated manager.catalog.world.bm + op.pageIds < 2 ^ 31)
    (defined : op.Defined manager) :
    ∃ outcome manager', databaseStep log manager ⟨op, outcome⟩ manager' ∧
      Ends manager op outcome := by
  have stands := holds.state.stands
  have next : nextAllocated manager.catalog.world.bm = s.pages :=
    stands.holds.shows.steady.allocated.next
  rw [next] at room
  cases op with
  | createTable tableRandom fileRandom name columns =>
      have more : s.pages + columns.length + 2 < 2 ^ 31 := by
        simp only [Op.pageIds] at room
        omega
      obtain ⟨manager', _, step, _⟩ :=
        stands.createTable_step given more tableRandom fileRandom log
      exact ⟨_, manager', step, .served_with (Op.not_misses rfl) _⟩
  | lookupTable name =>
      obtain ⟨manager', returned, stands'⟩ := stands.lookupTable_returns name
      exact ⟨_, manager', ⟨returned, given, unwrapped_of_ended rfl returned stands'.unwrapped⟩,
        .served_with (Op.not_misses rfl) _⟩
  | getTableColumns tableId =>
      obtain ⟨manager', returned, stands'⟩ := stands.getTableColumns_returns tableId
      exact ⟨_, manager', ⟨returned, given, unwrapped_of_ended rfl returned stands'.unwrapped⟩,
        .served_with (Op.not_misses rfl) _⟩
  | openTable name =>
      rcases holds.openTable_ends name with ⟨missing, manager', _, _, _, thrown, stands'⟩ |
        ⟨there, table, manager', _, _, _, opened, stands'⟩
      · have ended : (Op.openTable name).run.Throws manager _ manager' := Program.Throws.bind thrown
        exact ⟨_, manager', ⟨ended, given, unwrapped_of_ended rfl ended stands'.unwrapped⟩,
          .refused_with ((Op.misses_iff rfl).mpr missing)⟩
      · have ended : (Op.openTable name).run.Returns manager (.opened table) manager' :=
          opened.bind (Program.pure_returns _ _)
        exact ⟨_, manager', ⟨ended, given, unwrapped_of_ended rfl ended stands'.unwrapped⟩,
          .served_with (mt (Op.misses_iff rfl).mp there) _⟩
  | insert name values =>
      rcases holds.openTable_ends name with ⟨missing, manager', _, _, _, thrown, stands'⟩ |
        ⟨there, table, manager', _, _, _, opened, stands'⟩
      · have inner : (TableManager.insert name values).Throws manager _ manager' :=
          Program.Throws.bind thrown
        have ended : (Op.insert name values).run.Throws manager _ manager' :=
          Program.Throws.bind inner
        exact ⟨_, manager', ⟨ended, given, unwrapped_of_ended rfl ended stands'.unwrapped⟩,
          .refused_with ((Op.misses_iff rfl).mpr missing)⟩
      · obtain ⟨bytes, encoded⟩ := Option.isSome_iff_exists.mp (defined table manager' opened)
        obtain ⟨result, after, step, _⟩ := stands.insert_step given.1 opened encoded given.2
          (by rw [next]; exact room) log
        exact ⟨_, after, step, .served_with (mt (Op.misses_iff rfl).mp there) _⟩
  | heap op =>
      obtain ⟨answer, manager', returned, lower⟩ := stands.heap_step given defined room
      exact ⟨_, manager', ⟨returned, given, unwrapped_of_ended rfl returned lower⟩,
        .served_with (Op.not_misses rfl) _⟩
  | flushAll =>
      obtain ⟨manager', step, _⟩ := stands.flushAll_step log
      exact ⟨_, manager', step, .served_with (Op.not_misses rfl) _⟩
  | restart raw buf =>
      obtain ⟨manager', returned, stands', _⟩ :=
        stands.restart_returns (holds.state.flushed given) raw buf
      have ended : (Op.restart raw buf).run.Returns manager .done manager' :=
        returned.bind (Program.pure_returns _ _)
      exact ⟨_, manager', ⟨ended, given, unwrapped_of_ended rfl ended stands'.unwrapped⟩,
        .served_with (Op.not_misses rfl) _⟩

theorem Op.undefined_none [NeZero N] {op : Op N} (undefined : ¬ op.Defined manager) :
    op.run manager = none := by
  by_contra ended
  obtain ⟨⟨outcome, manager'⟩, ended⟩ := Option.ne_none_iff_exists'.mp ended
  apply undefined
  cases op with
  | insert name values =>
      intro table manager₁ opened
      obtain ⟨_, inner, _⟩ := Program.answer_eq_some.mp ended
      unfold TableManager.insert at inner
      rw [opened.bind_eq] at inner
      obtain ⟨bytes, _, encoded, _⟩ := insertInto_inner inner
      rw [encoded]
      rfl
  | heap op =>
      intro i data same
      subst same
      obtain ⟨_, inner, _⟩ := Program.answer_eq_some.mp ended
      obtain ⟨w', ran, _⟩ := Program.within_eq_some.mp inner
      by_contra outside
      have missing : (World.heapAt i : Program (World N) Error HeapFile)
          manager.catalog.world = none := by
        rw [World.heapAt, List.getElem?_eq_none (Nat.le_of_not_lt outside)]
        rfl
      simp only [HeapOp.run, bind, missing] at ran
      cases ran
  | createTable => trivial
  | lookupTable => trivial
  | getTableColumns => trivial
  | openTable => trivial
  | flushAll => trivial
  | restart => trivial

/-- No state that a run reaches is stuck. While page ids are left, a call ends exactly when the heap
file is there and `Encode` gets through the row, and it throws exactly when the catalog has no table
of the name it opens. -/
theorem calls_end [NeZero N] (start : TableManager N) (initialised : Initialised start)
    (log : List (Event N)) (manager : TableManager N) (run : DatabaseRun start log manager)
    (op : Op N) (given : Given log op)
    (room : nextAllocated manager.catalog.world.bm + op.pageIds < 2 ^ 31) :
    (op.Defined manager → ∃ outcome manager',
      DatabaseRun start (⟨op, outcome⟩ :: log) manager' ∧ Ends manager op outcome) ∧
    (¬ op.Defined manager → op.run manager = none) := by
  constructor
  · intro defined
    obtain ⟨s, holds⟩ := cacheState initialised run
    obtain ⟨outcome, manager', step, ends⟩ := holds.calls_step op given room defined
    exact ⟨outcome, manager', run.cons step, ends⟩
  · exact Op.undefined_none

theorem calls_end_seven : ∃ (start manager manager' : TableManager bufferPoolSize)
    (outcome : Except Error Answer),
    DatabaseRun start [⟨.insert (ascii "t") [.int 7], outcome⟩, firstCall intType] manager' ∧
      Ends manager (.insert (ascii "t") [.int 7]) outcome := by
  obtain ⟨start, manager, table, manager₁, first⟩ := first_opened intType
  have bytes : DynamicCodec.encode [.int 7] table.schema = some [7, 0, 0, 0] := by
    rw [first.schema]
    decide
  obtain ⟨outcome, manager', run, ends⟩ :=
    (calls_end start first.initialised [firstCall intType] manager first.run
      (.insert (ascii "t") [.int 7]) ⟨by decide, bounded_of_small (by decide)⟩
      first.pageIdLeft).1 (by
        intro other after opened
        rw [(opened.value_eq first.opened).1, bytes]
        rfl)
  exact ⟨start, manager, manager', outcome, run, ends⟩

end RelationalDb.TableManager
