import RelationalDb.Model.TableCache

set_option autoImplicit false

namespace RelationalDb.TableManager

open HeapFile

variable {N : Nat} {manager manager' : TableManager N} {s s' : HeapState} {name : List UInt8}

/-- No two live rows of `db_tables` have the same name. -/
def NamesDistinct (manager : TableManager N) : Prop :=
  ∀ records, Holds manager .tables records →
    (records.filterMap fun record =>
      (TableInfoCodec.decode record.2).map (·.tableName)).Nodup

/-- A `CreateTable` whose name is taken fails and adds no row. -/
def RejectsTaken (manager : TableManager N) (event : Event N) (manager' : TableManager N) : Prop :=
  ∀ tableRandom fileRandom name columns row,
    event.op = .createTable tableRandom fileRandom name columns → Finds manager name (some row) →
      (∃ reason, event.outcome = .error reason) ∧ ∀ table records, Holds manager table records →
        Holds manager' table records

/-- A `CreateTable` has a name that no table has yet. -/
def NewName (manager : TableManager N) (event : Event N) : Prop :=
  ∀ tableRandom fileRandom name columns,
    event.op = .createTable tableRandom fileRandom name columns → Finds manager name none

/-- Runs in which names identify tables. -/
abbrev NamedRun [NeZero N] (start : TableManager N) : List (Event N) → TableManager N → Prop :=
  Run (fun log manager event manager' => databaseStep log manager event manager' ∧
    NamesDistinct manager' ∧ RejectsTaken manager event manager') start

/-- Runs in which every table gets a new name. -/
abbrev NewNamesRun [NeZero N] (start : TableManager N) : List (Event N) → TableManager N → Prop :=
  Run (fun log manager event manager' => databaseStep log manager event manager' ∧
    NewName manager event) start

theorem Stands.namesDistinct_iff {names : List (List UInt8)} {ids : List Uuid}
    {rids : List (Nat × Rid)} (stands : Stands manager s names ids rids) :
    NamesDistinct manager ↔ (s.tableRows.map (·.tableName)).Nodup := by
  have rows : ∀ records : List (Rid × List UInt8), records.map Prod.snd = s.rows .tables →
      (records.filterMap fun record => (TableInfoCodec.decode record.2).map (·.tableName)) =
        s.tableRows.map (·.tableName) := by
    intro records same
    rw [HeapState.tableRows, ← same, List.filterMap_map, List.map_filterMap]
    rfl
  constructor
  · intro distinct
    obtain ⟨records, holds, same⟩ := stands.rows_iff.mpr rfl
    rw [← rows records same]
    exact distinct records holds
  · intro distinct records holds
    rw [rows records (stands.rows_iff.mp ⟨records, holds, rfl⟩).symm]
    exact distinct

/-- A new table with a new name keeps the names distinct. -/
theorem Created.namesDistinct {log : List (Event N)} {tableRandom fileRandom : Uuid}
    {columns : List RawColumnInfo}
    (created : Created log manager s tableRandom fileRandom name columns manager' s')
    (free : s.tableRows.find? (·.tableName = name) = none)
    (distinct : (s.tableRows.map (·.tableName)).Nodup) :
    (s'.tableRows.map (·.tableName)).Nodup := by
  have more := created.tableRows
  split at more
  · have names := more.perm.map (·.tableName)
    rw [names.nodup_iff, List.map_cons, List.nodup_cons]
    refine ⟨?_, distinct⟩
    intro member
    obtain ⟨row, among, same⟩ := List.mem_map.mp member
    exact List.find?_eq_none.mp free row among (decide_eq_true same)
  · rw [more]
    exact distinct

theorem Evolves.namesDistinct [NeZero N] {log : List (Event N)} {event : Event N}
    (holds : RunState log manager s) (step : databaseStep log manager event manager')
    (newName : NewName manager event) (distinct : NamesDistinct manager) :
    NamesDistinct manager' := by
  have before := holds.stands.namesDistinct_iff.mp distinct
  obtain ⟨op, outcome⟩ := event
  obtain ⟨s', evolves, _, holds'⟩ := holds.step step
  rcases evolves.cases with same | ⟨tableRandom, fileRandom, name, columns, rfl, _⟩
  · rw [holds'.stands.namesDistinct_iff, same.tableRows]
    exact before
  · obtain ⟨_, s₁, created⟩ := holds.created step
    have free := holds.stands.finds_iff.mp (newName tableRandom fileRandom name columns rfl)
    exact created.after.namesDistinct_iff.mpr (created.namesDistinct free before)

theorem Booted.names (booted : Booted manager s) :
    s.tableRows.map (·.tableName) = systemNames := by
  rw [HeapState.tableRows, HeapState.rows, booted.tables]
  decide

theorem Initialised.namesDistinct [NeZero N] (initialised : Initialised manager) :
    NamesDistinct manager := by
  obtain ⟨s, booted⟩ := initialised.booted
  rw [booted.state.stands.namesDistinct_iff, booted.names]
  decide

theorem newName_of_rejects [NeZero N] {log : List (Event N)} {event : Event N}
    (holds : RunState log manager s) (step : databaseStep log manager event manager')
    (rejects : RejectsTaken manager event manager') : NewName manager event := by
  obtain ⟨op, outcome⟩ := event
  intro tableRandom fileRandom name columns isCreate
  obtain rfl : op = _ := isCreate
  obtain ⟨rfl, _⟩ := holds.created step
  rw [holds.stands.finds_iff]
  cases found : s.tableRows.find? (·.tableName = name) with
  | none => rfl
  | some row =>
      obtain ⟨⟨_, failed⟩, _⟩ := rejects _ _ _ _ row rfl (holds.stands.finds_iff.mpr found)
      cases failed

/-- Names identify tables in exactly the runs in which every table gets a new name. -/
theorem names_identify_iff [NeZero N] (start : TableManager N) (initialised : Initialised start) :
    NamesDistinct start ∧ ∀ (log : List (Event N)) (manager : TableManager N),
      NamedRun start log manager ↔ NewNamesRun start log manager := by
  refine ⟨initialised.namesDistinct, fun log manager => ⟨?_, ?_⟩⟩
  · intro run
    induction run with
    | nil => exact .nil
    | cons previous taken ih =>
        obtain ⟨s, holds⟩ := runState initialised
          (previous.mono fun _ _ _ _ taken => taken.1)
        exact ih.cons ⟨taken.1, newName_of_rejects holds taken.1 taken.2.2⟩
  · intro run
    have whole : NamedRun start log manager ∧ NamesDistinct manager := by
      induction run with
      | nil => exact ⟨.nil, initialised.namesDistinct⟩
      | cons previous taken ih =>
          obtain ⟨s, holds⟩ := runState initialised
            (previous.mono fun _ _ _ _ taken => taken.1)
          have distinct := Evolves.namesDistinct holds taken.1 taken.2 ih.2
          refine ⟨ih.1.cons ⟨taken.1, distinct, ?_⟩, distinct⟩
          intro tableRandom fileRandom name columns row isCreate found
          have free := taken.2 tableRandom fileRandom name columns isCreate
          rw [holds.stands.finds_iff] at found free
          rw [free] at found
          cases found
    exact whole.1

/-- Two tables of the name `db_tables`. -/
theorem createTable_repeats_name : ∃ start manager' : TableManager bufferPoolSize,
    Initialised start ∧
      databaseStep [] start ⟨.createTable (fun _ => 0) (fun _ => 0) dbTablesTable [],
        .ok (.created (generateUuid fun _ => 0))⟩ manager' ∧ ¬ NamesDistinct manager' := by
  have noColumns : ∀ column ∈ ([] : List RawColumnInfo), HeapState.ColumnFits column.colName :=
    fun column member => absurd member List.not_mem_nil
  obtain ⟨start, manager', initialised, step, _⟩ := @first_createTable bufferPoolSize _
    dbTablesTable [] (sized_of_fits (by decide) noColumns) (by decide)
  obtain ⟨s, booted⟩ := initialised.booted
  obtain ⟨_, s', created⟩ := booted.state.created step
  refine ⟨start, manager', initialised, step, fun distinct => ?_⟩
  have more := created.tableRows
  rw [if_pos (by decide)] at more
  have names := created.after.namesDistinct_iff.mp distinct
  rw [(more.perm.map (·.tableName)).nodup_iff, List.map_cons, booted.names] at names
  exact (List.nodup_cons.mp names).1 (show dbTablesTable ∈ systemNames by decide)

theorem names_identify_iff_first : ∃ start manager' : TableManager bufferPoolSize,
    Initialised start ∧
      NamedRun start [⟨.createTable (fun _ => 0) (fun _ => 0) (ascii "t") [⟨ascii "c", intType, 1⟩],
        .ok (.created (generateUuid fun _ => 0))⟩] manager' := by
  have small := @single_fits ⟨ascii "c", intType, 1⟩ (by decide)
  obtain ⟨start, manager', initialised, step, free⟩ :=
    @first_createTable bufferPoolSize _ (ascii "t") _ (sized_of_fits (by decide) small) (by decide)
  refine ⟨start, manager', initialised, ?_⟩
  apply ((names_identify_iff start initialised).2 _ manager').mpr
  refine Run.nil.cons ⟨step, ?_⟩
  intro tableRandom fileRandom name columns isCreate
  cases isCreate
  exact free (by decide)

end RelationalDb.TableManager
