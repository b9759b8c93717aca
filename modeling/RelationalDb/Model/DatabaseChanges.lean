import RelationalDb.Model.DatabaseRuns

set_option autoImplicit false

namespace RelationalDb.TableManager

open HeapFile

variable {N : Nat}

/-- Calls that only look something up, or write pages back. -/
def Op.looks : Op N → Bool
  | lookupTable _ => true
  | getTableColumns _ => true
  | openTable _ => true
  | flushAll => true
  | _ => false

/-- Everything a call can do to the pages of the heaps. -/
inductive Changes (manager : TableManager N) : Event N → HeapState → HeapState → Prop
  | created {tableRandom fileRandom : Uuid} {name : List UInt8} {columns : List RawColumnInfo}
      {s s' : HeapState} (created : s.TableCreated (generateUuid tableRandom)
        (generateUuid fileRandom) name
        (columns.map (Catalog.columnInfo (generateUuid tableRandom))) s') :
      Changes manager ⟨.createTable tableRandom fileRandom name columns,
        .ok (.created (generateUuid tableRandom))⟩ s s'
  | inserted {name : List UInt8} {values : List Value} {table : UserTable} {bytes : List UInt8}
      {manager₁ : TableManager N} {i : Nat} {result : Option Rid} {s s' : HeapState}
      (opened : (openTable name).Returns manager table manager₁)
      (present : s.heaps[i]? = some table.hf) (made : table.hf.firstPageId ≠ invalidPageId)
      (own : 3 ≤ i) (encoded : DynamicCodec.encode values table.schema = some bytes)
      (effect : HeapState.Effect (.insert i bytes) (.placed result) s s') :
      Changes manager ⟨.insert name values, .ok (.placed result)⟩ s s'
  | refused {name : List UInt8} {values : List Value} {reason : Error} {s : HeapState} :
      Changes manager ⟨.insert name values, .error reason⟩ s s
  | heap {op : HeapOp} {answer : HeapAnswer} {s s' : HeapState}
      (effect : HeapState.Effect (op.shift 3) (answer.shift 3) s s') :
      Changes manager ⟨.heap op, .ok (.heap answer)⟩ s s'
  | reopened {raw : Fin N → Page} {buf : Page} {s : HeapState}
      (inFile : s.InFile manager.catalog.world.bm.disk.dbIo) :
      Changes manager ⟨.restart raw buf, .ok .done⟩ s
        (s.reopened manager.catalog.world.bm.disk.dbIo)
  | looked {op : Op N} {outcome : Except Error Answer} {s : HeapState} (looks : op.looks = true) :
      Changes manager ⟨op, outcome⟩ s s

variable {manager manager' : TableManager N} {s s' : HeapState} {names : List (List UInt8)}
  {ids : List Uuid} {rids : List (Nat × Rid)} {name : List UInt8} {table : UserTable}

/-- A heap has one place among the heap files. -/
theorem index_unique (sound : s.Sound) {i j : Nat} {hf : HeapFile} (here : s.heaps[i]? = some hf)
    (there : s.heaps[j]? = some hf) (made : hf.firstPageId ≠ invalidPageId) : i = j :=
  sound.apart i j hf.firstPageId ((sound.linked i hf here).first_mem made)
    ((sound.linked j hf there).first_mem made)

theorem Stands.insert_effect (stands : Stands manager s names ids rids) {i : Nat}
    {bytes : List UInt8} {answer : HeapAnswer}
    (effect : HeapState.Effect (.insert i bytes) answer s s') (own : 3 ≤ i) {catalog : Catalog N}
    (holds : catalog.Holds s') :
    s.SameRows s' ∧ Stands (manager.setCatalog catalog) s' names ids rids := by
  have apart : ∀ table : CatalogTable, (HeapOp.insert i bytes).target ≠ some table.index := by
    intro table same
    have target : i = table.index := Option.some.inj same
    have bound := table.index_lt
    omega
  exact ⟨stands.sameRows effect apart, stands.effect effect apart holds⟩

theorem Stands.insertInto_changes (stands : Stands manager s names ids rids) {values : List Value}
    {outcome : Except Error (Option Rid)} (cached : Cached s names name table)
    (own : name ∉ systemNames)
    (bounded : ∀ schema bytes, DynamicCodec.encode values schema = some bytes →
      bytes.length < 2 ^ 63)
    (ended : insertInto name table values manager = some (outcome, manager'))
    (unwrapped : 0 ≤ nextAllocated manager'.catalog.world.bm) :
    ∃ i bytes result s', s.heaps[i]? = some table.hf ∧ 3 ≤ i ∧
      DynamicCodec.encode values table.schema = some bytes ∧ outcome = .ok result ∧
      HeapState.Effect (.insert i bytes) (.placed result) s s' ∧ s.SameRows s' ∧
      Stands manager' s' names ids rids := by
  obtain ⟨bytes, outcome', encoded, inserted⟩ := insertInto_inner ended
  obtain ⟨i, present, behind⟩ := cached.place
  obtain ⟨result, s', rfl, effect, holds'⟩ := stands.holds.heapInsert_ends present cached.made
    (bounded _ _ encoded) inserted unwrapped
  have whole := insertInto_returns name encoded inserted
  unfold Program.Returns at whole
  rw [whole, Option.some.injEq, Prod.mk.injEq] at ended
  obtain ⟨same, stands'⟩ := stands.insert_effect effect (behind own) holds'
  refine ⟨i, bytes, result, s', present, behind own, encoded, ended.1.symm, effect, same, ?_⟩
  rw [← ended.2]
  exact stands'.withTable (cached.kept (List.Subset.refl names)
    fun _ _ found made => effect.heaps_kept found made)

theorem Changes.evolves {event : Event N} (changes : Changes manager event s s')
    (stands : Stands manager s names ids rids) : Evolves event.op s s' := by
  cases changes with
  | created created => exact created
  | @inserted name values table bytes manager₁ i result s s' opened present made own encoded
      effect =>
      apply stands.sameRows effect
      intro table same
      have target : i = table.index := Option.some.inj same
      have bound := table.index_lt
      omega
  | refused => exact fun _ => rfl
  | heap effect => exact stands.sameRows effect (shift_target _)
  | reopened inFile => exact inFile.sameRows stands.holds.shows.sound
  | @looked op outcome s looks =>
      cases op with
      | createTable => cases looks
      | lookupTable => exact fun _ => rfl
      | getTableColumns => exact fun _ => rfl
      | openTable => exact fun _ => rfl
      | insert => cases looks
      | heap => cases looks
      | flushAll => exact fun _ => rfl
      | restart => cases looks

theorem RunState.changed {log : List (Event N)} {event : Event N} (holds : RunState log manager s)
    (changes : Changes manager event s s')
    (stands' : Stands manager' s' (knownNames (event :: log)) (knownIds (event :: log))
      (issued (heapEvents (event :: log))))
    (flushed' : EndsFlushed (event :: log) → Flushed manager' s') :
    RunState (event :: log) manager' s' := by
  have stands := holds.stands
  have first' := (changes.evolves stands).firstRows stands.holds.shows.sound stands.catalogued
    holds.first
  exact ⟨stands', first', flushed'⟩

theorem RunState.insert_changes [NeZero N] {log : List (Event N)} {values : List Value}
    {outcome : Except Error Answer} (holds : RunState log manager s)
    (taken : databaseStep log manager ⟨.insert name values, outcome⟩ manager') :
    ∃ s', Changes manager ⟨.insert name values, outcome⟩ s s' ∧
      RunState (⟨.insert name values, outcome⟩ :: log) manager' s' := by
  obtain ⟨ended, given, unwrapped⟩ := taken
  have room := unwrapped.alone rfl ended
  obtain ⟨outcome', inner, rfl⟩ := Program.answer_eq_some.mp ended
  unfold TableManager.insert at inner
  rcases holds.stands.openTable_cases name with ⟨_, reason, after, thrown, _, stands'⟩ |
    ⟨table, after, opened, _, _, cached, stands'⟩
  · have whole : (openTable name >>= fun table => insertInto name table values) manager =
        some (.error reason, after) := Program.Throws.bind thrown
    rw [whole, Option.some.injEq, Prod.mk.injEq] at inner
    obtain ⟨rfl, rfl⟩ := inner
    exact ⟨s, .refused, holds.changed .refused stands' False.elim⟩
  · rw [opened.bind_eq] at inner
    obtain ⟨i, bytes, result, s', present, own, encoded, rfl, effect, _, stands''⟩ :=
      stands'.insertInto_changes cached given.1 given.2 inner room
    have changes : Changes manager ⟨.insert name values, .ok (.placed result)⟩ s s' :=
      .inserted opened present cached.made own encoded effect
    exact ⟨s', changes, holds.changed changes stands'' False.elim⟩

theorem RunState.heap_changes [NeZero N] {log : List (Event N)} {op : HeapOp}
    {outcome : Except Error Answer} (holds : RunState log manager s)
    (taken : databaseStep log manager ⟨.heap op, outcome⟩ manager') :
    ∃ s', Changes manager ⟨.heap op, outcome⟩ s s' ∧
      RunState (⟨.heap op, outcome⟩ :: log) manager' s' := by
  obtain ⟨ended, given, unwrapped⟩ := taken
  have room := unwrapped.alone rfl ended
  obtain ⟨outcome', inner, rfl⟩ := Program.answer_eq_some.mp ended
  obtain ⟨w', ran, rfl⟩ := Program.within_eq_some.mp inner
  have stands := holds.stands
  have shifted := @World.shifts_run N systemHeaps op manager.catalog.world
  rw [ran, Option.map_some] at shifted
  obtain ⟨answer', s', same, effect, shows'⟩ :=
    stands.holds.shows.step (shift_allowed given stands.known) shifted room
  cases outcome' with
  | error reason => cases same
  | ok answer =>
      rw [Except.map, Except.ok.injEq] at same
      rw [← same] at effect
      have stands' := stands.effect effect (shift_target op)
        (show Catalog.Holds { manager.catalog with world := w' } s' from
          ⟨shows', stands.holds.relations⟩)
      have changes : Changes manager ⟨.heap op, .ok (.heap answer)⟩ s s' := .heap effect
      refine ⟨s', changes, holds.changed changes
        ⟨stands'.holds, stands'.catalogued, stands'.cached, ?_⟩ False.elim⟩
      intro entry member
      rcases issued_cases member with earlier | ⟨data, rfl, rfl⟩
      · exact stands'.known entry earlier
      · exact (effect.placed_new stands.holds.shows.sound).1

theorem RunState.restart_changes [NeZero N] {log : List (Event N)} {raw : Fin N → Page} {buf : Page}
    {outcome : Except Error Answer} (holds : RunState log manager s)
    (taken : databaseStep log manager ⟨.restart raw buf, outcome⟩ manager') :
    ∃ s', Changes manager ⟨.restart raw buf, outcome⟩ s s' ∧
      RunState (⟨.restart raw buf, outcome⟩ :: log) manager' s' := by
  obtain ⟨ended, given, _⟩ := taken
  have inFile := (holds.flushed given).inFile
  obtain ⟨after, returned, stands', _⟩ :=
    holds.stands.restart_returns (holds.flushed given) raw buf
  have done : (Op.restart raw buf).run.Returns manager .done after :=
    returned.bind (Program.pure_returns _ _)
  rw [show (Op.restart raw buf).run manager = some (_, after) from done, Option.some.injEq,
    Prod.mk.injEq] at ended
  obtain ⟨rfl, rfl⟩ := ended
  have changes : Changes manager ⟨.restart raw buf, .ok .done⟩ s _ := .reopened inFile
  exact ⟨_, changes, holds.changed changes stands' False.elim⟩

/-- Calls that only look keep the state of a run. -/
theorem RunState.looked [NeZero N] {log : List (Event N)} {op : Op N}
    {outcome : Except Error Answer} (holds : RunState log manager s) (looks : op.looks = true)
    (taken : databaseStep log manager ⟨op, outcome⟩ manager') :
    RunState (⟨op, outcome⟩ :: log) manager' s := by
  have stands := holds.stands
  have still : ∀ outcome', Changes manager ⟨op, outcome'⟩ s s := fun _ => .looked looks
  obtain ⟨ended, _, _⟩ := taken
  cases op with
  | createTable => cases looks
  | lookupTable name =>
      obtain ⟨after, returned, stands'⟩ := stands.lookupTable_returns name
      rw [show (Op.lookupTable name).run manager = some (_, after) from returned] at ended
      cases ended
      exact holds.changed (still _) stands' False.elim
  | getTableColumns tableId =>
      obtain ⟨after, returned, stands'⟩ := stands.getTableColumns_returns tableId
      rw [show (Op.getTableColumns tableId).run manager = some (_, after) from returned] at ended
      cases ended
      exact holds.changed (still _) stands' False.elim
  | openTable name =>
      obtain ⟨outcome', inner, rfl⟩ := Program.answer_eq_some.mp ended
      rcases stands.openTable_cases name with ⟨_, reason, after, thrown, _, stands'⟩ |
        ⟨table, after, opened, _, _, _, stands'⟩
      · rw [show TableManager.openTable name manager = some (_, after) from thrown] at inner
        cases inner
        exact holds.changed (still _) stands' False.elim
      · rw [show TableManager.openTable name manager = some (_, after) from opened] at inner
        cases inner
        exact holds.changed (still _) stands' False.elim
  | insert => cases looks
  | heap => cases looks
  | flushAll =>
      obtain ⟨after, returned, stands', whole⟩ := stands.flushAll_returns
      have done : (Op.flushAll : Op N).run.Returns manager .done after :=
        returned.bind (Program.pure_returns _ _)
      rw [show (Op.flushAll : Op N).run manager = some (_, after) from done] at ended
      cases ended
      exact holds.changed (still _) stands' fun _ => whole
  | restart => cases looks

theorem RunState.changes [NeZero N] {log : List (Event N)} {event : Event N}
    (holds : RunState log manager s) (taken : databaseStep log manager event manager') :
    ∃ s', Changes manager event s s' ∧ RunState (event :: log) manager' s' := by
  obtain ⟨op, outcome⟩ := event
  cases op with
  | createTable tableRandom fileRandom name columns =>
      obtain ⟨ended, given, unwrapped⟩ := taken
      obtain ⟨rfl, s', creates, stands'⟩ :=
        holds.stands.createTable_ends given unwrapped ended
      have changes : Changes manager _ s s' := .created creates.created
      exact ⟨s', changes, holds.changed changes stands' False.elim⟩
  | insert name values => exact holds.insert_changes taken
  | heap op => exact holds.heap_changes taken
  | restart raw buf => exact holds.restart_changes taken
  | lookupTable name => exact ⟨s, .looked rfl, holds.looked rfl taken⟩
  | getTableColumns tableId => exact ⟨s, .looked rfl, holds.looked rfl taken⟩
  | openTable name => exact ⟨s, .looked rfl, holds.looked rfl taken⟩
  | flushAll => exact ⟨s, .looked rfl, holds.looked rfl taken⟩

end RelationalDb.TableManager
