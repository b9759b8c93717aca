import Mathlib.Data.Set.Finite.Basic
import RelationalDb.Access.HeapRuns

set_option autoImplicit false

namespace RelationalDb

open HeapFile

/-- A number of maps, the keys that were ever handed out, and by which map. Only
a key that the map itself handed out is bound. -/
structure Maps (κ ν : Type) where
  count : Nat
  binding : Nat → κ → Option ν
  used : List (Nat × κ)
  bound : ∀ i key, (binding i key).isSome = true → (i, key) ∈ used

namespace Maps

variable {κ ν : Type}

def empty : Maps κ ν := ⟨0, fun _ _ => none, [], fun _ _ held => by cases held⟩

def addMap (maps : Maps κ ν) : Maps κ ν := { maps with count := maps.count + 1 }

/-- The keys of each map are finitely many. -/
theorem finite (maps : Maps κ ν) (i : Nat) :
    {key | (maps.binding i key).isSome = true}.Finite := by
  apply (List.finite_toSet (maps.used.map Prod.snd)).subset
  intro key held
  exact List.mem_map.mpr ⟨(i, key), maps.bound i key held, rfl⟩

variable [DecidableEq κ]

/-- Changes the one binding of a key in a map. -/
def rebind (maps : Maps κ ν) (i : Nat) (key : κ) (value : Option ν) : Nat → κ → Option ν :=
  fun j other => if j = i ∧ other = key then value else maps.binding j other

theorem rebind_bound {maps : Maps κ ν} {i : Nat} {key : κ} {value : Option ν} {j : Nat} {other : κ}
    (held : (maps.rebind i key value j other).isSome = true) :
    (j, other) = (i, key) ∨ (j, other) ∈ maps.used := by
  unfold rebind at held
  split at held
  · rename_i here
    exact Or.inl (Prod.ext here.1 here.2)
  · exact Or.inr (maps.bound j other held)

/-- A new key of a map. -/
def insert (maps : Maps κ ν) (i : Nat) (key : κ) (value : ν) : Maps κ ν where
  count := maps.count
  binding := maps.rebind i key (some value)
  used := (i, key) :: maps.used
  bound _ _ held := List.mem_cons.mpr (rebind_bound held)

/-- A binding of a key the map handed out is replaced or removed. -/
def put (maps : Maps κ ν) (i : Nat) (key : κ) (value : Option ν) (used : (i, key) ∈ maps.used) :
    Maps κ ν where
  count := maps.count
  binding := maps.rebind i key value
  used := maps.used
  bound _ _ held := (rebind_bound held).elim (fun same => same ▸ used) id

end Maps

/-- Calls on maps from record ids to bytes and what they answer. -/
inductive MapsStep : Maps Rid (List UInt8) → HeapOp → HeapAnswer → Maps Rid (List UInt8) → Prop
  | create {maps : Maps Rid (List UInt8)} {fileId : Uuid} :
      MapsStep maps (.create fileId) (.made maps.count) maps.addMap
  | openEmpty {maps : Maps Rid (List UInt8)} {fileId : Uuid} :
      MapsStep maps (.openEmpty fileId) (.made maps.count) maps.addMap
  | inserted {maps : Maps Rid (List UInt8)} {i : Nat} {data : List UInt8} {rid : Rid}
      (fresh : ∀ j, (j, rid) ∉ maps.used) :
      MapsStep maps (.insert i data) (.placed (some rid)) (maps.insert i rid data)
  | rejected {maps : Maps Rid (List UInt8)} {i : Nat} {data : List UInt8} :
      MapsStep maps (.insert i data) (.placed none) maps
  | found {maps : Maps Rid (List UInt8)} {i : Nat} {rid : Rid} {data : List UInt8}
      (held : maps.binding i rid = some data) :
      MapsStep maps (.get i rid) (.found (some data)) maps
  | updated {maps : Maps Rid (List UInt8)} {i : Nat} {rid : Rid} {old data : List UInt8}
      (held : maps.binding i rid = some old) :
      MapsStep maps (.update i rid data) (.done true)
        (maps.put i rid (some data) (maps.bound i rid (held ▸ rfl)))
  | kept {maps : Maps Rid (List UInt8)} {i : Nat} {rid : Rid} {data : List UInt8} :
      MapsStep maps (.update i rid data) (.done false) maps
  | deleted {maps : Maps Rid (List UInt8)} {i : Nat} {rid : Rid} {old : List UInt8}
      (held : maps.binding i rid = some old) :
      MapsStep maps (.delete i rid) (.done true)
        (maps.put i rid none (maps.bound i rid (held ▸ rfl)))

/-- Calls on maps do not throw. -/
def mapsStep (_ : List HeapEvent) (maps : Maps Rid (List UInt8)) (event : HeapEvent)
    (maps' : Maps Rid (List UInt8)) : Prop :=
  ∃ answer, event.outcome = .ok answer ∧ MapsStep maps event.op answer maps'

/-- The record ids that were deleted, each with its heap. -/
def deleted : List HeapEvent → List (Nat × Rid)
  | [] => []
  | event :: log =>
      match event.op, event.outcome with
      | .delete i rid, .ok (.done true) => (i, rid) :: deleted log
      | _, _ => deleted log

/-- Non-empty byte strings shorter than 2^63, and record ids their heap issued
that were not deleted. -/
def LiveRids (log : List HeapEvent) : HeapOp → Prop
  | .create _ => True
  | .openEmpty _ => True
  | .insert _ data => data ≠ [] ∧ data.length < 2 ^ 63
  | .get i rid => (i, rid) ∈ issued log ∧ (i, rid) ∉ deleted log
  | .update i rid data =>
      ((i, rid) ∈ issued log ∧ (i, rid) ∉ deleted log) ∧ data ≠ [] ∧ data.length < 2 ^ 63
  | .delete i rid => (i, rid) ∈ issued log ∧ (i, rid) ∉ deleted log

theorem LiveRids.given {log : List HeapEvent} {op : HeapOp} (live : LiveRids log op) :
    GivenRids log op := by
  cases op with
  | create fileId => trivial
  | openEmpty fileId => trivial
  | insert i data => exact live.2
  | get i rid => exact live.1
  | update i rid data => exact ⟨live.1.1, live.2.2⟩
  | delete i rid => exact live.1

namespace World

variable {N : Nat}

/-- The bindings of the maps are the stored records of the heaps. -/
structure Represents (log : List HeapEvent) (s : HeapState) (maps : Maps Rid (List UInt8)) :
    Prop where
  count : maps.count = s.heaps.length
  used : maps.used = issued log
  stored : ∀ i rid, (i, rid) ∈ maps.used → maps.binding i rid = storedRecord s.view rid
  live : ∀ i rid, (i, rid) ∈ maps.used → (i, rid) ∉ deleted log →
    (maps.binding i rid).isSome = true
  gone : ∀ i rid, (i, rid) ∈ deleted log → (i, rid) ∈ maps.used ∧ maps.binding i rid = none

variable {log : List HeapEvent} {s s' : HeapState} {maps : Maps Rid (List UInt8)}

/-- A call that changes no record. -/
theorem Represents.kept (repr : Represents log s maps) {event : HeapEvent}
    (count : s'.heaps.length = s.heaps.length) (noneIssued : issued (event :: log) = issued log)
    (noneDeleted : deleted (event :: log) = deleted log)
    (same : ∀ i rid, (i, rid) ∈ issued log → storedRecord s'.view rid = storedRecord s.view rid) :
    Represents (event :: log) s' maps := by
  refine ⟨by rw [count, repr.count], by rw [noneIssued, repr.used], ?_, ?_, ?_⟩
  · intro i rid member
    rw [repr.stored i rid member, same i rid (repr.used ▸ member)]
  · intro i rid member
    rw [noneDeleted]
    exact repr.live i rid member
  · rw [noneDeleted]
    exact repr.gone

theorem Represents.made (repr : Represents log s maps) {event : HeapEvent}
    (count : s'.heaps.length = s.heaps.length + 1) (noneIssued : issued (event :: log) = issued log)
    (noneDeleted : deleted (event :: log) = deleted log)
    (same : ∀ i rid, (i, rid) ∈ issued log → storedRecord s'.view rid = storedRecord s.view rid) :
    Represents (event :: log) s' maps.addMap := by
  have kept : Represents (event :: log) { s' with heaps := s.heaps } maps :=
    repr.kept rfl noneIssued noneDeleted same
  refine ⟨?_, kept.used, kept.stored, kept.live, kept.gone⟩
  rw [count, ← repr.count]
  rfl

/-- A call that changes the record of one record id of heap `i`. -/
theorem Represents.put (repr : Represents log s maps) {event : HeapEvent} {i : Nat} {rid : Rid}
    {value : Option (List UInt8)} (used : (i, rid) ∈ maps.used)
    (owner : ∀ j, (j, rid) ∈ issued log → j = i)
    (count : s'.heaps.length = s.heaps.length) (noneIssued : issued (event :: log) = issued log)
    (more : ∀ entry ∈ deleted log, entry ∈ deleted (event :: log))
    (only : ∀ entry ∈ deleted (event :: log), entry = (i, rid) ∨ entry ∈ deleted log)
    (dead : (i, rid) ∈ deleted (event :: log) ↔ value = none)
    (after : ∀ j other, (j, other) ∈ issued log → storedRecord s'.view other =
      if other = rid then value else storedRecord s.view other) :
    Represents (event :: log) s' (maps.put i rid value used) := by
  have bindings : ∀ j other, (j, other) ∈ maps.used → (maps.put i rid value used).binding j other =
      if other = rid then value else maps.binding j other := by
    intro j other member
    simp only [Maps.put, Maps.rebind]
    by_cases here : other = rid
    · rw [here] at member ⊢
      rw [owner j (repr.used ▸ member)]
      simp only [and_self, ↓reduceIte]
    · simp only [here, and_false, ↓reduceIte]
  refine ⟨repr.count.trans count.symm, repr.used.trans noneIssued.symm, ?_, ?_, ?_⟩
  · intro j other member
    rw [bindings j other member, after j other (repr.used ▸ member), repr.stored j other member]
  · intro j other member alive
    rw [bindings j other member]
    split
    · rename_i here
      rw [here] at member alive
      rw [owner j (repr.used ▸ member), dead] at alive
      exact Option.isSome_iff_ne_none.mpr alive
    · exact repr.live j other member fun gone => alive (more _ gone)
  · intro j other gone
    rcases only _ gone with here | old
    · cases here
      rw [bindings i rid used, if_pos rfl]
      exact ⟨used, dead.mp gone⟩
    · obtain ⟨member, none⟩ := repr.gone j other old
      rw [bindings j other member]
      refine ⟨member, ?_⟩
      split
      · rename_i here
        rw [here] at member gone
        rw [owner j (repr.used ▸ member)] at gone
        exact dead.mp gone
      · exact none

/-- A call that issues a new record id of heap `i`. -/
theorem Represents.insert (repr : Represents log s maps) {event : HeapEvent} {i : Nat} {rid : Rid}
    {data : List UInt8} (fresh : ∀ j, (j, rid) ∉ maps.used)
    (count : s'.heaps.length = s.heaps.length)
    (oneIssued : issued (event :: log) = (i, rid) :: issued log)
    (noneDeleted : deleted (event :: log) = deleted log)
    (stored : storedRecord s'.view rid = some data)
    (same : ∀ j other, (j, other) ∈ issued log →
      storedRecord s'.view other = storedRecord s.view other) :
    Represents (event :: log) s' (maps.insert i rid data) := by
  have bindings : ∀ j other, (j, other) ∈ maps.used →
      (maps.insert i rid data).binding j other = maps.binding j other := by
    intro j other member
    have apart : ¬ (j = i ∧ other = rid) := fun here => fresh j (here.2 ▸ member)
    simp only [Maps.insert, Maps.rebind, apart, ↓reduceIte]
  have new : (maps.insert i rid data).binding i rid = some data := by
    simp only [Maps.insert, Maps.rebind, and_self, ↓reduceIte]
  refine ⟨repr.count.trans count.symm, ?_, ?_, ?_, ?_⟩
  · rw [oneIssued, ← repr.used]
    rfl
  · intro j other member
    rcases List.mem_cons.mp member with here | old
    · cases here
      rw [new, stored]
    · rw [bindings j other old, repr.stored j other old, same j other (repr.used ▸ old)]
  · intro j other member alive
    rcases List.mem_cons.mp member with here | old
    · cases here
      rw [new]
      rfl
    · rw [noneDeleted] at alive
      rw [bindings j other old]
      exact repr.live j other old alive
  · intro j other gone
    rw [noneDeleted] at gone
    obtain ⟨member, none⟩ := repr.gone j other gone
    rw [bindings j other member]
    exact ⟨List.mem_cons_of_mem _ member, none⟩

/-- Every effect of a call is one of a call on the maps. -/
theorem Represents.step (repr : Represents log s maps) (sound : s.Sound)
    (known : ∀ entry ∈ issued log, s.Known entry.1 entry.2) {op : HeapOp} {answer : HeapAnswer}
    (live : LiveRids log op) (effect : HeapState.Effect op answer s s') :
    ∃ maps', MapsStep maps op answer maps' ∧ Represents (⟨op, .ok answer⟩ :: log) s' maps' := by
  have after : ∀ i rid, (i, rid) ∈ issued log →
      storedRecord s'.view rid = HeapState.recordAfter op answer rid (storedRecord s.view rid) :=
    fun i rid member => effect.record sound (known (i, rid) member)
  have held : ∀ i rid, (i, rid) ∈ issued log → (i, rid) ∉ deleted log →
      ∃ data, maps.binding i rid = some data := fun i rid member alive =>
    Option.isSome_iff_exists.mp (repr.live i rid (repr.used ▸ member) alive)
  have owner : ∀ i rid, (i, rid) ∈ issued log → ∀ j, (j, rid) ∈ issued log → j = i :=
    fun i rid member j other => (known (j, rid) other).heap_eq (known (i, rid) member) sound
  have count := effect.count
  cases op with
  | create fileId =>
      obtain rfl : answer = .made maps.count := by
        cases effect
        rw [repr.count]
      exact ⟨_, .create, repr.made count rfl rfl after⟩
  | openEmpty fileId =>
      obtain rfl : answer = .made maps.count := by
        cases effect
        rw [repr.count]
      exact ⟨_, .openEmpty, repr.made count rfl rfl after⟩
  | insert i data =>
      obtain ⟨result, rfl⟩ := effect.answer_placed
      cases result with
      | none => exact ⟨_, .rejected, repr.kept count rfl rfl after⟩
      | some rid =>
          obtain ⟨_, stored, new⟩ := effect.placed_new sound
          have fresh : ∀ j, (j, rid) ∉ maps.used := fun j member =>
            new j (known (j, rid) (repr.used ▸ member))
          rw [SlottedPage.visible, if_neg live.1] at stored
          exact ⟨_, .inserted fresh, repr.insert fresh count rfl rfl stored after⟩
  | get i rid =>
      obtain ⟨data, bound⟩ := held i rid live.1 live.2
      obtain rfl : answer = .found (some data) := by
        cases effect
        rw [← bound, repr.stored i rid (repr.used ▸ live.1)]
      exact ⟨_, .found bound, repr.kept count rfl rfl after⟩
  | update i rid data =>
      obtain ⟨⟨given, alive⟩, nonempty, _⟩ := live
      obtain ⟨old, bound⟩ := held i rid given alive
      obtain ⟨success, rfl⟩ : ∃ success, answer = .done success := by
        cases effect
        exact ⟨_, rfl⟩
      cases success with
      | false => exact ⟨_, .kept, repr.kept count rfl rfl after⟩
      | true =>
          simp only [HeapState.recordAfter, SlottedPage.visible, nonempty, ↓reduceIte] at after
          refine ⟨_, .updated bound, repr.put (repr.used ▸ given) (owner i rid given) count rfl
            (fun _ gone => gone) (fun _ gone => Or.inr gone) ?_ after⟩
          exact ⟨fun gone => (alive gone).elim, fun impossible => by cases impossible⟩
  | delete i rid =>
      obtain ⟨old, bound⟩ := held i rid live.1 live.2
      obtain rfl : answer = .done true := by
        cases effect
        rfl
      exact ⟨_, .deleted bound, repr.put (repr.used ▸ live.1) (owner i rid live.1) count rfl
        (fun _ gone => List.mem_cons_of_mem _ gone) (fun _ gone => List.mem_cons.mp gone)
        ⟨fun _ => rfl, fun _ => List.mem_cons_self⟩ after⟩

/-- The world holds a heap state that stands for the maps. -/
def Related (log : List HeapEvent) (w : World N) (maps : Maps Rid (List UInt8)) : Prop :=
  ∃ s, RunState log w s ∧ Represents log s maps

theorem Related.step {w w' : World N} (related : Related log w maps) {event : HeapEvent}
    (taken : heapStep LiveRids log w event w') :
    ∃ maps', mapsStep log maps event maps' ∧ Related (event :: log) w' maps' := by
  obtain ⟨s, holds, repr⟩ := related
  obtain ⟨op, outcome⟩ := event
  obtain ⟨ended, live, unwrapped⟩ := taken
  obtain ⟨answer, s', same, effect, holds'⟩ := holds.step ⟨ended, live.given, unwrapped⟩
  obtain ⟨maps', step, repr'⟩ := repr.step holds.1.sound holds.2 live effect
  cases same
  exact ⟨maps', ⟨answer, rfl, step⟩, s', holds', repr'⟩

theorem start_related [NeZero N] (raw : Fin N → Page) (file : File)
    (small : file.size / pageSize < 2 ^ 31) : Related [] (start raw file) Maps.empty := by
  refine ⟨startState file, ⟨start_shows raw file small, ?_⟩, rfl, rfl, ?_, ?_, ?_⟩
  · intro entry member
    cases member
  · intro i rid member
    cases member
  · intro i rid member
    cases member
  · intro i rid member
    cases member

/-- The maps are what the pages of the world store: a record id that was issued is bound to the
bytes of its record, and it is bound exactly if it was not deleted. -/
structure Stored (log : List HeapEvent) (w : World N) (maps : Maps Rid (List UInt8)) : Prop where
  count : maps.count = w.heaps.length
  used : maps.used = issued log
  stored : ∀ i rid, (i, rid) ∈ issued log → maps.binding i rid = storedRecord w.bm.contents rid
  live : ∀ i rid, (i, rid) ∈ issued log →
    ((maps.binding i rid).isSome = true ↔ (i, rid) ∉ deleted log)

theorem Represents.pages {w : World N} (repr : Represents log s maps) (holds : RunState log w s) :
    Stored log w maps := by
  refine ⟨?_, repr.used, ?_, ?_⟩
  · rw [repr.count, holds.1.heaps]
  · intro i rid member
    have same := holds.1.sound.contents_eq holds.1.steady.toBacked (holds.2 _ member).1
    rw [repr.stored i rid (repr.used ▸ member), storedRecord, storedRecord, same]
  · intro i rid member
    refine ⟨fun bound gone => ?_, repr.live i rid (repr.used ▸ member)⟩
    rw [(repr.gone i rid gone).2] at bound
    cases bound

/-- Every live call on a heap that was made ends while two page ids are left. -/
def LiveCallsEnd (log : List HeapEvent) (w : World N) : Prop :=
  ∀ op, LiveRids log op → (∀ i data, op = .insert i data → i < w.heaps.length) →
    nextAllocated w.bm + 2 < 2 ^ 31 → ∃ answer w', heapStep LiveRids log w ⟨op, .ok answer⟩ w'

/-- The heap files of one pool are independent finite maps from record id to
bytes: each run of calls on them is a run on such maps, and the maps are what the pages store. -/
theorem heaps_are_maps [NeZero N] (raw : Fin N → Page) (file : File)
    (small : file.size / pageSize < 2 ^ 31) (log : List HeapEvent) (w : World N)
    (run : HeapRun LiveRids (start raw file) log w) :
    ∃ maps : Maps Rid (List UInt8), Run mapsStep Maps.empty log maps ∧ Stored log w maps ∧
      (∀ i, {rid | (maps.binding i rid).isSome = true}.Finite) ∧ LiveCallsEnd log w := by
  have simulated := run.simulates Related (start_related raw file small)
    fun _ _ _ _ _ related taken => related.step taken
  obtain ⟨maps, run', s, holds, repr⟩ := simulated
  refine ⟨maps, run', repr.pages holds, maps.finite, ?_⟩
  intro op live made room
  obtain ⟨answer, w', _, ⟨ended, _, unwrapped⟩, _⟩ := holds.extend op live.given made room
  exact ⟨answer, w', ended, live, unwrapped⟩

/-- One heap and one record in a pool of one frame over an empty file. -/
theorem heaps_are_maps_insert : ∃ w : World 1,
    HeapRun LiveRids (start (fun _ _ => 0) File.empty) oneRecord w ∧
      ∃ maps : Maps Rid (List UInt8), Run mapsStep Maps.empty oneRecord maps ∧
        Stored oneRecord w maps ∧ (∀ i, {rid | (maps.binding i rid).isSome = true}.Finite) ∧
        LiveCallsEnd oneRecord w := by
  obtain ⟨w, _, run, _⟩ := oneRecord_run LiveRids trivial ⟨List.cons_ne_nil 7 [], by decide⟩
  exact ⟨w, run, heaps_are_maps _ _ (by decide) _ _ run⟩

end World

end RelationalDb
