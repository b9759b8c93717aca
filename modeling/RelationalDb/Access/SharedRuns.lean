import RelationalDb.Access.HeapRuns
import RelationalDb.Storage.PoolSharing

set_option autoImplicit false

namespace RelationalDb

open BufferManager (Settled)
open HeapFile (nextAllocated)
open World (Shows)

/-- A call on a heap file, or a request or a release of another client. -/
inductive SharedOp where
  | heap (op : HeapOp)
  | request (pageId : Int)
  | release (pageId : Int)

structure SharedEvent where
  op : SharedOp
  outcome : Except Error (Option HeapAnswer)

/-- The calls on heap files that returned. -/
def heapCalls (log : List SharedEvent) : List HeapEvent :=
  log.filterMap fun event =>
    match event.op, event.outcome with
    | .heap op, .ok (some answer) => some ⟨op, .ok answer⟩
    | _, _ => none

def HeapEvent.shared (event : HeapEvent) : SharedEvent :=
  ⟨.heap event.op, event.outcome.map some⟩

section Runs

variable {N : Nat}

def SharedOp.run : SharedOp → Program (World N) Error (Option HeapAnswer)
  | heap op => do return some (← op.run)
  | request pageId => do
      let _ ← World.onPool (BufferManager.request pageId)
      return none
  | release pageId => do
      World.onPool (BufferManager.release pageId)
      return none

/-- A call on a heap file finds a frame it can use. Between such calls all pins are those of
other clients, who release what they requested and never hold 2^31 pins on a page. -/
def SharedGuard (log : List SharedEvent) (w : World N) : SharedOp → Prop
  | .heap op => GivenRids (heapCalls log) op ∧ ∃ frame, (w.bm.pool frame).pinCount = 0
  | .request pageId => 0 ≤ pageId ∧ w.bm.pins pageId + 1 < 2 ^ 31 - 1
  | .release pageId => 0 < w.bm.pins pageId

def sharedStep (log : List SharedEvent) (w : World N) (event : SharedEvent) (w' : World N) : Prop :=
  event.op.run w = some (event.outcome, w') ∧ SharedGuard log w event.op ∧ 0 ≤ nextAllocated w'.bm

abbrev SharedRun (start : World N) : List SharedEvent → World N → Prop :=
  Run sharedStep start

end Runs

namespace World

variable {N : Nat} {w w' : World N} {log : List SharedEvent} {s : HeapState} {pins : Int → Int}

/-- What every point of such a run has. -/
structure SharedState (log : List SharedEvent) (w : World N) (s : HeapState) (pins : Int → Int) :
    Prop where
  settled : Settled w.bm s.view pins s.pages
  heaps : w.heaps = s.heaps
  sound : s.Sound
  known : ∀ entry ∈ issued (heapCalls log), s.Known entry.1 entry.2
  created : ∀ i fileId, ⟨.create fileId, .ok (.made i)⟩ ∈ heapCalls log →
    ∃ heap, s.heaps[i]? = some heap ∧ heap.firstPageId ≠ invalidPageId

theorem SharedState.shows (holds : SharedState log w s pins)
    (evictable : ∃ frame, (w.bm.pool frame).pinCount = 0) : Shows w s pins :=
  ⟨holds.settled.steady evictable, holds.heaps, holds.sound⟩

/-- A heap file that was just made has a first page. -/
theorem created_first {fileId : Uuid} {i : Nat} {s' : HeapState} (sound : s.Sound)
    (effect : HeapState.Effect (.create fileId) (.made i) s s') :
    ∃ heap, s'.heaps[i]? = some heap ∧ heap.firstPageId ≠ invalidPageId := by
  have given := sound.given
  cases effect with
  | create raw more =>
      refine ⟨⟨fileId, s.pages⟩, ?_, ?_⟩
      · simp only [HeapState.withFirstPage, List.getElem?_concat_length]
      · rintro same
        rw [show s.pages = invalidPageId from same] at given
        cases given

theorem SharedState.answered (holds : SharedState log w s pins) {op : HeapOp} {answer : HeapAnswer}
    {s' : HeapState} (effect : HeapState.Effect op answer s s')
    (settled : Settled w'.bm s'.view pins s'.pages) (heaps : w'.heaps = s'.heaps) :
    SharedState (⟨.heap op, .ok (some answer)⟩ :: log) w' s' pins := by
  refine ⟨settled, heaps, effect.sound holds.sound, ?_, ?_⟩
  · intro entry member
    rcases issued_cases member with earlier | ⟨data, rfl, rfl⟩
    · exact effect.known holds.sound (holds.known entry earlier)
    · exact (effect.placed_new holds.sound).1
  · intro i fileId member
    rcases List.mem_cons.mp member with same | earlier
    · cases same
      exact created_first holds.sound effect
    · obtain ⟨heap, present, made⟩ := holds.created i fileId earlier
      exact ⟨heap, effect.heaps_kept present made, made⟩

theorem SharedState.call (holds : SharedState log w s pins) {op : HeapOp}
    {outcome : Except Error (Option HeapAnswer)}
    (taken : sharedStep log w ⟨.heap op, outcome⟩ w') :
    ∃ answer s', outcome = .ok (some answer) ∧ HeapState.Effect op answer s s' ∧
      op.run.Returns w answer w' ∧ SharedState (⟨.heap op, outcome⟩ :: log) w' s' pins := by
  obtain ⟨ended, ⟨given, evictable⟩, unwrapped⟩ := taken
  obtain ⟨result, returned, mapped⟩ := Program.answer_eq_some.mp ended
  obtain ⟨answer, s', rfl, effect, shows'⟩ :=
    (holds.shows evictable).step (GivenRids.allowed given holds.known) returned unwrapped
  cases mapped
  exact ⟨answer, s', rfl, effect, returned,
    holds.answered effect shows'.steady.settled shows'.heaps⟩

theorem SharedState.pinned {pins' : Int → Int} (holds : SharedState log w s pins)
    {bm' : BufferManager N DiskManager} (settled : Settled bm' s.view pins' s.pages)
    {event : SharedEvent} (other : heapCalls (event :: log) = heapCalls log) :
    SharedState (event :: log) ⟨bm', w.heaps⟩ s pins' :=
  ⟨settled, holds.heaps, holds.sound, by rw [other]; exact holds.known,
    by rw [other]; exact holds.created⟩

theorem SharedState.step (holds : SharedState log w s pins) {event : SharedEvent}
    (taken : sharedStep log w event w') : ∃ s' pins', SharedState (event :: log) w' s' pins' := by
  obtain ⟨op, outcome⟩ := event
  cases op with
  | heap op =>
      obtain ⟨_, s', _, _, _, holds'⟩ := holds.call taken
      exact ⟨s', pins, holds'⟩
  | request pageId =>
      obtain ⟨ended, ⟨given, more⟩, _⟩ := taken
      rw [show w.bm.pins = pins from holds.settled.pinned] at more
      obtain ⟨result, requested, rfl⟩ := Program.answer_eq_some.mp ended
      obtain ⟨bm', inner, rfl⟩ := onPool_ends requested
      rcases holds.settled.request_ends given more inner with
        ⟨frame, rfl, settled⟩ | ⟨rfl, _, rfl⟩
      · exact ⟨s, _, holds.pinned settled rfl⟩
      · exact ⟨s, pins, holds.pinned holds.settled rfl⟩
  | release pageId =>
      obtain ⟨ended, held, _⟩ := taken
      change 0 < w.bm.pins pageId at held
      rw [holds.settled.pinned] at held
      obtain ⟨bm', released, settled⟩ := holds.settled.release held
      have returned : (SharedOp.release pageId).run.Returns w none ⟨bm', w.heaps⟩ :=
        (onPool_returns released).bind (Program.pure_returns _ _)
      rw [show SharedOp.run (.release pageId) w = some (.ok none, _) from returned] at ended
      cases ended
      exact ⟨s, _, holds.pinned settled rfl⟩

theorem sharedState [NeZero N] {raw : Fin N → Page} {file : File}
    (small : file.size / pageSize < 2 ^ 31) (run : SharedRun (start raw file) log w) :
    ∃ s pins, SharedState log w s pins := by
  apply run.invariant fun log w => ∃ s pins, SharedState log w s pins
  · have shows := start_shows raw file small
    refine ⟨startState file, fun _ => 0, shows.steady.settled, shows.heaps, shows.sound, ?_, ?_⟩
    · intro entry member
      cases member
    · intro i fileId member
      cases member
  · rintro log w event w' _ ⟨s, pins, holds⟩ taken
    exact holds.step taken

theorem shared_of_heapRun [NeZero N] {raw : Fin N → Page} {file : File}
    (small : file.size / pageSize < 2 ^ 31) {heapLog : List HeapEvent}
    (run : HeapRun GivenRids (start raw file) heapLog w) :
    SharedRun (start raw file) (heapLog.map HeapEvent.shared) w ∧
      heapCalls (heapLog.map HeapEvent.shared) = heapLog := by
  induction run with
  | nil => exact ⟨.nil, rfl⟩
  | @cons heapLog w w' event previous taken ih =>
      obtain ⟨s, holds⟩ := runState small previous
      obtain ⟨answer, _, outcome, _, _⟩ := holds.step taken
      obtain ⟨op, result⟩ := event
      cases outcome
      obtain ⟨ended, given, unwrapped⟩ := taken
      have guard : SharedGuard (heapLog.map HeapEvent.shared) w (.heap op) := by
        refine ⟨?_, holds.1.steady.evictable⟩
        rwa [ih.2]
      refine ⟨ih.1.cons ⟨Program.answer_eq_some.mpr ⟨_, ended, rfl⟩, guard, unwrapped⟩, ?_⟩
      exact congrArg (List.cons _) ih.2

end World

end RelationalDb
