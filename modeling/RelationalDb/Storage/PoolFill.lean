import RelationalDb.Storage.PoolRun

set_option autoImplicit false

namespace RelationalDb.BufferManager

variable {N : Nat} {D : Type} [IDiskManager D]

/-- `left` frames of a pool are still free, and nothing is pinned or referenced. -/
structure Filling (bm : BufferManager N D) (left : Nat) : Prop where
  free : bm.freeList = (List.finRange N).take left
  hand : bm.policy.hand.val = 0
  clear : ∀ frame, bm.policy.refBits frame = false
  unpinned : ∀ frame, (bm.pool frame).pinCount = 0

omit [IDiskManager D] in
theorem new_filling [NeZero N] (raw : Fin N → Page) (disk : D) : Filling (new raw disk) N := by
  refine ⟨?_, rfl, fun _ => rfl, fun _ => rfl⟩
  rw [List.take_of_length_le (by simp)]
  rfl

theorem take_finRange_succ {left : Nat} (inside : left < N) :
    (List.finRange N).take (left + 1) = (List.finRange N).take left ++ [⟨left, inside⟩] := by
  rw [List.take_succ_eq_append_getElem (by simpa using inside)]
  simp

/-- The pool after a page was requested into a free frame and released. -/
def touched (bm : BufferManager N D) (pageId : Int) (frame : Fin N) : BufferManager N D :=
  { bm with
    pageTable := Function.update bm.pageTable pageId (some frame)
    pool := Function.update bm.pool frame
      { pageId := pageId, pinCount := 0, dirty := false
        data := readPage bm.disk pageId (bm.pool frame).data }
    freeList := (List.finRange N).take frame.val }

/-- Touching a page that is not cached uses the last free frame up. -/
theorem Filling.touch {bm : BufferManager N D} {left : Nat} {pageId : Int}
    (filling : Filling bm (left + 1)) (inside : left < N) (absent : bm.pageTable pageId = none) :
    ∃ middle, (request pageId).Returns bm ⟨left, inside⟩ middle ∧
      (release pageId).Returns middle () (bm.touched pageId ⟨left, inside⟩) ∧
      Filling (bm.touched pageId ⟨left, inside⟩) left := by
  have free : bm.freeList = (List.finRange N).take left ++ [⟨left, inside⟩] := by
    rw [filling.free, take_finRange_succ inside]
  have loadedPin : toInt32 1 = 1 := by decide
  have releasedPin : toInt32 0 = 0 := by decide
  let middle := ({ bm with freeList := (List.finRange N).take left } :
    BufferManager N D).loaded pageId ⟨left, inside⟩
  have cached : middle.pageTable pageId = some ⟨left, inside⟩ := by simp [middle, loaded]
  have pins : (middle.pool ⟨left, inside⟩).pinCount = 1 := by
    simp [middle, loaded, filling.unpinned, loadedPin]
  have after : middle.released ⟨left, inside⟩ = bm.touched pageId ⟨left, inside⟩ := by
    have bits : Function.update bm.policy.refBits ⟨left, inside⟩ false = bm.policy.refBits := by
      rw [Function.update_eq_self_iff, filling.clear]
    simp [middle, released, loaded, touched, filling.unpinned, loadedPin, releasedPin,
      ClockPolicy.recordLoad, ClockPolicy.recordUnpin, ClockPolicy.setRefBit, bits]
  refine ⟨middle, ?_, ?_, ?_⟩
  · exact request_free bm pageId _ _ absent free
  · rw [← after]
    exact release_pinned middle pageId _ cached (by rw [pins]; decide)
  · refine ⟨rfl, filling.hand, filling.clear, ?_⟩
    intro frame
    by_cases same : frame = ⟨left, inside⟩
    · simp [touched, same]
    · simp [touched, same, filling.unpinned]

section First

variable {bm : BufferManager N D} {frame : Fin N} {pageId : Int}

/-- With all frames in use, a page that is not cached takes the place of the one in the first
frame, where the hand is. -/
theorem Filling.request_first (filling : Filling bm 0) (first : frame.val = 0)
    (absent : bm.pageTable pageId = none) :
    (request pageId).Returns bm frame ((bm.evicted frame).loaded pageId frame) := by
  have hand : bm.policy.hand = frame := Fin.ext (by rw [filling.hand, first])
  have chosen := bm.policy.chooseVictim_hand bm.pool (filling.unpinned _) (filling.clear _)
  rw [hand] at chosen
  exact request_evict bm pageId frame _ absent (by rw [filling.free, List.take_zero]) chosen

theorem Filling.release_first (filling : Filling bm 0) (change : Frame → Frame)
    (still : ∀ f, (change f).pinCount = f.pinCount) :
    (release pageId).Returns (((bm.evicted frame).loaded pageId frame).setFrame frame change) ⟨⟩
      ((((bm.evicted frame).loaded pageId frame).setFrame frame change).released frame) ∧
    Filling ((((bm.evicted frame).loaded pageId frame).setFrame frame change).released frame) 0 := by
  have loadedPin : toInt32 1 = 1 := by decide
  have releasedPin : toInt32 0 = 0 := by decide
  let opened := ((bm.evicted frame).loaded pageId frame).setFrame frame change
  have pins : (opened.pool frame).pinCount = 1 := by
    simp [opened, setFrame, still, loaded, evicted, filling.unpinned, loadedPin]
  refine ⟨release_pinned opened pageId frame (Function.update_self _ _ _) (by rw [pins]; decide),
    filling.free, ?_, ?_, ?_⟩
  · simp [released, setFrame, still, loaded, evicted, filling.unpinned, loadedPin, releasedPin,
      ClockPolicy.recordLoad, ClockPolicy.recordUnpin, filling.hand]
  · intro other
    by_cases same : other = frame
    · simp [released, setFrame, still, loaded, evicted, filling.unpinned, loadedPin, releasedPin,
        ClockPolicy.recordUnpin, same]
    · simp [released, setFrame, still, loaded, evicted, filling.unpinned, loadedPin, releasedPin,
        ClockPolicy.recordLoad, ClockPolicy.recordUnpin, same, filling.clear]
  · intro other
    by_cases same : other = frame
    · simp [released, setFrame, still, loaded, evicted, filling.unpinned, loadedPin, releasedPin,
        same]
    · simp [released, setFrame, loaded, evicted, same, filling.unpinned]

end First

/-- The calls that touch a list of pages. -/
def touches (pages : List Int) : List (PoolOp N) :=
  pages.flatMap fun pageId => [.request pageId, .release pageId]

theorem Filling.touch_run {start bm : BufferManager N D} {log : List (PoolEvent N D)}
    {left : Nat} {pageId : Int} (run : PoolRun (fun _ _ => True) start log bm)
    (filling : Filling bm (left + 1)) (inside : left < N) (absent : bm.pageTable pageId = none) :
    ∃ log', PoolRun (fun _ _ => True) start log' (bm.touched pageId ⟨left, inside⟩) ∧
      (log'.map PoolEvent.op).reverse = (log.map PoolEvent.op).reverse ++ touches [pageId] ∧
      Filling (bm.touched pageId ⟨left, inside⟩) left := by
  obtain ⟨middle, requested, released, filled⟩ := filling.touch inside absent
  have requestRun : (PoolOp.request pageId : PoolOp N).run bm = some (.ok (some _), middle) :=
    requested.bind_eq
  have releaseRun : (PoolOp.release pageId : PoolOp N).run middle = some (.ok none, _) :=
    released.bind_eq
  refine ⟨⟨middle, .release pageId, .ok none⟩ :: ⟨bm, .request pageId, .ok (some _)⟩ :: log,
    (run.cons ⟨rfl, requestRun, trivial⟩).cons ⟨rfl, releaseRun, trivial⟩, ?_, filled⟩
  simp [touches]

/-- Touching pages that are not cached, as long as frames are free. -/
theorem Filling.touches_run {start bm : BufferManager N D} {log : List (PoolEvent N D)}
    {left : Nat} (pages : List Int) (run : PoolRun (fun _ _ => True) start log bm)
    (filling : Filling bm (left + pages.length)) (enough : left + pages.length ≤ N)
    (distinct : pages.Nodup) (absent : ∀ pageId ∈ pages, bm.pageTable pageId = none) :
    ∃ log' bm', PoolRun (fun _ _ => True) start log' bm' ∧
      (log'.map PoolEvent.op).reverse = (log.map PoolEvent.op).reverse ++ touches pages ∧
      Filling bm' left ∧ ∀ other, other ∉ pages → bm'.pageTable other = bm.pageTable other := by
  induction pages generalizing bm log with
  | nil => exact ⟨log, bm, run, by simp [touches], filling, fun _ _ => rfl⟩
  | cons pageId pages ih =>
      obtain ⟨fresh, distinct⟩ := List.nodup_cons.mp distinct
      rw [List.length_cons] at filling enough
      have inside : left + pages.length < N := by omega
      obtain ⟨log', run', ops', filling'⟩ :=
        Filling.touch_run run filling inside (absent pageId List.mem_cons_self)
      have table : ∀ other, other ≠ pageId → (bm.touched pageId ⟨left + pages.length,
          inside⟩).pageTable other = bm.pageTable other := fun other different => by
        simp only [touched, Function.update_of_ne different]
      have absent' : ∀ other ∈ pages, (bm.touched pageId ⟨left + pages.length,
          inside⟩).pageTable other = none := by
        intro other member
        have different : other ≠ pageId := by
          rintro rfl
          exact fresh member
        rw [table other different]
        exact absent other (List.mem_cons_of_mem _ member)
      obtain ⟨log'', bm', ran, ops, filled, kept⟩ := ih run' filling' (by omega) distinct absent'
      refine ⟨log'', bm', ran, ?_, filled, ?_⟩
      · rw [ops, ops']
        simp [touches]
      · intro other outside
        rw [List.mem_cons, not_or] at outside
        rw [kept other outside.2]
        exact table other outside.1

end RelationalDb.BufferManager
