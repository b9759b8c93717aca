import Mathlib.Data.List.FinRange
import Mathlib.Tactic.Convert
import RelationalDb.Storage.BufferManager

set_option autoImplicit false

namespace RelationalDb.BufferManager

variable {N : Nat} {D : Type}

/-- The state after a page hit. -/
def accessed (bm : BufferManager N D) (frame : Fin N) : BufferManager N D :=
  { bm with
    pool := Function.update bm.pool frame
      { bm.pool frame with pinCount := toInt32 ((bm.pool frame).pinCount + 1) }
    policy := bm.policy.recordAccess frame }

/-- The state after a release that is not refused. -/
def released (bm : BufferManager N D) (frame : Fin N) : BufferManager N D :=
  { bm with
    pool := Function.update bm.pool frame
      { bm.pool frame with pinCount := toInt32 ((bm.pool frame).pinCount - 1) }
    policy :=
      if toInt32 ((bm.pool frame).pinCount - 1) = 0 then bm.policy.recordUnpin frame
      else bm.policy }

theorem release_uncached (bm : BufferManager N D) (pageId : Int)
    (absent : bm.pageTable pageId = none) :
    (release pageId).Throws bm (.runtimeError "BufferManager::release(): page not found") bm := by
  simp [Program.Throws, release, bind, get, getThe, MonadStateOf.get, absent, Program.throw]

theorem release_unpinned (bm : BufferManager N D) (pageId : Int) (frame : Fin N)
    (cached : bm.pageTable pageId = some frame) (unpinned : (bm.pool frame).pinCount ≤ 0) :
    (release pageId).Throws bm (.runtimeError "BufferManager::release(): pin count already 0.")
      bm := by
  simp [Program.Throws, release, bind, get, getThe, MonadStateOf.get, cached, unpinned,
    Program.throw]

theorem release_pinned (bm : BufferManager N D) (pageId : Int) (frame : Fin N)
    (cached : bm.pageTable pageId = some frame) (pinned : 0 < (bm.pool frame).pinCount) :
    (release pageId).Returns bm () (bm.released frame) := by
  have positive : ¬ (bm.pool frame).pinCount ≤ 0 := by omega
  by_cases last : toInt32 ((bm.pool frame).pinCount - 1) = 0
  · simp [Program.Returns, release, bind, get, getThe, MonadStateOf.get, cached, positive, released,
      unpin, modify, modifyGet, MonadStateOf.modifyGet, setFrame, last, setPolicy]
  · simp [Program.Returns, release, bind, get, getThe, MonadStateOf.get, cached, positive, released,
      unpin, modify, modifyGet, MonadStateOf.modifyGet, setFrame, last, pure]

/-- A release that returned has released the frame of its page. -/
theorem released_of_returns {bm bm' : BufferManager N D} {pageId : Int} {value : Unit}
    (returned : (release pageId).Returns bm value bm') :
    ∃ frame, bm.pageTable pageId = some frame ∧ bm.released frame = bm' := by
  cases cached : bm.pageTable pageId with
  | none =>
      have thrown := release_uncached bm pageId cached
      unfold Program.Throws at thrown
      unfold Program.Returns at returned
      rw [thrown] at returned
      cases returned
  | some frame =>
      by_cases pinned : 0 < (bm.pool frame).pinCount
      · exact ⟨frame, rfl, ((release_pinned bm pageId frame cached pinned).value_eq returned).2⟩
      · have thrown := release_unpinned bm pageId frame cached (by omega)
        unfold Program.Throws at thrown
        unfold Program.Returns at returned
        rw [thrown] at returned
        cases returned

section Request

variable [IDiskManager D]

/-- The state after `evict` has given a frame up. -/
def evicted (bm : BufferManager N D) (frame : Fin N) : BufferManager N D :=
  { bm with
    pageTable :=
      if (bm.pool frame).pageId = invalidPageId then bm.pageTable
      else Function.update bm.pageTable (bm.pool frame).pageId none
    pool := Function.update bm.pool frame
      { bm.pool frame with pageId := invalidPageId, dirty := false }
    disk :=
      if (bm.pool frame).dirty then
        writePage bm.disk (bm.pool frame).pageId (bm.pool frame).data
      else bm.disk }

/-- The state after a page was read into a frame and pinned. -/
def loaded (bm : BufferManager N D) (pageId : Int) (frame : Fin N) : BufferManager N D :=
  { bm with
    pageTable := Function.update bm.pageTable pageId (some frame)
    pool := Function.update bm.pool frame
      { pageId := pageId
        pinCount := toInt32 ((bm.pool frame).pinCount + 1)
        dirty := false
        data := readPage bm.disk pageId (bm.pool frame).data }
    policy := bm.policy.recordLoad frame }

theorem evicted_pageTable (bm : BufferManager N D) (frame : Fin N) (pageId : Int) :
    (bm.evicted frame).pageTable pageId =
      if pageId = (bm.pool frame).pageId ∧ pageId ≠ invalidPageId then none
      else bm.pageTable pageId := by
  by_cases victim : pageId = (bm.pool frame).pageId
  · by_cases sentinel : (bm.pool frame).pageId = invalidPageId <;> simp [evicted, victim, sentinel]
  · by_cases sentinel : (bm.pool frame).pageId = invalidPageId <;>
      simp [evicted, victim, sentinel]

theorem request_hit (bm : BufferManager N D) (pageId : Int) (frame : Fin N)
    (cached : bm.pageTable pageId = some frame) :
    (request pageId).Returns bm frame (bm.accessed frame) := by
  simp [Program.Returns, request, bind, get, getThe, MonadStateOf.get, cached, pin, modify,
    modifyGet, MonadStateOf.modifyGet, setFrame, setPolicy, accessed, pure]

/-- What follows once a frame was found for the page. -/
theorem request_of_frame (bm bm' : BufferManager N D) (pageId : Int) (frame : Fin N)
    (absent : bm.pageTable pageId = none) (obtained : obtainFrame.Returns bm frame bm') :
    (request pageId).Returns bm frame (bm'.loaded pageId frame) := by
  have tail : (do
      pin frame
      read pageId frame
      modify fun bm => bm.setPolicy (bm.policy.recordLoad frame)
      return frame : Pool N D (Fin N)).Returns bm' frame (bm'.loaded pageId frame) := by
    simp [Program.Returns, bind, pin, read, modify, modifyGet, MonadStateOf.modifyGet, setFrame,
      setPolicy, mapPage, loaded, pure]
  have current : (get : Pool N D (BufferManager N D)).Returns bm bm bm := by simp
  unfold request
  apply current.bind
  simp only [absent]
  exact obtained.bind tail

theorem obtainFrame_free (bm : BufferManager N D) (rest : List (Fin N)) (frame : Fin N)
    (free : bm.freeList = rest ++ [frame]) :
    obtainFrame.Returns bm frame { bm with freeList := rest } := by
  simp [Program.Returns, obtainFrame, takeFree, bind, modifyGet, MonadStateOf.modifyGet, free, pure]

theorem evict_returns (bm : BufferManager N D) (frame : Fin N) (policy : ClockPolicy N)
    (chosen : bm.policy.chooseVictim bm.pool = (some frame, policy)) :
    evict.Returns bm frame ((bm.setPolicy policy).evicted frame) := by
  have unpinned := ClockPolicy.chooseVictim_unpinned _ _ _ _ chosen
  by_cases dirty : (bm.pool frame).dirty <;> by_cases invalid : (bm.pool frame).pageId = invalidPageId <;>
    simp [Program.Returns, evict, bind, get, getThe, MonadStateOf.get, set, chosen, unpinned, dirty,
      invalid, flush, modify, modifyGet, MonadStateOf.modifyGet, setPolicy, setFrame, mapPage, evicted,
      pure]

theorem obtainFrame_evict (bm : BufferManager N D) (frame : Fin N) (policy : ClockPolicy N)
    (full : bm.freeList = []) (chosen : bm.policy.chooseVictim bm.pool = (some frame, policy)) :
    obtainFrame.Returns bm frame ((bm.setPolicy policy).evicted frame) := by
  have same : ({ bm with freeList := [] } : BufferManager N D) = bm := by rw [← full]
  have taken : takeFree.Returns bm none bm := by
    simp [Program.Returns, takeFree, modifyGet, MonadStateOf.modifyGet, full, same]
  unfold obtainFrame
  exact taken.bind (evict_returns bm frame policy chosen)

theorem request_evict (bm : BufferManager N D) (pageId : Int) (frame : Fin N)
    (policy : ClockPolicy N) (absent : bm.pageTable pageId = none) (full : bm.freeList = [])
    (chosen : bm.policy.chooseVictim bm.pool = (some frame, policy)) :
    (request pageId).Returns bm frame (((bm.setPolicy policy).evicted frame).loaded pageId frame) :=
  request_of_frame bm _ pageId frame absent (obtainFrame_evict bm frame policy full chosen)

theorem request_free (bm : BufferManager N D) (pageId : Int) (rest : List (Fin N)) (frame : Fin N)
    (absent : bm.pageTable pageId = none) (available : bm.freeList = rest ++ [frame]) :
    (request pageId).Returns bm frame
      (({ bm with freeList := rest } : BufferManager N D).loaded pageId frame) :=
  request_of_frame bm _ pageId frame absent (obtainFrame_free bm rest frame available)

/-- With nothing free and every frame pinned the request is refused, and
nothing has changed. -/
theorem request_refused (bm : BufferManager N D) (pageId : Int)
    (absent : bm.pageTable pageId = none) (full : bm.freeList = [])
    (pinned : ∀ frame, (bm.pool frame).pinCount ≠ 0) :
    (request pageId).Throws bm
      (.runtimeError "BufferManager::evict(): no eviction candidates (all frames pinned)") bm := by
  have chosen := ClockPolicy.chooseVictim_pinned bm.policy bm.pool pinned
  have same : ({ bm with freeList := [] } : BufferManager N D) = bm := by rw [← full]
  simp [Program.Throws, request, obtainFrame, takeFree, evict, bind, get, getThe, MonadStateOf.get,
    set, absent, full, chosen, modifyGet, MonadStateOf.modifyGet, setPolicy, Program.throw, same]

/-- Everything a request can do. -/
theorem request_cases (bm : BufferManager N D) (pageId : Int) :
    (∃ frame, bm.pageTable pageId = some frame ∧
      (request pageId).Returns bm frame (bm.accessed frame)) ∨
    (bm.pageTable pageId = none ∧ ∃ rest frame, bm.freeList = rest ++ [frame] ∧
      (request pageId).Returns bm frame
        (({ bm with freeList := rest } : BufferManager N D).loaded pageId frame)) ∨
    (bm.pageTable pageId = none ∧ bm.freeList = [] ∧ ∃ frame policy,
      bm.policy.chooseVictim bm.pool = (some frame, policy) ∧
      (request pageId).Returns bm frame
        (((bm.setPolicy policy).evicted frame).loaded pageId frame)) ∨
    (bm.pageTable pageId = none ∧ bm.freeList = [] ∧
      (∀ frame, (bm.pool frame).pinCount ≠ 0) ∧
      (request pageId).Throws bm
        (.runtimeError "BufferManager::evict(): no eviction candidates (all frames pinned)") bm) := by
  cases cached : bm.pageTable pageId with
  | some frame => exact Or.inl ⟨frame, rfl, request_hit bm pageId frame cached⟩
  | none =>
      right
      rcases List.eq_nil_or_concat bm.freeList with full | ⟨rest, frame, free⟩
      · right
        cases chosen : bm.policy.chooseVictim bm.pool with
        | mk victim policy =>
            cases victim with
            | some frame =>
                exact Or.inl ⟨rfl, full, frame, policy, rfl,
                  request_evict bm pageId frame policy cached full chosen⟩
            | none =>
                have pinned : ∀ frame, (bm.pool frame).pinCount ≠ 0 := by
                  intro frame unpinned
                  have some := (ClockPolicy.chooseVictim_isSome bm.policy bm.pool).mpr
                    ⟨frame, unpinned⟩
                  rw [chosen] at some
                  cases some
                exact Or.inr ⟨rfl, full, pinned, request_refused bm pageId cached full pinned⟩
      · rw [List.concat_eq_append] at free
        exact Or.inl ⟨rfl, rest, frame, free, request_free bm pageId rest frame cached free⟩

/-- The disk after the dirty frames of a list were written to it in order. -/
def flushDisk (pool : Fin N → Frame) (disk : D) (frames : List (Fin N)) : D :=
  frames.foldl (fun disk frame =>
    if (pool frame).dirty then writePage disk (pool frame).pageId (pool frame).data else disk) disk

/-- The state after `flush_all`. -/
def flushed (bm : BufferManager N D) : BufferManager N D :=
  { bm with
    pool := fun frame => { bm.pool frame with dirty := false }
    disk := flushDisk bm.pool bm.disk (List.finRange N) }

theorem flushDisk_congr (pool pool' : Fin N → Frame) (disk : D) (frames : List (Fin N))
    (same : ∀ frame ∈ frames, pool frame = pool' frame) :
    flushDisk pool disk frames = flushDisk pool' disk frames := by
  induction frames generalizing disk with
  | nil => rfl
  | cons frame frames ih =>
      simp only [flushDisk, List.foldl_cons, same frame List.mem_cons_self]
      exact ih _ fun other member => same other (List.mem_cons_of_mem _ member)

/-- The body of the loop of `flush_all`. -/
def flushIfDirty (frame : Fin N) : Pool N D Unit := do
  if ((← get).pool frame).dirty then flush frame

theorem flushIfDirty_returns (bm : BufferManager N D) (frame : Fin N) :
    (flushIfDirty frame).Returns bm ()
      { bm with
        pool := Function.update bm.pool frame { bm.pool frame with dirty := false }
        disk := flushDisk bm.pool bm.disk [frame] } := by
  by_cases dirty : (bm.pool frame).dirty
  · simp [Program.Returns, flushIfDirty, bind, get, getThe, MonadStateOf.get, dirty, flush, modify,
      modifyGet, MonadStateOf.modifyGet, setFrame, flushDisk]
  · have same : Function.update bm.pool frame { bm.pool frame with dirty := false } = bm.pool := by
      rw [Function.update_eq_self_iff]
      cases clean : bm.pool frame
      simp_all
    simp [Program.Returns, flushIfDirty, bind, get, getThe, MonadStateOf.get, dirty, pure, flushDisk,
      same]

theorem forM_flushIfDirty (bm : BufferManager N D) (frames : List (Fin N)) (nodup : frames.Nodup) :
    (frames.forM flushIfDirty).Returns bm ()
      { bm with
        pool := fun frame =>
          if frame ∈ frames then { bm.pool frame with dirty := false } else bm.pool frame
        disk := flushDisk bm.pool bm.disk frames } := by
  induction frames generalizing bm with
  | nil =>
      simp only [List.not_mem_nil, ↓reduceIte]
      rfl
  | cons frame frames ih =>
      obtain ⟨fresh, rest⟩ := List.nodup_cons.mp nodup
      have step := flushIfDirty_returns bm frame
      have tail := ih { bm with
        pool := Function.update bm.pool frame { bm.pool frame with dirty := false }
        disk := flushDisk bm.pool bm.disk [frame] } rest
      change (flushIfDirty frame >>= fun _ => frames.forM flushIfDirty).Returns bm () _
      refine step.bind ?_
      convert tail using 2
      · funext other
        by_cases same : other = frame
        · subst same
          simp [fresh]
        · simp [same]
      · rw [flushDisk, List.foldl_cons]
        change flushDisk bm.pool (flushDisk bm.pool bm.disk [frame]) frames = _
        apply flushDisk_congr
        intro other member
        have different : other ≠ frame := by
          rintro rfl
          exact fresh member
        exact (Function.update_of_ne different _ _).symm

theorem flushAll_returns (bm : BufferManager N D) : flushAll.Returns bm () bm.flushed := by
  have whole := forM_flushIfDirty bm (List.finRange N) (List.nodup_finRange N)
  simp only [List.mem_finRange, ↓reduceIte] at whole
  exact whole

end Request

end RelationalDb.BufferManager
