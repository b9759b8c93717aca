import RelationalDb.Storage.PinBalance
import RelationalDb.Storage.PinSafety

set_option autoImplicit false

namespace RelationalDb

section Sums

variable {α : Type} {f f' : α → Int} {items : List α} {item : α}

theorem sum_nonneg (nonneg : ∀ other ∈ items, 0 ≤ f other) : 0 ≤ (items.map f).sum := by
  induction items with
  | nil => exact Int.le_refl 0
  | cons first items ih =>
      have here := nonneg first List.mem_cons_self
      have rest := ih fun other member => nonneg other (List.mem_cons_of_mem _ member)
      rw [List.map_cons, List.sum_cons]
      omega

theorem le_sum (nonneg : ∀ other ∈ items, 0 ≤ f other) (member : item ∈ items) :
    f item ≤ (items.map f).sum := by
  induction items with
  | nil => cases member
  | cons first items ih =>
      have later : ∀ other ∈ items, 0 ≤ f other :=
        fun other member => nonneg other (List.mem_cons_of_mem _ member)
      have here := nonneg first List.mem_cons_self
      have rest := sum_nonneg later
      rw [List.map_cons, List.sum_cons]
      rcases List.mem_cons.mp member with rfl | inside
      · omega
      · have below := ih later inside
        omega

theorem sum_changed (nodup : items.Nodup) (member : item ∈ items) {change : Int}
    (here : f' item = f item + change) (others : ∀ other, other ≠ item → f' other = f other) :
    (items.map f').sum = (items.map f).sum + change := by
  induction items with
  | nil => cases member
  | cons first items ih =>
      obtain ⟨fresh, distinct⟩ := List.nodup_cons.mp nodup
      rw [List.map_cons, List.map_cons, List.sum_cons, List.sum_cons]
      by_cases same : first = item
      · subst same
        have rest : items.map f' = items.map f := List.map_congr_left fun other inside =>
          others other fun equal => fresh (equal ▸ inside)
        rw [rest, here]
        omega
      · have inside : item ∈ items :=
          (List.mem_cons.mp member).resolve_left fun equal => same equal.symm
        have rest := ih distinct inside
        have first := others first same
        omega

end Sums

variable {N : Nat} {D : Type} [IDiskManager D]

/-- The calls on a pool, stores into its frames at any time and the calls on the page ids of
its disk. -/
inductive PoolAction (N : Nat) where
  | call (op : PoolOp N)
  | store (frame : Fin N) (page : Page)
  | allocatePage
  | deallocatePage (pageId : Int)

def PoolAction.run : PoolAction N → Pool N D (Option (Fin N))
  | call op => op.run
  | store frame page => do
      BufferManager.modifyData frame fun _ => page
      return none
  | allocatePage => do
      modify fun bm => { bm with disk := (RelationalDb.allocatePage bm.disk).2 }
      return none
  | deallocatePage pageId => do
      modify fun bm => { bm with disk := RelationalDb.deallocatePage bm.disk pageId }
      return none

/-- An action and how it ended. -/
structure PoolRecord (N : Nat) where
  action : PoolAction N
  outcome : Except Error (Option (Fin N))

/-- Requests that returned, less the releases that did. -/
def outstanding : List (PoolRecord N) → Int
  | [] => 0
  | ⟨.call (.request _), .ok _⟩ :: log => outstanding log + 1
  | ⟨.call (.release _), .ok _⟩ :: log => outstanding log - 1
  | _ :: log => outstanding log

/-- Everything that may happen to a pool, as long as the log is as wanted. -/
def historyStep (wanted : List (PoolRecord N) → Prop) (log : List (PoolRecord N))
    (bm : BufferManager N D) (event : PoolRecord N) (bm' : BufferManager N D) : Prop :=
  event.action.run bm = some (event.outcome, bm') ∧ wanted (event :: log)

abbrev PoolHistory (wanted : List (PoolRecord N) → Prop) (start : BufferManager N D) :
    List (PoolRecord N) → BufferManager N D → Prop :=
  Run (historyStep wanted) start

def FewPins (log : List (PoolRecord N)) : Prop := outstanding log < 2 ^ 31

instance (log : List (PoolRecord N)) : Decidable (FewPins log) :=
  inferInstanceAs (Decidable (outstanding log < 2 ^ 31))

namespace BufferManager

variable {bm bm' : BufferManager N D} {log : List (PoolRecord N)}
  {outcome : Except Error (Option (Fin N))}

/-- One more pin on one frame. -/
theorem Call.request_pinCount {pageId : Int} {frame : Fin N}
    (call : Call bm (.request pageId) (.ok (some frame)) bm') (other : Fin N) :
    (bm'.pool other).pinCount =
      if other = frame then toInt32 ((bm.pool frame).pinCount + 1)
      else (bm.pool other).pinCount := by
  by_cases same : other = frame
  · subst same
    cases call <;> simp [accessed, loaded, evicted, setPolicy]
  · cases call <;> simp [accessed, loaded, evicted, setPolicy, same]

theorem Call.release_pinCount {pageId : Int} {value : Option (Fin N)}
    (call : Call bm (.release pageId) (.ok value) bm') :
    ∃ frame, 0 < (bm.pool frame).pinCount ∧ ∀ other, (bm'.pool other).pinCount =
      if other = frame then toInt32 ((bm.pool frame).pinCount - 1)
      else (bm.pool other).pinCount := by
  cases call with
  | @release _ frame cached pinned =>
      refine ⟨frame, pinned, fun other => ?_⟩
      by_cases same : other = frame
      · subst same
        simp [BufferManager.released]
      · simp [BufferManager.released, same]

/-- The pins of all frames together. -/
def allPins (bm : BufferManager N D) : Int :=
  ((List.finRange N).map fun frame => (bm.pool frame).pinCount).sum

/-- The pins of the frames are those that are outstanding. -/
structure PinsCounted (log : List (PoolRecord N)) (bm : BufferManager N D) : Prop where
  lower : ∀ frame, 0 ≤ (bm.pool frame).pinCount
  total : bm.allPins = outstanding log
  few : FewPins log

omit [IDiskManager D] in
theorem PinsCounted.le (counted : PinsCounted log bm) (frame : Fin N) :
    (bm.pool frame).pinCount ≤ outstanding log := by
  rw [← counted.total]
  have below : (bm.pool frame).pinCount ≤ bm.allPins :=
    le_sum (fun other _ => counted.lower other) (List.mem_finRange frame)
  exact below

omit [IDiskManager D] in
theorem PinsCounted.still (counted : PinsCounted log bm) {event : PoolRecord N}
    (same : ∀ frame, (bm'.pool frame).pinCount = (bm.pool frame).pinCount)
    (net : outstanding (event :: log) = outstanding log) : PinsCounted (event :: log) bm' := by
  refine ⟨fun frame => ?_, ?_, ?_⟩
  · rw [same]
    exact counted.lower frame
  · rw [net, ← counted.total, allPins, allPins]
    exact congrArg List.sum (List.map_congr_left fun frame _ => same frame)
  · rw [FewPins, net]
    exact counted.few

omit [IDiskManager D] in
/-- One frame has one pin more or one less. -/
theorem PinsCounted.moved (counted : PinsCounted log bm) {event : PoolRecord N} {frame : Fin N}
    {change : Int}
    (counts : ∀ other, (bm'.pool other).pinCount =
      if other = frame then toInt32 ((bm.pool frame).pinCount + change)
      else (bm.pool other).pinCount)
    (lower : 0 ≤ (bm.pool frame).pinCount + change)
    (net : outstanding (event :: log) = outstanding log + change) (few : FewPins (event :: log)) :
    PinsCounted (event :: log) bm' := by
  have bound := counted.le frame
  have small := few
  rw [FewPins, net] at small
  have here := counts frame
  rw [if_pos rfl, toInt32_of_bounds (by omega) (by omega)] at here
  have others : ∀ other, other ≠ frame → (bm'.pool other).pinCount = (bm.pool other).pinCount :=
    fun other apart => by rw [counts other, if_neg apart]
  refine ⟨fun other => ?_, ?_, few⟩
  · by_cases same : other = frame
    · rw [same, here]
      exact lower
    · rw [others other same]
      exact counted.lower other
  · rw [net, ← counted.total, allPins, allPins]
    exact sum_changed (List.nodup_finRange N) (List.mem_finRange frame) here others

theorem PinsCounted.step (counted : PinsCounted log bm) {event : PoolRecord N}
    (taken : historyStep FewPins log bm event bm') : PinsCounted (event :: log) bm' := by
  obtain ⟨action, outcome⟩ := event
  obtain ⟨ended, few⟩ := taken
  cases action with
  | store frame page =>
      cases ended
      refine counted.still (fun other => ?_) rfl
      rw [pool_setFrame]
      split
      · rename_i same
        rw [same]
      · rfl
  | allocatePage =>
      cases ended
      exact counted.still (fun _ => rfl) rfl
  | deallocatePage pageId =>
      cases ended
      exact counted.still (fun _ => rfl) rfl
  | call op =>
      have call := call_of_run ended
      cases outcome with
      | error reason =>
          cases call
          refine counted.still (fun _ => rfl) ?_
          cases op <;> rfl
      | ok value =>
          cases op with
          | request pageId =>
              obtain ⟨frame, rfl⟩ : ∃ frame, value = some frame := by cases call <;> exact ⟨_, rfl⟩
              have positive := counted.lower frame
              exact counted.moved call.request_pinCount (by omega) rfl few
          | release pageId =>
              obtain ⟨frame, pinned, counts⟩ := call.release_pinCount
              exact counted.moved counts (by omega) rfl few
          | markDirty frame =>
              exact counted.still (call.still nofun nofun).2 rfl
          | write pageId frame page =>
              exact counted.still (call.still nofun nofun).2 rfl
          | flushAll =>
              exact counted.still (call.still nofun nofun).2 rfl

theorem pinsCounted [NeZero N] {raw : Fin N → Page} {disk : D}
    (run : PoolHistory FewPins (new raw disk) log bm) : PinsCounted log bm := by
  apply run.invariant PinsCounted
  · refine ⟨fun _ => Int.le_refl 0, ?_, ?_⟩
    · simp [allPins, new, outstanding]
    · simp [FewPins, outstanding]
  · exact fun _ _ _ _ _ counted taken => counted.step taken

variable {pageId : Int} {reason : Error}

/-- No frame can be had for the page. -/
def Exhausted (bm : BufferManager N D) (pageId : Int) : Prop :=
  bm.pageTable pageId = none ∧ bm.freeList = [] ∧ ∀ frame, 0 < (bm.pool frame).pinCount

/-- A request returns or is refused, and then nothing has changed. -/
theorem request_ends (bm : BufferManager N D) (pageId : Int) :
    (∃ frame bm', (request pageId).Returns bm frame bm') ∨
      (request pageId).Throws bm noCandidates bm := by
  rcases request_cases bm pageId with ⟨frame, _, returned⟩ | ⟨_, _, frame, _, returned⟩ |
    ⟨_, _, frame, _, _, returned⟩ | ⟨_, _, _, thrown⟩
  · exact Or.inl ⟨frame, _, returned⟩
  · exact Or.inl ⟨frame, _, returned⟩
  · exact Or.inl ⟨frame, _, returned⟩
  · exact Or.inr thrown

theorem request_throws (thrown : (request pageId).Throws bm reason bm') :
    reason = noCandidates ∧ bm' = bm := by
  unfold Program.Throws at thrown
  rcases request_ends bm pageId with ⟨frame, after, returned⟩ | refused
  · unfold Program.Returns at returned
    rw [returned] at thrown
    cases thrown
  · unfold Program.Throws at refused
    rw [refused] at thrown
    cases thrown
    exact ⟨rfl, rfl⟩

theorem request_returns_iff_not : (∃ frame bm', (request pageId).Returns bm frame bm') ↔
    ¬ (request pageId).Throws bm noCandidates bm := by
  constructor
  · intro ⟨frame, after, returned⟩ thrown
    unfold Program.Returns at returned
    unfold Program.Throws at thrown
    rw [returned] at thrown
    cases thrown
  · exact (request_ends bm pageId).resolve_right

theorem request_refused_iff : (request pageId).Throws bm noCandidates bm ↔
    bm.pageTable pageId = none ∧ bm.freeList = [] ∧ ∀ frame, (bm.pool frame).pinCount ≠ 0 := by
  constructor
  · intro thrown
    have never : ¬ ∃ frame bm', (request pageId).Returns bm frame bm' := fun returned =>
      request_returns_iff_not.mp returned thrown
    rcases request_cases bm pageId with ⟨frame, _, returned⟩ | ⟨_, _, frame, _, returned⟩ |
      ⟨_, _, frame, _, _, returned⟩ | ⟨absent, full, pinned, _⟩
    · exact absurd ⟨frame, _, returned⟩ never
    · exact absurd ⟨frame, _, returned⟩ never
    · exact absurd ⟨frame, _, returned⟩ never
    · exact ⟨absent, full, pinned⟩
  · intro ⟨absent, full, pinned⟩
    exact request_refused bm pageId absent full pinned

theorem request_returns_iff (absent : bm.pageTable pageId = none) (full : bm.freeList = []) :
    (∃ frame bm', (request pageId).Returns bm frame bm') ↔
      ∃ frame, (bm.pool frame).pinCount = 0 := by
  rw [request_returns_iff_not, request_refused_iff]
  constructor
  · intro available
    by_contra none
    exact available ⟨absent, full, fun frame unpinned => none ⟨frame, unpinned⟩⟩
  · intro ⟨frame, unpinned⟩ refused
    exact refused.2.2 frame unpinned

theorem evict_throws (thrown : evict.Throws bm reason bm') : reason = noCandidates := by
  unfold Program.Throws at thrown
  cases chosen : bm.policy.chooseVictim bm.pool with
  | mk victim policy =>
      cases victim with
      | some frame =>
          have returned := evict_returns bm frame policy chosen
          unfold Program.Returns at returned
          rw [returned] at thrown
          cases thrown
      | none =>
          simp only [evict, bind, get, getThe, MonadStateOf.get, set, chosen, Program.throw,
            Option.some.injEq, Prod.mk.injEq, Except.error.injEq] at thrown
          exact thrown.1.symm

/-- When a request is refused, what it leaves, and when it is worth a second try. -/
structure AtomicRequest (bm : BufferManager N D) (pageId : Int) : Prop where
  throws_iff : (∃ reason bm', (request pageId).Throws bm reason bm') ↔ Exhausted bm pageId
  unchanged : ∀ reason bm', (request pageId).Throws bm reason bm' →
    reason = noCandidates ∧ bm' = bm
  retried : Exhausted bm pageId → ∀ released bm', (release released).Returns bm () bm' →
    ((∃ frame bm'', (request pageId).Returns bm' frame bm'') ↔
      ∃ frame, bm.pageTable released = some frame ∧ (bm.pool frame).pinCount = 1)
  unpinned : ∀ reason bm', evict.Throws bm reason bm' →
    reason ≠ .runtimeError "BufferManager::evict(): policy selected a pinned frame."

/-- After a release the page gets in if the frame was pinned once. -/
theorem PinsCounted.retried_iff (counted : PinsCounted log bm) (exhausted : Exhausted bm pageId)
    {other : Int} (returned : (release other).Returns bm () bm') :
    (∃ frame bm'', (request pageId).Returns bm' frame bm'') ↔
      ∃ frame, bm.pageTable other = some frame ∧ (bm.pool frame).pinCount = 1 := by
  obtain ⟨absent, full, pinned⟩ := exhausted
  obtain ⟨released, cached, rfl⟩ := released_of_returns returned
  have still : (bm.released released).pageTable pageId = none := absent
  have none_free : (bm.released released).freeList = [] := full
  rw [request_returns_iff still none_free]
  have positive := pinned released
  have bound := counted.le released
  have few := counted.few
  unfold FewPins at few
  have here : ((bm.released released).pool released).pinCount =
      (bm.pool released).pinCount - 1 := by
    simp only [BufferManager.released, Function.update_self]
    exact toInt32_of_bounds (by omega) (by omega)
  constructor
  · rintro ⟨frame, unpinned⟩
    by_cases same : frame = released
    · subst same
      rw [here] at unpinned
      exact ⟨frame, cached, by omega⟩
    · have still := pinned frame
      simp only [BufferManager.released, Function.update_of_ne same] at unpinned
      omega
  · rintro ⟨frame, there, once⟩
    rw [cached, Option.some.injEq] at there
    subst there
    exact ⟨released, by rw [here, once]; rfl⟩

/-- With fewer than 2^31 pins outstanding, a request throws exactly when the page is not cached,
no frame is free and every frame is pinned. It leaves the pool as it was, and it can be repeated
with success after a release of a frame that was pinned once. -/
theorem refused_request_atomic [NeZero N] (raw : Fin N → Page) (disk : D)
    (log : List (PoolRecord N)) (bm : BufferManager N D)
    (run : PoolHistory FewPins (new raw disk) log bm) (pageId : Int) : AtomicRequest bm pageId := by
  have counted := pinsCounted run
  refine ⟨?_, fun _ _ thrown => request_throws thrown, fun exhausted _ _ returned =>
    counted.retried_iff exhausted returned, fun _ _ thrown => ?_⟩
  · constructor
    · intro ⟨reason, after, thrown⟩
      obtain ⟨rfl, rfl⟩ := request_throws thrown
      obtain ⟨absent, full, pinned⟩ := request_refused_iff.mp thrown
      refine ⟨absent, full, fun frame => ?_⟩
      have lower := counted.lower frame
      have unequal := pinned frame
      omega
    · intro ⟨absent, full, pinned⟩
      exact ⟨_, _, request_refused bm pageId absent full fun frame => (pinned frame).ne'⟩
  · rw [evict_throws thrown, noCandidates]
    decide

theorem twice_requested : ∃ (log : List (PoolRecord 1)) (bm : BufferManager 1 DiskManager),
    PoolHistory FewPins (new (fun _ _ => 0) (DiskManager.openFile File.empty)) log bm ∧
      bm.freeList = [] ∧ bm.pageTable = Function.update (fun _ => none) 5 (some 0) ∧
      ∀ frame, (bm.pool frame).pinCount = 2 := by
  let start : BufferManager 1 DiskManager := new (fun _ _ => 0) (DiskManager.openFile File.empty)
  have first := request_free start 5 [] 0 rfl rfl
  let opened := ({ start with freeList := [] } : BufferManager 1 DiskManager).loaded 5 0
  have cached : opened.pageTable 5 = some 0 := by simp only [opened, loaded, Function.update_self]
  have again := request_hit opened 5 0 cached
  have run : PoolHistory FewPins start [] start := .nil
  have twice : PoolHistory FewPins start [⟨.call (.request 5), .ok (some 0)⟩,
      ⟨.call (.request 5), .ok (some 0)⟩] (opened.accessed 0) :=
    (run.cons ⟨first.bind_eq, by decide⟩).cons ⟨again.bind_eq, by decide⟩
  refine ⟨_, _, twice, rfl, rfl, fun frame => ?_⟩
  rw [Subsingleton.elim frame 0]
  have pins : toInt32 (toInt32 (0 + 1) + 1) = 2 := by decide
  simp only [accessed, opened, loaded, Function.update_self]
  exact pins

/-- The frame is still pinned after one release, and the retry is refused. -/
theorem retry_refused : ∃ (log : List (PoolRecord 1)) (bm bm' : BufferManager 1 DiskManager),
    PoolHistory FewPins (new (fun _ _ => 0) (DiskManager.openFile File.empty)) log bm ∧
      (request 6).Throws bm noCandidates bm ∧ (release 5).Returns bm () bm' ∧
      (request 6).Throws bm' noCandidates bm' := by
  obtain ⟨log, bm, run, full, table, pins⟩ := twice_requested
  have absent : bm.pageTable 6 = none := by
    rw [table]
    rfl
  have cached : bm.pageTable 5 = some 0 := by rw [table, Function.update_self]
  refine ⟨log, bm, bm.released 0, run, request_refused_iff.mpr ⟨absent, full, fun frame => ?_⟩,
    release_pinned bm 5 0 cached ?_, request_refused_iff.mpr ⟨absent, full, fun frame => ?_⟩⟩
  · rw [pins]
    decide
  · rw [pins]
    decide
  · rw [Subsingleton.elim frame 0]
    simp only [BufferManager.released, Function.update_self, pins]
    decide

theorem refused_request_atomic_one : ∃ (log : List (PoolRecord 1))
    (bm : BufferManager 1 DiskManager),
    PoolHistory FewPins (new (fun _ _ => 0) (DiskManager.openFile File.empty)) log bm ∧
      Exhausted bm 6 ∧ AtomicRequest bm 6 := by
  obtain ⟨log, bm, run, full, table, pins⟩ := twice_requested
  refine ⟨log, bm, run, ⟨?_, full, fun frame => ?_⟩, refused_request_atomic _ _ log bm run 6⟩
  · rw [table]
    rfl
  · rw [pins]
    decide

end BufferManager

end RelationalDb
