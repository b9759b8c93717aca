import Mathlib.Data.Fintype.EquivFin
import RelationalDb.Storage.PinBalance
import RelationalDb.Storage.PoolSession

set_option autoImplicit false

namespace RelationalDb.BufferManager

variable {N : Nat}

/-- A pool that backs a view. The pins that others hold may leave no frame to use. -/
structure Settled (bm : BufferManager N DiskManager) (view : Int → Option Page) (pins : Int → Int)
    (pages : Int) : Prop extends Backed bm view where
  pinned : bm.pins = pins
  bounded : ∀ pageId, 0 ≤ pins pageId ∧ pins pageId < 2 ^ 31 - 1
  allocated : Allocated bm pages

def Crowded (bm : BufferManager N DiskManager) : Prop :=
  ∀ frame, (bm.pool frame).pinCount ≠ 0

variable {bm bm' : BufferManager N DiskManager} {view : Int → Option Page} {pins : Int → Int}
  {pages pageId : Int} {frame : Fin N}

theorem Steady.settled (steady : Steady bm view pins pages) : Settled bm view pins pages :=
  ⟨steady.toBacked, steady.pinned, steady.bounded, steady.allocated⟩

theorem Settled.steady (settled : Settled bm view pins pages)
    (evictable : ∃ frame, (bm.pool frame).pinCount = 0) : Steady bm view pins pages :=
  ⟨settled.toBacked, settled.pinned, evictable, settled.bounded, settled.allocated⟩

theorem Settled.steady_or_crowded (settled : Settled bm view pins pages) :
    Steady bm view pins pages ∨ Crowded bm := by
  by_cases evictable : ∃ frame, (bm.pool frame).pinCount = 0
  · exact Or.inl (settled.steady evictable)
  · exact Or.inr fun frame unpinned => evictable ⟨frame, unpinned⟩

/-- One more pin on a page. -/
theorem Settled.requested (settled : Settled bm view pins pages) (given : 0 ≤ pageId)
    (more : pins pageId + 1 < 2 ^ 31 - 1) (call : Call bm (.request pageId) (.ok (some frame)) bm') :
    Settled bm' view (Function.update pins pageId (pins pageId + 1)) pages := by
  have done := call.requested settled.toValid
  have small := settled.bounded pageId
  rw [← settled.pinned] at small
  refine ⟨call.request_backed settled.toBacked given, ?_, ?_,
    call.allocated settled.toValid settled.allocated⟩
  · rw [done.pins_eq small.1 small.2, settled.pinned]
  · intro other
    by_cases same : other = pageId
    · rw [same, Function.update_self]
      rw [settled.pinned] at small
      omega
    · rw [Function.update_of_ne same]
      exact settled.bounded other

theorem Settled.request_ends (settled : Settled bm view pins pages) (given : 0 ≤ pageId)
    (more : pins pageId + 1 < 2 ^ 31 - 1) {outcome : Except Error (Fin N)}
    (ended : request pageId bm = some (outcome, bm')) :
    (∃ frame, outcome = .ok frame ∧
      Settled bm' view (Function.update pins pageId (pins pageId + 1)) pages) ∨
    (outcome = .error noCandidates ∧ Crowded bm ∧ bm' = bm) := by
  rcases request_cases bm pageId with ⟨frame, cached, returned⟩ |
    ⟨absent, rest, frame, available, returned⟩ | ⟨absent, full, frame, policy, chosen, returned⟩ |
    ⟨_, _, pinned, refused⟩
  · rw [show request pageId bm = some (.ok frame, _) from returned] at ended
    cases ended
    exact Or.inl ⟨frame, rfl, settled.requested given more (.hit cached)⟩
  · rw [show request pageId bm = some (.ok frame, _) from returned] at ended
    cases ended
    exact Or.inl ⟨frame, rfl, settled.requested given more (.free absent available)⟩
  · rw [show request pageId bm = some (.ok frame, _) from returned] at ended
    cases ended
    exact Or.inl ⟨frame, rfl, settled.requested given more (.evict absent full chosen)⟩
  · rw [show request pageId bm = some (.error _, _) from refused] at ended
    cases ended
    exact Or.inr ⟨rfl, pinned, rfl⟩

theorem Settled.held_cached (settled : Settled bm view pins pages) (held : 0 < pins pageId) :
    ∃ frame, bm.pageTable pageId = some frame ∧ 0 < (bm.pool frame).pinCount := by
  rw [← settled.pinned] at held
  cases cached : bm.pageTable pageId with
  | none =>
      rw [pins_uncached cached] at held
      omega
  | some frame =>
      rw [pins_cached cached] at held
      exact ⟨frame, rfl, held⟩

theorem Settled.release (settled : Settled bm view pins pages) (held : 0 < pins pageId) :
    ∃ bm', (release pageId).Returns bm () bm' ∧
      Settled bm' view (Function.update pins pageId (pins pageId - 1)) pages := by
  obtain ⟨frame, cached, pinned⟩ := settled.held_cached held
  have call : Call bm (.release pageId) (.ok none) (bm.released frame) := .release cached pinned
  have done := call.released settled.toValid
  have small := settled.bounded pageId
  refine ⟨_, release_pinned bm pageId frame cached pinned, call.release_backed settled.toBacked, ?_,
    ?_, settled.allocated.released frame⟩
  · rw [done.pins_eq (by rw [settled.pinned]; omega), settled.pinned]
  · intro other
    by_cases same : other = pageId
    · rw [same, Function.update_self]
      omega
    · rw [Function.update_of_ne same]
      exact settled.bounded other

theorem Settled.crowded (settled : Settled bm view pins pages)
    (held : ∀ pageId : Nat, pageId < N → 0 < pins pageId) : Crowded bm := by
  have cached : ∀ k : Fin N, ∃ frame, bm.pageTable (k.val : Int) = some frame ∧
      0 < (bm.pool frame).pinCount := fun k => settled.held_cached (held k.val k.isLt)
  choose frameOf inFrame pinned using cached
  have injective : Function.Injective frameOf := by
    intro first second same
    have apart := settled.mapped _ _ (inFrame first)
    rw [same, settled.mapped _ _ (inFrame second)] at apart
    exact Fin.ext (by omega)
  intro frame
  obtain ⟨k, rfl⟩ := Finite.injective_iff_surjective.mp injective frame
  have positive := pinned k
  omega

/-- Frames that are all held, by as many pages as there are frames, hold each of these pages. -/
theorem Settled.held (settled : Settled bm view pins pages) (crowded : Crowded bm)
    (only : ∀ pageId, pins pageId ≠ 0 → 0 ≤ pageId ∧ pageId < N) {k : Nat} (bound : k < N) :
    0 < pins k := by
  have covered : ∀ frame, bm.pageTable (bm.pool frame).pageId = some frame := fun frame =>
    settled.covered frame fun free => crowded frame (settled.unpinned frame free)
  have pinned : ∀ frame, pins (bm.pool frame).pageId = (bm.pool frame).pinCount := fun frame => by
    rw [← settled.pinned, pins_cached (covered frame)]
  have known : ∀ frame, 0 ≤ (bm.pool frame).pageId ∧ (bm.pool frame).pageId < N := fun frame =>
    only _ (by rw [pinned]; exact crowded frame)
  let pageOf : Fin N → Fin N := fun frame => ⟨(bm.pool frame).pageId.toNat, by
    have inside := known frame
    omega⟩
  have injective : Function.Injective pageOf := by
    intro first second same
    have numbers : (bm.pool first).pageId.toNat = (bm.pool second).pageId.toNat :=
      congrArg Fin.val same
    have firstKnown := known first
    have secondKnown := known second
    have ids : (bm.pool first).pageId = (bm.pool second).pageId := by omega
    have table := covered first
    rw [ids, covered second, Option.some.injEq] at table
    exact table.symm
  obtain ⟨frame, here⟩ := Finite.injective_iff_surjective.mp injective ⟨k, bound⟩
  have number : (bm.pool frame).pageId.toNat = k := congrArg Fin.val here
  have inside := known frame
  have pageId : (k : Int) = (bm.pool frame).pageId := by omega
  have small := settled.bounded k
  have busy := crowded frame
  rw [← pinned, ← pageId] at busy
  omega

theorem Settled.absent (settled : Settled bm view pins pages) (crowded : Crowded bm)
    (unheld : pins pageId = 0) : bm.pageTable pageId = none := by
  cases cached : bm.pageTable pageId with
  | none => rfl
  | some frame =>
      rw [← settled.pinned, pins_cached cached] at unheld
      exact absurd unheld (crowded frame)

theorem Settled.full (settled : Settled bm view pins pages) (crowded : Crowded bm) :
    bm.freeList = [] := by
  apply List.eq_nil_iff_forall_not_mem.mpr
  intro frame free
  exact crowded frame (settled.unpinned frame free)

theorem Settled.request_crowded (settled : Settled bm view pins pages) (crowded : Crowded bm)
    (absent : bm.pageTable pageId = none) :
    (BufferManager.request pageId).Throws bm noCandidates bm :=
  request_refused bm pageId absent (settled.full crowded) crowded

/-- Giving back a page that others hold as well, after a store into it or without one. -/
theorem Settled.release_held (settled : Settled bm view pins pages)
    (cached : bm.pageTable pageId = some frame) (held : (bm.pool frame).pinCount ≠ 0) (page : Page) :
    ∃ policy, (BufferManager.release pageId).Returns (bm.accessed frame) () (bm.setPolicy policy) ∧
      (BufferManager.release pageId).Returns ((bm.accessed frame).written frame page) ()
        ((bm.written frame page).setPolicy policy) := by
  have small := settled.bounded pageId
  rw [← settled.pinned, pins_cached cached] at small
  have up : toInt32 ((bm.pool frame).pinCount + 1) = (bm.pool frame).pinCount + 1 :=
    toInt32_of_bounds (by omega) (by omega)
  have down : toInt32 ((bm.pool frame).pinCount + 1 - 1) = (bm.pool frame).pinCount := by
    rw [toInt32_of_bounds (by omega) (by omega)]
    omega
  have whole : Function.update bm.pool frame
      { bm.pool frame with pinCount := (bm.pool frame).pinCount } = bm.pool :=
    Function.update_eq_self _ _
  refine ⟨bm.policy.recordAccess frame, ?_, ?_⟩
  · have pinned : 0 < ((bm.accessed frame).pool frame).pinCount := by
      simp only [accessed, Function.update_self, up]
      omega
    have returned := release_pinned (bm.accessed frame) pageId frame cached pinned
    have same : (bm.accessed frame).released frame =
        bm.setPolicy (bm.policy.recordAccess frame) := by
      simp only [released, accessed, Function.update_self, up, down, held, ↓reduceIte,
        Function.update_idem, whole, setPolicy]
    rwa [same] at returned
  · have pinned : 0 < (((bm.accessed frame).written frame page).pool frame).pinCount := by
      simp only [written, setFrame, accessed, Function.update_self, up]
      omega
    have returned :=
      release_pinned ((bm.accessed frame).written frame page) pageId frame cached pinned
    have same : ((bm.accessed frame).written frame page).released frame =
        (bm.written frame page).setPolicy (bm.policy.recordAccess frame) := by
      simp only [released, written, setFrame, accessed, Function.update_self, up, down, held,
        ↓reduceIte, Function.update_idem, setPolicy]
    rwa [same] at returned

theorem Settled.written (settled : Settled bm view pins pages)
    (cached : bm.pageTable pageId = some frame) (inside : pageId < pages) (page : Page) :
    Settled (bm.written frame page) (Function.update view pageId (some page)) pins pages := by
  have name := settled.mapped pageId frame cached
  refine ⟨written_backed settled.toBacked cached page, ?_, settled.bounded,
    settled.allocated.written (by rw [name]; exact inside) page⟩
  rw [written_pins, settled.pinned]

theorem Crowded.written (crowded : Crowded bm) (frame : Fin N) (page : Page) :
    Crowded (bm.written frame page) := by
  intro other
  rw [written_pinCount]
  exact crowded other

theorem Settled.allocate (settled : Settled bm view pins pages) (more : pages + 1 < 2 ^ 31) :
    Settled { bm with disk := { bm.disk with nextPageId := pages + 1 } } view pins (pages + 1) := by
  have old := settled.allocated
  have lower := old.lower
  have linked : Linked { bm with disk := { bm.disk with nextPageId := pages + 1 } } :=
    settled.toLinked.congr rfl rfl (fun _ => rfl) (fun _ _ => rfl)
  have backed : Backed { bm with disk := { bm.disk with nextPageId := pages + 1 } } view :=
    settled.toBacked.congr ⟨linked, settled.nonnegative⟩ rfl rfl (fun _ => rfl) (fun _ => rfl)
      (fun _ => rfl)
  refine ⟨backed, settled.pinned, settled.bounded, rfl, old.noneFree, by omega, more, ?_, ?_⟩
  · exact Nat.lt_trans old.size (page_fits lower (by omega))
  · intro frame dirty
    have below := old.dirty frame dirty
    show (bm.pool frame).pageId < pages + 1
    omega

theorem Settled.setPolicy (settled : Settled bm view pins pages) (policy : ClockPolicy N) :
    Settled (bm.setPolicy policy) view pins pages :=
  ⟨settled.toBacked.setPolicy policy, settled.pinned, settled.bounded,
    settled.allocated.congr rfl fun _ dirty => ⟨dirty, rfl⟩⟩

end RelationalDb.BufferManager
