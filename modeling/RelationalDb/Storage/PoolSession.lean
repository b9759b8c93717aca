import RelationalDb.Storage.PoolContents

set_option autoImplicit false

namespace RelationalDb.BufferManager

variable {N : Nat}

/-- `pages` pages were ever allocated and none was given back; the file and the
dirty frames lie within them. -/
structure Allocated (bm : BufferManager N DiskManager) (pages : Int) : Prop where
  next : bm.disk.nextPageId = pages
  noneFree : bm.disk.freeList = []
  lower : 0 ≤ pages
  upper : pages < 2 ^ 31
  size : bm.disk.dbIo.size < (pages.toNat + 1) * pageSize
  dirty : ∀ frame, (bm.pool frame).dirty = true → (bm.pool frame).pageId < pages

theorem Allocated.congr {bm bm' : BufferManager N DiskManager} {pages : Int}
    (allocated : Allocated bm pages) (disk : bm'.disk = bm.disk)
    (frames : ∀ frame, (bm'.pool frame).dirty = true →
      (bm.pool frame).dirty = true ∧ (bm'.pool frame).pageId = (bm.pool frame).pageId) :
    Allocated bm' pages := by
  refine ⟨?_, ?_, allocated.lower, allocated.upper, ?_, ?_⟩
  · rw [disk, allocated.next]
  · rw [disk, allocated.noneFree]
  · rw [disk]
    exact allocated.size
  · intro frame dirty
    obtain ⟨old, same⟩ := frames frame dirty
    rw [same]
    exact allocated.dirty frame old

theorem Allocated.released {bm : BufferManager N DiskManager} {pages : Int}
    (allocated : Allocated bm pages) (frame : Fin N) : Allocated (bm.released frame) pages := by
  refine allocated.congr rfl ?_
  intro other dirty
  by_cases same : other = frame
  · simpa [BufferManager.released, same] using dirty
  · simpa [BufferManager.released, same] using dirty

/-- A store into a page of the file, marked dirty. -/
theorem Allocated.written {bm : BufferManager N DiskManager} {pages : Int} {frame : Fin N}
    (allocated : Allocated bm pages) (inside : (bm.pool frame).pageId < pages) (page : Page) :
    Allocated (bm.written frame page) pages := by
  refine ⟨allocated.next, allocated.noneFree, allocated.lower, allocated.upper, allocated.size, ?_⟩
  intro other dirty
  by_cases same : other = frame
  · simp only [BufferManager.written, setFrame, same, Function.update_self]
    exact inside
  · simp only [BufferManager.written, setFrame, Function.update_of_ne same] at dirty ⊢
    exact allocated.dirty other dirty

theorem written_pinCount (bm : BufferManager N DiskManager) (frame other : Fin N) (page : Page) :
    ((bm.written frame page).pool other).pinCount = (bm.pool other).pinCount := by
  by_cases same : other = frame <;> simp [written, setFrame, same]

theorem written_pins (bm : BufferManager N DiskManager) (frame : Fin N) (page : Page) :
    (bm.written frame page).pins = bm.pins := by
  funext other
  simp only [pins, written_pinCount]
  rfl

theorem page_fits {pageId pages : Int} (given : 0 ≤ pageId) (inside : pageId < pages) :
    (pageId.toNat + 1) * pageSize < (pages.toNat + 1) * pageSize :=
  Nat.mul_lt_mul_of_pos_right (by omega) (by decide)

theorem Allocated.write {bm : BufferManager N DiskManager} {pages pageId : Int}
    (allocated : Allocated bm pages) (given : 0 ≤ pageId) (inside : pageId < pages) (page : Page) :
    (writePage bm.disk pageId page).nextPageId = pages ∧
      (writePage bm.disk pageId page).freeList = [] ∧
      (writePage bm.disk pageId page).dbIo.size < (pages.toNat + 1) * pageSize := by
  refine ⟨?_, ?_, ?_⟩
  · exact (DiskManager.writePage_nextPageId _ _ _).trans allocated.next
  · exact (DiskManager.writePage_freeList _ _ _).trans allocated.noneFree
  · have old := allocated.size
    have fits := page_fits given inside
    have length : (writePage bm.disk pageId page).dbIo.size = _ :=
      DiskManager.writePage_size bm.disk pageId page given
    rw [length, Nat.max_lt]
    exact ⟨old, fits⟩

theorem Call.allocated {bm bm' : BufferManager N DiskManager} {pageId pages : Int}
    {outcome : Except Error (Option (Fin N))} (call : Call bm (.request pageId) outcome bm')
    (valid : Valid bm) (allocated : Allocated bm pages) : Allocated bm' pages := by
  cases call with
  | refused => exact allocated
  | @hit _ frame cached =>
      refine allocated.congr rfl ?_
      intro other dirty
      by_cases same : other = frame
      · simpa [accessed, same] using dirty
      · simpa [accessed, same] using dirty
  | @free _ rest frame absent available =>
      refine allocated.congr rfl ?_
      intro other dirty
      by_cases same : other = frame
      · simp [loaded, same] at dirty
      · simpa [loaded, same] using dirty
  | @evict _ frame policy absent full chosen =>
      have cached : bm.pageTable (bm.pool frame).pageId = some frame := by
        apply valid.covered
        rw [full]
        exact List.not_mem_nil
      have given := valid.nonnegative _ frame cached
      have rest : ∀ other, ((((bm.setPolicy policy).evicted frame).loaded pageId frame).pool
          other).dirty = true → (bm.pool other).dirty = true ∧
          ((((bm.setPolicy policy).evicted frame).loaded pageId frame).pool other).pageId =
            (bm.pool other).pageId := by
        intro other dirty
        by_cases same : other = frame
        · simp [loaded, same] at dirty
        · simpa [loaded, evicted, setPolicy, same] using dirty
      by_cases dirty : (bm.pool frame).dirty = true
      · obtain ⟨next, noneFree, size⟩ :=
          allocated.write given (allocated.dirty frame dirty) (bm.pool frame).data
        have disk : (((bm.setPolicy policy).evicted frame).loaded pageId frame).disk =
            writePage bm.disk (bm.pool frame).pageId (bm.pool frame).data := by
          simp [loaded, evicted, setPolicy, dirty]
        refine ⟨?_, ?_, allocated.lower, allocated.upper, ?_, ?_⟩
        · rw [disk, next]
        · rw [disk, noneFree]
        · rw [disk]
          exact size
        · intro other otherDirty
          obtain ⟨old, same⟩ := rest other otherDirty
          rw [same]
          exact allocated.dirty other old
      · refine allocated.congr ?_ rest
        simp [loaded, evicted, setPolicy, dirty]

/-- A pool between operations: it backs a view, `pins` are held by others, and
some frame can be used. -/
structure Steady (bm : BufferManager N DiskManager) (view : Int → Option Page) (pins : Int → Int)
    (pages : Int) : Prop extends Backed bm view where
  pinned : bm.pins = pins
  evictable : ∃ frame, (bm.pool frame).pinCount = 0
  bounded : ∀ pageId, 0 ≤ pins pageId ∧ pins pageId < 2 ^ 31 - 1
  allocated : Allocated bm pages

/-- A pool in the middle of an operation that has one page open. -/
structure Opened (bm : BufferManager N DiskManager) (view : Int → Option Page) (pins : Int → Int)
    (pages pageId : Int) (frame : Fin N) : Prop extends Backed bm view where
  cached : bm.pageTable pageId = some frame
  pinned : bm.pins = Function.update pins pageId (pins pageId + 1)
  reserve : pins pageId = 0 ∨ ∃ other, other ≠ frame ∧ (bm.pool other).pinCount = 0
  bounded : ∀ pageId, 0 ≤ pins pageId ∧ pins pageId < 2 ^ 31 - 1
  allocated : Allocated bm pages

section Session

variable {bm : BufferManager N DiskManager} {view : Int → Option Page} {pins : Int → Int}
  {pages pageId : Int} {frame : Fin N}

/-- A request between operations is not refused. -/
theorem Steady.request (steady : Steady bm view pins pages) (given : 0 ≤ pageId) :
    ∃ frame bm', (request pageId).Returns bm frame bm' ∧
      Opened bm' view pins pages pageId frame := by
  obtain ⟨spare, unpinned⟩ := steady.evictable
  have opened : ∀ frame bm', Call bm (.request pageId) (.ok (some frame)) bm' →
      (pins pageId = 0 ∨ ∃ other, other ≠ frame ∧ (bm'.pool other).pinCount = 0) →
      Opened bm' view pins pages pageId frame := by
    intro frame bm' call reserve
    have done := call.requested steady.toValid
    have small := steady.bounded pageId
    rw [← steady.pinned] at small
    refine ⟨call.request_backed steady.toBacked given, done.cached, ?_, reserve, steady.bounded,
      call.allocated steady.toValid steady.allocated⟩
    rw [done.pins_eq small.1 small.2, steady.pinned]
  have unheld : bm.pageTable pageId = none → pins pageId = 0 := by
    intro absent
    rw [← steady.pinned, pins_uncached absent]
  rcases request_cases bm pageId with ⟨frame, cached, returned⟩ |
    ⟨absent, rest, frame, available, returned⟩ | ⟨absent, full, frame, policy, chosen, returned⟩ |
    ⟨_, _, pinned, _⟩
  · refine ⟨frame, _, returned, opened frame _ (.hit cached) ?_⟩
    by_cases same : spare = frame
    · left
      rw [← steady.pinned, pins_cached cached, ← same, unpinned]
    · right
      refine ⟨spare, same, ?_⟩
      simp only [accessed, Function.update_of_ne same, unpinned]
  · exact ⟨frame, _, returned, opened frame _ (.free absent available) (Or.inl (unheld absent))⟩
  · exact ⟨frame, _, returned, opened frame _ (.evict absent full chosen) (Or.inl (unheld absent))⟩
  · exact absurd unpinned (pinned spare)

theorem Opened.data_eq (opened : Opened bm view pins pages pageId frame) {page : Page}
    (present : view pageId = some page) : (bm.pool frame).data = page :=
  opened.data pageId frame page opened.cached present

theorem Opened.released_steady (opened : Opened bm view pins pages pageId frame) :
    Steady (bm.released frame) view pins pages := by
  have small := opened.bounded pageId
  have count : (bm.pool frame).pinCount = pins pageId + 1 := by
    rw [← pins_cached opened.cached, opened.pinned, Function.update_self]
  have pinned : 0 < (bm.pool frame).pinCount := by omega
  have call : Call bm (.release pageId) (.ok none) (bm.released frame) :=
    .release opened.cached pinned
  have done := call.released opened.toValid
  have pinsEq : (bm.released frame).pins = pins := by
    rw [done.pins_eq (by rw [opened.pinned, Function.update_self]; omega), opened.pinned,
      Function.update_self, Function.update_idem, Int.add_sub_cancel, Function.update_eq_self]
  refine ⟨call.release_backed opened.toBacked, pinsEq, ?_, opened.bounded,
    opened.allocated.released frame⟩
  rcases opened.reserve with zero | ⟨other, apart, unpinned⟩
  · refine ⟨frame, ?_⟩
    have cached : (bm.released frame).pageTable pageId = some frame := opened.cached
    rw [← pins_cached cached, pinsEq, zero]
  · refine ⟨other, ?_⟩
    simp only [BufferManager.released, Function.update_of_ne apart, unpinned]

theorem release_data {bm' : BufferManager N DiskManager}
    (returned : (release pageId).Returns bm () bm') (other : Fin N) :
    (bm'.pool other).data = (bm.pool other).data := by
  obtain ⟨frame, _, rfl⟩ := released_of_returns returned
  by_cases same : other = frame
  · simp [BufferManager.released, same]
  · simp [BufferManager.released, same]

theorem Opened.release (opened : Opened bm view pins pages pageId frame) :
    ∃ bm', (release pageId).Returns bm () bm' ∧ Steady bm' view pins pages ∧
      bm'.pageTable = bm.pageTable ∧ ∀ other, (bm'.pool other).data = (bm.pool other).data := by
  have small := opened.bounded pageId
  have count : (bm.pool frame).pinCount = pins pageId + 1 := by
    rw [← pins_cached opened.cached, opened.pinned, Function.update_self]
  have returned := release_pinned bm pageId frame opened.cached (by omega)
  exact ⟨_, returned, opened.released_steady, rfl, release_data returned⟩

theorem Steady.setPolicy (steady : Steady bm view pins pages) (policy : ClockPolicy N) :
    Steady (bm.setPolicy policy) view pins pages :=
  ⟨steady.toBacked.setPolicy policy, steady.pinned, steady.evictable, steady.bounded,
    steady.allocated.congr rfl fun _ dirty => ⟨dirty, rfl⟩⟩

theorem Opened.unpin (opened : Opened bm view pins pages pageId frame) :
    ∃ bm', (unpin frame).Returns bm () bm' ∧ Steady bm' view pins pages := by
  refine ⟨(bm.released frame).setPolicy bm.policy, ?_, opened.released_steady.setPolicy bm.policy⟩
  exact Program.modify_returns _ _

theorem Opened.write (opened : Opened bm view pins pages pageId frame) (inside : pageId < pages)
    (page : Page) :
    Opened (bm.written frame page) (Function.update view pageId (some page)) pins pages pageId
      frame := by
  have name := opened.mapped pageId frame opened.cached
  refine ⟨written_backed opened.toBacked opened.cached page, opened.cached, ?_, ?_, opened.bounded,
    opened.allocated.written (by rw [name]; exact inside) page⟩
  · rw [written_pins, opened.pinned]
  · simp only [written_pinCount]
    exact opened.reserve

/-- A page that is not cached is written to the disk past the pool. -/
theorem Steady.writePage (steady : Steady bm view pins pages)
    (absent : bm.pageTable pageId = none) (given : 0 ≤ pageId) (inside : pageId < pages)
    (page : Page) :
    Steady { bm with disk := RelationalDb.writePage bm.disk pageId page }
      (Function.update view pageId (some page)) pins pages := by
  have old := steady.allocated
  obtain ⟨next, noneFree, size⟩ := old.write given inside page
  have elsewhere : ∀ other kept, other ≠ pageId → stored bm.disk other = some kept →
      stored (RelationalDb.writePage bm.disk pageId page) other = some kept :=
    fun other kept apart => stored_writePage_other _ _ _ _ _ given apart
  have linked : Linked { bm with disk := RelationalDb.writePage bm.disk pageId page } :=
    steady.toLinked.congr rfl rfl (fun _ => rfl) (fun _ _ => rfl)
  have cachedApart : ∀ other f, bm.pageTable other = some f → other ≠ pageId := by
    intro other f cached same
    rw [same, absent] at cached
    cases cached
  have backed : Backed { bm with disk := RelationalDb.writePage bm.disk pageId page }
      (Function.update view pageId (some page)) := by
    refine ⟨⟨linked, steady.nonnegative⟩, ?_, ?_, ?_, steady.spare⟩
    · intro other f kept cached present
      rw [Function.update_of_ne (cachedApart other f cached)] at present
      exact steady.data other f kept cached present
    · intro other f kept cached present clean
      have apart := cachedApart other f cached
      rw [Function.update_of_ne apart] at present
      exact elsewhere other kept apart (steady.clean other f kept cached present clean)
    · intro other kept uncached present
      by_cases same : other = pageId
      · rw [same, Function.update_self, Option.some.injEq] at present
        rw [same, ← present]
        exact stored_writePage _ _ _ given
      · rw [Function.update_of_ne same] at present
        exact elsewhere other kept same (steady.uncached other kept uncached present)
  exact ⟨backed, steady.pinned, steady.evictable, steady.bounded,
    next, noneFree, old.lower, old.upper, size, old.dirty⟩

theorem Allocated.flushDisk {disk : DiskManager} (frames : List (Fin N))
    (next : disk.nextPageId = pages) (noneFree : disk.freeList = [])
    (size : disk.dbIo.size < (pages.toNat + 1) * pageSize)
    (inside : ∀ frame ∈ frames, (bm.pool frame).dirty = true →
      0 ≤ (bm.pool frame).pageId ∧ (bm.pool frame).pageId < pages) :
    (flushDisk bm.pool disk frames).nextPageId = pages ∧
      (flushDisk bm.pool disk frames).freeList = [] ∧
      (flushDisk bm.pool disk frames).dbIo.size < (pages.toNat + 1) * pageSize := by
  induction frames generalizing disk with
  | nil => exact ⟨next, noneFree, size⟩
  | cons frame frames ih =>
      have rest : ∀ other ∈ frames, (bm.pool other).dirty = true →
          0 ≤ (bm.pool other).pageId ∧ (bm.pool other).pageId < pages :=
        fun other member => inside other (List.mem_cons_of_mem _ member)
      rw [BufferManager.flushDisk, List.foldl_cons]
      by_cases dirty : (bm.pool frame).dirty = true
      · obtain ⟨given, below⟩ := inside frame List.mem_cons_self dirty
        simp only [dirty, ↓reduceIte]
        apply ih _ _ _ rest
        · exact (DiskManager.writePage_nextPageId _ _ _).trans next
        · exact (DiskManager.writePage_freeList _ _ _).trans noneFree
        · have length : (RelationalDb.writePage disk (bm.pool frame).pageId
              (bm.pool frame).data).dbIo.size = _ := DiskManager.writePage_size disk _ _ given
          rw [length, Nat.max_lt]
          exact ⟨size, page_fits given below⟩
      · simp only [dirty, Bool.false_eq_true, ↓reduceIte]
        exact ih next noneFree size rest

theorem Steady.flushAll (steady : Steady bm view pins pages) :
    Steady bm.flushed view pins pages ∧
      ∀ pageId page, view pageId = some page → stored bm.flushed.disk pageId = some page := by
  have old := steady.allocated
  have inside : ∀ frame ∈ List.finRange N, (bm.pool frame).dirty = true →
      0 ≤ (bm.pool frame).pageId ∧ (bm.pool frame).pageId < pages := by
    intro frame _ dirty
    refine ⟨?_, old.dirty frame dirty⟩
    apply steady.nonnegative _ frame
    apply steady.covered
    intro free
    rw [steady.spare frame free] at dirty
    cases dirty
  obtain ⟨next, noneFree, size⟩ :=
    Allocated.flushDisk (List.finRange N) old.next old.noneFree old.size inside
  refine ⟨⟨flushed_backed steady.toBacked, ?_, ?_, steady.bounded, next, noneFree, old.lower,
    old.upper, size, ?_⟩, fun _ _ present => steady.toBacked.flushed_stored present⟩
  · rw [← steady.pinned]
    rfl
  · obtain ⟨frame, unpinned⟩ := steady.evictable
    exact ⟨frame, unpinned⟩
  · intro frame dirty
    cases dirty

end Session

theorem readData_returns (bm : BufferManager N DiskManager) (frame : Fin N) :
    (readData frame).Returns bm (bm.pool frame).data bm := rfl

/-- The state between a store and `mark_dirty`. -/
def scribbled (bm : BufferManager N DiskManager) (frame : Fin N) (change : Page → Page) :
    BufferManager N DiskManager :=
  bm.setFrame frame fun f => { f with data := change f.data }

theorem modifyData_returns (bm : BufferManager N DiskManager) (frame : Fin N)
    (change : Page → Page) :
    (modifyData frame change).Returns bm () (bm.scribbled frame change) := rfl

theorem markDirty_returns (bm : BufferManager N DiskManager) (frame : Fin N)
    (change : Page → Page) :
    (markDirty frame).Returns (bm.scribbled frame change) ()
      (bm.written frame (change (bm.pool frame).data)) := by
  simp [Program.Returns, markDirty, modify, modifyGet, MonadStateOf.modifyGet, setFrame, written,
    scribbled]

/-- A store of the bytes that are there. -/
theorem modifyData_same (bm : BufferManager N DiskManager) (frame : Fin N) :
    (modifyData frame fun _ => (bm.pool frame).data).Returns bm () bm := by
  simp [Program.Returns, modifyData, modify, modifyGet, MonadStateOf.modifyGet, setFrame]

theorem accessed_data (bm : BufferManager N DiskManager) (frame : Fin N) :
    ((bm.accessed frame).pool frame).data = (bm.pool frame).data := by
  simp only [accessed, Function.update_self]

@[simp] theorem written_data (bm : BufferManager N DiskManager) (frame : Fin N) (page : Page) :
    ((bm.written frame page).pool frame).data = page := by
  simp only [written, setFrame, Function.update_self]

theorem written_written (bm : BufferManager N DiskManager) (frame : Fin N) (first second : Page) :
    (bm.written frame first).written frame second = bm.written frame second := by
  simp [written, setFrame]

theorem written_scribbled (bm : BufferManager N DiskManager) (frame : Fin N) (first second : Page) :
    ((bm.written frame first).scribbled frame fun _ => second) =
      (bm.written frame first).written frame second := by
  simp [scribbled, setFrame, written]

theorem released_accessed {bm : BufferManager N DiskManager} {frame : Fin N}
    (unpinned : (bm.pool frame).pinCount = 0)
    (clear : bm.policy.refBits frame = false) : (bm.accessed frame).released frame = bm := by
  have pinned : toInt32 1 = 1 := by decide
  have unpinned' : toInt32 0 = 0 := by decide
  have bits : Function.update bm.policy.refBits frame false = bm.policy.refBits := by
    rw [Function.update_eq_self_iff, clear]
  have whole : Function.update bm.pool frame { bm.pool frame with pinCount := 0 } = bm.pool := by
    rw [Function.update_eq_self_iff, ← unpinned]
  simp [accessed, released, unpinned, pinned, unpinned', ClockPolicy.recordAccess,
    ClockPolicy.recordUnpin, ClockPolicy.setRefBit, bits, whole]

theorem released_written {bm : BufferManager N DiskManager} {frame : Fin N}
    (unpinned : (bm.pool frame).pinCount = 0)
    (clear : bm.policy.refBits frame = false) (page : Page) :
    ((bm.accessed frame).written frame page).released frame = bm.written frame page := by
  have pinned : toInt32 1 = 1 := by decide
  have unpinned' : toInt32 0 = 0 := by decide
  have bits : Function.update bm.policy.refBits frame false = bm.policy.refBits := by
    rw [Function.update_eq_self_iff, clear]
  simp [accessed, released, written, setFrame, unpinned, pinned, unpinned',
    ClockPolicy.recordAccess, ClockPolicy.recordUnpin, ClockPolicy.setRefBit, bits]

section Visits

variable {bm : BufferManager N DiskManager} {view : Int → Option Page} {pins : Int → Int}
  {pages : Int}

/-- A request and a release of each page of a list. -/
def visits : List Int → Pool N DiskManager Unit
  | [] => pure ⟨⟩
  | pageId :: rest => do
      let _ ← request pageId
      release pageId
      visits rest

/-- A page in a frame as its last release left it: its bit is set while others hold it. -/
structure Rested (bm : BufferManager N DiskManager) (pageId : Int) (frame : Fin N) : Prop where
  cached : bm.pageTable pageId = some frame
  held : 0 ≤ (bm.pool frame).pinCount ∧ (bm.pool frame).pinCount < 2 ^ 31 - 1
  bit : bm.policy.refBits frame = decide (0 < (bm.pool frame).pinCount)

namespace Rested

variable {pageId : Int} {frame : Fin N}

theorem request (rested : Rested bm pageId frame) :
    (BufferManager.request pageId).Returns bm frame (bm.accessed frame) :=
  request_hit bm pageId frame rested.cached

theorem released_accessed (rested : Rested bm pageId frame) :
    (bm.accessed frame).released frame = bm := by
  obtain ⟨lower, upper⟩ := rested.held
  by_cases unpinned : (bm.pool frame).pinCount = 0
  · apply BufferManager.released_accessed unpinned
    rw [rested.bit, unpinned]
    rfl
  · have referenced : bm.policy.refBits frame = true := by
      rw [rested.bit, decide_eq_true_iff]
      omega
    have bits : Function.update bm.policy.refBits frame true = bm.policy.refBits := by
      rw [Function.update_eq_self_iff, referenced]
    have more : toInt32 ((bm.pool frame).pinCount + 1) = (bm.pool frame).pinCount + 1 :=
      toInt32_of_bounds (by omega) (by omega)
    have same : toInt32 (bm.pool frame).pinCount = (bm.pool frame).pinCount :=
      toInt32_of_bounds (by omega) (by omega)
    simp [accessed, released, more, same, unpinned, ClockPolicy.recordAccess,
      ClockPolicy.setRefBit, bits]

/-- A visit to a page that was visited last changes nothing. -/
theorem release (rested : Rested bm pageId frame) :
    (BufferManager.release pageId).Returns (bm.accessed frame) ⟨⟩ bm := by
  obtain ⟨lower, upper⟩ := rested.held
  have more : toInt32 ((bm.pool frame).pinCount + 1) = (bm.pool frame).pinCount + 1 :=
    toInt32_of_bounds (by omega) (by omega)
  have pinned : 0 < ((bm.accessed frame).pool frame).pinCount := by
    simp only [accessed, Function.update_self, more]
    omega
  have released := release_pinned (bm.accessed frame) pageId frame rested.cached pinned
  rwa [rested.released_accessed] at released

theorem visits_cons (rested : Rested bm pageId frame) (rest : List Int) :
    visits (pageId :: rest) bm = visits rest bm := by
  have visited : visits (pageId :: rest) bm =
      (BufferManager.request pageId >>= fun _ => BufferManager.release pageId >>= fun _ =>
        visits rest : Pool N DiskManager Unit) bm := rfl
  rw [visited, rested.request.bind_eq, rested.release.bind_eq]

end Rested

theorem visits_append {first second : List Int} {middle bm' : BufferManager N DiskManager}
    (before : (visits first).Returns bm ⟨⟩ middle) (after : (visits second).Returns middle ⟨⟩ bm') :
    (visits (first ++ second)).Returns bm ⟨⟩ bm' := by
  induction first generalizing bm with
  | nil =>
      obtain ⟨_, rfl⟩ := (Program.returns_pure _ _ _ _).mp before
      exact after
  | cons pageId first ih =>
      obtain ⟨frame, opened, requested, rest⟩ := Program.returns_bind.mp before
      obtain ⟨_, closed, released, rest⟩ := Program.returns_bind.mp rest
      exact requested.bind (released.bind (ih rest))

theorem visits_cached {list : List Int} {bm' : BufferManager N DiskManager}
    (all : ∀ pageId ∈ list, bm.pageTable pageId ≠ none)
    (visited : (visits list).Returns bm ⟨⟩ bm') : bm'.pageTable = bm.pageTable := by
  induction list generalizing bm with
  | nil =>
      obtain ⟨_, rfl⟩ := (Program.returns_pure _ _ _ _).mp visited
      rfl
  | cons pageId rest ih =>
      obtain ⟨frame, cached⟩ := Option.ne_none_iff_exists'.mp (all pageId List.mem_cons_self)
      obtain ⟨_, opened, requested, visited⟩ := Program.returns_bind.mp visited
      obtain ⟨_, closed, released, visited⟩ := Program.returns_bind.mp visited
      obtain ⟨_, rfl⟩ := (request_hit bm pageId frame cached).value_eq requested
      obtain ⟨other, _, rfl⟩ := released_of_returns released
      exact @ih ((bm.accessed frame).released other)
        (fun other member => all other (List.mem_cons_of_mem _ member)) visited

theorem request_referenced {pageId : Int} {frame : Fin N} {bm' : BufferManager N DiskManager}
    (requested : (request pageId).Returns bm frame bm') : bm'.policy.refBits frame = true := by
  rcases request_cases bm pageId with ⟨found, _, returned⟩ | ⟨_, rest, found, _, returned⟩ |
    ⟨_, _, found, policy, _, returned⟩ | ⟨_, _, _, thrown⟩
  · obtain ⟨rfl, rfl⟩ := returned.value_eq requested
    simp [accessed, ClockPolicy.recordAccess]
  · obtain ⟨rfl, rfl⟩ := returned.value_eq requested
    simp [loaded, ClockPolicy.recordLoad]
  · obtain ⟨rfl, rfl⟩ := returned.value_eq requested
    simp [loaded, ClockPolicy.recordLoad]
  · cases thrown.symm.trans requested

theorem Steady.visit (steady : Steady bm view pins pages) {pageId : Int} (given : 0 ≤ pageId) :
    ∃ frame opened bm', (BufferManager.request pageId).Returns bm frame opened ∧
      Opened opened view pins pages pageId frame ∧
      (BufferManager.release pageId).Returns opened ⟨⟩ bm' ∧ Steady bm' view pins pages ∧
      Rested bm' pageId frame := by
  obtain ⟨frame, opened, requested, opens⟩ := steady.request given
  obtain ⟨lower, upper⟩ := steady.bounded pageId
  have count : (opened.pool frame).pinCount = pins pageId + 1 := by
    rw [← pins_cached opens.cached, opens.pinned, Function.update_self]
  have back : toInt32 ((opened.pool frame).pinCount - 1) = pins pageId := by
    rw [count, Int.add_sub_cancel]
    exact toInt32_of_bounds (by omega) (by omega)
  have left : ((opened.released frame).pool frame).pinCount = pins pageId := by
    simp only [released, Function.update_self, back]
  refine ⟨frame, opened, opened.released frame, requested, opens,
    release_pinned opened pageId frame opens.cached (by omega), opens.released_steady,
    opens.cached, by rw [left]; exact ⟨lower, upper⟩, ?_⟩
  rw [left]
  by_cases alone : pins pageId = 0
  · simp [released, back, alone, ClockPolicy.recordUnpin]
  · have several : 0 < pins pageId := by omega
    simp [released, back, alone, several, request_referenced requested]

end Visits

end RelationalDb.BufferManager
