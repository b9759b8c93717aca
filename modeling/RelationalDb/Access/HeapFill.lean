import RelationalDb.Access.HeapRuns
import RelationalDb.Storage.PoolFill

set_option autoImplicit false

namespace RelationalDb

open HeapFile
open SlottedPage (Layout Appended)

variable {N : Nat}

namespace BufferManager

variable {bm : BufferManager N DiskManager} {frame : Fin N}

theorem released_loaded {left : Nat} (filling : Filling bm (left + 1)) (inside : left < N)
    (pageId : Int) (page : Page) :
    ((({ bm with freeList := (List.finRange N).take left } : BufferManager N DiskManager).loaded
      pageId ⟨left, inside⟩).written ⟨left, inside⟩ page).released ⟨left, inside⟩ =
      (bm.touched pageId ⟨left, inside⟩).written ⟨left, inside⟩ page := by
  have pinned : toInt32 1 = 1 := by decide
  have unpinned : toInt32 0 = 0 := by decide
  have bits : Function.update bm.policy.refBits ⟨left, inside⟩ false = bm.policy.refBits := by
    rw [Function.update_eq_self_iff, filling.clear]
  simp [loaded, released, written, setFrame, touched, filling.unpinned, pinned, unpinned,
    ClockPolicy.recordLoad, ClockPolicy.recordUnpin, ClockPolicy.setRefBit, bits]

theorem Filling.written {left : Nat} (filling : Filling bm left) (page : Page) :
    Filling (bm.written frame page) left := by
  refine ⟨filling.free, filling.hand, filling.clear, fun other => ?_⟩
  by_cases same : other = frame
  · simp [BufferManager.written, setFrame, same, filling.unpinned]
  · simp [BufferManager.written, setFrame, same, filling.unpinned]

theorem Filling.release_read {left : Nat} (filling : Filling bm left) {pageId : Int}
    (cached : bm.pageTable pageId = some frame) :
    (release pageId).Returns (bm.accessed frame) ⟨⟩ bm := by
  have pinned : 0 < ((bm.accessed frame).pool frame).pinCount := by
    simp [accessed, filling.unpinned, show toInt32 1 = 1 by decide]
  have returned := release_pinned (bm.accessed frame) pageId frame cached pinned
  rwa [released_accessed (filling.unpinned frame) (filling.clear frame)] at returned

theorem Filling.release_written {left : Nat} (filling : Filling bm left) {pageId : Int}
    (cached : bm.pageTable pageId = some frame) (page : Page) :
    (release pageId).Returns ((bm.accessed frame).written frame page) ⟨⟩
      (bm.written frame page) := by
  have pinned : 0 < (((bm.accessed frame).written frame page).pool frame).pinCount := by
    simp [accessed, BufferManager.written, setFrame, filling.unpinned, show toInt32 1 = 1 by decide]
  have returned := release_pinned ((bm.accessed frame).written frame page) pageId frame cached
    pinned
  rwa [released_written (filling.unpinned frame) (filling.clear frame)] at returned

end BufferManager

open BufferManager (Filling)

theorem filling_visit {bm : BufferManager N DiskManager} {left : Nat} (filling : Filling bm left)
    {pageId : Int} {frame : Fin N} (cached : bm.pageTable pageId = some frame) :
    PageVisit bm pageId frame (bm.pool frame).data (bm.accessed frame) (fun bm' => bm' = bm)
      fun page bm' => bm' = bm.written frame page :=
  ⟨BufferManager.request_hit bm pageId frame cached, BufferManager.accessed_data bm frame,
    ⟨bm, filling.release_read cached, rfl⟩,
    fun page => ⟨_, filling.release_written cached page, rfl⟩⟩

/-- All frames from `left` on hold the first pages of as many heaps, and no page was
written back yet. -/
structure Filled (bm : BufferManager N DiskManager) (left : Nat) : Prop where
  filling : Filling bm left
  enough : left ≤ N
  next : bm.disk.nextPageId = N - left
  noneFree : bm.disk.freeList = []
  file : bm.disk.dbIo = File.empty
  fresh : ∀ pageId, (N : Int) - left ≤ pageId → bm.pageTable pageId = none
  newest : ∀ inside : left < N, bm.pageTable (N - left - 1) = some ⟨left, inside⟩ ∧
    ∃ raw, bm.pool ⟨left, inside⟩ = ⟨N - left - 1, 0, true, initHeapPage raw⟩

namespace Filled

theorem new [NeZero N] (raw : Fin N → Page) :
    Filled (BufferManager.new raw (DiskManager.openFile File.empty)) N := by
  refine ⟨BufferManager.new_filling raw _, Nat.le_refl N, ?_, rfl, rfl, fun _ _ => rfl, ?_⟩
  · show DiskManager.getNumPages File.empty = _
    rw [Int.sub_self]
    decide
  · intro inside
    omega

variable {bm : BufferManager N DiskManager} {left : Nat}

/-- Making a heap takes the next free frame. -/
theorem create (filled : Filled bm (left + 1)) (room : N < 2 ^ 31) (fileId : Uuid) :
    ∃ bm', (HeapFile.create fileId).Returns bm ⟨fileId, N - (left + 1 : Nat)⟩ bm' ∧
      Filled bm' left := by
  have inside : left < N := filled.enough
  let allocated : BufferManager N DiskManager :=
    { bm with disk := { bm.disk with nextPageId := N - left } }
  have given := allocatePage_takes filled.next filled.noneFree
  have next : toInt32 ((N : Int) - (left + 1 : Nat) + 1) = N - left := by
    rw [toInt32_of_bounds (by omega) (by omega)]
    omega
  rw [next] at given
  have filling : Filling allocated (left + 1) := ⟨filled.filling.free, filled.filling.hand,
    filled.filling.clear, filled.filling.unpinned⟩
  let frame : Fin N := ⟨left, inside⟩
  let pageId : Int := N - (left + 1 : Nat)
  have absent : allocated.pageTable pageId = none := filled.fresh pageId (Int.le_refl _)
  obtain ⟨_, _, _, touched⟩ := filling.touch inside absent
  have requested := BufferManager.request_free allocated pageId ((List.finRange N).take left) frame
    absent (by rw [filling.free, BufferManager.take_finRange_succ inside])
  let middle := ({ allocated with freeList := (List.finRange N).take left } :
    BufferManager N DiskManager).loaded pageId frame
  let page : Page := initHeapPage (middle.pool frame).data
  have released := BufferManager.release_pinned (middle.written frame page) pageId frame
    (Function.update_self _ _ _) (by
      simp [BufferManager.written, BufferManager.setFrame, middle, BufferManager.loaded,
        filling.unpinned, show toInt32 1 = 1 by decide])
  rw [BufferManager.released_loaded filling inside pageId page] at released
  have initialised : (initPage pageId : Heap N Unit).Returns allocated () _ :=
    requested.bind ((BufferManager.modifyData_returns middle frame initHeapPage).bind
      ((BufferManager.markDirty_returns middle frame initHeapPage).bind released))
  refine ⟨_, given.bind (initialised.bind (Program.pure_returns _ _)), ?_⟩
  have here : (N : Int) - left - 1 = pageId := by
    simp only [pageId, Int.natCast_add]
    omega
  refine ⟨touched.written page, Nat.le_of_lt inside, rfl, filled.noneFree, filled.file, ?_, ?_⟩
  · intro other above
    have apart : other ≠ pageId := by omega
    show Function.update bm.pageTable pageId (some frame) other = none
    rw [Function.update_of_ne apart]
    exact filled.fresh other (by omega)
  · intro inside'
    rw [here]
    refine ⟨Function.update_self _ _ _, (middle.pool frame).data, ?_⟩
    simp [BufferManager.written, BufferManager.setFrame, BufferManager.touched, frame, page]

end Filled

/-- All frames are in use, and the page that came last is in the first of them. -/
structure Newest (bm : BufferManager N DiskManager) (last : Int) (frame : Fin N) (page : Page) :
    Prop where
  filling : Filling bm 0
  first : frame.val = 0
  given : 0 ≤ last
  next : bm.disk.nextPageId = last + 1
  noneFree : bm.disk.freeList = []
  file : bm.disk.dbIo = File.empty
  fresh : bm.pageTable (last + 1) = none
  cached : bm.pageTable last = some frame
  held : bm.pool frame = ⟨last, 0, true, page⟩

/-- The pool after the newest page was linked to one behind it, which took its frame. -/
structure Grown (bm : BufferManager N DiskManager) (last : Int) (frame : Fin N)
    (lastPage page : Page) : Prop where
  filling : Filling bm 0
  first : frame.val = 0
  cached : bm.pageTable (last + 1) = some frame
  away : bm.pageTable last = none
  held : (bm.pool frame).data = page
  disk : ∃ disk : DiskManager, disk.dbIo = File.empty ∧ disk.nextPageId = last + 1 + 1 ∧
    bm.disk = writePage disk last lastPage

theorem Filled.newest_page [NeZero N] {bm : BufferManager N DiskManager} (filled : Filled bm 0) :
    ∃ raw, Newest bm (N - 1) ⟨0, Nat.pos_of_ne_zero (NeZero.ne N)⟩ (initHeapPage raw) := by
  have positive : 0 < N := Nat.pos_of_ne_zero (NeZero.ne N)
  have newest := filled.newest positive
  have next := filled.next
  have fresh := filled.fresh N
  simp only [Int.natCast_zero, Int.sub_zero] at newest next fresh
  obtain ⟨cached, raw, held⟩ := newest
  refine ⟨raw, filled.filling, rfl, by omega, by omega, filled.noneFree, filled.file, ?_, cached,
    held⟩
  rw [Int.sub_add_cancel]
  exact fresh (Int.le_refl _)

namespace Newest

variable {bm : BufferManager N DiskManager} {last : Int} {frame : Fin N} {page : Page}
  {data : List UInt8}

theorem valid (newest : Newest bm last frame page) : last ≠ invalidPageId := by
  rintro rfl
  exact absurd newest.given (by decide)

theorem visit (newest : Newest bm last frame page) :
    PageVisit bm last frame page (bm.accessed frame) (fun bm' => bm' = bm)
      fun page' bm' => bm' = bm.written frame page' := by
  have visits := filling_visit newest.filling newest.cached
  rwa [newest.held] at visits

theorem written (newest : Newest bm last frame page) (page' : Page) :
    Newest (bm.written frame page') last frame page' := by
  refine ⟨newest.filling.written page', newest.first, newest.given, newest.next, newest.noneFree,
    newest.file, newest.fresh, newest.cached, ?_⟩
  simp [BufferManager.written, BufferManager.setFrame, newest.held]

/-- The heap file of one page has its first page. -/
theorem ensured (newest : Newest bm last frame page) (fileId : Uuid) :
    (ensureFirstPage ⟨fileId, last⟩).Returns bm ⟨fileId, last⟩ bm := by
  simp only [ensureFirstPage, newest.valid, ↓reduceIte]
  exact Program.pure_returns _ _

section Insert

variable (newest : Newest bm last frame page) (layout : Layout page headerSize)
  (bounded : data.length < 2 ^ 63)

include newest layout bounded

theorem insert_here (fits : data.length + 4 ≤ SlottedPage.freeSpace page headerSize)
    (fileId : Uuid) :
    ∃ page', Appended page page' headerSize data ∧
      (HeapFile.insert ⟨fileId, last⟩ data).Returns bm
        (some ⟨last, SlottedPage.numSlots page headerSize⟩, ⟨fileId, last⟩)
        (bm.written frame page') := by
  rcases newest.visit.insertStep newest.valid layout bounded invalidPageId with
    ⟨_, page', bm', appended, placed, rfl⟩ | ⟨full, _⟩
  · refine ⟨page', appended, (newest.ensured fileId).bind (Program.Returns.bind ?_
      (Program.pure_returns _ _))⟩
    exact (Program.Returns.loop_exit placed).bind (Program.pure_returns _ _)
  · omega

theorem insertLoop_full (noRoom : SlottedPage.freeSpace page headerSize < data.length + 4)
    (alone : nextPageId page = invalidPageId) :
    Program.Returns (Program.loop (insertStep data) (last, invalidPageId)) bm (.inr last) bm := by
  rcases newest.visit.insertStep newest.valid layout bounded invalidPageId with
    ⟨fits, _⟩ | ⟨_, bm', turn, rfl⟩
  · omega
  · rw [alone] at turn
    have left : (insertStep data (invalidPageId, last)).Returns bm' (.inr (.inr last)) bm' := by
      simp only [insertStep, ↓reduceIte]
      exact Program.pure_returns _ _
    exact Program.Returns.loop_again turn (Program.Returns.loop_exit left)

end Insert

theorem fillNewPage_first {bm : BufferManager N DiskManager} (filling : Filling bm 0)
    (first : frame.val = 0) {pageId : Int} (absent : bm.pageTable pageId = none)
    (bounded : data.length < 2 ^ 63) :
    ∃ result page bm', (fillNewPage data pageId).Returns bm result bm' ∧
      FreshPage data pageId result page ∧ Filling bm' 0 ∧ (bm'.pool frame).data = page ∧
      bm'.pageTable = ((bm.evicted frame).loaded pageId frame).pageTable ∧
      bm'.disk = (bm.evicted frame).disk := by
  have requested := filling.request_first first absent
  let opened := (bm.evicted frame).loaded pageId frame
  let raw := (opened.pool frame).data
  have closes : ∀ page, ∃ bm', (BufferManager.release pageId).Returns (opened.written frame page) ⟨⟩
      bm' ∧ Filling bm' 0 ∧ (bm'.pool frame).data = page ∧ bm'.pageTable = opened.pageTable ∧
      bm'.disk = (bm.evicted frame).disk := by
    intro page
    obtain ⟨released, filling'⟩ := @Filling.release_first N DiskManager _ bm frame pageId filling
      (fun f => { f with data := page, dirty := true }) fun _ => rfl
    refine ⟨_, released, filling', ?_, rfl, rfl⟩
    simp [BufferManager.released, BufferManager.setFrame]
  have read := (@Filling.release_first N DiskManager _ bm frame pageId filling id fun _ => rfl).1
  rw [show opened.setFrame frame id = opened by simp [BufferManager.setFrame]] at read
  have visit : PageVisit bm pageId frame raw opened (fun _ => True) fun page bm' =>
      Filling bm' 0 ∧ (bm'.pool frame).data = page ∧ bm'.pageTable = opened.pageTable ∧
        bm'.disk = (bm.evicted frame).disk :=
    ⟨requested, rfl, ⟨_, read, trivial⟩, closes⟩
  exact visit.fillNewPage bounded

/-- A record that does not fit makes the heap grow: the write-back of the page, which leads to the
new one, comes first. -/
theorem insert_next (newest : Newest bm last frame page) (layout : Layout page headerSize)
    (bounded : data.length < 2 ^ 63)
    (noRoom : SlottedPage.freeSpace page headerSize < data.length + 4)
    (alone : nextPageId page = invalidPageId) (room : last + 1 + 1 < 2 ^ 31) (fileId : Uuid) :
    ∃ result page' bm',
      (HeapFile.insert ⟨fileId, last⟩ data).Returns bm (result, ⟨fileId, last⟩) bm' ∧
      FreshPage data (last + 1) result page' ∧
      Grown bm' last frame (setNextPageId page (last + 1)) page' := by
  have lower := newest.given
  have given := allocatePage_takes newest.next newest.noneFree
  rw [toInt32_of_bounds (by omega) room] at given
  let allocated : BufferManager N DiskManager :=
    { bm with disk := { bm.disk with nextPageId := last + 1 + 1 } }
  have filling : Filling allocated 0 := ⟨newest.filling.free, newest.filling.hand,
    newest.filling.clear, newest.filling.unpinned⟩
  let link : Page → Page := fun page => setNextPageId page (last + 1)
  have visit := filling_visit filling newest.cached
  rw [show (allocated.pool frame).data = page from congrArg Frame.data newest.held] at visit
  obtain ⟨_, links, rfl⟩ := visit.linkNewPage data (last + 1)
  obtain ⟨result, page', bm', filled, fresh, filling', data', table, disk⟩ :=
    fillNewPage_first (filling.written (link page)) newest.first newest.fresh bounded
  have linked : (linkNewPage data last (last + 1)).Returns allocated result bm' :=
    links.trans filled
  have looped := newest.insertLoop_full layout bounded noRoom alone
  refine ⟨result, page', bm', (newest.ensured fileId).bind ((looped.bind (given.bind linked)).bind
    (Program.pure_returns _ _)), fresh, filling', newest.first, ?_, ?_, data',
    allocated.disk, newest.file, rfl, ?_⟩
  · rw [table]
    exact Function.update_self _ _ _
  · have name : ((allocated.written frame (link page)).pool frame).pageId = last := by
      simp [BufferManager.written, BufferManager.setFrame, allocated, newest.held]
    rw [table]
    simp only [BufferManager.loaded]
    rw [Function.update_of_ne (by omega), BufferManager.evicted_pageTable,
      if_pos ⟨name.symm, newest.valid⟩]
  · rw [disk]
    simp [BufferManager.evicted, BufferManager.written, BufferManager.setFrame, allocated,
      newest.held, link]

end Newest

theorem Newest.unwrapped {bm : BufferManager N DiskManager} {last : Int} {frame : Fin N}
    {page : Page} (newest : Newest bm last frame page) : 0 ≤ nextAllocated bm := by
  have lower := newest.given
  rw [nextAllocated, newest.next]
  omega

theorem Grown.next {bm : BufferManager N DiskManager} {last : Int} {frame : Fin N}
    {lastPage page : Page} (grown : Grown bm last frame lastPage page) :
    nextAllocated bm = last + 1 + 1 := by
  obtain ⟨disk, _, next, written⟩ := grown.disk
  rw [nextAllocated, written]
  exact (DiskManager.writePage_nextPageId _ _ _).trans next

theorem Grown.unwrapped {bm : BufferManager N DiskManager} {last : Int} {frame : Fin N}
    {lastPage page : Page} (grown : Grown bm last frame lastPage page) (given : 0 ≤ last) :
    0 ≤ nextAllocated bm := by
  rw [grown.next]
  omega

namespace World

/-- The calls that make some heaps. -/
def creates : Nat → List HeapEvent
  | 0 => []
  | made + 1 => ⟨.create fun _ => 0, .ok (.made made)⟩ :: creates made

/-- As many heaps as there are frames. -/
theorem fill_run [NeZero N] (raw : Fin N → Page) (room : N < 2 ^ 31) {made : Nat} (some : made ≤ N) :
    ∃ w, HeapRun GivenRids (start raw File.empty) (creates made) w ∧ Filled w.bm (N - made) ∧
      w.heaps = (List.range made).map fun first => ⟨fun _ => 0, (first : Int)⟩ := by
  induction made with
  | zero => exact ⟨_, .nil, Filled.new raw, rfl⟩
  | succ made ih =>
      obtain ⟨w, run, filled, heaps⟩ := ih (Nat.le_of_succ_le some)
      have left : N - made = N - (made + 1) + 1 := by omega
      rw [left] at filled
      obtain ⟨bm', created, filled'⟩ := filled.create room fun _ => 0
      have first : (N : Int) - (N - (made + 1) + 1 : Nat) = made := by omega
      rw [first] at created
      have ended : (HeapOp.create fun _ => 0).run.Returns w (.made made)
          ⟨bm', w.heaps ++ [⟨fun _ => 0, made⟩]⟩ := by
        refine (onPool_returns created).bind ?_
        rw [show HeapAnswer.made made = .made w.heaps.length by rw [heaps]; simp]
        rfl
      have unwrapped : 0 ≤ nextAllocated bm' := by
        rw [nextAllocated, filled'.next]
        omega
      refine ⟨_, run.cons ⟨ended, trivial, unwrapped⟩, filled', ?_⟩
      rw [heaps, List.range_succ, List.map_append, List.map_singleton]

theorem fill_newest [NeZero N] (raw : Fin N → Page) (room : N < 2 ^ 31) :
    ∃ (w : World N) (page : Page), HeapRun GivenRids (start raw File.empty) (creates N) w ∧
      Newest w.bm (N - 1) ⟨0, Nat.pos_of_ne_zero (NeZero.ne N)⟩ (initHeapPage page) ∧
      w.heaps[N - 1]? = some ⟨fun _ => 0, N - 1⟩ := by
  have positive : 0 < N := Nat.pos_of_ne_zero (NeZero.ne N)
  obtain ⟨w, run, filled, heaps⟩ := fill_run raw room (Nat.le_refl N)
  rw [Nat.sub_self] at filled
  obtain ⟨page, newest⟩ := filled.newest_page
  refine ⟨w, page, run, newest, ?_⟩
  rw [heaps, List.getElem?_map, List.getElem?_range (by omega), Option.map_some]
  congr 2
  omega

theorem insert_extends {start w : World N} {guard : List HeapEvent → HeapOp → Prop}
    {log : List HeapEvent} {i : Nat} {heap : HeapFile} {data : List UInt8} {result : Option Rid}
    {bm' : BufferManager N DiskManager} (run : HeapRun guard start log w)
    (present : w.heaps[i]? = some heap) (guarded : guard log (.insert i data))
    (inserted : (HeapFile.insert heap data).Returns w.bm (result, heap) bm')
    (unwrapped : 0 ≤ nextAllocated bm') :
    HeapRun guard start (⟨.insert i data, .ok (.placed result)⟩ :: log) ⟨bm', w.heaps⟩ := by
  obtain ⟨bound, here⟩ := List.getElem?_eq_some_iff.mp present
  have ended := insert_runs present inserted
  rw [← here, List.set_getElem_self bound] at ended
  exact run.cons ⟨ended, guarded, unwrapped⟩

theorem long_run [NeZero N] (raw : Fin N → Page) (room : N + 1 < 2 ^ 31) {data : List UInt8}
    (bounded : data.length < 2 ^ 63) (long : 8176 < data.length) :
    ∃ (w : World N) (disk : DiskManager) (page : Page),
      HeapRun GivenRids (start raw File.empty)
        (⟨.insert (N - 1) data, .ok (.placed none)⟩ :: creates N) w ∧
      w.heaps[N - 1]? = some ⟨fun _ => 0, N - 1⟩ ∧ disk.dbIo = File.empty ∧
      w.bm.disk = writePage disk (N - 1) (setNextPageId page N) := by
  obtain ⟨w, page, run, newest, present⟩ := fill_newest raw (by omega)
  obtain ⟨result, page', bm', inserted, fresh, grown⟩ := newest.insert_next
    (initHeapPage_layout page) bounded (by rw [initHeapPage_freeSpace]; omega)
    (initHeapPage_nextPageId page) (by omega) fun _ => 0
  have refused := fresh.result_eq
  rw [if_neg (by omega)] at refused
  subst refused
  obtain ⟨disk, empty, _, written⟩ := grown.disk
  rw [Int.sub_add_cancel] at written
  exact ⟨_, disk, initHeapPage page, insert_extends run present bounded inserted
    (grown.unwrapped newest.given), present, empty, written⟩

end World

/-- A heap of two pages with one record of the same length on each. -/
structure TwoPages (view : Int → Option Page) (last : Int) (former latter : List UInt8) :
    Prop where
  bounds : 0 ≤ last ∧ last + 1 < 2 ^ 31
  nonempty : former ≠ [] ∧ latter ≠ []
  length : former.length = latter.length
  fits : former.length ≤ 8176
  front : ∃ raw page, Appended (initHeapPage raw) page headerSize former ∧
    view last = some (setNextPageId page (last + 1))
  back : ∃ raw page, Appended (initHeapPage raw) page headerSize latter ∧
    view (last + 1) = some page

namespace TwoPages

variable {view : Int → Option Page} {last : Int} {former latter : List UInt8}

theorem layout {raw page : Page} {data : List UInt8}
    (appended : Appended (initHeapPage raw) page headerSize data) (fits : data.length ≤ 8176) :
    Layout page headerSize := by
  apply appended.layout (initHeapPage_layout raw)
  rw [initHeapPage_freeSpace]
  omega

theorem linked (two : TwoPages view last former latter) : Chain view last [last, last + 1] := by
  obtain ⟨⟨lower, upper⟩, _, length, fits, ⟨raw, page, appended, known⟩,
    raw', page', appended', known'⟩ := two
  have behind : nextPageId page' = invalidPageId := by
    rw [nextPageId_of_below appended'.below, initHeapPage_nextPageId]
  refine .cons lower known (setNextPageId_layout _ _ (layout appended fits)) ?_
  rw [nextPageId_setNextPageId _ _ (by omega) upper]
  refine .cons (by omega) known' (layout appended' (by omega)) ?_
  rw [behind]
  exact .nil

end TwoPages

namespace World

/-- Two records in the last of as many heaps as there are frames, too long for one page. -/
theorem two_run [NeZero N] (raw : Fin N → Page) (room : N + 1 < 2 ^ 31) {former latter : List UInt8}
    (nonempty : former ≠ [] ∧ latter ≠ []) (length : former.length = latter.length)
    (fits : former.length ≤ 8176) (long : 4088 < former.length) :
    ∃ (w : World N) (page page' : Page),
      HeapRun GivenRids (start raw File.empty)
        (⟨.insert (N - 1) latter, .ok (.placed (some ⟨N, 0⟩))⟩ ::
          ⟨.insert (N - 1) former, .ok (.placed (some ⟨N - 1, 0⟩))⟩ :: creates N) w ∧
      w.heaps[N - 1]? = some ⟨fun _ => 0, N - 1⟩ ∧
      Grown w.bm (N - 1) ⟨0, Nat.pos_of_ne_zero (NeZero.ne N)⟩ page page' ∧
      TwoPages w.bm.contents (N - 1) former latter := by
  obtain ⟨w, empty, run, newest, present⟩ := fill_newest raw (by omega)
  have lower := newest.given
  have layout := initHeapPage_layout empty
  have space := initHeapPage_freeSpace empty
  obtain ⟨page, appended, inserted⟩ :=
    newest.insert_here layout (show former.length < 2 ^ 63 by omega) (by omega) fun _ => 0
  have newest' := newest.written page
  have run' := insert_extends run present (show former.length < 2 ^ 63 by omega) inserted
    newest'.unwrapped
  have left := appended.freeSpace layout (by omega)
  have alone : nextPageId page = invalidPageId := by
    rw [nextPageId_of_below appended.below, initHeapPage_nextPageId]
  obtain ⟨result, page', bm', inserted', fresh, grown⟩ := newest'.insert_next
    (appended.layout layout (by omega)) (show latter.length < 2 ^ 63 by omega) (by omega) alone
    (by omega) fun _ => 0
  have run'' := insert_extends run' present (show latter.length < 2 ^ 63 by omega) inserted'
    (grown.unwrapped lower)
  have whole : (N : Int) - 1 + 1 = N := Int.sub_add_cancel _ _
  obtain ⟨disk, _, _, written⟩ := grown.disk
  have front : bm'.contents (N - 1) = some (setNextPageId page (N - 1 + 1)) := by
    rw [BufferManager.contents_uncached grown.away, written]
    exact stored_writePage disk _ _ lower
  have back : bm'.contents (N - 1 + 1) = some page' := by
    simp only [BufferManager.contents, grown.cached, grown.held]
  cases fresh with
  | tooLong tooLong => omega
  | @placed raw' _ small appended' =>
      rw [initHeapPage_numSlots] at run''
      refine ⟨⟨bm', w.heaps⟩, setNextPageId page (N - 1 + 1), page', ?_, present, grown,
        ⟨lower, by omega⟩, nonempty, length, fits, ⟨empty, page, appended, front⟩, raw', page',
        appended', back⟩
      rwa [whole] at run''

end World

end RelationalDb
