import RelationalDb.Access.HeapVisit
import RelationalDb.Storage.PoolSharing

set_option autoImplicit false

namespace RelationalDb.HeapFile

open SlottedPage (Layout Appended Rewritten)
open BufferManager

variable {N : Nat} {bm : BufferManager N DiskManager} {view : Int → Option Page}
  {pins : Int → Int} {pages : Int}

theorem allocatePage_takes (next : bm.disk.nextPageId = pages) (noneFree : bm.disk.freeList = []) :
    allocatePage.Returns bm pages
      { bm with disk := { bm.disk with nextPageId := toInt32 (pages + 1) } } := by
  have disk : DiskManager.allocatePage bm.disk =
      (pages, { bm.disk with nextPageId := toInt32 (pages + 1) }) := by
    simp only [DiskManager.allocatePage, noneFree, List.getLast?_nil, next]
  simp [Program.Returns, allocatePage, modifyGet, MonadStateOf.modifyGet, disk]

theorem allocatePage_returns (steady : Steady bm view pins pages) (more : pages + 1 < 2 ^ 31) :
    ∃ bm', allocatePage.Returns bm pages bm' ∧ Steady bm' view pins (pages + 1) := by
  have lower := steady.allocated.lower
  have returned := allocatePage_takes steady.allocated.next steady.allocated.noneFree
  rw [toInt32_of_bounds (by omega) more] at returned
  exact ⟨_, returned, (steady.settled.allocate more).steady steady.evictable⟩

theorem allocatePage_pageTable {bm' : BufferManager N DiskManager} {pageId : Int}
    (returned : allocatePage.Returns bm pageId bm') : bm'.pageTable = bm.pageTable := by
  simp only [Program.Returns, allocatePage, modifyGet, MonadStateOf.modifyGet, Option.some.injEq,
    Prod.mk.injEq] at returned
  rw [← returned.2]

theorem steady_visit (steady : Steady bm view pins pages) {pageId : Int} (given : 0 ≤ pageId) :
    ∃ frame page opened, PageVisit bm pageId frame page opened
        (fun bm' => Steady bm' view pins pages ∧ bm'.pageTable pageId = some frame)
        (fun page' bm' => pageId < pages →
          Steady bm' (Function.update view pageId (some page')) pins pages) ∧
      ∀ known, view pageId = some known → page = known := by
  obtain ⟨frame, bm₁, requested, opened⟩ := steady.request given
  refine ⟨frame, _, bm₁, ⟨requested, rfl, ?_, fun page' => ?_⟩, fun _ => opened.data_eq⟩
  · obtain ⟨bm', released, steady', table, _⟩ := opened.release
    exact ⟨bm', released, steady', by rw [table, opened.cached]⟩
  · have count : 0 < (bm₁.pool frame).pinCount := by
      have small := opened.bounded pageId
      rw [← pins_cached opened.cached, opened.pinned, Function.update_self]
      omega
    have released := release_pinned (bm₁.written frame page') pageId frame opened.cached
      (by rw [written_pinCount]; exact count)
    exact ⟨_, released, fun inside => (opened.write inside page').released_steady⟩

theorem initPage_returns (steady : Steady bm view pins pages) {pageId : Int} (given : 0 ≤ pageId)
    (inside : pageId < pages) :
    ∃ raw bm', (initPage pageId).Returns bm () bm' ∧
      Steady bm' (Function.update view pageId (some (initHeapPage raw))) pins pages := by
  obtain ⟨_, raw, _, visit, _⟩ := steady_visit steady given
  obtain ⟨bm', returned, stored⟩ := visit.initPage
  exact ⟨raw, bm', returned, stored inside⟩

theorem create_returns (steady : Steady bm view pins pages) (more : pages + 1 < 2 ^ 31)
    (fileId : Uuid) :
    ∃ raw bm', (create fileId).Returns bm ⟨fileId, pages⟩ bm' ∧
      Steady bm' (Function.update view pages (some (initHeapPage raw))) pins (pages + 1) := by
  obtain ⟨bm₁, allocated, steady₁⟩ := allocatePage_returns steady more
  obtain ⟨raw, bm', initialised, steady'⟩ :=
    initPage_returns steady₁ steady.allocated.lower (by omega)
  exact ⟨raw, bm', allocated.bind (initialised.bind (Program.pure_returns _ _)),
    steady'⟩

/-- What a `Get` returned: where the record lies and what its frame holds. -/
structure Fetched (bm : BufferManager N DiskManager) (page : Page) (rid : Rid)
    (result : Option (Record N)) : Prop where
  none_iff : result = none ↔ SlottedPage.get page headerSize rid.slotId = none
  found : ∀ record, result = some record → record.rid = rid ∧
    SlottedPage.get page headerSize rid.slotId = some (record.offset, record.size) ∧
    bm.pageTable rid.pageId = some record.frame ∧ (bm.pool record.frame).data = page

/-- The bytes behind a fetched record are the stored ones, until the next call. -/
theorem Fetched.bytes {page : Page} {rid : Rid} {result : Option (Record N)}
    (fetched : Fetched bm page rid result) :
    result.map (·.bytes bm) = SlottedPage.record page headerSize rid.slotId := by
  cases result with
  | none =>
      have absent := fetched.none_iff.mp rfl
      simp only [SlottedPage.record, absent, Option.map_none]
  | some record =>
      obtain ⟨_, span, _, data⟩ := fetched.found record rfl
      simp only [SlottedPage.record, span, Option.map_some, Record.bytes, data]

theorem get_returns (steady : Steady bm view pins pages) {rid : Rid} {page : Page}
    (given : 0 ≤ rid.pageId) (present : view rid.pageId = some page) :
    ∃ result bm', (get rid).Returns bm result bm' ∧ Steady bm' view pins pages ∧
      Fetched bm' page rid result := by
  obtain ⟨frame, page', opened, visit, same⟩ := steady_visit steady given
  obtain rfl := same page present
  obtain ⟨bm', returned, ⟨steady', cached⟩, held⟩ := visit.get
  refine ⟨_, bm', returned, steady', Option.map_eq_none_iff, ?_⟩
  intro record found
  obtain ⟨place, span, rfl⟩ := Option.map_eq_some_iff.mp found
  exact ⟨rfl, span, cached, held⟩

theorem edit_returns (steady : Steady bm view pins pages) {pageId : Int} {page : Page}
    (change : Page → Bool × Page) (given : 0 ≤ pageId) (inside : pageId < pages)
    (present : view pageId = some page) (refused : (change page).1 = false → (change page).2 = page) :
    ∃ bm', (edit pageId change).Returns bm (change page).1 bm' ∧
      Steady bm' (if (change page).1 then Function.update view pageId (some (change page).2)
        else view) pins pages := by
  obtain ⟨frame, page', opened, visit, same⟩ := steady_visit steady given
  obtain rfl := same page present
  obtain ⟨bm', returned, after⟩ := visit.edit change refused
  refine ⟨bm', returned, ?_⟩
  split
  · rename_i done
    rw [if_pos done] at after
    exact after inside
  · rename_i undone
    rw [if_neg undone] at after
    exact after.1

/-- How an update or a deletion ends: refused, or with one record rewritten. -/
inductive Changed (view : Int → Option Page) (rid : Rid) (data : List UInt8) :
    Bool → (Int → Option Page) → Prop
  | refused : Changed view rid data false view
  | rewritten {page page' : Page} (present : view rid.pageId = some page)
      (inside : rid.slotId < SlottedPage.numSlots page headerSize)
      (rewrites : Rewritten page page' headerSize rid.slotId data) :
      Changed view rid data true (Function.update view rid.pageId (some page'))

theorem Changed.link {view' : Int → Option Page} {rid : Rid} {data : List UInt8}
    {success : Bool} (changed : Changed view rid data success view') :
    view' = view ∨ ∃ page page', view rid.pageId = some page ∧
      Rewritten page page' headerSize rid.slotId data ∧
      view' = Function.update view rid.pageId (some page') := by
  cases changed with
  | refused => exact Or.inl rfl
  | rewritten present inside rewrites => exact Or.inr ⟨_, _, present, rewrites, rfl⟩

/-- `Update` on the slotted page of a record id. -/
theorem update_changed {rid : Rid} {page : Page} (present : view rid.pageId = some page)
    (layout : Layout page headerSize) (data : List UInt8) :
    ((SlottedPage.update page headerSize rid.slotId data).1 = false →
      (SlottedPage.update page headerSize rid.slotId data).2 = page) ∧
    Changed view rid data (SlottedPage.update page headerSize rid.slotId data).1
      (if (SlottedPage.update page headerSize rid.slotId data).1 then
        Function.update view rid.pageId (some (SlottedPage.update page headerSize rid.slotId data).2)
      else view) := by
  rcases SlottedPage.update_cases page headerSize rid.slotId data layout with
    refused | ⟨slotInside, _, page', done, rewrites⟩
  · rw [refused]
    exact ⟨fun _ => rfl, .refused⟩
  · rw [done]
    exact ⟨nofun, .rewritten present slotInside rewrites⟩

theorem delete_changed {rid : Rid} {page : Page} (present : view rid.pageId = some page)
    (layout : Layout page headerSize) :
    ((SlottedPage.delete page headerSize rid.slotId).1 = false →
      (SlottedPage.delete page headerSize rid.slotId).2 = page) ∧
    Changed view rid [] (SlottedPage.delete page headerSize rid.slotId).1
      (if (SlottedPage.delete page headerSize rid.slotId).1 then
        Function.update view rid.pageId (some (SlottedPage.delete page headerSize rid.slotId).2)
      else view) ∧
    ((SlottedPage.delete page headerSize rid.slotId).1 = true ↔
      rid.slotId < SlottedPage.numSlots page headerSize) := by
  by_cases slotInside : rid.slotId < SlottedPage.numSlots page headerSize
  · obtain ⟨page', done, rewrites⟩ := SlottedPage.delete_rewritten page headerSize rid.slotId layout
      slotInside
    rw [done]
    exact ⟨nofun, .rewritten present slotInside rewrites,
      iff_of_true rfl slotInside⟩
  · have refused : SlottedPage.delete page headerSize rid.slotId = (false, page) := by
      simp only [SlottedPage.delete, Nat.le_of_not_lt slotInside, ↓reduceIte]
    rw [refused]
    exact ⟨fun _ => rfl, .refused, iff_of_false Bool.false_ne_true slotInside⟩

theorem update_returns (steady : Steady bm view pins pages) {rid : Rid} {page : Page}
    (given : 0 ≤ rid.pageId) (inside : rid.pageId < pages) (present : view rid.pageId = some page)
    (layout : Layout page headerSize) (data : List UInt8) :
    ∃ done view' bm', (update data rid).Returns bm done bm' ∧ Steady bm' view' pins pages ∧
      Changed view rid data done view' := by
  obtain ⟨same, changed⟩ := update_changed present layout data
  obtain ⟨bm', returned, steady'⟩ :=
    edit_returns steady (fun page => SlottedPage.update page headerSize rid.slotId data) given inside
      present same
  exact ⟨_, _, bm', returned, steady', changed⟩

theorem delete_returns (steady : Steady bm view pins pages) {rid : Rid} {page : Page}
    (given : 0 ≤ rid.pageId) (inside : rid.pageId < pages) (present : view rid.pageId = some page)
    (layout : Layout page headerSize) :
    ∃ done view' bm', (delete rid).Returns bm done bm' ∧ Steady bm' view' pins pages ∧
      Changed view rid [] done view' ∧
      (done = true ↔ rid.slotId < SlottedPage.numSlots page headerSize) := by
  obtain ⟨same, changed, success_iff⟩ := delete_changed present layout
  obtain ⟨bm', returned, steady'⟩ :=
    edit_returns steady (fun page => SlottedPage.delete page headerSize rid.slotId) given inside
      present same
  exact ⟨_, _, bm', returned, steady', changed, success_iff⟩

/-- A page of the view has room for a record and its slot. -/
def room (view : Int → Option Page) (data : List UInt8) (pageId : Int) : Bool :=
  match view pageId with
  | some page => data.length + 4 ≤ SlottedPage.freeSpace page headerSize
  | none => false

theorem room_iff {data : List UInt8} {pageId : Int} {page : Page}
    (present : view pageId = some page) :
    room view data pageId = true ↔ data.length + 4 ≤ SlottedPage.freeSpace page headerSize := by
  simp only [room, present, decide_eq_true_eq]

/-- A turn of the page loop places the record or goes on to the next page. -/
theorem insertStep_returns {data : List UInt8} (bounded : data.length < 2 ^ 63)
    (steady : Steady bm view pins pages) {pageId : Int} {page : Page} (given : 0 ≤ pageId)
    (inside : pageId < pages) (present : view pageId = some page) (layout : Layout page headerSize)
    (last : Int) :
    (room view data pageId = true ∧ ∃ page' bm', Appended page page' headerSize data ∧
      (insertStep data (pageId, last)).Returns bm
        (.inr (.inl ⟨pageId, SlottedPage.numSlots page headerSize⟩)) bm' ∧
      Steady bm' (Function.update view pageId (some page')) pins pages) ∨
    (room view data pageId = false ∧ ∃ bm',
      (insertStep data (pageId, last)).Returns bm (.inl (nextPageId page, pageId)) bm' ∧
      Steady bm' view pins pages) := by
  have valid : pageId ≠ invalidPageId := by
    rintro rfl
    exact absurd given (by decide)
  obtain ⟨frame, page', opened, visit, same⟩ := steady_visit steady given
  obtain rfl := same page present
  rcases visit.insertStep valid layout bounded last with
    ⟨fits, page', bm', appended, turn, stored⟩ | ⟨full, bm', turn, steady', _⟩
  · exact Or.inl ⟨(room_iff present).mpr fits, page', bm', appended, turn, stored inside⟩
  · refine Or.inr ⟨?_, bm', turn, steady'⟩
    rw [← Bool.not_eq_true, room_iff present]
    exact Nat.not_le.mpr full

/-- The page loop of `Insert` puts the record into the first page with room, or
leaves with the last page of the chain. -/
theorem insertLoop_returns {data : List UInt8} (bounded : data.length < 2 ^ 63) {first : Int}
    {chain : List Int} (linked : Chain view first chain) (inside : ∀ pageId ∈ chain, pageId < pages)
    (steady : Steady bm view pins pages) (last : Int) :
    match chain.find? (room view data) with
    | some pageId => ∃ page page' bm', view pageId = some page ∧
        Appended page page' headerSize data ∧
        Program.Returns (Program.loop (insertStep data) (first, last)) bm
          (.inl ⟨pageId, SlottedPage.numSlots page headerSize⟩) bm' ∧
        Steady bm' (Function.update view pageId (some page')) pins pages
    | none => ∃ bm', Program.Returns (Program.loop (insertStep data) (first, last)) bm
        (.inr ((chain.getLast?).getD last)) bm' ∧ Steady bm' view pins pages := by
  induction linked generalizing bm last with
  | nil =>
      refine ⟨bm, Program.Returns.loop_exit ?_, steady⟩
      simp only [insertStep, ↓reduceIte]
      exact Program.pure_returns _ _
  | @cons pageId page rest given present layout linked ih =>
      rcases insertStep_returns bounded steady given (inside pageId List.mem_cons_self) present layout
        last with ⟨fits, page', bm', appended, turn, steady'⟩ | ⟨full, bm₂, turn, steady₂⟩
      · rw [List.find?_cons_of_pos fits]
        exact ⟨page, page', bm', present, appended, Program.Returns.loop_exit turn, steady'⟩
      · have rest := ih (fun other member => inside other (List.mem_cons_of_mem _ member)) steady₂
          pageId
        rw [List.find?_cons_of_neg (by rw [full]; exact Bool.false_ne_true)]
        split at rest
        · rename_i found
          obtain ⟨other, other', bm', known, appended, ended, steady'⟩ := rest
          exact ⟨other, other', bm', known, appended, Program.Returns.loop_again turn ended, steady'⟩
        · rename_i missing
          obtain ⟨bm', ended, steady'⟩ := rest
          refine ⟨bm', ?_, steady'⟩
          have lastEq : ((pageId :: rest).getLast?).getD last = (rest.getLast?).getD pageId := by
            rw [List.getLast?_cons]
            rfl
          rw [lastEq]
          exact Program.Returns.loop_again turn ended

theorem fillNewPage_returns {data : List UInt8} (bounded : data.length < 2 ^ 63)
    (steady : Steady bm view pins pages) {pageId : Int} (given : 0 ≤ pageId)
    (inside : pageId < pages) :
    ∃ result page bm', (fillNewPage data pageId).Returns bm result bm' ∧
      FreshPage data pageId result page ∧
      Steady bm' (Function.update view pageId (some page)) pins pages := by
  obtain ⟨_, _, _, visit, _⟩ := steady_visit steady given
  obtain ⟨result, page, bm', returned, fresh, stored⟩ := visit.fillNewPage bounded
  exact ⟨result, page, bm', returned, fresh, stored inside⟩

theorem insertInNewPage_returns {data : List UInt8} (bounded : data.length < 2 ^ 63)
    (steady : Steady bm view pins pages) (more : pages + 1 < 2 ^ 31) {last : Int} {lastPage : Page}
    (given : 0 ≤ last) (inside : last < pages) (present : view last = some lastPage) :
    ∃ result page bm', (insertInNewPage data last).Returns bm result bm' ∧
      FreshPage data pages result page ∧
      Steady bm' (Function.update (Function.update view last (some (setNextPageId lastPage pages)))
        pages (some page)) pins (pages + 1) := by
  have lower := steady.allocated.lower
  obtain ⟨bm₁, allocated, steady₁⟩ := allocatePage_returns steady more
  obtain ⟨_, page', _, visit, same⟩ := steady_visit steady₁ given
  obtain rfl := same lastPage present
  obtain ⟨bm₂, linked, steady₂⟩ := visit.linkNewPage data pages
  obtain ⟨result, page, bm', filled, fresh, steady'⟩ :=
    fillNewPage_returns bounded (steady₂ (by omega)) lower (by omega)
  refine ⟨result, page, bm', allocated.bind ?_, fresh, steady'⟩
  exact linked.trans filled

/-- The page id the disk manager hands out next. -/
def nextAllocated (bm : BufferManager N DiskManager) : Int := bm.disk.nextPageId

/-- The state `AllocatePage` takes page ids from. -/
def allocation (bm : BufferManager N DiskManager) : Int × List Int :=
  (bm.disk.nextPageId, bm.disk.freeList)

theorem request_keeps (pageId : Int) :
    Program.Keeps (request pageId : Heap N (Fin N)) allocation := by
  intro bm outcome bm' ended
  rcases request_cases bm pageId with ⟨frame, _, returned⟩ | ⟨_, rest, frame, _, returned⟩ |
    ⟨_, _, frame, policy, _, returned⟩ | ⟨_, _, _, thrown⟩
  · rw [returned] at ended
    cases ended
    rfl
  · rw [returned] at ended
    cases ended
    rfl
  · rw [returned] at ended
    cases ended
    by_cases dirty : (bm.pool frame).dirty = true
    · have disk : (((bm.setPolicy policy).evicted frame).loaded pageId frame).disk =
          writePage bm.disk (bm.pool frame).pageId (bm.pool frame).data := by
        simp [loaded, evicted, setPolicy, dirty]
      rw [allocation, disk]
      exact Prod.ext (DiskManager.writePage_nextPageId _ _ _) (DiskManager.writePage_freeList _ _ _)
    · simp [allocation, loaded, evicted, setPolicy, dirty]
  · rw [thrown] at ended
    cases ended
    rfl

theorem release_keeps (pageId : Int) :
    Program.Keeps (release pageId : Heap N Unit) allocation := by
  intro bm outcome bm' ended
  cases cached : bm.pageTable pageId with
  | none =>
      rw [release_uncached bm pageId cached] at ended
      cases ended
      rfl
  | some frame =>
      by_cases pinned : 0 < (bm.pool frame).pinCount
      · rw [release_pinned bm pageId frame cached pinned] at ended
        cases ended
        rfl
      · rw [release_unpinned bm pageId frame cached (by omega)] at ended
        cases ended
        rfl

theorem modifyData_keeps (frame : Fin N) (change : Page → Page) :
    Program.Keeps (modifyData frame change : Heap N Unit) allocation :=
  .modify fun _ => rfl

theorem markDirty_keeps (frame : Fin N) :
    Program.Keeps (markDirty frame : Heap N Unit) allocation :=
  .modify fun _ => rfl

theorem readData_keeps (frame : Fin N) :
    Program.Keeps (readData frame : Heap N Page) allocation := by
  intro bm outcome bm' ended
  cases ended
  rfl

theorem initPage_keeps (pageId : Int) :
    Program.Keeps (initPage pageId : Heap N Unit) allocation := by
  unfold initPage
  refine (request_keeps pageId).bind fun frame => ?_
  refine (modifyData_keeps frame initHeapPage).bind fun _ => ?_
  exact (markDirty_keeps frame).bind fun _ => release_keeps pageId

theorem insertInto_keeps (frame : Fin N) (data : List UInt8) :
    Program.Keeps (insertInto frame data : Heap N (Option Nat)) allocation := by
  unfold insertInto
  refine (readData_keeps frame).bind fun page => ?_
  rcases SlottedPage.insert page headerSize data with ⟨slotId, page'⟩
  exact (modifyData_keeps frame fun _ => page').bind fun _ => .pure slotId

theorem insertStep_keeps (data : List UInt8) (current : Int × Int) :
    Program.Keeps (insertStep data current : Heap N ((Int × Int) ⊕ (Rid ⊕ Int))) allocation := by
  obtain ⟨pageId, last⟩ := current
  unfold insertStep
  by_cases invalid : pageId = invalidPageId
  · simp only [invalid, ↓reduceIte]
    exact .pure _
  · simp only [invalid, ↓reduceIte]
    refine (request_keeps pageId).bind fun frame => ?_
    refine (insertInto_keeps frame data).bind fun slot => ?_
    cases slot with
    | none =>
        refine (release_keeps pageId).bind fun _ => ?_
        exact (readData_keeps frame).bind fun _ => .pure _
    | some slotId =>
        refine (markDirty_keeps frame).bind fun _ => ?_
        exact (release_keeps pageId).bind fun _ => .pure _

theorem fillNewPage_keeps (data : List UInt8) (pageId : Int) :
    Program.Keeps (fillNewPage data pageId : Heap N (Option Rid)) allocation := by
  unfold fillNewPage
  refine (request_keeps pageId).bind fun frame => ?_
  refine (modifyData_keeps frame initHeapPage).bind fun _ => ?_
  refine (markDirty_keeps frame).bind fun _ => ?_
  refine (insertInto_keeps frame data).bind fun slot => ?_
  cases slot with
  | none => exact (release_keeps pageId).bind fun _ => .pure _
  | some slotId => exact (release_keeps pageId).bind fun _ => .pure _

/-- An allocation takes the next page id, or one that was given back. -/
theorem allocatePage_next {bm bm' : BufferManager N DiskManager} {outcome : Except Error Int}
    (ended : allocatePage bm = some (outcome, bm')) :
    nextAllocated bm' = nextAllocated bm ∨
      nextAllocated bm' = toInt32 (nextAllocated bm + 1) := by
  simp only [allocatePage, modifyGet, MonadStateOf.modifyGet, DiskManager.allocatePage] at ended
  split at ended
  · cases ended
    exact Or.inl rfl
  · cases ended
    exact Or.inr rfl

theorem linkNewPage_keeps (data : List UInt8) (last newPageId : Int) :
    Program.Keeps (linkNewPage data last newPageId : Heap N (Option Rid)) allocation := by
  unfold linkNewPage
  refine (request_keeps last).bind fun frame => ?_
  refine (modifyData_keeps frame fun page => setNextPageId page newPageId).bind fun _ => ?_
  refine (markDirty_keeps frame).bind fun _ => ?_
  exact (release_keeps last).bind fun _ => fillNewPage_keeps data newPageId

theorem insertInNewPage_next {data : List UInt8} {last : Int} {bm bm' : BufferManager N DiskManager}
    {outcome : Except Error (Option Rid)}
    (ended : insertInNewPage data last bm = some (outcome, bm')) :
    nextAllocated bm' = nextAllocated bm ∨
      nextAllocated bm' = toInt32 (nextAllocated bm + 1) := by
  unfold insertInNewPage at ended
  rcases Program.bind_cases ended with ⟨newPageId, middle, allocated, rest⟩ | ⟨_, thrown, _⟩
  · have same : nextAllocated bm' = nextAllocated middle :=
      (linkNewPage_keeps data last newPageId).map Prod.fst _ _ _ rest
    rw [same]
    exact allocatePage_next allocated
  · exact allocatePage_next thrown

theorem insertRecord_next {heap : HeapFile} {data : List UInt8} {bm bm' : BufferManager N DiskManager}
    {outcome : Except Error (Option Rid)} (ended : insertRecord heap data bm = some (outcome, bm')) :
    nextAllocated bm' = nextAllocated bm ∨
      nextAllocated bm' = toInt32 (nextAllocated bm + 1) := by
  have keeps : Program.Keeps (Program.loop (insertStep data) (heap.firstPageId, invalidPageId) :
      Heap N (Rid ⊕ Int)) nextAllocated :=
    (Program.Keeps.loop (insertStep_keeps data) _).map Prod.fst
  unfold insertRecord at ended
  rcases Program.bind_cases ended with ⟨found, middle, left, rest⟩ | ⟨_, thrown, _⟩
  · rw [← keeps _ _ _ left]
    cases found with
    | inl rid =>
        cases rest
        exact Or.inl rfl
    | inr last => exact insertInNewPage_next rest
  · exact Or.inl (keeps _ _ _ thrown)

/-- An insertion into a heap without a first page, from the allocation of one on. -/
theorem insert_lazy_next {heap : HeapFile} {data : List UInt8} {pageId : Int}
    {bm bm₁ bm' : BufferManager N DiskManager} {outcome : Except Error (Option Rid × HeapFile)}
    (lazy : heap.firstPageId = invalidPageId) (allocated : allocatePage.Returns bm pageId bm₁)
    (ended : insert heap data bm = some (outcome, bm')) :
    nextAllocated bm' = nextAllocated bm₁ ∨
      nextAllocated bm' = toInt32 (nextAllocated bm₁ + 1) := by
  have keeps : Program.Keeps (do
      initPage pageId
      return { heap with firstPageId := pageId } : Heap N HeapFile) nextAllocated :=
    ((initPage_keeps pageId).bind fun _ => .pure _).map Prod.fst
  have made : ensureFirstPage heap bm = (do
      initPage pageId
      return { heap with firstPageId := pageId } : Heap N HeapFile) bm₁ := by
    simp only [ensureFirstPage, lazy, ↓reduceIte]
    exact allocated.bind_eq
  unfold insert at ended
  rcases Program.bind_cases ended with ⟨heap', middle, ensured, rest⟩ | ⟨_, thrown, _⟩
  · unfold Program.Returns at ensured
    rw [made] at ensured
    rw [← keeps _ _ _ ensured]
    rcases Program.bind_cases rest with ⟨result, last, placed, done⟩ | ⟨_, thrown, _⟩
    · cases done
      exact insertRecord_next placed
    · exact insertRecord_next thrown
  · unfold Program.Throws at thrown
    rw [made] at thrown
    exact Or.inl (keeps _ _ _ thrown)

theorem allocatePage_wraps (steady : Steady bm view pins pages) (last : pages = 2 ^ 31 - 1) :
    ∃ bm', allocatePage.Returns bm pages bm' ∧ nextAllocated bm' = - 2 ^ 31 := by
  refine ⟨_, allocatePage_takes steady.allocated.next steady.allocated.noneFree, ?_⟩
  simp only [nextAllocated, last]
  decide

theorem create_more (steady : Steady bm view pins pages) {fileId : Uuid}
    {outcome : Except Error HeapFile} {bm' : BufferManager N DiskManager}
    (ended : create fileId bm = some (outcome, bm')) (unwrapped : 0 ≤ nextAllocated bm') :
    pages + 1 < 2 ^ 31 := by
  have upper := steady.allocated.upper
  by_contra full
  obtain ⟨bm₁, allocated, wrapped⟩ := allocatePage_wraps steady (by omega)
  have keeps : Program.Keeps (do
      initPage pages
      return ⟨fileId, pages⟩ : Heap N HeapFile) nextAllocated :=
    ((initPage_keeps pages).bind fun _ => .pure _).map Prod.fst
  unfold create at ended
  rw [allocated.bind_eq] at ended
  have same := keeps _ _ _ ended
  omega

end RelationalDb.HeapFile
