import RelationalDb.Access.HeapFile
import RelationalDb.Storage.SlottedPageLayout

set_option autoImplicit false

namespace RelationalDb.HeapFile

open SlottedPage (Layout Appended Rewritten pageSize_eq)

theorem nextPageId_setNextPageId (page : Page) (pageId : Int) (lower : -2 ^ 31 ≤ pageId)
    (upper : pageId < 2 ^ 31) : nextPageId (setNextPageId page pageId) = pageId := by
  have size := pageSize_eq
  have fits : 0 + (int32Bytes pageId).length ≤ pageSize := by
    rw [int32Bytes_length]
    omega
  have whole := Region.read_write_self page 0 (int32Bytes pageId) fits
  rw [int32Bytes_length] at whole
  rw [nextPageId, setNextPageId, whole, int32Value_int32Bytes_of_bounds lower upper]

theorem setNextPageId_read (page : Page) (pageId : Int) (start length : Nat)
    (above : headerSize ≤ start) :
    (setNextPageId page pageId).read start length = page.read start length := by
  apply Region.read_write_disjoint
  rw [int32Bytes_length]
  rw [headerSize] at above
  omega

theorem setNextPageId_load (page : Page) (pageId : Int) (start width : Nat)
    (above : headerSize ≤ start) :
    (setNextPageId page pageId).load start width = page.load start width :=
  congrArg leNat (setNextPageId_read page pageId start width above)

theorem setNextPageId_numSlots (page : Page) (pageId : Int) :
    SlottedPage.numSlots (setNextPageId page pageId) headerSize =
      SlottedPage.numSlots page headerSize :=
  setNextPageId_load page pageId _ _ (Nat.le_refl _)

theorem setNextPageId_freeSpaceOffset (page : Page) (pageId : Int) :
    SlottedPage.freeSpaceOffset (setNextPageId page pageId) headerSize =
      SlottedPage.freeSpaceOffset page headerSize :=
  setNextPageId_load page pageId _ _ (by omega)

theorem setNextPageId_freeSpace (page : Page) (pageId : Int) :
    SlottedPage.freeSpace (setNextPageId page pageId) headerSize =
      SlottedPage.freeSpace page headerSize := by
  simp only [SlottedPage.freeSpace, setNextPageId_numSlots, setNextPageId_freeSpaceOffset]

theorem slotAddress_above (slot : Nat) : headerSize ≤ SlottedPage.slotAddress headerSize slot := by
  unfold SlottedPage.slotAddress
  omega

theorem setNextPageId_slotOffset (page : Page) (pageId : Int) (slot : Nat) :
    SlottedPage.slotOffset (setNextPageId page pageId) headerSize slot =
      SlottedPage.slotOffset page headerSize slot :=
  setNextPageId_load page pageId _ _ (slotAddress_above slot)

theorem setNextPageId_slotLength (page : Page) (pageId : Int) (slot : Nat) :
    SlottedPage.slotLength (setNextPageId page pageId) headerSize slot =
      SlottedPage.slotLength page headerSize slot :=
  setNextPageId_load page pageId _ _ (Nat.le_add_right_of_le (slotAddress_above slot))

theorem setNextPageId_get (page : Page) (pageId : Int) (slot : Nat) :
    SlottedPage.get (setNextPageId page pageId) headerSize slot =
      SlottedPage.get page headerSize slot := by
  rw [SlottedPage.get, SlottedPage.get, setNextPageId_numSlots, setNextPageId_slotLength,
    setNextPageId_slotOffset]

theorem setNextPageId_layout (page : Page) (pageId : Int) (layout : Layout page headerSize) :
    Layout (setNextPageId page pageId) headerSize := by
  refine ⟨?_, ?_, ?_, ?_⟩
  · rw [SlottedPage.directoryEnd, setNextPageId_numSlots, setNextPageId_freeSpaceOffset]
    exact layout.directory
  · rw [setNextPageId_freeSpaceOffset]
    exact layout.bounded
  · simp only [setNextPageId_numSlots, setNextPageId_freeSpaceOffset, setNextPageId_slotOffset,
      setNextPageId_slotLength]
    exact layout.extent
  · simp only [setNextPageId_numSlots, setNextPageId_slotOffset, setNextPageId_slotLength]
    exact layout.apart

theorem setNextPageId_record (page : Page) (pageId : Int) (slot : Nat)
    (layout : Layout page headerSize) :
    SlottedPage.record (setNextPageId page pageId) headerSize slot =
      SlottedPage.record page headerSize slot := by
  by_cases inside : slot < SlottedPage.numSlots page headerSize
  · have above : headerSize ≤ SlottedPage.slotOffset page headerSize slot := by
      have directory := layout.directory
      have extent := layout.extent slot inside
      unfold SlottedPage.directoryEnd at directory
      omega
    rw [SlottedPage.record_eq _ _ _ (by rwa [setNextPageId_numSlots]),
      SlottedPage.record_eq _ _ _ inside, setNextPageId_slotOffset, setNextPageId_slotLength,
      setNextPageId_read _ _ _ _ above]
  · rw [SlottedPage.record_none _ _ _ (by rw [setNextPageId_numSlots]; omega),
      SlottedPage.record_none _ _ _ (by omega)]

theorem nextPageId_of_below {page page' : Page}
    (below : ∀ start length, start + length ≤ headerSize →
      page'.read start length = page.read start length) : nextPageId page' = nextPageId page := by
  rw [nextPageId, nextPageId, below 0 4 (by rw [headerSize]; omega)]

theorem initHeapPage_nextPageId (page : Page) : nextPageId (initHeapPage page) = invalidPageId := by
  have below : ∀ start length, start + length ≤ headerSize →
      (initHeapPage page).read start length =
        (setNextPageId page invalidPageId).read start length := by
    intro start length under
    unfold initHeapPage SlottedPage.init
    rw [Region.read_store_disjoint _ _ _ _ _ _ (by omega),
      Region.read_store_disjoint _ _ _ _ _ _ (by omega)]
  rw [nextPageId_of_below below]
  exact nextPageId_setNextPageId page invalidPageId (by decide) (by decide)

theorem header_fits : headerSize + 4 ≤ pageSize := by decide

theorem initHeapPage_layout (page : Page) : Layout (initHeapPage page) headerSize :=
  SlottedPage.init_layout _ _ header_fits

theorem initHeapPage_numSlots (page : Page) :
    SlottedPage.numSlots (initHeapPage page) headerSize = 0 :=
  SlottedPage.init_numSlots _ _ header_fits

theorem initHeapPage_freeSpace (page : Page) :
    SlottedPage.freeSpace (initHeapPage page) headerSize = 8180 := by
  have offset : SlottedPage.freeSpaceOffset (initHeapPage page) headerSize = pageSize :=
    SlottedPage.init_freeSpaceOffset _ _ header_fits
  have size := pageSize_eq
  rw [SlottedPage.freeSpace_eq _ _ (initHeapPage_layout page), SlottedPage.directoryEnd,
    initHeapPage_numSlots, offset, headerSize]
  omega

/-- The pages the links lead through from a first page to `INVALID_PAGE_ID`, each
a heap page with a valid layout. -/
inductive Chain (view : Int → Option Page) : Int → List Int → Prop
  | nil : Chain view invalidPageId []
  | cons {pageId : Int} {page : Page} {rest : List Int} (given : 0 ≤ pageId)
      (present : view pageId = some page) (layout : Layout page headerSize)
      (linked : Chain view (nextPageId page) rest) : Chain view pageId (pageId :: rest)

variable {view view' : Int → Option Page} {first : Int} {pages : List Int}

theorem Chain.unique {other : List Int} (chain : Chain view first pages)
    (chain' : Chain view first other) : pages = other := by
  induction chain generalizing other with
  | nil =>
      cases chain' with
      | nil => rfl
      | cons given => exact absurd given (by decide)
  | cons given present layout linked ih =>
      cases chain' with
      | nil => exact absurd given (by decide)
      | cons given' present' layout' linked' =>
          rw [present] at present'
          cases present'
          rw [ih linked']

theorem Chain.congr (chain : Chain view first pages)
    (same : ∀ pageId ∈ pages, view' pageId = view pageId) : Chain view' first pages := by
  induction chain with
  | nil => exact .nil
  | cons given present layout linked ih =>
      refine .cons given ?_ layout (ih fun pageId member => same pageId (List.mem_cons_of_mem _ member))
      rw [same _ List.mem_cons_self, present]

/-- Each page of a chain is there and well formed. -/
theorem Chain.page (chain : Chain view first pages) {pageId : Int} (member : pageId ∈ pages) :
    0 ≤ pageId ∧ ∃ page, view pageId = some page ∧ Layout page headerSize := by
  induction chain with
  | nil => cases member
  | cons given present layout linked ih =>
      rcases List.mem_cons.mp member with rfl | later
      · exact ⟨given, _, present, layout⟩
      · exact ih later

theorem Chain.first_eq (chain : Chain view first pages) :
    first = (pages.head?).getD invalidPageId := by
  cases chain <;> rfl

theorem Chain.first_mem (chain : Chain view first pages) (valid : first ≠ invalidPageId) :
    first ∈ pages := by
  cases chain with
  | nil => exact absurd rfl valid
  | cons => exact List.mem_cons_self

theorem Chain.next (chain : Chain view first pages) {pageId : Int} {page : Page}
    (member : pageId ∈ pages) (present : view pageId = some page) :
    nextPageId page = invalidPageId ∨ nextPageId page ∈ pages := by
  induction chain with
  | nil => cases member
  | cons given found layout linked ih =>
      rcases List.mem_cons.mp member with rfl | later
      · rw [present] at found
        cases found
        by_cases ends : nextPageId page = invalidPageId
        · exact Or.inl ends
        · exact Or.inr (List.mem_cons_of_mem _ (linked.first_mem ends))
      · exact (ih later).imp id (List.mem_cons_of_mem _)

theorem Chain.last (chain : Chain view first pages) {last : Int} {page : Page}
    (isLast : pages.getLast? = some last) (present : view last = some page) :
    nextPageId page = invalidPageId := by
  induction chain with
  | nil => cases isLast
  | @cons pageId _ rest given found layout linked ih =>
      cases rest with
      | nil =>
          have same : pageId = last := by simpa using isLast
          rw [← same, found, Option.some.injEq] at present
          rw [← present]
          exact linked.first_eq
      | cons second rest =>
          rw [List.getLast?_cons_cons] at isLast
          exact ih isLast

theorem Chain.edit (chain : Chain view first pages) {pageId : Int} {page page' : Page}
    (present : view pageId = some page) (layout : Layout page' headerSize)
    (link : nextPageId page' = nextPageId page) :
    Chain (Function.update view pageId (some page')) first pages := by
  induction chain with
  | nil => exact .nil
  | @cons current currentPage rest given found wellFormed linked ih =>
      by_cases here : current = pageId
      · subst here
        rw [present] at found
        cases found
        refine .cons given (Function.update_self _ _ _) layout ?_
        rw [link]
        exact ih
      · exact .cons given (by rw [Function.update_of_ne here, found]) wellFormed ih

/-- Linking a new last page behind the old one. -/
theorem Chain.grow (chain : Chain view first pages) {last fresh : Int} {lastPage freshPage : Page}
    (distinct : pages.Nodup) (isLast : pages.getLast? = some last)
    (present : view last = some lastPage)
    (new : fresh ∉ pages) (given : 0 ≤ fresh) (upper : fresh < 2 ^ 31)
    (layout : Layout freshPage headerSize) (link : nextPageId freshPage = invalidPageId) :
    Chain (Function.update (Function.update view last (some (setNextPageId lastPage fresh))) fresh
      (some freshPage)) first (pages ++ [fresh]) := by
  induction chain with
  | nil => cases isLast
  | @cons current page rest given' found wellFormed linked ih =>
      obtain ⟨currentNew, distinct⟩ := List.nodup_cons.mp distinct
      rw [List.mem_cons, not_or] at new
      have currentApart : current ≠ fresh := fun same => new.1 same.symm
      cases rest with
      | nil =>
          have same : current = last := by simpa using isLast
          subst same
          rw [present] at found
          cases found
          refine .cons given' ?_ (setNextPageId_layout lastPage fresh wellFormed) ?_
          · rw [Function.update_of_ne currentApart, Function.update_self]
          · rw [nextPageId_setNextPageId _ _ (by omega) upper]
            refine .cons given (Function.update_self _ _ _) layout ?_
            rw [link]
            exact .nil
      | cons second rest =>
          have lastLater : last ∈ second :: rest := by
            rw [List.getLast?_cons_cons] at isLast
            exact List.mem_of_getLast? isLast
          have apart : current ≠ last := by
            rintro rfl
            exact currentNew lastLater
          refine .cons given' ?_ wellFormed ?_
          · rw [Function.update_of_ne currentApart, Function.update_of_ne apart, found]
          · exact ih distinct (by rwa [List.getLast?_cons_cons] at isLast) new.2

/-- The bytes stored under a record id. -/
def storedRecord (view : Int → Option Page) (rid : Rid) : Option (List UInt8) :=
  (view rid.pageId).bind fun page => SlottedPage.record page headerSize rid.slotId

theorem storedRecord_eq {rid : Rid} {page : Page} (present : view rid.pageId = some page) :
    storedRecord view rid = SlottedPage.record page headerSize rid.slotId := by
  simp only [storedRecord, present, Option.bind_some]

theorem storedRecord_update_other {pageId : Int} {page : Page} {rid : Rid}
    (apart : rid.pageId ≠ pageId) :
    storedRecord (Function.update view pageId (some page)) rid = storedRecord view rid := by
  simp only [storedRecord, Function.update_of_ne apart]

theorem storedRecord_update_self {page : Page} (rid : Rid) :
    storedRecord (Function.update view rid.pageId (some page)) rid =
      SlottedPage.record page headerSize rid.slotId := by
  simp only [storedRecord, Function.update_self, Option.bind_some]

end RelationalDb.HeapFile
