import RelationalDb.Access.HeapChain
import RelationalDb.Storage.PoolSession

set_option autoImplicit false

namespace RelationalDb.HeapFile

open SlottedPage (Layout Appended)
open BufferManager

variable {N : Nat} {bm opened : BufferManager N DiskManager} {pageId : Int} {frame : Fin N}
  {page : Page} {data : List UInt8}

theorem Chain.contents_eq {view : Int → Option Page} {first : Int} {chain : List Int}
    (linked : Chain view first chain) (backed : Backed bm view) (member : pageId ∈ chain) :
    bm.contents pageId = view pageId := by
  obtain ⟨_, page, present, _⟩ := linked.page member
  rw [present, backed.contents_eq present]

/-- A page that can be brought to a frame and given back, and what is known of the pool then:
`Kept` when the page was only read, `Stored` when its bytes were replaced. -/
structure PageVisit (bm : BufferManager N DiskManager) (pageId : Int) (frame : Fin N) (page : Page)
    (opened : BufferManager N DiskManager) (Kept : BufferManager N DiskManager → Prop)
    (Stored : Page → BufferManager N DiskManager → Prop) : Prop where
  requested : (request pageId).Returns bm frame opened
  held : (opened.pool frame).data = page
  kept : ∃ bm', (release pageId).Returns opened () bm' ∧ Kept bm'
  stored : ∀ page', ∃ bm', (release pageId).Returns (opened.written frame page') () bm' ∧
    Stored page' bm'

/-- An insertion into an open page, up to `mark_dirty` and `release`. -/
theorem insertInto_returns (held : (bm.pool frame).data = page) (layout : Layout page headerSize)
    (bounded : data.length < 2 ^ 63) :
    (data.length + 4 ≤ SlottedPage.freeSpace page headerSize ∧ ∃ page',
      Appended page page' headerSize data ∧
      (insertInto frame data).Returns bm (some (SlottedPage.numSlots page headerSize))
        (bm.scribbled frame fun _ => page')) ∨
    (SlottedPage.freeSpace page headerSize < data.length + 4 ∧
      (insertInto frame data).Returns bm none bm) := by
  by_cases fits : data.length + 4 ≤ SlottedPage.freeSpace page headerSize
  · left
    obtain ⟨page', inserted, appended⟩ :=
      SlottedPage.insert_of_room page headerSize data layout fits
    refine ⟨fits, page', appended, ?_⟩
    refine (readData_returns bm frame).bind ?_
    rw [held, inserted]
    exact (modifyData_returns bm frame fun _ => page').bind
      (Program.pure_returns _ _)
  · right
    have refused := SlottedPage.insert_of_no_room page headerSize data bounded (by omega)
    refine ⟨by omega, (readData_returns bm frame).bind ?_⟩
    have same := modifyData_same bm frame
    rw [held] at same ⊢
    rw [refused]
    exact same.bind (Program.pure_returns _ _)

/-- What is on a new last page, and what `Insert` returns for it. -/
inductive FreshPage (data : List UInt8) (pageId : Int) : Option Rid → Page → Prop
  | placed {raw page : Page} (fits : data.length ≤ 8176)
      (appended : Appended (initHeapPage raw) page headerSize data) :
      FreshPage data pageId (some ⟨pageId, 0⟩) page
  | tooLong {raw : Page} (long : 8176 < data.length) :
      FreshPage data pageId none (initHeapPage raw)

theorem FreshPage.layout {result : Option Rid} (fresh : FreshPage data pageId result page) :
    Layout page headerSize := by
  cases fresh with
  | @placed raw _ fits appended =>
      refine appended.layout (initHeapPage_layout raw) ?_
      rw [initHeapPage_freeSpace]
      omega
  | tooLong => exact initHeapPage_layout _

theorem FreshPage.link {result : Option Rid} (fresh : FreshPage data pageId result page) :
    nextPageId page = invalidPageId := by
  cases fresh with
  | placed fits appended =>
      rw [nextPageId_of_below appended.below, initHeapPage_nextPageId]
  | tooLong => exact initHeapPage_nextPageId _

theorem FreshPage.result_eq {result : Option Rid} (fresh : FreshPage data pageId result page) :
    result = if data.length ≤ 8176 then some ⟨pageId, 0⟩ else none := by
  cases fresh with
  | placed fits => rw [if_pos fits]
  | tooLong long => rw [if_neg (Nat.not_le.mpr long)]

namespace PageVisit

variable {Kept : BufferManager N DiskManager → Prop}
  {Stored : Page → BufferManager N DiskManager → Prop}

/-- The bytes of the page stay in the frame after the release. -/
theorem read (visit : PageVisit bm pageId frame page opened Kept Stored) :
    ∃ bm', (release pageId).Returns opened () bm' ∧ Kept bm' ∧ (bm'.pool frame).data = page := by
  obtain ⟨bm', released, kept⟩ := visit.kept
  exact ⟨bm', released, kept, (release_data released frame).trans visit.held⟩

/-- `Get` on the page: where the record lies in the frame. -/
theorem get {rid : Rid} (visit : PageVisit bm rid.pageId frame page opened Kept Stored) :
    ∃ bm', (HeapFile.get rid).Returns bm
        ((SlottedPage.get page headerSize rid.slotId).map fun place =>
          ⟨rid, frame, place.1, place.2⟩) bm' ∧
      Kept bm' ∧ (bm'.pool frame).data = page := by
  obtain ⟨bm', released, kept, data'⟩ := visit.read
  refine ⟨bm', ?_, kept, data'⟩
  refine visit.requested.bind ((readData_returns opened frame).bind (released.bind ?_))
  rw [visit.held]
  cases SlottedPage.get page headerSize rid.slotId with
  | none => exact Program.pure_returns _ _
  | some place => exact Program.pure_returns _ _

variable (visit : PageVisit bm pageId frame page opened Kept Stored)

include visit

/-- A change of the whole page, marked dirty and released. -/
theorem store (change : Page → Page) :
    ∃ bm', (do
      modifyData frame change
      markDirty frame
      release pageId : Heap N Unit).Returns opened () bm' ∧ Stored (change page) bm' := by
  obtain ⟨bm', released, stored⟩ := visit.stored (change page)
  have marked := markDirty_returns opened frame change
  rw [visit.held] at marked
  exact ⟨bm', (modifyData_returns opened frame change).bind (marked.bind released), stored⟩

theorem initPage :
    ∃ bm', (HeapFile.initPage pageId).Returns bm () bm' ∧ Stored (initHeapPage page) bm' := by
  obtain ⟨bm', written, stored⟩ := visit.store initHeapPage
  exact ⟨bm', visit.requested.bind written, stored⟩

theorem edit (change : Page → Bool × Page)
    (refused : (change page).1 = false → (change page).2 = page) :
    ∃ bm', (HeapFile.edit pageId change).Returns bm (change page).1 bm' ∧
      if (change page).1 then Stored (change page).2 bm' else Kept bm' := by
  rcases result : change page with ⟨done, page'⟩
  rw [result] at refused
  cases done with
  | false =>
      obtain ⟨bm', released, kept⟩ := visit.kept
      obtain rfl : page' = page := refused rfl
      refine ⟨bm', visit.requested.bind ((readData_returns opened frame).bind ?_), kept⟩
      have same := modifyData_same opened frame
      rw [visit.held] at same ⊢
      rw [result]
      exact same.bind (released.bind (Program.pure_returns _ _))
  | true =>
      obtain ⟨bm', released, stored⟩ := visit.stored page'
      refine ⟨bm', visit.requested.bind ((readData_returns opened frame).bind ?_), stored⟩
      rw [visit.held, result]
      exact (modifyData_returns opened frame fun _ => page').bind
        ((markDirty_returns opened frame fun _ => page').bind
          (released.bind (Program.pure_returns _ _)))

theorem insertStep (valid : pageId ≠ invalidPageId) (layout : Layout page headerSize)
    (bounded : data.length < 2 ^ 63) (last : Int) :
    (data.length + 4 ≤ SlottedPage.freeSpace page headerSize ∧ ∃ page' bm',
      Appended page page' headerSize data ∧
      (HeapFile.insertStep data (pageId, last)).Returns bm
        (.inr (.inl ⟨pageId, SlottedPage.numSlots page headerSize⟩)) bm' ∧ Stored page' bm') ∨
    (SlottedPage.freeSpace page headerSize < data.length + 4 ∧ ∃ bm',
      (HeapFile.insertStep data (pageId, last)).Returns bm (.inl (nextPageId page, pageId)) bm' ∧
      Kept bm') := by
  simp only [HeapFile.insertStep, valid, ↓reduceIte]
  rcases insertInto_returns visit.held layout bounded with
    ⟨fits, page', appended, inserted⟩ | ⟨full, refused⟩
  · left
    obtain ⟨bm', released, stored⟩ := visit.stored page'
    refine ⟨fits, page', bm', appended, ?_, stored⟩
    exact visit.requested.bind (inserted.bind
      ((markDirty_returns opened frame fun _ => page').bind
        (released.bind (Program.pure_returns _ _))))
  · right
    obtain ⟨bm', released, kept, data'⟩ := visit.read
    refine ⟨full, bm', visit.requested.bind (refused.bind (released.bind ?_)), kept⟩
    refine (readData_returns bm' frame).bind ?_
    rw [data']
    exact Program.pure_returns _ _

theorem fillNewPage (bounded : data.length < 2 ^ 63) :
    ∃ result page' bm', (HeapFile.fillNewPage data pageId).Returns bm result bm' ∧
      FreshPage data pageId result page' ∧ Stored page' bm' := by
  have marked := markDirty_returns opened frame initHeapPage
  rw [visit.held] at marked
  have held : ((opened.written frame (initHeapPage page)).pool frame).data = initHeapPage page :=
    written_data _ _ _
  rcases insertInto_returns held (initHeapPage_layout page) bounded with
    ⟨fits, page', appended, inserted⟩ | ⟨full, refused⟩
  · rw [initHeapPage_freeSpace] at fits
    rw [initHeapPage_numSlots, written_scribbled, written_written] at inserted
    obtain ⟨bm', released, stored⟩ := visit.stored page'
    refine ⟨some ⟨pageId, 0⟩, page', bm', ?_, .placed (by omega) appended, stored⟩
    exact visit.requested.bind ((modifyData_returns opened frame initHeapPage).bind
      (marked.bind (inserted.bind
        (released.bind (Program.pure_returns _ _)))))
  · rw [initHeapPage_freeSpace] at full
    obtain ⟨bm', released, stored⟩ := visit.stored (initHeapPage page)
    refine ⟨none, initHeapPage page, bm', ?_, .tooLong (by omega), stored⟩
    exact visit.requested.bind ((modifyData_returns opened frame initHeapPage).bind
      (marked.bind (refused.bind
        (released.bind (Program.pure_returns _ _)))))

theorem linkNewPage (data : List UInt8) (newPageId : Int) :
    ∃ bm', HeapFile.linkNewPage data pageId newPageId bm =
        HeapFile.fillNewPage data newPageId bm' ∧ Stored (setNextPageId page newPageId) bm' := by
  obtain ⟨bm', released, stored⟩ := visit.stored (setNextPageId page newPageId)
  have marked := markDirty_returns opened frame fun page => setNextPageId page newPageId
  rw [visit.held] at marked
  refine ⟨bm', ?_, stored⟩
  unfold HeapFile.linkNewPage
  rw [visit.requested.bind_eq,
    (modifyData_returns opened frame fun page => setNextPageId page newPageId).bind_eq,
    marked.bind_eq, released.bind_eq]

end PageVisit

end RelationalDb.HeapFile
