import RelationalDb.Access.HeapRuns
import RelationalDb.Storage.OnDisk

set_option autoImplicit false

namespace RelationalDb.HeapFile

open SlottedPage (Layout Appended)
open BufferManager

variable {N : Nat} {bm bm' : BufferManager N DiskManager} {view view' : Int → Option Page}
  {pins : Int → Int} {pages : Int}

theorem allocatePage_onDisk (onDisk : OnDisk bm view) {pageId : Int}
    (returned : allocatePage.Returns bm pageId bm') : OnDisk bm' view := by
  have file : bm'.disk.dbIo = bm.disk.dbIo ∧ bm'.pool = bm.pool := by
    simp only [Program.Returns, allocatePage, modifyGet, MonadStateOf.modifyGet, Option.some.injEq,
      Prod.mk.injEq] at returned
    rw [← returned.2]
    unfold DiskManager.allocatePage
    split <;> exact ⟨rfl, rfl⟩
  apply onDisk.congr
  · intro other page present
    rw [DiskManager.stored_eq, DiskManager.storedPage] at present ⊢
    rw [file.1]
    exact present
  · intro frame dirty
    rw [file.2] at dirty ⊢
    exact ⟨dirty, rfl⟩

theorem onDisk_unallocated (onDisk : OnDisk bm view) (steady : Steady bm view' pins pages) :
    view pages = none := by
  cases present : view pages with
  | none => rfl
  | some page =>
      have inFile := onDisk.stored pages page present
      have size := steady.allocated.size
      rw [DiskManager.stored_eq, DiskManager.storedPage] at inFile
      split at inFile
      · omega
      · cases inFile

theorem initPage_onDisk (onDisk : OnDisk bm view) (steady : Steady bm view' pins pages)
    {pageId : Int} (given : 0 ≤ pageId) (outside : view pageId = none)
    (returned : (initPage pageId).Returns bm () bm') : OnDisk bm' view := by
  obtain ⟨frame, bm₁, requested, opened⟩ := steady.request given
  have name := opened.mapped pageId frame opened.cached
  have after := (onDisk.request steady.toValid requested).written
    (show view (bm₁.pool frame).pageId = none by rw [name]; exact outside)
    (initHeapPage (bm₁.pool frame).data)
  unfold initPage Program.Returns at returned
  rw [requested.bind_eq, (modifyData_returns bm₁ frame initHeapPage).bind_eq,
    (markDirty_returns bm₁ frame initHeapPage).bind_eq] at returned
  exact after.release returned

theorem create_onDisk (onDisk : OnDisk bm view) (steady : Steady bm view' pins pages)
    (more : pages + 1 < 2 ^ 31) {fileId : Uuid} {heap : HeapFile}
    (returned : (create fileId).Returns bm heap bm') : OnDisk bm' view := by
  obtain ⟨bm₁, allocated, steady₁⟩ := allocatePage_returns steady more
  unfold create Program.Returns at returned
  rw [allocated.bind_eq] at returned
  obtain ⟨_, bm₂, initialised, done⟩ := Program.returns_bind.mp returned
  cases done
  exact initPage_onDisk (allocatePage_onDisk onDisk allocated) steady₁ steady.allocated.lower
    (onDisk_unallocated onDisk steady) initialised

/-- An insertion into the first page of a heap writes nothing to the disk after it has
asked for that page. -/
theorem insert_firstPage (steady : Steady bm view' pins pages) {heap : HeapFile} {page : Page}
    {data : List UInt8} (given : 0 ≤ heap.firstPageId)
    (present : view' heap.firstPageId = some page) (layout : Layout page headerSize)
    (bounded : data.length < 2 ^ 63) (fits : room view' data heap.firstPageId = true) :
    ∃ frame bm₁ bm' rid, (request heap.firstPageId).Returns bm frame bm₁ ∧
      (insert heap data).Returns bm (some rid, heap) bm' ∧ bm'.disk = bm₁.disk := by
  have valid : heap.firstPageId ≠ invalidPageId := by
    intro invalid
    rw [invalid] at given
    exact absurd given (by decide)
  obtain ⟨frame, bm₁, requested, opened⟩ := steady.request given
  have held : (bm₁.pool frame).data = page := opened.data_eq present
  rcases insertInto_returns held layout bounded with ⟨_, page', _, inserted⟩ | ⟨full, _⟩
  · have marked := markDirty_returns bm₁ frame fun _ => page'
    have count : 0 < (bm₁.pool frame).pinCount := by
      have small := opened.bounded heap.firstPageId
      rw [← pins_cached opened.cached, opened.pinned, Function.update_self]
      omega
    have released := release_pinned (bm₁.written frame page') heap.firstPageId frame opened.cached
      (by simpa [written, setFrame] using count)
    refine ⟨frame, bm₁, (bm₁.written frame page').released frame,
      ⟨heap.firstPageId, SlottedPage.numSlots page headerSize⟩, requested, ?_, rfl⟩
    have looped : Program.Returns (Program.loop (insertStep data)
        (heap.firstPageId, invalidPageId)) bm (.inl ⟨heap.firstPageId,
          SlottedPage.numSlots page headerSize⟩) ((bm₁.written frame page').released frame) := by
      apply Program.Returns.loop_exit
      simp only [insertStep, valid, ↓reduceIte]
      exact requested.bind (inserted.bind (marked.bind (released.bind
        (Program.pure_returns _ _))))
    have placed : (insertRecord heap data).Returns bm (some ⟨heap.firstPageId,
        SlottedPage.numSlots page headerSize⟩) ((bm₁.written frame page').released frame) :=
      looped.bind (Program.pure_returns _ _)
    exact (World.ensureFirstPage_present valid).bind
      (placed.bind (Program.pure_returns _ _))
  · have enough := (room_iff present).mp fits
    omega

end RelationalDb.HeapFile
