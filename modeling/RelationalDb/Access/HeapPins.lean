import RelationalDb.Access.HeapCode
import RelationalDb.Storage.PinBalance

set_option autoImplicit false

namespace RelationalDb

open BufferManager (Balances Closes)

variable {N : Nat}

namespace HeapFile

theorem allocatePage_balances : Balances (allocatePageCode (N := N)) :=
  .of_ends (BufferManager.keeping_still .allocatePage rfl)

theorem insertInto_closes {α : Type} {pageId : Int} {frame : Fin N} {data : List UInt8}
    {next : Option Nat → Heap N α} {rest : ∀ slotId, PoolCode id (next slotId)}
    (closes : ∀ slotId, Closes pageId frame (rest slotId)) :
    Closes pageId frame ((insertIntoCode frame data).bind rest) := by
  refine Closes.step ?_ closes
  refine (BufferManager.readData_keeping frame).andThen fun page => ?_
  cases SlottedPage.insert page headerSize data with
  | mk slotId page' =>
      have stored : BufferManager.Keeping (fun bm => bm.Holding pageId frame)
          (PoolCall.modifyData frame fun _ => page').code
          (Program.Ends fun _ bm => bm.Holding pageId frame) :=
        BufferManager.keeping_open _ rfl rfl (by simp)
      refine stored.andThen fun _ => ?_
      exact Program.Ensures.pure fun _ begins => begins

variable [NeZero N]

theorem initPage_balances (pageId : Int) : Balances (initPageCode (N := N) pageId) :=
  .request pageId fun frame => .modifyData frame _ fun _ => .markDirty frame fun _ => .last

theorem create_balances (fileId : Uuid) : Balances (createCode (N := N) fileId) :=
  allocatePage_balances.bind fun pageId => (initPage_balances pageId).bind fun _ => .pure _

theorem get_balances (rid : Rid) : Balances (getCode (N := N) rid) := by
  refine .request rid.pageId fun frame => .readData frame fun page => .release fun _ => ?_
  cases SlottedPage.get page headerSize rid.slotId with
  | some found => exact .pure _
  | none => exact .pure _

theorem ensureFirstPage_balances (heap : HeapFile) : Balances (ensureFirstPageCode (N := N) heap) :=
  .branch (allocatePage_balances.bind fun pageId => (initPage_balances pageId).bind fun _ => .pure _)
    (.pure _)

theorem insertStep_balances (data : List UInt8) (current : Int × Int) :
    Balances (insertStepCode (N := N) data current) := by
  rcases current with ⟨pageId, lastPageId⟩
  refine .branch (.pure _) (.request pageId fun frame => insertInto_closes fun slotId => ?_)
  cases slotId with
  | some slotId => exact .markDirty frame fun _ => .release fun _ => .pure _
  | none => exact .release fun _ => (Balances.get.bind fun _ => .pure _).bind fun _ => .pure _

theorem fillNewPage_balances (data : List UInt8) (newPageId : Int) :
    Balances (fillNewPageCode (N := N) data newPageId) := by
  refine .request newPageId fun frame => .modifyData frame _ fun _ => .markDirty frame fun _ => ?_
  refine insertInto_closes fun slotId => ?_
  cases slotId with
  | some slotId => exact .release fun _ => .pure _
  | none => exact .release fun _ => .pure _

theorem linkNewPage_balances (data : List UInt8) (lastPageId newPageId : Int) :
    Balances (linkNewPageCode (N := N) data lastPageId newPageId) :=
  .request lastPageId fun last => .modifyData last _ fun _ => .markDirty last fun _ =>
    .release fun _ => fillNewPage_balances data newPageId

theorem insertInNewPage_balances (data : List UInt8) (lastPageId : Int) :
    Balances (insertInNewPageCode (N := N) data lastPageId) :=
  allocatePage_balances.bind fun newPageId => linkNewPage_balances data lastPageId newPageId

theorem insertRecord_balances (heap : HeapFile) (data : List UInt8) :
    Balances (insertRecordCode (N := N) heap data) := by
  refine Balances.bind (.loop (insertStep_balances data) _) fun placed => ?_
  cases placed with
  | inl rid => exact .pure _
  | inr lastPageId => exact insertInNewPage_balances data lastPageId

theorem insert_balances (heap : HeapFile) (data : List UInt8) :
    Balances (insertCode (N := N) heap data) :=
  (ensureFirstPage_balances heap).bind fun heap =>
    (insertRecord_balances heap data).bind fun _ => .pure _

theorem edit_balances (pageId : Int) (change : Page → Bool × Page) :
    Balances (editCode (N := N) pageId change) := by
  refine .request pageId fun frame => .readData frame fun page => ?_
  cases change page with
  | mk done page' =>
      exact .modifyData frame _ fun _ => .branch
        (.markDirty frame fun _ => .release fun _ => .pure _) (.release fun _ => .pure _)

end HeapFile

namespace HeapIterator

variable [NeZero N]

theorem advanceStep_balances (it : HeapIterator) : Balances (advanceStepCode (N := N) it) := by
  refine .branch (.pure _) (.request it.currPage fun frame => .readData frame fun page => ?_)
  cases seek page (SlottedPage.numSlots page HeapFile.headerSize - it.currSlot) it.currSlot with
  | some slot => exact .release fun _ => .pure _
  | none => exact .release fun _ => .pure _

theorem advance_balances (it : HeapIterator) : Balances (advanceCode (N := N) it) :=
  .loop advanceStep_balances _

theorem new_balances (heap : Nat) (page : Int) (slot : Nat) (hasNext : Bool) :
    Balances (newCode (N := N) heap page slot hasNext) :=
  .branch (advance_balances _) (.pure _)

omit [NeZero N] in
theorem value_balances {α : Type} (record : Option α) : Balances (valueCode (N := N) record) := by
  cases record with
  | some record => exact .pure _
  | none => exact .throw (by simp [noCandidates])

theorem next_balances (it : HeapIterator) : Balances (nextCode (N := N) it) :=
  .branch (.throw (by simp [noCandidates])) <| (HeapFile.get_balances _).bind fun found =>
    (value_balances found).bind fun _ => (advance_balances _).bind fun _ => .pure _

theorem deref_balances (it : HeapIterator) : Balances (derefCode (N := N) it) :=
  .branch (.throw (by simp [noCandidates])) <| (HeapFile.get_balances _).bind value_balances

theorem increment_balances (it : HeapIterator) : Balances (incrementCode (N := N) it) :=
  .branch (.pure _) (advance_balances _)

end HeapIterator

namespace HeapFile

variable [NeZero N]

theorem begin_balances (heap : HeapFile) (address : Nat) :
    Balances (beginCode (N := N) heap address) :=
  .branch (HeapIterator.new_balances _ _ _ _) (HeapIterator.new_balances _ _ _ _)

variable {β γ : Type}

theorem forStep_balances (address : Nat) (body : β → List UInt8 → Option (β ⊕ γ))
    (current : HeapIterator × β) : Balances (forStepCode (N := N) address body current) := by
  rcases current with ⟨it, acc⟩
  refine (HeapIterator.new_balances _ _ _ _).bind fun last => .branch (.pure _) ?_
  refine it.deref_balances.bind fun record => Balances.get.bind fun bm => ?_
  cases body acc (record.bytes bm) with
  | none => exact Program.Ensures.never
  | some turn =>
      cases turn with
      | inr result => exact .pure _
      | inl acc => exact it.increment_balances.bind fun _ => .pure _

theorem forRecords_balances (heap : HeapFile) (address : Nat)
    (body : β → List UInt8 → Option (β ⊕ γ)) (start : β) :
    Balances (forRecordsCode (N := N) heap address body start) :=
  (begin_balances heap address).bind fun _ => .loop (forStep_balances address body) _

end HeapFile

end RelationalDb
