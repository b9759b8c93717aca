import RelationalDb.Access.HeapRecords
import RelationalDb.Storage.PoolCalls

set_option autoImplicit false

namespace RelationalDb

open BufferManager

variable {N : Nat}

namespace HeapFile

def allocatePageCode : PoolCode id (allocatePage : Heap N Int) := PoolCall.allocatePage.code

def initPageCode (pageId : Int) : PoolCode (N := N) id (initPage pageId) :=
  .bind (requestCode pageId) fun frame => .bind (PoolCall.modifyData frame initHeapPage).code fun _ =>
    .bind (PoolCall.markDirty frame).code fun _ => releaseCode pageId

def createCode (fileId : Uuid) : PoolCode (N := N) id (create fileId) :=
  .bind allocatePageCode fun pageId => .bind (initPageCode pageId) fun _ => .pure _

def getCode (rid : Rid) : PoolCode (N := N) id (HeapFile.get rid) :=
  .bind (requestCode rid.pageId) fun frame => .bind (readDataCode frame) fun page =>
    .bind (releaseCode rid.pageId) fun _ =>
      match SlottedPage.get page headerSize rid.slotId with
      | some _ => .pure _
      | none => .pure _

def ensureFirstPageCode (heap : HeapFile) : PoolCode (N := N) id (ensureFirstPage heap) :=
  .branch (.bind allocatePageCode fun pageId => .bind (initPageCode pageId) fun _ => .pure _) (.pure _)

def insertIntoCode (frame : Fin N) (data : List UInt8) : PoolCode id (insertInto frame data) :=
  .bind (readDataCode frame) fun page => match SlottedPage.insert page headerSize data with
    | (_, page) => .bind (PoolCall.modifyData frame fun _ => page).code fun _ => .pure _

def insertStepCode (data : List UInt8) :
    (current : Int × Int) → PoolCode (N := N) id (insertStep data current)
  | (pageId, _) => .branch (.pure _) <| .bind (requestCode pageId) fun frame =>
      .bind (insertIntoCode frame data) fun slotId => match slotId with
        | some _ => .bind (PoolCall.markDirty frame).code fun _ =>
            .bind (releaseCode pageId) fun _ => .pure _
        | none => .bind (releaseCode pageId) fun _ => .bind (readDataCode frame) fun _ => .pure _

def fillNewPageCode (data : List UInt8) (newPageId : Int) :
    PoolCode (N := N) id (fillNewPage data newPageId) :=
  .bind (requestCode newPageId) fun frame => .bind (PoolCall.modifyData frame initHeapPage).code fun _ =>
    .bind (PoolCall.markDirty frame).code fun _ => .bind (insertIntoCode frame data) fun slotId =>
      match slotId with
      | some _ => .bind (releaseCode newPageId) fun _ => .pure _
      | none => .bind (releaseCode newPageId) fun _ => .pure _

def linkNewPageCode (data : List UInt8) (lastPageId newPageId : Int) :
    PoolCode (N := N) id (linkNewPage data lastPageId newPageId) :=
  .bind (requestCode lastPageId) fun last =>
    .bind (PoolCall.modifyData last fun page => setNextPageId page newPageId).code fun _ =>
      .bind (PoolCall.markDirty last).code fun _ => .bind (releaseCode lastPageId) fun _ =>
        fillNewPageCode data newPageId

def insertInNewPageCode (data : List UInt8) (lastPageId : Int) :
    PoolCode (N := N) id (insertInNewPage data lastPageId) :=
  .bind allocatePageCode fun newPageId => linkNewPageCode data lastPageId newPageId

def insertRecordCode (heap : HeapFile) (data : List UInt8) :
    PoolCode (N := N) id (insertRecord heap data) :=
  .bind (.loop (insertStepCode data) _) fun placed => match placed with
    | .inl _ => .pure _
    | .inr lastPageId => insertInNewPageCode data lastPageId

def insertCode (heap : HeapFile) (data : List UInt8) : PoolCode (N := N) id (insert heap data) :=
  .bind (ensureFirstPageCode heap) fun heap => .bind (insertRecordCode heap data) fun _ => .pure _

def editCode (pageId : Int) (change : Page → Bool × Page) : PoolCode (N := N) id (edit pageId change) :=
  .bind (requestCode pageId) fun frame => .bind (readDataCode frame) fun page =>
    match change page with
    | (_, page) => .bind (PoolCall.modifyData frame fun _ => page).code fun _ => .branch
        (.bind (PoolCall.markDirty frame).code fun _ => .bind (releaseCode pageId) fun _ => .pure _)
        (.bind (releaseCode pageId) fun _ => .pure _)

def updateCode (newData : List UInt8) (rid : Rid) : PoolCode (N := N) id (update newData rid) :=
  editCode rid.pageId _

def deleteCode (rid : Rid) : PoolCode (N := N) id (delete rid) := editCode rid.pageId _

end HeapFile

namespace HeapIterator

open HeapFile (getCode)

def advanceStepCode (it : HeapIterator) : PoolCode (N := N) id (advanceStep it) :=
  .branch (.pure _) <| .bind (requestCode it.currPage) fun frame => .bind (readDataCode frame) fun page =>
    match seek page (SlottedPage.numSlots page HeapFile.headerSize - it.currSlot) it.currSlot with
    | some _ => .bind (releaseCode it.currPage) fun _ => .pure _
    | none => .bind (releaseCode it.currPage) fun _ => .pure _

def advanceCode (it : HeapIterator) : PoolCode (N := N) id it.advance :=
  .loop advanceStepCode { it with hasNext := false }

def newCode (heap : Nat) (page : Int) (slot : Nat) (hasNext : Bool) :
    PoolCode (N := N) id (new heap page slot hasNext) :=
  .branch (advanceCode ⟨heap, page, slot, hasNext⟩) (.pure _)

def valueCode {α : Type} : (record : Option α) → PoolCode (N := N) id (value record)
  | some record => .pure record
  | none => .throw _

def nextCode (it : HeapIterator) : PoolCode (N := N) id it.next :=
  .branch (.throw _) <| .bind (getCode _) fun found => .bind (valueCode found) fun _ =>
    .bind (advanceCode it.nextSlot) fun _ => .pure _

def derefCode (it : HeapIterator) : PoolCode (N := N) id it.deref :=
  .branch (.throw _) <| .bind (getCode _) valueCode

def incrementCode (it : HeapIterator) : PoolCode (N := N) id it.increment :=
  .branch (.pure _) (advanceCode it.nextSlot)

end HeapIterator

namespace HeapFile

open HeapIterator (newCode derefCode incrementCode)

variable {β γ : Type}

def beginCode (heap : HeapFile) (address : Nat) : PoolCode (N := N) id (heap.begin address) :=
  .branch (newCode _ _ _ _) (newCode _ _ _ _)

def forStepCode (address : Nat) (body : β → List UInt8 → Option (β ⊕ γ)) :
    (current : HeapIterator × β) → PoolCode (N := N) id (forStep address body current)
  | (it, acc) => .bind (newCode _ _ _ _) fun _ => .branch (.pure _) <|
      .bind (derefCode it) fun record => .bind .get fun bm =>
        match body acc (record.bytes bm) with
        | none => .never
        | some (.inr _) => .pure _
        | some (.inl _) => .bind (incrementCode it) fun _ => .pure _

def forRecordsCode (heap : HeapFile) (address : Nat) (body : β → List UInt8 → Option (β ⊕ γ))
    (start : β) : PoolCode (N := N) id (forRecords heap address body start) :=
  .bind (beginCode heap address) fun _ => .loop (forStepCode address body) _

end HeapFile

namespace World

open HeapFile

def onPoolCode {α : Type} {program : Heap N α} (code : PoolCode id program) :
    PoolCode World.bm (onPool program) :=
  code.within World.bm fun w bm => { w with bm := bm }

def heapAtCode (i : Nat) : PoolCode (N := N) World.bm (heapAt i) :=
  (.bind .get fun w => .ofOption w.heaps[i]? :
    PoolCode World.bm (MonadState.get >>= fun w : World N => Program.ofOption w.heaps[i]?))

def addHeapCode (heap : HeapFile) : PoolCode (N := N) World.bm (addHeap heap) :=
  (.bind .get fun _ => .bind (.aside _ fun _ => rfl) fun _ => .pure _ :
    PoolCode World.bm (MonadState.get >>= fun w : World N =>
      modify (fun w => { w with heaps := w.heaps ++ [heap] }) >>= fun _ =>
        pure (HeapAnswer.made w.heaps.length)))

def setHeapCode (i : Nat) (heap : HeapFile) : PoolCode (N := N) World.bm (setHeap i heap) :=
  .aside _ fun _ => rfl

def firstPageCode (i : Nat) (heap : HeapFile) : PoolCode (N := N) World.bm (firstPage i heap) :=
  .branch
    (.bind (onPoolCode allocatePageCode) fun pageId => .bind (setHeapCode i _) fun _ =>
      .bind (onPoolCode (initPageCode pageId)) fun _ => .pure _)
    (.pure _)

/-- What `Insert` does after the check for the first page. -/
def place (heap : HeapFile) (data : List UInt8) : Program (World N) Error HeapAnswer := do
  return .placed (← onPool (heap.insertRecord data))

def placeCode (heap : HeapFile) (data : List UInt8) : PoolCode (N := N) World.bm (place heap data) :=
  .bind (onPoolCode (heap.insertRecordCode data)) fun _ => .pure _

end World

open World HeapFile in
/-- The operation written out in calls of the pool. -/
def HeapOp.code : (op : HeapOp) → PoolCode (N := N) World.bm op.run
  | .create fileId => .bind (onPoolCode (createCode fileId)) addHeapCode
  | .openEmpty fileId => addHeapCode (openHeap fileId invalidPageId)
  | .insert i data => .bind (heapAtCode i) fun heap => .bind (firstPageCode i heap) fun heap =>
      placeCode heap data
  | .get i rid => .bind (heapAtCode i) fun _ => .bind (onPoolCode (getCode rid)) fun _ =>
      .bind .get fun _ => .pure _
  | .update i rid data => .bind (heapAtCode i) fun _ => .bind (onPoolCode (updateCode data rid))
      fun _ => .pure _
  | .delete i rid => .bind (heapAtCode i) fun _ => .bind (onPoolCode (deleteCode rid)) fun _ => .pure _

end RelationalDb
