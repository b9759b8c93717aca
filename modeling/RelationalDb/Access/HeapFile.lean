import RelationalDb.Storage.BufferManager
import RelationalDb.Storage.SlottedPage

set_option autoImplicit false

namespace RelationalDb

/-- `RID`. -/
structure Rid where
  pageId : Int
  slotId : Nat
  deriving DecidableEq, Repr

/-- `Record`: `data` points into the page of a frame. -/
structure Record (N : Nat) where
  rid : Rid
  frame : Fin N
  offset : Nat
  size : Nat

def Record.bytes {N : Nat} {D : Type} (record : Record N) (bm : BufferManager N D) : List UInt8 :=
  (bm.pool record.frame).data.read record.offset record.size

/-- A `HeapFile` without its pointers: the pool and its disk are the state. -/
structure HeapFile where
  fileId : Uuid
  firstPageId : Int

abbrev Heap (N : Nat) (α : Type) : Type := Pool N DiskManager α

namespace HeapFile

variable {N : Nat}

/-- `sizeof(HeapPageHeader)`. -/
def headerSize : Nat := 8

/-- `hdr->next_page_id`. -/
def nextPageId (page : Page) : Int := int32Value (page.read 0 4)

def setNextPageId (page : Page) (pageId : Int) : Page := page.write 0 (int32Bytes pageId)

def initHeapPage (page : Page) : Page :=
  SlottedPage.init (setNextPageId page invalidPageId) headerSize

/-- `_dm->AllocatePage()`. -/
def allocatePage : Heap N Int :=
  modifyGet fun bm =>
    let (pageId, disk) := DiskManager.allocatePage bm.disk
    (pageId, { bm with disk := disk })

/-- A heap page that was just allocated. -/
def initPage (pageId : Int) : Heap N Unit := do
  let frame ← BufferManager.request pageId
  BufferManager.modifyData frame initHeapPage
  BufferManager.markDirty frame
  BufferManager.release pageId

def create (fileId : Uuid) : Heap N HeapFile := do
  let pageId ← allocatePage
  initPage pageId
  return ⟨fileId, pageId⟩

/-- `Open`. -/
def openHeap (fileId : Uuid) (firstPageId : Int) : HeapFile := ⟨fileId, firstPageId⟩

def get (rid : Rid) : Heap N (Option (Record N)) := do
  let frame ← BufferManager.request rid.pageId
  let data := SlottedPage.get (← BufferManager.readData frame) headerSize rid.slotId
  BufferManager.release rid.pageId
  match data with
  | some (offset, size) => return some ⟨rid, frame, offset, size⟩
  | none => return none

/-- The defensive check for the first page id. -/
def ensureFirstPage (heap : HeapFile) : Heap N HeapFile := do
  if heap.firstPageId = invalidPageId then
    let pageId ← allocatePage
    initPage pageId
    return { heap with firstPageId := pageId }
  else return heap

/-- `sp.Insert(data, len)` on the page of a frame. -/
def insertInto (frame : Fin N) (data : List UInt8) : Heap N (Option Nat) := do
  let (slotId, page) := SlottedPage.insert (← BufferManager.readData frame) headerSize data
  BufferManager.modifyData frame fun _ => page
  return slotId

/-- The body of the page loop of `Insert`. The loop carries `page_id` and
`last_page_id` and leaves with a record id or the last page. -/
def insertStep (data : List UInt8) (current : Int × Int) :
    Heap N ((Int × Int) ⊕ (Rid ⊕ Int)) := do
  let (pageId, lastPageId) := current
  if pageId = invalidPageId then return .inr (.inr lastPageId)
  else
    let frame ← BufferManager.request pageId
    match ← insertInto frame data with
    | some slotId =>
        BufferManager.markDirty frame
        BufferManager.release pageId
        return .inr (.inl ⟨pageId, slotId⟩)
    | none =>
        BufferManager.release pageId
        return .inl (nextPageId (← BufferManager.readData frame), pageId)

/-- A new last page is initialised and tried. -/
def fillNewPage (data : List UInt8) (newPageId : Int) : Heap N (Option Rid) := do
  let frame ← BufferManager.request newPageId
  BufferManager.modifyData frame initHeapPage
  BufferManager.markDirty frame
  match ← insertInto frame data with
  | some slotId =>
      BufferManager.release newPageId
      return some ⟨newPageId, slotId⟩
  | none =>
      BufferManager.release newPageId
      return none

/-- The new page is linked behind the last one, which is fetched again. -/
def linkNewPage (data : List UInt8) (lastPageId newPageId : Int) : Heap N (Option Rid) := do
  let last ← BufferManager.request lastPageId
  BufferManager.modifyData last fun page => setNextPageId page newPageId
  BufferManager.markDirty last
  BufferManager.release lastPageId
  fillNewPage data newPageId

def insertInNewPage (data : List UInt8) (lastPageId : Int) : Heap N (Option Rid) := do
  linkNewPage data lastPageId (← allocatePage)

/-- `Insert` into the chain of a heap file that has a first page. -/
def insertRecord (heap : HeapFile) (data : List UInt8) : Heap N (Option Rid) := do
  match ← Program.loop (insertStep data) (heap.firstPageId, invalidPageId) with
  | .inl rid => return some rid
  | .inr lastPageId => insertInNewPage data lastPageId

/-- `Insert`. The heap file comes back, as its first page may be new. -/
def insert (heap : HeapFile) (data : List UInt8) : Heap N (Option Rid × HeapFile) := do
  let heap ← ensureFirstPage heap
  return (← insertRecord heap data, heap)

/-- `Update` and `Delete`: one call on the slotted page of a page. -/
def edit (pageId : Int) (change : Page → Bool × Page) : Heap N Bool := do
  let frame ← BufferManager.request pageId
  let (done, page) := change (← BufferManager.readData frame)
  BufferManager.modifyData frame fun _ => page
  if done then BufferManager.markDirty frame
  BufferManager.release pageId
  return done

def update (newData : List UInt8) (rid : Rid) : Heap N Bool :=
  edit rid.pageId fun page => SlottedPage.update page headerSize rid.slotId newData

def delete (rid : Rid) : Heap N Bool :=
  edit rid.pageId fun page => SlottedPage.delete page headerSize rid.slotId

end HeapFile

/-- `HeapIterator`. `heap` stands for the pointer to the heap file. -/
structure HeapIterator where
  heap : Nat
  currPage : Int
  currSlot : Nat
  hasNext : Bool
  deriving DecidableEq, Repr

namespace HeapIterator

variable {N : Nat}

/-- The slots of a page from `slot` on, up to the first that holds a record. -/
def seek (page : Page) : Nat → Nat → Option Nat
  | 0, _ => none
  | left + 1, slot =>
      if (SlottedPage.get page HeapFile.headerSize slot).isSome then some slot
      else seek page left (slot + 1)

/-- The body of the page loop of `Advance`. -/
def advanceStep (it : HeapIterator) : Heap N (HeapIterator ⊕ HeapIterator) := do
  if it.currPage = invalidPageId then return .inr it
  else
    let frame ← BufferManager.request it.currPage
    let page ← BufferManager.readData frame
    match seek page (SlottedPage.numSlots page HeapFile.headerSize - it.currSlot) it.currSlot with
    | some slot =>
        BufferManager.release it.currPage
        return .inr { it with currSlot := slot, hasNext := true }
    | none =>
        BufferManager.release it.currPage
        return .inl { it with currPage := HeapFile.nextPageId page, currSlot := 0 }

def advance (it : HeapIterator) : Heap N HeapIterator :=
  Program.loop advanceStep { it with hasNext := false }

/-- The constructor. -/
def new (heap : Nat) (page : Int) (slot : Nat) (hasNext : Bool) : Heap N HeapIterator :=
  let it : HeapIterator := ⟨heap, page, slot, hasNext⟩
  if hasNext ∧ page ≠ invalidPageId then it.advance else return it

/-- `++_curr_slot` of a `uint16_t`. -/
def nextSlot (it : HeapIterator) : HeapIterator :=
  { it with currSlot := (it.currSlot + 1) % 2 ^ 16 }

/-- `optional::value`. -/
def value {α : Type} : Option α → Heap N α
  | some record => return record
  | none => Program.throw .badOptionalAccess

/-- `Next`. -/
def next (it : HeapIterator) : Heap N (Record N × HeapIterator) := do
  if it.hasNext = false then
    Program.throw (.runtimeError "HeapIterator::Next called with no next")
  else
    let record ← value (← HeapFile.get ⟨it.currPage, it.currSlot⟩)
    let it ← it.nextSlot.advance
    return (record, it)

/-- `operator*`. -/
def deref (it : HeapIterator) : Heap N (Record N) := do
  if it.hasNext = false then Program.throw (.runtimeError "Dereferencing end iterator")
  else value (← HeapFile.get ⟨it.currPage, it.currSlot⟩)

/-- `operator++`. -/
def increment (it : HeapIterator) : Heap N HeapIterator :=
  if it.hasNext = false then return it else it.nextSlot.advance

/-- `operator==`. -/
def equal (it other : HeapIterator) : Bool :=
  it.heap = other.heap && it.currPage = other.currPage && it.currSlot = other.currSlot &&
    it.hasNext = other.hasNext

end HeapIterator

namespace HeapFile

variable {N : Nat}

/-- `end`. -/
def endIterator (heap : Nat) : Heap N HeapIterator := HeapIterator.new heap invalidPageId 0 false

/-- `begin`, for the heap file at address `address`. -/
def begin (heap : HeapFile) (address : Nat) : Heap N HeapIterator :=
  if heap.firstPageId = invalidPageId then endIterator address
  else HeapIterator.new address heap.firstPageId 0 true

end HeapFile

end RelationalDb
