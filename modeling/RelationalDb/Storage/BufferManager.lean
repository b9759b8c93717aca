import RelationalDb.Program
import RelationalDb.Storage.ClockPolicy
import RelationalDb.Storage.DiskManager

set_option autoImplicit false

namespace RelationalDb

/-- `BufferManager` with `N` frames over a disk `D`. A `Frame*` is the index of the
frame; the free list keeps its back at the end. -/
structure BufferManager (N : Nat) (D : Type) where
  pageTable : Int → Option (Fin N)
  pool : Fin N → Frame
  freeList : List (Fin N)
  policy : ClockPolicy N
  disk : D

abbrev Pool (N : Nat) (D : Type) (α : Type) : Type := Program (BufferManager N D) Error α

namespace BufferManager

variable {N : Nat} {D : Type}

/-- The constructor. `new char[PAGE_SIZE]` leaves the pages as `raw` has them. -/
def new [NeZero N] (raw : Fin N → Page) (disk : D) : BufferManager N D :=
  { pageTable := fun _ => none
    pool := fun frame => { pageId := invalidPageId, pinCount := 0, dirty := false, data := raw frame }
    freeList := List.finRange N
    policy := ClockPolicy.new N
    disk := disk }

def setFrame (bm : BufferManager N D) (frame : Fin N) (change : Frame → Frame) :
    BufferManager N D :=
  { bm with pool := Function.update bm.pool frame (change (bm.pool frame)) }

def setPolicy (bm : BufferManager N D) (policy : ClockPolicy N) : BufferManager N D :=
  { bm with policy := policy }

def mapPage (bm : BufferManager N D) (pageId : Int) (entry : Option (Fin N)) :
    BufferManager N D :=
  { bm with pageTable := Function.update bm.pageTable pageId entry }

/-- `++f->pin_count` of an `int`. -/
def pin (frame : Fin N) : Pool N D Unit :=
  modify fun bm => bm.setFrame frame fun f => { f with pinCount := toInt32 (f.pinCount + 1) }

def unpin (frame : Fin N) : Pool N D Unit :=
  modify fun bm => bm.setFrame frame fun f => { f with pinCount := toInt32 (f.pinCount - 1) }

def markDirty (frame : Fin N) : Pool N D Unit :=
  modify fun bm => bm.setFrame frame fun f => { f with dirty := true }

/-- A client's store through the `data` pointer of a frame. -/
def modifyData (frame : Fin N) (change : Page → Page) : Pool N D Unit :=
  modify fun bm => bm.setFrame frame fun f => { f with data := change f.data }

/-- What a client sees through the `data` pointer of a frame. -/
def readData (frame : Fin N) : Pool N D Page := do
  return ((← get).pool frame).data

def release (pageId : Int) : Pool N D Unit := do
  match (← get).pageTable pageId with
  | none => Program.throw (.runtimeError "BufferManager::release(): page not found")
  | some frame =>
      if ((← get).pool frame).pinCount ≤ 0 then
        Program.throw (.runtimeError "BufferManager::release(): pin count already 0.")
      else
        unpin frame
        if ((← get).pool frame).pinCount = 0 then
          modify fun bm => bm.setPolicy (bm.policy.recordUnpin frame)

variable [IDiskManager D]

def read (pageId : Int) (frame : Fin N) : Pool N D Unit :=
  modify fun bm =>
    let page := readPage bm.disk pageId (bm.pool frame).data
    (bm.mapPage pageId (some frame)).setFrame frame fun f =>
      { f with data := page, pageId := pageId, dirty := false }

def flush (frame : Fin N) : Pool N D Unit :=
  modify fun bm =>
    { bm.setFrame frame (fun f => { f with dirty := false }) with
      disk := writePage bm.disk (bm.pool frame).pageId (bm.pool frame).data }

/-- `free_list_.get()` on a list that is not empty. -/
def takeFree : Pool N D (Option (Fin N)) :=
  modifyGet fun bm => (bm.freeList.getLast?, { bm with freeList := bm.freeList.dropLast })

def evict : Pool N D (Fin N) := do
  let bm ← get
  let (victim, policy) := bm.policy.chooseVictim bm.pool
  set (bm.setPolicy policy)
  match victim with
  | none =>
      Program.throw (.runtimeError
        "BufferManager::evict(): no eviction candidates (all frames pinned)")
  | some frame =>
      if ((← get).pool frame).pinCount ≠ 0 then
        Program.throw (.runtimeError "BufferManager::evict(): policy selected a pinned frame.")
      else
        if ((← get).pool frame).dirty then flush frame
        let pageId := ((← get).pool frame).pageId
        if pageId ≠ invalidPageId then modify fun bm => bm.mapPage pageId none
        modify fun bm => bm.setFrame frame fun f =>
          { f with pageId := invalidPageId, dirty := false }
        return frame

/-- The frame a page that is not cached goes to. -/
def obtainFrame : Pool N D (Fin N) := do
  match ← takeFree with
  | some frame => return frame
  | none => evict

def request (pageId : Int) : Pool N D (Fin N) := do
  match (← get).pageTable pageId with
  | some frame =>
      pin frame
      modify fun bm => bm.setPolicy (bm.policy.recordAccess frame)
      return frame
  | none =>
      let frame ← obtainFrame
      pin frame
      read pageId frame
      modify fun bm => bm.setPolicy (bm.policy.recordLoad frame)
      return frame

def flushAll : Pool N D Unit :=
  (List.finRange N).forM fun frame => do
    if ((← get).pool frame).dirty then flush frame

end BufferManager

end RelationalDb
