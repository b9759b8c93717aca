import RelationalDb.Storage.BufferManagerCalls
import RelationalDb.Trace

set_option autoImplicit false

namespace RelationalDb

/-- What the code does to a pool and its disk, one change at a time. -/
inductive PoolCall (N : Nat) where
  | pin (frame : Fin N)
  | unpin (frame : Fin N)
  | markDirty (frame : Fin N)
  | modifyData (frame : Fin N) (change : Page → Page)
  | tellPolicy (change : ClockPolicy N → ClockPolicy N)
  | takeFree
  | chooseVictim
  | flush (frame : Fin N)
  | erase (pageId : Int)
  | reset (frame : Fin N)
  | read (pageId : Int) (frame : Fin N)
  | allocatePage
  | writePage (pageId : Int) (page : Page)

namespace PoolCall

variable {N : Nat}

def Result : PoolCall N → Type
  | takeFree => Option (Fin N)
  | chooseVictim => Option (Fin N)
  | allocatePage => Int
  | _ => Unit

def run : (call : PoolCall N) → Pool N DiskManager call.Result
  | pin frame => BufferManager.pin frame
  | unpin frame => BufferManager.unpin frame
  | markDirty frame => BufferManager.markDirty frame
  | modifyData frame change => BufferManager.modifyData frame change
  | tellPolicy change =>
      (modify fun bm => bm.setPolicy (change bm.policy) : Pool N DiskManager Unit)
  | takeFree => BufferManager.takeFree
  | chooseVictim =>
      (modifyGet fun bm =>
        let (victim, policy) := bm.policy.chooseVictim bm.pool
        (victim, bm.setPolicy policy) : Pool N DiskManager (Option (Fin N)))
  | flush frame => BufferManager.flush frame
  | erase pageId => (modify fun bm => bm.mapPage pageId none : Pool N DiskManager Unit)
  | reset frame =>
      (modify fun bm => bm.setFrame frame fun f =>
        { f with pageId := invalidPageId, dirty := false } : Pool N DiskManager Unit)
  | read pageId frame => BufferManager.read pageId frame
  | allocatePage =>
      (modifyGet fun bm =>
        let (pageId, disk) := DiskManager.allocatePage bm.disk
        (pageId, { bm with disk := disk }) : Pool N DiskManager Int)
  | writePage pageId page =>
      (modify fun bm => { bm with disk := RelationalDb.writePage bm.disk pageId page } :
        Pool N DiskManager Unit)

/-- The calls that change a pin count. -/
def pins : PoolCall N → Bool
  | pin _ => true
  | unpin _ => true
  | _ => false

/-- The calls that change the page table. -/
def maps : PoolCall N → Bool
  | erase _ => true
  | read _ _ => true
  | _ => false

end PoolCall

def poolCalls (N : Nat) : Calls (BufferManager N DiskManager) Error :=
  ⟨PoolCall N, PoolCall.Result, PoolCall.run⟩

namespace BufferManager

variable {N : Nat}

/-- The frame of a victim is emptied. -/
def emptyFrame (frame : Fin N) : Pool N DiskManager (Fin N) := do
  modify fun bm => bm.setFrame frame fun f => { f with pageId := invalidPageId, dirty := false }
  return frame

/-- The page of a victim leaves the table. -/
def forgetPage (frame : Fin N) : Pool N DiskManager (Fin N) := do
  let pageId := ((← get).pool frame).pageId
  if pageId ≠ invalidPageId then modify fun bm => bm.mapPage pageId none
  emptyFrame frame

/-- What `evict` does with the frame the policy chose. -/
def evictFrame (frame : Fin N) : Pool N DiskManager (Fin N) := do
  if ((← get).pool frame).pinCount ≠ 0 then
    Program.throw (.runtimeError "BufferManager::evict(): policy selected a pinned frame.")
  else
    if ((← get).pool frame).dirty then flush frame
    forgetPage frame

/-- What `evict` does with the answer of the policy. -/
def evictBy : Option (Fin N) → Pool N DiskManager (Fin N)
  | none =>
      Program.throw (.runtimeError "BufferManager::evict(): no eviction candidates (all frames pinned)")
  | some frame => evictFrame frame

end BufferManager

/-- A program on a pool written out in calls. -/
abbrev PoolCode {N : Nat} {σ α : Type} (part : σ → BufferManager N DiskManager)
    (program : Program σ Error α) : Type 1 :=
  Program.Code (poolCalls N) part program

abbrev PoolCall.code {N : Nat} (call : PoolCall N) : PoolCode id call.run :=
  @Program.Code.call _ _ (poolCalls N) call

namespace BufferManager

variable {N : Nat}

def readDataCode (frame : Fin N) : PoolCode id (readData frame : Pool N DiskManager Page) :=
  .bind .get fun _ => .pure _

def emptyFrameCode (frame : Fin N) : PoolCode id (emptyFrame frame) :=
  .bind (PoolCall.reset frame).code fun _ => .pure frame

def forgetPageCode (frame : Fin N) : PoolCode id (forgetPage frame) :=
  .bind .get fun bm => .branch
    (.bind (PoolCall.erase (bm.pool frame).pageId).code fun _ => emptyFrameCode frame)
    (emptyFrameCode frame)

def evictFrameCode (frame : Fin N) : PoolCode id (evictFrame frame) :=
  .bind .get fun _ => .branch (.throw _) <| .bind .get fun _ => .branch
    (.bind (PoolCall.flush frame).code fun _ => forgetPageCode frame)
    (forgetPageCode frame)

def evictByCode : (victim : Option (Fin N)) → PoolCode id (evictBy victim)
  | none => .throw _
  | some frame => evictFrameCode frame

def evictCode : PoolCode id (evict : Pool N DiskManager (Fin N)) :=
  (.bind PoolCall.chooseVictim.code evictByCode : PoolCode id (PoolCall.chooseVictim.run >>= evictBy))

def obtainFrameCode : PoolCode id (obtainFrame : Pool N DiskManager (Fin N)) :=
  .bind PoolCall.takeFree.code fun free => match free with
    | some frame => .pure frame
    | none => evictCode

def requestCode (pageId : Int) : PoolCode (N := N) id (request pageId) :=
  .bind .get fun bm => match bm.pageTable pageId with
    | some frame =>
        .bind (PoolCall.pin frame).code fun _ =>
          .bind (PoolCall.tellPolicy fun policy => policy.recordAccess frame).code fun _ => .pure frame
    | none =>
        .bind obtainFrameCode fun frame => .bind (PoolCall.pin frame).code fun _ =>
          .bind (PoolCall.read pageId frame).code fun _ =>
            .bind (PoolCall.tellPolicy fun policy => policy.recordLoad frame).code fun _ => .pure frame

def releaseCode (pageId : Int) : PoolCode id (release pageId : Pool N DiskManager Unit) :=
  .bind .get fun bm => match bm.pageTable pageId with
    | none => .throw _
    | some frame => .bind .get fun _ => .branch (.throw _) <|
        .bind (PoolCall.unpin frame).code fun _ => .bind .get fun _ => .branch
          (PoolCall.tellPolicy fun policy => policy.recordUnpin frame).code (.pure _)

def flushIfDirtyCode (frame : Fin N) : PoolCode id (flushIfDirty frame : Pool N DiskManager Unit) :=
  .bind .get fun _ => .branch (PoolCall.flush frame).code (.pure _)

def flushFramesCode : (frames : List (Fin N)) →
    PoolCode id (frames.forM flushIfDirty : Pool N DiskManager Unit)
  | [] => .pure _
  | frame :: frames => .bind (flushIfDirtyCode frame) fun _ => flushFramesCode frames

def flushAllCode : PoolCode id (flushAll : Pool N DiskManager Unit) :=
  flushFramesCode (List.finRange N)

end BufferManager

end RelationalDb
