import RelationalDb.Access.HeapFile
import RelationalDb.Executor.Operator

set_option autoImplicit false

namespace RelationalDb

/-- `Relation`: a heap file and the `Decode` of its class. Where `Decode` reads past
the end of the record there is no result. -/
structure Relation where
  hf : HeapFile
  decode : List UInt8 → Option Tuple

/-- The state of a scan: the pool and the member `_iter`. -/
structure ScanState (N : Nat) where
  bm : BufferManager N DiskManager
  iter : HeapIterator

namespace SeqScanOp

variable {N : Nat}

def setPool (scan : ScanState N) (bm : BufferManager N DiskManager) : ScanState N := { scan with bm := bm }

def onPool {α : Type} (program : Heap N α) : Program (ScanState N) Error α :=
  Program.within ScanState.bm setPool program

def openScan (rel : Relation) : Program (ScanState N) Error Unit := do
  let it ← onPool (rel.hf.begin 0)
  modify fun scan => { scan with iter := it }

/-- `Next`. `Decode` reads the record through its pointer after the iterator has moved on. -/
def next (rel : Relation) : Program (ScanState N) Error (Option Tuple) := do
  if (← get).iter.hasNext = false then return none
  else
    let (record, it) ← onPool (← get).iter.next
    modify fun scan => { scan with iter := it }
    let tup ← Program.ofOption (rel.decode (record.bytes (← get).bm))
    return some tup

end SeqScanOp

/-- `SeqScanOp` on a relation. -/
def seqScanOp {N : Nat} (rel : Relation) : Leaf (ScanState N) :=
  { openLeaf := SeqScanOp.openScan rel
    next := SeqScanOp.next rel
    close := return ⟨⟩ }

end RelationalDb
