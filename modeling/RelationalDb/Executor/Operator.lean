import Mathlib.Data.Finset.Sort
import RelationalDb.Common.Tuple
import RelationalDb.Program

set_option autoImplicit false

namespace RelationalDb

/-- The leaf of a plan: an operator without a child. `σ` is the state it works on. -/
structure Leaf (σ : Type) where
  openLeaf : Program σ Error Unit
  next : Program σ Error (Option Tuple)
  close : Program σ Error Unit

/-- A tree of operators, each with its constant members. -/
inductive Plan where
  | leaf
  | filterOp (child : Plan) (pred : Tuple → Bool)
  | projectionOp (child : Plan) (colPos : Finset UInt16) (outSchema : Schema)
  | limitOp (child : Plan) (limit : Nat)

/-- The changing members of a `LimitOp` and its child. `calls` counts the calls of
the child's `Next` since `Open`; the code does not read it. -/
structure LimitState (γ : Type) where
  child : γ
  produced : Nat
  calls : Nat

namespace Plan

variable {σ : Type}

/-- The changing members of the operators of a plan. -/
def State (σ : Type) : Plan → Type
  | leaf => σ
  | filterOp child _ => child.State σ
  | projectionOp child _ _ => child.State σ
  | limitOp child _ => LimitState (child.State σ)

def onChild {γ α : Type} (program : Program γ Error α) : Program (LimitState γ) Error α :=
  fun node => (program node.child).map fun ended => (ended.1, { node with child := ended.2 })

/-- `Open`. -/
def openPlan (source : Leaf σ) : (plan : Plan) → Program (plan.State σ) Error Unit
  | leaf => source.openLeaf
  | filterOp child _ => openPlan source child
  | projectionOp child _ _ => openPlan source child
  | limitOp child _ => do
      modify fun node => { node with produced := 0, calls := 0 }
      onChild (openPlan source child)

/-- The loop of `Project` from index `idx` on. The set holds `uint16_t`. -/
def projectFrom (colPos : Finset UInt16) : Nat → List Value → List Value
  | _, [] => []
  | idx, val :: vals =>
      if UInt16.ofNat (idx + 1) ∈ colPos then val :: projectFrom colPos (idx + 1) vals
      else projectFrom colPos (idx + 1) vals

def project (colPos : Finset UInt16) (outSchema : Schema) (tup : Tuple) : Tuple :=
  ⟨projectFrom colPos 0 tup.values, outSchema⟩

def next (source : Leaf σ) : (plan : Plan) → Program (plan.State σ) Error (Option Tuple)
  | leaf => source.next
  | filterOp child pred => Program.loop (fun _ : Unit => do
      match ← next source child with
      | none => return .inr none
      | some tup => if pred tup then return .inr (some tup) else return .inl ()) ()
  | projectionOp child colPos outSchema => do
      match ← next source child with
      | none => return none
      | some tup => return some (project colPos outSchema tup)
  | limitOp child limit => do
      let node ← get
      if limit ≤ node.produced then return none
      else
        modify fun node => { node with calls := node.calls + 1 }
        match ← onChild (next source child) with
        | none => return none
        | some tup =>
            modify fun node => { node with produced := node.produced + 1 }
            return some tup

def close (source : Leaf σ) : (plan : Plan) → Program (plan.State σ) Error Unit
  | leaf => source.close
  | filterOp child _ => close source child
  | projectionOp child _ _ => close source child
  | limitOp child _ => onChild (close source child)

end Plan

namespace Executor

variable {σ : Type}

def execute (source : Leaf σ) (plan : Plan) : Program (plan.State σ) Error Unit := do
  plan.openPlan source
  Program.loop (fun _ : Unit => do
    match ← plan.next source with
    | none => return .inr ()
    | some _ => return .inl ()) ()
  plan.close source

def executeAndCollect (source : Leaf σ) (plan : Plan) : Program (plan.State σ) Error (List Tuple) := do
  plan.openPlan source
  let res ← Program.loop (fun res : List Tuple => do
    match ← plan.next source with
    | some tup => return .inl (res ++ [tup])
    | none => return .inr res) []
  plan.close source
  return res

end Executor

end RelationalDb
