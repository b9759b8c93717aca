import RelationalDb.Executor.ExecutorRuns

set_option autoImplicit false

namespace RelationalDb

variable {σ : Type} {source other : Leaf σ} {tuples : List Tuple}

namespace Plan

/-- Operators that were just made, over a leaf in this state. -/
def fresh : (plan : Plan) → σ → plan.State σ
  | leaf, state => state
  | filterOp child _, state => child.fresh state
  | projectionOp child _ _, state => child.fresh state
  | limitOp child _, state => ⟨child.fresh state, 0, 0⟩

def leafState : (plan : Plan) → plan.State σ → σ
  | leaf, state => state
  | filterOp child _, state => child.leafState state
  | projectionOp child _ _, state => child.leafState state
  | limitOp child _, node => child.leafState node.child

@[simp] theorem leafState_fresh (plan : Plan) (state : σ) :
    plan.leafState (plan.fresh state) = state := by
  induction plan with
  | leaf => rfl
  | filterOp child pred ih => exact ih
  | projectionOp child colPos outSchema ih => exact ih
  | limitOp child limit ih => exact ih

theorem ready_iff {contract : source.Enumerates tuples} {plan : Plan} {state : plan.State σ} :
    plan.Ready contract state ↔ contract.Ready (plan.leafState state) := by
  induction plan with
  | leaf => exact Iff.rfl
  | filterOp child pred ih => exact ih
  | projectionOp child colPos outSchema ih => exact ih
  | limitOp child limit ih => exact ih

/-- The operators as they are, over a leaf in another state. -/
def mapLeaf (change : σ → σ) : (plan : Plan) → plan.State σ → plan.State σ
  | leaf, state => change state
  | filterOp child _, state => child.mapLeaf change state
  | projectionOp child _ _, state => child.mapLeaf change state
  | limitOp child _, node => { node with child := child.mapLeaf change node.child }

@[simp] theorem leafState_mapLeaf (change : σ → σ) (plan : Plan) (state : plan.State σ) :
    plan.leafState (plan.mapLeaf change state) = change (plan.leafState state) := by
  induction plan with
  | leaf => rfl
  | filterOp child pred ih => exact ih state
  | projectionOp child colPos outSchema ih => exact ih state
  | limitOp child limit ih => exact ih state.child

theorem mapLeaf_mapLeaf (first second : σ → σ) (plan : Plan) (state : plan.State σ) :
    plan.mapLeaf second (plan.mapLeaf first state) =
      plan.mapLeaf (fun inner => second (first inner)) state := by
  induction plan with
  | leaf => rfl
  | filterOp child pred ih => exact ih state
  | projectionOp child colPos outSchema ih => exact ih state
  | limitOp child limit ih =>
      simp only [mapLeaf, ih]
      rfl

/-- Operators give the same tuples over another leaf that gives the same. -/
theorem Remaining.mapLeaf {contract : source.Enumerates tuples} {change : σ → σ}
    (kept : ∀ rest state, contract.Remaining rest state → contract.Remaining rest (change state))
    {plan : Plan} {rest : List Tuple} {state : plan.State σ}
    (remaining : plan.Remaining contract rest state) :
    plan.Remaining contract rest (plan.mapLeaf change state) := by
  induction plan generalizing rest with
  | leaf => exact kept rest state remaining
  | filterOp child pred ih =>
      obtain ⟨inner, remaining, same⟩ := remaining
      exact ⟨inner, ih remaining, same⟩
  | projectionOp child colPos outSchema ih =>
      obtain ⟨inner, remaining, small, same⟩ := remaining
      exact ⟨inner, ih remaining, small, same⟩
  | limitOp child limit ih =>
      obtain ⟨inner, remaining, same⟩ := remaining
      exact ⟨inner, ih remaining, same⟩

theorem Remaining.leafState {contract : source.Enumerates tuples} {plan : Plan}
    {rest : List Tuple} {state : plan.State σ} (remaining : plan.Remaining contract rest state) :
    ∃ inner, contract.Remaining inner (plan.leafState state) := by
  induction plan generalizing rest with
  | leaf => exact ⟨rest, remaining⟩
  | filterOp child pred ih =>
      obtain ⟨inner, remaining, _⟩ := remaining
      exact ih remaining
  | projectionOp child colPos outSchema ih =>
      obtain ⟨inner, remaining, _, _⟩ := remaining
      exact ih remaining
  | limitOp child limit ih =>
      obtain ⟨inner, remaining, _⟩ := remaining
      exact ih remaining

section Leads

variable {before after : σ → Prop}

theorem onChild_leads {γ α : Type} {program : Program γ Error α} {before after : γ → Prop}
    (leads : program.Leads before after) :
    (onChild program).Leads (fun node => before node.child) fun node => after node.child := by
  intro node outcome node' held ended
  obtain ⟨⟨result, child'⟩, inside, same⟩ := Option.map_eq_some_iff.mp ended
  cases same
  exact leads _ _ _ held inside

theorem counters_lead {γ : Type} {change : LimitState γ → LimitState γ} (holds : γ → Prop)
    (apart : ∀ node, (change node).child = node.child) :
    Program.Leads (modify change : Program (LimitState γ) Error PUnit)
      (fun node => holds node.child) fun node => holds node.child := by
  intro node outcome node' held ended
  cases ended
  show holds (change node).child
  rw [apart]
  exact held

theorem openPlan_leads (opened : source.openLeaf.Leads before after) (plan : Plan) :
    (plan.openPlan source).Leads (fun state => before (plan.leafState state))
      fun state => after (plan.leafState state) := by
  induction plan with
  | leaf => exact opened
  | filterOp child pred ih => exact ih
  | projectionOp child colPos outSchema ih => exact ih
  | limitOp child limit ih =>
      intro node outcome node' held ended
      -- `Open` resets the counter and opens the child
      exact onChild_leads ih ⟨node.child, 0, 0⟩ outcome node' held ended

theorem next_leads (stepped : source.next.Leads after after) (plan : Plan) :
    (plan.next source).Leads (fun state => after (plan.leafState state))
      fun state => after (plan.leafState state) := by
  induction plan with
  | leaf => exact stepped
  | filterOp child pred ih =>
      apply Program.Leads.loop
      intro _
      refine Program.Leads.bind ih fun found => ?_
      cases found with
      | none => exact .pure _
      | some tup =>
          simp only
          split
          · exact .pure _
          · exact .pure _
  | projectionOp child colPos outSchema ih =>
      refine Program.Leads.bind ih fun found => ?_
      cases found with
      | none => exact .pure _
      | some tup => exact .pure _
  | limitOp child limit ih =>
      have counters := fun change apart =>
        @counters_lead (child.State σ) change (fun state => after (child.leafState state)) apart
      intro node outcome node' held ended
      have start := @Program.get_returns _ Error node
      rw [next, start.bind_eq] at ended
      split at ended
      · cases ended
        exact held
      · refine (counters (fun node => { node with calls := node.calls + 1 }) fun _ => rfl).bind
          (fun _ => ?_) _ _ _ held ended
        refine Program.Leads.bind (onChild_leads ih) fun found => ?_
        cases found with
        | none => exact .pure _
        | some tup => exact Program.Leads.bind (counters _ fun _ => rfl) fun _ => .pure _

theorem close_leads (closed : source.close.Leads after after) (plan : Plan) :
    (plan.close source).Leads (fun state => after (plan.leafState state))
      fun state => after (plan.leafState state) := by
  induction plan with
  | leaf => exact closed
  | filterOp child pred ih => exact ih
  | projectionOp child colPos outSchema ih => exact ih
  | limitOp child limit ih => exact onChild_leads ih

end Leads

theorem next_congr (same : other.next = source.next) (plan : Plan) :
    plan.next other = plan.next source := by
  induction plan with
  | leaf => exact same
  | filterOp child pred ih =>
      simp only [next, ih]
      rfl
  | projectionOp child colPos outSchema ih => simp only [next, ih]
  | limitOp child limit ih => simp only [next, ih]

theorem close_congr (same : other.close = source.close) (plan : Plan) :
    plan.close other = plan.close source := by
  induction plan with
  | leaf => exact same
  | filterOp child pred ih => exact ih
  | projectionOp child colPos outSchema ih => exact ih
  | limitOp child limit ih =>
      simp only [close, ih]
      rfl

theorem openPlan_congr (plan : Plan) (state : plan.State σ)
    (same : other.openLeaf (plan.leafState state) = source.openLeaf (plan.leafState state)) :
    plan.openPlan other state = plan.openPlan source state := by
  induction plan with
  | leaf => exact same
  | filterOp child pred ih => exact ih state same
  | projectionOp child colPos outSchema ih => exact ih state same
  | limitOp child limit ih =>
      show onChild (child.openPlan other) ⟨state.child, 0, 0⟩ =
        onChild (child.openPlan source) ⟨state.child, 0, 0⟩
      rw [onChild, onChild, ih state.child same]

end Plan

namespace Executor

open Program (Leads)

theorem executeAndCollect_leads {before after : σ → Prop}
    (opened : source.openLeaf.Leads before after) (stepped : source.next.Leads after after)
    (closed : source.close.Leads after after) (plan : Plan) :
    (executeAndCollect source plan).Leads (fun state => before (plan.leafState state))
      fun state => after (plan.leafState state) := by
  refine Leads.bind (plan.openPlan_leads opened) fun _ => ?_
  refine Leads.bind (Leads.loop (fun res => ?_) _) fun _ => ?_
  · refine Leads.bind (plan.next_leads stepped) fun found => ?_
    cases found with
    | none => exact .pure _
    | some tup => exact .pure _
  · exact Leads.bind (plan.close_leads closed) fun _ => .pure _

theorem executeAndCollect_congr (next : other.next = source.next)
    (close : other.close = source.close) (plan : Plan) (state : plan.State σ)
    (same : other.openLeaf (plan.leafState state) = source.openLeaf (plan.leafState state)) :
    executeAndCollect other plan state = executeAndCollect source plan state := by
  have opens := plan.openPlan_congr state same
  unfold executeAndCollect
  rw [plan.next_congr next, plan.close_congr close]
  simp only [Bind.bind, opens]

/-- The leaf that is open in this state. -/
def openedLeaf (source : Leaf σ) (opened : σ) : Leaf σ := { source with openLeaf := set opened }

/-- An execution of operators that were just made, from what the leaf is once it is open. -/
theorem executeAndCollect_opened {start opened : σ} (plan : Plan)
    (contract : (openedLeaf source opened).Enumerates tuples)
    (opens : source.openLeaf.Returns start ⟨⟩ opened) (ready : contract.Ready start)
    (small : ∀ tup ∈ tuples, tup.values.length < 65536) :
    ∃ state', (executeAndCollect source plan).Returns (plan.fresh start) (plan.denotation tuples)
        state' ∧ contract.Ready (plan.leafState state') := by
  have isReady : plan.Ready contract (plan.fresh start) := by
    rw [Plan.ready_iff, Plan.leafState_fresh]
    exact ready
  obtain ⟨state', returned, ready', _⟩ :=
    executeAndCollect_returns contract small plan (plan.fresh start) isReady
  refine ⟨state', ?_, Plan.ready_iff.mp ready'⟩
  have same := @executeAndCollect_congr σ source (openedLeaf source opened) rfl rfl plan
    (plan.fresh start) (by rw [Plan.leafState_fresh]; exact opens.symm)
  unfold Program.Returns at returned ⊢
  rw [← same, returned]

end Executor

end RelationalDb
