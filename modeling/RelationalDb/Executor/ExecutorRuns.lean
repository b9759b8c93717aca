import RelationalDb.Executor.Denotation

set_option autoImplicit false

namespace RelationalDb

variable {σ : Type} {source : Leaf σ} {tuples : List Tuple}

/-- A leaf that after `Open` gives the tuples of a list one by one and then keeps
giving none. `Ready` are the states it may be opened in. -/
structure Leaf.Enumerates (source : Leaf σ) (tuples : List Tuple) where
  Ready : σ → Prop
  Remaining : List Tuple → σ → Prop
  opened : ∀ state, Ready state →
    ∃ state', source.openLeaf.Returns state () state' ∧ Remaining tuples state'
  stepped : ∀ rest state, Remaining rest state →
    ∃ state', source.next.Returns state rest.head? state' ∧ Remaining rest.tail state'
  closed : ∀ rest state, Remaining rest state →
    ∃ state', source.close.Returns state () state' ∧ Ready state'

namespace Plan

/-- The leaf below the operators may be opened. -/
def Ready (contract : source.Enumerates tuples) : (plan : Plan) → plan.State σ → Prop
  | leaf, state => contract.Ready state
  | filterOp child _, state => Ready contract child state
  | projectionOp child _ _, state => Ready contract child state
  | limitOp child _, node => Ready contract child node.child

/-- What an open plan still gives. -/
def Remaining (contract : source.Enumerates tuples) :
    (plan : Plan) → List Tuple → plan.State σ → Prop
  | leaf, rest, state => contract.Remaining rest state
  | filterOp child pred, rest, state => ∃ inner, Remaining contract child inner state ∧
      rest = inner.filter pred
  | projectionOp child colPos outSchema, rest, state => ∃ inner,
      Remaining contract child inner state ∧ (∀ tup ∈ inner, tup.values.length < 65536) ∧
      rest = inner.map (projected colPos outSchema)
  | limitOp child limit, rest, node => ∃ inner, Remaining contract child inner node.child ∧
      rest = inner.take (limit - node.produced)

/-- Each `LimitOp` called its child's `Next` at most as often as its limit says. -/
def LimitsKept : (plan : Plan) → plan.State σ → Prop
  | leaf, _ => True
  | filterOp child _, state => child.LimitsKept state
  | projectionOp child _ _, state => child.LimitsKept state
  | limitOp child limit, node => node.calls ≤ limit ∧ child.LimitsKept node.child

/-- As long as no child has ended, each call of a child's `Next` gave a tuple. -/
def Counted : (plan : Plan) → plan.State σ → Prop
  | leaf, _ => True
  | filterOp child _, state => child.Counted state
  | projectionOp child _ _, state => child.Counted state
  | limitOp child limit, node => node.calls = node.produced ∧ node.produced ≤ limit ∧
      child.Counted node.child

theorem Counted.kept {plan : Plan} {state : plan.State σ} (counted : plan.Counted state) :
    plan.LimitsKept state := by
  induction plan with
  | leaf => trivial
  | filterOp child pred ih => exact ih counted
  | projectionOp child colPos outSchema ih => exact ih counted
  | limitOp child limit ih =>
      obtain ⟨same, bound, inner⟩ := counted
      exact ⟨same.trans_le bound, ih inner⟩

theorem onChild_returns {γ α : Type} {program : Program γ Error α} {node : LimitState γ} {value : α}
    {child : γ} (returned : program.Returns node.child value child) :
    (onChild program).Returns node value { node with child := child } := by
  unfold Program.Returns at returned ⊢
  rw [onChild, returned]
  rfl

theorem openPlan_returns (contract : source.Enumerates tuples)
    (small : ∀ tup ∈ tuples, tup.values.length < 65536) (plan : Plan) (state : plan.State σ)
    (ready : plan.Ready contract state) :
    ∃ state', (plan.openPlan source).Returns state () state' ∧
      plan.Remaining contract (plan.denotation tuples) state' ∧ plan.Counted state' := by
  induction plan with
  | leaf =>
      obtain ⟨state', opened, remaining⟩ := contract.opened state ready
      exact ⟨state', opened, remaining, trivial⟩
  | filterOp child pred ih =>
      obtain ⟨state', opened, remaining, counted⟩ := ih state ready
      exact ⟨state', opened, ⟨_, remaining, rfl⟩, counted⟩
  | projectionOp child colPos outSchema ih =>
      obtain ⟨state', opened, remaining, counted⟩ := ih state ready
      exact ⟨state', opened, ⟨_, remaining, denotation_small small child, rfl⟩, counted⟩
  | limitOp child limit ih =>
      obtain ⟨child', opened, remaining, counted⟩ := ih state.child ready
      refine ⟨⟨child', 0, 0⟩, ?_, ⟨_, remaining, rfl⟩, rfl, Nat.zero_le limit, counted⟩
      apply Program.Returns.bind (Program.modify_returns _ _)
      exact onChild_returns opened

theorem close_returns (contract : source.Enumerates tuples) (plan : Plan) (rest : List Tuple)
    (state : plan.State σ) (remaining : plan.Remaining contract rest state) :
    ∃ state', (plan.close source).Returns state () state' ∧ plan.Ready contract state' ∧
      (plan.LimitsKept state → plan.LimitsKept state') := by
  induction plan generalizing rest with
  | leaf =>
      obtain ⟨state', closed, ready⟩ := contract.closed rest state remaining
      exact ⟨state', closed, ready, fun _ => trivial⟩
  | filterOp child pred ih =>
      obtain ⟨inner, remaining, _⟩ := remaining
      exact ih inner state remaining
  | projectionOp child colPos outSchema ih =>
      obtain ⟨inner, remaining, _⟩ := remaining
      exact ih inner state remaining
  | limitOp child limit ih =>
      obtain ⟨inner, remaining, _⟩ := remaining
      obtain ⟨child', closed, ready, kept⟩ := ih inner state.child remaining
      exact ⟨_, onChild_returns closed, ready, fun old => ⟨old.1, kept old.2⟩⟩

/-- What a call of `Next` leaves: the rest, and the counters. -/
def Stepped (contract : source.Enumerates tuples) (plan : Plan) (rest : List Tuple)
    (state state' : plan.State σ) : Prop :=
  plan.Remaining contract rest.tail state' ∧
    (plan.Counted state → if rest = [] then plan.LimitsKept state' else plan.Counted state')

/-- `FilterOp::Next` skips what its child gives up to the first tuple that satisfies
the predicate. -/
theorem filterOp_next {contract : source.Enumerates tuples} {child : Plan} {pred : Tuple → Bool}
    (childNext : ∀ rest state, child.Remaining contract rest state →
      ∃ state', (child.next source).Returns state rest.head? state' ∧
        child.Stepped contract rest state state')
    (inner : List Tuple) (state : (filterOp child pred).State σ)
    (remaining : child.Remaining contract inner state) :
    ∃ state', ((filterOp child pred).next source).Returns state (inner.filter pred).head? state' ∧
      (filterOp child pred).Stepped contract (inner.filter pred) state state' := by
  induction inner generalizing state with
  | nil =>
      obtain ⟨state', given, remaining', counted⟩ := childNext [] state remaining
      refine ⟨state', ?_, ⟨[], remaining', rfl⟩, counted⟩
      apply Program.Returns.loop_exit
      exact given.bind (Program.pure_returns _ _)
  | cons tup inner ih =>
      obtain ⟨middle, given, remaining', counted⟩ := childNext (tup :: inner) state remaining
      by_cases satisfied : pred tup = true
      · rw [List.filter_cons_of_pos satisfied]
        refine ⟨middle, ?_, ⟨inner, remaining', rfl⟩, counted⟩
        apply Program.Returns.loop_exit
        apply given.bind
        simp only [List.head?_cons, satisfied, ↓reduceIte]
        exact Program.pure_returns _ _
      · rw [List.filter_cons_of_neg satisfied]
        obtain ⟨state', ended, remaining'', counted'⟩ := ih middle remaining'
        refine ⟨state', ?_, remaining'', fun old => counted' (counted old)⟩
        refine Program.Returns.loop_again ?_ ended
        apply given.bind
        simp only [List.head?_cons, satisfied]
        exact Program.pure_returns _ _

theorem limitOp_gives {child : Plan} {limit : Nat} {node : (limitOp child limit).State σ}
    {found : Option Tuple} {child' : child.State σ} (more : ¬ limit ≤ node.produced)
    (given : (child.next source).Returns node.child found child') :
    ((limitOp child limit).next source).Returns node found
      ⟨child', node.produced + found.toList.length, node.calls + 1⟩ := by
  apply Program.Returns.bind (Program.get_returns _)
  simp only [more, ↓reduceIte]
  apply Program.Returns.bind (Program.modify_returns _ _)
  refine Program.Returns.bind (onChild_returns given) ?_
  cases found with
  | none => exact Program.pure_returns _ _
  | some tup => exact Program.Returns.bind (Program.modify_returns _ _) (Program.pure_returns _ _)

/-- `LimitOp::Next` asks its child only while it may still produce. -/
theorem limitOp_next {contract : source.Enumerates tuples} {child : Plan} {limit : Nat}
    (childNext : ∀ rest state, child.Remaining contract rest state →
      ∃ state', (child.next source).Returns state rest.head? state' ∧
        child.Stepped contract rest state state')
    (inner : List Tuple) (node : (limitOp child limit).State σ)
    (remaining : child.Remaining contract inner node.child) :
    ∃ node', ((limitOp child limit).next source).Returns node
        (inner.take (limit - node.produced)).head? node' ∧
      (limitOp child limit).Stepped contract (inner.take (limit - node.produced)) node node' := by
  by_cases spent : limit ≤ node.produced
  · have none : inner.take (limit - node.produced) = [] := by
      rw [Nat.sub_eq_zero_of_le spent, List.take_zero]
    rw [none]
    refine ⟨node, ?_, ⟨inner, remaining, none.symm⟩, fun counted => counted.kept⟩
    apply Program.Returns.bind (Program.get_returns _)
    simp only [spent, ↓reduceIte]
    exact Program.pure_returns _ _
  · obtain ⟨child', given, remaining', counted⟩ := childNext inner node.child remaining
    cases inner with
    | nil =>
        rw [List.take_nil]
        refine ⟨_, limitOp_gives spent given, ⟨[], remaining', ?_⟩, ?_⟩
        · rw [List.take_nil]
          rfl
        · intro old
          have same : node.calls = node.produced := old.1
          exact ⟨show node.calls + 1 ≤ limit by omega, counted old.2.2⟩
    | cons tup inner =>
        have more : limit - node.produced = limit - (node.produced + 1) + 1 := by omega
        rw [more, List.take_succ_cons]
        refine ⟨_, limitOp_gives spent given, ⟨inner, remaining', rfl⟩, ?_⟩
        intro old
        rw [if_neg (List.cons_ne_nil _ _)]
        refine ⟨congrArg (· + 1) old.1, show node.produced + 1 ≤ limit by omega, ?_⟩
        have kept := counted old.2.2
        rwa [if_neg (List.cons_ne_nil _ _)] at kept

/-- `Next` of every operator gives the first tuple that remains. -/
theorem next_returns (contract : source.Enumerates tuples) (plan : Plan) (rest : List Tuple)
    (state : plan.State σ) (remaining : plan.Remaining contract rest state) :
    ∃ state', (plan.next source).Returns state rest.head? state' ∧
      plan.Stepped contract rest state state' := by
  induction plan generalizing rest with
  | leaf =>
      obtain ⟨state', given, remaining'⟩ := contract.stepped rest state remaining
      refine ⟨state', given, remaining', fun _ => ?_⟩
      split <;> trivial
  | filterOp child pred ih =>
      obtain ⟨inner, remaining, rfl⟩ := remaining
      exact filterOp_next (fun rest state => ih rest state) inner state remaining
  | projectionOp child colPos outSchema ih =>
      obtain ⟨inner, remaining, small, rfl⟩ := remaining
      obtain ⟨state', given, remaining', counted⟩ := ih inner state remaining
      cases inner with
      | nil =>
          refine ⟨state', ?_, ⟨[], remaining', small, rfl⟩, counted⟩
          exact given.bind (Program.pure_returns _ _)
      | cons tup inner =>
          have rest := fun other member => small other (List.mem_cons_of_mem tup member)
          refine ⟨state', ?_, ⟨inner, remaining', rest, rfl⟩, counted⟩
          apply given.bind
          have same := project_eq colPos outSchema tup (small tup List.mem_cons_self)
          exact (Program.returns_pure _ _ _ _).mpr ⟨congrArg some same, rfl⟩
  | limitOp child limit ih =>
      obtain ⟨inner, remaining, rfl⟩ := remaining
      exact limitOp_next (fun rest state => ih rest state) inner state remaining

end Plan

namespace Executor

/-- A loop body that asks the plan for a tuple, goes on after one and leaves when there is none. -/
structure Asks (source : Leaf σ) (plan : Plan) {β α : Type}
    (body : β → Program (plan.State σ) Error (β ⊕ α)) (goOn : β → Tuple → β) (leave : β → α) :
    Prop where
  given : ∀ {current tup state state'}, (plan.next source).Returns state (some tup) state' →
    (body current).Returns state (.inl (goOn current tup)) state'
  ended : ∀ {current state state'}, (plan.next source).Returns state none state' →
    (body current).Returns state (.inr (leave current)) state'

/-- Such a loop goes over all that remains. -/
theorem drain_returns (contract : source.Enumerates tuples) (plan : Plan) {β α : Type}
    (goOn : β → Tuple → β) (leave : β → α) (rest : List Tuple) (current : β)
    (state : plan.State σ) (remaining : plan.Remaining contract rest state)
    (counted : plan.Counted state) :
    ∃ state', (∀ body, Asks source plan body goOn leave →
        Program.Returns (Program.loop body current) state (leave (rest.foldl goOn current)) state') ∧
      plan.Remaining contract [] state' ∧ plan.LimitsKept state' := by
  induction rest generalizing current state with
  | nil =>
      obtain ⟨state', given, remaining', kept⟩ := plan.next_returns contract [] state remaining
      exact ⟨state', fun _ asks => Program.Returns.loop_exit (asks.ended given), remaining',
        kept counted⟩
  | cons tup rest ih =>
      obtain ⟨middle, given, remaining', counted'⟩ :=
        plan.next_returns contract (tup :: rest) state remaining
      obtain ⟨state', drains, remaining'', kept⟩ :=
        ih (goOn current tup) middle remaining' (counted' counted)
      exact ⟨state', fun body asks => Program.Returns.loop_again (asks.given given)
        (drains body asks), remaining'', kept⟩

/-- One execution: the denotation, limits that are kept, and a plan that can be
executed again. -/
theorem executeAndCollect_returns (contract : source.Enumerates tuples)
    (small : ∀ tup ∈ tuples, tup.values.length < 65536) (plan : Plan) (state : plan.State σ)
    (ready : plan.Ready contract state) :
    ∃ state', (executeAndCollect source plan).Returns state (plan.denotation tuples) state' ∧
      plan.Ready contract state' ∧ plan.LimitsKept state' := by
  obtain ⟨opened, openReturns, remaining, counted⟩ :=
    plan.openPlan_returns contract small state ready
  obtain ⟨drained, drains, ended, kept⟩ := drain_returns contract plan
    (fun res tup => res ++ [tup]) id (plan.denotation tuples) [] opened remaining counted
  obtain ⟨state', closed, ready', kept'⟩ := plan.close_returns contract [] drained ended
  have all : (plan.denotation tuples).foldl (fun res tup => res ++ [tup]) [] =
      plan.denotation tuples := by
    rw [List.foldl_append_eq_append, List.nil_append]
    exact List.flatMap_singleton' _
  rw [all] at drains
  refine ⟨state', ?_, ready', kept' kept⟩
  apply openReturns.bind
  apply (drains _ ⟨fun given => ?_, fun given => ?_⟩).bind
  · exact closed.bind (Program.pure_returns _ _)
  · exact given.bind (Program.pure_returns _ _)
  · exact given.bind (Program.pure_returns _ _)

/-- `ExecuteAndCollect` computes what the plan means, and does so again when it is
run again, and no `LimitOp` asks its child more often than its limit. -/
theorem executeAndCollect_denotes (contract : source.Enumerates tuples)
    (small : ∀ tup ∈ tuples, tup.values.length < 65536) (plan : Plan) (state : plan.State σ)
    (ready : plan.Ready contract state) :
    ∃ first second,
      (executeAndCollect source plan).Returns state (plan.denotation tuples) first ∧
      plan.LimitsKept first ∧
      (executeAndCollect source plan).Returns first (plan.denotation tuples) second ∧
      plan.LimitsKept second := by
  obtain ⟨first, returned, ready', kept⟩ := executeAndCollect_returns contract small plan state ready
  obtain ⟨second, returned', _, kept'⟩ := executeAndCollect_returns contract small plan first ready'
  exact ⟨first, second, returned, kept, returned', kept'⟩

theorem execute_returns (contract : source.Enumerates tuples)
    (small : ∀ tup ∈ tuples, tup.values.length < 65536) (plan : Plan) (state : plan.State σ)
    (ready : plan.Ready contract state) :
    ∃ state', (execute source plan).Returns state () state' ∧ plan.Ready contract state' ∧
      plan.LimitsKept state' := by
  obtain ⟨opened, openReturns, remaining, counted⟩ :=
    plan.openPlan_returns contract small state ready
  obtain ⟨drained, drains, ended, kept⟩ := drain_returns contract plan (fun _ _ => ()) id
    (plan.denotation tuples) () opened remaining counted
  obtain ⟨state', closed, ready', kept'⟩ := plan.close_returns contract [] drained ended
  refine ⟨state', ?_, ready', kept' kept⟩
  apply openReturns.bind
  apply (drains _ ⟨fun given => ?_, fun given => ?_⟩).bind
  · exact closed
  · exact given.bind (Program.pure_returns _ _)
  · exact given.bind (Program.pure_returns _ _)

/-- A leaf that holds its tuples itself. -/
def listLeaf (tuples : List Tuple) : Leaf (List Tuple) where
  openLeaf := set tuples
  next := modifyGet fun rest => (rest.head?, rest.tail)
  close := pure ()

def listLeaf_enumerates (tuples : List Tuple) : (listLeaf tuples).Enumerates tuples where
  Ready _ := True
  Remaining rest state := state = rest
  opened state _ := ⟨tuples, (Program.returns_set _ _ _ ⟨⟩).mpr rfl, rfl⟩
  stepped rest state same := ⟨rest.tail, by subst same; rfl, rfl⟩
  closed rest state _ := ⟨state, Program.pure_returns _ _, trivial⟩

/-- The second column of the first tuple with two values. -/
theorem executeAndCollect_denotes_list :
    let tuples : List Tuple := [⟨[.int 5], []⟩, ⟨[.int 6, .text [65]], []⟩, ⟨[.int 7, .text []], []⟩]
    let plan : Plan :=
      .limitOp (.projectionOp (.filterOp .leaf fun tup => tup.values.length = 2) {2} []) 1
    plan.denotation tuples = [⟨[.text [65]], []⟩] ∧
      ∃ first second : plan.State (List Tuple),
        (executeAndCollect (listLeaf tuples) plan).Returns ⟨[], 0, 0⟩ (plan.denotation tuples) first ∧
        plan.LimitsKept first ∧
        (executeAndCollect (listLeaf tuples) plan).Returns first (plan.denotation tuples) second ∧
        plan.LimitsKept second := by
  intro tuples plan
  refine ⟨?_, executeAndCollect_denotes (listLeaf_enumerates tuples) (by decide) plan _ trivial⟩
  simp [plan, tuples, Plan.denotation, projected, valueAt]

end Executor

end RelationalDb
