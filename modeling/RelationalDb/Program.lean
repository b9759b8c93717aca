import Mathlib.Algebra.Order.Ring.Int

set_option autoImplicit false

namespace RelationalDb

/-- A program that reads and writes a state `σ`, may throw an `ε` and may fail
to end (`none`). The state written before an exception survives it. -/
def Program (σ ε α : Type) : Type := σ → Option (Except ε α × σ)

namespace Program

variable {σ ε α β : Type}

instance : Monad (Program σ ε) where
  pure value := fun state => some (.ok value, state)
  bind first next := fun state =>
    match first state with
    | none => none
    | some (.ok value, state') => next value state'
    | some (.error reason, state') => some (.error reason, state')

instance : MonadStateOf σ (Program σ ε) where
  get := fun state => some (.ok state, state)
  set next := fun _ => some (.ok ⟨⟩, next)
  modifyGet change := fun state => some (.ok (change state).1, (change state).2)

/-- `throw` of the source. -/
protected def throw (reason : ε) : Program σ ε α := fun state => some (.error reason, state)

/-- A loop that is about to take the turn `turn`. -/
def loopFrom (body : β → Program σ ε (β ⊕ α)) (turn : Program σ ε (β ⊕ α)) (state : σ) :
    Option (Except ε α × σ) :=
  match turn state with
  | none => none
  | some (.error reason, state') => some (.error reason, state')
  | some (.ok (.inl next), state') => body next |>.loopFrom body state'
  | some (.ok (.inr value), state') => some (.ok value, state')
partial_fixpoint

/-- A `while` loop whose body either goes round again or leaves with a value. -/
def loop (body : β → Program σ ε (β ⊕ α)) (current : β) (state : σ) :
    Option (Except ε α × σ) :=
  loopFrom body (body current) state

/-- The program ends normally with `value` in state `state'`. -/
def Returns (program : Program σ ε α) (state : σ) (value : α) (state' : σ) : Prop :=
  program state = some (.ok value, state')

/-- The program ends with an exception in state `state'`. -/
def Throws (program : Program σ ε α) (state : σ) (reason : ε) (state' : σ) : Prop :=
  program state = some (.error reason, state')

theorem Returns.value_eq {program : Program σ ε α} {state state' state'' : σ} {value other : α}
    (first : program.Returns state value state') (second : program.Returns state other state'') :
    value = other ∧ state' = state'' := by
  unfold Returns at first second
  rw [first] at second
  simpa using second

@[simp] theorem returns_pure (value other : α) (state state' : σ) :
    (pure value : Program σ ε α).Returns state other state' ↔ value = other ∧ state = state' := by
  simp [Returns, pure]

@[simp] theorem returns_get (state value state' : σ) :
    (get : Program σ ε σ).Returns state value state' ↔ state = value ∧ state = state' := by
  simp [Returns, get, getThe, MonadStateOf.get]

@[simp] theorem returns_set (next state state' : σ) (value : PUnit) :
    (set next : Program σ ε PUnit).Returns state value state' ↔ next = state' := by
  simp [Returns, set]

@[simp] theorem returns_modify (change : σ → σ) (state state' : σ) (value : PUnit) :
    (modify change : Program σ ε PUnit).Returns state value state' ↔ change state = state' := by
  simp [Returns, modify, modifyGet, MonadStateOf.modifyGet]

theorem pure_returns (value : α) (state : σ) :
    (pure value : Program σ ε α).Returns state value state := rfl

theorem get_returns (state : σ) : (get : Program σ ε σ).Returns state state state := rfl

theorem modify_returns (change : σ → σ) (state : σ) :
    (modify change : Program σ ε PUnit).Returns state ⟨⟩ (change state) := rfl

/-- Sequencing: a normal end is a normal end of both parts. -/
theorem returns_bind {first : Program σ ε α} {next : α → Program σ ε β} {state : σ}
    {value : β} {state'' : σ} :
    (first >>= next).Returns state value state'' ↔
      ∃ middle state', first.Returns state middle state' ∧
        (next middle).Returns state' value state'' := by
  simp only [Returns, bind]
  constructor
  · intro ended
    split at ended
    · cases ended
    · rename_i middle state' reached
      exact ⟨middle, state', reached, ended⟩
    · cases ended
  · rintro ⟨middle, state', reached, ended⟩
    rw [reached]
    exact ended

theorem Returns.bind {first : Program σ ε α} {next : α → Program σ ε β} {state state' state'' : σ}
    {middle : α} {value : β} (reached : first.Returns state middle state')
    (ended : (next middle).Returns state' value state'') :
    (first >>= next).Returns state value state'' :=
  returns_bind.mpr ⟨middle, state', reached, ended⟩

theorem Returns.bind_eq {first : Program σ ε α} {next : α → Program σ ε β} {state state' : σ}
    {middle : α} (reached : first.Returns state middle state') :
    (first >>= next) state = next middle state' := by
  unfold Returns at reached
  simp only [Bind.bind, reached]

theorem Throws.bind {first : Program σ ε α} {next : α → Program σ ε β} {state state' : σ}
    {reason : ε} (thrown : first.Throws state reason state') :
    (first >>= next).Throws state reason state' := by
  unfold Throws at thrown ⊢
  simp only [Bind.bind, thrown]

theorem bind_cases {first : Program σ ε α} {next : α → Program σ ε β} {state state'' : σ}
    {outcome : Except ε β} (ended : (first >>= next) state = some (outcome, state'')) :
    (∃ middle state', first.Returns state middle state' ∧
      next middle state' = some (outcome, state'')) ∨
    ∃ reason, first.Throws state reason state'' ∧ outcome = .error reason := by
  simp only [Bind.bind] at ended
  split at ended
  · cases ended
  · rename_i middle state' reached
    exact Or.inl ⟨middle, state', reached, ended⟩
  · rename_i reason state' thrown
    cases ended
    exact Or.inr ⟨reason, thrown, rfl⟩

theorem bind_first {first : Program σ ε α} {next : α → Program σ ε β} {state state'' : σ}
    {outcome : Except ε β} (ended : (first >>= next) state = some (outcome, state'')) :
    ∃ outcome' state', first state = some (outcome', state') := by
  rcases bind_cases ended with ⟨_, _, reached, _⟩ | ⟨_, thrown, _⟩
  · exact ⟨_, _, reached⟩
  · exact ⟨_, _, thrown⟩

/-- A result that is put into an answer. -/
theorem answer_eq_some {first : Program σ ε α} {answer : α → β} {state state' : σ}
    {outcome : Except ε β} :
    (first >>= fun value => pure (answer value)) state = some (outcome, state') ↔
      ∃ outcome', first state = some (outcome', state') ∧ outcome'.map answer = outcome := by
  simp only [Bind.bind]
  cases first state with
  | none => simp
  | some ended =>
      obtain ⟨outcome', after⟩ := ended
      cases outcome' with
      | ok value =>
          constructor
          · intro ended
            cases ended
            exact ⟨_, rfl, rfl⟩
          · intro ended
            obtain ⟨_, same, rfl⟩ := ended
            cases same
            rfl
      | error reason =>
          constructor
          · intro ended
            cases ended
            exact ⟨_, rfl, rfl⟩
          · intro ended
            obtain ⟨_, same, rfl⟩ := ended
            cases same
            rfl

theorem loop_eq (body : β → Program σ ε (β ⊕ α)) (current : β) :
    (loop body current : Program σ ε α) = body current >>= fun turn =>
      match turn with
      | .inl next => loop body next
      | .inr value => Pure.pure value := by
  funext state
  rw [loop, loopFrom]
  simp only [Bind.bind]
  split
  · rename_i stuck
    rw [stuck]
  · rename_i reason state' thrown
    rw [thrown]
  · rename_i next state' again
    rw [again]
    rfl
  · rename_i value state' left
    rw [left]
    rfl

/-- What an exception or an exit out of a turn begins and a turn before it keeps holds
of every end of a loop. -/
theorem loop_induct {body : β → Program σ ε (β ⊕ α)} {motive : β → σ → Except ε α → σ → Prop}
    (throws : ∀ current state reason state', (body current).Throws state reason state' →
      motive current state (.error reason) state')
    (exits : ∀ current state value state', (body current).Returns state (.inr value) state' →
      motive current state (.ok value) state')
    (again : ∀ current state next state' outcome state'',
      (body current).Returns state (.inl next) state' → motive next state' outcome state'' →
        motive current state outcome state'')
    {current : β} {state : σ} {outcome : Except ε α} {state'' : σ}
    (ended : loop body current state = some (outcome, state'')) :
    motive current state outcome state'' := by
  refine loopFrom.partial_correctness body (fun turn state result =>
    ∀ current, turn = body current → motive current state result.1 result.2) ?_
    (body current) state (outcome, state'') ended current rfl
  intro rest ih turn state result taken current same
  subst same
  split at taken
  · cases taken
  · rename_i reason state' thrown
    cases taken
    exact throws current state reason state' thrown
  · rename_i next state' reached
    exact again current state next state' _ _ reached (ih _ state' result taken next rfl)
  · rename_i value state' left
    cases taken
    exact exits current state value state' left

theorem loop_again {body : β → Program σ ε (β ⊕ α)} {current next : β} {state state' : σ}
    (turn : (body current).Returns state (.inl next) state') :
    loop body current state = loop body next state' := by
  rw [loop_eq, turn.bind_eq]

theorem Returns.loop_exit {body : β → Program σ ε (β ⊕ α)} {current : β} {value : α}
    {state state' : σ} (turn : (body current).Returns state (.inr value) state') :
    Returns (loop body current) state value state' := by
  unfold Returns
  rw [loop_eq, turn.bind_eq]
  rfl

theorem Throws.loop_exit {body : β → Program σ ε (β ⊕ α)} {current : β} {reason : ε}
    {state state' : σ} (turn : (body current).Throws state reason state') :
    Throws (loop body current) state reason state' := by
  rw [loop_eq]
  exact turn.bind

theorem Throws.loop_again {body : β → Program σ ε (β ⊕ α)} {current next : β} {reason : ε}
    {state state' state'' : σ} (turn : (body current).Returns state (.inl next) state')
    (rest : Throws (loop body next) state' reason state'') :
    Throws (loop body current) state reason state'' := by
  unfold Throws at rest ⊢
  rw [Program.loop_again turn, rest]

theorem Returns.loop_again {body : β → Program σ ε (β ⊕ α)} {current next : β} {value : α}
    {state state' state'' : σ} (turn : (body current).Returns state (.inl next) state')
    (rest : Returns (loop body next) state' value state'') :
    Returns (loop body current) state value state'' := by
  unfold Returns at rest ⊢
  rw [Program.loop_again turn, rest]

theorem Returns.loop_cases {body : β → Program σ ε (β ⊕ α)} {current : β} {value : α}
    {state state'' : σ} (returned : Returns (loop body current) state value state'') :
    (body current).Returns state (.inr value) state'' ∨
      ∃ next state', (body current).Returns state (.inl next) state' ∧
        Returns (loop body next) state' value state'' := by
  rw [loop_eq] at returned
  obtain ⟨turn, state', reached, rest⟩ := returns_bind.mp returned
  cases turn with
  | inl next => exact Or.inr ⟨next, state', reached, rest⟩
  | inr left =>
      obtain ⟨same, here⟩ := (returns_pure _ _ _ _).mp rest
      rw [same, here] at reached
      exact Or.inl reached

section Within

variable {τ : Type}

def within (part : τ → σ) (put : τ → σ → τ) (program : Program σ ε α) : Program τ ε α := fun state =>
  (program (part state)).map fun ended => (ended.1, put state ended.2)

theorem Returns.within (part : τ → σ) (put : τ → σ → τ) {program : Program σ ε α} {state : τ}
    {value : α} {inner : σ} (returned : program.Returns (part state) value inner) :
    (Program.within part put program).Returns state value (put state inner) := by
  unfold Returns at returned ⊢
  rw [Program.within, returned, Option.map_some]

theorem within_eq_some {part : τ → σ} {put : τ → σ → τ} {program : Program σ ε α}
    {state state' : τ} {outcome : Except ε α} :
    within part put program state = some (outcome, state') ↔
      ∃ inner, program (part state) = some (outcome, inner) ∧ put state inner = state' := by
  rw [within, Option.map_eq_some_iff]
  constructor
  · intro ended
    obtain ⟨⟨result, inner⟩, inside, same⟩ := ended
    cases same
    exact ⟨inner, inside, rfl⟩
  · intro ended
    obtain ⟨inner, inside, same⟩ := ended
    exact ⟨(outcome, inner), inside, by rw [same]⟩

end Within

/-- `assert`. -/
def assert (holds : Bool) : Program σ ε Unit := fun state =>
  if holds then some (.ok ⟨⟩, state) else none

theorem assert_returns {holds : Bool} (true : holds = true) (state : σ) :
    (assert holds : Program σ ε Unit).Returns state ⟨⟩ state := by
  unfold Returns
  rw [assert, if_pos true]

def ofOption (value : Option α) : Program σ ε α := fun state =>
  value.map fun found => (.ok found, state)

theorem returns_ofOption {value : Option α} {found : α} {state state' : σ} :
    (ofOption value : Program σ ε α).Returns state found state' ↔ value = some found ∧ state = state' := by
  unfold Returns
  rw [ofOption]
  cases value <;> simp

theorem not_throws_ofOption {value : Option α} {reason : ε} {state state' : σ} :
    ¬ (ofOption value : Program σ ε α).Throws state reason state' := by
  unfold Throws
  rw [ofOption]
  cases value <;> simp

def ofExcept (found : Except ε α) : Program σ ε α := fun state => some (found, state)

section Keeps

variable {τ : Type} {part : σ → τ}

def Keeps (program : Program σ ε α) (part : σ → τ) : Prop :=
  ∀ state outcome state', program state = some (outcome, state') → part state' = part state

/-- What is computed from the part is the same as well. -/
theorem Keeps.map {υ : Type} {program : Program σ ε α} (keeps : Keeps program part) (f : τ → υ) :
    Keeps program fun state => f (part state) :=
  fun state outcome state' ended => congrArg f (keeps state outcome state' ended)

theorem Keeps.pure (value : α) : Keeps (Pure.pure value : Program σ ε α) part := by
  intro state outcome state' ended
  cases ended
  rfl

theorem Keeps.modify {change : σ → σ} (same : ∀ state, part (change state) = part state) :
    Keeps (modify change : Program σ ε PUnit) part := by
  intro state outcome state' ended
  cases ended
  exact same state

theorem Keeps.bind {first : Program σ ε α} {next : α → Program σ ε β} (keepsFirst : Keeps first part)
    (keepsNext : ∀ value, Keeps (next value) part) : Keeps (first >>= next) part := by
  intro state outcome state'' ended
  rcases bind_cases ended with ⟨middle, state', reached, rest⟩ | ⟨reason, thrown, _⟩
  · rw [keepsNext middle _ _ _ rest, keepsFirst _ _ _ reached]
  · exact keepsFirst _ _ _ thrown

theorem Keeps.loop {body : β → Program σ ε (β ⊕ α)} (keeps : ∀ current, Keeps (body current) part)
    (current : β) : Keeps (loop body current) part := by
  intro state outcome state' ended
  refine loop_induct (motive := fun _ state _ state' => part state' = part state) ?_ ?_ ?_ ended
  · exact fun current state reason state' thrown => keeps current _ _ _ thrown
  · exact fun current state value state' left => keeps current _ _ _ left
  · intro current state next state' outcome state'' reached same
    rw [same, keeps current _ _ _ reached]

end Keeps

section Leads

variable {before after : σ → Prop}

/-- However the program ends, from `before` it leads to `after`. -/
def Leads (program : Program σ ε α) (before after : σ → Prop) : Prop :=
  ∀ state outcome state', before state → program state = some (outcome, state') → after state'

theorem Leads.pure (value : α) : Leads (Pure.pure value : Program σ ε α) after after := by
  intro state outcome state' held ended
  cases ended
  exact held

theorem Leads.bind {first : Program σ ε α} {next : α → Program σ ε β}
    (leads : Leads first before after) (rest : ∀ value, Leads (next value) after after) :
    Leads (first >>= next) before after := by
  intro state outcome state'' held ended
  rcases bind_cases ended with ⟨middle, state', reached, ended'⟩ | ⟨reason, thrown, _⟩
  · exact rest middle _ _ _ (leads _ _ _ held reached) ended'
  · exact leads _ _ _ held thrown

theorem Leads.loop {body : β → Program σ ε (β ⊕ α)}
    (keeps : ∀ current, Leads (body current) after after)
    (current : β) : Leads (loop body current) after after := by
  intro state outcome state' held ended
  refine loop_induct (motive := fun _ state _ state' => after state → after state') ?_ ?_ ?_ ended
    held
  · exact fun current state reason state' thrown held => keeps current _ _ _ held thrown
  · exact fun current state value state' left held => keeps current _ _ _ held left
  · intro current state next state' outcome state'' reached further held
    exact further (keeps current _ _ _ held reached)

end Leads

end Program

end RelationalDb
