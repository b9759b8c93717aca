import Mathlib.Algebra.Order.Ring.Int

set_option autoImplicit false

namespace RelationalDb

variable {σ ε : Type}

/-- A run of a system and its log, latest event first. A step may depend on the
log, since what a client may ask for depends on what it was given. -/
inductive Run (step : List ε → σ → ε → σ → Prop) (start : σ) : List ε → σ → Prop
  | nil : Run step start [] start
  | cons {log : List ε} {state state' : σ} {event : ε} (previous : Run step start log state)
      (taken : step log state event state') : Run step start (event :: log) state'

namespace Run

variable {step : List ε → σ → ε → σ → Prop} {start : σ}

theorem invariant {log : List ε} {state : σ} (run : Run step start log state)
    (holds : List ε → σ → Prop) (initial : holds [] start)
    (kept : ∀ log state event state', Run step start log state → holds log state →
      step log state event state' → holds (event :: log) state') : holds log state := by
  induction run with
  | nil => exact initial
  | cons previous taken ih => exact kept _ _ _ _ previous ih taken

theorem mono {step' : List ε → σ → ε → σ → Prop} {log : List ε} {state : σ}
    (run : Run step start log state)
    (allowed : ∀ log state event state', step log state event state' →
      step' log state event state') : Run step' start log state := by
  induction run with
  | nil => exact .nil
  | cons previous taken ih => exact .cons ih (allowed _ _ _ _ taken)

/-- A relation that every step carries over to another system turns a run of the
one into a run of the other with the same log. -/
theorem simulates {σ' : Type} {step' : List ε → σ' → ε → σ' → Prop} {start' : σ'}
    (relates : List ε → σ → σ' → Prop) (initial : relates [] start start')
    (carried : ∀ log state event state' other, relates log state other →
      step log state event state' →
      ∃ other', step' log other event other' ∧ relates (event :: log) state' other')
    {log : List ε} {state : σ} (run : Run step start log state) :
    ∃ other, Run step' start' log other ∧ relates log state other := by
  induction run with
  | nil => exact ⟨start', .nil, initial⟩
  | cons previous taken ih =>
      obtain ⟨other, run', related⟩ := ih
      obtain ⟨other', taken', related'⟩ := carried _ _ _ _ other related taken
      exact ⟨other', run'.cons taken', related'⟩

theorem unique (functional : ∀ log state event a b, step log state event a →
    step log state event b → a = b) {log : List ε} {state state' : σ}
    (run : Run step start log state) (run' : Run step start log state') : state = state' := by
  induction run generalizing state' with
  | nil =>
      cases run' with
      | nil => rfl
  | cons previous taken ih =>
      cases run' with
      | cons previous' taken' =>
          rw [← ih previous'] at taken'
          exact functional _ _ _ _ _ taken taken'

/-- What holds at a point of a run and every step keeps holds ever after. -/
theorem after (functional : ∀ log state event a b, step log state event a →
    step log state event b → a = b) {first second : List ε} {state state' : σ}
    (run : Run step start first state) (run' : Run step start (second ++ first) state')
    (holds : List ε → σ → Prop) (initial : holds first state)
    (kept : ∀ log state event state', Run step start log state → holds log state →
      step log state event state' → holds (event :: log) state') :
    holds (second ++ first) state' := by
  induction second generalizing state' with
  | nil =>
      rw [← run.unique functional run']
      exact initial
  | cons event second ih =>
      cases run' with
      | cons previous taken => exact kept _ _ _ _ previous (ih previous) taken

theorem split {first second : List ε} {state : σ} (run : Run step start (second ++ first) state) :
    ∃ middle, Run step start first middle := by
  induction second generalizing state with
  | nil => exact ⟨state, run⟩
  | cons event second ih =>
      cases run with
      | cons previous _ => exact ih previous

end Run

end RelationalDb
