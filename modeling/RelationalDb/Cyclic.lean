import Mathlib.Algebra.Order.Ring.Int
import Mathlib.Order.WellFounded

set_option autoImplicit false

namespace RelationalDb.Cyclic

variable {N : Nat}

/-- The position some steps further round a ring of `N` positions. -/
def ahead (start : Fin N) (steps : Nat) : Fin N :=
  ⟨(start.val + steps) % N, Nat.mod_lt _ start.pos⟩

def distance (start target : Fin N) : Nat := (target.val + N - start.val) % N

@[simp] theorem ahead_val (start : Fin N) (steps : Nat) :
    (ahead start steps).val = (start.val + steps) % N := rfl

@[simp] theorem ahead_zero (start : Fin N) : ahead start 0 = start :=
  Fin.ext (Nat.mod_eq_of_lt start.isLt)

theorem distance_lt (start target : Fin N) : distance start target < N :=
  Nat.mod_lt _ start.pos

theorem ahead_distance (start target : Fin N) : ahead start (distance start target) = target := by
  have startBound := start.isLt
  have targetBound := target.isLt
  apply Fin.ext
  rw [ahead_val, distance, Nat.add_mod_mod,
    show start.val + (target.val + N - start.val) = target.val + N by omega, Nat.add_mod_right,
    Nat.mod_eq_of_lt targetBound]

theorem distance_self (start : Fin N) : distance start start = 0 := by
  rw [distance, Nat.add_sub_cancel_left, Nat.mod_self]

/-- Whole rounds do not count. -/
theorem distance_ahead (start : Fin N) (steps : Nat) :
    distance start (ahead start steps) = steps % N := by
  have startBound := start.isLt
  rw [distance, ahead_val]
  by_cases wraps : start.val + steps % N < N
  · rw [show (start.val + steps) % N = start.val + steps % N by
        rw [← Nat.add_mod_mod, Nat.mod_eq_of_lt wraps],
      show start.val + steps % N + N - start.val = steps % N + N by omega, Nat.add_mod_right,
      Nat.mod_mod]
  · have small := Nat.mod_lt steps start.pos
    rw [show (start.val + steps) % N = start.val + steps % N - N by
        rw [← Nat.add_mod_mod, Nat.mod_eq_sub_mod (by omega), Nat.mod_eq_of_lt (by omega)],
      show start.val + steps % N - N + N - start.val = steps % N by omega, Nat.mod_mod]

theorem distance_ahead_of_lt (start : Fin N) {steps : Nat} (small : steps < N) :
    distance start (ahead start steps) = steps := by
  rw [distance_ahead, Nat.mod_eq_of_lt small]

theorem distance_inj {start first second : Fin N}
    (same : distance start first = distance start second) : first = second := by
  rw [← ahead_distance start first, same, ahead_distance]

theorem reached_iff (start target : Fin N) (steps : Nat) :
    (∃ earlier < steps, ahead start earlier = target) ↔ distance start target < steps := by
  constructor
  · rintro ⟨earlier, before, rfl⟩
    rw [distance_ahead]
    exact Nat.lt_of_le_of_lt (Nat.mod_le _ _) before
  · intro near
    exact ⟨_, near, ahead_distance start target⟩

/-- The first position with a property, from a start on round the ring. -/
structure First (start : Fin N) (wanted : Fin N → Prop) (target : Fin N) : Prop where
  holds : wanted target
  least : ∀ other, wanted other → distance start target ≤ distance start other

theorem First.unique {start first second : Fin N} {wanted : Fin N → Prop}
    (first_holds : First start wanted first) (second_holds : First start wanted second) :
    first = second :=
  distance_inj (Nat.le_antisymm (first_holds.least _ second_holds.holds)
    (second_holds.least _ first_holds.holds))

theorem First.exists {start : Fin N} {wanted : Fin N → Prop} (some : ∃ target, wanted target) :
    ∃ target, First start wanted target := by
  obtain ⟨target, holds, least⟩ := WellFounded.has_min (measure (distance start)).wf
    {target | wanted target} some
  exact ⟨target, holds, fun other wants => Nat.le_of_not_lt (least other wants)⟩

/-- A position with the property is not the first one exactly when another one is nearer. -/
theorem First.ne_iff {start first target : Fin N} {wanted : Fin N → Prop}
    (first_holds : First start wanted first) (holds : wanted target) :
    first ≠ target ↔
      ∃ other, wanted other ∧ distance start other < distance start target := by
  constructor
  · intro apart
    refine ⟨first, first_holds.holds, Nat.lt_of_le_of_ne (first_holds.least _ holds) ?_⟩
    intro same
    exact apart (distance_inj same)
  · rintro ⟨other, wants, nearer⟩ rfl
    have least := first_holds.least other wants
    omega

end RelationalDb.Cyclic
