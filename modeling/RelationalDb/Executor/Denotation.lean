import RelationalDb.Executor.Operator

set_option autoImplicit false

namespace RelationalDb

def valueAt (values : List Value) (position : Nat) : Option Value :=
  if position = 0 then none else values[position - 1]?

def projected (colPos : Finset UInt16) (outSchema : Schema) (tup : Tuple) : Tuple :=
  ⟨((colPos.image UInt16.toNat).sort (· ≤ ·)).filterMap (valueAt tup.values), outSchema⟩

namespace Plan

/-- The list function a plan stands for. -/
def denotation : Plan → List Tuple → List Tuple
  | leaf, tuples => tuples
  | filterOp child pred, tuples => (child.denotation tuples).filter pred
  | projectionOp child colPos outSchema, tuples =>
      (child.denotation tuples).map (projected colPos outSchema)
  | limitOp child limit, tuples => (child.denotation tuples).take limit

/-- A strictly ascending list splits at each number. -/
theorem filter_above {positions : List Nat} (ascending : positions.Pairwise (· < ·)) (index : Nat) :
    positions.filter (index < ·) =
      (if index + 1 ∈ positions then [index + 1] else []) ++ positions.filter (index + 1 < ·) := by
  induction ascending with
  | nil => rfl
  | @cons position positions above ascending ih =>
      rcases Nat.lt_trichotomy position (index + 1) with below | here | beyond
      · have apart : index + 1 ≠ position := by omega
        have passed : ¬ index < position := by omega
        have passed' : ¬ index + 1 < position := by omega
        simpa [apart, passed, passed'] using ih
      · subst here
        have rest : ∀ other ∈ positions, index < other ∧ index + 1 < other := by
          intro other member
          have later := above other member
          omega
        have left : positions.filter (index < ·) = positions :=
          List.filter_eq_self.mpr fun other member => decide_eq_true (rest other member).1
        have right : positions.filter (index + 1 < ·) = positions :=
          List.filter_eq_self.mpr fun other member => decide_eq_true (rest other member).2
        simp [left, right]
      · have rest : ∀ other ∈ positions, index < other ∧ index + 1 < other := by
          intro other member
          have later := above other member
          omega
        have left : positions.filter (index < ·) = positions :=
          List.filter_eq_self.mpr fun other member => decide_eq_true (rest other member).1
        have right : positions.filter (index + 1 < ·) = positions :=
          List.filter_eq_self.mpr fun other member => decide_eq_true (rest other member).2
        have missing : index + 1 ∉ positions := by
          intro member
          have later := above _ member
          omega
        have apart : index + 1 ≠ position := by omega
        have passed : index < position := by omega
        simp [left, right, missing, apart, passed, beyond]

theorem mem_positions (colPos : Finset UInt16) {position : Nat} (bound : position < 65536) :
    position ∈ (colPos.image UInt16.toNat).sort (· ≤ ·) ↔ UInt16.ofNat position ∈ colPos := by
  rw [Finset.mem_sort, Finset.mem_image]
  constructor
  · intro found
    obtain ⟨listed, member, same⟩ := found
    rwa [← same, UInt16.ofNat_toNat]
  · intro member
    exact ⟨_, member, UInt16.toNat_ofNat_of_lt' bound⟩

/-- The loop of `Project` on a tuple of fewer than 65536 values. -/
theorem projectFrom_eq (colPos : Finset UInt16) (vals : List Value) (index : Nat)
    (small : index + vals.length < 65536) :
    projectFrom colPos index vals =
      (((colPos.image UInt16.toNat).sort (· ≤ ·)).filter (index < ·)).filterMap
        fun position => vals[position - 1 - index]? := by
  have ascending := (Finset.sortedLT_sort (colPos.image UInt16.toNat)).pairwise
  induction vals generalizing index with
  | nil =>
      symm
      apply List.filterMap_eq_nil_iff.mpr
      intro position _
      exact List.getElem?_nil
  | cons val vals ih =>
      rw [List.length_cons] at small
      have rest : (((colPos.image UInt16.toNat).sort (· ≤ ·)).filter (index + 1 < ·)).filterMap
          (fun position => (val :: vals)[position - 1 - index]?) =
          projectFrom colPos (index + 1) vals := by
        rw [ih (index + 1) (by omega)]
        apply List.filterMap_congr
        intro position member
        have above : index + 1 < position := of_decide_eq_true (List.mem_filter.mp member).2
        rw [show position - 1 - index = position - 1 - (index + 1) + 1 by omega,
          List.getElem?_cons_succ]
      rw [filter_above ascending, List.filterMap_append, rest]
      have listed := mem_positions colPos (show index + 1 < 65536 by omega)
      by_cases member : UInt16.ofNat (index + 1) ∈ colPos
      · rw [projectFrom, if_pos member, if_pos (listed.mpr member)]
        simp
      · rw [projectFrom, if_neg member, if_neg (listed.not.mpr member)]
        rfl

theorem project_eq (colPos : Finset UInt16) (outSchema : Schema) (tup : Tuple)
    (small : tup.values.length < 65536) :
    project colPos outSchema tup = projected colPos outSchema tup := by
  rw [project, projected, projectFrom_eq colPos tup.values 0 (by omega)]
  congr 1
  rw [List.filterMap_filter]
  apply List.filterMap_congr
  intro position _
  unfold valueAt
  by_cases zero : position = 0
  · simp [zero]
  · simp [zero, Nat.pos_of_ne_zero zero]

theorem projectFrom_length (colPos : Finset UInt16) (vals : List Value) (index : Nat) :
    (projectFrom colPos index vals).length ≤ vals.length := by
  induction vals generalizing index with
  | nil => exact Nat.le_refl _
  | cons val vals ih =>
      unfold projectFrom
      split
      · exact Nat.succ_le_succ (ih (index + 1))
      · exact Nat.le_succ_of_le (ih (index + 1))

theorem denotation_small {tuples : List Tuple} (small : ∀ tup ∈ tuples, tup.values.length < 65536)
    (plan : Plan) : ∀ tup ∈ plan.denotation tuples, tup.values.length < 65536 := by
  induction plan with
  | leaf => exact small
  | filterOp child pred ih =>
      intro tup member
      exact ih tup (List.mem_of_mem_filter member)
  | projectionOp child colPos outSchema ih =>
      intro tup member
      obtain ⟨source, inChild, rfl⟩ := List.mem_map.mp member
      have old := ih source inChild
      rw [← project_eq colPos outSchema source old]
      exact Nat.lt_of_le_of_lt (projectFrom_length colPos source.values 0) old
  | limitOp child limit ih =>
      intro tup member
      exact ih tup (List.mem_of_mem_take member)

end Plan

end RelationalDb
