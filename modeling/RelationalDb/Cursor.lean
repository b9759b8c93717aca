import Mathlib.Algebra.Order.Ring.Int
import Mathlib.Data.Set.Defs

set_option autoImplicit false

namespace RelationalDb

variable {P : Type} [LinearOrder P]

/-- A cursor that goes upwards through an ordered collection: where it stands,
whether the item there was taken, and the items taken so far, latest first. -/
structure Cursor (P : Type) where
  position : Option P
  taken : Bool
  yielded : List P

namespace Cursor

/-- The next item of a collection from a place on, or none. -/
def Least (items : Set P) (reached : P → Prop) : Option P → Prop
  | some item => item ∈ items ∧ reached item ∧ ∀ other ∈ items, reached other → item ≤ other
  | none => ∀ other ∈ items, ¬ reached other

theorem Least.congr {items : Set P} {reached reached' : P → Prop} {next : Option P}
    (least : Least items reached next) (same : ∀ item, reached item ↔ reached' item) :
    Least items reached' next := by
  rwa [show reached' = reached from funext fun item => propext (same item).symm]

/-- The places a cursor has not passed. -/
def Ahead (cursor : Cursor P) (place : P) : Prop :=
  ∃ position, cursor.position = some position ∧
    if cursor.taken then position < place else position ≤ place

/-- A cursor that missed none of the items that were there all along. -/
structure Complete (cursor : Cursor P) (kept : Set P) : Prop where
  ordered : cursor.yielded.Pairwise (· > ·)
  behind : ∀ position, cursor.position = some position → ∀ item ∈ cursor.yielded,
    if cursor.taken then item ≤ position else item < position
  covered : ∀ item ∈ kept, item ∈ cursor.yielded ∨ cursor.Ahead item

theorem Complete.mono {cursor : Cursor P} {kept kept' : Set P} (complete : Complete cursor kept)
    (fewer : ∀ item ∈ kept', item ∈ kept) : Complete cursor kept' :=
  ⟨complete.ordered, complete.behind, fun item member => complete.covered item (fewer item member)⟩

/-- A cursor starts at the first item. -/
theorem Complete.start {items kept : Set P} {first : Option P}
    (least : Least items (fun _ => True) first) (inside : ∀ item ∈ kept, item ∈ items) :
    Complete ⟨first, false, []⟩ kept := by
  refine ⟨List.Pairwise.nil, ?_, ?_⟩
  · intro position _ item member
    cases member
  · intro item member
    right
    cases first with
    | none => exact absurd trivial (least item (inside item member))
    | some position => exact ⟨position, rfl, least.2.2 item (inside item member) trivial⟩

theorem Complete.take {kept : Set P} {position : P} {yielded : List P}
    (complete : Complete ⟨some position, false, yielded⟩ kept) :
    Complete ⟨some position, true, position :: yielded⟩ kept := by
  have below : ∀ item ∈ yielded, item < position := complete.behind position rfl
  refine ⟨List.Pairwise.cons below complete.ordered, ?_, ?_⟩
  · intro other same item member
    cases same
    rcases List.mem_cons.mp member with here | earlier
    · exact le_of_eq here
    · exact le_of_lt (below item earlier)
  · intro item member
    rcases complete.covered item member with earlier | ⟨other, same, ahead⟩
    · exact Or.inl (List.mem_cons_of_mem _ earlier)
    · cases same
      rcases eq_or_lt_of_le (show position ≤ item from ahead) with here | further
      · exact Or.inl (List.mem_cons.mpr (Or.inl here.symm))
      · exact Or.inr ⟨position, rfl, further⟩

theorem Complete.move {items kept : Set P} {position : P} {next : Option P} {yielded : List P}
    (complete : Complete ⟨some position, true, yielded⟩ kept)
    (least : Least items (fun item => position < item) next)
    (inside : ∀ item ∈ kept, item ∈ items) : Complete ⟨next, false, yielded⟩ kept := by
  refine ⟨complete.ordered, ?_, ?_⟩
  · intro other same item member
    cases same
    exact lt_of_le_of_lt (complete.behind position rfl item member) least.2.1
  · intro item member
    rcases complete.covered item member with earlier | ⟨other, same, ahead⟩
    · exact Or.inl earlier
    · cases same
      right
      cases next with
      | none => exact absurd ahead (least item (inside item member))
      | some target => exact ⟨target, rfl, least.2.2 item (inside item member) ahead⟩

theorem Complete.ended {cursor : Cursor P} {kept : Set P} (complete : Complete cursor kept)
    (atEnd : cursor.position = none) : ∀ item ∈ kept, item ∈ cursor.yielded := by
  intro item member
  rcases complete.covered item member with earlier | ⟨position, same, _⟩
  · exact earlier
  · rw [atEnd] at same
    cases same

end Cursor

end RelationalDb
