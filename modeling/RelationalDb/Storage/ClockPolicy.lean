import Mathlib.Data.Fintype.Basic
import Mathlib.Data.Nat.Find
import Mathlib.Logic.Function.Basic
import RelationalDb.Config
import RelationalDb.Cyclic

set_option autoImplicit false

namespace RelationalDb

structure Frame where
  pageId : Int
  pinCount : Int
  dirty : Bool
  data : Page

/-- `ClockPolicy` over `N` frames. A frame is named by its index, so `frame_idx_`
is the identity; `frames_` is the pool handed to `chooseVictim`. -/
@[ext] structure ClockPolicy (N : Nat) where
  hand : Fin N
  refBits : Fin N → Bool

namespace ClockPolicy

open Cyclic (ahead distance ahead_val ahead_zero ahead_distance distance_ahead distance_ahead_of_lt
  distance_lt reached_iff)

variable {N : Nat}

def new (N : Nat) [NeZero N] : ClockPolicy N :=
  { hand := ⟨0, Nat.pos_of_ne_zero (NeZero.ne N)⟩, refBits := fun _ => false }

def advanceHand (policy : ClockPolicy N) : ClockPolicy N :=
  { policy with hand := ⟨(policy.hand.val + 1) % N, Nat.mod_lt _ policy.hand.pos⟩ }

def setRefBit (policy : ClockPolicy N) (frame : Fin N) (bit : Bool) : ClockPolicy N :=
  { policy with refBits := Function.update policy.refBits frame bit }

def recordAccess (policy : ClockPolicy N) (frame : Fin N) : ClockPolicy N :=
  policy.setRefBit frame true

def recordLoad (policy : ClockPolicy N) (frame : Fin N) : ClockPolicy N :=
  policy.setRefBit frame true

def recordUnpin (policy : ClockPolicy N) (frame : Fin N) : ClockPolicy N :=
  policy.setRefBit frame false

/-- The loop of `choose_victim`, with the number of inspections that are left. -/
def sweep (frames : Fin N → Frame) : Nat → ClockPolicy N → Option (Fin N) × ClockPolicy N
  | 0, policy => (none, policy)
  | left + 1, policy =>
      if (frames policy.hand).pinCount = 0 then
        if policy.refBits policy.hand = false then (some policy.hand, policy)
        else sweep frames left (policy.setRefBit policy.hand false).advanceHand
      else sweep frames left policy.advanceHand

def chooseVictim (policy : ClockPolicy N) (frames : Fin N → Frame) :
    Option (Fin N) × ClockPolicy N :=
  sweep frames (2 * N) policy

/-- The frames the loop inspects and goes on from, in order. -/
def skipped (frames : Fin N → Frame) : Nat → ClockPolicy N → List (Fin N)
  | 0, _ => []
  | left + 1, policy =>
      if (frames policy.hand).pinCount = 0 then
        if policy.refBits policy.hand = false then []
        else policy.hand :: skipped frames left (policy.setRefBit policy.hand false).advanceHand
      else policy.hand :: skipped frames left policy.advanceHand

/-- The frames `choose_victim` passes over. -/
def passedOver (policy : ClockPolicy N) (frames : Fin N → Frame) : List (Fin N) :=
  skipped frames (2 * N) policy

@[simp] theorem setRefBit_hand (policy : ClockPolicy N) (frame : Fin N) (bit : Bool) :
    (policy.setRefBit frame bit).hand = policy.hand := rfl

@[simp] theorem setRefBit_refBits (policy : ClockPolicy N) (frame : Fin N) (bit : Bool) :
    (policy.setRefBit frame bit).refBits = Function.update policy.refBits frame bit := rfl

@[simp] theorem advanceHand_refBits (policy : ClockPolicy N) :
    policy.advanceHand.refBits = policy.refBits := rfl

@[simp] theorem advanceHand_hand_val (policy : ClockPolicy N) :
    policy.advanceHand.hand.val = (policy.hand.val + 1) % N := rfl

def Clear (policy : ClockPolicy N) (frames : Fin N → Frame) (frame : Fin N) : Prop :=
  (frames frame).pinCount = 0 ∧ policy.refBits frame = false

instance (policy : ClockPolicy N) (frames : Fin N → Frame) (frame : Fin N) :
    Decidable (policy.Clear frames frame) :=
  inferInstanceAs (Decidable (_ ∧ _))

/-- The policy after the hand went some steps on without a victim. -/
def swept (policy : ClockPolicy N) (frames : Fin N → Frame) (steps : Nat) : ClockPolicy N :=
  { hand := ahead policy.hand steps
    refBits := fun frame =>
      if (frames frame).pinCount = 0 ∧ distance policy.hand frame < steps then false
      else policy.refBits frame }

variable {policy : ClockPolicy N} {frames : Fin N → Frame} {steps : Nat}

theorem swept_zero : policy.swept frames 0 = policy := by
  refine ClockPolicy.ext (ahead_zero policy.hand) ?_
  funext frame
  simp only [swept, Nat.not_lt_zero, and_false, ↓reduceIte]

theorem swept_succ_refBits {frame : Fin N} (apart : frame ≠ ahead policy.hand steps) :
    (policy.swept frames (steps + 1)).refBits frame = (policy.swept frames steps).refBits frame := by
  have further : distance policy.hand frame ≠ steps := by
    rintro rfl
    exact apart (ahead_distance policy.hand frame).symm
  have same : distance policy.hand frame < steps + 1 ↔ distance policy.hand frame < steps := by
    omega
  simp only [swept, same]

theorem swept_advanceHand : (policy.swept frames steps).advanceHand.hand =
    (policy.swept frames (steps + 1)).hand := by
  apply Fin.ext
  simp only [advanceHand_hand_val, swept, ahead_val, Nat.mod_add_mod, Nat.add_assoc]

/-- A pinned frame is left alone. -/
theorem swept_pinned (pinned : (frames (ahead policy.hand steps)).pinCount ≠ 0) :
    (policy.swept frames steps).advanceHand = policy.swept frames (steps + 1) := by
  refine ClockPolicy.ext swept_advanceHand ?_
  funext frame
  by_cases here : frame = ahead policy.hand steps
  · subst here
    simp only [advanceHand_refBits, swept, pinned, false_and, ↓reduceIte]
  · rw [swept_succ_refBits here, advanceHand_refBits]

theorem swept_unpinned (unpinned : (frames (ahead policy.hand steps)).pinCount = 0) :
    ((policy.swept frames steps).setRefBit (ahead policy.hand steps) false).advanceHand =
      policy.swept frames (steps + 1) := by
  refine ClockPolicy.ext swept_advanceHand ?_
  funext frame
  by_cases here : frame = ahead policy.hand steps
  · subst here
    have passed : distance policy.hand (ahead policy.hand steps) < steps + 1 :=
      (reached_iff _ _ _).mp ⟨steps, Nat.lt_succ_self _, rfl⟩
    simp only [advanceHand_refBits, setRefBit_refBits, Function.update_self, swept, unpinned, passed,
      and_self, ↓reduceIte]
  · rw [swept_succ_refBits here, advanceHand_refBits, setRefBit_refBits, Function.update_of_ne here]

/-- The hand would stop after so many steps. -/
def Stops (policy : ClockPolicy N) (frames : Fin N → Frame) (steps : Nat) : Prop :=
  (policy.swept frames steps).Clear frames (ahead policy.hand steps)

instance (policy : ClockPolicy N) (frames : Fin N → Frame) (steps : Nat) :
    Decidable (policy.Stops frames steps) :=
  inferInstanceAs (Decidable (Clear _ _ _))

/-- The hand stops at an unpinned frame whose bit was clear from the start, and at
every unpinned frame in the second round. -/
theorem stops_iff :
    policy.Stops frames steps ↔
      (frames (ahead policy.hand steps)).pinCount = 0 ∧
        (policy.refBits (ahead policy.hand steps) = false ∨ N ≤ steps) := by
  have passed : distance policy.hand (ahead policy.hand steps) < steps ↔ N ≤ steps := by
    rw [distance_ahead]
    constructor
    · intro wrapped
      by_contra short
      rw [Nat.mod_eq_of_lt (by omega)] at wrapped
      omega
    · intro round
      have small := Nat.mod_lt steps policy.hand.pos
      omega
  have bit : (policy.swept frames steps).refBits (ahead policy.hand steps) =
      if (frames (ahead policy.hand steps)).pinCount = 0 ∧ N ≤ steps then false
      else policy.refBits (ahead policy.hand steps) := by
    simp only [swept, passed]
  unfold Stops Clear
  rw [bit]
  constructor
  · rintro ⟨unpinned, clear⟩
    refine ⟨unpinned, ?_⟩
    by_cases round : N ≤ steps
    · exact Or.inr round
    · rw [if_neg fun both => round both.2] at clear
      exact Or.inl clear
  · rintro ⟨unpinned, clear | round⟩
    · rw [clear, ite_self]
      exact ⟨unpinned, rfl⟩
    · rw [if_pos ⟨unpinned, round⟩]
      exact ⟨unpinned, rfl⟩

theorem sweep_step (policy : ClockPolicy N) (frames : Fin N → Frame) (steps left : Nat) :
    (policy.Stops frames steps ∧
      sweep frames (left + 1) (policy.swept frames steps) =
        (some (ahead policy.hand steps), policy.swept frames steps) ∧
      skipped frames (left + 1) (policy.swept frames steps) = []) ∨
    (¬ policy.Stops frames steps ∧
      sweep frames (left + 1) (policy.swept frames steps) =
        sweep frames left (policy.swept frames (steps + 1)) ∧
      skipped frames (left + 1) (policy.swept frames steps) =
        ahead policy.hand steps :: skipped frames left (policy.swept frames (steps + 1))) := by
  have hand : (policy.swept frames steps).hand = ahead policy.hand steps := rfl
  by_cases unpinned : (frames (ahead policy.hand steps)).pinCount = 0
  · by_cases clear : (policy.swept frames steps).refBits (ahead policy.hand steps) = false
    · left
      refine ⟨⟨unpinned, clear⟩, ?_, ?_⟩
      · rw [sweep, hand, if_pos unpinned, if_pos clear]
      · rw [skipped, hand, if_pos unpinned, if_pos clear]
    · right
      refine ⟨fun stops => clear stops.2, ?_, ?_⟩
      · rw [sweep, hand, if_pos unpinned, if_neg clear, swept_unpinned unpinned]
      · rw [skipped, hand, if_pos unpinned, if_neg clear, swept_unpinned unpinned]
  · right
    refine ⟨fun stops => unpinned stops.1, ?_, ?_⟩
    · rw [sweep, hand, if_neg unpinned, swept_pinned unpinned]
    · rw [skipped, hand, if_neg unpinned, swept_pinned unpinned]

theorem sweep_after (never : ∀ earlier < steps, ¬ policy.Stops frames earlier) (left : Nat) :
    sweep frames (steps + left) policy = sweep frames left (policy.swept frames steps) ∧
      skipped frames (steps + left) policy = (List.range steps).map (ahead policy.hand) ++
        skipped frames left (policy.swept frames steps) := by
  induction steps generalizing left with
  | zero =>
      rw [swept_zero, Nat.zero_add]
      exact ⟨rfl, rfl⟩
  | succ steps ih =>
      obtain ⟨swept, passed⟩ :=
        ih (fun earlier before => never earlier (Nat.lt_succ_of_lt before)) (left + 1)
      rcases sweep_step policy frames steps left with ⟨stops, _⟩ | ⟨_, further, skips⟩
      · exact absurd stops (never steps (Nat.lt_succ_self _))
      · rw [Nat.succ_add_eq_add_succ, swept, passed, further, skips, List.range_succ, List.map_append,
          List.append_assoc]
        exact ⟨rfl, rfl⟩

/-- The sweep ends where the hand first stops, or has gone round twice. -/
theorem chooseVictim_cases (policy : ClockPolicy N) (frames : Fin N → Frame) :
    (∃ steps < 2 * N, policy.Stops frames steps ∧
      (∀ earlier < steps, ¬ policy.Stops frames earlier) ∧
      policy.chooseVictim frames = (some (ahead policy.hand steps), policy.swept frames steps) ∧
      policy.passedOver frames = (List.range steps).map (ahead policy.hand)) ∨
    ((∀ steps < 2 * N, ¬ policy.Stops frames steps) ∧
      policy.chooseVictim frames = (none, policy.swept frames (2 * N)) ∧
      policy.passedOver frames = (List.range (2 * N)).map (ahead policy.hand)) := by
  by_cases stopped : ∃ steps, steps < 2 * N ∧ policy.Stops frames steps
  · left
    obtain ⟨inside, stops⟩ := Nat.find_spec stopped
    have never : ∀ earlier < Nat.find stopped, ¬ policy.Stops frames earlier :=
      fun earlier before stopsEarlier =>
        Nat.find_min stopped before ⟨Nat.lt_trans before inside, stopsEarlier⟩
    obtain ⟨swept, passed⟩ := sweep_after never (2 * N - Nat.find stopped - 1 + 1)
    rw [show Nat.find stopped + (2 * N - Nat.find stopped - 1 + 1) = 2 * N by omega] at swept passed
    rcases sweep_step policy frames (Nat.find stopped) (2 * N - Nat.find stopped - 1) with
      ⟨_, chosen, skips⟩ | ⟨goesOn, _⟩
    · refine ⟨_, inside, stops, never, swept.trans chosen, ?_⟩
      rw [passedOver, passed, skips, List.append_nil]
    · exact absurd stops goesOn
  · right
    have never : ∀ steps < 2 * N, ¬ policy.Stops frames steps :=
      fun steps inside stops => stopped ⟨steps, inside, stops⟩
    obtain ⟨swept, passed⟩ := sweep_after never 0
    refine ⟨never, swept, ?_⟩
    rw [passedOver]
    simpa only [Nat.add_zero, skipped, List.append_nil] using passed

theorem stops_second {frame : Fin N} (unpinned : (frames frame).pinCount = 0) :
    policy.Stops frames (N + distance policy.hand frame) := by
  have here : ahead policy.hand (N + distance policy.hand frame) = frame := by
    apply Fin.ext
    rw [ahead_val, ← Nat.add_assoc, Nat.add_right_comm, Nat.add_mod_right, ← ahead_val,
      ahead_distance]
  rw [stops_iff, here]
  exact ⟨unpinned, Or.inr (Nat.le_add_right _ _)⟩

theorem chooseVictim_unpinned (policy policy' : ClockPolicy N) (frames : Fin N → Frame)
    (victim : Fin N) (chosen : policy.chooseVictim frames = (some victim, policy')) :
    (frames victim).pinCount = 0 := by
  rcases chooseVictim_cases policy frames with ⟨steps, _, stops, _, ends, _⟩ | ⟨_, ends, _⟩
  · rw [ends] at chosen
    cases chosen
    exact (stops_iff.mp stops).1
  · rw [ends] at chosen
    cases chosen

theorem chooseVictim_isSome (policy : ClockPolicy N) (frames : Fin N → Frame) :
    (policy.chooseVictim frames).1.isSome ↔ ∃ frame, (frames frame).pinCount = 0 := by
  rcases chooseVictim_cases policy frames with ⟨steps, _, stops, _, ends, _⟩ | ⟨never, ends, _⟩
  · rw [ends]
    exact iff_of_true rfl ⟨_, (stops_iff.mp stops).1⟩
  · rw [ends]
    refine iff_of_false Bool.false_ne_true ?_
    rintro ⟨frame, unpinned⟩
    have near := distance_lt policy.hand frame
    exact never _ (by omega) (stops_second unpinned)

theorem chooseVictim_pinned (policy : ClockPolicy N) (frames : Fin N → Frame)
    (pinned : ∀ frame, (frames frame).pinCount ≠ 0) :
    policy.chooseVictim frames = (none, policy) := by
  rcases chooseVictim_cases policy frames with ⟨steps, _, stops, _⟩ | ⟨_, ends, _⟩
  · exact absurd (stops_iff.mp stops).1 (pinned _)
  · rw [ends]
    refine congrArg _ (ClockPolicy.ext (Fin.ext ?_) ?_)
    · simp only [swept, ahead_val, Nat.add_mul_mod_self_right, Nat.mod_eq_of_lt policy.hand.isLt]
    · funext frame
      simp only [swept, pinned frame, false_and, ↓reduceIte]

/-- A frame under the hand that is unpinned and unreferenced is the victim, and
the policy does not change. -/
theorem chooseVictim_hand (policy : ClockPolicy N) (frames : Fin N → Frame)
    (unpinned : (frames policy.hand).pinCount = 0) (clear : policy.refBits policy.hand = false) :
    policy.chooseVictim frames = (some policy.hand, policy) := by
  have positive : 0 < N := policy.hand.pos
  rw [chooseVictim, show 2 * N = 2 * N - 1 + 1 by omega, sweep, if_pos unpinned, if_pos clear]

theorem chooseVictim_clear {victim : Fin N} {policy' : ClockPolicy N}
    (chosen : policy.chooseVictim frames = (some victim, policy'))
    (some : ∃ frame, policy.Clear frames frame) :
    Cyclic.First policy.hand (policy.Clear frames) victim := by
  rcases chooseVictim_cases policy frames with ⟨steps, _, stops, never, ends, _⟩ | ⟨_, ends, _⟩
  · rw [ends] at chosen
    cases chosen
    have before : ∀ frame, policy.Clear frames frame → steps ≤ distance policy.hand frame := by
      intro frame clear
      by_contra nearer
      refine never (distance policy.hand frame) (by omega) ?_
      rw [stops_iff, ahead_distance]
      exact ⟨clear.1, Or.inl clear.2⟩
    obtain ⟨frame, clear⟩ := some
    have first := before frame clear
    have near := distance_lt policy.hand frame
    obtain ⟨unpinned, unset | round⟩ := stops_iff.mp stops
    · refine ⟨⟨unpinned, unset⟩, fun other wanted => ?_⟩
      rw [distance_ahead_of_lt policy.hand (by omega)]
      exact before other wanted
    · omega
  · rw [ends] at chosen
    cases chosen

theorem chooseVictim_referenced {victim : Fin N} {policy' : ClockPolicy N}
    (chosen : policy.chooseVictim frames = (some victim, policy'))
    (none : ∀ frame, ¬ policy.Clear frames frame) :
    Cyclic.First policy.hand (fun frame => (frames frame).pinCount = 0) victim := by
  rcases chooseVictim_cases policy frames with ⟨steps, inside, stops, never, ends, _⟩ | ⟨_, ends, _⟩
  · rw [ends] at chosen
    cases chosen
    obtain ⟨unpinned, unset | round⟩ := stops_iff.mp stops
    · exact absurd ⟨unpinned, unset⟩ (none _)
    · refine ⟨unpinned, fun other wanted => ?_⟩
      rw [distance_ahead, Nat.mod_eq_sub_mod round, Nat.mod_eq_of_lt (by omega)]
      by_contra nearer
      exact never _ (by omega) (stops_second wanted)
  · rw [ends] at chosen
    cases chosen

/-- What a sweep leaves: the frames it went through in order from the hand on, up to the victim or
twice round, the bits it cleared and the hand. -/
structure Swept (policy : ClockPolicy N) (frames : Fin N → Frame) (victim : Option (Fin N))
    (policy' : ClockPolicy N) (passed : List (Fin N)) : Prop where
  bounded : passed.length + (if victim.isSome then 1 else 0) ≤ 2 * N
  ordered : passed = (List.range passed.length).map (ahead policy.hand)
  goesOn : ∀ earlier < passed.length, ¬ policy.Stops frames earlier
  stops : ∀ frame, victim = some frame → frame = ahead policy.hand passed.length
  whole : victim = none → passed.length = 2 * N
  bits : ∀ frame, policy'.refBits frame =
    if (frames frame).pinCount = 0 ∧ frame ∈ passed then false else policy.refBits frame
  hand : policy'.hand = victim.getD policy.hand

theorem swept_refBits (policy : ClockPolicy N) (frames : Fin N → Frame) (steps : Nat)
    (frame : Fin N) : (policy.swept frames steps).refBits frame =
      if (frames frame).pinCount = 0 ∧ frame ∈ (List.range steps).map (ahead policy.hand) then false
      else policy.refBits frame := by
  have passed : frame ∈ (List.range steps).map (ahead policy.hand) ↔
      distance policy.hand frame < steps := by
    rw [← reached_iff, List.mem_map]
    simp only [List.mem_range]
  simp only [swept, passed]

theorem chooseVictim_swept (policy : ClockPolicy N) (frames : Fin N → Frame) :
    Swept policy frames (policy.chooseVictim frames).1 (policy.chooseVictim frames).2
      (policy.passedOver frames) := by
  have length : ∀ steps, ((List.range steps).map (ahead policy.hand)).length = steps := by
    intro steps
    rw [List.length_map, List.length_range]
  rcases chooseVictim_cases policy frames with
    ⟨steps, inside, _, never, ends, passed⟩ | ⟨never, ends, passed⟩
  · rw [ends, passed]
    refine ⟨?_, ?_, ?_, ?_, ?_, swept_refBits policy frames steps, rfl⟩
    · rw [length, Option.isSome_some, if_pos rfl]
      exact inside
    · rw [length]
    · rw [length]
      exact never
    · intro frame victim
      rw [length]
      exact (Option.some.inj victim).symm
    · intro impossible
      cases impossible
  · rw [ends, passed]
    refine ⟨?_, ?_, ?_, ?_, ?_, swept_refBits policy frames (2 * N), ?_⟩
    · rw [length, Option.isSome_none, if_neg Bool.false_ne_true, Nat.add_zero]
    · rw [length]
    · rw [length]
      exact never
    · intro frame impossible
      cases impossible
    · intro _
      exact length _
    · apply Fin.ext
      simp only [swept, ahead_val, Nat.add_mul_mod_self_right, Nat.mod_eq_of_lt policy.hand.isLt,
        Option.getD_none]

/-- CLOCK: a victim is found exactly when there is an unpinned frame, within two rounds; it is
the first frame from the hand on that is unpinned and unreferenced, or else the first that is
unpinned. -/
theorem chooseVictim_clock (policy : ClockPolicy N) (frames : Fin N → Frame) :
    ((policy.chooseVictim frames).1.isSome ↔ ∃ frame, (frames frame).pinCount = 0) ∧
    (∀ victim, (policy.chooseVictim frames).1 = some victim →
      if ∃ frame, policy.Clear frames frame then
        Cyclic.First policy.hand (policy.Clear frames) victim
      else Cyclic.First policy.hand (fun frame => (frames frame).pinCount = 0) victim) ∧
    Swept policy frames (policy.chooseVictim frames).1 (policy.chooseVictim frames).2
      (policy.passedOver frames) := by
  refine ⟨chooseVictim_isSome policy frames, ?_, chooseVictim_swept policy frames⟩
  intro victim found
  have chosen : policy.chooseVictim frames = (some victim, (policy.chooseVictim frames).2) :=
    Prod.ext found rfl
  split
  · rename_i some
    exact chooseVictim_clear chosen some
  · rename_i none
    exact chooseVictim_referenced chosen fun frame clear => none ⟨frame, clear⟩

end ClockPolicy

end RelationalDb
