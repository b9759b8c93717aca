import RelationalDb.Storage.PoolSession

set_option autoImplicit false

namespace RelationalDb.BufferManager

open Cyclic (First distance)

variable {N : Nat}

/-- The pages of a list before the first one that finds neither itself nor a frame that is free. -/
def early {D : Type} (bm : BufferManager N D) : Nat → List Int → List Int
  | _, [] => []
  | room, pageId :: rest =>
      if (bm.pageTable pageId).isSome then pageId :: early bm room rest
      else if room = 0 then []
      else pageId :: early bm (room - 1) rest

/-- The hand would stop at this frame once some pages were visited. -/
def Spent {D : Type} (bm : BufferManager N D) (visited : List Int) (frame : Fin N) : Prop :=
  (bm.pool frame).pinCount = 0 ∧
    (bm.policy.refBits frame = false ∨ frame ∈ bm.freeList ∨
      ∃ pageId ∈ visited, bm.pageTable pageId = some frame)

/-- The first frame from the hand on that is given up when a list of pages is visited: the first
one whose bit is clear by then, or else the first one that no client holds. -/
def Seat {D : Type} (bm : BufferManager N D) (list : List Int) (seat : Fin N) : Prop :=
  First bm.policy.hand (fun frame => (bm.pool frame).pinCount = 0 ∧
    (Spent bm (early bm bm.freeList.length list) frame ∨
      ∀ other, ¬ Spent bm (early bm bm.freeList.length list) other)) seat

/-- The frame a page of a list is in when it is visited: its own, or a free one, or the one that
is given up. -/
def comesTo {D : Type} (bm : BufferManager N D) (seat : Fin N) (list : List Int) (pageId : Int) :
    Fin N :=
  (bm.pageTable pageId).getD ((bm.freeList.reverse[
    (list.takeWhile (· ≠ pageId)).countP fun other => (bm.pageTable other).isNone]?).getD seat)

/-- The page that is in a frame after more pages of a list were visited. -/
def occupant {D : Type} (bm : BufferManager N D) (seat : Fin N) (list more : List Int)
    (frame : Fin N) (pageId : Int) : Int :=
  ((more.filter fun other => comesTo bm seat list other = frame).getLast?).getD pageId

variable {bm bm' : BufferManager N DiskManager} {view : Int → Option Page} {pins : Int → Int}
  {pages pageId : Int} {frame there : Fin N} {rest : List Int} {room : List (Fin N)}

/-- A visit leaves the hand and the other bits alone. -/
structure Still (bm bm' : BufferManager N DiskManager) (frame : Fin N) : Prop where
  hand : bm'.policy.hand = bm.policy.hand
  bits : ∀ other, other ≠ frame → bm'.policy.refBits other = bm.policy.refBits other

/-- Where a page finds its frame. -/
inductive Arrival (bm bm' : BufferManager N DiskManager) (pageId : Int) (frame : Fin N) : Prop
  | cached (found : bm.pageTable pageId = some frame) (free : bm'.freeList = bm.freeList)
      (still : Still bm bm' frame)
  | filled (absent : bm.pageTable pageId = none) (free : bm.freeList = bm'.freeList ++ [frame])
      (still : Still bm bm' frame)
  | replaced (absent : bm.pageTable pageId = none) (full : bm.freeList = [])
      (free : bm'.freeList = []) (chosen : (bm.policy.chooseVictim bm.pool).1 = some frame)
      (hand : bm'.policy.hand = frame)

/-- A request and a release of a page. -/
structure Visit (bm bm' : BufferManager N DiskManager) (pageId : Int) (frame : Fin N) : Prop where
  arrival : Arrival bm bm' pageId frame
  table : ∀ other, bm'.pageTable other =
    if other = pageId then some frame
    else if bm.pageTable other = some frame then none else bm.pageTable other
  unpinned : ∀ other, (bm'.pool other).pinCount = 0 ↔ (bm.pool other).pinCount = 0
  clear : (bm'.pool frame).pinCount = 0 → bm'.policy.refBits frame = false

theorem Rested.clear (rested : Rested bm pageId frame) (unpinned : (bm.pool frame).pinCount = 0) :
    bm.policy.refBits frame = false := by
  rw [rested.bit, unpinned]
  rfl

/-- A request and its release leave the pins as they were. -/
theorem released_pinCount {opened : BufferManager N DiskManager}
    (small : 0 ≤ (bm.pool frame).pinCount ∧ (bm.pool frame).pinCount < 2 ^ 31 - 1)
    (pinned : (opened.pool frame).pinCount = toInt32 ((bm.pool frame).pinCount + 1))
    (others : ∀ other, other ≠ frame →
      (opened.pool other).pinCount = (bm.pool other).pinCount) (other : Fin N) :
    ((opened.released frame).pool other).pinCount = (bm.pool other).pinCount := by
  by_cases same : other = frame
  · subst same
    have more : toInt32 ((bm.pool other).pinCount + 1) = (bm.pool other).pinCount + 1 :=
      toInt32_of_bounds (by omega) (by omega)
    have back : toInt32 (bm.pool other).pinCount = (bm.pool other).pinCount :=
      toInt32_of_bounds (by omega) (by omega)
    simp only [released, Function.update_self, pinned, more, Int.add_sub_cancel, back]
  · simp only [released, Function.update_of_ne same]
    exact others other same

theorem released_hand (opened : BufferManager N DiskManager) :
    (opened.released frame).policy.hand = opened.policy.hand := by
  simp only [released]
  split <;> rfl

theorem released_still {opened : BufferManager N DiskManager} (still : Still bm opened frame) :
    Still bm (opened.released frame) frame := by
  refine ⟨(released_hand opened).trans still.hand, fun other apart => ?_⟩
  rw [← still.bits other apart]
  simp only [released]
  split
  · rw [ClockPolicy.recordUnpin, ClockPolicy.setRefBit_refBits, Function.update_of_ne apart]
  · rfl

theorem visit_cached (linked : Linked bm) (found : bm.pageTable pageId = some frame)
    (small : 0 ≤ (bm.pool frame).pinCount ∧ (bm.pool frame).pinCount < 2 ^ 31 - 1)
    (rested : Rested ((bm.accessed frame).released frame) pageId frame) :
    Visit bm ((bm.accessed frame).released frame) pageId frame := by
  refine ⟨.cached found rfl (released_still ⟨rfl, fun other apart => ?_⟩), ?_, ?_, rested.clear⟩
  · simp only [accessed, ClockPolicy.recordAccess, ClockPolicy.setRefBit_refBits,
      Function.update_of_ne apart]
  · intro other
    change bm.pageTable other = _
    by_cases same : other = pageId
    · rw [if_pos same, same, found]
    · have elsewhere : bm.pageTable other ≠ some frame := by
        intro there
        exact same ((linked.mapped _ _ there).symm.trans (linked.mapped _ _ found))
      rw [if_neg same, if_neg elsewhere]
  · intro other
    rw [released_pinCount small (by simp [accessed]) fun other apart => by simp [accessed, apart]]

theorem visit_filled (linked : Linked bm) (absent : bm.pageTable pageId = none)
    (available : bm.freeList = room ++ [frame])
    (rested : Rested ((({ bm with freeList := room } : BufferManager N DiskManager).loaded pageId
      frame).released frame) pageId frame) :
    Visit bm ((({ bm with freeList := room } : BufferManager N DiskManager).loaded pageId
      frame).released frame) pageId frame := by
  have member : frame ∈ bm.freeList := by
    rw [available]
    exact List.mem_append_right _ (List.mem_singleton_self _)
  refine ⟨.filled absent available (released_still ⟨rfl, fun other apart => ?_⟩), ?_, ?_,
    rested.clear⟩
  · simp only [loaded, ClockPolicy.recordLoad, ClockPolicy.setRefBit_refBits,
      Function.update_of_ne apart]
  · intro other
    rw [if_neg (linked.unmapped frame member other)]
    simp only [released, loaded, Function.update_apply]
  · intro other
    have unheld := linked.unpinned frame member
    rw [@released_pinCount N bm frame _ (by rw [unheld]; decide) (by simp [loaded])
      fun other apart => by simp [loaded, apart]]

theorem visit_replaced (valid : Valid bm) (absent : bm.pageTable pageId = none)
    (full : bm.freeList = []) {policy : ClockPolicy N}
    (chosen : bm.policy.chooseVictim bm.pool = (some frame, policy))
    (rested : Rested ((((bm.setPolicy policy).evicted frame).loaded pageId frame).released frame)
      pageId frame) :
    Visit bm ((((bm.setPolicy policy).evicted frame).loaded pageId frame).released frame) pageId
      frame := by
  have unheld := ClockPolicy.chooseVictim_unpinned _ _ _ _ chosen
  have hand := (ClockPolicy.chooseVictim_swept bm.policy bm.pool).hand
  rw [chosen] at hand
  have covered : bm.pageTable (bm.pool frame).pageId = some frame := by
    apply valid.covered
    rw [full]
    exact List.not_mem_nil
  refine ⟨.replaced absent full full (by rw [chosen]) ((released_hand _).trans hand), ?_, ?_,
    rested.clear⟩
  · intro other
    have victim : other = (bm.pool frame).pageId ∧ other ≠ invalidPageId ↔
        bm.pageTable other = some frame := by
      constructor
      · intro both
        rw [both.1, covered]
      · intro there
        refine ⟨(valid.mapped _ _ there).symm, fun sentinel => ?_⟩
        have lower := valid.nonnegative _ _ there
        rw [sentinel] at lower
        exact absurd lower (by decide)
    have gone := evicted_pageTable (bm.setPolicy policy) frame other
    simp only [setPolicy, victim] at gone
    simp only [released, loaded, Function.update_apply, setPolicy, gone]
  · intro other
    rw [@released_pinCount N bm frame _ (by rw [unheld]; decide)
      (by simp [loaded, evicted, setPolicy])
      fun other apart => by simp [loaded, evicted, setPolicy, apart]]

theorem Steady.visited (steady : Steady bm view pins pages) (given : 0 ≤ pageId) :
    ∃ frame bm', (visits [pageId]).Returns bm ⟨⟩ bm' ∧ Steady bm' view pins pages ∧
      Rested bm' pageId frame ∧ Visit bm bm' pageId frame := by
  obtain ⟨frame, opened, bm', requested, opens, released, steady', rested⟩ := steady.visit given
  refine ⟨frame, bm', requested.bind (released.bind (Program.pure_returns _ _)), steady', rested,
    ?_⟩
  obtain ⟨other, cached, rfl⟩ := released_of_returns released
  obtain rfl : frame = other := Option.some.inj (opens.cached.symm.trans cached)
  rcases request_cases bm pageId with ⟨found, present, returned⟩ |
    ⟨absent, room, found, available, returned⟩ |
    ⟨absent, full, found, policy, chosen, returned⟩ | ⟨_, _, _, thrown⟩
  · obtain ⟨rfl, rfl⟩ := returned.value_eq requested
    have small := steady.bounded pageId
    rw [← steady.pinned, pins_cached present] at small
    exact visit_cached steady.toLinked present small rested
  · obtain ⟨rfl, rfl⟩ := returned.value_eq requested
    exact visit_filled steady.toLinked absent available rested
  · obtain ⟨rfl, rfl⟩ := returned.value_eq requested
    exact visit_replaced steady.toValid absent full chosen rested
  · cases thrown.symm.trans requested

theorem early_congr {list : List Int}
    (same : ∀ other ∈ list, bm'.pageTable other = bm.pageTable other) (room : Nat) :
    early bm' room list = early bm room list := by
  induction list generalizing room with
  | nil => rfl
  | cons pageId rest ih =>
      have further : ∀ room, early bm' room rest = early bm room rest :=
        ih fun other member => same other (List.mem_cons_of_mem _ member)
      simp only [early, same pageId List.mem_cons_self, further]

theorem early_subset {list : List Int} (room : Nat) :
    ∀ other ∈ early bm room list, other ∈ list := by
  induction list generalizing room with
  | nil => exact fun other member => member
  | cons pageId rest ih =>
      intro other member
      have below : ∀ room, other ∈ pageId :: early bm room rest → other ∈ pageId :: rest := by
        intro room member
        rcases List.mem_cons.mp member with rfl | later
        · exact List.mem_cons_self
        · exact List.mem_cons_of_mem _ (ih room other later)
      rw [early] at member
      split at member
      · exact below room member
      · split at member
        · cases member
        · exact below (room - 1) member

theorem comesTo_head (bm : BufferManager N DiskManager) (seat : Fin N) (pageId : Int)
    (rest : List Int) : comesTo bm seat (pageId :: rest) pageId =
      (bm.pageTable pageId).getD ((bm.freeList.reverse[0]?).getD seat) := by
  simp [comesTo]

theorem comesTo_cons (bm : BufferManager N DiskManager) (seat : Fin N) {other : Int}
    (fresh : other ≠ pageId) : comesTo bm seat (pageId :: rest) other =
      (bm.pageTable other).getD ((bm.freeList.reverse[
        (rest.takeWhile (· ≠ other)).countP (fun other => (bm.pageTable other).isNone) +
          if (bm.pageTable pageId).isNone then 1 else 0]?).getD seat) := by
  simp only [comesTo, List.takeWhile_cons, decide_eq_true fresh.symm, ↓reduceIte, List.countP_cons]

theorem Seat.chosen (seat : Seat bm (pageId :: rest) frame) (absent : bm.pageTable pageId = none)
    (full : bm.freeList = []) {victim : Fin N}
    (chosen : (bm.policy.chooseVictim bm.pool).1 = some victim) : frame = victim := by
  have none_early : early bm bm.freeList.length (pageId :: rest) = [] := by
    rw [early, absent, full]
    rfl
  have spent : ∀ other, Spent bm [] other ↔ bm.policy.Clear bm.pool other := by
    intro other
    simp [Spent, ClockPolicy.Clear, full]
  unfold Seat at seat
  simp only [none_early, spent] at seat
  have whole : bm.policy.chooseVictim bm.pool =
      (some victim, (bm.policy.chooseVictim bm.pool).2) := Prod.ext chosen rfl
  by_cases some : ∃ other, bm.policy.Clear bm.pool other
  · have first := ClockPolicy.chooseVictim_clear whole some
    obtain ⟨clear, wanted⟩ := some
    refine First.unique seat ⟨⟨first.holds.1, Or.inl first.holds⟩, fun other wants => ?_⟩
    exact first.least other (wants.2.resolve_right fun none => none _ wanted)
  · have none : ∀ other, ¬ bm.policy.Clear bm.pool other := fun other clear => some ⟨other, clear⟩
    have first := ClockPolicy.chooseVictim_referenced whole none
    exact First.unique seat ⟨⟨first.holds, Or.inr none⟩, fun other wants =>
      first.least other wants.1⟩

namespace Visit

variable (visit : Visit bm bm' pageId frame)

include visit

theorem cached : bm'.pageTable pageId = some frame := by
  rw [visit.table, if_pos rfl]

theorem frame_unique (found : bm.pageTable pageId = some there) : frame = there := by
  cases visit.arrival with
  | cached here => exact Option.some.inj (here.symm.trans found)
  | filled absent => cases absent.symm.trans found
  | replaced absent => cases absent.symm.trans found

/-- A page in another frame stays there. -/
theorem keeps {other : Int} {there : Fin N} (found : bm.pageTable other = some there)
    (apart : there ≠ frame) (fresh : other ≠ pageId) : bm'.pageTable other = some there := by
  rw [visit.table, if_neg fresh, found, if_neg]
  rwa [Option.some.injEq]

theorem table_eq (linked : Linked bm)
    (home : bm.pageTable pageId = some frame ∨ frame ∈ bm.freeList) {other : Int}
    (fresh : other ≠ pageId) : bm'.pageTable other = bm.pageTable other := by
  rw [visit.table, if_neg fresh, if_neg]
  intro there
  rcases home with found | free
  · exact fresh ((linked.mapped _ _ there).symm.trans (linked.mapped _ _ found))
  · exact linked.unmapped frame free other there

theorem frame_eq (seat : Seat bm (pageId :: rest) there) :
    comesTo bm there (pageId :: rest) pageId = frame := by
  rw [comesTo_head]
  cases visit.arrival with
  | cached found => rw [found, Option.getD_some]
  | filled absent free =>
      rw [absent, Option.getD_none, free, List.reverse_concat, List.getElem?_cons_zero,
        Option.getD_some]
  | replaced absent full _ chosen =>
      rw [absent, Option.getD_none, full, List.reverse_nil, List.getElem?_nil, Option.getD_none]
      exact seat.chosen absent full chosen

/-- The other pages come to the frames that were foreseen. -/
theorem comesTo_eq (linked : Linked bm) (seat : Seat bm (pageId :: rest) there)
    (new : pageId ∉ rest) {other : Int} (later : other ∈ rest) :
    comesTo bm' there rest other = comesTo bm there (pageId :: rest) other := by
  have apart : ∀ page ∈ rest, page ≠ pageId := fun _ member => ne_of_mem_of_not_mem member new
  have count : ∀ home : bm.pageTable pageId = some frame ∨ frame ∈ bm.freeList,
      (rest.takeWhile (· ≠ other)).countP (fun page => (bm'.pageTable page).isNone) =
        (rest.takeWhile (· ≠ other)).countP fun page => (bm.pageTable page).isNone := by
    intro home
    refine List.countP_congr fun page member => ?_
    rw [visit.table_eq linked home (apart page ((List.takeWhile_subset _) member))]
  rw [comesTo_cons bm there (apart other later), comesTo]
  cases visit.arrival with
  | cached found free =>
      have home := Or.inl (b := frame ∈ bm.freeList) found
      rw [count home, visit.table_eq linked home (apart other later), free, found,
        Option.isNone_some, if_neg Bool.false_ne_true, Nat.add_zero]
  | filled absent free =>
      have home : bm.pageTable pageId = some frame ∨ frame ∈ bm.freeList := by
        right
        rw [free]
        exact List.mem_append_right _ (List.mem_singleton_self _)
      rw [count home, visit.table_eq linked home (apart other later), free, absent,
        Option.isNone_none, if_pos rfl, List.reverse_concat, List.getElem?_cons_succ]
  | replaced absent full free chosen =>
      rw [visit.table, if_neg (apart other later), full, free, List.reverse_nil, List.getElem?_nil,
        List.getElem?_nil, Option.getD_none, seat.chosen absent full chosen]
      split
      · rename_i same
        rw [same, Option.getD_none, Option.getD_some]
      · rfl

theorem spent_iff (linked : Linked bm)
    (home : bm.pageTable pageId = some frame ∨ frame ∈ bm.freeList) (still : Still bm bm' frame)
    (free : ∀ other, other ≠ frame → (other ∈ bm'.freeList ↔ other ∈ bm.freeList))
    {visited : List Int} (new : pageId ∉ visited) (other : Fin N) :
    Spent bm' visited other ↔ Spent bm (pageId :: visited) other := by
  unfold Spent
  rw [visit.unpinned]
  refine and_congr_right fun unpinned => ?_
  by_cases same : other = frame
  · subst same
    refine iff_of_true (Or.inl (visit.clear ((visit.unpinned other).mpr unpinned))) (Or.inr ?_)
    exact home.symm.imp_right fun found => ⟨pageId, List.mem_cons_self, found⟩
  · rw [still.bits other same, free other same]
    refine or_congr_right (or_congr_right ?_)
    constructor
    · intro found
      obtain ⟨page, member, there⟩ := found
      refine ⟨page, List.mem_cons_of_mem _ member, ?_⟩
      rwa [visit.table_eq linked home (by rintro rfl; exact new member)] at there
    · intro found
      obtain ⟨page, member, there⟩ := found
      have apart : page ≠ pageId := by
        rintro rfl
        exact same (visit.frame_unique there).symm
      refine ⟨page, (List.mem_cons.mp member).resolve_left apart, ?_⟩
      rwa [visit.table_eq linked home apart]

theorem seat_stays (linked : Linked bm)
    (home : bm.pageTable pageId = some frame ∨ frame ∈ bm.freeList) (still : Still bm bm' frame)
    (free : ∀ other, other ≠ frame → (other ∈ bm'.freeList ↔ other ∈ bm.freeList))
    (new : pageId ∉ rest) (further : early bm bm.freeList.length (pageId :: rest) =
      pageId :: early bm bm'.freeList.length rest)
    (seat : Seat bm (pageId :: rest) there) : Seat bm' rest there := by
  have apart : ∀ page ∈ rest, page ≠ pageId := fun _ member => ne_of_mem_of_not_mem member new
  have same : early bm' bm'.freeList.length rest = early bm bm'.freeList.length rest :=
    early_congr (fun page member => visit.table_eq linked home (apart page member)) _
  have spent : ∀ other, Spent bm' (early bm' bm'.freeList.length rest) other ↔
      Spent bm (early bm bm.freeList.length (pageId :: rest)) other := by
    intro other
    rw [same, further]
    exact visit.spent_iff linked home still free (fun member => new (early_subset _ _ member)) other
  unfold Seat
  simp only [spent, visit.unpinned, still.hand]
  exact seat

/-- The seat is that of the pages that are left. -/
theorem seat (linked : Linked bm) (new : pageId ∉ rest) (seat : Seat bm (pageId :: rest) there) :
    Seat bm' rest there := by
  cases visit.arrival with
  | cached found free still =>
      refine visit.seat_stays linked (Or.inl found) still (fun other _ => by rw [free]) new ?_ seat
      rw [early, found, free]
      rfl
  | filled absent free still =>
      have member : frame ∈ bm.freeList := by
        rw [free]
        exact List.mem_append_right _ (List.mem_singleton_self _)
      refine visit.seat_stays linked (Or.inr member) still ?_ new ?_ seat
      · intro other apart
        rw [free, List.mem_append, List.mem_singleton, or_iff_left apart]
      · rw [early, absent, free, List.length_append]
        rfl
  | replaced absent full free chosen hand =>
      obtain rfl := seat.chosen absent full chosen
      have unpinned : (bm'.pool there).pinCount = 0 := by
        rw [visit.unpinned]
        exact seat.holds.1
      unfold Seat
      rw [hand]
      refine ⟨⟨unpinned, Or.inl ⟨unpinned, Or.inl (visit.clear unpinned)⟩⟩, fun other _ => ?_⟩
      rw [Cyclic.distance_self]
      exact Nat.zero_le _

end Visit

theorem occupant_congr {list list' more : List Int}
    (same : ∀ other ∈ more, comesTo bm' there list' other = comesTo bm there list other) :
    occupant bm' there list' more frame pageId = occupant bm there list more frame pageId := by
  have filtered : (more.filter fun other => comesTo bm' there list' other = frame) =
      more.filter fun other => comesTo bm there list other = frame :=
    List.filter_congr fun other member => by rw [same other member]
  rw [occupant, occupant, filtered]

theorem occupant_cons (bm : BufferManager N DiskManager) (seat frame : Fin N) (list more : List Int)
    (pageId other : Int) : occupant bm seat list (pageId :: more) frame other =
      occupant bm seat list more frame
        (if comesTo bm seat list pageId = frame then pageId else other) := by
  rw [occupant, occupant, List.filter_cons]
  by_cases here : comesTo bm seat list pageId = frame
  · rw [if_pos (decide_eq_true here), if_pos here, List.getLast?_cons, Option.getD_some]
  · rw [if_neg (by simpa using here), if_neg here]

theorem occupant_mem (bm : BufferManager N DiskManager) (seat frame : Fin N) (list more : List Int)
    (pageId : Int) : occupant bm seat list more frame pageId ∈ pageId :: more := by
  rw [occupant]
  cases last : (more.filter fun other => comesTo bm seat list other = frame).getLast? with
  | none => exact List.mem_cons_self
  | some other =>
      have member := List.mem_filter.mp (List.mem_of_getLast? last)
      exact List.mem_cons_of_mem _ member.1

theorem Seat.exists (list : List Int) (evictable : ∃ frame, (bm.pool frame).pinCount = 0) :
    ∃ seat, Seat bm list seat := by
  by_cases some : ∃ frame, Spent bm (early bm bm.freeList.length list) frame
  · obtain ⟨frame, spent⟩ := some
    exact First.exists ⟨frame, spent.1, Or.inl spent⟩
  · obtain ⟨frame, unpinned⟩ := evictable
    exact First.exists ⟨frame, unpinned, Or.inr fun other spent => some ⟨other, spent⟩⟩

/-- Where the pages are once some of a list were visited. -/
structure Behind (bm bm' : BufferManager N DiskManager) (seat : Fin N) (more rest : List Int) :
    Prop where
  stays : Seat bm' rest seat
  further : ∀ other ∈ rest, comesTo bm' seat rest other = comesTo bm seat (more ++ rest) other
  occupied : ∀ frame pageId, bm.pageTable pageId = some frame →
    bm'.pageTable (occupant bm seat (more ++ rest) more frame pageId) = some frame

/-- All misses of a list go through one frame. -/
theorem Steady.behind (steady : Steady bm view pins pages) {more : List Int}
    (distinct : (more ++ rest).Nodup) (given : ∀ pageId ∈ more, 0 ≤ pageId)
    (seat : Seat bm (more ++ rest) there) :
    ∃ bm', (visits more).Returns bm ⟨⟩ bm' ∧ Steady bm' view pins pages ∧
      Behind bm bm' there more rest := by
  induction more generalizing bm with
  | nil => exact ⟨bm, Program.pure_returns _ _, steady, seat, fun _ _ => rfl, fun _ _ found => found⟩
  | cons pageId more ih =>
      obtain ⟨new, distinct⟩ := List.nodup_cons.mp distinct
      obtain ⟨frame, opened, visited, steady₁, rested, visit⟩ :=
        steady.visited (given pageId List.mem_cons_self)
      obtain ⟨bm', returned, steady', behind⟩ := ih steady₁ distinct
        (fun other member => given other (List.mem_cons_of_mem _ member))
        (visit.seat steady.toLinked new seat)
      refine ⟨bm', ?_, steady', behind.stays, ?_, ?_⟩
      · exact visits_append visited returned
      · intro other member
        rw [behind.further other member]
        exact visit.comesTo_eq steady.toLinked seat new (List.mem_append_right _ member)
      · intro other page found
        have first : comesTo bm there (pageId :: more ++ rest) pageId = frame :=
          visit.frame_eq seat
        have same : ∀ page, occupant opened there (more ++ rest) more other page =
            occupant bm there (pageId :: more ++ rest) more other page := fun page =>
          occupant_congr fun later member => visit.comesTo_eq steady.toLinked seat new
            (List.mem_append_left _ member)
        by_cases here : frame = other
        · have occupied := behind.occupied other pageId (by rw [visit.cached, here])
          rw [same] at occupied
          rwa [occupant_cons, first, if_pos here]
        · have apart : page ≠ pageId := by
            rintro rfl
            exact here (visit.frame_unique found)
          have occupied := behind.occupied other page (visit.keeps found (Ne.symm here) apart)
          rw [same] at occupied
          rwa [occupant_cons, first, if_neg here]

/-- A page of a list on its visit, and what is in its frame after some more visits. -/
theorem Steady.occupied (steady : Steady bm view pins pages) {front more : List Int}
    (distinct : (front ++ pageId :: (more ++ rest)).Nodup)
    (given : ∀ other ∈ front ++ pageId :: (more ++ rest), 0 ≤ other)
    (seat : Seat bm (front ++ pageId :: (more ++ rest)) there)
    (place : comesTo bm there (front ++ pageId :: (more ++ rest)) pageId = frame) :
    ∃ onIt behind, (visits (front ++ [pageId])).Returns bm ⟨⟩ onIt ∧
      (visits (front ++ pageId :: more)).Returns bm ⟨⟩ behind ∧
      Steady onIt view pins pages ∧ Steady behind view pins pages ∧
      onIt.pageTable pageId = some frame ∧
      behind.pageTable (occupant bm there (front ++ pageId :: (more ++ rest)) more frame pageId) =
        some frame := by
  obtain ⟨bm₁, reached, steady₁, before⟩ := steady.behind distinct
    (fun other member => given other (List.mem_append_left _ member)) seat
  have split := List.nodup_append.mp distinct
  obtain ⟨new, distinct'⟩ := List.nodup_cons.mp split.2.1
  obtain ⟨frame', onIt, visited, steady₂, _, visit⟩ :=
    steady₁.visited (given pageId (List.mem_append_right _ List.mem_cons_self))
  obtain rfl : frame' = frame := by
    rw [← visit.frame_eq before.stays, before.further pageId List.mem_cons_self, place]
  obtain ⟨behind, onward, steady₃, after⟩ := steady₂.behind distinct'
    (fun other member => given other (List.mem_append_right _ (List.mem_cons_of_mem _
      (List.mem_append_left _ member)))) (visit.seat steady₁.toLinked new before.stays)
  refine ⟨onIt, behind, visits_append reached visited, ?_, steady₂, steady₃, visit.cached, ?_⟩
  · exact visits_append reached (visits_append visited onward)
  · have occupied := after.occupied frame' pageId visit.cached
    rwa [occupant_congr] at occupied
    intro other member
    have later : other ∈ more ++ rest := List.mem_append_left _ member
    rw [visit.comesTo_eq steady₁.toLinked before.stays new later,
      before.further other (List.mem_cons_of_mem _ later)]

end RelationalDb.BufferManager
