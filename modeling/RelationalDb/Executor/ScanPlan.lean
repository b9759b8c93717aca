import RelationalDb.Executor.PlanState
import RelationalDb.Executor.ScanExact
import RelationalDb.Storage.PoolRoom

set_option autoImplicit false

namespace RelationalDb

open HeapFile
open BufferManager (Steady Roomy)
open HeapIterator (standing passed)

variable {N : Nat} {bm bm₀ : BufferManager N DiskManager} {view : Int → Option Page}
  {pins : Int → Int} {pages first : Int} {chain front back : List Int} {rid : Rid}
  {data : List UInt8}

theorem passed_subset (view : Int → Option Page) (chain : List Int) (slot : Nat) :
    ∀ pageId ∈ passed view chain slot, pageId ∈ chain := by
  induction chain generalizing slot with
  | nil => exact fun _ member => member
  | cons first rest ih =>
      intro pageId member
      unfold passed at member
      split at member
      · rw [List.mem_singleton.mp member]
        exact List.mem_cons_self
      · rcases List.mem_cons.mp member with rfl | later
        · exact List.mem_cons_self
        · exact List.mem_cons_of_mem _ (ih 0 pageId later)

/-- The pool behind `Begin`, and where the scan stands. -/
structure Begun (bm : BufferManager N DiskManager) (view : Int → Option Page) (pins : Int → Int)
    (pages : Int) (chain : List Int) (begun : BufferManager N DiskManager) : Prop where
  steady : Steady begun view pins pages
  visited : (BufferManager.visits (passed view chain 0)).Returns bm ⟨⟩ begun
  ended : nextRecord view chain 0 = none → heapRecords view chain = []
  stands : ∀ rid, nextRecord view chain 0 = some rid → ∃ front back data,
    Stand bm begun view pins pages chain front back rid data ∧
      heapRecords view chain = (rid, data) :: recordsFrom view (rid.pageId :: back) (rid.slotId + 1)

theorem HeapFile.begun {heap : HeapFile} (linked : Chain view heap.firstPageId chain)
    (distinct : chain.Nodup) (steady : Steady bm view pins pages) :
    ∃ begun, (heap.begin 0).Returns bm (standing 0 (nextRecord view chain 0)) begun ∧
      Begun bm view pins pages chain begun := by
  obtain ⟨bm', returned, steady', visited, rested⟩ := HeapIterator.begin_visits 0 linked steady
  have next := @recordsFrom_nextRecord view chain 0
  refine ⟨bm', returned, steady', visited, ?_, ?_⟩
  · intro found
    rw [found] at next
    exact next
  · intro rid found
    have known : ∀ pageId ∈ chain, ∃ page, view pageId = some page := by
      intro pageId member
      obtain ⟨_, page, present, _⟩ := linked.page member
      exact ⟨page, present⟩
    rw [passed_eq_pagesTo distinct known, found] at visited
    rw [found] at next
    obtain ⟨front, back, data, split, stored, records⟩ := next
    exact ⟨front, back, data, ⟨split, stored, steady', rested rid found, visited⟩, records⟩

/-- The scan goes on as `Turn` says, by the visits of `Moves`. -/
theorem Stand.moves (stand : Stand bm₀ bm view pins pages chain front back rid data)
    (linked : Chain view first chain) (distinct : chain.Nodup)
    (decode : List UInt8 → Option Tuple) :
    ∃ record moved,
      Turn decode bm₀ bm view pins pages chain back rid data record
        (nextRecord view (rid.pageId :: back) (rid.slotId + 1)) moved ∧
      Moves bm view pins pages rid data (passed view (rid.pageId :: back) (rid.slotId + 1))
        (nextRecord view (rid.pageId :: back) (rid.slotId + 1)) record moved := by
  obtain ⟨record, moved, turn⟩ := stand.turn linked distinct decode
  have inFront : Chain view first (front ++ rid.pageId :: back) := by
    rw [← stand.split]
    exact linked
  obtain ⟨frame, rested⟩ := stand.rested
  obtain ⟨record', moved', moves⟩ :=
    HeapIterator.next_moves inFront stand.stored stand.steady rested
  obtain ⟨same, rfl⟩ := turn.returned.value_eq moves.returned
  rw [Prod.mk.injEq] at same
  rw [← same.1] at moves
  exact ⟨record, moved, turn, moves⟩

theorem Stand.spared (stand : Stand bm₀ bm view pins pages chain front back rid data)
    (linked : Chain view first chain) (distinct : chain.Nodup) (room : Roomy chain bm)
    (decode : List UInt8 → Option Tuple) :
    ∃ record moved, Turn decode bm₀ bm view pins pages chain back rid data record
        (nextRecord view (rid.pageId :: back) (rid.slotId + 1)) moved ∧ Roomy chain moved ∧
      Spared decode chain bm₀ rid data (nextRecord view (rid.pageId :: back) (rid.slotId + 1)) := by
  obtain ⟨record, moved, turn, moves⟩ := stand.moves linked distinct decode
  have inside : ∀ pageId ∈ passed view (rid.pageId :: back) (rid.slotId + 1), pageId ∈ chain := by
    intro pageId member
    rw [stand.split]
    exact List.mem_append_right front (passed_subset _ _ _ pageId member)
  obtain ⟨room', stays⟩ := room.visits inside moves.visited
  refine ⟨record, moved, turn, room', turn.spared.mpr ?_⟩
  obtain ⟨page, present, read⟩ := moves.stored
  have held : (moved.pool record.frame).data = page :=
    moves.steady.data _ _ _ (stays _ _ moves.cached) present
  rw [Record.bytes, held, read]

theorem Stand.safe (linked : Chain view first chain) (distinct : chain.Nodup)
    (decode : List UInt8 → Option Tuple) {after : List (Rid × List UInt8)}
    (stand : Stand bm₀ bm view pins pages chain front back rid data) (room : Roomy chain bm)
    (records : recordsFrom view (rid.pageId :: back) (rid.slotId + 1) = after)
    (decodes : ∀ record ∈ (rid, data) :: after, (decode record.2).isSome = true) :
    SeqScanOp.Safe decode chain bm₀ ((rid, data) :: after) := by
  obtain ⟨isSome, later⟩ := List.forall_mem_cons.mp decodes
  obtain ⟨record, moved, turn, room', spared⟩ := stand.spared linked distinct room decode
  induction after generalizing bm front back rid data record moved with
  | nil =>
      cases found : nextRecord view (rid.pageId :: back) (rid.slotId + 1) with
      | none =>
          rw [found] at spared
          exact ⟨isSome, spared, trivial⟩
      | some other =>
          obtain ⟨_, _, _, _, more⟩ := turn.further other found
          rw [records] at more
          cases more
  | cons head after ih =>
      cases found : nextRecord view (rid.pageId :: back) (rid.slotId + 1) with
      | none =>
          rw [turn.ended found] at records
          cases records
      | some other =>
          obtain ⟨front', back', data', stand', more⟩ := turn.further other found
          rw [more, List.cons.injEq] at records
          obtain ⟨rfl, records⟩ := records
          rw [found] at spared
          obtain ⟨isSome', later'⟩ := List.forall_mem_cons.mp later
          obtain ⟨record', moved', turn', room'', spared'⟩ :=
            stand'.spared linked distinct room' decode
          exact ⟨isSome, spared,
            ih stand' room' records later isSome' later' record' moved' turn' room'' spared'⟩

theorem undisturbed_of_room (linked : Chain view first chain) (distinct : chain.Nodup)
    (steady : Steady bm view pins pages) (room : Roomy chain bm)
    (decode : List UInt8 → Option Tuple)
    (decodes : ∀ record ∈ heapRecords view chain, (decode record.2).isSome = true) :
    Undisturbed decode view chain bm := by
  apply (SeqScanOp.safe_iff.mp _).2
  obtain ⟨bm', _, begun⟩ :=
    @HeapFile.begun N bm view pins pages chain ⟨fun _ => 0, first⟩ linked distinct steady
  have room' := (room.visits (passed_subset view chain 0) begun.visited).1
  cases found : nextRecord view chain 0 with
  | none =>
      rw [begun.ended found]
      trivial
  | some rid =>
      obtain ⟨front, back, data, stand, records⟩ := begun.stands rid found
      rw [records] at decodes ⊢
      exact stand.safe linked distinct decode room' rfl decodes

namespace SeqScanOp

/-- A scan that has these tuples left. -/
def Left (rel : Relation) (bm₀ : BufferManager N DiskManager) (view : Int → Option Page)
    (pins : Int → Int) (pages : Int) (chain : List Int) (rest : List Tuple) (scan : ScanState N) :
    Prop :=
  Steady scan.bm view pins pages ∧
    (rest = [] ∧ scan.iter = standing 0 none ∨
      ∃ front back rid data, scan.iter = standing 0 (some rid) ∧
        Stand bm₀ scan.bm view pins pages chain front back rid data ∧
        Safe rel.decode chain bm₀
          ((rid, data) :: recordsFrom view (rid.pageId :: back) (rid.slotId + 1)) ∧
        rest.map some =
          ((rid, data) :: recordsFrom view (rid.pageId :: back) (rid.slotId + 1)).map
            fun record => rel.decode record.2)

theorem Left.step {rel : Relation} {rest : List Tuple} {scan : ScanState N}
    (linked : Chain view first chain) (distinct : chain.Nodup)
    (left : Left rel bm₀ view pins pages chain rest scan) :
    ∃ scan', (SeqScanOp.next rel).Returns scan rest.head? scan' ∧
      Left rel bm₀ view pins pages chain rest.tail scan' := by
  obtain ⟨steady, ⟨rfl, ended⟩ | ⟨front, back, rid, data, onIt, stand, safe, same⟩⟩ := left
  · obtain ⟨bm, it⟩ := scan
    obtain rfl : it = standing 0 none := ended
    exact ⟨_, next_ended rel bm, steady, Or.inl ⟨rfl, rfl⟩⟩
  · obtain ⟨bm, it⟩ := scan
    obtain rfl : it = standing 0 (some rid) := onIt
    obtain ⟨record, moved, turn, moves⟩ := stand.moves linked distinct rel.decode
    obtain ⟨tup, more, rfl, isTuple, further⟩ := List.map_eq_cons_iff.mp same
    obtain ⟨_, spared, safe'⟩ := safe
    have after : (recordsFrom view (rid.pageId :: back) (rid.slotId + 1)).head?.map Prod.fst =
        nextRecord view (rid.pageId :: back) (rid.slotId + 1) := by
      cases found : nextRecord view (rid.pageId :: back) (rid.slotId + 1) with
      | none =>
          rw [turn.ended found]
          rfl
      | some other =>
          obtain ⟨_, _, _, _, records⟩ := turn.further other found
          rw [records]
          rfl
    rw [after] at spared
    have decoded : rel.decode (record.bytes moved) = some tup := by
      rw [turn.spared.mp spared, isTuple]
    refine ⟨⟨moved, standing 0 (nextRecord view (rid.pageId :: back) (rid.slotId + 1))⟩, ?_,
      moves.steady, ?_⟩
    · have stepped := next_eq rel turn.returned
      rw [decoded] at stepped
      exact stepped
    · cases found : nextRecord view (rid.pageId :: back) (rid.slotId + 1) with
      | none =>
          rw [turn.ended found, List.map_nil, List.map_eq_nil_iff] at further
          exact Or.inl ⟨further, rfl⟩
      | some other =>
          obtain ⟨front', back', data', stand', records⟩ := turn.further other found
          rw [records] at safe' further
          exact Or.inr ⟨front', back', other, data', rfl, stand', safe', further⟩

/-- The scan, once it is open, as a leaf of a plan. -/
def scanContract (rel : Relation) {tuples : List Tuple} {opened : ScanState N}
    (linked : Chain view first chain) (distinct : chain.Nodup)
    (left : Left rel bm₀ view pins pages chain tuples opened) :
    (Executor.openedLeaf (seqScanOp rel) opened).Enumerates tuples where
  Ready scan := Steady scan.bm view pins pages
  Remaining rest scan := Left rel bm₀ view pins pages chain rest scan
  opened _ _ := ⟨opened, (Program.returns_set _ _ _ ⟨⟩).mpr rfl, left⟩
  stepped _ _ remaining := remaining.step linked distinct
  closed _ scan remaining := ⟨scan, Program.pure_returns _ _, remaining.1⟩

/-- What is left once the scan is open. -/
theorem opened_left (rel : Relation) (it : HeapIterator) {tuples : List Tuple}
    (linked : Chain view rel.hf.firstPageId chain) (distinct : chain.Nodup)
    (steady : Steady bm view pins pages) (undisturbed : Undisturbed rel.decode view chain bm)
    (decoded : tuples.map some = (heapRecords view chain).map fun record => rel.decode record.2) :
    ∃ opened, (openScan rel).Returns ⟨bm, it⟩ ⟨⟩ opened ∧
      Left rel bm view pins pages chain tuples opened := by
  obtain ⟨bm', returned, begun⟩ := rel.hf.begun linked distinct steady
  refine ⟨_, (onPool_returns it returned).bind (Program.modify_returns _ _), begun.steady, ?_⟩
  have decodes : ∀ record ∈ heapRecords view chain, (rel.decode record.2).isSome = true := by
    intro record member
    have among : rel.decode record.2 ∈ tuples.map some := by
      rw [decoded]
      exact List.mem_map_of_mem member
    obtain ⟨tup, _, same⟩ := List.mem_map.mp among
    rw [← same]
    rfl
  have safe := safe_iff.mpr ⟨decodes, undisturbed⟩
  cases found : nextRecord view chain 0 with
  | none =>
      rw [begun.ended found, List.map_nil, List.map_eq_nil_iff] at decoded
      exact Or.inl ⟨decoded, rfl⟩
  | some rid =>
      obtain ⟨front, back, data, stand, records⟩ := begun.stands rid found
      rw [records] at decoded safe
      exact Or.inr ⟨front, back, rid, data, rfl, stand, safe, decoded⟩

theorem plan_returns (rel : Relation) (plan : Plan) (it : HeapIterator) {tuples : List Tuple}
    (linked : Chain view rel.hf.firstPageId chain) (distinct : chain.Nodup)
    (steady : Steady bm view pins pages) (undisturbed : Undisturbed rel.decode view chain bm)
    (decoded : tuples.map some = (heapRecords view chain).map fun record => rel.decode record.2)
    (small : ∀ tup ∈ tuples, tup.values.length < 65536) :
    ∃ state', (Executor.executeAndCollect (seqScanOp rel) plan).Returns (plan.fresh ⟨bm, it⟩)
        (plan.denotation tuples) state' ∧
      Steady (plan.leafState state').bm view pins pages := by
  obtain ⟨opened, opens, left⟩ := opened_left rel it linked distinct steady undisturbed decoded
  exact Executor.executeAndCollect_opened plan (scanContract rel linked distinct left) opens steady
    small

/-- A scan that stands somewhere in its heap, whatever it has lost. -/
def Stands (bm₀ : BufferManager N DiskManager) (view : Int → Option Page) (pins : Int → Int)
    (pages : Int) (chain : List Int) (scan : ScanState N) : Prop :=
  Steady scan.bm view pins pages ∧ (scan.iter = standing 0 none ∨
    ∃ front back rid data, scan.iter = standing 0 (some rid) ∧
      Stand bm₀ scan.bm view pins pages chain front back rid data)

theorem next_stands (rel : Relation) (linked : Chain view first chain) (distinct : chain.Nodup) :
    (SeqScanOp.next rel).Leads (Stands bm₀ view pins pages chain)
      (Stands bm₀ view pins pages chain) := by
  intro scan outcome scan' stands ended
  obtain ⟨bm, it⟩ := scan
  obtain ⟨steady, isEnd | ⟨front, back, rid, data, onIt, stand⟩⟩ := stands
  · obtain rfl : it = standing 0 none := isEnd
    rw [show SeqScanOp.next rel ⟨bm, standing 0 none⟩ = some (_, _) from next_ended rel bm] at ended
    cases ended
    exact ⟨steady, Or.inl rfl⟩
  · obtain rfl : it = standing 0 (some rid) := onIt
    obtain ⟨record, moved, turn, moves⟩ := stand.moves linked distinct rel.decode
    rw [next_eq rel turn.returned] at ended
    have after : scan' =
        ⟨moved, standing 0 (nextRecord view (rid.pageId :: back) (rid.slotId + 1))⟩ := by
      rcases Program.bind_cases ended with ⟨tup, middle, decoded, rest⟩ | ⟨_, thrown, _⟩
      · obtain ⟨_, rfl⟩ := Program.returns_ofOption.mp decoded
        cases rest
        rfl
      · exact absurd thrown Program.not_throws_ofOption
    subst after
    refine ⟨moves.steady, ?_⟩
    cases found : nextRecord view (rid.pageId :: back) (rid.slotId + 1) with
    | none => exact Or.inl rfl
    | some other =>
        obtain ⟨front', back', data', stand', _⟩ := turn.further other found
        exact Or.inr ⟨front', back', other, data', rfl, stand'⟩

/-- However an execution ends, it leaves the pages as they are and no pin behind. -/
theorem plan_steady (rel : Relation) (plan : Plan) (it : HeapIterator)
    (linked : Chain view rel.hf.firstPageId chain) (distinct : chain.Nodup)
    (steady : Steady bm view pins pages) {outcome : Except Error (List Tuple)}
    {state' : plan.State (ScanState N)}
    (ended : Executor.executeAndCollect (seqScanOp rel) plan (plan.fresh ⟨bm, it⟩) =
      some (outcome, state')) : Steady (plan.leafState state').bm view pins pages := by
  obtain ⟨bm', returned, begun⟩ := rel.hf.begun linked distinct steady
  have opened : (openScan rel).Returns ⟨bm, it⟩ ⟨⟩ ⟨bm', standing 0 (nextRecord view chain 0)⟩ :=
    (onPool_returns it returned).bind (Program.modify_returns _ _)
  have stands : Stands bm view pins pages chain
      ⟨bm', standing 0 (nextRecord view chain 0)⟩ := by
    refine ⟨begun.steady, ?_⟩
    cases found : nextRecord view chain 0 with
    | none => exact Or.inl rfl
    | some rid =>
        obtain ⟨front, back, data, stand, _⟩ := begun.stands rid found
        exact Or.inr ⟨front, back, rid, data, rfl, stand⟩
  have opens : (seqScanOp rel).openLeaf.Leads (fun scan => scan = ⟨bm, it⟩)
      (Stands bm view pins pages chain) := by
    intro scan outcome scan' same ended
    subst same
    rw [show (seqScanOp rel).openLeaf ⟨bm, it⟩ = some (_, _) from opened] at ended
    cases ended
    exact stands
  have closes : (seqScanOp rel).close.Leads (Stands bm view pins pages chain)
      (Stands bm view pins pages chain) := .pure _
  exact (Executor.executeAndCollect_leads opens (next_stands rel linked distinct) closes plan _ _ _
    (plan.leafState_fresh _) ended).1

end SeqScanOp

end RelationalDb
