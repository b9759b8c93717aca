import RelationalDb.Executor.ScanRuns
import RelationalDb.Planner.QuerySessions

set_option autoImplicit false

namespace RelationalDb

open HeapFile
open BufferManager (Steady Roomy Rested visits)
open HeapIterator (standing passed)
open TableManager (DatabaseRun Initialised)

variable {N : Nat} {bm bm' : BufferManager N DiskManager} {view : Int → Option Page}
  {pins : Int → Int} {pages first : Int} {chain before after : List Int} {rid : Rid}
  {data : List UInt8}

/-- `Next` at a record: `Get` visits its page, and `Advance` the pages up to the next record. -/
structure Fetches (bm : BufferManager N DiskManager) (view : Int → Option Page)
    (pins : Int → Int) (pages : Int) (rid : Rid) (data : List UInt8) (rest : List Int)
    (next : Option Rid) (record : Record N) (fetched moved : BufferManager N DiskManager) :
    Prop where
  returned : (standing 0 (some rid)).next.Returns bm (record, standing 0 next) moved
  fetching : (visits [rid.pageId]).Returns bm ⟨⟩ fetched
  rested : Rested fetched rid.pageId record.frame
  moving : (visits rest).Returns fetched ⟨⟩ moved
  steady : Steady moved view pins pages
  stored : ∃ page, view rid.pageId = some page ∧ page.read record.offset record.size = data

theorem HeapIterator.next_fetches (linked : Chain view first (before ++ rid.pageId :: after))
    (stored : storedRecord view rid = some data) (steady : Steady bm view pins pages) :
    ∃ record fetched moved, Fetches bm view pins pages rid data
      (passed view (rid.pageId :: after) (rid.slotId + 1))
      (nextRecord view (rid.pageId :: after) (rid.slotId + 1)) record fetched moved := by
  have present : Present view (before ++ rid.pageId :: after) rid :=
    ⟨List.mem_append_right _ List.mem_cons_self, by rw [stored]; rfl⟩
  obtain ⟨given, page, known, _⟩ := linked.page present.1
  rw [storedRecord_eq known, SlottedPage.record, Option.map_eq_some_iff] at stored
  obtain ⟨⟨offset, size⟩, span, read⟩ := stored
  obtain ⟨frame, opened, fetched, requested, opens, released, steady₁, rested⟩ :=
    steady.visit given
  have got : (HeapFile.get rid).Returns bm (some ⟨rid, frame, offset, size⟩) fetched := by
    refine requested.bind ((BufferManager.readData_returns _ frame).bind (released.bind ?_))
    rw [opens.data_eq known, span]
    exact Program.pure_returns _ _
  have slot : (standing 0 (some rid)).nextSlot.currSlot = rid.slotId + 1 :=
    Nat.mod_eq_of_lt (HeapIterator.present_slot present)
  obtain ⟨moved, advanced, steady₂, visited, _⟩ := @HeapIterator.advance_visits N fetched view
    pins pages _ (standing 0 (some rid)).nextSlot linked.suffix steady₁
  rw [HeapIterator.settled_standing] at advanced
  rw [slot] at advanced visited
  refine ⟨⟨rid, frame, offset, size⟩, fetched, moved, ?_, ?_, rested, visited, steady₂,
    page, known, read⟩
  · simp only [HeapIterator.next, standing, Bool.true_eq_false, ↓reduceIte]
    exact got.bind ((Program.pure_returns _ fetched).bind
      (advanced.bind (Program.pure_returns _ _)))
  · exact requested.bind (released.bind (Program.pure_returns _ _))

/-- A pool between operations that has room for these pages, unless each scan has one page at
most. -/
def Serves (view : Int → Option Page) (pins : Int → Int) (pages : Int) (alone : Prop)
    (all : List Int) (bm : BufferManager N DiskManager) : Prop :=
  Steady bm view pins pages ∧ (alone ∨ Roomy all bm)

variable {alone : Prop} {all : List Int}

/-- The record that `Next` has fetched is still in its frame when `Decode` reads it. -/
theorem Fetches.served {next : Option Rid} {record : Record N}
    {fetched moved : BufferManager N DiskManager}
    (fetches : Fetches bm view pins pages rid data
      (passed view (rid.pageId :: after) (rid.slotId + 1)) next record fetched moved)
    (inside : ¬ alone → ∀ pageId ∈ before ++ rid.pageId :: after, pageId ∈ all)
    (single : alone → (before ++ rid.pageId :: after).length ≤ 1)
    (serves : Serves view pins pages alone all bm) :
    Serves view pins pages alone all moved ∧ record.bytes moved = data := by
  have whole : (alone ∨ Roomy all moved) ∧
      moved.pageTable rid.pageId = some record.frame := by
    by_cases isAlone : alone
    · have only := single isAlone
      rw [List.length_append, List.length_cons] at only
      obtain rfl : after = [] := List.eq_nil_of_length_eq_zero (by omega)
      have one : passed view [rid.pageId] (rid.slotId + 1) = [rid.pageId] := by
        unfold passed
        split <;> rfl
      have moving := fetches.moving
      unfold Program.Returns at moving
      rw [one, fetches.rested.visits_cons] at moving
      obtain ⟨_, rfl⟩ := (Program.returns_pure _ _ _ _).mp moving
      exact ⟨Or.inl isAlone, fetches.rested.cached⟩
    · have here : ∀ pageId ∈ [rid.pageId], pageId ∈ all := by
        intro pageId member
        rw [List.mem_singleton.mp member]
        exact inside isAlone _ (List.mem_append_right _ List.mem_cons_self)
      have onward : ∀ pageId ∈ passed view (rid.pageId :: after) (rid.slotId + 1),
          pageId ∈ all := fun pageId member =>
        inside isAlone pageId (List.mem_append_right _ (passed_subset _ _ _ pageId member))
      have room' := ((serves.2.resolve_left isAlone).visits here fetches.fetching).1
      obtain ⟨room'', stays⟩ := room'.visits onward fetches.moving
      exact ⟨Or.inr room'', stays _ _ fetches.rested.cached⟩
  obtain ⟨page, known, read⟩ := fetches.stored
  refine ⟨⟨fetches.steady, whole.1⟩, ?_⟩
  rw [Record.bytes, fetches.steady.data _ _ _ whole.2 known, read]

namespace SeqScanOp

/-- A scan that has these tuples left, wherever the pages are. -/
def Awaits (rel : Relation) (view : Int → Option Page) (chain : List Int) (rest : List Tuple)
    (iter : HeapIterator) : Prop :=
  ∃ front later slot, chain = front ++ later ∧ iter = standing 0 (nextRecord view later slot) ∧
    rest.map some = (recordsFrom view later slot).map fun record => rel.decode record.2

variable {rel : Relation} {rest : List Tuple} {scan : ScanState N}

theorem Awaits.step (awaits : Awaits rel view chain rest scan.iter)
    (linked : Chain view first chain)
    (inside : ¬ alone → ∀ pageId ∈ chain, pageId ∈ all) (single : alone → chain.length ≤ 1)
    (serves : Serves view pins pages alone all scan.bm) :
    ∃ scan', (SeqScanOp.next rel).Returns scan rest.head? scan' ∧
      Serves view pins pages alone all scan'.bm ∧ Awaits rel view chain rest.tail scan'.iter := by
  obtain ⟨bm, iter⟩ := scan
  obtain ⟨front, later, slot, rfl, onIt, same⟩ := awaits
  obtain rfl : iter = standing 0 (nextRecord view later slot) := onIt
  have next := @recordsFrom_nextRecord view later slot
  cases found : nextRecord view later slot with
  | none =>
      rw [found] at next
      rw [show recordsFrom view later slot = [] from next, List.map_nil,
        List.map_eq_nil_iff] at same
      subst same
      refine ⟨_, next_ended rel bm, serves, front, later, slot, rfl, by rw [found], ?_⟩
      rw [show recordsFrom view later slot = [] from next]
      rfl
  | some rid =>
      rw [found] at next
      obtain ⟨before, after, data, rfl, stored, records⟩ := next
      rw [← List.append_assoc] at linked inside single
      obtain ⟨record, fetched, moved, fetches⟩ :=
        HeapIterator.next_fetches linked stored serves.1
      rw [records] at same
      obtain ⟨tup, more, rfl, isTuple, further⟩ := List.map_eq_cons_iff.mp same
      obtain ⟨serves', bytes⟩ := fetches.served inside single serves
      have stepped := next_eq rel fetches.returned
      rw [bytes, show rel.decode data = some tup from isTuple.symm] at stepped
      exact ⟨_, stepped, serves', front ++ before, rid.pageId :: after, rid.slotId + 1,
        (List.append_assoc _ _ _).symm, rfl, further⟩

theorem Awaits.opened {tuples : List Tuple} (linked : Chain view rel.hf.firstPageId chain)
    (inside : ¬ alone → ∀ pageId ∈ chain, pageId ∈ all)
    (decoded : tuples.map some = (heapRecords view chain).map fun record => rel.decode record.2)
    (serves : Serves view pins pages alone all scan.bm) :
    ∃ scan', (openScan rel).Returns scan ⟨⟩ scan' ∧
      Serves view pins pages alone all scan'.bm ∧ Awaits rel view chain tuples scan'.iter := by
  obtain ⟨bm, iter⟩ := scan
  obtain ⟨bm', begun, steady, visited, _⟩ := HeapIterator.begin_visits 0 linked serves.1
  refine ⟨_, (onPool_returns iter begun).bind (Program.modify_returns _ _), ⟨steady, ?_⟩,
    [], chain, 0, rfl, rfl, decoded⟩
  by_cases isAlone : alone
  · exact Or.inl isAlone
  · have within : ∀ pageId ∈ passed view chain 0, pageId ∈ all := fun pageId member =>
      inside isAlone pageId (passed_subset _ _ _ pageId member)
    exact Or.inr ((serves.2.resolve_left isAlone).visits within visited).1

/-- A scan as a leaf of a plan, on a pool that serves other scans in between. -/
def sharedContract (rel : Relation) {tuples : List Tuple}
    (linked : Chain view rel.hf.firstPageId chain)
    (inside : ¬ alone → ∀ pageId ∈ chain, pageId ∈ all) (single : alone → chain.length ≤ 1)
    (decoded : tuples.map some =
      (heapRecords view chain).map fun record => rel.decode record.2) :
    (seqScanOp rel : Leaf (ScanState N)).Enumerates tuples where
  Ready scan := Serves view pins pages alone all scan.bm
  Remaining rest scan := Serves view pins pages alone all scan.bm ∧
    Awaits rel view chain rest scan.iter
  opened _ serves := Awaits.opened linked inside decoded serves
  stepped _ _ remaining := remaining.2.step linked inside single remaining.1
  closed _ scan remaining := ⟨scan, Program.pure_returns _ _, remaining.1⟩

end SeqScanOp

/-- A relation and the operators over a scan of it. -/
structure OpenPlan where
  rel : Relation
  plan : Plan

/-- The operators of the plans of a client, all over one pool. What their scans have as their
pool is that pool. -/
structure Cursors (N : Nat) {ι : Type} (plans : ι → OpenPlan) where
  bm : BufferManager N DiskManager
  states : (i : ι) → (plans i).plan.State (ScanState N)

inductive CursorOp (ι : Type) where
  | openPlan (i : ι)
  | next (i : ι)
  | close (i : ι)

structure CursorEvent (ι : Type) where
  op : CursorOp ι
  outcome : Except Error (Option Tuple)

variable {ι : Type} [DecidableEq ι] {plans : ι → OpenPlan}

namespace Cursors

variable {cursors : Cursors N plans} {i j : ι} {state : (plans i).plan.State (ScanState N)}

def current (cursors : Cursors N plans) (i : ι) : (plans i).plan.State (ScanState N) :=
  (plans i).plan.mapLeaf (SeqScanOp.setPool · cursors.bm) (cursors.states i)

def replaced (cursors : Cursors N plans) (i : ι) (state : (plans i).plan.State (ScanState N)) :
    Cursors N plans :=
  ⟨((plans i).plan.leafState state).bm, Function.update cursors.states i state⟩

theorem current_replaced : (cursors.replaced i state).current i =
    (plans i).plan.mapLeaf (SeqScanOp.setPool · ((plans i).plan.leafState state).bm) state := by
  show (plans i).plan.mapLeaf (SeqScanOp.setPool · ((plans i).plan.leafState state).bm)
    (Function.update cursors.states i state i) = _
  rw [Function.update_self]

/-- The other plans see the pool as the call left it. -/
theorem current_replaced_of_ne (apart : i ≠ j) : (cursors.replaced i state).current j =
    (plans j).plan.mapLeaf (SeqScanOp.setPool · ((plans i).plan.leafState state).bm)
      (cursors.current j) := by
  show (plans j).plan.mapLeaf (SeqScanOp.setPool · ((plans i).plan.leafState state).bm)
    (Function.update cursors.states i state j) = _
  rw [Function.update_of_ne (Ne.symm apart), current, Plan.mapLeaf_mapLeaf]
  rfl

def onPlan {α : Type} (i : ι) (program : Program ((plans i).plan.State (ScanState N)) Error α) :
    Program (Cursors N plans) Error α :=
  Program.within (current · i) (replaced · i) program

end Cursors

def CursorOp.run : CursorOp ι → Program (Cursors N plans) Error (Option Tuple)
  | openPlan i => do
      Cursors.onPlan i ((plans i).plan.openPlan (seqScanOp (plans i).rel))
      return none
  | next i => Cursors.onPlan i ((plans i).plan.next (seqScanOp (plans i).rel))
  | close i => do
      Cursors.onPlan i ((plans i).plan.close (seqScanOp (plans i).rel))
      return none

/-- How often a plan was asked for a tuple since it was opened, if it is open. -/
def fetched (i : ι) : List (CursorEvent ι) → Option Nat
  | [] => none
  | event :: log =>
      match event.op with
      | .openPlan j => if j = i then some 0 else fetched i log
      | .next j => if j = i then (fetched i log).map (· + 1) else fetched i log
      | .close j => if j = i then none else fetched i log

def CursorOp.Allowed (op : CursorOp ι) (log : List (CursorEvent ι)) : Prop :=
  ∀ i, op = .next i ∨ op = .close i → (fetched i log).isSome = true

theorem CursorOp.allowed_openPlan (i : ι) (log : List (CursorEvent ι)) :
    (CursorOp.openPlan i).Allowed log := by
  rintro j (same | same)
  · cases same
  · cases same

theorem CursorOp.allowed_next {i : ι} {log : List (CursorEvent ι)} {count : Nat}
    (found : fetched i log = some count) : (CursorOp.next i).Allowed log := by
  rintro j (same | same)
  · cases same
    rw [found]
    rfl
  · cases same

def cursorStep (plans : ι → OpenPlan) (log : List (CursorEvent ι)) (cursors : Cursors N plans)
    (event : CursorEvent ι) (cursors' : Cursors N plans) : Prop :=
  event.op.run cursors = some (event.outcome, cursors') ∧ event.op.Allowed log

abbrev CursorRun (start : Cursors N plans) : List (CursorEvent ι) → Cursors N plans → Prop :=
  Run (cursorStep plans) start

/-- A leaf that only minds that the pool is one that serves it. -/
structure Shares {rel : Relation} {tuples : List Tuple}
    (serves : BufferManager N DiskManager → Prop)
    (contract : (seqScanOp rel : Leaf (ScanState N)).Enumerates tuples) : Prop where
  ready : ∀ scan, contract.Ready scan ↔ serves scan.bm
  served : ∀ rest scan, contract.Remaining rest scan → serves scan.bm
  moved : ∀ rest scan bm, contract.Remaining rest scan → serves bm →
    contract.Remaining rest (SeqScanOp.setPool scan bm)

variable {serves : BufferManager N DiskManager → Prop} {tuples : ι → List Tuple}
  {contracts : ∀ i, (seqScanOp (plans i).rel : Leaf (ScanState N)).Enumerates (tuples i)}
  {log log' : List (CursorEvent ι)} {cursors : Cursors N plans}

/-- What is left of each plan that is open is what it means, without what it gave. -/
structure Underway (serves : BufferManager N DiskManager → Prop)
    (contracts : ∀ i, (seqScanOp (plans i).rel : Leaf (ScanState N)).Enumerates (tuples i))
    (log : List (CursorEvent ι)) (cursors : Cursors N plans) : Prop where
  served : serves cursors.bm
  left : ∀ i count, fetched i log = some count → (plans i).plan.Remaining (contracts i)
    ((Plan.denotation (plans i).plan (tuples i)).drop count) (cursors.current i)

/-- A call on one plan moves the pool under the others, and nothing else of them. -/
theorem Underway.replaced (underway : Underway serves contracts log cursors)
    (shares : ∀ i, Shares serves (contracts i)) {i : ι} {state : (plans i).plan.State (ScanState N)}
    (served : serves ((plans i).plan.leafState state).bm)
    (others : ∀ j, i ≠ j → fetched j log' = fetched j log)
    (own : ∀ count, fetched i log' = some count → (plans i).plan.Remaining (contracts i)
      ((Plan.denotation (plans i).plan (tuples i)).drop count) state) :
    Underway serves contracts log' (cursors.replaced i state) := by
  refine ⟨served, ?_⟩
  intro j count found
  have kept : ∀ rest scan, (contracts j).Remaining rest scan →
      (contracts j).Remaining rest
        (SeqScanOp.setPool scan ((plans i).plan.leafState state).bm) :=
    fun rest scan remaining => (shares j).moved rest scan _ remaining served
  by_cases same : i = j
  · subst same
    rw [Cursors.current_replaced]
    exact (own count found).mapLeaf kept
  · rw [others j same] at found
    rw [Cursors.current_replaced_of_ne same]
    exact (underway.left j count found).mapLeaf kept

/-- What a call on a plan answers, and that it ends. -/
structure Proceeds (serves : BufferManager N DiskManager → Prop)
    (contracts : ∀ i, (seqScanOp (plans i).rel : Leaf (ScanState N)).Enumerates (tuples i))
    (log : List (CursorEvent ι)) (cursors : Cursors N plans) (op : CursorOp ι)
    (answer : Option Tuple) (cursors' : Cursors N plans) : Prop where
  ended : op.run.Returns cursors answer cursors'
  underway : Underway serves contracts (⟨op, .ok answer⟩ :: log) cursors'
  given : ∀ i, op = .next i → ∃ count, fetched i log = some count ∧
    answer = (Plan.denotation (plans i).plan (tuples i))[count]?

theorem onPlan_returns {α : Type} {i : ι}
    {program : Program ((plans i).plan.State (ScanState N)) Error α} {value : α}
    {state : (plans i).plan.State (ScanState N)}
    (returned : program.Returns (cursors.current i) value state) :
    (Cursors.onPlan i program).Returns cursors value (cursors.replaced i state) :=
  Program.Returns.within (Cursors.current · i) (Cursors.replaced · i) returned

theorem Underway.proceeds (underway : Underway serves contracts log cursors)
    (shares : ∀ i, Shares serves (contracts i))
    (small : ∀ i, ∀ tup ∈ tuples i, tup.values.length < 65536) (op : CursorOp ι)
    (allowed : op.Allowed log) :
    ∃ answer cursors', Proceeds serves contracts log cursors op answer cursors' := by
  cases op with
  | openPlan i =>
      have ready : (plans i).plan.Ready (contracts i) (cursors.current i) := by
        rw [Plan.ready_iff, Cursors.current, Plan.leafState_mapLeaf]
        exact ((shares i).ready _).mpr underway.served
      obtain ⟨state, opened, remaining, _⟩ :=
        Plan.openPlan_returns (contracts i) (small i) (plans i).plan _ ready
      obtain ⟨_, inner⟩ := remaining.leafState
      refine ⟨none, _, (onPlan_returns opened).bind (Program.pure_returns _ _),
        underway.replaced shares ((shares i).served _ _ inner) ?_ ?_, ?_⟩
      · intro j apart
        simp only [fetched, apart, ↓reduceIte]
      · intro count found
        simp only [fetched, ↓reduceIte, Option.some.injEq] at found
        rw [← found, List.drop_zero]
        exact remaining
      · intro j same
        cases same
  | next i =>
      obtain ⟨count, found⟩ := Option.isSome_iff_exists.mp (allowed i (Or.inl rfl))
      obtain ⟨state, returned, remaining, _⟩ :=
        Plan.next_returns (contracts i) (plans i).plan _ _ (underway.left i count found)
      obtain ⟨_, inner⟩ := remaining.leafState
      refine ⟨_, _, onPlan_returns returned,
        underway.replaced shares ((shares i).served _ _ inner) ?_ ?_, ?_⟩
      · intro j apart
        simp only [fetched, apart, ↓reduceIte]
      · intro count' found'
        simp only [fetched, ↓reduceIte, found, Option.map_some, Option.some.injEq] at found'
        rw [← found', ← List.tail_drop]
        exact remaining
      · intro j same
        cases same
        exact ⟨count, found, List.head?_drop⟩
  | close i =>
      obtain ⟨count, found⟩ := Option.isSome_iff_exists.mp (allowed i (Or.inr rfl))
      obtain ⟨state, closed, ready, _⟩ :=
        Plan.close_returns (contracts i) (plans i).plan _ _ (underway.left i count found)
      rw [Plan.ready_iff, (shares i).ready] at ready
      refine ⟨none, _, (onPlan_returns closed).bind (Program.pure_returns _ _),
        underway.replaced shares ready ?_ ?_, ?_⟩
      · intro j apart
        simp only [fetched, apart, ↓reduceIte]
      · intro count' found'
        simp only [fetched, ↓reduceIte, reduceCtorEq] at found'
      · intro j same
        cases same

/-- Every `Next` of the run gave the tuple whose turn it was. -/
def InTurn (plans : ι → OpenPlan) (tuples : ι → List Tuple) (log : List (CursorEvent ι)) : Prop :=
  ∀ later earlier i outcome, log = later ++ ⟨.next i, outcome⟩ :: earlier →
    ∃ count, fetched i earlier = some count ∧
      outcome = .ok (Plan.denotation (plans i).plan (tuples i))[count]?

theorem Underway.run {start : Cursors N plans} (served : serves start.bm)
    (shares : ∀ i, Shares serves (contracts i))
    (small : ∀ i, ∀ tup ∈ tuples i, tup.values.length < 65536)
    (run : CursorRun start log cursors) :
    Underway serves contracts log cursors ∧ InTurn plans tuples log := by
  apply run.invariant fun log cursors =>
    Underway serves contracts log cursors ∧ InTurn plans tuples log
  · refine ⟨⟨served, fun i count found => by cases found⟩, ?_⟩
    intro later earlier i outcome split
    cases later with
    | nil => cases split
    | cons event later => cases split
  · intro log cursors event cursors' _ before taken
    obtain ⟨op, outcome⟩ := event
    obtain ⟨underway, inTurn⟩ := before
    obtain ⟨ended, allowed⟩ := taken
    obtain ⟨answer, after, proceeds⟩ := underway.proceeds shares small op allowed
    rw [show op.run cursors = some (.ok answer, after) from proceeds.ended, Option.some.injEq,
      Prod.mk.injEq] at ended
    obtain ⟨rfl, rfl⟩ := ended
    refine ⟨proceeds.underway, ?_⟩
    intro later earlier i outcome split
    cases later with
    | nil =>
        rw [List.nil_append, List.cons.injEq, CursorEvent.mk.injEq] at split
        obtain ⟨⟨isNext, rfl⟩, rfl⟩ := split
        obtain ⟨count, found, given⟩ := proceeds.given i isNext
        exact ⟨count, found, congrArg Except.ok given⟩
    | cons event later =>
        rw [List.cons_append, List.cons.injEq] at split
        exact inTurn later earlier i outcome split.2

theorem SeqScanOp.sharedContract_shares {rel : Relation} {rows : List Tuple}
    (linked : Chain view rel.hf.firstPageId chain)
    (inside : ¬ alone → ∀ pageId ∈ chain, pageId ∈ all) (single : alone → chain.length ≤ 1)
    (decoded : rows.map some = (heapRecords view chain).map fun record => rel.decode record.2) :
    Shares (Serves view pins pages alone all : BufferManager N DiskManager → Prop)
      (@sharedContract N view pins pages chain alone all rel rows linked inside single decoded) :=
  ⟨fun _ => Iff.rfl, fun _ _ remaining => remaining.1,
    fun _ _ _ remaining served => ⟨served, remaining.2⟩⟩

/-- Every plan that is open gives its own tuples, in order and then none, whatever calls on the
others come in between, if no scan is over more than one page or the pool has a free frame for
every page of all of them that it does not hold. No allowed call fails. -/
theorem plans_independent [NeZero N] (start : TableManager N) (initialised : Initialised start)
    (log : List (TableManager.Event N)) (manager : TableManager N)
    (run : DatabaseRun start log manager) {ι : Type} [DecidableEq ι] (plans : ι → OpenPlan)
    (chains : ι → List Int) (tuples : ι → List Tuple)
    (heaps : ∀ i, (plans i).rel.hf ∈ systemHeaps ++ manager.catalog.world.heaps)
    (linked : ∀ i, Chain manager.pages (plans i).rel.hf.firstPageId (chains i))
    (decoded : ∀ i, (tuples i).map some =
      (heapRecords manager.pages (chains i)).map fun record => (plans i).rel.decode record.2)
    (small : ∀ i, ∀ tup ∈ tuples i, tup.values.length < 65536)
    (room : (∀ i, (chains i).length ≤ 1) ∨
      ∃ all, (∀ i, chains i ⊆ all) ∧ Roomy all manager.catalog.world.bm)
    (states : ∀ i, (plans i).plan.State (ScanState N)) (calls : List (CursorEvent ι))
    (cursors : Cursors N plans)
    (cursorRun : CursorRun ⟨manager.catalog.world.bm, states⟩ calls cursors) :
    InTurn plans tuples calls ∧
      (∀ op : CursorOp ι, op.Allowed calls →
        ∃ answer cursors', op.run.Returns cursors answer cursors') ∧
      (∀ i, ∀ pageId ∈ chains i, cursors.bm.contents pageId = manager.pages pageId) ∧
      cursors.bm.pins = fun _ => 0 := by
  obtain ⟨s, holds⟩ := TableManager.runState initialised run
  have stands := holds.stands
  have sound := stands.holds.shows.sound
  have steady := stands.holds.shows.steady
  have known : ∀ i, Chain s.view (plans i).rel.hf.firstPageId (chains i) ∧
      ∀ pageId ∈ chains i, manager.pages pageId = s.view pageId := by
    intro i
    have member := heaps i
    rw [show systemHeaps ++ manager.catalog.world.heaps = s.heaps from
      stands.holds.shows.heaps] at member
    obtain ⟨j, present⟩ := List.mem_iff_getElem?.mp member
    have own := sound.linked j _ present
    have same := (own.congr fun _ inChain => stands.contents_eq inChain).unique (linked i)
    rw [← same]
    exact ⟨own, fun _ inChain => stands.contents_eq inChain⟩
  have read : ∀ i, (tuples i).map some =
      (heapRecords s.view (chains i)).map fun record => (plans i).rel.decode record.2 := by
    intro i
    rw [decoded i, show heapRecords manager.pages (chains i) = heapRecords s.view (chains i) from
      recordsFrom_congr (known i).2 0]
  obtain ⟨all, inside, serves⟩ : ∃ all, (¬ (∀ i, (chains i).length ≤ 1) →
      ∀ i, ∀ pageId ∈ chains i, pageId ∈ all) ∧
      Serves s.view (fun _ => 0) s.pages (∀ i, (chains i).length ≤ 1) all
        manager.catalog.world.bm := by
    rcases room with single | ⟨all, inside, room⟩
    · exact ⟨[], fun several => absurd single several, steady, Or.inl single⟩
    · exact ⟨all, fun _ i pageId member => inside i member, steady, Or.inr room⟩
  have shares := fun i => @SeqScanOp.sharedContract_shares N s.view (fun _ => 0) s.pages
    (chains i) _ all (plans i).rel (tuples i) (known i).1 (fun several => inside several i)
    (fun single => single i) (read i)
  obtain ⟨underway, inTurn⟩ := Underway.run serves shares small cursorRun
  refine ⟨inTurn, ?_, ?_, underway.served.1.pinned⟩
  · intro op allowed
    obtain ⟨answer, cursors', proceeds⟩ := underway.proceeds shares small op allowed
    exact ⟨answer, cursors', proceeds.ended⟩
  · intro i pageId member
    rw [(known i).2 pageId member]
    exact (known i).1.contents_eq underway.served.1.toBacked member

/-- Two scans of the first table, one opened and asked while the other is open. -/
theorem plans_independent_two : ∃ (table : UserTable) (first second : Option Tuple)
    (start cursors : Cursors bufferPoolSize
      fun _ : Bool => (⟨table.relation, .limitOp .leaf 1⟩ : OpenPlan)),
    CursorRun start
      [⟨.next false, .ok (some ⟨[.int 7], table.schema⟩)⟩,
        ⟨.next true, .ok (some ⟨[.int 7], table.schema⟩)⟩,
        ⟨.openPlan false, .ok first⟩, ⟨.openPlan true, .ok second⟩] cursors := by
  obtain ⟨start, manager, log, table, manager₁, first⟩ := TableManager.numbersIn_exists [7] (by decide)
  obtain ⟨chain, rid, linked, one, records⟩ := first.one
  obtain ⟨s, holds⟩ := TableManager.runState first.initialised first.run
  obtain ⟨cached, stands₁⟩ := holds.stands.opened first.opened
  obtain ⟨i, present, _⟩ := cached.place
  obtain rfl := stands₁.chain_eq present linked
  rw [stands₁.records_eq, ← holds.stands.records_eq] at records
  have inHeaps : table.hf ∈ systemHeaps ++ manager.catalog.world.heaps := by
    rw [show systemHeaps ++ manager.catalog.world.heaps = s.heaps from
      holds.stands.holds.shows.heaps]
    exact List.mem_of_getElem? present
  have linked' := TableManager.linked_of_holds holds.stands.holds present
  let plans : Bool → OpenPlan := fun _ => ⟨table.relation, .limitOp .leaf 1⟩
  let closed : Cursors bufferPoolSize plans :=
    ⟨manager.catalog.world.bm, fun _ => ⟨⟨manager.catalog.world.bm, standing 0 none⟩, 0, 0⟩⟩
  have independent := plans_independent start first.initialised log manager first.run plans
    (fun _ => s.chain i) (fun _ => [⟨[.int 7], table.schema⟩]) (fun _ => inHeaps)
    (fun _ => linked')
    (fun _ => by
      rw [records, List.map_singleton, List.map_singleton]
      exact congrArg (fun tup => [tup]) first.decode_seven.symm)
    (fun _ tup member => by
      rw [List.mem_singleton.mp member]
      show ([.int 7] : List Value).length < 65536
      decide)
    (Or.inl fun _ => one) closed.states
  have step : ∀ calls cursors, CursorRun closed calls cursors → ∀ op : CursorOp Bool,
      op.Allowed calls → ∃ answer cursors',
        CursorRun closed (⟨op, .ok answer⟩ :: calls) cursors' := by
    intro calls cursors run op allowed
    obtain ⟨answer, cursors', ended⟩ := (independent calls cursors run).2.1 op allowed
    exact ⟨answer, cursors', run.cons ⟨ended, allowed⟩⟩
  have turn : ∀ calls cursors i answer,
      CursorRun closed (⟨.next i, .ok answer⟩ :: calls) cursors → fetched i calls = some 0 →
      answer = some ⟨[.int 7], table.schema⟩ := by
    intro calls cursors i answer run none
    obtain ⟨count, found, given⟩ := (independent _ cursors run).1 [] calls i _ rfl
    rw [none, Option.some.injEq] at found
    rw [← found, Except.ok.injEq] at given
    exact given
  obtain ⟨second, cursors₁, run₁⟩ := step [] closed .nil _
    (CursorOp.allowed_openPlan true _)
  obtain ⟨first', cursors₂, run₂⟩ := step _ cursors₁ run₁ _
    (CursorOp.allowed_openPlan false _)
  obtain ⟨answer₁, cursors₃, run₃⟩ := step _ cursors₂ run₂ (.next true)
    (CursorOp.allowed_next rfl)
  obtain ⟨answer₂, cursors₄, run₄⟩ := step _ cursors₃ run₃ (.next false)
    (CursorOp.allowed_next rfl)
  rw [turn _ _ _ _ run₃ rfl] at run₄
  rw [turn _ _ _ _ run₄ rfl] at run₄
  exact ⟨table, first', second, closed, cursors₄, run₄⟩

end RelationalDb
