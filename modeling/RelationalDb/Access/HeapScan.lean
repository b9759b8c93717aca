import RelationalDb.Access.ChainSafety
import RelationalDb.Cursor

set_option autoImplicit false

namespace RelationalDb

open HeapFile
open BufferManager (Steady)

namespace HeapIterator

variable {N : Nat} {bm : BufferManager N DiskManager} {view : Int → Option Page}
  {pins : Int → Int} {pages : Int}

/-- The iterator that `end` gives. -/
def sentinel (heap : Nat) : HeapIterator := ⟨heap, invalidPageId, 0, false⟩

/-- The iterator that stands on a record, or behind the last one. -/
def standing (heap : Nat) : Option Rid → HeapIterator
  | some rid => ⟨heap, rid.pageId, rid.slotId, true⟩
  | none => sentinel heap

theorem endIterator_returns (heap : Nat) (bm : BufferManager N DiskManager) :
    (endIterator heap).Returns bm (sentinel heap) bm := by
  simp only [endIterator, HeapIterator.new, Bool.false_eq_true, false_and, ↓reduceIte]
  exact Program.pure_returns _ _

theorem equal_iff (it other : HeapIterator) : it.equal other = true ↔ it = other := by
  cases it
  cases other
  simp [equal, and_assoc]

theorem standing_equal (heap : Nat) (position : Option Rid) :
    (standing heap position).equal (sentinel heap) = true ↔ position = none := by
  rw [equal_iff]
  cases position with
  | none => exact iff_of_true rfl rfl
  | some rid =>
      apply iff_of_false _ (Option.some_ne_none rid)
      intro same
      exact Bool.noConfusion (congrArg HeapIterator.hasNext same)

theorem standing_going (heap : Nat) (rid : Rid) :
    (standing heap (some rid)).equal (sentinel heap) = false :=
  Bool.eq_false_iff.mpr ((standing_equal heap (some rid)).not.mpr (Option.some_ne_none rid))

theorem standing_hasNext (heap : Nat) (position : Option Rid) :
    (standing heap position).hasNext = false ↔ position = none := by
  cases position with
  | none => exact iff_of_true rfl rfl
  | some rid => exact iff_of_false (fun same => by cases same) (Option.some_ne_none rid)

theorem settled_standing (it : HeapIterator) (pageId : Int) (rest : List Int) :
    it.settled view (pageId :: rest) =
      standing it.heap (nextRecord view (pageId :: rest) it.currSlot) := by
  simp only [settled]
  cases nextRecord view (pageId :: rest) it.currSlot <;> rfl

/-- `begin` stands on the first record of the chain, behind the visits to the pages up to it. -/
theorem begin_visits {heap : HeapFile} {chain : List Int} (address : Nat)
    (linked : Chain view heap.firstPageId chain) (steady : Steady bm view pins pages) :
    ∃ bm', (heap.begin address).Returns bm (standing address (nextRecord view chain 0)) bm' ∧
      Steady bm' view pins pages ∧
      (BufferManager.visits (passed view chain 0)).Returns bm ⟨⟩ bm' ∧
      ∀ rid, nextRecord view chain 0 = some rid →
        ∃ frame, BufferManager.Rested bm' rid.pageId frame := by
  cases chain with
  | nil =>
      have first : heap.firstPageId = invalidPageId := linked.first_eq
      refine ⟨bm, ?_, steady, Program.pure_returns _ _, nofun⟩
      simp only [HeapFile.begin, first, ↓reduceIte]
      exact endIterator_returns address bm
  | cons pageId rest =>
      obtain rfl : heap.firstPageId = pageId := linked.first_eq
      have given := (linked.page List.mem_cons_self).1
      have valid : heap.firstPageId ≠ invalidPageId := by
        intro same
        rw [same] at given
        exact absurd given (by decide)
      obtain ⟨bm', ended, steady', visited, rested⟩ :=
        @advance_visits N bm view pins pages _ ⟨address, heap.firstPageId, 0, true⟩ linked steady
      rw [settled_standing] at ended
      refine ⟨bm', ?_, steady', visited, rested⟩
      simp only [HeapFile.begin, valid, ↓reduceIte, HeapIterator.new, ne_eq, not_false_eq_true,
        and_self]
      exact ended

theorem begin_returns {heap : HeapFile} {chain : List Int} (address : Nat)
    (linked : Chain view heap.firstPageId chain) (steady : Steady bm view pins pages) :
    ∃ bm', (heap.begin address).Returns bm (standing address (nextRecord view chain 0)) bm' ∧
      Steady bm' view pins pages := by
  obtain ⟨bm', begun, steady', _⟩ := begin_visits address linked steady
  exact ⟨bm', begun, steady'⟩

theorem present_slot {chain : List Int} {rid : Rid} (present : Present view chain rid) :
    rid.slotId + 1 < 2 ^ 16 := by
  have held := present.2
  unfold storedRecord at held
  cases known : view rid.pageId with
  | none =>
      rw [known] at held
      cases held
  | some page =>
      have bound : SlottedPage.numSlots page headerSize < 2 ^ 16 := Region.load_lt page _ 2
      rw [known, Option.bind_some, SlottedPage.record_isSome] at held
      unfold SlottedPage.get at held
      split at held
      · cases held
      · omega

theorem increment_returns {first : Int} {before after : List Int} {rid : Rid} (address : Nat)
    (linked : Chain view first (before ++ rid.pageId :: after))
    (present : Present view (before ++ rid.pageId :: after) rid)
    (steady : Steady bm view pins pages) :
    ∃ bm', (standing address (some rid)).increment.Returns bm
        (standing address (nextRecord view (rid.pageId :: after) (rid.slotId + 1))) bm' ∧
      Steady bm' view pins pages := by
  obtain ⟨bm', ended, steady'⟩ := @advance_returns N bm view pins pages _
    (standing address (some rid)).nextSlot linked.suffix steady
  rw [settled_standing] at ended
  have slot : (standing address (some rid)).nextSlot.currSlot = rid.slotId + 1 :=
    Nat.mod_eq_of_lt (present_slot present)
  rw [slot] at ended
  exact ⟨bm', ended, steady'⟩

theorem deref_returns {chain : List Int} {rid : Rid} {page : Page} (address : Nat)
    (given : 0 ≤ rid.pageId) (known : view rid.pageId = some page)
    (present : Present view chain rid) (steady : Steady bm view pins pages) :
    ∃ record bm', (standing address (some rid)).deref.Returns bm record bm' ∧
      Steady bm' view pins pages ∧ record.rid = rid ∧
      storedRecord view rid = some (record.bytes bm') := by
  obtain ⟨result, bm', returned, steady', fetched⟩ := get_returns steady given known
  have bytes := fetched.bytes
  have held := present.2
  rw [storedRecord_eq known, ← bytes, Option.isSome_map] at held
  obtain ⟨record, rfl⟩ := Option.isSome_iff_exists.mp held
  refine ⟨record, bm', ?_, steady', (fetched.found record rfl).1, ?_⟩
  · simp only [deref, standing, Bool.true_eq_false, ↓reduceIte]
    exact returned.bind (Program.pure_returns _ _)
  · rw [storedRecord_eq known, ← bytes]
    rfl

end HeapIterator

/-- The world, the iterator of a scan, and whether `*it` was taken since it moved. -/
structure Scan (N : Nat) where
  world : World N
  it : HeapIterator
  taken : Bool

inductive ScanOp where
  | call (op : HeapOp)
  | deref
  | increment

/-- What a step of a scan gives. A record is read before the next step. -/
inductive ScanAnswer where
  | answered (answer : HeapAnswer)
  | yielded (rid : Rid) (data : List UInt8)
  | moved

namespace Scan

variable {N : Nat}

def onWorld {α : Type} (program : Program (World N) Error α) : Program (Scan N) Error α :=
  fun scan => (program scan.world).map fun ended => (ended.1, { scan with world := ended.2 })

def take : Program (Scan N) Error Unit := modify fun scan => { scan with taken := true }

def moveTo (it : HeapIterator) : Program (Scan N) Error Unit :=
  modify fun scan => { scan with it := it, taken := false }

end Scan

section Scans

variable {N : Nat}

open Scan World

def ScanOp.run : ScanOp → Program (Scan N) Error ScanAnswer
  | call op => do return .answered (← onWorld op.run)
  | deref => do
      let record ← onWorld (onPool (← MonadState.get).it.deref)
      take
      return .yielded record.rid (record.bytes (← MonadState.get).world.bm)
  | increment => do
      moveTo (← onWorld (onPool (← MonadState.get).it.increment))
      return .moved

structure ScanEvent (N : Nat) where
  before : Scan N
  op : ScanOp
  outcome : Except Error ScanAnswer

/-- The calls on heaps among the steps. -/
def calls (log : List (ScanEvent N)) : List HeapEvent :=
  log.filterMap fun event =>
    match event.op, event.outcome with
    | .call op, .ok (.answered answer) => some ⟨op, .ok answer⟩
    | .call op, .error reason => some ⟨op, .error reason⟩
    | _, _ => none

/-- The records the scan returned, latest first. -/
def returned (log : List (ScanEvent N)) : List (Rid × List UInt8) :=
  log.filterMap fun event =>
    match event.outcome with
    | .ok (.yielded rid data) => some (rid, data)
    | _ => none

def NonEmptyData : HeapOp → Prop
  | .insert _ data => data ≠ []
  | .update _ _ data => data ≠ []
  | _ => True

def GivenRecords (log : List HeapEvent) (op : HeapOp) : Prop :=
  GivenRids log op ∧ NonEmptyData op

/-- A scan of heap `i` is `for (it = begin(); it != end(); ++it)` with one `*it` in
the body. The calls in between do not delete the record the iterator stands on. -/
def ScanGuard (i : Nat) (earlier : List HeapEvent) (log : List (ScanEvent N)) (scan : Scan N) :
    ScanOp → Prop
  | .call op => GivenRecords (calls log ++ earlier) op ∧
      (scan.it.equal (.sentinel i) = false → op ≠ .delete i ⟨scan.it.currPage, scan.it.currSlot⟩)
  | .deref => scan.it.equal (.sentinel i) = false ∧ scan.taken = false
  | .increment => scan.it.equal (.sentinel i) = false ∧ scan.taken = true

def scanStep (i : Nat) (earlier : List HeapEvent) (log : List (ScanEvent N)) (scan : Scan N)
    (event : ScanEvent N) (scan' : Scan N) : Prop :=
  event.before = scan ∧ event.op.run scan = some (event.outcome, scan') ∧
    ScanGuard i earlier log scan event.op ∧ 0 ≤ nextAllocated scan'.world.bm

abbrev ScanRun (i : Nat) (earlier : List HeapEvent) (start : Scan N) :
    List (ScanEvent N) → Scan N → Prop :=
  Run (scanStep i earlier) start

/-- What `Get` on heap `i` would say of a record id. -/
def Reports (w : World N) (i : Nat) (rid : Rid) (data : Option (List UInt8)) : Prop :=
  ∃ w', (HeapOp.get i rid).run w = some (.ok (.found data), w')

def Live (w : World N) (i : Nat) (rid : Rid) : Prop := ∃ data, Reports w i rid (some data)

/-- A record of heap `i` that was live before each step of a scan and still is. -/
def LiveThroughout (i : Nat) (earlier : List HeapEvent) (log : List (ScanEvent N)) (scan : Scan N)
    (rid : Rid) : Prop :=
  (i, rid) ∈ issued earlier ∧ (∀ event ∈ log, Live event.before.world i rid) ∧
    Live scan.world i rid

/-- A step that did not throw and returned no more than `Get` finds. -/
def Genuine (i : Nat) (event : ScanEvent N) : Prop :=
  ∃ answer, event.outcome = .ok answer ∧
    ∀ rid data, answer = .yielded rid data → Reports event.before.world i rid (some data)

/-- What a scan promises at each of its points. -/
structure ScanSafe (i : Nat) (earlier : List HeapEvent) (log : List (ScanEvent N)) (scan : Scan N) :
    Prop where
  ordered : ∃ chain, Chained scan.world chain ∧
    (∀ item ∈ returned log, item.1.pageId ∈ chain i) ∧
    ((returned log).map fun item => place (chain i) item.1).Pairwise (· > ·)
  genuine : ∀ event ∈ log, Genuine i event
  complete : scan.it.equal (.sentinel i) = true → ∀ rid, LiveThroughout i earlier log scan rid →
    ((returned log).map Prod.fst).count rid = 1
  ended_iff : ∀ sentinel bm', (endIterator i).Returns scan.world.bm sentinel bm' →
    (scan.it.equal sentinel = true ↔ scan.it.hasNext = false)
  proceeds : ∀ op, op = .deref ∨ op = .increment → ScanGuard i earlier log scan op →
    ∃ answer scan', scanStep i earlier log scan ⟨scan, op, .ok answer⟩ scan'

def places (view : Int → Option Page) (chain : List Int) : Set (ℕ ×ₗ ℕ) :=
  {p | ∃ rid, Present view chain rid ∧ place chain rid = p}

/-- `nextRecord` is the next place of a cursor. -/
theorem nextRecord_cursor {view : Int → Option Page} {chain before later : List Int} {slot : Nat}
    (split : chain = before ++ later) (distinct : chain.Nodup)
    (pages : ∀ pageId ∈ chain, ∃ page, view pageId = some page) :
    (∀ found, nextRecord view later slot = some found → Present view chain found) ∧
    Cursor.Least (places view chain) (toLex (before.length, slot) ≤ ·)
      ((nextRecord view later slot).map (place chain)) := by
  have least := @nextRecord_least view chain before later slot split distinct pages
  cases next : nextRecord view later slot with
  | some found =>
      rw [next] at least
      obtain ⟨present, lower, first⟩ := least
      refine ⟨fun _ same => by cases same; exact present, ⟨found, present, rfl⟩, lower, ?_⟩
      intro other member after
      obtain ⟨rid, held, rfl⟩ := member
      exact first rid held after
  | none =>
      rw [next] at least
      refine ⟨fun _ same => absurd same (Option.some_ne_none _).symm, ?_⟩
      intro other member after
      obtain ⟨rid, held, rfl⟩ := member
      exact absurd (least rid held) (not_lt.mpr after)

theorem origin_le (p : ℕ ×ₗ ℕ) : toLex (0, 0) ≤ p := by
  rcases p with ⟨page, slot⟩
  apply Prod.Lex.toLex_le_toLex.mpr
  rcases Nat.eq_zero_or_pos page with rfl | further
  · exact Or.inr ⟨rfl, Nat.zero_le slot⟩
  · exact Or.inl further

theorem lt_iff_next_le (index slot : Nat) (other : ℕ ×ₗ ℕ) :
    toLex (index, slot) < other ↔ toLex (index, slot + 1) ≤ other := by
  rcases other with ⟨page, record⟩
  rw [show ((page, record) : ℕ ×ₗ ℕ) = toLex (page, record) from rfl, Prod.Lex.toLex_lt_toLex,
    Prod.Lex.toLex_le_toLex]
  simp only [Nat.lt_iff_add_one_le]

/-- The records of heap `i` that were live all along, by place. -/
def keptPlaces (i : Nat) (earlier : List HeapEvent) (log : List (ScanEvent N)) (scan : Scan N)
    (chain : List Int) : Set (ℕ ×ₗ ℕ) :=
  {p | ∃ rid, LiveThroughout i earlier log scan rid ∧ place chain rid = p}

/-- The scan as a cursor through the places of its chain. -/
def cursorOf (chain : List Int) (position : Option Rid) (taken : Bool)
    (returned : List (Rid × List UInt8)) : Cursor (ℕ ×ₗ ℕ) :=
  ⟨position.map (place chain), taken, returned.map fun item => place chain item.1⟩

structure ScanInv (i : Nat) (earlier : List HeapEvent) (log : List (ScanEvent N)) (scan : Scan N)
    (s : HeapState) (position : Option Rid) : Prop where
  holds : RunState (calls log ++ earlier) scan.world s
  bound : i < s.heaps.length
  stands : scan.it = .standing i position
  present : ∀ rid, position = some rid → Present s.view (s.chain i) rid
  inside : ∀ item ∈ returned log, item.1.pageId ∈ s.chain i
  complete : (cursorOf (s.chain i) position scan.taken (returned log)).Complete
    (keptPlaces i earlier log scan (s.chain i))

variable {i : Nat} {earlier : List HeapEvent} {log : List (ScanEvent N)} {scan : Scan N}
  {s : HeapState} {w : World N}

/-- A call on the pool alone does not touch the heaps. -/
theorem World.RunState.repool {log : List HeapEvent} (holds : RunState log w s)
    {bm' : BufferManager N DiskManager} (steady : Steady bm' s.view (fun _ => 0) s.pages) :
    RunState log { w with bm := bm' } s :=
  ⟨⟨steady, holds.1.heaps, holds.1.sound⟩, holds.2⟩

theorem World.Shows.reports {pins : Int → Int} (shows : Shows w s pins) {rid : Rid}
    (known : s.Known i rid) : Reports w i rid (storedRecord s.view rid) := by
  obtain ⟨answer, w', s', ended, effect, _⟩ := get_performs shows known (known.bound shows.sound)
  cases effect
  exact ⟨w', ended⟩

theorem World.RunState.present {log : List HeapEvent} (holds : RunState log w s) {rid : Rid}
    (given : (i, rid) ∈ issued log) (live : Live w i rid) : Present s.view (s.chain i) rid := by
  have known := holds.2 (i, rid) given
  refine ⟨known.1, ?_⟩
  obtain ⟨data, w', found⟩ := live
  obtain ⟨w'', reported⟩ := holds.1.reports known
  have same := reported.symm.trans found
  simp only [Option.some.injEq, Prod.mk.injEq, Except.ok.injEq, HeapAnswer.found.injEq] at same
  rw [same.1]
  rfl

theorem issued_append (later earlier : List HeapEvent) {entry : Nat × Rid}
    (member : entry ∈ issued earlier) : entry ∈ issued (later ++ earlier) := by
  induction later with
  | nil => exact member
  | cons event later ih =>
      simp only [List.cons_append, issued]
      split
      · exact List.mem_cons_of_mem _ ih
      · exact ih

theorem HeapState.Sound.pages (sound : s.Sound) {pageId : Int} (member : pageId ∈ s.chain i) :
    ∃ page, s.view pageId = some page := by
  obtain ⟨_, _, page, present, _⟩ := sound.page member
  exact ⟨page, present⟩

theorem onWorld_returns {α : Type} {program : Program (World N) Error α} {value : α} {w' : World N}
    (returned : program.Returns scan.world value w') :
    (onWorld program).Returns scan value { scan with world := w' } := by
  unfold Program.Returns at returned ⊢
  rw [onWorld, returned]
  rfl

theorem call_run {op : HeapOp} {outcome : Except Error ScanAnswer} {scan' : Scan N}
    (ended : (ScanOp.call op).run scan = some (outcome, scan')) :
    ∃ result w', op.run scan.world = some (result, w') ∧ scan' = { scan with world := w' } ∧
      outcome = result.map ScanAnswer.answered := by
  rcases Program.bind_cases ended with ⟨answer, after, reached, rest⟩ | ⟨reason, thrown, same⟩
  · unfold Program.Returns at reached
    rw [onWorld, Option.map_eq_some_iff] at reached
    obtain ⟨⟨result, w'⟩, inner, shape⟩ := reached
    cases shape
    cases rest
    exact ⟨_, w', inner, rfl, rfl⟩
  · unfold Program.Throws at thrown
    rw [onWorld, Option.map_eq_some_iff] at thrown
    obtain ⟨⟨result, w'⟩, inner, shape⟩ := thrown
    cases shape
    exact ⟨_, w', inner, rfl, same⟩

theorem recordAfter_isSome {op : HeapOp} {answer : HeapAnswer} {rid : Rid}
    {old : Option (List UInt8)} (filled : ∀ j data, op = .update j rid data → data ≠ [])
    (kept : ∀ j, op ≠ .delete j rid) (held : old.isSome = true) :
    (HeapState.recordAfter op answer rid old).isSome = true := by
  unfold HeapState.recordAfter
  split
  · rename_i j other data
    split
    · rename_i same
      rw [SlottedPage.visible, if_neg (filled j data (by rw [same]))]
      rfl
    · exact held
  · rename_i j other
    split
    · rename_i same
      exact absurd (same ▸ rfl) (kept j)
    · exact held
  · exact held

theorem present_known {rid : Rid} (present : Present s.view (s.chain i) rid) : s.Known i rid := by
  refine ⟨present.1, ?_⟩
  have held := present.2
  unfold storedRecord at held
  cases known : s.view rid.pageId with
  | none =>
      rw [known] at held
      cases held
  | some page =>
      refine ⟨page, rfl, ?_⟩
      rw [known, Option.bind_some] at held
      by_contra outside
      rw [SlottedPage.record_none _ _ _ (Nat.le_of_not_lt outside)] at held
      cases held

theorem next_returns {pins : Int → Int} {rid : Rid} (shows : Shows w s pins)
    (bound : i < s.heaps.length) (present : Present s.view (s.chain i) rid) :
    ∃ position bm', (HeapIterator.standing i (some rid)).increment.Returns w.bm
        (.standing i position) bm' ∧ Steady bm' s.view pins s.pages ∧
      (∀ found, position = some found → Present s.view (s.chain i) found) ∧
      Cursor.Least (places s.view (s.chain i)) (place (s.chain i) rid < ·)
        (position.map (place (s.chain i))) := by
  have linked := shows.sound.linked i _ (List.getElem?_eq_getElem bound)
  have distinct := shows.sound.nodup i
  have pages : ∀ pageId ∈ s.chain i, ∃ page, s.view pageId = some page :=
    fun _ member => shows.sound.pages member
  obtain ⟨before, after, split⟩ := List.append_of_mem present.1
  have here : place (s.chain i) rid = toLex (before.length, rid.slotId) := by
    rw [split] at distinct ⊢
    rw [place, idxOf_split distinct]
  obtain ⟨onRecord, least⟩ := @nextRecord_cursor s.view (s.chain i) before _ (rid.slotId + 1) split
    distinct pages
  rw [split] at linked
  obtain ⟨bm', ended, steady'⟩ :=
    HeapIterator.increment_returns i linked (split ▸ present) shows.steady
  have least' := least.congr fun p => (lt_iff_next_le before.length rid.slotId p).symm
  rw [← here] at least'
  exact ⟨_, bm', ended, steady', onRecord, least'⟩

theorem deref_run {pins : Int → Int} {rid : Rid} (shows : Shows scan.world s pins)
    (stands : scan.it = .standing i (some rid)) (present : Present s.view (s.chain i) rid) :
    ∃ data bm', ScanOp.deref.run scan =
        some (.ok (.yielded rid data), ⟨⟨bm', scan.world.heaps⟩, scan.it, true⟩) ∧
      storedRecord s.view rid = some data ∧ Steady bm' s.view pins s.pages := by
  obtain ⟨given, _, page, known, _⟩ := shows.sound.page present.1
  obtain ⟨record, bm', ended, steady', same, stored⟩ :=
    HeapIterator.deref_returns i given known present shows.steady
  rw [← stands] at ended
  refine ⟨_, bm', ?_, stored, steady'⟩
  apply Program.Returns.bind_eq (Program.get_returns _) |>.trans
  apply Program.Returns.bind_eq (onWorld_returns (onPool_returns ended)) |>.trans
  rw [same]
  rfl

theorem increment_run {pins : Int → Int} {rid : Rid} (shows : Shows scan.world s pins)
    (bound : i < s.heaps.length) (stands : scan.it = .standing i (some rid))
    (present : Present s.view (s.chain i) rid) :
    ∃ position bm', ScanOp.increment.run scan =
        some (.ok .moved, ⟨⟨bm', scan.world.heaps⟩, .standing i position, false⟩) ∧
      Steady bm' s.view pins s.pages ∧
      (∀ found, position = some found → Present s.view (s.chain i) found) ∧
      Cursor.Least (places s.view (s.chain i)) (place (s.chain i) rid < ·)
        (position.map (place (s.chain i))) := by
  obtain ⟨position, bm', ended, steady', onRecord, least⟩ := next_returns shows bound present
  rw [← stands] at ended
  refine ⟨position, bm', ?_, steady', onRecord, least⟩
  apply Program.Returns.bind_eq (Program.get_returns _) |>.trans
  apply Program.Returns.bind_eq (onWorld_returns (onPool_returns ended)) |>.trans
  rfl

namespace ScanInv

theorem live_present {position : Option Rid} (inv : ScanInv i earlier log scan s position) {rid : Rid}
    (live : LiveThroughout i earlier log scan rid) : Present s.view (s.chain i) rid :=
  inv.holds.present (issued_append _ _ live.1) live.2.2

theorem kept_places {position : Option Rid} (inv : ScanInv i earlier log scan s position) :
    ∀ p ∈ keptPlaces i earlier log scan (s.chain i), p ∈ places s.view (s.chain i) := by
  intro p member
  obtain ⟨rid, live, same⟩ := member
  exact ⟨rid, inv.live_present live, same⟩

/-- `it = begin()`. -/
theorem start {w' : World N} {heap : HeapFile} {it : HeapIterator}
    (holds : RunState earlier w s) (found : w.heaps[i]? = some heap)
    (begun : (onPool (heap.begin i)).Returns w it w') :
    ∃ position, ScanInv i earlier [] ⟨w', it, false⟩ s position := by
  have present : s.heaps[i]? = some heap := by rw [← holds.1.heaps, found]
  have linked := holds.1.sound.linked i heap present
  obtain ⟨bm', ended, steady'⟩ := HeapIterator.begin_returns i linked holds.1.steady
  obtain ⟨rfl, rfl⟩ := (onPool_returns ended).value_eq begun
  have holds' := holds.repool steady'
  have pages : ∀ pageId ∈ s.chain i, ∃ page, s.view pageId = some page :=
    fun _ member => holds.1.sound.pages member
  obtain ⟨onRecord, least⟩ := @nextRecord_cursor s.view (s.chain i) [] (s.chain i) 0 rfl
    (holds.1.sound.nodup i) pages
  have first : Cursor.Least (places s.view (s.chain i)) (fun _ => True)
      ((nextRecord s.view (s.chain i) 0).map (place (s.chain i))) := by
    apply least.congr
    intro p
    exact iff_of_true (origin_le p) trivial
  refine ⟨_, holds', (List.getElem?_eq_some_iff.mp present).1, rfl, onRecord, ?_, ?_⟩
  · intro item member
    cases member
  · apply Cursor.Complete.start first
    intro p member
    obtain ⟨rid, live, same⟩ := member
    exact ⟨rid, holds'.present live.1 live.2.2, same⟩

theorem kept_mono {event : ScanEvent N} {scan' : Scan N} {chain : List Int}
    (before : event.before = scan) :
    ∀ p ∈ keptPlaces i earlier (event :: log) scan' chain, p ∈ keptPlaces i earlier log scan chain := by
  intro p member
  obtain ⟨rid, ⟨given, all, _⟩, same⟩ := member
  refine ⟨rid, ⟨given, fun other later => all other (List.mem_cons_of_mem _ later), ?_⟩, same⟩
  rw [← before]
  exact all event List.mem_cons_self

theorem deref {rid : Rid} (inv : ScanInv i earlier log scan s (some rid))
    (untaken : scan.taken = false) :
    ∃ data scan', ScanOp.deref.run scan = some (.ok (.yielded rid data), scan') ∧
      storedRecord s.view rid = some data ∧
      ScanInv i earlier (⟨scan, .deref, .ok (.yielded rid data)⟩ :: log) scan' s (some rid) := by
  have present := inv.present rid rfl
  obtain ⟨data, bm', run, stored, steady'⟩ := deref_run inv.holds.1 inv.stands present
  refine ⟨data, _, run, stored, inv.holds.repool steady', inv.bound, inv.stands, inv.present, ?_, ?_⟩
  · intro item member
    rcases List.mem_cons.mp member with rfl | earlier
    · exact present.1
    · exact inv.inside item earlier
  · have complete := inv.complete
    rw [untaken] at complete
    exact complete.take.mono (kept_mono rfl)

theorem increment {rid : Rid} (inv : ScanInv i earlier log scan s (some rid))
    (taken : scan.taken = true) :
    ∃ position scan', ScanOp.increment.run scan = some (.ok .moved, scan') ∧
      ScanInv i earlier (⟨scan, .increment, .ok .moved⟩ :: log) scan' s position := by
  obtain ⟨position, bm', run, steady', onRecord, least⟩ :=
    increment_run inv.holds.1 inv.bound inv.stands (inv.present rid rfl)
  refine ⟨position, _, run, inv.holds.repool steady', inv.bound, rfl, onRecord, inv.inside, ?_⟩
  have complete := inv.complete
  rw [taken] at complete
  apply (complete.move least inv.kept_places).mono
  exact kept_mono rfl

theorem cursorOf_append {chain : List Int} {position : Option Rid} {taken : Bool}
    {items : List (Rid × List UInt8)} (more : List Int)
    (stands : ∀ rid, position = some rid → rid.pageId ∈ chain)
    (inside : ∀ item ∈ items, item.1.pageId ∈ chain) :
    cursorOf (chain ++ more) position taken items = cursorOf chain position taken items := by
  have positions : position.map (place (chain ++ more)) = position.map (place chain) := by
    cases position with
    | none => rfl
    | some rid => exact congrArg some (place_append (stands rid rfl) more)
  have yields : items.map (fun item => place (chain ++ more) item.1) =
      items.map fun item => place chain item.1 :=
    List.map_congr_left fun item member => place_append (inside item member) more
  rw [cursorOf, cursorOf, positions, yields]

/-- A call in the middle of a scan. -/
theorem call {position : Option Rid} (inv : ScanInv i earlier log scan s position) {op : HeapOp}
    {outcome : Except Error ScanAnswer} {scan' : Scan N}
    (guard : ScanGuard i earlier log scan (.call op))
    (ended : (ScanOp.call op).run scan = some (outcome, scan'))
    (unwrapped : 0 ≤ nextAllocated scan'.world.bm) :
    ∃ answer s', outcome = .ok (.answered answer) ∧
      ScanInv i earlier (⟨scan, .call op, outcome⟩ :: log) scan' s' position := by
  obtain ⟨⟨given, nonempty⟩, undeleted⟩ := guard
  obtain ⟨result, w', inner, rfl, rfl⟩ := call_run ended
  have taken : heapStep GivenRids (calls log ++ earlier) scan.world ⟨op, result⟩ w' :=
    ⟨inner, given, unwrapped⟩
  obtain ⟨answer, s', same, effect, holds'⟩ := inv.holds.step taken
  cases same
  have sound := inv.holds.1.sound
  obtain ⟨more, grown⟩ := effect.chain_append sound inv.bound
  have kept : ∀ rid, position = some rid → ∀ j, op ≠ .delete j rid := by
    intro rid stands j deletes
    have known := present_known (inv.present rid stands)
    rw [deletes] at given
    have owner : j = i := (inv.holds.2 (j, rid) given).heap_eq known sound
    have it := inv.stands
    rw [stands] at it
    apply undeleted
    · rw [it]
      exact HeapIterator.standing_going i rid
    · rw [deletes, it, owner]
      rfl
  refine ⟨answer, s', rfl, holds', inv.bound.trans_le effect.count_le, inv.stands, ?_, ?_, ?_⟩
  · intro rid stands
    have present := inv.present rid stands
    refine ⟨?_, ?_⟩
    · rw [grown]
      exact List.mem_append_left more present.1
    · rw [effect.record sound (present_known present)]
      have filled : ∀ j data, op = .update j rid data → data ≠ [] := by
        rintro j data rfl
        exact nonempty
      exact recordAfter_isSome filled (kept rid stands) present.2
  · intro item member
    rw [grown]
    exact List.mem_append_left more (inv.inside item member)
  · rw [grown, show returned (_ :: log) = returned log from rfl,
      cursorOf_append more (fun rid stands => (inv.present rid stands).1) inv.inside]
    apply inv.complete.mono
    intro p member
    obtain ⟨rid, live, same⟩ := kept_mono rfl p member
    rw [place_append (inv.live_present live).1] at same
    exact ⟨rid, live, same⟩

theorem standing {position : Option Rid} (inv : ScanInv i earlier log scan s position)
    (ahead : scan.it.equal (.sentinel i) = false) : ∃ rid, position = some rid := by
  cases position with
  | some rid => exact ⟨rid, rfl⟩
  | none =>
      rw [inv.stands, (HeapIterator.standing_equal i none).mpr rfl] at ahead
      cases ahead

/-- One step of a scan or of a client. -/
theorem step {position : Option Rid} (inv : ScanInv i earlier log scan s position)
    {event : ScanEvent N} {scan' : Scan N} (taken : scanStep i earlier log scan event scan') :
    (∃ s' position', ScanInv i earlier (event :: log) scan' s' position') ∧ Genuine i event := by
  obtain ⟨before, op, outcome⟩ := event
  obtain ⟨rfl, ended, guard, unwrapped⟩ := taken
  cases op with
  | call op =>
      obtain ⟨answer, s', same, inv'⟩ := inv.call guard ended unwrapped
      refine ⟨⟨s', position, inv'⟩, _, same, ?_⟩
      intro rid data other
      cases other
  | deref =>
      obtain ⟨rid, rfl⟩ := inv.standing guard.1
      obtain ⟨data, scan'', run, stored, inv'⟩ := inv.deref guard.2
      obtain ⟨rfl, rfl⟩ := Prod.mk.inj (Option.some.inj (run.symm.trans ended))
      refine ⟨⟨s, _, inv'⟩, _, rfl, ?_⟩
      intro rid' data' same
      cases same
      rw [← stored]
      exact inv.holds.1.reports (present_known (inv.present rid rfl))
  | increment =>
      obtain ⟨rid, rfl⟩ := inv.standing guard.1
      obtain ⟨position', scan'', run, inv'⟩ := inv.increment guard.2
      obtain ⟨rfl, rfl⟩ := Prod.mk.inj (Option.some.inj (run.symm.trans ended))
      refine ⟨⟨s, _, inv'⟩, _, rfl, ?_⟩
      intro rid' data' other
      cases other

theorem proceeds {position : Option Rid} (inv : ScanInv i earlier log scan s position) (op : ScanOp)
    (own : op = .deref ∨ op = .increment) (guard : ScanGuard i earlier log scan op) :
    ∃ answer scan', scanStep i earlier log scan ⟨scan, op, .ok answer⟩ scan' := by
  rcases own with rfl | rfl
  · obtain ⟨rid, rfl⟩ := inv.standing guard.1
    obtain ⟨data, scan', run, _, inv'⟩ := inv.deref guard.2
    exact ⟨_, scan', rfl, run, guard, inv'.holds.1.unwrapped⟩
  · obtain ⟨rid, rfl⟩ := inv.standing guard.1
    obtain ⟨position', scan', run, inv'⟩ := inv.increment guard.2
    exact ⟨_, scan', rfl, run, guard, inv'.holds.1.unwrapped⟩

theorem safe {position : Option Rid} (inv : ScanInv i earlier log scan s position)
    (genuine : ∀ event ∈ log, Genuine i event) : ScanSafe i earlier log scan := by
  have ordered : ((returned log).map fun item => place (s.chain i) item.1).Pairwise (· > ·) :=
    inv.complete.ordered
  refine ⟨⟨s.chain, inv.holds.1.chained, inv.inside, ordered⟩, genuine, ?_, ?_, inv.proceeds⟩
  · intro ended rid live
    have none : position = none := by
      rw [inv.stands] at ended
      exact (HeapIterator.standing_equal i position).mp ended
    have nodup : ((returned log).map Prod.fst).Nodup := by
      have apart : (((returned log).map Prod.fst).map (place (s.chain i))).Nodup := by
        rw [List.map_map]
        exact ordered.imp fun above => ne_of_gt above
      exact apart.of_map _
    apply List.count_eq_one_of_mem nodup
    subst none
    obtain ⟨item, member, same⟩ := List.mem_map.mp
      (inv.complete.ended rfl _ ⟨rid, live, rfl⟩)
    rw [← place_inj (inv.inside item member) same]
    exact List.mem_map_of_mem member
  · intro sentinel bm' ended
    obtain ⟨rfl, _⟩ := (HeapIterator.endIterator_returns i scan.world.bm).value_eq ended
    rw [inv.stands, HeapIterator.standing_equal, HeapIterator.standing_hasNext]

end ScanInv

/-- A scan returns records in the order of the chain, each as it is at that time,
and none that was live all along is left out, whatever is called in between. -/
theorem scan_safe [NeZero N] (raw : Fin N → Page) (file : File)
    (small : file.size / pageSize < 2 ^ 31) (earlier : List HeapEvent) (w : World N)
    (prepared : HeapRun GivenRecords (World.start raw file) earlier w) (i : Nat) (heap : HeapFile)
    (found : w.heaps[i]? = some heap) (it : HeapIterator) (w' : World N)
    (begun : (onPool (heap.begin i)).Returns w it w') (log : List (ScanEvent N)) (scan : Scan N)
    (run : ScanRun i earlier ⟨w', it, false⟩ log scan) : ScanSafe i earlier log scan := by
  have given : HeapRun GivenRids (World.start raw file) earlier w :=
    prepared.mono fun _ _ _ _ taken => ⟨taken.1, taken.2.1.1, taken.2.2⟩
  obtain ⟨s, holds⟩ := runState small given
  obtain ⟨position, started⟩ := ScanInv.start holds found begun
  have invariant : (∃ s position, ScanInv i earlier log scan s position) ∧
      ∀ event ∈ log, Genuine i event := by
    apply run.invariant fun log scan =>
      (∃ s position, ScanInv i earlier log scan s position) ∧ ∀ event ∈ log, Genuine i event
    · exact ⟨⟨s, position, started⟩, fun _ member => absurd member List.not_mem_nil⟩
    · intro log scan event scan' _ inv taken
      obtain ⟨⟨s, position, inv⟩, genuine⟩ := inv
      obtain ⟨next, here⟩ := inv.step taken
      refine ⟨next, ?_⟩
      intro other member
      rcases List.mem_cons.mp member with rfl | earlier
      · exact here
      · exact genuine other earlier
  obtain ⟨⟨s', position', inv⟩, genuine⟩ := invariant
  exact inv.safe genuine

/-- A scan of one record, up to the first `*it`. -/
theorem scan_safe_first : ∃ (w w' : World 1) (heap : HeapFile) (it : HeapIterator) (rid : Rid)
    (scan : Scan 1) (answer : ScanAnswer),
    HeapRun GivenRecords (World.start (fun _ _ => 0) File.empty) oneRecord w ∧
      (onPool (heap.begin 0)).Returns w it w' ∧
      ScanRun 0 oneRecord ⟨w', it, false⟩ [⟨⟨w', it, false⟩, .deref, .ok answer⟩] scan ∧
      LiveThroughout 0 oneRecord [] ⟨w', it, false⟩ rid ∧
      ScanSafe 0 oneRecord [⟨⟨w', it, false⟩, .deref, .ok answer⟩] scan := by
  obtain ⟨w, s, prepared, holds, stored⟩ := oneRecord_run GivenRecords ⟨trivial, trivial⟩
    ⟨(by decide : [7].length < 2 ^ 63), List.cons_ne_nil 7 []⟩
  have member : (0, ⟨0, 0⟩) ∈ issued oneRecord := List.mem_cons_self
  have known : s.Known 0 ⟨0, 0⟩ := holds.2 _ member
  have bound := known.bound holds.1.sound
  have found : w.heaps[0]? = some s.heaps[0] := by
    rw [holds.1.heaps]
    exact List.getElem?_eq_getElem bound
  have linked := holds.1.sound.linked 0 _ (List.getElem?_eq_getElem bound)
  obtain ⟨bm', begun, steady'⟩ := HeapIterator.begin_returns 0 linked holds.1.steady
  have started := onPool_returns begun
  have reported := (holds.repool steady').1.reports known
  rw [stored] at reported
  let it := HeapIterator.standing 0 (nextRecord s.view (s.chain 0) 0)
  have live : LiveThroughout 0 oneRecord [] ⟨{ w with bm := bm' }, it, false⟩ ⟨0, 0⟩ :=
    ⟨member, fun _ impossible => absurd impossible List.not_mem_nil, [7], reported⟩
  have atStart := scan_safe _ _ (by decide) _ w prepared 0 _ found _ _ started _ _ .nil
  have ahead := Bool.eq_false_of_not_eq_true fun ended =>
    absurd (atStart.complete ended _ live) (by decide)
  obtain ⟨answer, scan, taken⟩ := atStart.proceeds .deref (Or.inl rfl) ⟨ahead, rfl⟩
  have run := Run.nil.cons taken
  exact ⟨w, _, _, _, _, scan, answer, prepared, started, run, live,
    scan_safe _ _ (by decide) _ w prepared 0 _ found _ _ started _ _ run⟩

end Scans

end RelationalDb
