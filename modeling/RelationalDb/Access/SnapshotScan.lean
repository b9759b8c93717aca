import RelationalDb.Access.HeapDeletion

set_option autoImplicit false

namespace RelationalDb

open HeapFile World Scan
open BufferManager (Steady)
open SlottedPage (freeSpace slotSize pageHeaderSize)

/-- The calls of an iterator in any order, and the calls on heaps. -/
inductive IteratorOp where
  | scan (op : ScanOp)
  | next

structure IteratorEvent where
  op : IteratorOp
  outcome : Except Error ScanAnswer

section Iterators

variable {N : Nat}

def IteratorOp.run : IteratorOp → Program (Scan N) Error ScanAnswer
  | scan op => op.run
  | next => do
      let (record, it) ← onWorld (onPool (← MonadState.get).it.next)
      moveTo it
      return .yielded record.rid (record.bytes (← MonadState.get).world.bm)

/-- The calls on heaps among the steps. -/
def clientCalls (log : List IteratorEvent) : List HeapEvent :=
  log.filterMap fun event =>
    match event.op, event.outcome with
    | .scan (.call op), .ok (.answered answer) => some ⟨op, .ok answer⟩
    | .scan (.call op), .error reason => some ⟨op, .error reason⟩
    | _, _ => none

/-- The record ids of the records the iterator returned. -/
def yields (log : List IteratorEvent) : List Rid :=
  log.filterMap fun event =>
    match event.outcome with
    | .ok (.yielded rid _) => some rid
    | _ => none

/-- A step of the iterator or of a client, who uses record ids that were issued. -/
def iteratorStep (earlier : List HeapEvent) (log : List IteratorEvent) (scan : Scan N)
    (event : IteratorEvent) (scan' : Scan N) : Prop :=
  event.op.run scan = some (event.outcome, scan') ∧
    (∀ op, event.op = .scan (.call op) → GivenRids (clientCalls log ++ earlier) op) ∧
    0 ≤ nextAllocated scan'.world.bm

abbrev IteratorRun (earlier : List HeapEvent) (start : Scan N) : List IteratorEvent → Scan N → Prop :=
  Run (iteratorStep earlier) start

/-- What is left to return is returned, and nothing but records that were live when the scan
began. -/
structure Snapshot (begun : World N) (i : Nat) (log : List IteratorEvent) (scan : Scan N) : Prop where
  proceeds : scan.it.hasNext = true → ∀ op : IteratorOp, op = .next ∨ op = .scan .deref →
    ∃ rid data scan', op.run scan = some (.ok (.yielded rid data), scan')
  live : ∀ rid ∈ yields log, Live begun i rid

/-- The pages of heap `i` in front of one of its pages. -/
def PagesBefore (w : World N) (i : Nat) (pageId : Int) (front : List Int) : Prop :=
  ∃ heap rest, w.heaps[i]? = some heap ∧
    Chain w.bm.contents heap.firstPageId (front ++ pageId :: rest)

/-- A record id that the iterator has behind it. -/
def Behind (w : World N) (i : Nat) (rid other : Rid) : Prop :=
  ∃ front, PagesBefore w i rid.pageId front ∧
    (other.pageId ∈ front ∨ other.pageId = rid.pageId ∧ other.slotId < rid.slotId)

/-- An insertion that goes to a page in front of the one of the record. -/
def FitsBefore (w : World N) (i : Nat) (rid : Rid) (data : List UInt8) : Prop :=
  ∃ front, PagesBefore w i rid.pageId front ∧ ∃ pageId ∈ front, ∃ page,
    w.bm.contents pageId = some page ∧ data.length + slotSize ≤ freeSpace page headerSize

/-- Calls that leave the record there that an iterator of heap `i` stands on, and that put no
record in front of it that was not live when the scan began. -/
def Spares (begun w : World N) (i : Nat) (rid : Rid) : HeapOp → Prop
  | .insert j data => j = i → data = [] ∨
      pageSize - headerSize - pageHeaderSize - slotSize < data.length ∨ FitsBefore w i rid data
  | .update j other data => j = i → (other = rid → data ≠ []) ∧
      (Live begun i other ∨ data = [] ∨ Behind w i rid other ∨ Exceeds w other data)
  | .delete j other => j = i → other ≠ rid
  | _ => True

/-- While there is a next record, clients spare the scan. -/
def snapshotStep (begun : World N) (i : Nat) (earlier : List HeapEvent) (log : List IteratorEvent)
    (scan : Scan N) (event : IteratorEvent) (scan' : Scan N) : Prop :=
  iteratorStep earlier log scan event scan' ∧
    ∀ op, event.op = .scan (.call op) → scan.it.hasNext = true →
      Spares begun scan.world i ⟨scan.it.currPage, scan.it.currSlot⟩ op

abbrev SnapshotRun (begun : World N) (i : Nat) (earlier : List HeapEvent) (start : Scan N) :
    List IteratorEvent → Scan N → Prop :=
  Run (snapshotStep begun i earlier) start

variable {w begun : World N} {s s' : HeapState} {pins : Int → Int} {i : Nat} {rid other : Rid}
  {earlier : List HeapEvent} {log : List IteratorEvent} {scan scan' : Scan N} {data : List UInt8}

theorem PagesBefore.order {pageId : Int} {front : List Int} (before : PagesBefore w i pageId front)
    (shows : Shows w s pins) : ∃ rest, s.chain i = front ++ pageId :: rest := by
  obtain ⟨heap, rest, found, linked⟩ := before
  have present : s.heaps[i]? = some heap := by rw [← shows.heaps, found]
  exact ⟨rest, (contents_chain shows.steady.toBacked shows.sound present).unique linked⟩

theorem place_lt_of_front {chain front rest : List Int} (order : chain = front ++ rid.pageId :: rest)
    (distinct : chain.Nodup) (member : other.pageId ∈ front) :
    place chain other < place chain rid := by
  have here : chain.idxOf rid.pageId = front.length := by
    rw [order] at distinct ⊢
    exact idxOf_split distinct
  have there : chain.idxOf other.pageId < front.length := by
    rw [order, List.idxOf_append_of_mem member]
    exact List.idxOf_lt_length_of_mem member
  apply Prod.Lex.toLex_lt_toLex.mpr
  left
  omega

theorem Behind.place_lt (behind : Behind w i rid other) (shows : Shows w s pins) :
    place (s.chain i) other < place (s.chain i) rid := by
  obtain ⟨front, before, position⟩ := behind
  obtain ⟨rest, order⟩ := before.order shows
  rcases position with member | ⟨same, lower⟩
  · exact place_lt_of_front order (shows.sound.nodup i) member
  · apply Prod.Lex.toLex_lt_toLex.mpr
    exact Or.inr ⟨by rw [same], lower⟩

/-- First fit takes a page in front of any page behind one with room. -/
theorem World.InsertEffect.front {before after : Int → Option Page} {chain chain' front rest : List Int}
    {pageId roomy : Int} {page : Page}
    (fits : InsertEffect before after chain data (some other) chain')
    (order : chain = front ++ pageId :: rest) (member : roomy ∈ front)
    (known : before roomy = some page)
    (room : data.length + slotSize ≤ freeSpace page headerSize) : other.pageId ∈ front := by
  have notFull : ¬ Full before data roomy := by
    rintro ⟨page', present, full⟩
    rw [known] at present
    cases present
    omega
  cases fits with
  | @found front' rest' taken _ _ order' full =>
      have passed : roomy ∉ front' := fun early => notFull (full roomy early)
      rw [order] at order'
      rcases List.append_eq_append_iff.mp order' with ⟨between, longer, _⟩ | ⟨between, longer, tail⟩
      · exact absurd (longer ▸ List.mem_append_left between member) passed
      · cases between with
        | nil =>
            rw [List.append_nil] at longer
            exact absurd (longer ▸ member) passed
        | cons first between =>
            obtain ⟨rfl, _⟩ := List.cons.inj tail
            rw [longer]
            exact List.mem_append_right front' List.mem_cons_self
  | grown full =>
      have inChain : roomy ∈ chain := by
        rw [order]
        exact List.mem_append_left _ member
      exact absurd (full roomy inChain) notFull

/-- Every record from the iterator on was live when the scan began. -/
structure SnapshotInv (begun : World N) (i : Nat) (earlier : List HeapEvent)
    (log : List IteratorEvent) (scan : Scan N) (s : HeapState) (position : Option Rid) : Prop where
  holds : RunState (clientCalls log ++ earlier) scan.world s
  bound : i < s.heaps.length
  stands : scan.it = .standing i position
  present : ∀ rid, position = some rid → Present s.view (s.chain i) rid
  ahead : ∀ rid, position = some rid → ∀ other, Present s.view (s.chain i) other →
    place (s.chain i) rid ≤ place (s.chain i) other → Live begun i other
  live : ∀ rid ∈ yields log, Live begun i rid

/-- A record that is there can be fetched. -/
theorem live_of_present (shows : Shows w s pins) (present : Present s.view (s.chain i) rid) :
    Live w i rid := by
  obtain ⟨data, stored⟩ := Option.isSome_iff_exists.mp present.2
  have reported := shows.reports (present_known present)
  rw [stored] at reported
  exact ⟨data, reported⟩

theorem next_run (shows : Shows scan.world s pins) (bound : i < s.heaps.length)
    (stands : scan.it = .standing i (some rid)) (present : Present s.view (s.chain i) rid) :
    ∃ data position bm', IteratorOp.next.run scan =
        some (.ok (.yielded rid data), ⟨⟨bm', scan.world.heaps⟩, .standing i position, false⟩) ∧
      Steady bm' s.view pins s.pages ∧
      (∀ found, position = some found → Present s.view (s.chain i) found) ∧
      Cursor.Least (places s.view (s.chain i)) (place (s.chain i) rid < ·)
        (position.map (place (s.chain i))) := by
  obtain ⟨given, _, page, known, _⟩ := shows.sound.page present.1
  obtain ⟨record, bm₁, taken, steady₁, same, _⟩ :=
    HeapIterator.deref_returns i given known present shows.steady
  have shows₁ : Shows ⟨bm₁, scan.world.heaps⟩ s pins := ⟨steady₁, shows.heaps, shows.sound⟩
  obtain ⟨position, bm', moved, steady', onRecord, least⟩ := next_returns shows₁ bound present
  have ended : (HeapIterator.standing i (some rid)).next.Returns scan.world.bm
      (record, .standing i position) bm' := by
    simp only [HeapIterator.deref, HeapIterator.standing, Bool.true_eq_false, ↓reduceIte] at taken
    simp only [HeapIterator.increment, HeapIterator.standing, Bool.true_eq_false,
      ↓reduceIte] at moved
    obtain ⟨result, bm₂, fetched, valued⟩ := Program.returns_bind.mp taken
    simp only [HeapIterator.next, HeapIterator.standing, Bool.true_eq_false, ↓reduceIte]
    exact fetched.bind (valued.bind (moved.bind (Program.pure_returns _ _)))
  rw [← stands] at ended
  refine ⟨record.bytes bm', position, bm', ?_, steady', onRecord, least⟩
  apply Program.Returns.bind_eq (Program.get_returns _) |>.trans
  apply Program.Returns.bind_eq (onWorld_returns (onPool_returns ended)) |>.trans
  rw [← same]
  rfl

namespace SnapshotInv

theorem ahead_next {position : Option Rid} (inv : SnapshotInv begun i earlier log scan s (some rid))
    (least : Cursor.Least (places s.view (s.chain i)) (place (s.chain i) rid < ·)
      (position.map (place (s.chain i)))) :
    ∀ found, position = some found → ∀ other, Present s.view (s.chain i) other →
      place (s.chain i) found ≤ place (s.chain i) other → Live begun i other := by
  rintro found rfl other present after
  have reached : place (s.chain i) rid < place (s.chain i) found := least.2.1
  exact inv.ahead rid rfl other present (le_of_lt (lt_of_lt_of_le reached after))

theorem here (inv : SnapshotInv begun i earlier log scan s (some rid)) : Live begun i rid :=
  inv.ahead rid rfl rid (inv.present rid rfl) (le_refl _)

/-- `Next` returns the record the iterator stands on. -/
theorem next (inv : SnapshotInv begun i earlier log scan s (some rid)) :
    ∃ data position scan', IteratorOp.next.run scan = some (.ok (.yielded rid data), scan') ∧
      SnapshotInv begun i earlier (⟨.next, .ok (.yielded rid data)⟩ :: log) scan' s position := by
  obtain ⟨data, position, bm', run, steady', onRecord, least⟩ :=
    next_run inv.holds.1 inv.bound inv.stands (inv.present rid rfl)
  refine ⟨data, position, _, run, inv.holds.repool steady', inv.bound, rfl, onRecord,
    inv.ahead_next least, ?_⟩
  intro other member
  rcases List.mem_cons.mp member with rfl | earlier
  · exact inv.here
  · exact inv.live other earlier

theorem deref (inv : SnapshotInv begun i earlier log scan s (some rid)) :
    ∃ data scan', (IteratorOp.scan .deref).run scan = some (.ok (.yielded rid data), scan') ∧
      SnapshotInv begun i earlier (⟨.scan .deref, .ok (.yielded rid data)⟩ :: log) scan' s
        (some rid) := by
  obtain ⟨data, bm', run, _, steady'⟩ := deref_run inv.holds.1 inv.stands (inv.present rid rfl)
  refine ⟨data, _, run, inv.holds.repool steady', inv.bound, inv.stands, inv.present, inv.ahead, ?_⟩
  intro other member
  rcases List.mem_cons.mp member with rfl | earlier
  · exact inv.here
  · exact inv.live other earlier

theorem increment (inv : SnapshotInv begun i earlier log scan s (some rid)) :
    ∃ position scan', (IteratorOp.scan .increment).run scan = some (.ok .moved, scan') ∧
      SnapshotInv begun i earlier (⟨.scan .increment, .ok .moved⟩ :: log) scan' s position := by
  obtain ⟨position, bm', run, steady', onRecord, least⟩ :=
    increment_run inv.holds.1 inv.bound inv.stands (inv.present rid rfl)
  exact ⟨position, _, run, inv.holds.repool steady', inv.bound, rfl, onRecord,
    inv.ahead_next least, inv.live⟩

/-- Behind the last record the calls of an iterator change nothing. -/
theorem ended (inv : SnapshotInv begun i earlier log scan s none) {op : IteratorOp}
    {outcome : Except Error ScanAnswer} (own : ∀ call, op ≠ .scan (.call call))
    (ran : op.run scan = some (outcome, scan')) :
    SnapshotInv begun i earlier (⟨op, outcome⟩ :: log) scan' s none := by
  obtain ⟨world, it, taken⟩ := scan
  obtain rfl : it = .standing i none := inv.stands
  have same : scan'.world = world ∧ scan'.it = .standing i none ∧
      clientCalls (⟨op, outcome⟩ :: log) = clientCalls log ∧
      yields (⟨op, outcome⟩ :: log) = yields log := by
    cases op with
    | next =>
        cases ran
        exact ⟨rfl, rfl, rfl, rfl⟩
    | scan op =>
        cases op with
        | call op => exact absurd rfl (own op)
        | deref =>
            cases ran
            exact ⟨rfl, rfl, rfl, rfl⟩
        | increment =>
            cases ran
            exact ⟨rfl, rfl, rfl, rfl⟩
  obtain ⟨sameWorld, sameIt, sameCalls, sameYields⟩ := same
  refine ⟨?_, inv.bound, sameIt, nofun, nofun, ?_⟩
  · rw [sameCalls, sameWorld]
    exact inv.holds
  · rw [sameYields]
    exact inv.live

theorem present_kept (inv : SnapshotInv begun i earlier log scan s (some rid)) {op : HeapOp}
    {answer : HeapAnswer} (effect : HeapState.Effect op answer s s')
    (given : GivenRids (clientCalls log ++ earlier) op) (spares : Spares begun scan.world i rid op) :
    Present s'.view (s'.chain i) rid := by
  have sound := inv.holds.1.sound
  have present := inv.present rid rfl
  have known := present_known present
  obtain ⟨more, grown⟩ := effect.chain_append sound inv.bound
  refine ⟨?_, ?_⟩
  · rw [grown]
    exact List.mem_append_left more present.1
  · rw [effect.record sound known]
    refine recordAfter_isSome ?_ ?_ present.2
    · rintro j data rfl
      exact (spares ((inv.holds.2 (j, rid) given.1).heap_eq known sound)).1 rfl
    · rintro j rfl
      exact spares ((inv.holds.2 (j, rid) given).heap_eq known sound) rfl

theorem updated_live (inv : SnapshotInv begun i earlier log scan s (some rid)) {j : Nat}
    {answer : HeapAnswer} (effect : HeapState.Effect (.update j other data) answer s s')
    (given : GivenRids (clientCalls log ++ earlier) (.update j other data)) {w' : World N}
    (ended : (HeapOp.update j other data).run.Returns scan.world answer w')
    (spares : Spares begun scan.world i rid (.update j other data)) (known : s.Known i other)
    (gone : storedRecord s.view other = none) (held : (storedRecord s'.view other).isSome = true)
    (after : place (s.chain i) rid ≤ place (s.chain i) other) : Live begun i other := by
  have sound := inv.holds.1.sound
  obtain rfl : j = i := (inv.holds.2 (j, other) given.1).heap_eq known sound
  rw [effect.record sound known, gone] at held
  have done : answer = .done true := by
    by_contra refused
    rw [recordAfter_none fun _ _ same => by cases same; exact refused] at held
    cases held
  subst done
  rcases (spares rfl).2 with live | empty | behind | exceeds
  · exact live
  · rw [HeapState.recordAfter, if_pos rfl, empty] at held
    cases held
  · exact absurd (behind.place_lt inv.holds.1) (not_lt.mpr after)
  · obtain ⟨w'', refused, _⟩ := (refuses_iff inv.holds.1 known gone data).mpr exceeds
    cases (refused.value_eq ended).1

/-- A record that was inserted is behind the iterator. -/
theorem inserted_behind (inv : SnapshotInv begun i earlier log scan s (some rid))
    (effect : HeapState.Effect (.insert i data) (.placed (some other)) s s')
    (spares : Spares begun scan.world i rid (.insert i data))
    (held : (storedRecord s'.view other).isSome = true) : other.pageId ∈ s.chain i ∧
      place (s.chain i) other < place (s.chain i) rid := by
  have shows := inv.holds.1
  have sound := shows.sound
  obtain ⟨heap, present⟩ := effect.heap
  have made : heap.firstPageId ≠ invalidPageId := by
    intro lazy
    have member := (inv.present rid rfl).1
    rw [sound.chain_nil present lazy] at member
    cases member
  obtain ⟨_, fits⟩ := firstFit_of_effect sound present made effect
  rcases spares rfl with empty | long | ⟨front, before, roomy, member, page, known, room⟩
  · rw [(effect.placed_new sound).2.1, empty] at held
    cases held
  · have short := (fits.isSome_iff fun pageId inChain page known => by
      obtain ⟨_, _, page', there, layout⟩ := sound.page inChain
      rw [known] at there
      cases there
      exact layout).mp rfl
    omega
  · obtain ⟨rest, order⟩ := before.order shows
    have inChain : roomy ∈ s.chain i := by
      rw [order]
      exact List.mem_append_left _ member
    rw [sound.contents_eq shows.steady.toBacked inChain] at known
    have inFront := fits.front order member known room
    refine ⟨?_, place_lt_of_front order (sound.nodup i) inFront⟩
    rw [order]
    exact List.mem_append_left _ inFront

/-- A call of a client that spares the scan. -/
theorem call {position : Option Rid} (inv : SnapshotInv begun i earlier log scan s position)
    {op : HeapOp} {outcome : Except Error ScanAnswer}
    (ended : (IteratorOp.scan (.call op)).run scan = some (outcome, scan'))
    (given : GivenRids (clientCalls log ++ earlier) op)
    (unwrapped : 0 ≤ nextAllocated scan'.world.bm)
    (spares : ∀ rid, position = some rid → Spares begun scan.world i rid op) :
    ∃ s', SnapshotInv begun i earlier (⟨.scan (.call op), outcome⟩ :: log) scan' s' position := by
  obtain ⟨result, w', inner, rfl, rfl⟩ := call_run ended
  have taken : heapStep GivenRids (clientCalls log ++ earlier) scan.world ⟨op, result⟩ w' :=
    ⟨inner, given, unwrapped⟩
  obtain ⟨answer, s', same, effect, holds'⟩ := inv.holds.step taken
  cases same
  have sound := inv.holds.1.sound
  obtain ⟨more, grown⟩ := effect.chain_append sound inv.bound
  refine ⟨s', holds', inv.bound.trans_le effect.count_le, inv.stands, ?_, ?_, inv.live⟩
  · rintro rid rfl
    exact inv.present_kept effect given (spares rid rfl)
  · rintro rid rfl other present after
    rw [grown, place_append (inv.present rid rfl).1] at after
    rcases effect.known_cases sound (present_known present) with known | ⟨data, rfl, rfl⟩
    · rw [place_append known.1] at after
      by_cases held : (storedRecord s.view other).isSome = true
      · exact inv.ahead rid rfl other ⟨known.1, held⟩ after
      · have gone : storedRecord s.view other = none := by simpa using held
        have back := present.2
        by_cases updates : ∃ j data, op = .update j other data
        · obtain ⟨j, data, rfl⟩ := updates
          exact inv.updated_live effect given inner (spares rid rfl) known gone back after
        · rw [effect.record sound known, gone, recordAfter_none fun j data same =>
            absurd ⟨j, data, same⟩ updates] at back
          cases back
    · obtain ⟨member, behind⟩ := inv.inserted_behind effect (spares rid rfl) present.2
      rw [place_append member] at after
      exact absurd behind (not_lt.mpr after)

theorem hasNext_of_position (inv : SnapshotInv begun i earlier log scan s (some rid)) :
    scan.it.hasNext = true ∧ (⟨scan.it.currPage, scan.it.currSlot⟩ : Rid) = rid := by
  rw [inv.stands]
  exact ⟨rfl, rfl⟩

/-- One step of the iterator or of a client. -/
theorem step {position : Option Rid} (inv : SnapshotInv begun i earlier log scan s position)
    {event : IteratorEvent} (taken : snapshotStep begun i earlier log scan event scan') :
    ∃ s' position', SnapshotInv begun i earlier (event :: log) scan' s' position' := by
  obtain ⟨op, outcome⟩ := event
  obtain ⟨⟨ended, given, unwrapped⟩, spared⟩ := taken
  by_cases calls : ∃ call, op = .scan (.call call)
  · obtain ⟨call, rfl⟩ := calls
    have spares : ∀ rid, position = some rid → Spares begun scan.world i rid call := by
      rintro rid rfl
      obtain ⟨next, here⟩ := inv.hasNext_of_position
      rw [← here]
      exact spared call rfl next
    obtain ⟨s', inv'⟩ := inv.call ended (given call rfl) unwrapped spares
    exact ⟨s', position, inv'⟩
  · cases position with
    | none => exact ⟨s, none, inv.ended (fun call same => calls ⟨call, same⟩) ended⟩
    | some rid =>
        cases op with
        | next =>
            obtain ⟨data, position', scan'', run, inv'⟩ := inv.next
            obtain ⟨rfl, rfl⟩ := Prod.mk.inj (Option.some.inj (run.symm.trans ended))
            exact ⟨s, position', inv'⟩
        | scan op =>
            cases op with
            | call call => exact absurd ⟨call, rfl⟩ calls
            | deref =>
                obtain ⟨data, scan'', run, inv'⟩ := inv.deref
                obtain ⟨rfl, rfl⟩ := Prod.mk.inj (Option.some.inj (run.symm.trans ended))
                exact ⟨s, some rid, inv'⟩
            | increment =>
                obtain ⟨position', scan'', run, inv'⟩ := inv.increment
                obtain ⟨rfl, rfl⟩ := Prod.mk.inj (Option.some.inj (run.symm.trans ended))
                exact ⟨s, position', inv'⟩

theorem snapshot {position : Option Rid} (inv : SnapshotInv begun i earlier log scan s position) :
    Snapshot begun i log scan := by
  refine ⟨?_, inv.live⟩
  intro hasNext op own
  cases position with
  | none =>
      rw [inv.stands] at hasNext
      cases hasNext
  | some rid =>
      rcases own with rfl | rfl
      · obtain ⟨data, _, scan', run, _⟩ := inv.next
        exact ⟨rid, data, scan', run⟩
      · obtain ⟨data, scan', run, _⟩ := inv.deref
        exact ⟨rid, data, scan', run⟩

end SnapshotInv

/-- While the calls of the clients spare it, a scan is one of the records that were live when it
began. -/
theorem snapshot_scan [NeZero N] (raw : Fin N → Page) (file : File)
    (small : file.size / pageSize < 2 ^ 31) (earlier : List HeapEvent) (w : World N)
    (prepared : HeapRun GivenRids (World.start raw file) earlier w) (i : Nat) (heap : HeapFile)
    (found : w.heaps[i]? = some heap) (it : HeapIterator) (w' : World N)
    (begun : (onPool (heap.begin i)).Returns w it w') (log : List IteratorEvent) (scan : Scan N)
    (run : SnapshotRun w i earlier ⟨w', it, false⟩ log scan) : Snapshot w i log scan := by
  obtain ⟨s, holds⟩ := runState small prepared
  obtain ⟨position, started⟩ := ScanInv.start holds found begun
  have invariant : ∃ s position, SnapshotInv w i earlier log scan s position := by
    apply run.invariant fun log scan => ∃ s position, SnapshotInv w i earlier log scan s position
    · refine ⟨s, position, started.holds, started.bound, started.stands, started.present, ?_, ?_⟩
      · exact fun _ _ other present _ => live_of_present holds.1 present
      · exact fun _ impossible => absurd impossible List.not_mem_nil
    · rintro log scan event scan' _ ⟨s, position, inv⟩ taken
      exact inv.step taken
  obtain ⟨s', position', inv⟩ := invariant
  exact inv.snapshot

theorem next_throws (shows : Shows scan.world s pins) (known : s.Known i rid)
    (stands : scan.it = .standing i (some rid)) (gone : storedRecord s.view rid = none) :
    ∃ scan', IteratorOp.next.run scan = some (.error .badOptionalAccess, scan') := by
  obtain ⟨given, _, page, present, _⟩ := shows.sound.page known.1
  obtain ⟨result, bm', fetched, _, found⟩ := get_returns shows.steady given present
  have empty := found.bytes
  rw [← storedRecord_eq present, gone, Option.map_eq_none_iff] at empty
  subst empty
  have thrown : scan.it.next.Throws scan.world.bm .badOptionalAccess bm' := by
    rw [stands]
    simp only [HeapIterator.next, HeapIterator.standing, Bool.true_eq_false, ↓reduceIte]
    exact fetched.bind_eq.trans (Program.Throws.bind rfl)
  let scan' : Scan N := { scan with world := ⟨bm', scan.world.heaps⟩ }
  have inWorld : (onWorld (onPool scan.it.next)).Throws scan .badOptionalAccess scan' := by
    unfold Program.Throws
    rw [onWorld, onPool_throws thrown]
    rfl
  have current : (MonadState.get : Program (Scan N) Error (Scan N)).Returns scan scan scan :=
    Program.get_returns _
  exact ⟨scan', current.bind_eq.trans inWorld.bind⟩

theorem iteratorStep_call {op : HeapOp} {answer : HeapAnswer} {w' : World N}
    (taken : heapStep GivenRids (clientCalls log ++ earlier) scan.world ⟨op, .ok answer⟩ w') :
    iteratorStep earlier log scan ⟨.scan (.call op), .ok (.answered answer)⟩
      { scan with world := w' } := by
  obtain ⟨ended, given, unwrapped⟩ := taken
  refine ⟨(onWorld_returns ended).bind_eq, fun call same => ?_, unwrapped⟩
  cases same
  exact given

theorem iteratorStep_own {op : IteratorOp} {outcome : Except Error ScanAnswer}
    (own : ∀ call, op ≠ .scan (.call call)) (ran : op.run scan = some (outcome, scan'))
    (unwrapped : 0 ≤ nextAllocated scan'.world.bm) :
    iteratorStep earlier log scan ⟨op, outcome⟩ scan' :=
  ⟨ran, fun call same => absurd same (own call), unwrapped⟩

/-- An iterator on the one record of a heap. -/
structure OnFirst (w w' : World 1) (it : HeapIterator) (s : HeapState) (page : Page) : Prop where
  prepared : HeapRun GivenRids (World.start (fun _ _ => 0) File.empty) oneRecord w
  begun : ∃ heap, w.heaps[0]? = some heap ∧ (onPool (heap.begin 0)).Returns w it w'
  stands : it = .standing 0 (some ⟨0, 0⟩)
  before : RunState oneRecord w s
  holds : RunState oneRecord w' s
  chain : s.chain 0 = [0]
  known : s.view 0 = some page
  slots : SlottedPage.numSlots page headerSize = 1
  space : freeSpace page headerSize = 8175
  present : Present s.view (s.chain 0) ⟨0, 0⟩
  pages : s.pages ≤ 2

theorem onFirst_run : ∃ w w' it s page, OnFirst w w' it s page := by
  obtain ⟨w₁, raw, created, first⟩ := @oneHeap_run 1 _
  have next : nextAllocated w₁.bm = 1 := first.1.steady.allocated.next
  have made : w₁.heaps.length = 1 := by rw [first.1.heaps]; rfl
  obtain ⟨answer, w, s, inserted, placed, second⟩ :=
    first.extend (.insert 0 [7]) (by decide : [7].length < 2 ^ 63)
      (fun i _ same => by cases same; omega) (by rw [next]; decide)
  obtain rfl : answer = .placed (some ⟨0, 0⟩) := first_answer rfl (by decide) placed
  obtain ⟨page, known, appended, chain⟩ := first_page rfl (by decide) (by decide) placed
  have pages : s.pages ≤ 2 := placed.pages_insert rfl (by decide)
  have room : [7].length + 4 ≤ freeSpace (initHeapPage raw) headerSize := by
    rw [initHeapPage_freeSpace]
    decide
  have space := appended.freeSpace (initHeapPage_layout raw) room
  rw [initHeapPage_freeSpace] at space
  have slots := appended.numSlots_eq
  rw [initHeapPage_numSlots] at slots
  obtain ⟨_, stored, _⟩ := placed.placed_new first.1.sound
  have present : Present s.view (s.chain 0) ⟨0, 0⟩ := by
    refine ⟨?_, by rw [stored]; rfl⟩
    rw [chain]
    exact List.mem_cons_self
  have bound := (second.2 (0, ⟨0, 0⟩) List.mem_cons_self).bound second.1.sound
  have linked := second.1.sound.linked 0 _ (List.getElem?_eq_getElem bound)
  obtain ⟨bm', begun, steady'⟩ := HeapIterator.begin_returns 0 linked second.1.steady
  obtain ⟨onRecord, least⟩ := @nextRecord_cursor s.view (s.chain 0) [] (s.chain 0) 0 rfl
    (second.1.sound.nodup 0) fun _ member => second.1.sound.pages member
  have place_zero : place (s.chain 0) ⟨0, 0⟩ = toLex (0, 0) := by
    rw [chain]
    rfl
  have stands : nextRecord s.view (s.chain 0) 0 = some ⟨0, 0⟩ := by
    cases found : nextRecord s.view (s.chain 0) 0 with
    | none =>
        rw [found] at least
        exact absurd (origin_le _) (least _ ⟨_, present, rfl⟩)
    | some rid =>
        rw [found] at least onRecord
        have lower := least.2.2 _ ⟨_, present, rfl⟩ (origin_le _)
        have same : place (s.chain 0) rid = place (s.chain 0) ⟨0, 0⟩ := by
          apply le_antisymm lower
          rw [place_zero]
          exact origin_le _
        rw [place_inj (onRecord rid rfl).1 same]
  refine ⟨w, ⟨bm', w.heaps⟩, .standing 0 (nextRecord s.view (s.chain 0) 0), s, page,
    (Run.nil.cons created).cons inserted, ?_, ?_, second, second.repool steady', chain, known, slots,
    space, present, pages⟩
  · refine ⟨s.heaps[0], ?_, onPool_returns begun⟩
    rw [second.1.heaps]
    exact List.getElem?_eq_getElem bound
  · rw [stands]

/-- What an iterator returns in a run over a heap with one record. -/
def FirstScan (w : World 1) (log : List IteratorEvent) (scan : Scan 1) : Prop :=
  HeapRun GivenRids (World.start (fun _ _ => 0) File.empty) oneRecord w ∧
    ∃ heap it w', w.heaps[0]? = some heap ∧ (onPool (heap.begin 0)).Returns w it w' ∧
      IteratorRun oneRecord ⟨w', it, false⟩ log scan

/-- `Next` throws while there is a next record, as the record was deleted. -/
theorem deleted_throws : ∃ (w : World 1) (scan scan' : Scan 1),
    FirstScan w [⟨.scan (.call (.delete 0 ⟨0, 0⟩)), .ok (.answered (.done true))⟩] scan ∧
      scan.it.hasNext = true ∧
      IteratorOp.next.run scan = some (.error .badOptionalAccess, scan') := by
  obtain ⟨w, w', it, s, page, onFirst⟩ := onFirst_run
  obtain ⟨heap, found, begun⟩ := onFirst.begun
  have given : (0, (⟨0, 0⟩ : Rid)) ∈ issued oneRecord := List.mem_cons_self
  obtain ⟨w'', taken, _⟩ := onFirst.holds.deletes given onFirst.known
  obtain ⟨answer, s', same, effect, holds⟩ := onFirst.holds.step taken
  cases same
  have run : IteratorRun oneRecord ⟨w', it, false⟩
      [⟨.scan (.call (.delete 0 ⟨0, 0⟩)), .ok (.answered (.done true))⟩] ⟨w'', it, false⟩ :=
    Run.nil.cons (iteratorStep_call taken)
  have gone : storedRecord s'.view ⟨0, 0⟩ = none := by
    rw [effect.record onFirst.holds.1.sound (onFirst.holds.2 _ given)]
    rfl
  obtain ⟨scan', thrown⟩ := @next_throws 1 s' _ 0 ⟨0, 0⟩ ⟨w'', it, false⟩ holds.1
    (holds.2 (0, ⟨0, 0⟩) given) onFirst.stands gone
  exact ⟨w, _, scan', ⟨onFirst.prepared, heap, it, w', found, begun, run⟩,
    by rw [onFirst.stands]; rfl, thrown⟩

theorem not_live (shows : Shows w s pins) {heap : HeapFile} (found : w.heaps[i]? = some heap)
    (member : rid.pageId ∈ s.chain i) {page : Page} (known : s.view rid.pageId = some page)
    (outside : SlottedPage.numSlots page headerSize ≤ rid.slotId) : ¬ Live w i rid := by
  rintro ⟨data, w', reported⟩
  obtain ⟨given, _⟩ := shows.sound.page member
  obtain ⟨result, bm', fetched, _, bytes⟩ := get_returns shows.steady given known
  have empty := bytes.bytes
  rw [SlottedPage.record_none page headerSize _ outside, Option.map_eq_none_iff] at empty
  subst empty
  have missing : (HeapOp.get i rid).run.Returns w (.found none) ⟨bm', w.heaps⟩ :=
    (heapAt_returns found).bind ((onPool_returns fetched).bind rfl)
  cases (missing.value_eq reported).1

/-- A second record goes behind the first one on its page. -/
theorem OnFirst.insert {w w' : World 1} {it : HeapIterator} {s : HeapState} {page : Page}
    (onFirst : OnFirst w w' it s page) :
    ∃ w'' s', heapStep GivenRids oneRecord w' ⟨.insert 0 [8], .ok (.placed (some ⟨0, 1⟩))⟩ w'' ∧
      RunState (⟨.insert 0 [8], .ok (.placed (some ⟨0, 1⟩))⟩ :: oneRecord) w'' s' ∧
      s'.chain 0 = [0] ∧ Present s'.view (s'.chain 0) ⟨0, 0⟩ ∧
      Present s'.view (s'.chain 0) ⟨0, 1⟩ := by
  have shows := onFirst.holds.1
  have known := onFirst.holds.2 (0, ⟨0, 0⟩) List.mem_cons_self
  have bound := known.bound shows.sound
  have next : nextAllocated w'.bm = s.pages := shows.steady.allocated.next
  have pages := onFirst.pages
  obtain ⟨answer, w'', s', taken, effect, holds⟩ := onFirst.holds.extend (.insert 0 [8])
    (by decide : [8].length < 2 ^ 63) (fun i _ same => by cases same; rwa [shows.heaps]) (by omega)
  obtain ⟨result, rfl⟩ := effect.answer_placed
  have present : s.heaps[0]? = some s.heaps[0] := List.getElem?_eq_getElem bound
  have made : s.heaps[0].firstPageId ≠ invalidPageId := by
    intro lazy
    have empty := shows.sound.chain_nil present lazy
    rw [onFirst.chain] at empty
    cases empty
  obtain ⟨_, fits⟩ := firstFit_of_effect shows.sound present made effect
  have placed : result = some ⟨0, 1⟩ ∧ s'.chain 0 = [0] := by
    rw [onFirst.chain] at fits
    generalize after : s'.chain 0 = chain at fits
    cases fits with
    | @found front rest pageId page' _ order _ here =>
        cases front with
        | nil =>
            obtain ⟨rfl, rfl⟩ := List.cons.inj order
            rw [onFirst.known] at here
            cases here
            rw [onFirst.slots]
            exact ⟨rfl, rfl⟩
        | cons first front =>
            have lengths := congrArg List.length order
            simp at lengths
    | grown full =>
        obtain ⟨page', here, noRoom⟩ := full 0 List.mem_cons_self
        rw [onFirst.known] at here
        cases here
        rw [onFirst.space] at noRoom
        exact absurd noRoom (by decide)
  obtain ⟨rfl, chain⟩ := placed
  have member : (0 : Int) ∈ s'.chain 0 := by
    rw [chain]
    exact List.mem_cons_self
  refine ⟨w'', s', taken, holds, chain, ⟨member, ?_⟩, ⟨member, ?_⟩⟩
  · rw [effect.record shows.sound known]
    exact onFirst.present.2
  · rw [(effect.placed_new shows.sound).2.1]
    rfl

/-- A record that was inserted behind the iterator is returned. -/
theorem inserted_returned : ∃ (w : World 1) (log : List IteratorEvent) (scan : Scan 1),
    FirstScan w log scan ∧ ⟨0, 1⟩ ∈ yields log ∧ ¬ Live w 0 ⟨0, 1⟩ := by
  obtain ⟨w, w', it, s, page, onFirst⟩ := onFirst_run
  obtain ⟨heap, found, begun⟩ := onFirst.begun
  obtain ⟨w₁, s', taken, holds, chain, first, second⟩ := onFirst.insert
  have bound := (holds.2 (0, ⟨0, 0⟩) (List.mem_cons_of_mem _ List.mem_cons_self)).bound
    holds.1.sound
  obtain ⟨data, position, bm₂, ran, steady₂, onRecord, least⟩ :=
    @next_run 1 s' _ 0 ⟨0, 0⟩ ⟨w₁, it, false⟩ holds.1 bound onFirst.stands first
  have further : place (s'.chain 0) ⟨0, 0⟩ < place (s'.chain 0) ⟨0, 1⟩ :=
    Prod.Lex.toLex_lt_toLex.mpr (Or.inr ⟨rfl, Nat.zero_lt_one⟩)
  have moved : position = some ⟨0, 1⟩ := by
    cases position with
    | none => exact absurd further (least _ ⟨_, second, rfl⟩)
    | some rid =>
        obtain ⟨_, reached, lowest⟩ := least
        have onPage := (onRecord rid rfl).1
        rw [chain, List.mem_singleton] at onPage
        have upper := lowest _ ⟨_, second, rfl⟩ further
        have lower : place (s'.chain 0) ⟨0, 0⟩ < place (s'.chain 0) rid := reached
        obtain ⟨pageId, slotId⟩ := rid
        obtain rfl : pageId = 0 := onPage
        have above : 0 < slotId := by
          rcases Prod.Lex.toLex_lt_toLex.mp lower with pages | ⟨_, slots⟩
          · exact absurd pages (lt_irrefl _)
          · exact slots
        have below : slotId ≤ 1 := by
          rcases Prod.Lex.toLex_le_toLex.mp upper with pages | ⟨_, slots⟩
          · exact absurd pages (lt_irrefl _)
          · exact slots
        obtain rfl : slotId = 1 := by omega
        rfl
  subst moved
  have shows₂ : Shows ⟨bm₂, w₁.heaps⟩ s' fun _ => 0 := ⟨steady₂, holds.1.heaps, holds.1.sound⟩
  obtain ⟨data', position', bm₃, ran', steady₃, _⟩ :=
    @next_run 1 s' _ 0 ⟨0, 1⟩ ⟨⟨bm₂, w₁.heaps⟩, .standing 0 (some ⟨0, 1⟩), false⟩ shows₂ bound rfl
      second
  have shows₃ : Shows ⟨bm₃, w₁.heaps⟩ s' fun _ => 0 := ⟨steady₃, holds.1.heaps, holds.1.sound⟩
  have start : IteratorRun oneRecord ⟨w', it, false⟩ [] ⟨w', it, false⟩ := .nil
  have own : ∀ call, IteratorOp.next ≠ .scan (.call call) := nofun
  have inserted := start.cons (iteratorStep_call taken)
  have passed := inserted.cons (iteratorStep_own own ran shows₂.unwrapped)
  have run := passed.cons (iteratorStep_own own ran' shows₃.unwrapped)
  refine ⟨w, _, _, ⟨onFirst.prepared, heap, it, w', found, begun, run⟩, List.mem_cons_self, ?_⟩
  exact not_live onFirst.before.1 found (by rw [onFirst.chain]; exact List.mem_cons_self)
    onFirst.known (by rw [onFirst.slots])

/-- A client may delete the record under an iterator, and insert one behind it. -/
theorem scan_not_snapshot :
    (∃ (w : World 1) (scan scan' : Scan 1),
      FirstScan w [⟨.scan (.call (.delete 0 ⟨0, 0⟩)), .ok (.answered (.done true))⟩] scan ∧
        scan.it.hasNext = true ∧
        IteratorOp.next.run scan = some (.error .badOptionalAccess, scan')) ∧
    ∃ (w : World 1) (log : List IteratorEvent) (scan : Scan 1),
      FirstScan w log scan ∧ ⟨0, 1⟩ ∈ yields log ∧ ¬ Live w 0 ⟨0, 1⟩ :=
  ⟨deleted_throws, inserted_returned⟩

/-- A scan that goes on after its record was updated. -/
theorem snapshot_scan_first : ∃ (w w' : World 1) (heap : HeapFile) (it : HeapIterator)
    (answer : HeapAnswer) (scan : Scan 1),
    HeapRun GivenRids (World.start (fun _ _ => 0) File.empty) oneRecord w ∧
      w.heaps[0]? = some heap ∧ (onPool (heap.begin 0)).Returns w it w' ∧
      SnapshotRun w 0 oneRecord ⟨w', it, false⟩
        [⟨.scan (.call (.update 0 ⟨0, 0⟩ [9])), .ok (.answered answer)⟩] scan ∧
      Snapshot w 0 [⟨.scan (.call (.update 0 ⟨0, 0⟩ [9])), .ok (.answered answer)⟩] scan := by
  obtain ⟨w, w', it, s, page, onFirst⟩ := onFirst_run
  obtain ⟨heap, found, begun⟩ := onFirst.begun
  have next : nextAllocated w'.bm = s.pages := onFirst.holds.1.steady.allocated.next
  have pages := onFirst.pages
  obtain ⟨answer, w'', s', taken, _⟩ := onFirst.holds.extend (.update 0 ⟨0, 0⟩ [9])
    ⟨List.mem_cons_self, by decide⟩ nofun (by omega)
  have live : Live w 0 ⟨0, 0⟩ := live_of_present onFirst.before.1 onFirst.present
  have run : SnapshotRun w 0 oneRecord ⟨w', it, false⟩
      [⟨.scan (.call (.update 0 ⟨0, 0⟩ [9])), .ok (.answered answer)⟩] ⟨w'', it, false⟩ := by
    refine Run.nil.cons ⟨iteratorStep_call taken, ?_⟩
    intro op same _
    cases same
    exact fun _ => ⟨fun _ => List.cons_ne_nil 9 [], Or.inl live⟩
  exact ⟨w, w', heap, it, answer, _, onFirst.prepared, found, begun, run,
    snapshot_scan _ _ (by decide) _ w onFirst.prepared 0 heap found it w' begun _ _ run⟩

end Iterators

end RelationalDb
