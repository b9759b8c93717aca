import RelationalDb.Executor.SeqScan

set_option autoImplicit false

namespace RelationalDb

open HeapFile
open BufferManager (Steady Rested visits)
open HeapIterator (standing passed)

variable {N : Nat} {bm : BufferManager N DiskManager} {view : Int → Option Page}
  {pins : Int → Int} {pages first : Int} {chain : List Int}

/-- The pages of a chain up to the page of a record, or all of them. -/
def pagesTo (chain : List Int) : Option Rid → List Int
  | some rid => chain.takeWhile (· ≠ rid.pageId) ++ [rid.pageId]
  | none => chain

theorem pagesTo_head {rid : Rid} {rest : List Int} :
    pagesTo (rid.pageId :: rest) (some rid) = [rid.pageId] := by
  simp [pagesTo]

/-- A place further along the chain. -/
theorem pagesTo_append {before after : List Int} {position : Option Rid}
    (apart : ∀ rid, position = some rid → rid.pageId ∉ before) :
    pagesTo (before ++ after) position = before ++ pagesTo after position := by
  cases position with
  | none => rfl
  | some rid =>
      have skipped : ∀ pageId ∈ before, decide (pageId ≠ rid.pageId) = true := by
        intro pageId member
        apply decide_eq_true
        rintro rfl
        exact apart rid rfl member
      rw [pagesTo, pagesTo, List.takeWhile_append_of_pos skipped, List.append_assoc]

theorem pagesTo_subset {position : Option Rid}
    (inside : ∀ rid, position = some rid → rid.pageId ∈ chain) :
    ∀ pageId ∈ pagesTo chain position, pageId ∈ chain := by
  intro pageId member
  cases position with
  | none => exact member
  | some rid =>
      rcases List.mem_append.mp member with before | here
      · exact (List.takeWhile_subset _) before
      · rw [List.mem_singleton.mp here]
        exact inside rid rfl

theorem passed_eq_pagesTo (distinct : chain.Nodup)
    (known : ∀ pageId ∈ chain, ∃ page, view pageId = some page) (slot : Nat) :
    passed view chain slot = pagesTo chain (nextRecord view chain slot) := by
  induction chain generalizing slot with
  | nil => rfl
  | cons pageId rest ih =>
      obtain ⟨new, distinct⟩ := List.nodup_cons.mp distinct
      rw [passed, nextRecord]
      cases found : (view pageId).bind fun page => HeapIterator.seekPage page slot with
      | some slot => exact (@pagesTo_head ⟨pageId, slot⟩ rest).symm
      | none =>
          simp only
          rw [ih distinct (fun other member => known other (List.mem_cons_of_mem _ member))]
          have apart : ∀ rid, nextRecord view rest 0 = some rid → rid.pageId ∉ [pageId] := by
            intro rid next member
            rw [← List.mem_singleton.mp member] at new
            exact new (nextRecord_mem next)
          exact (pagesTo_append apart).symm

/-- `Next` at a record of a page that was visited last: `Get` and the first request of `Advance`
change nothing. -/
structure Moves (bm : BufferManager N DiskManager) (view : Int → Option Page) (pins : Int → Int)
    (pages : Int) (rid : Rid) (data : List UInt8) (rest : List Int) (next : Option Rid)
    (record : Record N) (moved : BufferManager N DiskManager) : Prop where
  cached : bm.pageTable rid.pageId = some record.frame
  place : SlottedPage.get (bm.pool record.frame).data headerSize rid.slotId =
    some (record.offset, record.size)
  stored : ∃ page, view rid.pageId = some page ∧ page.read record.offset record.size = data
  returned : (standing 0 (some rid)).next.Returns bm (record, standing 0 next) moved
  steady : Steady moved view pins pages
  visited : (visits rest).Returns bm ⟨⟩ moved
  rested : ∀ rid, next = some rid → ∃ frame, Rested moved rid.pageId frame

theorem HeapIterator.next_moves {before after : List Int} {rid : Rid} {data : List UInt8}
    {frame : Fin N} (linked : Chain view first (before ++ rid.pageId :: after))
    (stored : storedRecord view rid = some data) (steady : Steady bm view pins pages)
    (rested : Rested bm rid.pageId frame) :
    ∃ record moved, Moves bm view pins pages rid data
      (passed view (rid.pageId :: after) (rid.slotId + 1))
      (nextRecord view (rid.pageId :: after) (rid.slotId + 1)) record moved := by
  have present : Present view (before ++ rid.pageId :: after) rid :=
    ⟨List.mem_append_right _ List.mem_cons_self, by rw [stored]; rfl⟩
  obtain ⟨_, page, known, _⟩ := linked.page present.1
  rw [storedRecord_eq known, SlottedPage.record, Option.map_eq_some_iff] at stored
  obtain ⟨⟨offset, size⟩, span, read⟩ := stored
  have held : (bm.pool frame).data = page :=
    steady.data rid.pageId frame page rested.cached known
  have opened : ((bm.accessed frame).pool frame).data = page := by
    simp [BufferManager.accessed, held]
  have got : (HeapFile.get rid).Returns bm (some ⟨rid, frame, offset, size⟩) bm := by
    refine rested.request.bind ((BufferManager.readData_returns _ frame).bind
      (rested.release.bind ?_))
    rw [opened, span]
    exact Program.pure_returns _ _
  have slot : (standing 0 (some rid)).nextSlot.currSlot = rid.slotId + 1 :=
    Nat.mod_eq_of_lt (HeapIterator.present_slot present)
  obtain ⟨moved, advanced, steady', visited, rested'⟩ := @HeapIterator.advance_visits N bm view
    pins pages _ (standing 0 (some rid)).nextSlot linked.suffix steady
  rw [HeapIterator.settled_standing] at advanced
  rw [slot] at advanced visited rested'
  refine ⟨⟨rid, frame, offset, size⟩, moved, rested.cached, ?_, ⟨page, known, read⟩, ?_, steady',
    visited, fun other next => rested' other next⟩
  · rw [held]
    exact span
  · simp only [HeapIterator.next, standing, Bool.true_eq_false, ↓reduceIte]
    exact got.bind ((Program.pure_returns _ bm).bind
      (advanced.bind (Program.pure_returns _ _)))

/-- When the iterator stands on the next record, the page of this one is still in its frame, or
what is in the frame by then is decoded alike. -/
def Spared (decode : List UInt8 → Option Tuple) (chain : List Int)
    (bm : BufferManager N DiskManager) (rid : Rid) (data : List UInt8) (next : Option Rid) : Prop :=
  ∀ onIt behind frame offset size, (visits (pagesTo chain (some rid))).Returns bm ⟨⟩ onIt →
    (visits (pagesTo chain next)).Returns bm ⟨⟩ behind → onIt.pageTable rid.pageId = some frame →
    SlottedPage.get (onIt.pool frame).data headerSize rid.slotId = some (offset, size) →
    behind.pageTable rid.pageId = some frame ∨
      decode ((behind.pool frame).data.read offset size) = decode data

/-- A scan from this pool on loses no record it has fetched. -/
def Undisturbed (decode : List UInt8 → Option Tuple) (view : Int → Option Page) (chain : List Int)
    (bm : BufferManager N DiskManager) : Prop :=
  ∀ before rid data after, heapRecords view chain = before ++ (rid, data) :: after →
    Spared decode chain bm rid data (after.head?.map Prod.fst)

/-- A chain that is in the pool as a whole is not disturbed. -/
theorem undisturbed_of_cached (decode : List UInt8 → Option Tuple)
    (all : ∀ pageId ∈ chain, bm.pageTable pageId ≠ none) :
    Undisturbed decode view chain bm := by
  intro before rid data after records onIt behind frame offset size visited visited' cached _
  have inside : ∀ record ∈ (rid, data) :: after, record.1.pageId ∈ chain := by
    intro record member
    apply @recordsFrom_mem view chain record 0
    rw [show recordsFrom view chain 0 = _ from records]
    exact List.mem_append_right before member
  have whole : ∀ position : Option Rid, (∀ rid, position = some rid → rid.pageId ∈ chain) →
      ∀ pageId ∈ pagesTo chain position, bm.pageTable pageId ≠ none :=
    fun position known pageId member => all pageId (pagesTo_subset known pageId member)
  left
  rw [BufferManager.visits_cached (whole _ ?_) visited', ←
    BufferManager.visits_cached (whole _ ?_) visited, cached]
  · intro other same
    cases same
    exact inside _ List.mem_cons_self
  · intro other same
    obtain ⟨record, first, rfl⟩ := Option.map_eq_some_iff.mp same
    exact inside record (List.mem_cons_of_mem _ (List.mem_of_mem_head? first))

/-- A scan of at most one page loses no record. -/
theorem undisturbed_of_one {decode : List UInt8 → Option Tuple} {view : Int → Option Page}
    {chain : List Int} {bm : BufferManager N DiskManager} (one : chain.length ≤ 1) :
    Undisturbed decode view chain bm := by
  intro before rid data after records onIt behind frame offset size visited visited' cached _
  have inside : ∀ record ∈ heapRecords view chain, record.1.pageId ∈ chain :=
    fun _ member => recordsFrom_mem member
  rw [records] at inside
  have whole : ∀ position : Option Rid, (∀ rid, position = some rid → rid.pageId ∈ chain) →
      pagesTo chain position = chain := by
    intro position known
    cases position with
    | none => rfl
    | some rid =>
        have member := known rid rfl
        cases chain with
        | nil => cases member
        | cons pageId rest =>
            obtain rfl : rest = [] := List.eq_nil_of_length_eq_zero (by
              rw [List.length_cons] at one
              omega)
            rw [← List.mem_singleton.mp member, pagesTo_head]
  rw [whole] at visited visited'
  · obtain ⟨_, rfl⟩ := visited.value_eq visited'
    exact Or.inl cached
  · intro other same
    obtain ⟨record, first, rfl⟩ := Option.map_eq_some_iff.mp same
    exact inside record (List.mem_append_right _
      (List.mem_cons_of_mem _ (List.mem_of_mem_head? first)))
  · intro other same
    cases same
    exact inside _ (List.mem_append_right _ List.mem_cons_self)

/-- A scan that began with the pool `bm₀` stands on a record. -/
structure Stand (bm₀ bm : BufferManager N DiskManager) (view : Int → Option Page)
    (pins : Int → Int) (pages : Int) (chain front back : List Int) (rid : Rid) (data : List UInt8) :
    Prop where
  split : chain = front ++ rid.pageId :: back
  stored : storedRecord view rid = some data
  steady : Steady bm view pins pages
  rested : ∃ frame, Rested bm rid.pageId frame
  visited : (visits (pagesTo chain (some rid))).Returns bm₀ ⟨⟩ bm

/-- How the scan goes on from a record. -/
structure Turn (decode : List UInt8 → Option Tuple) (bm₀ bm : BufferManager N DiskManager)
    (view : Int → Option Page) (pins : Int → Int) (pages : Int) (chain back : List Int) (rid : Rid)
    (data : List UInt8) (record : Record N) (next : Option Rid)
    (moved : BufferManager N DiskManager) : Prop where
  returned : (standing 0 (some rid)).next.Returns bm (record, standing 0 next) moved
  spared : Spared decode chain bm₀ rid data next ↔ decode (record.bytes moved) = decode data
  further : ∀ other, next = some other → ∃ front' back' data',
    Stand bm₀ moved view pins pages chain front' back' other data' ∧
    recordsFrom view (rid.pageId :: back) (rid.slotId + 1) =
      (other, data') :: recordsFrom view (other.pageId :: back') (other.slotId + 1)
  ended : next = none → recordsFrom view (rid.pageId :: back) (rid.slotId + 1) = []

variable {bm₀ : BufferManager N DiskManager} {front back : List Int} {rid : Rid}
  {data : List UInt8}

theorem pagesTo_split (distinct : (front ++ rid.pageId :: back).Nodup) :
    pagesTo (front ++ rid.pageId :: back) (some rid) = front ++ [rid.pageId] := by
  have apart : rid.pageId ∉ front := fun member =>
    (List.nodup_append.mp distinct).2.2 _ member _ List.mem_cons_self rfl
  rw [pagesTo_append fun other same => by cases same; exact apart, pagesTo_head]

/-- Pages further along the chain, from the page of a record on. -/
theorem pagesTo_further (distinct : (front ++ rid.pageId :: back).Nodup) {next : Option Rid}
    (later : ∀ other, next = some other → other.pageId ∈ rid.pageId :: back) :
    ∃ more, pagesTo (rid.pageId :: back) next = rid.pageId :: more ∧
      pagesTo (front ++ rid.pageId :: back) next = front ++ rid.pageId :: more := by
  have apart : ∀ other, next = some other → other.pageId ∉ front := by
    intro other same member
    exact (List.nodup_append.mp distinct).2.2 _ member _ (later other same) rfl
  rw [pagesTo_append apart]
  cases next with
  | none => exact ⟨back, rfl, rfl⟩
  | some other =>
      by_cases here : rid.pageId = other.pageId
      · exact ⟨[], by simp [pagesTo, here], by simp [pagesTo, here]⟩
      · refine ⟨pagesTo back (some other), ?_, ?_⟩ <;> simp [pagesTo, here]

theorem Stand.turn (stand : Stand bm₀ bm view pins pages chain front back rid data)
    (linked : Chain view first chain) (distinct : chain.Nodup)
    (decode : List UInt8 → Option Tuple) :
    ∃ record moved, Turn decode bm₀ bm view pins pages chain back rid data record
      (nextRecord view (rid.pageId :: back) (rid.slotId + 1)) moved := by
  obtain ⟨rfl, stored, steady, ⟨frame, rested⟩, visited⟩ := stand
  obtain ⟨record, moved, moves⟩ := HeapIterator.next_moves linked stored steady rested
  have known : ∀ pageId ∈ rid.pageId :: back, ∃ page, view pageId = some page := by
    intro pageId member
    obtain ⟨_, page, present, _⟩ := linked.page (List.mem_append_right front member)
    exact ⟨page, present⟩
  have onward := moves.visited
  rw [passed_eq_pagesTo (List.nodup_append.mp distinct).2.1 known] at onward
  obtain ⟨more, tail, whole⟩ := pagesTo_further distinct
    fun other (same : nextRecord view (rid.pageId :: back) (rid.slotId + 1) = some other) =>
      nextRecord_mem same
  have behind : (visits (pagesTo (front ++ rid.pageId :: back)
      (nextRecord view (rid.pageId :: back) (rid.slotId + 1)))).Returns bm₀ ⟨⟩ moved := by
    unfold Program.Returns at onward
    rw [tail, rested.visits_cons] at onward
    rw [whole, ← List.singleton_append, ← List.append_assoc]
    rw [pagesTo_split distinct] at visited
    exact BufferManager.visits_append visited onward
  refine ⟨record, moved, moves.returned, ?_, ?_, ?_⟩
  · constructor
    · intro spared
      rcases spared bm moved record.frame record.offset record.size visited behind moves.cached
        moves.place with still | alike
      · obtain ⟨page, present, read⟩ := moves.stored
        have held : (moved.pool record.frame).data = page := moves.steady.data _ _ _ still present
        rw [Record.bytes, held, read]
      · exact alike
    · intro alike onIt behind' frame' offset size visited' behindIt cached place
      obtain ⟨_, rfl⟩ := visited.value_eq visited'
      obtain ⟨_, rfl⟩ := behind.value_eq behindIt
      rw [moves.cached, Option.some.injEq] at cached
      subst cached
      rw [moves.place, Option.some.injEq, Prod.mk.injEq] at place
      obtain ⟨rfl, rfl⟩ := place
      exact Or.inr alike
  · intro other same
    have next := @recordsFrom_nextRecord view (rid.pageId :: back) (rid.slotId + 1)
    rw [same] at next behind
    obtain ⟨front', back', data', split, stored', records⟩ := next
    refine ⟨front ++ front', back', data', ⟨?_, stored', moves.steady, moves.rested other same,
      behind⟩, records⟩
    rw [split, List.append_assoc]
  · intro same
    have next := @recordsFrom_nextRecord view (rid.pageId :: back) (rid.slotId + 1)
    rw [same] at next
    exact next

namespace SeqScanOp

/-- The loop gives what `Decode` makes of these records, behind what it has collected. -/
def Collects (rel : Relation) (res : List Tuple) (scan : ScanState N)
    (records : List (Rid × List UInt8)) : Prop :=
  ∃ tuples scan', Program.Returns (Program.loop (collect rel) res) scan tuples scan' ∧
    tuples.map some = res.map some ++ records.map fun record => rel.decode record.2

/-- A scan to the end gives what `Decode` makes of every record, in this order. -/
def Exact (rel : Relation) (scan : ScanState N) (records : List (Rid × List UInt8)) : Prop :=
  ∃ tuples scan', (SeqScanOp.scan rel).Returns scan tuples scan' ∧
    tuples.map some = records.map fun record => rel.decode record.2

/-- All records from here on are decodable and spared. -/
def Safe (decode : List UInt8 → Option Tuple) (chain : List Int)
    (bm : BufferManager N DiskManager) : List (Rid × List UInt8) → Prop
  | [] => True
  | (rid, data) :: after => (decode data).isSome = true ∧
      Spared decode chain bm rid data (after.head?.map Prod.fst) ∧ Safe decode chain bm after

theorem safe_iff {decode : List UInt8 → Option Tuple} {records : List (Rid × List UInt8)} :
    Safe decode chain bm records ↔ (∀ record ∈ records, (decode record.2).isSome = true) ∧
      ∀ before rid data after, records = before ++ (rid, data) :: after →
        Spared decode chain bm rid data (after.head?.map Prod.fst) := by
  induction records with
  | nil => simp [Safe]
  | cons record records ih =>
      obtain ⟨rid, data⟩ := record
      rw [Safe, ih]
      constructor
      · intro safe
        obtain ⟨here, spared, rest, further⟩ := safe
        refine ⟨List.forall_mem_cons.mpr ⟨here, rest⟩, ?_⟩
        intro before other data' after same
        cases before with
        | nil =>
            cases same
            exact spared
        | cons first before =>
            rw [List.cons_append, List.cons.injEq] at same
            exact further before other data' after same.2
      · intro both
        obtain ⟨all, spared⟩ := both
        obtain ⟨here, rest⟩ := List.forall_mem_cons.mp all
        refine ⟨here, spared [] rid data records rfl, rest, ?_⟩
        intro before other data' after same
        exact spared ((rid, data) :: before) other data' after (by rw [same]; rfl)

theorem collects_ended (rel : Relation) (res : List Tuple) (bm : BufferManager N DiskManager) :
    Collects rel res ⟨bm, standing 0 none⟩ [] := by
  have last : (collect rel res).Returns (⟨bm, standing 0 none⟩ : ScanState N) (.inr res)
      ⟨bm, standing 0 none⟩ :=
    (next_ended rel bm).bind (Program.pure_returns _ _)
  exact ⟨res, _, Program.Returns.loop_exit last, by rw [List.map_nil, List.append_nil]⟩

/-- A turn of the loop at a record decodes the bytes its pointer leads to. -/
theorem collect_record {rel : Relation} {res : List Tuple} {record : Record N} {next : Option Rid}
    {moved : BufferManager N DiskManager} {scan' : ScanState N} {turn : List Tuple ⊕ List Tuple}
    (returned : (standing 0 (some rid)).next.Returns bm (record, standing 0 next) moved) :
    (collect rel res).Returns ⟨bm, standing 0 (some rid)⟩ turn scan' ↔
      ∃ tup, rel.decode (record.bytes moved) = some tup ∧ turn = .inl (res ++ [tup]) ∧
        scan' = ⟨moved, standing 0 next⟩ := by
  have step := next_eq rel returned
  constructor
  · intro collected
    obtain ⟨found, middle, taken, answered⟩ := Program.returns_bind.mp collected
    unfold Program.Returns at taken
    rw [step] at taken
    obtain ⟨tup, after, decoded, done⟩ := Program.returns_bind.mp taken
    obtain ⟨isTuple, rfl⟩ := Program.returns_ofOption.mp decoded
    obtain ⟨rfl, rfl⟩ := (Program.returns_pure _ _ _ _).mp done
    obtain ⟨rfl, rfl⟩ := (Program.returns_pure _ _ _ _).mp answered
    exact ⟨tup, isTuple, rfl, rfl⟩
  · intro found
    obtain ⟨tup, decoded, rfl, rfl⟩ := found
    rw [decoded] at step
    have taken : (SeqScanOp.next rel).Returns ⟨bm, standing 0 (some rid)⟩ (some tup)
        ⟨moved, standing 0 next⟩ := step
    exact taken.bind (Program.pure_returns _ _)

/-- What is left to collect behind a record. -/
theorem collects_cons (rel : Relation) (res : List Tuple) {record : Record N} {next : Option Rid}
    {moved : BufferManager N DiskManager} {after : List (Rid × List UInt8)}
    (returned : (standing 0 (some rid)).next.Returns bm (record, standing 0 next) moved) :
    Collects rel res ⟨bm, standing 0 (some rid)⟩ ((rid, data) :: after) ↔
      ∃ tup, rel.decode (record.bytes moved) = some tup ∧ rel.decode data = some tup ∧
        Collects rel (res ++ [tup]) ⟨moved, standing 0 next⟩ after := by
  constructor
  · intro collects
    obtain ⟨tuples, scan', ended, same⟩ := collects
    rcases ended.loop_cases with exited | ⟨_, _, turn, rest⟩
    · obtain ⟨_, _, impossible, _⟩ := (collect_record returned).mp exited
      cases impossible
    · obtain ⟨tup, decoded, isNext, rfl⟩ := (collect_record returned).mp turn
      cases isNext
      obtain ⟨more, rfl⟩ := collect_extends rest
      simp only [List.map_append, List.map_cons, List.append_assoc, List.singleton_append,
        List.append_cancel_left_eq, List.cons.injEq] at same
      refine ⟨tup, decoded, same.1.symm, _, scan', rest, ?_⟩
      rw [List.map_append, same.2]
  · intro found
    obtain ⟨tup, decoded, isData, tuples, scan', rest, same⟩ := found
    have turn : (collect rel res).Returns (⟨bm, standing 0 (some rid)⟩ : ScanState N)
        (.inl (res ++ [tup])) ⟨moved, standing 0 next⟩ :=
      (collect_record returned).mpr ⟨tup, decoded, rfl, rfl⟩
    refine ⟨tuples, scan', Program.Returns.loop_again turn rest, ?_⟩
    simp only [same, List.map_append, List.map_cons, List.map_nil, isData, List.append_assoc,
      List.singleton_append]

/-- From a record on the loop gives what it should exactly if all its records are safe. -/
theorem collects_iff (rel : Relation) (linked : Chain view first chain) (distinct : chain.Nodup)
    {after : List (Rid × List UInt8)} (res : List Tuple)
    (stand : Stand bm₀ bm view pins pages chain front back rid data)
    (records : recordsFrom view (rid.pageId :: back) (rid.slotId + 1) = after) :
    Collects rel res ⟨bm, standing 0 (some rid)⟩ ((rid, data) :: after) ↔
      Safe rel.decode chain bm₀ ((rid, data) :: after) := by
  induction after generalizing bm front back rid data res with
  | nil =>
      obtain ⟨record, moved, turn⟩ := stand.turn linked distinct rel.decode
      cases found : nextRecord view (rid.pageId :: back) (rid.slotId + 1) with
      | some other =>
          obtain ⟨_, _, _, _, more⟩ := turn.further other found
          rw [records] at more
          cases more
      | none =>
          rw [found] at turn
          rw [collects_cons rel res turn.returned, Safe, List.head?_nil, Option.map_none,
            turn.spared]
          constructor
          · intro collects
            obtain ⟨tup, decoded, isData, _⟩ := collects
            exact ⟨by rw [isData]; rfl, by rw [decoded, isData], trivial⟩
          · intro safe
            obtain ⟨isSome, alike, _⟩ := safe
            obtain ⟨tup, isData⟩ := Option.isSome_iff_exists.mp isSome
            exact ⟨tup, by rw [alike, isData], isData, collects_ended rel _ moved⟩
  | cons head after ih =>
      obtain ⟨record, moved, turn⟩ := stand.turn linked distinct rel.decode
      cases found : nextRecord view (rid.pageId :: back) (rid.slotId + 1) with
      | none =>
          rw [turn.ended found] at records
          cases records
      | some other =>
          obtain ⟨front', back', data', stand', more⟩ := turn.further other found
          rw [more, List.cons.injEq] at records
          obtain ⟨rfl, records⟩ := records
          rw [found] at turn
          rw [collects_cons rel res turn.returned, Safe, List.head?_cons, Option.map_some,
            turn.spared]
          constructor
          · intro collects
            obtain ⟨tup, decoded, isData, rest⟩ := collects
            exact ⟨by rw [isData]; rfl, by rw [decoded, isData],
              (ih (res ++ [tup]) stand' records).mp rest⟩
          · intro safe
            obtain ⟨isSome, alike, rest⟩ := safe
            obtain ⟨tup, isData⟩ := Option.isSome_iff_exists.mp isSome
            exact ⟨tup, by rw [alike, isData], isData,
              (ih (res ++ [tup]) stand' records).mpr rest⟩

/-- A scan from `Open` to the end gives what it should exactly if every record is decodable and
none is lost behind the scan. -/
theorem exact_iff (rel : Relation) (it : HeapIterator)
    (linked : Chain view rel.hf.firstPageId chain) (distinct : chain.Nodup)
    (steady : Steady bm view pins pages) :
    Exact rel ⟨bm, it⟩ (heapRecords view chain) ↔
      (∀ record ∈ heapRecords view chain, (rel.decode record.2).isSome = true) ∧
        Undisturbed rel.decode view chain bm := by
  obtain ⟨bm', begun, steady', visited, rested⟩ := HeapIterator.begin_visits 0 linked steady
  have opened : (openScan rel).Returns ⟨bm, it⟩ ⟨⟩ ⟨bm', standing 0 (nextRecord view chain 0)⟩ :=
    (onPool_returns it begun).bind (Program.modify_returns _ _)
  have collects : Exact rel ⟨bm, it⟩ (heapRecords view chain) ↔
      Collects rel [] ⟨bm', standing 0 (nextRecord view chain 0)⟩ (heapRecords view chain) := by
    unfold Exact Collects Program.Returns
    rw [scan_eq opened]
    rfl
  have next := @recordsFrom_nextRecord view chain 0
  rw [collects, Undisturbed, ← safe_iff]
  cases found : nextRecord view chain 0 with
  | none =>
      rw [found] at next
      rw [show heapRecords view chain = [] from next]
      exact iff_of_true (collects_ended rel [] bm') trivial
  | some rid =>
      have known : ∀ pageId ∈ chain, ∃ page, view pageId = some page := by
        intro pageId member
        obtain ⟨_, page, present, _⟩ := linked.page member
        exact ⟨page, present⟩
      rw [passed_eq_pagesTo distinct known, found] at visited
      rw [found] at next
      obtain ⟨front, back, data, split, stored, records⟩ := next
      rw [show heapRecords view chain = _ from records]
      exact collects_iff rel linked distinct []
        ⟨split, stored, steady', rested rid found, visited⟩ rfl

end SeqScanOp

end RelationalDb
