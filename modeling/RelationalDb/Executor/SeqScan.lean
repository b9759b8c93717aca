import RelationalDb.Access.HeapRecords
import RelationalDb.Executor.SeqScanOp

set_option autoImplicit false

namespace RelationalDb

open HeapFile
open BufferManager (Steady)
open HeapIterator (standing)

variable {N : Nat} {bm bm' : BufferManager N DiskManager} {view : Int → Option Page}
  {pins : Int → Int} {pages first : Int} {chain before after : List Int} {rid : Rid}
  {data : List UInt8}

/-- What `Next` does at the record `rid`: the record is fetched, which leaves `fetched`,
and then the iterator moves on, which leaves `moved`. -/
structure Yields (bm : BufferManager N DiskManager) (view : Int → Option Page) (pins : Int → Int)
    (pages : Int) (rid : Rid) (data : List UInt8) (next : Option Rid) (record : Record N)
    (fetched moved : BufferManager N DiskManager) : Prop where
  steady : Steady fetched view pins pages
  steady' : Steady moved view pins pages
  resident : fetched.pageTable rid.pageId = some record.frame
  size : record.size = data.length
  bytes : record.bytes fetched = data
  advanced : (standing 0 (some rid)).nextSlot.advance.Returns fetched (standing 0 next) moved
  returned : (standing 0 (some rid)).next.Returns bm (record, standing 0 next) moved

theorem HeapIterator.next_returns (linked : Chain view first (before ++ rid.pageId :: after))
    (stored : storedRecord view rid = some data) (steady : Steady bm view pins pages) :
    ∃ record fetched moved, Yields bm view pins pages rid data
      (nextRecord view (rid.pageId :: after) (rid.slotId + 1)) record fetched moved := by
  have present : Present view (before ++ rid.pageId :: after) rid :=
    ⟨List.mem_append_right _ List.mem_cons_self, by rw [stored]; rfl⟩
  obtain ⟨given, page, known, _⟩ := linked.page present.1
  obtain ⟨result, bm₁, got, steady₁, fetched⟩ := get_returns steady given known
  have bytes := fetched.bytes
  rw [← storedRecord_eq known, stored, Option.map_eq_some_iff] at bytes
  obtain ⟨record, rfl, bytes⟩ := bytes
  obtain ⟨_, _, resident, _⟩ := fetched.found record rfl
  obtain ⟨bm₂, moved, steady₂⟩ := increment_returns 0 linked present steady₁
  refine ⟨record, bm₁, bm₂, steady₁, steady₂, resident, ?_, bytes, moved, ?_⟩
  · rw [← bytes, Record.bytes, Region.read_length]
  · simp only [HeapIterator.next, standing, Bool.true_eq_false, ↓reduceIte]
    apply got.bind
    apply (Program.pure_returns record bm₁).bind
    exact moved.bind (Program.pure_returns _ _)

namespace SeqScanOp

theorem onPool_returns (it : HeapIterator) {α : Type} {program : Heap N α} {value : α}
    (returned : program.Returns bm value bm') :
    (onPool program).Returns ⟨bm, it⟩ value ⟨bm', it⟩ :=
  Program.Returns.within ScanState.bm setPool (show program.Returns (ScanState.mk bm it).bm _ _ from
    returned)

/-- `Open` stands on the first record. -/
theorem openScan_returns (rel : Relation) (it : HeapIterator)
    (linked : Chain view rel.hf.firstPageId chain) (steady : Steady bm view pins pages) :
    ∃ bm', (openScan rel).Returns ⟨bm, it⟩ ⟨⟩ ⟨bm', standing 0 (nextRecord view chain 0)⟩ ∧
      Steady bm' view pins pages := by
  obtain ⟨bm', begun, steady'⟩ := HeapIterator.begin_returns 0 linked steady
  exact ⟨bm', (onPool_returns it begun).bind (Program.modify_returns _ _), steady'⟩

theorem next_ended (rel : Relation) (bm : BufferManager N DiskManager) :
    (next rel).Returns ⟨bm, standing 0 none⟩ none ⟨bm, standing 0 none⟩ := rfl

/-- `Next` at a record ends with what `Decode` makes of the bytes its pointer then
leads to. -/
theorem next_eq (rel : Relation) {next' : Option Rid} {record : Record N}
    {moved : BufferManager N DiskManager}
    (returned : (standing 0 (some rid)).next.Returns bm (record, standing 0 next') moved) :
    next rel ⟨bm, standing 0 (some rid)⟩ =
      (Program.ofOption (rel.decode (record.bytes moved)) >>= fun tup => pure (some tup) :
        Program (ScanState N) Error (Option Tuple)) ⟨moved, standing 0 next'⟩ := by
  have took := onPool_returns (standing 0 (some rid)) returned
  rw [next, (Program.get_returns _).bind_eq, if_neg (by simp [standing]),
    (Program.get_returns _).bind_eq, took.bind_eq]
  rfl

end SeqScanOp

/-- A scan from `Open` to the end. -/
def SeqScanOp.scan (rel : Relation) : Program (ScanState N) Error (List Tuple) :=
  Executor.executeAndCollect (seqScanOp rel) .leaf

/-- The loop of `ExecuteAndCollect` over a scan. -/
def SeqScanOp.collect (rel : Relation) (res : List Tuple) :
    Program (ScanState N) Error (List Tuple ⊕ List Tuple) := do
  match ← SeqScanOp.next rel with
  | some tup => return .inl (res ++ [tup])
  | none => return .inr res

namespace SeqScanOp

theorem collect_cases {rel : Relation} {res : List Tuple} {scan scan' : ScanState N}
    {turn : List Tuple ⊕ List Tuple} (returned : (collect rel res).Returns scan turn scan') :
    (∃ tup, (next rel).Returns scan (some tup) scan' ∧ turn = .inl (res ++ [tup])) ∨
      (next rel).Returns scan none scan' ∧ turn = .inr res := by
  obtain ⟨found, middle, stepped, answered⟩ := Program.returns_bind.mp returned
  cases found with
  | some tup =>
      obtain ⟨rfl, rfl⟩ := (Program.returns_pure _ _ _ _).mp answered
      exact Or.inl ⟨tup, stepped, rfl⟩
  | none =>
      obtain ⟨rfl, rfl⟩ := (Program.returns_pure _ _ _ _).mp answered
      exact Or.inr ⟨stepped, rfl⟩

/-- The loop only adds to what was collected. -/
theorem collect_extends {rel : Relation} {res tuples : List Tuple} {scan scan' : ScanState N}
    (returned : Program.Returns (Program.loop (collect rel) res) scan tuples scan') :
    ∃ more, tuples = res ++ more := by
  refine Program.loop_induct (motive := fun res _ outcome _ =>
    ∀ tuples, outcome = .ok tuples → ∃ more, tuples = res ++ more) ?_ ?_ ?_ returned tuples rfl
  · intro res scan reason scan' _ tuples same
    cases same
  · intro res scan value scan' left tuples same
    cases same
    rcases collect_cases left with ⟨tup, _, same⟩ | ⟨_, same⟩
    · cases same
    · cases same
      exact ⟨[], (List.append_nil _).symm⟩
  · intro res scan further scan' outcome scan'' stepped ih tuples same
    obtain ⟨more, rfl⟩ := ih tuples same
    rcases collect_cases stepped with ⟨tup, _, same⟩ | ⟨_, same⟩
    · cases same
      exact ⟨tup :: more, List.append_assoc res [tup] more⟩
    · cases same

theorem scan_eq {rel : Relation} {scan scan' : ScanState N}
    (opened : (openScan rel).Returns scan ⟨⟩ scan') :
    SeqScanOp.scan rel scan = Program.loop (collect rel) [] scan' := by
  have start : SeqScanOp.scan rel scan = (openScan rel >>= fun _ =>
      (Program.loop (collect rel) [] : Program (ScanState N) Error (List Tuple)) >>= fun res =>
        pure ⟨⟩ >>= fun _ : Unit => pure res) scan := rfl
  rw [start, opened.bind_eq]
  simp only [Bind.bind, pure]
  split <;> rename_i ended <;> exact ended.symm

/-- A scan of a heap with a record that succeeds yields first what `Decode` makes of
some bytes of the length of the first record. -/
theorem scan_first {rel : Relation} {rid : Rid} {rest : List (Rid × List UInt8)}
    {tuples : List Tuple} {it : HeapIterator} {scan' : ScanState N}
    (linked : Chain view rel.hf.firstPageId chain) (steady : Steady bm view pins pages)
    (records : heapRecords view chain = (rid, data) :: rest)
    (returned : (SeqScanOp.scan rel).Returns ⟨bm, it⟩ tuples scan') :
    ∃ bytes tup more, bytes.length = data.length ∧ rel.decode bytes = some tup ∧
      tuples = tup :: more := by
  obtain ⟨bm₁, opened, steady₁⟩ := openScan_returns rel it linked steady
  unfold Program.Returns at returned
  rw [scan_eq opened] at returned
  have next' := @recordsFrom_nextRecord view chain 0
  rw [show recordsFrom view chain 0 = (rid, data) :: rest from records] at next'
  cases found : nextRecord view chain 0 with
  | none =>
      rw [found] at next'
      cases next'
  | some place =>
      rw [found] at next' returned
      obtain ⟨before, after, data', split, stored, same⟩ := next'
      cases same
      rw [split] at linked
      obtain ⟨record, fetched, moved, yields⟩ := HeapIterator.next_returns linked stored steady₁
      rcases Program.Returns.loop_cases returned with stepped | ⟨further, middle, stepped, rest⟩
      · rcases collect_cases stepped with ⟨tup, _, same⟩ | ⟨taken, _⟩
        · cases same
        · unfold Program.Returns at taken
          rw [next_eq rel yields.returned] at taken
          obtain ⟨tup', middle', _, answered⟩ := Program.returns_bind.mp taken
          cases ((Program.returns_pure _ _ _ _).mp answered).1
      · rcases collect_cases stepped with ⟨tup, taken, same⟩ | ⟨_, same⟩
        · cases same
          unfold Program.Returns at taken
          rw [next_eq rel yields.returned] at taken
          obtain ⟨tup', middle', decoded, answered⟩ := Program.returns_bind.mp taken
          obtain ⟨same, rfl⟩ := (Program.returns_pure _ _ _ _).mp answered
          cases same
          obtain ⟨decoded, _⟩ := Program.returns_ofOption.mp decoded
          obtain ⟨more, rfl⟩ := collect_extends rest
          refine ⟨_, tup, more, ?_, decoded, rfl⟩
          rw [Record.bytes, Region.read_length, yields.size]
        · cases same

end SeqScanOp

end RelationalDb
