import RelationalDb.Access.HeapFill
import RelationalDb.Executor.ScanFrames
import RelationalDb.Model.TableRows

set_option autoImplicit false

namespace RelationalDb

open HeapFile
open BufferManager (Backed Filling Seat Steady visits)
open HeapIterator (standing)
open HeapState (slotsFrom_appended slotsFrom_linked)
open SlottedPage (Appended Layout)
open TableManager (DatabaseRun Initialised)

variable {N : Nat} {bm : BufferManager N DiskManager} {view : Int → Option Page}
  {pins : Int → Int} {pages first : Int} {chain : List Int}

/-- A heap file on a pool after any calls: those of heap files among requests and releases of
other clients, or those of a database in which a table was opened. -/
inductive Reached [NeZero N] : BufferManager N DiskManager → HeapFile → Prop
  | shared {raw : Fin N → Page} {file : File} {log : List SharedEvent} {w : World N} {i : Nat}
      {heap : HeapFile} (small : file.size / pageSize < 2 ^ 31)
      (run : SharedRun (World.start raw file) log w) (present : w.heaps[i]? = some heap)
      (evictable : ∃ frame, (w.bm.pool frame).pinCount = 0) : Reached w.bm heap
  | opened {start manager manager₁ : TableManager N} {log : List (TableManager.Event N)}
      {name : List UInt8} {table : UserTable} (initialised : Initialised start)
      (run : DatabaseRun start log manager)
      (opened : (TableManager.openTable name).Returns manager table manager₁) :
      Reached manager₁.catalog.world.bm table.hf

/-- The pages of a heap on a pool between operations. -/
structure Stored (bm : BufferManager N DiskManager) (view : Int → Option Page) (pins : Int → Int)
    (pages first : Int) (chain : List Int) : Prop where
  steady : Steady bm view pins pages
  linked : Chain view first chain
  distinct : chain.Nodup
  same : ∀ pageId ∈ chain, bm.contents pageId = view pageId

theorem Stored.of_linked (steady : Steady bm view pins pages) (linked : Chain view first chain)
    (distinct : chain.Nodup) : Stored bm view pins pages first chain :=
  ⟨steady, linked, distinct, fun _ member => linked.contents_eq steady.toBacked member⟩

theorem Reached.stored [NeZero N] {heap : HeapFile} (reached : Reached bm heap) :
    ∃ view pins pages chain, Stored bm view pins pages heap.firstPageId chain := by
  cases reached with
  | shared small run present evictable =>
      obtain ⟨s, pins, holds⟩ := World.sharedState small run
      rw [holds.heaps] at present
      exact ⟨s.view, pins, s.pages, _, .of_linked (holds.settled.steady evictable)
        (holds.sound.linked _ heap present) (holds.sound.nodup _)⟩
  | opened initialised run opened =>
      obtain ⟨s, holds⟩ := TableManager.runState initialised run
      obtain ⟨cached, stands⟩ := holds.stands.opened opened
      obtain ⟨i, present, _⟩ := cached.place
      have sound := stands.holds.shows.sound
      exact ⟨s.view, _, s.pages, _, .of_linked stands.holds.shows.steady
        (sound.linked i _ present) (sound.nodup i)⟩

theorem Stored.exact_iff {table : UserTable} (it : HeapIterator)
    (stored : Stored bm view pins pages table.hf.firstPageId chain) :
    SeqScanOp.Exact table.relation ⟨bm, it⟩ (heapRecords bm.contents chain) ↔
      (∀ record ∈ heapRecords bm.contents chain, (table.decode record.2).isSome = true) ∧
        Undisturbed table.decode bm.contents chain bm := by
  have records : heapRecords bm.contents chain = heapRecords view chain :=
    recordsFrom_congr stored.same 0
  unfold Undisturbed
  rw [records]
  exact SeqScanOp.exact_iff table.relation it stored.linked stored.distinct stored.steady

/-- A record is lost exactly if another page of the chain comes to its frame while the iterator
goes on, and has other bytes there: which page comes to which frame is decided by the table, the
free list, the bits and the hand before the scan. -/
theorem Reached.undisturbed_iff [NeZero N] {heap : HeapFile} (reached : Reached bm heap)
    (linked : Chain bm.contents heap.firstPageId chain) (decode : List UInt8 → Option Tuple) :
    ∃ seat, Seat bm chain seat ∧
      (Undisturbed decode bm.contents chain bm ↔
        ∀ before rid data after,
          heapRecords bm.contents chain = before ++ (rid, data) :: after →
            (bytesAt bm.contents rid
              (pageBehind bm seat chain rid (after.head?.map Prod.fst))).map decode =
                some (decode data)) := by
  obtain ⟨view, pins, pages, chain', stored⟩ := reached.stored
  obtain rfl := (stored.linked.congr stored.same).unique linked
  obtain ⟨seat, seated⟩ := Seat.exists chain' stored.steady.evictable
  have records : heapRecords bm.contents chain' = heapRecords view chain' :=
    recordsFrom_congr stored.same 0
  refine ⟨seat, seated, ?_⟩
  unfold Undisturbed
  rw [records]
  refine (RelationalDb.undisturbed_iff decode stored.steady stored.linked stored.distinct
    seated).trans ?_
  refine forall_congr' fun before => forall_congr' fun rid => forall_congr' fun data =>
    forall_congr' fun after => forall_congr' fun split => ?_
  have inside : ∀ record ∈ (rid, data) :: after, record.1.pageId ∈ chain' := by
    intro record member
    apply @recordsFrom_mem view chain' record 0
    rw [show recordsFrom view chain' 0 = _ from split]
    exact List.mem_append_right before member
  have here := inside _ List.mem_cons_self
  rw [bytesAt_congr (stored.same _ here) (stored.same _ (pageBehind_mem seat here ?_))]
  intro other next
  obtain ⟨record, head, rfl⟩ := Option.map_eq_some_iff.mp next
  exact inside record (List.mem_cons_of_mem _ (List.mem_of_mem_head? head))

/-- Whatever calls came before, a scan of a user table yields what `Decode` makes of every live
record, once each and in order, exactly if the bytes of every record are those of a tuple and no
record is lost between `Get` and `Decode`. -/
theorem scan_exact_iff [NeZero N] (bm : BufferManager N DiskManager) (table : UserTable)
    (it : HeapIterator) (reached : Reached bm table.hf) :
    ∃ chain, Chain bm.contents table.hf.firstPageId chain ∧
      (SeqScanOp.Exact table.relation ⟨bm, it⟩ (heapRecords bm.contents chain) ↔
        (∀ record ∈ heapRecords bm.contents chain, (table.decode record.2).isSome = true) ∧
          Undisturbed table.decode bm.contents chain bm) := by
  obtain ⟨view, pins, pages, chain, stored⟩ := reached.stored
  exact ⟨chain, stored.linked.congr stored.same, stored.exact_iff it⟩

/-- Two rows on one page. -/
theorem scan_exact_iff_rows : ∃ (bm : BufferManager bufferPoolSize DiskManager)
    (table : UserTable) (chain : List Int), Chain bm.contents table.hf.firstPageId chain ∧
      (heapRecords bm.contents chain).map Prod.snd = [[7, 0, 0, 0], [8, 0, 0, 0]] ∧
      SeqScanOp.Exact table.relation ⟨bm, standing 0 none⟩ (heapRecords bm.contents chain) := by
  obtain ⟨_, _, _, table, manager, rows⟩ := TableManager.numbersIn_exists [7, 8] (by decide)
  obtain ⟨chain, linked, one, listed⟩ := rows.scan rfl
  have records : (heapRecords manager.pages chain).map Prod.snd =
    [[7, 0, 0, 0], [8, 0, 0, 0]] := listed
  obtain ⟨chain', linked', exact⟩ := scan_exact_iff _ table (standing 0 none)
    (.opened rows.initialised rows.run rows.opened)
  obtain rfl := linked'.unique linked
  refine ⟨_, table, chain', linked, records, exact.mpr ⟨?_, undisturbed_of_one (Nat.le_of_eq one)⟩⟩
  intro record member
  have among : record.2 ∈ (heapRecords manager.pages chain').map Prod.snd :=
    List.mem_map_of_mem member
  rw [rows.decode]
  simp only [records, List.mem_cons, List.not_mem_nil, or_false] at among
  rcases among with same | same
  · rw [same]
    rfl
  · rw [same]
    rfl

theorem BufferManager.Filling.visit_first (filling : Filling bm 0) {frame : Fin N}
    (first : frame.val = 0) (steady : Steady bm view pins pages) {pageId : Int} (given : 0 ≤ pageId)
    (absent : bm.pageTable pageId = none) :
    ∃ bm', (visits [pageId]).Returns bm ⟨⟩ bm' ∧ Filling bm' 0 ∧ Steady bm' view pins pages ∧
      bm'.pageTable pageId = some frame ∧
      ∀ other, bm.pageTable other = some frame → other ≠ pageId → bm'.pageTable other = none := by
  have requested := filling.request_first first absent
  obtain ⟨released, filling'⟩ := @Filling.release_first N DiskManager _ bm frame pageId filling id
    fun _ => rfl
  have opened : ((bm.evicted frame).loaded pageId frame).setFrame frame id =
      (bm.evicted frame).loaded pageId frame := by
    simp [BufferManager.setFrame]
  rw [opened] at released filling'
  obtain ⟨_, _, bm', requested', _, released', steady', _⟩ := steady.visit given
  obtain ⟨rfl, rfl⟩ := requested.value_eq requested'
  obtain ⟨_, rfl⟩ := released.value_eq released'
  refine ⟨_, requested.bind (released.bind rfl), filling', steady', Function.update_self _ _ _, ?_⟩
  intro other cached apart
  have name := steady.mapped other frame cached
  have valid : other ≠ invalidPageId := by
    have lower := steady.nonnegative other frame cached
    rintro rfl
    exact absurd lower (by decide)
  simp only [BufferManager.released, BufferManager.loaded]
  rw [Function.update_of_ne apart, BufferManager.evicted_pageTable, if_pos ⟨name.symm, valid⟩]

namespace TwoPages

variable {last : Int} {former latter : List UInt8}

theorem slots {raw page : Page} {data : List UInt8} {pageId : Int}
    (appended : Appended (initHeapPage raw) page headerSize data) (nonempty : data ≠ []) :
    slotsFrom pageId page 0 = [(⟨pageId, 0⟩, data)] := by
  rw [slotsFrom_appended appended (initHeapPage_layout raw) nonempty, initHeapPage_numSlots,
    slotsFrom_outside (Nat.le_of_eq (initHeapPage_numSlots raw)), List.nil_append]

theorem records (two : TwoPages view last former latter) :
    heapRecords view [last, last + 1] = [(⟨last, 0⟩, former), (⟨last + 1, 0⟩, latter)] := by
  obtain ⟨_, ⟨nonempty, nonempty'⟩, _, fits, ⟨raw, page, appended, known⟩,
    raw', page', appended', known'⟩ := two
  rw [heapRecords, recordsFrom_cons known, recordsFrom_cons known',
    slotsFrom_linked (layout appended fits), slots appended nonempty, slots appended' nonempty']
  rfl

/-- The second page comes to the frame of the first one, with its record in the same place. -/
theorem disturbed (two : TwoPages bm.contents last former latter) (filling : Filling bm 0)
    (stored : Stored bm view pins pages last [last, last + 1]) {frame : Fin N}
    (first : frame.val = 0) (away : bm.pageTable last = none)
    (cached : bm.pageTable (last + 1) = some frame) {decode : List UInt8 → Option Tuple}
    (other : decode former ≠ decode latter) :
    ¬ Undisturbed decode bm.contents [last, last + 1] bm := by
  intro undisturbed
  have records := two.records
  obtain ⟨⟨lower, upper⟩, ⟨nonempty, _⟩, length, fits, ⟨raw, page, appended, known⟩,
    raw', page', appended', known'⟩ := two
  rw [stored.same _ List.mem_cons_self] at known
  rw [stored.same _ (List.mem_cons_of_mem _ List.mem_cons_self)] at known'
  obtain ⟨onIt, visited, filling₁, steady₁, cached₁, gone₁⟩ :=
    filling.visit_first first stored.steady lower away
  obtain ⟨behind, visited₂, _, steady₂, cached₂, gone₂⟩ := filling₁.visit_first first steady₁
    (show 0 ≤ last + 1 by omega) (gone₁ _ cached (by omega))
  have empty : ∀ raw, SlottedPage.freeSpaceOffset (initHeapPage raw) headerSize = pageSize :=
    fun raw => SlottedPage.init_freeSpaceOffset _ _ header_fits
  have place : SlottedPage.get (onIt.pool frame).data headerSize 0 =
      some (pageSize - former.length, former.length) := by
    have span := appended.get_new nonempty
    rw [initHeapPage_numSlots, empty] at span
    rw [steady₁.data _ _ _ cached₁ known, setNextPageId_get, span]
  have apart : last ≠ last + 1 := by omega
  have spared := undisturbed [] ⟨last, 0⟩ former _ records onIt behind frame _ _ (by
    simpa [pagesTo] using visited) (by
    simpa [pagesTo, apart] using BufferManager.visits_append visited visited₂) cached₁ place
  rcases spared with still | alike
  · rw [gone₂ last cached₁ apart] at still
    cases still
  · have read := appended'.newData
    rw [empty] at read
    rw [steady₂.data _ _ _ cached₂ known', length, read] at alike
    exact other alike.symm

end TwoPages

/-- A table with one `TEXT` column on the last of a hundred heaps. -/
def lastTable : UserTable :=
  { hf := ⟨fun _ => 0, 99⟩
    schema := [⟨fun _ => 0, ascii "c", textType, 1⟩]
    tableId := fun _ => 0 }

theorem lastTable_decode {string : List UInt8} (short : string.length < 2 ^ 31) :
    lastTable.decode (writeString [] string) = some ⟨[.text string], lastTable.schema⟩ := by
  have encoded : DynamicCodec.encode [.text string] lastTable.schema =
      some (writeString [] string) := rfl
  have typed : DynamicCodec.Typed lastTable.schema := by
    intro column member
    rw [List.mem_singleton.mp member]
    exact Or.inr rfl
  have length : (writeString [] string).length = 4 + string.length := Value.field_text string
  have decoded : DynamicCodec.decode (writeString [] string) lastTable.schema =
      some [.text string] :=
    DynamicCodec.decode_of_fits (.cons (.text rfl) .nil) encoded typed (by omega)
  rw [UserTable.decode, decoded]
  rfl

def longRow (byte : UInt8) : List UInt8 := writeString [] (List.replicate 7000 byte)

theorem longRow_length (byte : UInt8) : (longRow byte).length = 7004 := by
  rw [longRow, show (writeString [] _).length = _ from Value.field_text _, List.length_replicate]

theorem longRow_decode (byte : UInt8) : lastTable.decode (longRow byte) =
    some ⟨[.text (List.replicate 7000 byte)], lastTable.schema⟩ :=
  lastTable_decode (by rw [List.length_replicate]; decide)

/-- Two rows in the last of a hundred heaps: when the first one is decoded, the second page has
come to its frame. -/
theorem scan_loses_row : ∃ (w : World bufferPoolSize) (chain : List Int),
    SharedRun (World.start (fun _ _ => 0) File.empty)
      ((⟨.insert 99 (longRow 2), .ok (.placed (some ⟨100, 0⟩))⟩ ::
        ⟨.insert 99 (longRow 1), .ok (.placed (some ⟨99, 0⟩))⟩ ::
          World.creates bufferPoolSize).map HeapEvent.shared) w ∧
    Reached w.bm lastTable.hf ∧ Chain w.bm.contents lastTable.hf.firstPageId chain ∧
    heapRecords w.bm.contents chain = [(⟨99, 0⟩, longRow 1), (⟨100, 0⟩, longRow 2)] ∧
    (∀ record ∈ heapRecords w.bm.contents chain, (lastTable.decode record.2).isSome = true) ∧
    ¬ SeqScanOp.Exact lastTable.relation ⟨w.bm, standing 0 none⟩
      (heapRecords w.bm.contents chain) := by
  have size := longRow_length
  have nonempty : ∀ byte, longRow byte ≠ [] := by
    intro byte none
    have length := size byte
    rw [none] at length
    cases length
  obtain ⟨w, page, page', run, present, grown, two⟩ := @World.two_run bufferPoolSize _
    (fun _ _ => 0) (by decide) (longRow 1) (longRow 2) ⟨nonempty 1, nonempty 2⟩
    (by rw [size, size]) (by rw [size]; decide) (by rw [size]; decide)
  have small : File.empty.size / pageSize < 2 ^ 31 := by decide
  obtain ⟨shared, _⟩ := World.shared_of_heapRun small run
  have reached : Reached w.bm lastTable.hf :=
    .shared small shared present ⟨⟨0, by decide⟩, grown.filling.unpinned _⟩
  have linked : Chain w.bm.contents lastTable.hf.firstPageId [99, 100] := two.linked
  have records : heapRecords w.bm.contents [99, 100] =
      [(⟨99, 0⟩, longRow 1), (⟨100, 0⟩, longRow 2)] := two.records
  obtain ⟨view, pins, pages, chain, stored⟩ := reached.stored
  rw [(stored.linked.congr stored.same).unique linked] at stored
  refine ⟨w, [99, 100], shared, reached, linked, records, ?_, ?_⟩
  · intro record member
    rw [records] at member
    simp only [List.mem_cons, List.not_mem_nil, or_false] at member
    rcases member with rfl | rfl
    · rw [longRow_decode]
      rfl
    · rw [longRow_decode]
      rfl
  · rw [stored.exact_iff]
    intro both
    refine two.disturbed grown.filling stored grown.first grown.away grown.cached ?_ both.2
    rw [longRow_decode, longRow_decode]
    intro same
    rw [Option.some.injEq, Tuple.mk.injEq, List.cons.injEq, Value.text.injEq] at same
    have among : (1 : UInt8) ∈ List.replicate 7000 1 := List.mem_replicate.mpr ⟨by decide, rfl⟩
    rw [same.1.1] at among
    exact absurd (List.eq_of_mem_replicate among) (by decide)

end RelationalDb
