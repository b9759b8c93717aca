import RelationalDb.Access.HeapRuns
import RelationalDb.Access.HeapScan
import RelationalDb.FirstFit

set_option autoImplicit false

namespace RelationalDb

open BufferManager (Steady)

namespace HeapFile

open SlottedPage (Layout record numSlots)

/-- The records of a page from a slot on. -/
def slotsFrom (pageId : Int) (page : Page) (slot : Nat) : List (Rid × List UInt8) :=
  (List.range' slot (numSlots page headerSize - slot)).filterMap fun slotId =>
    (record page headerSize slotId).map fun data => (⟨pageId, slotId⟩, data)

/-- The records of a chain from a slot of its first page on. -/
def recordsFrom (view : Int → Option Page) : List Int → Nat → List (Rid × List UInt8)
  | [], _ => []
  | pageId :: rest, slot =>
      ((view pageId).map fun page => slotsFrom pageId page slot).getD [] ++ recordsFrom view rest 0

def heapRecords (view : Int → Option Page) (chain : List Int) : List (Rid × List UInt8) :=
  recordsFrom view chain 0

theorem recordsFrom_cons {view : Int → Option Page} {pageId : Int} {page : Page} {rest : List Int}
    {slot : Nat} (present : view pageId = some page) :
    recordsFrom view (pageId :: rest) slot =
      slotsFrom pageId page slot ++ recordsFrom view rest 0 := by
  rw [recordsFrom, present, Option.map_some, Option.getD_some]

theorem recordsFrom_congr {view view' : Int → Option Page} {chain : List Int}
    (same : ∀ pageId ∈ chain, view pageId = view' pageId) (slot : Nat) :
    recordsFrom view chain slot = recordsFrom view' chain slot := by
  induction chain generalizing slot with
  | nil => rfl
  | cons pageId rest ih =>
      rw [recordsFrom, recordsFrom, same pageId List.mem_cons_self,
        ih (fun other member => same other (List.mem_cons_of_mem _ member))]

theorem recordsFrom_mem {view : Int → Option Page} {chain : List Int}
    {record : Rid × List UInt8} {slot : Nat} (member : record ∈ recordsFrom view chain slot) :
    record.1.pageId ∈ chain := by
  induction chain generalizing slot with
  | nil => cases member
  | cons pageId rest ih =>
      rw [recordsFrom, List.mem_append] at member
      rcases member with here | later
      · cases known : view pageId with
        | none =>
            rw [known] at here
            cases here
        | some page =>
            rw [known] at here
            obtain ⟨slotId, _, found⟩ := List.mem_filterMap.mp here
            obtain ⟨data, _, rfl⟩ := Option.map_eq_some_iff.mp found
            exact List.mem_cons_self
      · exact List.mem_cons_of_mem _ (ih later)

theorem slotsFrom_outside {pageId : Int} {page : Page} {slot : Nat}
    (outside : numSlots page headerSize ≤ slot) : slotsFrom pageId page slot = [] := by
  rw [slotsFrom, Nat.sub_eq_zero_of_le outside]
  rfl

theorem slotsFrom_inside {pageId : Int} {page : Page} {slot : Nat}
    (inside : slot < numSlots page headerSize) :
    slotsFrom pageId page slot =
      ((record page headerSize slot).map fun data => ((⟨pageId, slot⟩ : Rid), data)).toList ++
        slotsFrom pageId page (slot + 1) := by
  have left : numSlots page headerSize - slot = (numSlots page headerSize - (slot + 1)) + 1 := by
    omega
  rw [slotsFrom, left, List.range'_succ, List.filterMap_cons]
  cases record page headerSize slot <;> rfl

/-- Behind the slot that `Advance` finds come the other records. -/
theorem slotsFrom_seek (pageId : Int) (page : Page) (left slot : Nat)
    (all : left = numSlots page headerSize - slot) :
    match HeapIterator.seek page left slot with
    | some found => ∃ data, record page headerSize found = some data ∧
        slotsFrom pageId page slot = (⟨pageId, found⟩, data) :: slotsFrom pageId page (found + 1)
    | none => slotsFrom pageId page slot = [] := by
  induction left generalizing slot with
  | zero => exact slotsFrom_outside (by omega)
  | succ left ih =>
      have inside : slot < numSlots page headerSize := by omega
      rw [HeapIterator.seek, slotsFrom_inside inside, ← SlottedPage.record_isSome]
      cases here : record page headerSize slot with
      | some data => exact ⟨data, here, rfl⟩
      | none => exact ih (slot + 1) (by omega)

/-- The record ids that `nextRecord` leads through are those of the records. -/
theorem recordsFrom_nextRecord {view : Int → Option Page} (later : List Int) (slot : Nat) :
    match nextRecord view later slot with
    | some rid => ∃ before after data, later = before ++ rid.pageId :: after ∧
        storedRecord view rid = some data ∧
        recordsFrom view later slot =
          (rid, data) :: recordsFrom view (rid.pageId :: after) (rid.slotId + 1)
    | none => recordsFrom view later slot = [] := by
  induction later generalizing slot with
  | nil => rfl
  | cons pageId rest ih =>
      cases present : view pageId with
      | none =>
          have here : recordsFrom view (pageId :: rest) slot = recordsFrom view rest 0 := by
            rw [recordsFrom, present]
            rfl
          rw [nextRecord, present, here]
          have next := ih 0
          cases found : nextRecord view rest 0 with
          | none =>
              rw [found] at next
              exact next
          | some rid =>
              rw [found] at next
              obtain ⟨before, after, data, split, stored, records⟩ := next
              exact ⟨pageId :: before, after, data, by rw [split]; rfl, stored, records⟩
      | some page =>
          have seek := slotsFrom_seek pageId page _ slot rfl
          rw [nextRecord, present, Option.bind_some, HeapIterator.seekPage,
            recordsFrom_cons present]
          cases sought : HeapIterator.seek page (numSlots page headerSize - slot) slot with
          | some found =>
              rw [sought] at seek
              obtain ⟨data, held, slots⟩ := seek
              refine ⟨[], rest, data, rfl, ?_, ?_⟩
              · rw [storedRecord_eq present, held]
              · rw [recordsFrom_cons present, slots, List.cons_append]
          | none =>
              rw [sought] at seek
              rw [seek, List.nil_append]
              have next := ih 0
              show match nextRecord view rest 0 with
                | some rid => _
                | none => _
              cases found : nextRecord view rest 0 with
              | none =>
                  rw [found] at next
                  exact next
              | some rid =>
                  rw [found] at next
                  obtain ⟨before, after, data, split, stored, records⟩ := next
                  exact ⟨pageId :: before, after, data, by rw [split]; rfl, stored, records⟩

variable {N : Nat} {β γ : Type}

/-- The body of `for (auto it = _hf.begin(); it != _hf.end(); ++it)` with
`auto rec = *it`. It goes on with a new value or returns; where it reads past the
end of the record there is no result. -/
def forStep (address : Nat) (body : β → List UInt8 → Option (β ⊕ γ)) (current : HeapIterator × β) :
    Heap N ((HeapIterator × β) ⊕ (β ⊕ γ)) := do
  let (it, acc) := current
  if it.equal (← endIterator address) then return .inr (.inl acc)
  else
    let record ← it.deref
    match body acc (record.bytes (← MonadState.get)) with
    | none => fun _ => none
    | some (.inr result) => return .inr (.inr result)
    | some (.inl acc) => return .inl (← it.increment, acc)

/-- The loop of a member function of the relation at `address`. -/
def forRecords (heap : HeapFile) (address : Nat) (body : β → List UInt8 → Option (β ⊕ γ))
    (start : β) : Heap N (β ⊕ γ) := do
  let it ← heap.begin address
  Program.loop (forStep address body) (it, start)

/-- The loop on a list of records. -/
def foldRecords (body : β → List UInt8 → Option (β ⊕ γ)) : β → List (List UInt8) → Option (β ⊕ γ)
  | acc, [] => some (.inl acc)
  | acc, bytes :: rest =>
      match body acc bytes with
      | none => none
      | some (.inr result) => some (.inr result)
      | some (.inl acc) => foldRecords body acc rest

variable {bm : BufferManager N DiskManager} {view : Int → Option Page} {pins : Int → Int}
  {pages : Int}

open HeapIterator (standing)

section Turn

variable {body : β → List UInt8 → Option (β ⊕ γ)} {acc : β} {address : Nat} {rid : Rid}

/-- The loop ends at the end. -/
theorem forStep_ended (bm : BufferManager N DiskManager) :
    (forStep address body (standing address none, acc)).Returns bm (.inr (.inl acc)) bm := by
  have ended : (standing address none).equal (.sentinel address) = true :=
    (HeapIterator.standing_equal address none).mpr rfl
  apply (HeapIterator.endIterator_returns address bm).bind
  simp only [ended, ↓reduceIte]
  exact Program.pure_returns _ _

variable {record : Record N} {bm₁ bm₂ : BufferManager N DiskManager}
  (deref : (standing address (some rid)).deref.Returns bm record bm₁)

include deref

theorem forStep_result {result : γ} (outcome : body acc (record.bytes bm₁) = some (.inr result)) :
    (forStep address body (standing address (some rid), acc)).Returns bm (.inr (.inr result))
      bm₁ := by
  apply (HeapIterator.endIterator_returns address bm).bind
  simp only [HeapIterator.standing_going, Bool.false_eq_true, ↓reduceIte]
  apply deref.bind
  apply (Program.get_returns bm₁).bind
  rw [outcome]
  exact Program.pure_returns _ _

theorem forStep_next {acc' : β} {it : HeapIterator}
    (outcome : body acc (record.bytes bm₁) = some (.inl acc'))
    (moved : (standing address (some rid)).increment.Returns bm₁ it bm₂) :
    (forStep address body (standing address (some rid), acc)).Returns bm (.inl (it, acc')) bm₂ := by
  apply (HeapIterator.endIterator_returns address bm).bind
  simp only [HeapIterator.standing_going, Bool.false_eq_true, ↓reduceIte]
  apply deref.bind
  apply (Program.get_returns bm₁).bind
  rw [outcome]
  exact moved.bind (Program.pure_returns _ _)

end Turn

theorem forLoop_returns {first : Int} {chain before later : List Int} {slot : Nat}
    {records : List (Rid × List UInt8)} {body : β → List UInt8 → Option (β ⊕ γ)}
    {acc : β} {result : β ⊕ γ} (address : Nat) (linked : Chain view first chain)
    (split : chain = before ++ later)
    (same : recordsFrom view later slot = records) (steady : Steady bm view pins pages)
    (folds : foldRecords body acc (records.map Prod.snd) = some result) :
    ∃ bm', Program.Returns (Program.loop (forStep address body)
        (standing address (nextRecord view later slot), acc)) bm result bm' ∧
      Steady bm' view pins pages := by
  induction records generalizing bm before later slot acc with
  | nil =>
      have next := @recordsFrom_nextRecord view later slot
      cases found : nextRecord view later slot with
      | some rid =>
          rw [found] at next
          obtain ⟨_, _, _, _, _, cons⟩ := next
          rw [same] at cons
          cases cons
      | none =>
          cases folds
          exact ⟨bm, Program.Returns.loop_exit (forStep_ended bm), steady⟩
  | cons head tail ih =>
      have next := @recordsFrom_nextRecord view later slot
      cases found : nextRecord view later slot with
      | none =>
          rw [found, same] at next
          cases next
      | some rid =>
          rw [found] at next
          obtain ⟨skipped, after, data, place, stored, cons⟩ := next
          rw [same, List.cons.injEq] at cons
          obtain ⟨rfl, tailEq⟩ := cons
          have whole : chain = (before ++ skipped) ++ rid.pageId :: after := by
            rw [split, place, List.append_assoc]
          have member : rid.pageId ∈ chain := by
            rw [whole]
            exact List.mem_append_right _ List.mem_cons_self
          have present : Present view chain rid := ⟨member, by rw [stored]; rfl⟩
          obtain ⟨given, page, known, _⟩ := linked.page member
          obtain ⟨record, bm₁, deref, steady₁, _, bytes⟩ :=
            HeapIterator.deref_returns address given known present steady
          rw [stored, Option.some.injEq] at bytes
          rw [List.map_cons, foldRecords, bytes] at folds
          cases outcome : body acc (record.bytes bm₁) with
          | none =>
              rw [outcome] at folds
              cases folds
          | some reached =>
              rw [outcome] at folds
              cases reached with
              | inr done =>
                  cases folds
                  exact ⟨bm₁, Program.Returns.loop_exit (forStep_result deref outcome), steady₁⟩
              | inl acc' =>
                  rw [whole] at linked present
                  obtain ⟨bm₂, moved, steady₂⟩ :=
                    HeapIterator.increment_returns address linked present steady₁
                  rw [← whole] at linked
                  obtain ⟨bm', ended, steady'⟩ :=
                    @ih bm₂ (before ++ skipped) (rid.pageId :: after) (rid.slotId + 1) acc' whole
                      tailEq.symm steady₂ folds
                  exact ⟨bm', Program.Returns.loop_again (forStep_next deref outcome moved) ended,
                    steady'⟩

theorem forRecords_returns {heap : HeapFile} {chain : List Int}
    {body : β → List UInt8 → Option (β ⊕ γ)} {start : β} {result : β ⊕ γ} (address : Nat)
    (linked : Chain view heap.firstPageId chain) (steady : Steady bm view pins pages)
    (folds : foldRecords body start ((heapRecords view chain).map Prod.snd) = some result) :
    ∃ bm', (forRecords heap address body start).Returns bm result bm' ∧
      Steady bm' view pins pages := by
  obtain ⟨bm₁, began, steady₁⟩ := HeapIterator.begin_returns address linked steady
  obtain ⟨bm', ended, steady'⟩ :=
    forLoop_returns address linked (List.nil_append chain).symm rfl steady₁ folds
  exact ⟨bm', began.bind ended, steady'⟩

end HeapFile

namespace HeapState

open HeapFile
open SlottedPage (Layout Appended record numSlots)

/-- A page as a bin of byte strings. -/
def pageBin (view : Int → Option Page) (pageId : Int) : FirstFit.Bin (List UInt8) :=
  match view pageId with
  | some page => ⟨SlottedPage.freeSpace page headerSize, (slotsFrom pageId page 0).map Prod.snd⟩
  | none => ⟨0, []⟩

def bins (view : Int → Option Page) (chain : List Int) : List (FirstFit.Bin (List UInt8)) :=
  chain.map (pageBin view)

theorem contents_bins (view : Int → Option Page) (chain : List Int) :
    FirstFit.contents (bins view chain) = (heapRecords view chain).map Prod.snd := by
  induction chain with
  | nil => rfl
  | cons pageId rest ih =>
      rw [bins, List.map_cons, FirstFit.contents_cons, heapRecords, recordsFrom, List.map_append]
      unfold bins heapRecords at ih
      rw [ih, pageBin]
      cases view pageId <;> rfl

theorem pageBin_eq {view : Int → Option Page} {pageId : Int} {page : Page}
    (present : view pageId = some page) :
    pageBin view pageId =
      ⟨SlottedPage.freeSpace page headerSize, (slotsFrom pageId page 0).map Prod.snd⟩ := by
  rw [pageBin, present]

theorem pageBin_congr {view view' : Int → Option Page} {pageId : Int}
    (same : view' pageId = view pageId) : pageBin view' pageId = pageBin view pageId := by
  rw [pageBin, pageBin, same]

theorem bins_congr {view view' : Int → Option Page} {chain : List Int}
    (same : ∀ pageId ∈ chain, view' pageId = view pageId) : bins view' chain = bins view chain :=
  List.map_congr_left fun pageId member => pageBin_congr (same pageId member)

theorem bins_update {view : Int → Option Page} {pageId : Int} {page : Page} {before after : List Int}
    (distinct : (before ++ pageId :: after).Nodup) :
    bins (Function.update view pageId (some page)) (before ++ pageId :: after) =
      bins view before ++
        pageBin (Function.update view pageId (some page)) pageId :: bins view after := by
  have apart := List.nodup_append.mp distinct
  have once := (List.nodup_cons.mp apart.2.1).1
  have front : bins (Function.update view pageId (some page)) before = bins view before := by
    apply bins_congr
    intro other member
    rw [Function.update_of_ne (apart.2.2 other member pageId List.mem_cons_self)]
  have back : bins (Function.update view pageId (some page)) after = bins view after := by
    apply bins_congr
    intro other member
    have different : other ≠ pageId := fun same => once (same ▸ member)
    rw [Function.update_of_ne different]
  rw [← front, ← back, bins, List.map_append, List.map_cons]
  rfl

/-- The room `Insert` asks for is the space of the bin. -/
theorem room_eq {view : Int → Option Page} {pageId : Int} {data : List UInt8} {page : Page}
    (present : view pageId = some page) :
    room view data pageId = decide (data.length + 4 ≤ (pageBin view pageId).space) := by
  rw [room, present, pageBin_eq present]

theorem slotsFrom_appended {pageId : Int} {page page' : Page} {data : List UInt8}
    (appended : Appended page page' headerSize data) (layout : Layout page headerSize)
    (nonempty : data ≠ []) :
    slotsFrom pageId page' 0 =
      slotsFrom pageId page 0 ++ [(⟨pageId, numSlots page headerSize⟩, data)] := by
  have new : record page' headerSize (numSlots page headerSize) = some data := by
    rw [appended.record_new, SlottedPage.visible, if_neg nonempty]
  rw [slotsFrom, slotsFrom, appended.numSlots_eq, Nat.sub_zero, Nat.sub_zero,
    ← List.range_eq_range', ← List.range_eq_range', List.range_succ, List.filterMap_append]
  congr 1
  · apply List.filterMap_congr
    intro slot member
    rw [appended.record_old layout slot (List.mem_range.mp member)]
  · rw [List.filterMap_cons, new]
    rfl

theorem slotsFrom_linked {pageId next : Int} {page : Page} (layout : Layout page headerSize) :
    slotsFrom pageId (setNextPageId page next) 0 = slotsFrom pageId page 0 := by
  rw [slotsFrom, slotsFrom, setNextPageId_numSlots]
  apply List.filterMap_congr
  intro slot _
  rw [setNextPageId_record _ _ _ layout]

theorem pageBin_appended {view : Int → Option Page} {pageId : Int} {page page' : Page}
    {data : List UInt8} (present : view pageId = some page)
    (appended : Appended page page' headerSize data) (layout : Layout page headerSize)
    (fits : data.length + 4 ≤ SlottedPage.freeSpace page headerSize) (nonempty : data ≠ []) :
    pageBin (Function.update view pageId (some page')) pageId =
      ⟨(pageBin view pageId).space - (data.length + 4), (pageBin view pageId).items ++ [data]⟩ := by
  rw [pageBin_eq (Function.update_self _ _ _), pageBin_eq present, appended.freeSpace layout fits,
    slotsFrom_appended appended layout nonempty, List.map_append]
  rfl

theorem pageBin_linked {view : Int → Option Page} {pageId next : Int} {page : Page}
    (present : view pageId = some page) (layout : Layout page headerSize) :
    pageBin (Function.update view pageId (some (setNextPageId page next))) pageId =
      pageBin view pageId := by
  rw [pageBin_eq (Function.update_self _ _ _), pageBin_eq present, slotsFrom_linked layout,
    SlottedPage.freeSpace_eq _ _ (setNextPageId_layout page next layout),
    SlottedPage.freeSpace_eq _ _ layout, SlottedPage.directoryEnd, SlottedPage.directoryEnd,
    setNextPageId_numSlots, setNextPageId_freeSpaceOffset]

theorem pageBin_made {view : Int → Option Page} {pageId : Int} {raw : Page}
    (present : view pageId = some (initHeapPage raw)) : pageBin view pageId = ⟨8180, []⟩ := by
  rw [pageBin_eq present, initHeapPage_freeSpace,
    slotsFrom_outside (Nat.le_of_eq (initHeapPage_numSlots raw)), List.map_nil]

theorem pageBin_fresh {view : Int → Option Page} {pageId : Int} {data : List UInt8}
    {result : Option Rid} {page : Page} (fresh : FreshPage data pageId result page)
    (nonempty : data ≠ []) :
    pageBin (Function.update view pageId (some page)) pageId =
      if data.length ≤ 8176 then ⟨8180 - (data.length + 4), [data]⟩ else ⟨8180, []⟩ := by
  have made : ∀ raw, pageBin (Function.update view pageId (some (initHeapPage raw))) pageId =
      ⟨8180, []⟩ := fun raw => pageBin_made (Function.update_self _ _ _)
  cases fresh with
  | @placed raw _ fits appended =>
      have layout := initHeapPage_layout raw
      have room : data.length + 4 ≤ SlottedPage.freeSpace (initHeapPage raw) headerSize := by
        rw [initHeapPage_freeSpace]
        omega
      have known : Function.update view pageId (some (initHeapPage raw)) pageId =
          some (initHeapPage raw) := Function.update_self _ _ _
      have bin := pageBin_appended known appended layout room nonempty
      rw [Function.update_idem, made raw] at bin
      rw [if_pos fits]
      exact bin
  | @tooLong raw long => rw [if_neg (by omega), made raw]

variable {s s' : HeapState}

theorem freeSpace_le {page : Page} (layout : Layout page headerSize) :
    SlottedPage.freeSpace page headerSize ≤ 8180 := by
  have bounded := layout.bounded
  have size := SlottedPage.pageSize_eq
  have base : headerSize = 8 := rfl
  rw [SlottedPage.freeSpace_eq _ _ layout, SlottedPage.directoryEnd]
  omega

section Bins

variable {i : Nat} {data : List UInt8}

theorem Sound.room_space (sound : Sound s) {pageId : Int} (member : pageId ∈ s.chain i) :
    HeapFile.room s.view data pageId = decide (data.length + 4 ≤ (pageBin s.view pageId).space) := by
  obtain ⟨_, _, page, known, _⟩ := sound.page member
  exact room_eq known

/-- A record that is put on the first page with room. -/
theorem Sound.placed_bins (sound : Sound s) {pageId : Int} {page page' : Page}
    (first : (s.chain i).find? (HeapFile.room s.view data) = some pageId)
    (known : s.view pageId = some page) (appended : Appended page page' headerSize data)
    (nonempty : data ≠ []) :
    data.length ≤ 8176 ∧ bins (Function.update s.view pageId (some page')) (s.chain i) =
      FirstFit.insert 8180 (data.length + 4) data (bins s.view (s.chain i)) := by
  obtain ⟨_, _, page₁, known₁, layout⟩ := sound.page (List.mem_of_find?_eq_some first)
  rw [known] at known₁
  cases known₁
  obtain ⟨fits, before, after, split, passed⟩ := List.find?_eq_some_iff_append.mp first
  have roomy := (room_iff known).mp fits
  have small := freeSpace_le layout
  have distinct := sound.nodup i
  refine ⟨by omega, ?_⟩
  rw [split] at distinct ⊢
  have whole : bins s.view (before ++ pageId :: after) =
      bins s.view before ++ pageBin s.view pageId :: bins s.view after := by
    rw [bins, List.map_append, List.map_cons]
    rfl
  have here : data.length + 4 ≤ (pageBin s.view pageId).space := by
    rw [pageBin_eq known]
    exact roomy
  rw [bins_update distinct, pageBin_appended known appended layout roomy nonempty, whole,
    FirstFit.insert_skip, FirstFit.insert, if_pos here]
  intro bin member
  obtain ⟨other, among, rfl⟩ := List.mem_map.mp member
  have skipped := passed other among
  rw [sound.room_space (by rw [split]; exact List.mem_append_left _ among)] at skipped
  simpa using skipped

/-- A record that no page has room for makes the chain longer. -/
theorem Sound.grown_bins (sound : Sound s) {last : Int} {lastPage page : Page} {result : Option Rid}
    (full : (s.chain i).find? (HeapFile.room s.view data) = none)
    (isLast : (s.chain i).getLast? = some last) (known : s.view last = some lastPage)
    (fresh : FreshPage data s.pages result page) (nonempty : data ≠ []) :
    bins (s.withLastPage i last lastPage page).view ((s.withLastPage i last lastPage page).chain i) =
      if data.length ≤ 8176 then
        FirstFit.insert 8180 (data.length + 4) data (bins s.view (s.chain i))
      else bins s.view (s.chain i) ++ [⟨8180, []⟩] := by
  obtain ⟨_, older, page₁, known₁, layout⟩ := sound.page (List.mem_of_getLast? isLast)
  rw [known] at known₁
  cases known₁
  have old : bins (s.withLastPage i last lastPage page).view (s.chain i) =
      bins s.view (s.chain i) := by
    apply List.map_congr_left
    intro pageId member
    have inside := sound.inside i pageId member
    have notNew : pageId ≠ s.pages := by omega
    simp only [HeapState.withLastPage]
    rw [pageBin_congr (Function.update_of_ne notNew _ _)]
    by_cases here : pageId = last
    · rw [here]
      exact pageBin_linked known layout
    · exact pageBin_congr (Function.update_of_ne here _ _)
  have new : pageBin (s.withLastPage i last lastPage page).view s.pages = _ :=
    pageBin_fresh fresh nonempty
  have chain : (s.withLastPage i last lastPage page).chain i = s.chain i ++ [s.pages] :=
    Function.update_self _ _ _
  have tooFull : ∀ bin ∈ bins s.view (s.chain i), bin.space < data.length + 4 := by
    intro bin member
    obtain ⟨pageId, among, rfl⟩ := List.mem_map.mp member
    have refused := List.find?_eq_none.mp full pageId among
    rw [sound.room_space among] at refused
    simpa using refused
  rw [chain, bins, List.map_append, List.map_singleton, new]
  unfold bins at old tooFull ⊢
  rw [old]
  split
  · have skipped := @FirstFit.insert_skip _ 8180 _ [] _ data tooFull
    rw [List.append_nil] at skipped
    rw [skipped]
    rfl
  · rfl

/-- `Insert` is first fit on the pages of the chain; a record that is too long for a
page leaves an empty one behind. -/
theorem Effect.insert_bins {heap : HeapFile} {result : Option Rid}
    (effect : Effect (.insert i data) (.placed result) s s') (sound : Sound s)
    (present : s.heaps[i]? = some heap) (made : heap.firstPageId ≠ invalidPageId)
    (nonempty : data ≠ []) :
    bins s'.view (s'.chain i) =
      if data.length ≤ 8176 then
        FirstFit.insert 8180 (data.length + 4) data (bins s.view (s.chain i))
      else bins s.view (s.chain i) ++ [⟨8180, []⟩] := by
  cases effect with
  | first _ found lazy =>
      rw [present] at found
      cases found
      exact absurd lazy made
  | placed _ first known appended =>
      obtain ⟨short, placed⟩ := sound.placed_bins first known appended nonempty
      rw [if_pos short]
      exact placed
  | grown _ full isLast known fresh _ => exact sound.grown_bins full isLast known fresh nonempty

end Bins

end HeapState

end RelationalDb
