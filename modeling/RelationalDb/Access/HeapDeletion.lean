import RelationalDb.Access.HeapInsert
import RelationalDb.Access.HeapMaps
import RelationalDb.Access.HeapScan
import RelationalDb.Storage.SlotRecords

set_option autoImplicit false

namespace RelationalDb.World

open HeapFile
open SlottedPage (Layout Appended freeSpace numSlots slotLength)

variable {N : Nat} {w w' : World N} {s s' : HeapState} {log : List HeapEvent} {i : Nat} {rid : Rid}
  {data : List UInt8}

/-- No `Get` and no iterator gives the record. -/
structure Gone (w : World N) (i : Nat) (rid : Rid) : Prop where
  get : Reports w i rid none
  next : ∀ (it it' : HeapIterator) (record : Record N) bm',
    it.next.Returns w.bm (record, it') bm' → record.rid ≠ rid
  deref : ∀ (it : HeapIterator) (record : Record N) bm',
    it.deref.Returns w.bm record bm' → record.rid ≠ rid

/-- `Update` answers with false and changes nothing. -/
def Refuses (w : World N) (i : Nat) (rid : Rid) (data : List UInt8) : Prop :=
  ∃ w', (HeapOp.update i rid data).run.Returns w (.done false) w' ∧ w'.heaps = w.heaps ∧
    ∀ j < w.heaps.length, Unchanged j w w'

def Exceeds (w : World N) (rid : Rid) (data : List UInt8) : Prop :=
  ∃ page, w.bm.contents rid.pageId = some page ∧ freeSpace page headerSize < data.length

/-- A record that was fetched has the record id it was asked for. -/
theorem get_rid {bm bm' : BufferManager N DiskManager} {record : Record N}
    (fetched : (HeapFile.get rid).Returns bm (some record) bm') : record.rid = rid := by
  obtain ⟨frame, bm₁, _, rest⟩ := Program.returns_bind.mp fetched
  obtain ⟨page, bm₂, _, rest⟩ := Program.returns_bind.mp rest
  obtain ⟨_, bm₃, _, rest⟩ := Program.returns_bind.mp rest
  split at rest
  · cases rest
    rfl
  · cases rest

theorem value_get {bm bm' : BufferManager N DiskManager} {result : Option (Record N)}
    {record : Record N} (taken : (HeapIterator.value result).Returns bm record bm') :
    result = some record := by
  cases result with
  | none => cases taken
  | some fetched =>
      cases taken
      rfl

/-- What `HeapFile::Get` does not find no iterator gives. -/
theorem Gone.of_stored {pins : Int → Int} (shows : Shows w s pins) (known : s.Known i rid)
    (none : storedRecord s.view rid = none) : Gone w i rid := by
  obtain ⟨given, _, page, present, _⟩ := shows.sound.page known.1
  obtain ⟨result, bm₁, nothing, _, found⟩ := get_returns shows.steady given present
  have empty := found.bytes
  rw [← storedRecord_eq present, none, Option.map_eq_none_iff] at empty
  rw [empty] at nothing
  have apart : ∀ {record : Record N} {bm' : BufferManager N DiskManager} {other : Rid},
      (HeapFile.get other).Returns w.bm (some record) bm' → record.rid ≠ rid := by
    rintro record bm' other fetched same
    rw [get_rid fetched] at same
    rw [same] at fetched
    cases (nothing.value_eq fetched).1
  have reported := shows.reports known
  rw [none] at reported
  refine ⟨reported, ?_, ?_⟩
  · intro it it' record bm' ended
    unfold HeapIterator.next at ended
    split at ended
    · cases ended
    · obtain ⟨result, bm₂, fetched, rest⟩ := Program.returns_bind.mp ended
      obtain ⟨taken, bm₃, valued, rest⟩ := Program.returns_bind.mp rest
      obtain ⟨moved, bm₄, _, last⟩ := Program.returns_bind.mp rest
      cases last
      rw [value_get valued] at fetched
      exact apart fetched
  · intro it record bm' ended
    unfold HeapIterator.deref at ended
    split at ended
    · cases ended
    · obtain ⟨result, bm₂, fetched, valued⟩ := Program.returns_bind.mp ended
      rw [value_get valued] at fetched
      exact apart fetched

theorem update_answers {pins : Int → Int} (shows : Shows w s pins) (known : s.Known i rid)
    (data : List UInt8) {page : Page} (present : s.view rid.pageId = some page) :
    ∃ w', (HeapOp.update i rid data).run.Returns w
        (.done (SlottedPage.update page headerSize rid.slotId data).1) w' ∧
      Shows w' { s with
        view := if (SlottedPage.update page headerSize rid.slotId data).1 then
          Function.update s.view rid.pageId
            (some (SlottedPage.update page headerSize rid.slotId data).2) else s.view } pins := by
  obtain ⟨given, inside, page', present', layout⟩ := shows.sound.page known.1
  rw [present] at present'
  cases present'
  obtain ⟨refused, changed⟩ := update_changed present layout data
  obtain ⟨bm', edited, steady'⟩ := edit_returns shows.steady
    (fun page => SlottedPage.update page headerSize rid.slotId data) given inside present refused
  have bound := known.bound shows.sound
  have heapFound : w.heaps[i]? = some s.heaps[i] := by
    rw [shows.heaps]
    exact List.getElem?_eq_getElem bound
  exact ⟨⟨bm', w.heaps⟩, (heapAt_returns heapFound).bind ((onPool_returns edited).bind rfl),
    steady', shows.heaps, shows.sound.changed changed⟩

theorem gone_update_iff {page : Page} {slotId : Nat}
    (inside : slotId < numSlots page headerSize)
    (none : SlottedPage.record page headerSize slotId = none) :
    (SlottedPage.update page headerSize slotId data).1 = false ↔
      freeSpace page headerSize < data.length := by
  have empty : slotLength page headerSize slotId = 0 := by
    have absent := SlottedPage.record_isSome page headerSize slotId
    by_contra filled
    rw [none, SlottedPage.get, if_neg (by omega), if_neg filled] at absent
    cases absent
  have answer := SlottedPage.update_answer inside data
  rw [empty] at answer
  rw [← Bool.not_eq_true, answer]
  omega

theorem Shows.unchanged {pins : Int → Int} (shows : Shows w s pins) (shows' : Shows w' s pins) :
    w'.heaps = w.heaps ∧ ∀ j < w.heaps.length, Unchanged j w w' := by
  have heaps : w'.heaps = w.heaps := by rw [shows'.heaps, shows.heaps]
  have old := shows.steady.allocated
  have new := shows'.steady.allocated
  refine ⟨heaps, fun j bound => ⟨?_, ?_⟩⟩
  · have present := List.getElem?_eq_getElem bound
    have known : s.heaps[j]? = some w.heaps[j] := by rw [← shows.heaps, present]
    refine ⟨_, _, s.chain j, present, by rw [heaps, present],
      contents_chain shows.steady.toBacked shows.sound known,
      contents_chain shows'.steady.toBacked shows.sound known, fun pageId member => ?_⟩
    rw [shows.sound.contents_eq shows'.steady.toBacked member,
      shows.sound.contents_eq shows.steady.toBacked member]
  · rw [allocation, allocation, old.next, new.next, old.noneFree, new.noneFree]

theorem refuses_iff {pins : Int → Int} (shows : Shows w s pins) (known : s.Known i rid)
    (none : storedRecord s.view rid = none) (data : List UInt8) :
    Refuses w i rid data ↔ Exceeds w rid data := by
  obtain ⟨page, present, inside⟩ := known.2
  rw [storedRecord_eq present] at none
  have here := shows.sound.contents_eq shows.steady.toBacked known.1
  have exceeds_iff : Exceeds w rid data ↔ freeSpace page headerSize < data.length := by
    unfold Exceeds
    rw [here, present]
    simp
  have refused_iff := @gone_update_iff data page rid.slotId inside none
  obtain ⟨w', updated, shows'⟩ := update_answers shows known data present
  rw [exceeds_iff, ← refused_iff]
  constructor
  · rintro ⟨w'', refused, _⟩
    exact HeapAnswer.done.inj (updated.value_eq refused).1
  · intro refused
    rw [refused] at updated shows'
    exact ⟨w', updated, shows.unchanged shows'⟩

/-- Records that are gone are updated only with bytes for which their page has no space. -/
def deletionStep (log : List HeapEvent) (w : World N) (event : HeapEvent) (w' : World N) : Prop :=
  heapStep GivenRids log w event w' ∧
    ∀ i rid data, event.op = .update i rid data → (i, rid) ∈ deleted log → Exceeds w rid data

abbrev DeletionRun (start : World N) : List HeapEvent → World N → Prop :=
  Run deletionStep start

/-- Every record id that was deleted is one of its heap, and holds no record. -/
def DeletedState (log : List HeapEvent) (w : World N) (s : HeapState) : Prop :=
  RunState log w s ∧ ∀ entry ∈ deleted log,
    s.Known entry.1 entry.2 ∧ storedRecord s.view entry.2 = none

theorem deleted_cases {op : HeapOp} {answer : HeapAnswer} {entry : Nat × Rid}
    (member : entry ∈ deleted (⟨op, .ok answer⟩ :: log)) :
    entry ∈ deleted log ∨ op = .delete entry.1 entry.2 ∧ answer = .done true := by
  unfold deleted at member
  split at member
  · rename_i i rid isDelete isDone
    cases isDone
    rcases List.mem_cons.mp member with rfl | earlier
    · exact Or.inr ⟨isDelete, rfl⟩
    · exact Or.inl earlier
  · exact Or.inl member

/-- Only an update of the record itself could bring it back. -/
theorem recordAfter_none {op : HeapOp} {answer : HeapAnswer}
    (spared : ∀ j data, op = .update j rid data → answer ≠ .done true) :
    HeapState.recordAfter op answer rid none = none := by
  cases op with
  | update j other data =>
      cases answer with
      | done success =>
          by_cases here : rid = other
          · subst here
            have refused : success ≠ true := fun done => spared j data rfl (by rw [done])
            simp [HeapState.recordAfter, refused]
          · cases success <;> simp [HeapState.recordAfter, here]
      | made _ => rfl
      | placed _ => rfl
      | found _ => rfl
  | delete j other =>
      cases answer with
      | done success => cases success <;> simp [HeapState.recordAfter]
      | made _ => rfl
      | placed _ => rfl
      | found _ => rfl
  | create _ => rfl
  | openEmpty _ => rfl
  | insert _ _ => rfl
  | get _ _ => rfl

theorem DeletedState.step (holds : DeletedState log w s) {event : HeapEvent}
    (taken : deletionStep log w event w') : ∃ s', DeletedState (event :: log) w' s' := by
  obtain ⟨⟨ended, given, unwrapped⟩, spared⟩ := taken
  obtain ⟨op, outcome⟩ := event
  obtain ⟨answer, s', same, effect, holds'⟩ := holds.1.step ⟨ended, given, unwrapped⟩
  obtain rfl : outcome = .ok answer := same
  have sound := holds.1.1.sound
  refine ⟨s', holds', fun entry member => ?_⟩
  rcases deleted_cases member with earlier | ⟨isDelete, isDone⟩
  · obtain ⟨known, none⟩ := holds.2 entry earlier
    refine ⟨effect.known sound known, ?_⟩
    rw [effect.record sound known, none]
    apply recordAfter_none
    rintro j data rfl rfl
    have owner : j = entry.1 := (holds.1.2 (j, entry.2) given.1).heap_eq known sound
    subst owner
    obtain ⟨w'', refused, _⟩ := (refuses_iff holds.1.1 known none data).mpr
      (spared entry.1 entry.2 data rfl earlier)
    cases refused.symm.trans ended
  · subst isDelete isDone
    have known := holds.1.2 _ given
    refine ⟨effect.known sound known, ?_⟩
    rw [effect.record sound known]
    simp [HeapState.recordAfter]

theorem deletedState [NeZero N] {raw : Fin N → Page} {file : File}
    (small : file.size / pageSize < 2 ^ 31) (run : DeletionRun (start raw file) log w) :
    ∃ s, DeletedState log w s := by
  apply run.invariant fun log w => ∃ s, DeletedState log w s
  · obtain ⟨s, holds⟩ := runState small (Run.nil : HeapRun GivenRids (start raw file) [] _)
    exact ⟨s, holds, fun _ member => by cases member⟩
  · rintro log w event w' _ ⟨s, holds⟩ taken
    exact holds.step taken

/-- A record that was deleted stays gone while nobody updates it with bytes that fit, and such
updates are all that is not refused. -/
theorem deleted_stays [NeZero N] {raw : Fin N → Page} {file : File}
    (small : file.size / pageSize < 2 ^ 31) (run : DeletionRun (start raw file) log w)
    (gone : (i, rid) ∈ deleted log) :
    Gone w i rid ∧ ∀ data, Refuses w i rid data ↔ Exceeds w rid data := by
  obtain ⟨s, holds⟩ := deletedState small run
  obtain ⟨known, none⟩ := holds.2 _ gone
  exact ⟨.of_stored holds.1.1 known none, refuses_iff holds.1.1 known none⟩

theorem first_page {raw : Page} {heaps : List HeapFile} {heap : HeapFile} {answer : HeapAnswer}
    (present : heaps[i]? = some heap) (made : heap.firstPageId ≠ invalidPageId)
    (fits : data.length ≤ 8176)
    (effect : HeapState.Effect (.insert i data) answer (s.withFirstPage i heaps raw) s') :
    ∃ page, s'.view s.pages = some page ∧ Appended (initHeapPage raw) page headerSize data ∧
      s'.chain i = [s.pages] := by
  have known : (s.withFirstPage i heaps raw).view s.pages = some (initHeapPage raw) :=
    Function.update_self _ _ _
  have chain : (s.withFirstPage i heaps raw).chain i = [s.pages] := Function.update_self _ _ _
  cases effect with
  | first _ found lazy =>
      rw [show (s.withFirstPage i heaps raw).heaps[i]? = some heap from present] at found
      cases found
      exact absurd lazy made
  | @placed _ _ _ _ pageId page page' _ found here appended =>
      rw [chain] at found
      obtain rfl := List.mem_singleton.mp (List.mem_of_find?_eq_some found)
      rw [known] at here
      cases here
      exact ⟨page', Function.update_self _ _ _, appended, chain⟩
  | grown _ full =>
      have long := made_full_iff.mp full
      omega

/-- A deletion marks the slot on the page of the record. -/
theorem RunState.deletes (holds : RunState log w s) (given : (i, rid) ∈ issued log) {page : Page}
    (present : s.view rid.pageId = some page) :
    ∃ w', heapStep GivenRids log w ⟨.delete i rid, .ok (.done true)⟩ w' ∧
      RunState (⟨.delete i rid, .ok (.done true)⟩ :: log) w' { s with
        view := Function.update s.view rid.pageId
          (some (SlottedPage.delete page headerSize rid.slotId).2) } := by
  have known := holds.2 _ given
  have sound := holds.1.sound
  obtain ⟨pageGiven, inside, page', present', layout⟩ := sound.page known.1
  rw [present] at present'
  cases present'
  obtain ⟨same, changed, done_iff⟩ := delete_changed present layout
  obtain ⟨bm', edited, steady'⟩ := edit_returns holds.1.steady
    (fun page => SlottedPage.delete page headerSize rid.slotId) pageGiven inside present same
  obtain ⟨current, here, slotInside⟩ := known.2
  rw [present] at here
  cases here
  have done := done_iff.mpr slotInside
  rw [done] at changed edited steady'
  simp only [↓reduceIte] at changed steady'
  have effect : HeapState.Effect (.delete i rid) (.done true) s { s with
      view := Function.update s.view rid.pageId
        (some (SlottedPage.delete page headerSize rid.slotId).2) } := .delete known changed
  have bound := known.bound sound
  have heapFound : w.heaps[i]? = some s.heaps[i] := by
    rw [holds.1.heaps]
    exact List.getElem?_eq_getElem bound
  have unwrapped : 0 ≤ nextAllocated bm' := by
    rw [show nextAllocated bm' = s.pages from steady'.allocated.next]
    exact sound.given
  refine ⟨⟨bm', w.heaps⟩, ⟨(heapAt_returns heapFound).bind ((onPool_returns edited).bind rfl), given,
    unwrapped⟩, ⟨steady', holds.1.heaps, effect.sound sound⟩, fun entry member => ?_⟩
  exact effect.known sound (holds.2 entry member)

/-- The calls that make one heap with one record and delete the record. -/
def oneDeleted : List HeapEvent := ⟨.delete 0 ⟨0, 0⟩, .ok (.done true)⟩ :: oneRecord

/-- They run in every pool above an empty file, and leave space on the page. -/
theorem oneDeleted_run [NeZero N] : ∃ (w : World N) (s : HeapState) (page : Page),
    DeletionRun (start (fun _ _ => 0) File.empty) oneDeleted w ∧ RunState oneDeleted w s ∧
      s.view 0 = some page ∧ freeSpace page headerSize = 8175 := by
  obtain ⟨w₁, raw, created, first⟩ := @oneHeap_run N _
  have next : nextAllocated w₁.bm = 1 := first.1.steady.allocated.next
  have made : w₁.heaps.length = 1 := by rw [first.1.heaps]; rfl
  obtain ⟨answer, w₂, s₂, inserted, placed, second⟩ :=
    first.extend (.insert 0 [7]) (by decide : [7].length < 2 ^ 63)
      (fun i _ same => by cases same; omega) (by rw [next]; decide)
  obtain rfl : answer = .placed (some ⟨0, 0⟩) := first_answer rfl (by decide) placed
  obtain ⟨page, present, appended, _⟩ := first_page rfl (by decide) (by decide) placed
  have given : (0, (⟨0, 0⟩ : Rid)) ∈ issued oneRecord := List.mem_cons_self
  obtain ⟨w₃, erased, third⟩ := second.deletes given present
  have layout := initHeapPage_layout raw
  have room : [7].length + 4 ≤ freeSpace (initHeapPage raw) headerSize := by
    rw [initHeapPage_freeSpace]
    decide
  have before := appended.freeSpace layout room
  have after : freeSpace (SlottedPage.delete page headerSize 0).2 headerSize = 8175 := by
    rw [SlottedPage.delete_freeSpace (appended.layout layout room), before, initHeapPage_freeSpace]
    rfl
  have run : DeletionRun (start (fun _ _ => 0) File.empty) oneDeleted w₃ :=
    ((Run.nil.cons ⟨created, fun _ _ _ isUpdate => by cases isUpdate⟩).cons
      ⟨inserted, fun _ _ _ isUpdate => by cases isUpdate⟩).cons
      ⟨erased, fun _ _ _ isUpdate => by cases isUpdate⟩
  refine ⟨w₃, _, (SlottedPage.delete page headerSize 0).2, run, third, ?_, after⟩
  show Function.update s₂.view 0 _ 0 = _
  exact Function.update_self _ _ _

theorem deleted_stays_one : ∃ w : World 1, Gone w 0 ⟨0, 0⟩ ∧
    ∀ data, Refuses w 0 ⟨0, 0⟩ data ↔ Exceeds w ⟨0, 0⟩ data := by
  obtain ⟨w, _, _, run, _⟩ := @oneDeleted_run 1 _
  exact ⟨w, deleted_stays (by decide) run List.mem_cons_self⟩

/-- After an update of one byte `Get` finds a record that was deleted. -/
theorem deleted_comes_back : ∃ (log : List HeapEvent) (w : World bufferPoolSize),
    HeapRun GivenRids (start (fun _ _ => 0) File.empty) log w ∧ (0, ⟨0, 0⟩) ∈ deleted log ∧
      Reports w 0 ⟨0, 0⟩ (some [8]) := by
  obtain ⟨w, s, page, run, holds, present, space⟩ := @oneDeleted_run bufferPoolSize _
  have given : (0, (⟨0, 0⟩ : Rid)) ∈ issued oneDeleted := List.mem_cons_self
  have known := holds.2 _ given
  obtain ⟨w', updated, shows'⟩ := update_answers holds.1 known [8] present
  obtain ⟨current, here, inside⟩ := known.2
  rw [present] at here
  cases here
  rw [(SlottedPage.update_answer inside [8]).mpr (Or.inr (by rw [space]; decide))] at updated
  have taken : heapStep GivenRids oneDeleted w ⟨.update 0 ⟨0, 0⟩ [8], .ok (.done true)⟩ w' :=
    ⟨updated, ⟨given, by decide⟩, shows'.unwrapped⟩
  obtain ⟨answer, s', same, effect, after⟩ := holds.step taken
  cases same
  have reported := after.1.reports (after.2 _ given)
  rw [effect.record holds.1.sound known] at reported
  exact ⟨_, w', (run.mono fun _ _ _ _ taken => taken.1).cons taken, List.mem_cons_self, reported⟩

end RelationalDb.World
