import RelationalDb.Access.HeapExhaustion

set_option autoImplicit false

namespace RelationalDb

open HeapFile
open BufferManager (Settled Crowded)

namespace HeapFile

variable {N : Nat} {bm bm' : BufferManager N DiskManager} {view : Int → Option Page}
  {pins : Int → Int} {pages : Int}

theorem create_crowded (settled : Settled bm view pins pages) (crowded : Crowded bm)
    (more : pages + 1 < 2 ^ 31) (fileId : Uuid) :
    (∃ raw bm', (create fileId).Returns bm ⟨fileId, pages⟩ bm' ∧
      Settled bm' (Function.update view pages (some (initHeapPage raw))) pins (pages + 1)) ∨
    ∃ bm', (create fileId).Throws bm noCandidates bm' ∧ Settled bm' view pins (pages + 1) := by
  have lower := settled.allocated.lower
  have allocated := allocatePage_takes settled.allocated.next settled.allocated.noneFree
  rw [toInt32_of_bounds (by omega) more] at allocated
  have settled₁ := settled.allocate more
  cases cached : bm.pageTable pages with
  | some frame =>
      left
      obtain ⟨policy, initialised⟩ := initPage_held settled₁ crowded cached
      exact ⟨_, _, allocated.bind (initialised.bind (Program.pure_returns _ _)),
        (settled₁.written cached (by omega) _).setPolicy policy⟩
  | none =>
      right
      have refused := settled₁.request_crowded crowded cached
      have stopped : (initPage pages : Heap N Unit).Throws _ noCandidates _ := refused.bind
      refine ⟨_, ?_, settled₁⟩
      unfold Program.Throws create
      rw [allocated.bind_eq]
      exact stopped.bind

theorem create_takes (settled : Settled bm view pins pages) {fileId : Uuid}
    {outcome : Except Error HeapFile} (ended : create fileId bm = some (outcome, bm'))
    (unwrapped : 0 ≤ nextAllocated bm') : pages + 1 < 2 ^ 31 := by
  unfold create at ended
  rw [(allocatePage_takes settled.allocated.next settled.allocated.noneFree).bind_eq] at ended
  obtain ⟨result, initialised, _⟩ := Program.answer_eq_some.mp ended
  have kept : nextAllocated bm' = toInt32 (pages + 1) :=
    (initPage_keeps pages).map Prod.fst _ _ _ initialised
  rw [kept] at unwrapped
  exact allocated_unwrapped settled.allocated unwrapped

end HeapFile

theorem HeapState.Sound.skip {s : HeapState} (sound : s.Sound) (more : s.pages + 1 < 2 ^ 31) :
    HeapState.Sound { s with pages := s.pages + 1 } := by
  have given := sound.given
  refine ⟨sound.linked, sound.beyond, sound.nodup, sound.apart, ?_, ?_, more⟩
  · intro i pageId member
    have inside := sound.inside i pageId member
    show pageId < s.pages + 1
    omega
  · show 0 ≤ s.pages + 1
    omega

namespace World

variable {N : Nat} {w w' : World N} {log : List SharedEvent} {s : HeapState} {pins : Int → Int}
  {i : Nat} {heap : HeapFile} {data : List UInt8}

section Ends

variable {answered : Except Error HeapAnswer}

theorem firstPage_valid (i : Nat) (valid : heap.firstPageId ≠ invalidPageId) :
    (firstPage i heap).Returns w heap w := by
  simp only [firstPage, valid, ↓reduceIte]
  exact Program.pure_returns _ _

theorem insert_valid_ends (present : w.heaps[i]? = some heap)
    (valid : heap.firstPageId ≠ invalidPageId)
    (ended : (HeapOp.insert i data).run w = some (answered, w')) :
    ∃ outcome bm', insertRecord heap data w.bm = some (outcome, bm') ∧ w' = ⟨bm', w.heaps⟩ ∧
      answered = outcome.map .placed := by
  simp only [HeapOp.run] at ended
  rw [(heapAt_returns present).bind_eq, (firstPage_valid i valid).bind_eq] at ended
  obtain ⟨outcome, placed, mapped⟩ := Program.answer_eq_some.mp ended
  obtain ⟨bm', inner, rfl⟩ := onPool_ends placed
  exact ⟨outcome, bm', inner, rfl, mapped.symm⟩

/-- An insertion into a heap without a first page is one on the pool, once the heap has one. -/
theorem insert_lazy_ends (present : w.heaps[i]? = some heap)
    (lazy : heap.firstPageId = invalidPageId) {pageId : Int} {bm₁ : BufferManager N DiskManager}
    (allocated : Program.Returns HeapFile.allocatePage w.bm pageId bm₁)
    (ended : (HeapOp.insert i data).run w = some (answered, w')) :
    ∃ outcome bm', (initPage pageId >>= fun _ =>
        insertRecord { heap with firstPageId := pageId } data : Heap N (Option Rid)) bm₁ =
          some (outcome, bm') ∧
      w' = ⟨bm', w.heaps.set i { heap with firstPageId := pageId }⟩ ∧
      answered = outcome.map .placed := by
  have first : firstPage i heap w = (onPool (initPage pageId) >>= fun _ =>
      return { heap with firstPageId := pageId } : Program (World N) Error HeapFile)
        ⟨bm₁, w.heaps.set i { heap with firstPageId := pageId }⟩ := by
    simp only [firstPage, lazy, ↓reduceIte]
    rw [(onPool_returns allocated).bind_eq, (setHeap_returns i _).bind_eq]
  simp only [HeapOp.run] at ended
  rw [(heapAt_returns present).bind_eq] at ended
  rcases Program.bind_cases ended with ⟨heap', w₁, ensured, rest⟩ | ⟨reason, stopped, rfl⟩
  · rw [Program.Returns, first] at ensured
    obtain ⟨_, w₂, initialised, last⟩ := Program.returns_bind.mp ensured
    obtain ⟨rfl, rfl⟩ := (Program.returns_pure _ _ _ _).mp last
    obtain ⟨bm₂, inner, rfl⟩ := onPool_ends initialised
    obtain ⟨outcome, placed, mapped⟩ := Program.answer_eq_some.mp rest
    obtain ⟨bm', inner', rfl⟩ := onPool_ends placed
    refine ⟨outcome, bm', ?_, rfl, mapped.symm⟩
    rw [Program.Returns.bind_eq inner]
    exact inner'
  · rw [Program.Throws, first] at stopped
    rcases Program.bind_cases stopped with ⟨_, w₂, _, last⟩ | ⟨_, failed, same⟩
    · cases last
    · cases same
      obtain ⟨bm', inner, rfl⟩ := onPool_ends failed
      exact ⟨_, bm', Program.Throws.bind inner, rfl, rfl⟩

theorem heapAt_ends {α : Type} {next : HeapFile → Program (World N) Error α}
    {outcome : Except Error α} (ended : (heapAt i >>= next) w = some (outcome, w')) :
    ∃ heap, w.heaps[i]? = some heap ∧ next heap w = some (outcome, w') := by
  cases present : w.heaps[i]? with
  | none =>
      have missing : (heapAt i : Program (World N) Error HeapFile) w = none := by
        rw [heapAt, present]
        rfl
      simp only [bind, missing] at ended
      cases ended
  | some heap =>
      rw [(heapAt_returns present).bind_eq] at ended
      exact ⟨heap, rfl, ended⟩

end Ends

/-- Heap `i` has a first page, and some page of its chain is in no frame. -/
def Interrupted (i : Nat) (w : World N) : Prop :=
  ∃ heap, w.heaps[i]? = some heap ∧ heap.firstPageId ≠ invalidPageId ∧
    ∃ pageId, Reaches w.bm.contents heap.firstPageId pageId ∧ w.bm.pageTable pageId = none

def OnlyInterrupted (w : World N) (op : HeapOp) (outcome : Except Error HeapAnswer) : Prop :=
  ∀ i data, op = .insert i data → outcome = .error noCandidates → Interrupted i w

section Crowded

/-- A call that failed leaves the heap files. -/
theorem SharedState.failed (holds : SharedState log w s pins) {bm' : BufferManager N DiskManager}
    (settled : Settled bm' s.view pins s.pages) (op : HeapOp) (reason : Error) :
    SharedState (⟨.heap op, .error reason⟩ :: log) ⟨bm', w.heaps⟩ s pins :=
  holds.pinned settled rfl

variable (holds : SharedState log w s pins) (crowded : Crowded w.bm)

include holds crowded

theorem SharedState.create_crowded {fileId : Uuid} {outcome : Except Error HeapAnswer}
    (ended : (HeapOp.create fileId).run w = some (outcome, w')) (unwrapped : 0 ≤ nextAllocated w'.bm) :
    ∃ s', SharedState (⟨.heap (.create fileId), outcome.map some⟩ :: log) w' s' pins := by
  have more : s.pages + 1 < 2 ^ 31 := by
    rcases Program.bind_cases ended with ⟨heap, w₁, created, rest⟩ | ⟨_, created, _⟩
    · obtain ⟨bm', inner, rfl⟩ := onPool_ends created
      cases rest
      exact create_takes holds.settled inner unwrapped
    · obtain ⟨bm', inner, rfl⟩ := onPool_ends created
      exact create_takes holds.settled inner unwrapped
  rcases HeapFile.create_crowded holds.settled crowded more fileId with
    ⟨raw, bm', created, settled⟩ | ⟨bm', thrown, settled⟩
  · have returned : (HeapOp.create fileId).run.Returns w (.made w.heaps.length)
        ⟨bm', w.heaps ++ [⟨fileId, s.pages⟩]⟩ := (onPool_returns created).bind rfl
    cases returned.symm.trans ended
    rw [holds.heaps]
    exact ⟨_, holds.answered (.create raw more) settled rfl⟩
  · have stopped : (HeapOp.create fileId).run.Throws w noCandidates ⟨bm', w.heaps⟩ :=
      (onPool_throws thrown).bind
    cases stopped.symm.trans ended
    exact ⟨{ s with pages := s.pages + 1 }, settled, holds.heaps, holds.sound.skip more, holds.known,
      holds.created⟩

theorem SharedState.get_crowded {rid : Rid} (known : s.Known i rid)
    {outcome : Except Error HeapAnswer} (ended : (HeapOp.get i rid).run w = some (outcome, w')) :
    SharedState (⟨.heap (.get i rid), outcome.map some⟩ :: log) w' s pins := by
  simp only [HeapOp.run] at ended
  obtain ⟨heap, _, ended⟩ := heapAt_ends ended
  obtain ⟨member, page, present, _⟩ := known
  cases cached : w.bm.pageTable rid.pageId with
  | some frame =>
      obtain ⟨result, policy, fetched, bytes⟩ := get_held holds.settled crowded present cached
      rw [(onPool_returns fetched).bind_eq] at ended
      cases ended
      have effect : HeapState.Effect (.get i rid) (.found (storedRecord s.view rid)) s s := .get
      rw [storedRecord_eq present, ← bytes] at effect
      exact holds.answered effect (holds.settled.setPolicy policy) holds.heaps
  | none =>
      have stopped : (HeapFile.get rid : Heap N (Option (Record N))).Throws w.bm noCandidates w.bm :=
        (holds.settled.request_crowded crowded cached).bind
      cases (onPool_throws stopped).bind.symm.trans ended
      exact holds.failed holds.settled _ _

theorem SharedState.edit_crowded {rid : Rid} {page : Page} {change : Page → Bool × Page}
    {op : HeapOp} (runs : op.run = (do
      let _ ← heapAt i
      return .done (← onPool (edit rid.pageId change)) : Program (World N) Error HeapAnswer))
    (inside : rid.pageId < s.pages) (present : s.view rid.pageId = some page)
    (refused : (change page).1 = false → (change page).2 = page)
    (effect : HeapState.Effect op (.done (change page).1) s { s with
      view := if (change page).1 then Function.update s.view rid.pageId (some (change page).2)
        else s.view })
    {outcome : Except Error HeapAnswer} (ended : op.run w = some (outcome, w')) :
    ∃ s', SharedState (⟨.heap op, outcome.map some⟩ :: log) w' s' pins := by
  rw [runs] at ended
  obtain ⟨heap, _, ended⟩ := heapAt_ends ended
  cases cached : w.bm.pageTable rid.pageId with
  | some frame =>
      obtain ⟨bm', edited, settled⟩ :=
        edit_held holds.settled crowded change inside present refused cached
      rw [(onPool_returns edited).bind_eq] at ended
      cases ended
      exact ⟨_, holds.answered effect settled holds.heaps⟩
  | none =>
      have stopped : (edit rid.pageId change : Heap N Bool).Throws w.bm noCandidates w.bm :=
        (holds.settled.request_crowded crowded cached).bind
      cases (onPool_throws stopped).bind.symm.trans ended
      exact ⟨s, holds.failed holds.settled _ _⟩

theorem SharedState.insert_valid_crowded (present : w.heaps[i]? = some heap)
    (valid : heap.firstPageId ≠ invalidPageId) (bounded : data.length < 2 ^ 63)
    {outcome : Except Error HeapAnswer}
    (ended : (HeapOp.insert i data).run w = some (outcome, w')) (unwrapped : 0 ≤ nextAllocated w'.bm)
    (interrupted : OnlyInterrupted w (.insert i data) outcome) :
    ∃ s', SharedState (⟨.heap (.insert i data), outcome.map some⟩ :: log) w' s' pins := by
  have known : s.heaps[i]? = some heap := by rw [← holds.heaps, present]
  have linked := contents_chain holds.settled.toBacked holds.sound known
  obtain ⟨result, bm', inner, rfl, rfl⟩ := insert_valid_ends present valid ended
  rcases insertRecord_crowded holds.settled crowded holds.sound known valid bounded inner unwrapped
    with ⟨rid, s', rfl, effect, settled, heaps⟩ | ⟨rfl, ⟨policy, rfl⟩, _⟩ | ⟨rfl, all, _⟩
  · exact ⟨s', holds.answered effect settled (by rw [heaps]; exact holds.heaps)⟩
  · exact ⟨s, holds.failed (holds.settled.setPolicy policy) _ _⟩
  · obtain ⟨other, found, _, pageId, reaches, absent⟩ := interrupted i data rfl rfl
    rw [present] at found
    cases found
    exact absurd absent (all pageId (linked.reached reaches))

/-- A heap without a first page gets one that is in a frame, if any. -/
theorem SharedState.insert_lazy_crowded (present : w.heaps[i]? = some heap)
    (lazy : heap.firstPageId = invalidPageId) (bounded : data.length < 2 ^ 63)
    {outcome : Except Error HeapAnswer}
    (ended : (HeapOp.insert i data).run w = some (outcome, w')) (unwrapped : 0 ≤ nextAllocated w'.bm) :
    (∃ rid s', outcome = .ok (.placed rid) ∧ HeapState.Effect (.insert i data) (.placed rid) s s' ∧
      Settled w'.bm s'.view pins s'.pages ∧ w'.heaps = s'.heaps) ∨
    (outcome = .error noCandidates ∧ ∃ heap' pageId, w'.heaps[i]? = some heap' ∧
      Reaches w'.bm.contents heap'.firstPageId pageId ∧ w'.bm.contents pageId = none) := by
  have known : s.heaps[i]? = some heap := by rw [← holds.heaps, present]
  have lower := holds.settled.allocated.lower
  have allocated := allocatePage_takes holds.settled.allocated.next
    holds.settled.allocated.noneFree
  have more : s.pages + 1 < 2 ^ 31 := by
    obtain ⟨result, inner⟩ := insert_ends present ended
    have upper := holds.settled.allocated.upper
    by_contra full
    have last : s.pages = 2 ^ 31 - 1 := by omega
    have after := insert_lazy_next lazy allocated inner
    have wrapped : toInt32 (s.pages + 1) = - 2 ^ 31 := by
      rw [last]
      decide
    have negative : toInt32 (- 2 ^ 31 + 1) < 0 := by decide
    simp only [nextAllocated] at after unwrapped
    rw [wrapped] at after
    omega
  rw [toInt32_of_bounds (by omega) more] at allocated
  have settled₁ := holds.settled.allocate more
  have valid : s.pages ≠ invalidPageId := by
    intro same
    rw [same] at lower
    cases lower
  obtain ⟨result, bm', inner, rfl, rfl⟩ := insert_lazy_ends present lazy allocated ended
  have there := List.getElem?_set_self (a := { heap with firstPageId := s.pages })
    (List.getElem?_eq_some_iff.mp present).1
  cases cached : w.bm.pageTable s.pages with
  | none =>
      have stopped : (initPage s.pages : Heap N Unit).Throws _ noCandidates _ :=
        (settled₁.request_crowded crowded cached).bind
      cases stopped.bind.symm.trans inner
      refine Or.inr ⟨rfl, _, s.pages, there, .here valid, ?_⟩
      exact (BufferManager.contents_uncached cached).trans (stored_new holds.settled rfl)
  | some frame =>
      obtain ⟨policy, initialised⟩ := initPage_held settled₁ crowded cached
      let raw := (w.bm.pool frame).data
      let s₁ := s.withFirstPage i (s.heaps.set i { heap with firstPageId := s.pages }) raw
      let bm₂ := (({ w.bm with disk := { w.bm.disk with nextPageId := s.pages + 1 } } :
        BufferManager N DiskManager).written frame (initHeapPage raw)).setPolicy policy
      have settled₂ : Settled bm₂ s₁.view pins s₁.pages :=
        (settled₁.written cached (by omega) (initHeapPage raw)).setPolicy policy
      have crowded₂ : Crowded bm₂ := crowded.written frame _
      have sound₁ : s₁.Sound := holds.sound.made known more
      have present₁ := List.getElem?_set_self (a := { heap with firstPageId := s.pages })
        (List.getElem?_eq_some_iff.mp known).1
      rw [initialised.bind_eq] at inner
      rcases insertRecord_crowded settled₂ crowded₂ sound₁ present₁ valid bounded inner unwrapped with
        ⟨rid, s', rfl, effect, settled, heaps⟩ | ⟨rfl, _, pageId, member, absent⟩ |
          ⟨rfl, _, pageId, reached, nowhere⟩
      · refine Or.inl ⟨rid, s', rfl, .first raw known lazy more effect, settled, ?_⟩
        rw [heaps, holds.heaps]
        rfl
      · have only : pageId = s.pages := by
          simpa [s₁, HeapState.withFirstPage] using member
        rw [only] at absent
        cases cached.symm.trans (show w.bm.pageTable s.pages = none from absent)
      · exact Or.inr ⟨rfl, _, pageId, there, reached, nowhere⟩

theorem SharedState.step_crowded {op : HeapOp} {outcome : Except Error HeapAnswer}
    (given : GivenRids (heapCalls log) op) (ended : op.run w = some (outcome, w'))
    (unwrapped : 0 ≤ nextAllocated w'.bm) (interrupted : OnlyInterrupted w op outcome) :
    ∃ s', SharedState (⟨.heap op, outcome.map some⟩ :: log) w' s' pins := by
  have allowed := GivenRids.allowed given holds.known
  cases op with
  | create fileId => exact holds.create_crowded crowded ended unwrapped
  | openEmpty fileId =>
      have returned : (HeapOp.openEmpty fileId).run.Returns w (.made w.heaps.length)
          ⟨w.bm, w.heaps ++ [⟨fileId, invalidPageId⟩]⟩ := rfl
      cases returned.symm.trans ended
      rw [holds.heaps]
      exact ⟨_, holds.answered .openEmpty holds.settled rfl⟩
  | insert i data =>
      obtain ⟨heap, present, _⟩ := heapAt_ends ended
      by_cases lazy : heap.firstPageId = invalidPageId
      · rcases holds.insert_lazy_crowded crowded present lazy allowed ended unwrapped with
          ⟨rid, s', rfl, effect, settled, heaps⟩ | ⟨rfl, _⟩
        · exact ⟨s', holds.answered effect settled heaps⟩
        · obtain ⟨other, found, valid, _⟩ := interrupted i data rfl rfl
          rw [present] at found
          cases found
          exact absurd lazy valid
      · exact holds.insert_valid_crowded crowded present lazy allowed ended unwrapped interrupted
  | get i rid => exact ⟨s, holds.get_crowded crowded allowed ended⟩
  | update i rid data =>
      obtain ⟨given, inside, page, present, layout⟩ := holds.sound.page allowed.1
      obtain ⟨refused, changed⟩ := update_changed present layout data
      exact holds.edit_crowded crowded rfl inside present refused (.update allowed changed) ended
  | delete i rid =>
      obtain ⟨given, inside, page, present, layout⟩ := holds.sound.page allowed.1
      obtain ⟨refused, changed, success_iff⟩ := delete_changed present layout
      obtain ⟨page', present', slotInside⟩ := allowed.2
      rw [present] at present'
      cases present'
      have done := success_iff.mpr slotInside
      have effect : HeapState.Effect (.delete i rid)
          (.done (SlottedPage.delete page headerSize rid.slotId).1) s { s with
            view := if (SlottedPage.delete page headerSize rid.slotId).1 then
              Function.update s.view rid.pageId
                (some (SlottedPage.delete page headerSize rid.slotId).2) else s.view } := by
        rw [done] at changed ⊢
        exact .delete allowed changed
      exact holds.edit_crowded crowded rfl inside present refused effect ended

end Crowded

/-- Calls on heap files find usable frames or not; an insertion that fails is interrupted. -/
def CrowdedGuard (log : List SharedEvent) (w : World N) : SharedOp → Prop
  | .heap op => GivenRids (heapCalls log) op
  | .request pageId => 0 ≤ pageId ∧ w.bm.pins pageId + 1 < 2 ^ 31 - 1
  | .release pageId => 0 < w.bm.pins pageId

def crowdedStep (log : List SharedEvent) (w : World N) (event : SharedEvent) (w' : World N) : Prop :=
  event.op.run w = some (event.outcome, w') ∧ CrowdedGuard log w event.op ∧ 0 ≤ nextAllocated w'.bm ∧
    ∀ i data, event.op = .heap (.insert i data) → event.outcome = .error noCandidates →
      Interrupted i w

abbrev CrowdedRun (start : World N) : List SharedEvent → World N → Prop :=
  Run crowdedStep start

/-- With a usable frame a step is one of the runs in which each call finds one. -/
theorem SharedState.crowdedStep (holds : SharedState log w s pins) {event : SharedEvent}
    (taken : crowdedStep log w event w') : ∃ s' pins', SharedState (event :: log) w' s' pins' := by
  obtain ⟨op, outcome⟩ := event
  obtain ⟨ended, given, unwrapped, interrupted⟩ := taken
  cases op with
  | heap op =>
      rcases holds.settled.steady_or_crowded with steady | crowded
      · exact holds.step ⟨ended, ⟨given, steady.evictable⟩, unwrapped⟩
      · obtain ⟨result, inner, rfl⟩ := Program.answer_eq_some.mp ended
        have interrupted : OnlyInterrupted w op result := by
          rintro i data rfl rfl
          exact interrupted i data rfl rfl
        obtain ⟨s', holds'⟩ := holds.step_crowded crowded given inner unwrapped interrupted
        exact ⟨s', pins, holds'⟩
  | request pageId => exact holds.step ⟨ended, given, unwrapped⟩
  | release pageId => exact holds.step ⟨ended, given, unwrapped⟩

theorem crowdedState [NeZero N] {raw : Fin N → Page} {file : File}
    (small : file.size / pageSize < 2 ^ 31) (run : CrowdedRun (start raw file) log w) :
    ∃ s pins, SharedState log w s pins := by
  induction run with
  | nil => exact sharedState small .nil
  | cons _ taken ih =>
      obtain ⟨s, pins, holds⟩ := ih
      exact holds.crowdedStep taken

theorem crowded_of_shared [NeZero N] {raw : Fin N → Page} {file : File}
    (small : file.size / pageSize < 2 ^ 31) (run : SharedRun (start raw file) log w) :
    CrowdedRun (start raw file) log w := by
  induction run with
  | nil => exact .nil
  | @cons log w w' event previous taken ih =>
      obtain ⟨s, pins, holds⟩ := sharedState small previous
      obtain ⟨op, outcome⟩ := event
      obtain ⟨ended, given, unwrapped⟩ := taken
      refine ih.cons ⟨ended, ?_, unwrapped, ?_⟩
      · cases op with
        | heap op => exact given.1
        | request pageId => exact given
        | release pageId => exact given
      · rintro i data rfl rfl
        obtain ⟨_, _, failed, _⟩ := holds.call ⟨ended, given, unwrapped⟩
        cases failed

end World

end RelationalDb
