import RelationalDb.Access.HeapState
import RelationalDb.Run

set_option autoImplicit false

namespace RelationalDb

open HeapFile
open BufferManager (Steady Backed)
open SlottedPage (Layout)

/-- One pool over one disk manager, and the heap files made on them. -/
structure World (N : Nat) where
  bm : BufferManager N DiskManager
  heaps : List HeapFile

namespace World

variable {N : Nat}

def onPool {α : Type} (program : Heap N α) : Program (World N) Error α := fun w =>
  (program w.bm).map fun ended => (ended.1, { w with bm := ended.2 })

def heapAt (i : Nat) : Program (World N) Error HeapFile := fun w =>
  (w.heaps[i]?).map fun heap => (.ok heap, w)

def addHeap (heap : HeapFile) : Program (World N) Error HeapAnswer := fun w =>
  some (.ok (.made w.heaps.length), { w with heaps := w.heaps ++ [heap] })

def setHeap (i : Nat) (heap : HeapFile) : Program (World N) Error Unit :=
  modify fun w => { w with heaps := w.heaps.set i heap }

/-- The defensive check for the first page id. The heap file has the id before its page is there. -/
def firstPage (i : Nat) (heap : HeapFile) : Program (World N) Error HeapFile := do
  if heap.firstPageId = invalidPageId then
    let pageId ← onPool HeapFile.allocatePage
    let heap := { heap with firstPageId := pageId }
    setHeap i heap
    onPool (initPage pageId)
    return heap
  else return heap

end World

namespace HeapOp

variable {N : Nat}

open World

def run : HeapOp → Program (World N) Error HeapAnswer
  | create fileId => do addHeap (← onPool (HeapFile.create fileId))
  | openEmpty fileId => addHeap (HeapFile.openHeap fileId invalidPageId)
  | insert i data => do
      let heap ← firstPage i (← heapAt i)
      return .placed (← onPool (heap.insertRecord data))
  | get i rid => do
      let _ ← heapAt i
      let record ← onPool (HeapFile.get rid)
      let w ← MonadState.get
      return .found (record.map (·.bytes w.bm))
  | update i rid data => do
      let _ ← heapAt i
      return .done (← onPool (HeapFile.update data rid))
  | delete i rid => do
      let _ ← heapAt i
      return .done (← onPool (HeapFile.delete rid))

end HeapOp

namespace World

variable {N : Nat} {w w' : World N} {s : HeapState} {pins : Int → Int}

/-- A world whose pool holds the pages of a heap state. -/
structure Shows (w : World N) (s : HeapState) (pins : Int → Int) : Prop where
  steady : Steady w.bm s.view pins s.pages
  heaps : w.heaps = s.heaps
  sound : s.Sound

/-- The id of the next page has not wrapped round. -/
theorem Shows.unwrapped (shows : Shows w s pins) : 0 ≤ nextAllocated w.bm := by
  have next : nextAllocated w.bm = s.pages := shows.steady.allocated.next
  rw [next]
  exact shows.sound.given

theorem onPool_returns {α : Type} {program : Heap N α} {value : α}
    {bm' : BufferManager N DiskManager} (returned : program.Returns w.bm value bm') :
    (onPool program).Returns w value { w with bm := bm' } := by
  unfold Program.Returns at returned ⊢
  rw [onPool, returned]
  rfl

theorem onPool_throws {α : Type} {program : Heap N α} {reason : Error}
    {bm' : BufferManager N DiskManager} (thrown : program.Throws w.bm reason bm') :
    (onPool program).Throws w reason { w with bm := bm' } := by
  unfold Program.Throws at thrown ⊢
  rw [onPool, thrown]
  rfl

theorem heapAt_returns {i : Nat} {heap : HeapFile} (present : w.heaps[i]? = some heap) :
    (heapAt i).Returns w heap w := by
  unfold Program.Returns
  rw [heapAt, present]
  rfl

theorem onPool_ends {α : Type} {program : Heap N α} {outcome : Except Error α}
    (ended : onPool program w = some (outcome, w')) :
    ∃ bm', program w.bm = some (outcome, bm') ∧ w' = ⟨bm', w.heaps⟩ := by
  rw [onPool, Option.map_eq_some_iff] at ended
  obtain ⟨⟨result, bm'⟩, inner, same⟩ := ended
  cases same
  exact ⟨bm', inner, rfl⟩

section FirstPage

variable {i : Nat} {heap heap' : HeapFile} {data : List UInt8}

theorem setHeap_returns (i : Nat) (heap : HeapFile) :
    (setHeap i heap).Returns w ⟨⟩ ⟨w.bm, w.heaps.set i heap⟩ := rfl

theorem firstPage_returns {bm' : BufferManager N DiskManager} (present : w.heaps[i]? = some heap)
    (ensured : (ensureFirstPage heap).Returns w.bm heap' bm') :
    (firstPage i heap).Returns w heap' ⟨bm', w.heaps.set i heap'⟩ := by
  unfold ensureFirstPage at ensured
  unfold firstPage
  split at ensured
  · rename_i lazy
    rw [if_pos lazy]
    obtain ⟨pageId, bm₁, allocated, ensured⟩ := Program.returns_bind.mp ensured
    obtain ⟨_, bm₂, initialised, ensured⟩ := Program.returns_bind.mp ensured
    obtain ⟨rfl, rfl⟩ := (Program.returns_pure _ _ _ _).mp ensured
    exact (onPool_returns allocated).bind ((setHeap_returns i _).bind
      ((onPool_returns initialised).bind (Program.pure_returns _ _)))
  · rename_i valid
    rw [if_neg valid]
    obtain ⟨rfl, rfl⟩ := (Program.returns_pure _ _ _ _).mp ensured
    obtain ⟨bound, here⟩ := List.getElem?_eq_some_iff.mp present
    have same : w.heaps.set i heap = w.heaps := by rw [← here, List.set_getElem_self bound]
    exact (Program.returns_pure _ _ _ _).mpr ⟨rfl, by rw [same]⟩

theorem firstPage_ends {outcome : Except Error HeapFile}
    (ended : firstPage i heap w = some (outcome, w')) :
    ensureFirstPage heap w.bm = some (outcome, w'.bm) := by
  unfold firstPage at ended
  unfold ensureFirstPage
  split at ended
  · rename_i lazy
    rw [if_pos lazy]
    rcases Program.bind_cases ended with ⟨pageId, w₁, allocated, rest⟩ | ⟨reason, thrown, rfl⟩
    · obtain ⟨bm₁, inner, rfl⟩ := onPool_ends allocated
      rw [Program.Returns.bind_eq (show Program.Returns _ _ _ _ from inner)]
      rw [(setHeap_returns i _).bind_eq] at rest
      rcases Program.bind_cases rest with ⟨_, w₂, initialised, rest⟩ | ⟨reason, thrown, rfl⟩
      · obtain ⟨bm₂, inner₂, rfl⟩ := onPool_ends initialised
        rw [Program.Returns.bind_eq (show Program.Returns _ _ _ _ from inner₂)]
        cases rest
        rfl
      · obtain ⟨bm₂, inner₂, rfl⟩ := onPool_ends thrown
        exact Program.Throws.bind inner₂
    · obtain ⟨bm₁, inner, rfl⟩ := onPool_ends thrown
      exact Program.Throws.bind inner
  · rename_i valid
    rw [if_neg valid]
    cases ended
    rfl

theorem insert_runs {rid : Option Rid} {bm' : BufferManager N DiskManager}
    (present : w.heaps[i]? = some heap)
    (inserted : (HeapFile.insert heap data).Returns w.bm (rid, heap') bm') :
    (HeapOp.insert i data).run.Returns w (.placed rid) ⟨bm', w.heaps.set i heap'⟩ := by
  unfold HeapFile.insert at inserted
  obtain ⟨heap'', bm₁, ensured, inserted⟩ := Program.returns_bind.mp inserted
  obtain ⟨result, bm₂, placed, inserted⟩ := Program.returns_bind.mp inserted
  cases inserted
  exact (heapAt_returns present).bind ((firstPage_returns present ensured).bind
    ((onPool_returns placed).bind rfl))

theorem insert_ends {outcome : Except Error HeapAnswer} (present : w.heaps[i]? = some heap)
    (ended : (HeapOp.insert i data).run w = some (outcome, w')) :
    ∃ result, HeapFile.insert heap data w.bm = some (result, w'.bm) := by
  simp only [HeapOp.run] at ended
  unfold HeapFile.insert
  rw [(heapAt_returns present).bind_eq] at ended
  rcases Program.bind_cases ended with ⟨heap', w₁, ensured, rest⟩ | ⟨reason, thrown, rfl⟩
  · rw [Program.Returns.bind_eq (show Program.Returns _ _ _ _ from firstPage_ends ensured)]
    obtain ⟨result, placed, _⟩ := Program.answer_eq_some.mp rest
    obtain ⟨bm₂, inner, rfl⟩ := onPool_ends placed
    exact ⟨_, Program.answer_eq_some.mpr ⟨result, inner, rfl⟩⟩
  · exact ⟨_, Program.Throws.bind (firstPage_ends thrown)⟩

end FirstPage

/-- A call that is allowed ends with the effect it should have. -/
structure Performs (w : World N) (op : HeapOp) (s : HeapState) (pins : Int → Int) (answer : HeapAnswer)
    (w' : World N) (s' : HeapState) : Prop where
  ended : op.run.Returns w answer w'
  effect : HeapState.Effect op answer s s'
  shows : Shows w' s' pins

theorem create_performs (shows : Shows w s pins) (more : s.pages + 1 < 2 ^ 31) (fileId : Uuid) :
    ∃ answer w' s', Performs w (.create fileId) s pins answer w' s' := by
  obtain ⟨raw, bm', returned, steady'⟩ := create_returns shows.steady more fileId
  have effect : HeapState.Effect (.create fileId) (.made s.heaps.length) s _ := .create raw more
  refine ⟨_, ⟨bm', w.heaps ++ [⟨fileId, s.pages⟩]⟩, _, ?_, effect, steady', ?_,
    effect.sound shows.sound⟩
  · refine (onPool_returns returned).bind ?_
    rw [← shows.heaps]
    rfl
  · rw [shows.heaps]
    rfl

theorem openEmpty_performs (shows : Shows w s pins) (fileId : Uuid) :
    ∃ answer w' s', Performs w (.openEmpty fileId) s pins answer w' s' := by
  have effect : HeapState.Effect (.openEmpty fileId) (.made s.heaps.length) s _ := .openEmpty
  refine ⟨_, ⟨w.bm, w.heaps ++ [⟨fileId, invalidPageId⟩]⟩, _, ?_, effect, shows.steady, ?_,
    effect.sound shows.sound⟩
  · rw [← shows.heaps]
    rfl
  · rw [shows.heaps]

theorem get_performs (shows : Shows w s pins) {i : Nat} {rid : Rid} (known : s.Known i rid)
    (bound : i < s.heaps.length) : ∃ answer w' s', Performs w (.get i rid) s pins answer w' s' := by
  obtain ⟨member, page, present, _⟩ := known
  obtain ⟨given, _⟩ := shows.sound.page member
  obtain ⟨result, bm', returned, steady', fetched⟩ := get_returns shows.steady given present
  have effect : HeapState.Effect (.get i rid) (.found (storedRecord s.view rid)) s s := .get
  refine ⟨_, ⟨bm', w.heaps⟩, s, ?_, effect, steady', shows.heaps, shows.sound⟩
  have heapFound : w.heaps[i]? = some s.heaps[i] := by
    rw [shows.heaps]
    exact List.getElem?_eq_getElem bound
  refine (heapAt_returns heapFound).bind ((onPool_returns returned).bind ?_)
  unfold Program.Returns
  rw [storedRecord_eq present, ← fetched.bytes]
  rfl

theorem update_performs (shows : Shows w s pins) {i : Nat} {rid : Rid} (known : s.Known i rid)
    (bound : i < s.heaps.length) (data : List UInt8) :
    ∃ answer w' s', Performs w (.update i rid data) s pins answer w' s' := by
  obtain ⟨given, inside, page, present, layout⟩ := shows.sound.page known.1
  obtain ⟨success, view', bm', returned, steady', changed⟩ :=
    update_returns shows.steady given inside present layout data
  have effect : HeapState.Effect (.update i rid data) (.done success) s { s with view := view' } :=
    .update known changed
  have heapFound : w.heaps[i]? = some s.heaps[i] := by
    rw [shows.heaps]
    exact List.getElem?_eq_getElem bound
  refine ⟨_, ⟨bm', w.heaps⟩, _, ?_, effect, steady', shows.heaps, effect.sound shows.sound⟩
  exact (heapAt_returns heapFound).bind ((onPool_returns returned).bind rfl)

theorem delete_performs (shows : Shows w s pins) {i : Nat} {rid : Rid} (known : s.Known i rid)
    (bound : i < s.heaps.length) :
    ∃ answer w' s', Performs w (.delete i rid) s pins answer w' s' := by
  obtain ⟨given, inside, page, present, layout⟩ := shows.sound.page known.1
  obtain ⟨success, view', bm', returned, steady', changed, success_iff⟩ :=
    delete_returns shows.steady given inside present layout
  obtain ⟨page', present', slotInside⟩ := known.2
  rw [present] at present'
  cases present'
  obtain rfl := success_iff.mpr slotInside
  have effect : HeapState.Effect (.delete i rid) (.done true) s { s with view := view' } :=
    .delete known changed
  have heapFound : w.heaps[i]? = some s.heaps[i] := by
    rw [shows.heaps]
    exact List.getElem?_eq_getElem bound
  refine ⟨_, ⟨bm', w.heaps⟩, _, ?_, effect, steady', shows.heaps, effect.sound shows.sound⟩
  exact (heapAt_returns heapFound).bind ((onPool_returns returned).bind rfl)

section Insert

variable {bm : BufferManager N DiskManager} {i : Nat} {heap : HeapFile} {data : List UInt8}

/-- The page loop of `Insert` on a heap of a sound state. -/
theorem insertLoop_left (steady : Steady bm s.view pins s.pages) (sound : s.Sound)
    (present : s.heaps[i]? = some heap) (bounded : data.length < 2 ^ 63)
    (full : (s.chain i).find? (HeapFile.room s.view data) = none) {last : Int}
    (isLast : (s.chain i).getLast? = some last) :
    ∃ bm', Program.Returns
      (Program.loop (insertStep data) (heap.firstPageId, invalidPageId)) bm (.inr last) bm' ∧
      Steady bm' s.view pins s.pages := by
  have looped := insertLoop_returns bounded (sound.linked i heap present) (sound.inside i) steady
    invalidPageId
  rw [full, isLast] at looped
  exact looped

theorem chain_last (sound : s.Sound) (present : s.heaps[i]? = some heap)
    (valid : heap.firstPageId ≠ invalidPageId) : ∃ last, (s.chain i).getLast? = some last := by
  have linked := sound.linked i heap present
  cases chain : s.chain i with
  | nil =>
      rw [chain] at linked
      have first := linked.first_eq
      exact absurd first valid
  | cons pageId rest => exact ⟨_, List.getLast?_eq_some_getLast (List.cons_ne_nil pageId rest)⟩

theorem insertRecord_returns (steady : Steady bm s.view pins s.pages) (sound : s.Sound)
    (present : s.heaps[i]? = some heap) (valid : heap.firstPageId ≠ invalidPageId)
    (bounded : data.length < 2 ^ 63)
    (more : (s.chain i).find? (HeapFile.room s.view data) = none → s.pages + 1 < 2 ^ 31) :
    ∃ result bm' s', (insertRecord heap data).Returns bm result bm' ∧
      HeapState.Effect (.insert i data) (.placed result) s s' ∧ Steady bm' s'.view pins s'.pages ∧
      s'.heaps = s.heaps := by
  have linked := sound.linked i heap present
  cases found : (s.chain i).find? (HeapFile.room s.view data) with
  | some pageId =>
      have looped := insertLoop_returns bounded linked (sound.inside i) steady invalidPageId
      rw [found] at looped
      obtain ⟨page, page', bm', known, appended, returned, steady'⟩ := looped
      have effect : HeapState.Effect (.insert i data) (.placed _) s (s.withPage pageId page') :=
        .placed present found known appended
      exact ⟨_, bm', _, returned.bind (Program.pure_returns _ _), effect,
        steady', rfl⟩
  | none =>
      obtain ⟨last, isLast⟩ := chain_last sound present valid
      obtain ⟨bm₁, returned, steady₁⟩ := insertLoop_left steady sound present bounded found isLast
      obtain ⟨given, inside, lastPage, known, _⟩ := sound.page (List.mem_of_getLast? isLast)
      obtain ⟨result, page, bm', placed, fresh, steady'⟩ :=
        insertInNewPage_returns bounded steady₁ (more found) given inside known
      have effect : HeapState.Effect (.insert i data) (.placed result) s
          (s.withLastPage i last lastPage page) :=
        .grown present found isLast known fresh (more found)
      exact ⟨result, bm', _, returned.bind placed, effect, steady', rfl⟩

theorem insertRecord_more (steady : Steady bm s.view pins s.pages) (sound : s.Sound)
    (present : s.heaps[i]? = some heap) (valid : heap.firstPageId ≠ invalidPageId)
    (bounded : data.length < 2 ^ 63) {outcome : Except Error (Option Rid)}
    {bm' : BufferManager N DiskManager} (ended : insertRecord heap data bm = some (outcome, bm'))
    (unwrapped : 0 ≤ nextAllocated bm')
    (full : (s.chain i).find? (HeapFile.room s.view data) = none) : s.pages + 1 < 2 ^ 31 := by
  obtain ⟨last, isLast⟩ := chain_last sound present valid
  obtain ⟨bm₁, returned, steady₁⟩ := insertLoop_left steady sound present bounded full isLast
  have rest : insertInNewPage data last bm₁ = some (outcome, bm') := by
    unfold insertRecord at ended
    rw [returned.bind_eq] at ended
    exact ended
  have upper := sound.room
  by_contra noRoom
  obtain ⟨bm₂, allocated, wrapped⟩ := allocatePage_wraps steady₁ (by omega)
  have after : nextAllocated bm' = nextAllocated bm₂ := by
    apply (linkNewPage_keeps data last s.pages).map Prod.fst bm₂ outcome bm'
    unfold insertInNewPage at rest
    rw [allocated.bind_eq] at rest
    exact rest
  omega

/-- The page ids an insertion needs are there. -/
def RoomFor (s : HeapState) (i : Nat) (heap : HeapFile) (data : List UInt8) : Prop :=
  if heap.firstPageId = invalidPageId then
    s.pages + 1 < 2 ^ 31 ∧ (8176 < data.length → s.pages + 2 < 2 ^ 31)
  else (s.chain i).find? (HeapFile.room s.view data) = none → s.pages + 1 < 2 ^ 31

theorem ensureFirstPage_present (valid : heap.firstPageId ≠ invalidPageId) :
    (ensureFirstPage heap).Returns bm heap bm := by
  simp only [ensureFirstPage, valid, ↓reduceIte]
  exact Program.pure_returns _ _

theorem ensureFirstPage_made (steady : Steady bm s.view pins s.pages)
    (lazy : heap.firstPageId = invalidPageId) (more : s.pages + 1 < 2 ^ 31) :
    ∃ raw bm', (ensureFirstPage heap).Returns bm { heap with firstPageId := s.pages } bm' ∧
      Steady bm' (Function.update s.view s.pages (some (initHeapPage raw))) pins (s.pages + 1) := by
  obtain ⟨bm₁, allocated, steady₁⟩ := allocatePage_returns steady more
  obtain ⟨raw, bm', initialised, steady'⟩ :=
    initPage_returns steady₁ steady.allocated.lower (by omega)
  refine ⟨raw, bm', ?_, steady'⟩
  simp only [ensureFirstPage, lazy, ↓reduceIte]
  exact allocated.bind (initialised.bind (Program.pure_returns _ _))

/-- A record does not fit into an empty page from 8177 bytes on. -/
theorem made_full_iff {raw : Page} {heaps : List HeapFile} :
    ((s.withFirstPage i heaps raw).chain i).find?
      (HeapFile.room (s.withFirstPage i heaps raw).view data) = none ↔ 8176 < data.length := by
  have known : (s.withFirstPage i heaps raw).view s.pages = some (initHeapPage raw) :=
    Function.update_self _ _ _
  have only : (s.withFirstPage i heaps raw).chain i = [s.pages] := Function.update_self _ _ _
  have fits := @room_iff _ data _ _ known
  rw [initHeapPage_freeSpace] at fits
  rw [only, List.find?_eq_none]
  simp only [List.mem_singleton, forall_eq, fits]
  omega

theorem insert_returns (shows : Shows w s pins) (present : s.heaps[i]? = some heap)
    (bounded : data.length < 2 ^ 63) (room : RoomFor s i heap data) :
    ∃ result heap' bm' s', (HeapFile.insert heap data).Returns w.bm (result, heap') bm' ∧
      HeapState.Effect (.insert i data) (.placed result) s s' ∧ Steady bm' s'.view pins s'.pages ∧
      s'.heaps = s.heaps.set i heap' := by
  unfold RoomFor at room
  split at room
  · rename_i lazy
    obtain ⟨more, again⟩ := room
    obtain ⟨raw, bm₁, made, steady₁⟩ := ensureFirstPage_made shows.steady lazy more
    have sound₁ := @HeapState.Sound.made s shows.sound i heap raw present more
    have bound := (List.getElem?_eq_some_iff.mp present).1
    have given := shows.sound.given
    have valid : s.pages ≠ invalidPageId := by
      intro same
      rw [same] at given
      cases given
    obtain ⟨result, bm', s', placed, effect, steady', same⟩ :=
      insertRecord_returns steady₁ sound₁ (List.getElem?_set_self bound) valid bounded (by
        intro full
        have enough := again (made_full_iff.mp full)
        simp only [HeapState.withFirstPage]
        omega)
    exact ⟨result, _, bm', s', made.bind (placed.bind ((Program.returns_pure _ _ _ _).mpr
      ⟨rfl, rfl⟩)), .first raw present lazy more effect, steady', same⟩
  · rename_i valid
    obtain ⟨result, bm', s', placed, effect, steady', same⟩ :=
      insertRecord_returns shows.steady shows.sound present valid bounded room
    refine ⟨result, heap, bm', s', ?_, effect, steady', ?_⟩
    · exact (ensureFirstPage_present valid).bind (placed.bind ((Program.returns_pure _ _ _ _).mpr
        ⟨rfl, rfl⟩))
    · obtain ⟨bound, here⟩ := List.getElem?_eq_some_iff.mp present
      rw [same, ← here, List.set_getElem_self bound]

end Insert

theorem insert_performs (shows : Shows w s pins) {i : Nat} {heap : HeapFile} {data : List UInt8}
    (present : s.heaps[i]? = some heap) (bounded : data.length < 2 ^ 63)
    (room : RoomFor s i heap data) :
    ∃ answer w' s', Performs w (.insert i data) s pins answer w' s' := by
  obtain ⟨result, heap', bm', s', returned, effect, steady', same⟩ :=
    insert_returns shows present bounded room
  have heapFound : w.heaps[i]? = some heap := by rw [shows.heaps, present]
  refine ⟨_, ⟨bm', w.heaps.set i heap'⟩, s', ?_, effect, steady', ?_, effect.sound shows.sound⟩
  · exact insert_runs heapFound returned
  · rw [same, shows.heaps]

/-- An insertion that ended with unwrapped page ids had the page ids it needed. -/
theorem insert_roomFor (shows : Shows w s pins) {i : Nat} {heap : HeapFile} {data : List UInt8}
    (present : s.heaps[i]? = some heap) (bounded : data.length < 2 ^ 63)
    {outcome : Except Error (Option Rid × HeapFile)} {bm' : BufferManager N DiskManager}
    (ended : HeapFile.insert heap data w.bm = some (outcome, bm'))
    (unwrapped : 0 ≤ nextAllocated bm') : RoomFor s i heap data := by
  have upper := shows.sound.room
  have given := shows.sound.given
  unfold RoomFor
  split
  · rename_i lazy
    have more : s.pages + 1 < 2 ^ 31 := by
      by_contra noRoom
      obtain ⟨bm₁, allocated, wrapped⟩ := allocatePage_wraps shows.steady (by omega)
      have negative : toInt32 (- 2 ^ 31 + 1) < 0 := by decide
      have after := insert_lazy_next lazy allocated ended
      rw [wrapped] at after
      omega
    unfold HeapFile.insert at ended
    have final : ∀ {bm₁ : BufferManager N DiskManager} {heap' : HeapFile},
        (ensureFirstPage heap).Returns w.bm heap' bm₁ →
        ∃ result, insertRecord heap' data bm₁ = some (result, bm') := by
      intro bm₁ heap' made
      rw [made.bind_eq] at ended
      rcases Program.bind_cases ended with ⟨result, middle, placed, rest⟩ | ⟨reason, thrown, _⟩
      · cases rest
        exact ⟨_, placed⟩
      · exact ⟨_, thrown⟩
    refine ⟨more, ?_⟩
    intro long
    obtain ⟨raw, bm₁, made, steady₁⟩ := ensureFirstPage_made shows.steady lazy more
    obtain ⟨result, placed⟩ := final made
    have sound₁ := @HeapState.Sound.made s shows.sound i heap raw present more
    have bound := (List.getElem?_eq_some_iff.mp present).1
    have valid : s.pages ≠ invalidPageId := by
      intro same
      rw [same] at given
      cases given
    have more₁ := insertRecord_more steady₁ sound₁ (List.getElem?_set_self bound) valid bounded placed
      unwrapped (made_full_iff.mpr long)
    simp only [HeapState.withFirstPage] at more₁
    omega
  · rename_i valid
    unfold HeapFile.insert at ended
    rw [(ensureFirstPage_present valid).bind_eq] at ended
    intro full
    rcases Program.bind_cases ended with ⟨result, middle, placed, rest⟩ | ⟨reason, thrown, _⟩
    · cases rest
      exact insertRecord_more shows.steady shows.sound present valid bounded placed unwrapped full
    · exact insertRecord_more shows.steady shows.sound present valid bounded thrown unwrapped full

/-- Calls with record ids of their heap and byte strings shorter than 2^63. -/
def Allowed (s : HeapState) : HeapOp → Prop
  | .create _ => True
  | .openEmpty _ => True
  | .insert _ data => data.length < 2 ^ 63
  | .get i rid => s.Known i rid
  | .update i rid _ => s.Known i rid
  | .delete i rid => s.Known i rid

/-- Making a heap file in the world is making it on the pool. -/
theorem create_ends {fileId : Uuid} {outcome : Except Error HeapFile}
    {bm' : BufferManager N DiskManager}
    (created : HeapFile.create fileId w.bm = some (outcome, bm')) :
    ∃ answer w', (HeapOp.create fileId).run w = some (answer, w') ∧ w'.bm = bm' := by
  have inner : onPool (HeapFile.create fileId) w = some (outcome, { w with bm := bm' }) := by
    rw [onPool, created]
    rfl
  cases outcome with
  | ok heap => exact ⟨_, _, Program.Returns.bind_eq inner, rfl⟩
  | error reason => exact ⟨_, _, Program.Throws.bind inner, rfl⟩

theorem create_room (shows : Shows w s pins) {fileId : Uuid} {outcome : Except Error HeapAnswer}
    (ended : (HeapOp.create fileId).run w = some (outcome, w'))
    (unwrapped : 0 ≤ nextAllocated w'.bm) : s.pages + 1 < 2 ^ 31 := by
  rcases Program.bind_cases ended with ⟨heap, w₁, created, rest⟩ | ⟨_, created, _⟩
  · unfold Program.Returns at created
    rw [onPool, Option.map_eq_some_iff] at created
    obtain ⟨⟨result, bm'⟩, inner, same⟩ := created
    cases same
    cases rest
    exact create_more shows.steady inner unwrapped
  · unfold Program.Throws at created
    rw [onPool, Option.map_eq_some_iff] at created
    obtain ⟨⟨result, bm'⟩, inner, same⟩ := created
    cases same
    exact create_more shows.steady inner unwrapped

theorem Performs.decides {op : HeapOp} {answer : HeapAnswer} {s' : HeapState}
    {outcome : Except Error HeapAnswer} {w₁ : World N} (performs : Performs w op s pins answer w₁ s')
    (ended : op.run w = some (outcome, w')) :
    ∃ answer s', outcome = .ok answer ∧ HeapState.Effect op answer s s' ∧ Shows w' s' pins := by
  have returned := performs.ended
  unfold Program.Returns at returned
  rw [returned] at ended
  cases ended
  exact ⟨answer, s', rfl, performs.effect, performs.shows⟩

theorem Shows.progress (shows : Shows w s pins) {op : HeapOp} (allowed : Allowed s op)
    (made : ∀ i data, op = .insert i data → i < w.heaps.length) (room : s.pages + 2 < 2 ^ 31) :
    ∃ answer w' s', Performs w op s pins answer w' s' := by
  cases op with
  | create fileId => exact create_performs shows (by omega) fileId
  | openEmpty fileId => exact openEmpty_performs shows fileId
  | insert i data =>
      have bound := made i data rfl
      rw [shows.heaps] at bound
      apply insert_performs shows (List.getElem?_eq_getElem bound) allowed
      unfold RoomFor
      split
      · exact ⟨by omega, fun _ => room⟩
      · intro _
        omega
  | get i rid => exact get_performs shows allowed (allowed.bound shows.sound)
  | update i rid data => exact update_performs shows allowed (allowed.bound shows.sound) data
  | delete i rid => exact delete_performs shows allowed (allowed.bound shows.sound)

/-- An allowed call that ends without wrapping the page ids does not throw and
has the effect it should have. -/
theorem Shows.step (shows : Shows w s pins) {op : HeapOp} (allowed : Allowed s op)
    {outcome : Except Error HeapAnswer} (ended : op.run w = some (outcome, w'))
    (unwrapped : 0 ≤ nextAllocated w'.bm) :
    ∃ answer s', outcome = .ok answer ∧ HeapState.Effect op answer s s' ∧ Shows w' s' pins := by
  cases op with
  | create fileId =>
      obtain ⟨_, _, _, performs⟩ := create_performs shows (create_room shows ended unwrapped) fileId
      exact performs.decides ended
  | openEmpty fileId =>
      obtain ⟨_, _, _, performs⟩ := openEmpty_performs shows fileId
      exact performs.decides ended
  | insert i data =>
      cases found : w.heaps[i]? with
      | none =>
          have missing : (heapAt i : Program (World N) Error HeapFile) w = none := by
            rw [heapAt, found]
            rfl
          simp only [HeapOp.run, bind, missing] at ended
          cases ended
      | some heap =>
          have present : s.heaps[i]? = some heap := by rw [← shows.heaps, found]
          obtain ⟨result, inner⟩ := insert_ends found ended
          have room := insert_roomFor shows present allowed inner unwrapped
          obtain ⟨_, _, _, performs⟩ := insert_performs shows present allowed room
          exact performs.decides ended
  | get i rid =>
      obtain ⟨_, _, _, performs⟩ := get_performs shows allowed (allowed.bound shows.sound)
      exact performs.decides ended
  | update i rid data =>
      obtain ⟨_, _, _, performs⟩ := update_performs shows allowed (allowed.bound shows.sound) data
      exact performs.decides ended
  | delete i rid =>
      obtain ⟨_, _, _, performs⟩ := delete_performs shows allowed (allowed.bound shows.sound)
      exact performs.decides ended

end World

structure HeapEvent where
  op : HeapOp
  outcome : Except Error HeapAnswer

/-- The record ids the heaps have given, each with its heap. -/
def issued : List HeapEvent → List (Nat × Rid)
  | [] => []
  | event :: log =>
      match event.op, event.outcome with
      | .insert i _, .ok (.placed (some rid)) => (i, rid) :: issued log
      | _, _ => issued log

/-- Only an insertion that placed its record issues a record id. -/
theorem issued_cases {op : HeapOp} {answer : HeapAnswer} {log : List HeapEvent} {entry : Nat × Rid}
    (member : entry ∈ issued (⟨op, .ok answer⟩ :: log)) : entry ∈ issued log ∨
      ∃ data, op = .insert entry.1 data ∧ answer = .placed (some entry.2) := by
  cases op with
  | insert i data =>
      cases answer with
      | placed result =>
          cases result with
          | none => exact Or.inl member
          | some rid =>
              rcases List.mem_cons.mp member with rfl | earlier
              · exact Or.inr ⟨data, rfl, rfl⟩
              · exact Or.inl earlier
      | made _ => exact Or.inl member
      | found _ => exact Or.inl member
      | done _ => exact Or.inl member
  | create _ => exact Or.inl member
  | openEmpty _ => exact Or.inl member
  | get _ _ => exact Or.inl member
  | update _ _ _ => exact Or.inl member
  | delete _ _ => exact Or.inl member

/-- A call that `guard` allows, on fewer than 2^31 pages: the id of the next page
has not wrapped round. -/
def heapStep {N : Nat} (guard : List HeapEvent → HeapOp → Prop) (log : List HeapEvent)
    (w : World N) (event : HeapEvent) (w' : World N) : Prop :=
  event.op.run w = some (event.outcome, w') ∧ guard log event.op ∧ 0 ≤ nextAllocated w'.bm

abbrev HeapRun {N : Nat} (guard : List HeapEvent → HeapOp → Prop) (start : World N) :
    List HeapEvent → World N → Prop :=
  Run (heapStep guard) start

/-- Record ids their heap issued, and byte strings shorter than 2^63. -/
def GivenRids (log : List HeapEvent) : HeapOp → Prop
  | .create _ => True
  | .openEmpty _ => True
  | .insert _ data => data.length < 2 ^ 63
  | .get i rid => (i, rid) ∈ issued log
  | .update i rid data => (i, rid) ∈ issued log ∧ data.length < 2 ^ 63
  | .delete i rid => (i, rid) ∈ issued log

namespace World

variable {N : Nat}

def start [NeZero N] (raw : Fin N → Page) (file : File) : World N :=
  ⟨BufferManager.new raw (DiskManager.openFile file), []⟩

/-- The pages of a file that holds whole pages, and no heap file. -/
def startState (file : File) : HeapState :=
  { view := stored (DiskManager.openFile file)
    pages := (file.size / pageSize : Nat)
    heaps := []
    chain := fun _ => [] }

theorem start_shows [NeZero N] (raw : Fin N → Page) (file : File)
    (small : file.size / pageSize < 2 ^ 31) :
    Shows (start raw file) (startState file) (fun _ => 0) := by
  have given : (0 : Int) ≤ (file.size / pageSize : Nat) := Int.natCast_nonneg _
  have upper : ((file.size / pageSize : Nat) : Int) < 2 ^ 31 := Int.ofNat_lt.mpr small
  have pages : DiskManager.getNumPages file = (file.size / pageSize : Nat) :=
    toInt32_of_bounds (Int.le_trans (by decide) given) upper
  refine ⟨⟨BufferManager.new_backed raw _, rfl, ?_, ?_, ?_⟩, rfl, ?_⟩
  · exact ⟨⟨0, Nat.pos_of_ne_zero (NeZero.ne N)⟩, rfl⟩
  · exact fun _ => ⟨Int.le_refl 0, by decide⟩
  · refine ⟨pages, rfl, given, upper, ?_, ?_⟩
    · exact Nat.lt_mul_of_div_lt (Nat.lt_succ_self _) (by decide)
    · intro frame dirty
      cases dirty
  · refine ⟨?_, fun _ _ => rfl, fun _ => List.nodup_nil, ?_, ?_, given, upper⟩
    · intro i heap found
      cases found
    · intro i j pageId member
      cases member
    · intro i pageId member
      cases member

/-- What every point of a run has: a heap state that the pool holds, in which
every issued record id is one of its heap. -/
def RunState (log : List HeapEvent) (w : World N) (s : HeapState) : Prop :=
  Shows w s (fun _ => 0) ∧ ∀ entry ∈ issued log, s.Known entry.1 entry.2

theorem GivenRids.allowed {log : List HeapEvent} {op : HeapOp} {s : HeapState}
    (given : GivenRids log op) (known : ∀ entry ∈ issued log, s.Known entry.1 entry.2) :
    Allowed s op := by
  cases op with
  | create fileId => trivial
  | openEmpty fileId => trivial
  | insert i data => exact given
  | get i rid => exact known _ given
  | update i rid data => exact known _ given.1
  | delete i rid => exact known _ given

/-- A step of a run: the call did not throw, and the state is still what the
pool holds. -/
theorem RunState.step {log : List HeapEvent} {w w' : World N} {s : HeapState} {event : HeapEvent}
    (holds : RunState log w s) (taken : heapStep GivenRids log w event w') :
    ∃ answer s', event.outcome = .ok answer ∧ HeapState.Effect event.op answer s s' ∧
      RunState (event :: log) w' s' := by
  obtain ⟨shows, known⟩ := holds
  obtain ⟨op, outcome⟩ := event
  obtain ⟨ended, given, unwrapped⟩ := taken
  obtain ⟨answer, s', rfl, effect, shows'⟩ := shows.step (GivenRids.allowed given known) ended
    unwrapped
  refine ⟨answer, s', rfl, effect, shows', ?_⟩
  intro entry member
  rcases issued_cases member with earlier | ⟨data, rfl, rfl⟩
  · exact effect.known shows.sound (known entry earlier)
  · exact (effect.placed_new shows.sound).1

theorem RunState.extend {log : List HeapEvent} {w : World N} {s : HeapState}
    (holds : RunState log w s) (op : HeapOp) (given : GivenRids log op)
    (made : ∀ i data, op = .insert i data → i < w.heaps.length)
    (room : nextAllocated w.bm + 2 < 2 ^ 31) :
    ∃ answer w' s', heapStep GivenRids log w ⟨op, .ok answer⟩ w' ∧
      HeapState.Effect op answer s s' ∧ RunState (⟨op, .ok answer⟩ :: log) w' s' := by
  have next : nextAllocated w.bm = s.pages := holds.1.steady.allocated.next
  obtain ⟨answer, w', s', performs⟩ :=
    holds.1.progress (GivenRids.allowed given holds.2) made (by omega)
  have unwrapped : 0 ≤ nextAllocated w'.bm := by
    have next' : nextAllocated w'.bm = s'.pages := performs.shows.steady.allocated.next
    have lower := performs.shows.steady.allocated.lower
    omega
  have taken : heapStep GivenRids log w ⟨op, .ok answer⟩ w' :=
    ⟨performs.ended, given, unwrapped⟩
  obtain ⟨answer', s'', same, effect, holds'⟩ := holds.step taken
  cases same
  exact ⟨answer, w', s'', taken, effect, holds'⟩

theorem runState [NeZero N] {raw : Fin N → Page} {file : File}
    (small : file.size / pageSize < 2 ^ 31) {log : List HeapEvent} {w : World N}
    (run : HeapRun GivenRids (start raw file) log w) : ∃ s, RunState log w s := by
  apply run.invariant fun log w => ∃ s, RunState log w s
  · refine ⟨startState file, start_shows raw file small, ?_⟩
    intro entry member
    cases member
  · intro log w event w' _ holds taken
    obtain ⟨s, holds⟩ := holds
    obtain ⟨_, s', _, _, holds'⟩ := holds.step taken
    exact ⟨s', holds'⟩

/-- The calls that make one heap with one record. -/
def oneRecord : List HeapEvent :=
  [⟨.insert 0 [7], .ok (.placed (some ⟨0, 0⟩))⟩, ⟨.create fun _ => 0, .ok (.made 0)⟩]

/-- A first record goes to the first slot of the page of its heap, unless it is too long. -/
theorem first_answer {raw : Page} {heaps : List HeapFile} {i : Nat} {heap : HeapFile}
    {data : List UInt8} {answer : HeapAnswer} {s s' : HeapState} (present : heaps[i]? = some heap)
    (made : heap.firstPageId ≠ invalidPageId)
    (effect : HeapState.Effect (.insert i data) answer (s.withFirstPage i heaps raw) s') :
    answer = .placed (if data.length ≤ 8176 then some ⟨s.pages, 0⟩ else none) := by
  have known : (s.withFirstPage i heaps raw).view s.pages = some (initHeapPage raw) := by
    simp only [HeapState.withFirstPage, Function.update_self]
  have chain : (s.withFirstPage i heaps raw).chain i = [s.pages] := by
    simp only [HeapState.withFirstPage, Function.update_self]
  cases effect with
  | first _ found lazy =>
      rw [show (s.withFirstPage i heaps raw).heaps[i]? = some heap from present] at found
      cases found
      exact absurd lazy made
  | placed _ found page =>
      have fits : data.length ≤ 8176 := by
        by_contra long
        rw [made_full_iff.mpr (by omega)] at found
        cases found
      rw [if_pos fits]
      rw [chain] at found
      obtain rfl := List.mem_singleton.mp (List.mem_of_find?_eq_some found)
      rw [known] at page
      cases page
      rw [initHeapPage_numSlots]
  | grown _ full _ _ fresh =>
      have long := made_full_iff.mp full
      rw [fresh.result_eq, if_neg (by omega), if_neg (by omega)]

/-- The state decides what an insertion answers. -/
theorem insert_answer_unique {s s₁ s₂ : HeapState} {i : Nat} {data : List UInt8}
    {answer other : HeapAnswer} (sound : s.Sound)
    (first : HeapState.Effect (.insert i data) answer s s₁)
    (second : HeapState.Effect (.insert i data) other s s₂) : answer = other := by
  have given := sound.given
  have valid : s.pages ≠ invalidPageId := by
    intro same
    rw [same] at given
    cases given
  have made : ∀ {heap : HeapFile} {heaps : List HeapFile}, s.heaps[i]? = some heap →
      heaps = s.heaps.set i { heap with firstPageId := s.pages } →
      heaps[i]? = some { heap with firstPageId := s.pages } := by
    intro heap heaps present same
    rw [same, List.getElem?_set_self (List.getElem?_eq_some_iff.mp present).1]
  cases first with
  | first raw present lazy more rest =>
      cases second with
      | first raw' present' lazy' more' rest' =>
          rw [first_answer (made present rfl) valid rest, first_answer (made present' rfl) valid rest']
      | placed _ found =>
          rw [sound.chain_nil present lazy] at found
          cases found
      | grown _ _ isLast =>
          rw [sound.chain_nil present lazy] at isLast
          cases isLast
  | placed present found known =>
      cases second with
      | first _ present' lazy =>
          rw [sound.chain_nil present' lazy] at found
          cases found
      | placed _ found' known' =>
          rw [found] at found'
          cases found'
          rw [known] at known'
          cases known'
          rfl
      | grown _ full =>
          rw [full] at found
          cases found
  | grown present full isLast _ fresh =>
      cases second with
      | first _ present' lazy =>
          rw [sound.chain_nil present' lazy] at isLast
          cases isLast
      | placed _ found =>
          rw [full] at found
          cases found
      | grown _ _ _ _ fresh' => rw [fresh.result_eq, fresh'.result_eq]

/-- The call that makes one heap. -/
def oneHeap : List HeapEvent := [⟨.create fun _ => 0, .ok (.made 0)⟩]

/-- It runs in every pool above an empty file. -/
theorem oneHeap_run [NeZero N] :
    ∃ (w : World N) (raw : Page), heapStep GivenRids [] (start (fun _ _ => 0) File.empty)
      ⟨.create fun _ => 0, .ok (.made 0)⟩ w ∧
      RunState oneHeap w ((startState File.empty).withFirstPage 0 [⟨fun _ => 0, 0⟩] raw) := by
  have small : File.empty.size / pageSize < 2 ^ 31 := by decide
  have initial : RunState [] (start (fun _ _ => 0) File.empty : World N) (startState File.empty) :=
    ⟨start_shows _ _ small, fun _ member => by cases member⟩
  have next : nextAllocated (start (fun _ _ => 0) File.empty : World N).bm = 0 :=
    initial.1.steady.allocated.next.trans (by decide)
  obtain ⟨_, w, s, created, effect, first⟩ :=
    initial.extend (.create fun _ => 0) trivial (fun _ _ other => by cases other)
      (by rw [next]; decide)
  cases effect with
  | create raw more => exact ⟨w, raw, created, first⟩

theorem oneRecord_run (guard : List HeapEvent → HeapOp → Prop)
    (creates : guard [] (.create fun _ => 0))
    (inserts : guard [⟨.create fun _ => 0, .ok (.made 0)⟩] (.insert 0 [7])) :
    ∃ (w : World 1) (s : HeapState), HeapRun guard (start (fun _ _ => 0) File.empty) oneRecord w ∧
      RunState oneRecord w s ∧ storedRecord s.view ⟨0, 0⟩ = some [7] := by
  obtain ⟨w₁, raw, created, first⟩ := @oneHeap_run 1 _
  have next : nextAllocated w₁.bm = 1 := first.1.steady.allocated.next
  have made : w₁.heaps.length = 1 := by rw [first.1.heaps]; rfl
  obtain ⟨answer, w₂, s₂, inserted, placed, second⟩ :=
    first.extend (.insert 0 [7]) (by decide : [7].length < 2 ^ 63)
      (fun i _ same => by cases same; omega) (by rw [next]; decide)
  obtain rfl : answer = .placed (some ⟨0, 0⟩) := first_answer rfl (by decide) placed
  obtain ⟨_, stored, _⟩ := placed.placed_new first.1.sound
  exact ⟨w₂, s₂, (Run.nil.cons ⟨created.1, creates, created.2.2⟩).cons
    ⟨inserted.1, inserts, inserted.2.2⟩, second, stored⟩

end World

end RelationalDb
