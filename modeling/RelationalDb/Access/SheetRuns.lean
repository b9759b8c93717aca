import RelationalDb.Access.SheetStore

set_option autoImplicit false

namespace RelationalDb

open HeapFile
open SlottedPage (Appended Layout Sheet)
open SheetStore (newSheet placeIn)

/-- The sheets of the heaps are those of the pages of their chains. -/
structure Abstracts (s : HeapState) (store : SheetStore) : Prop where
  pages : store.pages = s.pages
  count : store.heaps.length = s.heaps.length
  sheets : ∀ i < s.heaps.length, store.heaps[i]? = some (sheetsOf s.view (s.chain i))

namespace Abstracts

variable {s s' : HeapState} {store : SheetStore} {i : Nat} {pageId : Int} {page : Page}
  {data : List UInt8}

theorem sheets_eq (abstracts : Abstracts s store) (sound : s.Sound) (i : Nat) :
    store.sheets i = sheetsOf s.view (s.chain i) := by
  rw [SheetStore.sheets]
  by_cases bound : i < s.heaps.length
  · rw [abstracts.sheets i bound]
    rfl
  · have outside : store.heaps[i]? = none := by
      rw [List.getElem?_eq_none_iff, abstracts.count]
      omega
    rw [outside, sound.beyond i (by omega)]
    rfl

/-- Only heap `i` has changed. -/
theorem replace (abstracts : Abstracts s store) (bound : i < s.heaps.length)
    (count : s'.heaps.length = s.heaps.length)
    (others : ∀ j, j ≠ i → s'.chain j = s.chain j)
    (apart : ∀ j, j ≠ i → ∀ pageId ∈ s.chain j, s'.view pageId = s.view pageId)
    {sheets : List (Int × Sheet)} (own : sheetsOf s'.view (s'.chain i) = sheets) :
    Abstracts s' { store.setSheets i sheets with pages := s'.pages } := by
  refine ⟨rfl, ?_, ?_⟩
  · show (store.heaps.set i sheets).length = s'.heaps.length
    rw [List.length_set, abstracts.count, count]
  · intro j inside
    show (store.heaps.set i sheets)[j]? = _
    rw [count] at inside
    by_cases same : j = i
    · subst same
      rw [List.getElem?_set_self (by rw [abstracts.count]; exact bound), own]
    · rw [List.getElem?_set_ne (Ne.symm same), abstracts.sheets j inside, others j same,
        sheetsOf_congr (apart j same)]

theorem append (abstracts : Abstracts s store) (heap : HeapFile)
    (heaps : s'.heaps = s.heaps ++ [heap])
    (others : ∀ j < s.heaps.length, s'.chain j = s.chain j)
    (apart : ∀ j, ∀ pageId ∈ s.chain j, s'.view pageId = s.view pageId)
    {sheets : List (Int × Sheet)} (own : sheetsOf s'.view (s'.chain s.heaps.length) = sheets) :
    Abstracts s' ⟨s'.pages, store.heaps ++ [sheets]⟩ := by
  refine ⟨rfl, ?_, ?_⟩
  · rw [List.length_append, List.length_singleton, abstracts.count, heaps, List.length_append,
      List.length_singleton]
  · intro j inside
    rw [heaps, List.length_append, List.length_singleton] at inside
    by_cases old : j < s.heaps.length
    · rw [List.getElem?_append_left (by rw [abstracts.count]; exact old), abstracts.sheets j old,
        others j old, sheetsOf_congr (apart j)]
    · obtain rfl : j = s.heaps.length := by omega
      rw [← abstracts.count, List.getElem?_append_right (Nat.le_refl _), Nat.sub_self,
        abstracts.count, own]
      rfl

theorem fresh_apart (sound : s.Sound) (value : Option Page) (j : Nat) :
    ∀ pageId ∈ s.chain j, Function.update s.view s.pages value pageId = s.view pageId := by
  intro pageId member
  apply Function.update_of_ne
  rintro rfl
  exact sound.fresh j member

theorem own_apart (sound : s.Sound) (member : pageId ∈ s.chain i) (value : Option Page) (j : Nat)
    (different : j ≠ i) :
    ∀ other ∈ s.chain j, Function.update s.view pageId value other = s.view other := by
  intro other among
  apply Function.update_of_ne
  rintro rfl
  exact different (sound.apart j i other among member)

theorem withFirstPage (abstracts : Abstracts s store) (sound : s.Sound)
    (bound : i < s.heaps.length) (empty : s.chain i = []) (heap : HeapFile) (raw : Page) :
    Abstracts (s.withFirstPage i (s.heaps.set i heap) raw) (store.withFirst i) := by
  have none : store.sheets i = [] := by
    rw [abstracts.sheets_eq sound, empty]
    rfl
  rw [SheetStore.withFirst, if_pos none, abstracts.pages]
  refine abstracts.replace bound List.length_set ?_ ?_ ?_
  · intro j different
    exact Function.update_of_ne different _ _
  · exact fun j _ => fresh_apart sound _ j
  · simp only [HeapState.withFirstPage, Function.update_self]
    rw [sheetsOf, List.map_singleton, sheetOf_eq (Function.update_self _ _ _), initHeapPage_sheet]

theorem withFirst_eq (abstracts : Abstracts s store) (sound : s.Sound)
    (nonempty : s.chain i ≠ []) : store.withFirst i = store := by
  have some : store.sheets i ≠ [] := by
    rw [abstracts.sheets_eq sound]
    intro none
    exact nonempty (List.map_eq_nil_iff.mp none)
  rw [SheetStore.withFirst, if_neg some]

theorem sheetsOf_linked (sound : s.Sound) {last : Int} {lastPage : Page}
    (here : s.view last = some lastPage) (layout : Layout lastPage headerSize) (page : Page) :
    sheetsOf (Function.update (Function.update s.view last (some (setNextPageId lastPage s.pages)))
        s.pages (some page)) (s.chain i ++ [s.pages]) =
      sheetsOf s.view (s.chain i) ++ [(s.pages, SlottedPage.sheet page headerSize)] := by
  rw [sheetsOf, List.map_append, List.map_singleton, sheetOf_eq (Function.update_self _ _ _),
    sheetsOf]
  congr 1
  apply List.map_congr_left
  intro pageId member
  have notNew : pageId ≠ s.pages := by
    rintro rfl
    exact sound.fresh i member
  by_cases same : pageId = last
  · subst same
    rw [sheetOf_eq here, sheetOf_eq (by rw [Function.update_of_ne notNew, Function.update_self]),
      setNextPageId_sheet lastPage s.pages layout]
  · rw [sheetOf, sheetOf, Function.update_of_ne notNew, Function.update_of_ne same]

/-- An insertion into the pages that a heap has. -/
theorem insertInto (abstracts : Abstracts s store) (sound : s.Sound) {answer : HeapAnswer}
    (effect : HeapState.Effect (.insert i data) answer s s') (nonempty : s.chain i ≠ []) :
    answer = .placed (store.insertInto i data).1 ∧ Abstracts s' (store.insertInto i data).2 := by
  have known : ∀ pageId ∈ s.chain i, ∃ page, s.view pageId = some page ∧
      Layout page headerSize := by
    intro pageId member
    obtain ⟨_, _, page, present, layout⟩ := sound.page member
    exact ⟨page, present, layout⟩
  cases effect with
  | first _ present lazy =>
      exact absurd (sound.chain_nil present lazy) nonempty
  | @placed _ _ heap _ pageId page page' present found here appended =>
      have bound := (List.getElem?_eq_some_iff.mp present).1
      have placed := placeIn_found known (sound.nodup i) found here appended
      rw [SheetStore.insertInto, abstracts.sheets_eq sound, placed]
      refine ⟨rfl, ?_⟩
      have replaced := @replace s (s.withPage pageId page') store i abstracts bound rfl
        (fun _ _ => rfl) (own_apart sound (List.mem_of_find?_eq_some found) _) _ rfl
      rw [show (s.withPage pageId page').pages = store.pages from abstracts.pages.symm] at replaced
      exact replaced
  | @grown _ _ heap _ last lastPage page result present full isLast here fresh more =>
      have bound := (List.getElem?_eq_some_iff.mp present).1
      have none := placeIn_full (fun pageId member => ⟨_, (known pageId member).choose_spec.1⟩) full
      obtain ⟨filled, given⟩ := fresh_sheet fresh
      rw [SheetStore.insertInto, abstracts.sheets_eq sound, none, abstracts.pages]
      simp only [filled] at given ⊢
      refine ⟨congrArg HeapAnswer.placed given, ?_⟩
      have inChain := List.mem_of_getLast? isLast
      obtain ⟨lastPage', here', layout⟩ := known last inChain
      rw [here, Option.some.injEq] at here'
      subst here'
      refine @replace s (s.withLastPage i last lastPage page) store i abstracts bound rfl
        (fun j different => Function.update_of_ne different _ _) ?_ _ ?_
      · intro j different pageId member
        have notNew : pageId ≠ s.pages := by
          rintro rfl
          exact sound.fresh j member
        simp only [HeapState.withLastPage]
        rw [Function.update_of_ne notNew]
        exact own_apart sound inChain _ j different pageId member
      · simp only [HeapState.withLastPage, Function.update_self]
        exact sheetsOf_linked sound here layout page

theorem insert (abstracts : Abstracts s store) (sound : s.Sound) {answer : HeapAnswer}
    (effect : HeapState.Effect (.insert i data) answer s s') :
    answer = (store.step (.insert i data)).1 ∧ Abstracts s' (store.step (.insert i data)).2 := by
  by_cases empty : s.chain i = []
  · cases effect with
    | @first _ _ _ heap _ _ raw present lazy more rest =>
        have bound := (List.getElem?_eq_some_iff.mp present).1
        refine (abstracts.withFirstPage sound bound empty _ raw).insertInto
          (sound.made present more) rest ?_
        simp only [HeapState.withFirstPage, Function.update_self]
        exact List.cons_ne_nil _ _
    | placed _ found =>
        rw [empty] at found
        cases found
    | grown _ _ isLast =>
        rw [empty] at isLast
        cases isLast
  · have inserted := abstracts.insertInto sound effect empty
    rw [← abstracts.withFirst_eq sound empty] at inserted
    exact inserted

theorem edit (abstracts : Abstracts s store) (sound : s.Sound) (member : pageId ∈ s.chain i)
    (present : s.view pageId = some page) {page' : Page} {done : Bool}
    {change : Sheet → Bool × Sheet} (same : change (SlottedPage.sheet page headerSize) =
      (done, SlottedPage.sheet page' headerSize)) :
    (store.edit i pageId change).1 = done ∧
      Abstracts { s with view := Function.update s.view pageId (some page') }
        (store.edit i pageId change).2 := by
  have bound : i < s.heaps.length := by
    by_contra outside
    rw [sound.beyond i (by omega)] at member
    cases member
  rw [SheetStore.edit, abstracts.sheets_eq sound,
    alter_sheetsOf (sound.nodup i) member present same]
  refine ⟨rfl, ?_⟩
  have replaced := @replace s (s.withPage pageId page') store i abstracts bound rfl
    (fun _ _ => rfl) (own_apart sound member _) _ rfl
  rw [show (s.withPage pageId page').pages = store.pages from abstracts.pages.symm] at replaced
  exact replaced

theorem create (abstracts : Abstracts s store) (sound : s.Sound) {fileId : Uuid}
    {answer : HeapAnswer} (effect : HeapState.Effect (.create fileId) answer s s') :
    answer = (store.step (.create fileId)).1 ∧ Abstracts s' (store.step (.create fileId)).2 := by
  cases effect with
  | create raw more =>
      rw [SheetStore.step, abstracts.count, abstracts.pages]
      refine ⟨rfl, abstracts.append _ rfl ?_ (fun j => fresh_apart sound _ j) ?_⟩
      · intro j inside
        exact Function.update_of_ne (Nat.ne_of_lt inside) _ _
      · simp only [HeapState.withFirstPage, Function.update_self]
        rw [sheetsOf, List.map_singleton, sheetOf_eq (Function.update_self _ _ _),
          initHeapPage_sheet]

theorem openEmpty (abstracts : Abstracts s store) (sound : s.Sound) {fileId : Uuid}
    {answer : HeapAnswer} (effect : HeapState.Effect (.openEmpty fileId) answer s s') :
    answer = (store.step (.openEmpty fileId)).1 ∧
      Abstracts s' (store.step (.openEmpty fileId)).2 := by
  cases effect with
  | openEmpty =>
      rw [SheetStore.step, abstracts.count, abstracts.pages]
      refine ⟨rfl, @append s { s with heaps := s.heaps ++ [⟨fileId, invalidPageId⟩] } store
        abstracts _ rfl (fun _ _ => rfl) (fun _ _ _ => rfl) _ ?_⟩
      rw [show sheetsOf s.view (s.chain s.heaps.length) = sheetsOf s.view [] by
        rw [sound.beyond _ (Nat.le_refl _)]]
      rfl

theorem get (abstracts : Abstracts s store) (sound : s.Sound) {rid : Rid} (known : s.Known i rid)
    {answer : HeapAnswer} (effect : HeapState.Effect (.get i rid) answer s s') :
    answer = (store.step (.get i rid)).1 ∧ Abstracts s' (store.step (.get i rid)).2 := by
  obtain ⟨member, page, present, _⟩ := known
  cases effect with
  | get =>
      rw [SheetStore.step, SheetStore.sheetAt, abstracts.sheets_eq sound,
        sheetsOf_find present member, Option.map_some, Option.bind_some, SlottedPage.sheet_get,
        storedRecord_eq present]
      exact ⟨rfl, abstracts⟩

end Abstracts

namespace World

variable {N : Nat} {w w' : World N} {s : HeapState} {pins : Int → Int} {store : SheetStore}
  {i : Nat} {rid : Rid} {page : Page} {data : List UInt8}

theorem edited_view {view : Int → Option Page} {pageId : Int} {change : Bool × Page}
    (present : view pageId = some page) (refused : change.1 = false → change.2 = page) :
    (if change.1 then Function.update view pageId (some change.2) else view) =
      Function.update view pageId (some change.2) := by
  cases done : change.1 with
  | true => rfl
  | false => rw [refused done, ← present, Function.update_eq_self]; rfl

theorem edit_exact (shows : Shows w s pins) (known : s.Known i rid)
    (present : s.view rid.pageId = some page) (change : Page → Bool × Page)
    (edits : ((change page).1 = false → (change page).2 = page) ∧
      Changed s.view rid data (change page).1
        (if (change page).1 then Function.update s.view rid.pageId (some (change page).2)
        else s.view)) :
    ∃ bm', (HeapFile.edit rid.pageId change).Returns w.bm (change page).1 bm' ∧
      Shows ⟨bm', w.heaps⟩
        { s with view := Function.update s.view rid.pageId (some (change page).2) } pins ∧
      Changed s.view rid data (change page).1
        (Function.update s.view rid.pageId (some (change page).2)) := by
  obtain ⟨refused, changed⟩ := edits
  obtain ⟨given, inside, _⟩ := shows.sound.page known.1
  obtain ⟨bm', returned, steady'⟩ :=
    edit_returns shows.steady change given inside present refused
  rw [edited_view present refused] at changed steady'
  exact ⟨bm', returned, ⟨steady', shows.heaps, shows.sound.changed changed⟩, changed⟩

/-- How a call ends in a world and on the sheets of its heaps. -/
structure Computes (op : HeapOp) (s : HeapState) (store : SheetStore) (pins : Int → Int)
    (outcome : Except Error HeapAnswer) (w' : World N) (s' : HeapState) : Prop where
  answered : outcome = .ok (store.step op).1
  effect : HeapState.Effect op (store.step op).1 s s'
  shows : Shows w' s' pins
  abstracts : Abstracts s' (store.step op).2

/-- A call of `HeapFile::Update` or `Delete` with a record id of its heap. -/
theorem Shows.edits (shows : Shows w s pins) (abstracts : Abstracts s store)
    (known : s.Known i rid) {change : Page → Bool × Page} {changeSheet : Sheet → Bool × Sheet}
    (edits : ∀ page, s.view rid.pageId = some page → Layout page headerSize →
      (((change page).1 = false → (change page).2 = page) ∧
        Changed s.view rid data (change page).1
          (if (change page).1 then Function.update s.view rid.pageId (some (change page).2)
          else s.view)) ∧
      changeSheet (SlottedPage.sheet page headerSize) =
        ((change page).1, SlottedPage.sheet (change page).2 headerSize)) :
    ∃ bm' view', (HeapFile.edit rid.pageId change).Returns w.bm
        (store.edit i rid.pageId changeSheet).1 bm' ∧
      Changed s.view rid data (store.edit i rid.pageId changeSheet).1 view' ∧
      Shows ⟨bm', w.heaps⟩ { s with view := view' } pins ∧
      Abstracts { s with view := view' } (store.edit i rid.pageId changeSheet).2 := by
  obtain ⟨_, _, page, present, layout⟩ := shows.sound.page known.1
  obtain ⟨exact, same⟩ := edits page present layout
  obtain ⟨bm', returned, shows', changed⟩ := edit_exact shows known present change exact
  obtain ⟨done, abstracts'⟩ := abstracts.edit shows.sound known.1 present same
  rw [← done] at returned changed
  exact ⟨bm', _, returned, changed, shows', abstracts'⟩

theorem Shows.computes (shows : Shows w s pins) (abstracts : Abstracts s store) {op : HeapOp}
    (allowed : Allowed s op) {outcome : Except Error HeapAnswer}
    (ended : op.run w = some (outcome, w')) (unwrapped : 0 ≤ nextAllocated w'.bm) :
    ∃ s', Computes op s store pins outcome w' s' := by
  have sound := shows.sound
  obtain ⟨answer, s₁, same, effect, shows₁⟩ := shows.step allowed ended unwrapped
  have unedited : answer = (store.step op).1 ∧ Abstracts s₁ (store.step op).2 →
      ∃ s', Computes op s store pins outcome w' s' := by
    rintro ⟨given, abstracts'⟩
    rw [given] at same effect
    exact ⟨s₁, same, effect, shows₁, abstracts'⟩
  have inHeap : ∀ {i rid}, s.Known i rid → ∃ heap, (heapAt i).Returns w heap w := by
    intro i rid known
    refine ⟨s.heaps.get ⟨i, known.bound sound⟩, heapAt_returns ?_⟩
    rw [shows.heaps]
    exact List.getElem?_eq_getElem _
  cases op with
  | create fileId => exact unedited (abstracts.create sound effect)
  | openEmpty fileId => exact unedited (abstracts.openEmpty sound effect)
  | insert i data => exact unedited (abstracts.insert sound effect)
  | get i rid => exact unedited (abstracts.get sound allowed effect)
  | update i rid data =>
      obtain ⟨heap, found⟩ := inHeap allowed
      obtain ⟨bm', view', returned, changed, shows', abstracts'⟩ :=
        @Shows.edits N w s pins store i rid data shows abstracts allowed
          (fun page => SlottedPage.update page headerSize rid.slotId data)
          (·.update rid.slotId data) (fun page present layout =>
            ⟨update_changed present layout data, SlottedPage.sheet_update _ _ _ _ layout⟩)
      have returns : (HeapOp.update i rid data).run.Returns w _ ⟨bm', w.heaps⟩ :=
        found.bind ((onPool_returns returned).bind rfl)
      unfold Program.Returns at returns
      rw [returns, Option.some.injEq, Prod.mk.injEq] at ended
      obtain ⟨rfl, rfl⟩ := ended
      exact ⟨_, rfl, .update allowed changed, shows', abstracts'⟩
  | delete i rid =>
      obtain ⟨heap, found⟩ := inHeap allowed
      obtain ⟨bm', view', returned, changed, shows', abstracts'⟩ :=
        @Shows.edits N w s pins store i rid [] shows abstracts allowed
          (fun page => SlottedPage.delete page headerSize rid.slotId)
          (·.delete rid.slotId) (fun page present layout =>
            ⟨⟨(delete_changed present layout).1, (delete_changed present layout).2.1⟩,
              SlottedPage.sheet_delete _ _ _ layout⟩)
      have returns : (HeapOp.delete i rid).run.Returns w _ ⟨bm', w.heaps⟩ :=
        found.bind ((onPool_returns returned).bind rfl)
      unfold Program.Returns at returns
      rw [returns, Option.some.injEq, Prod.mk.injEq] at ended
      obtain ⟨rfl, rfl⟩ := ended
      -- a record id of the heap is in the directory of its page, so `Delete` marks its slot
      have done : (store.edit i rid.pageId (·.delete rid.slotId)).1 = true := by
        cases effect with
        | delete =>
            rw [Except.ok.injEq, HeapAnswer.done.injEq] at same
            exact same
      have effect' : HeapState.Effect (.delete i rid) (store.step (.delete i rid)).1 s
          { s with view := view' } := by
        rw [SheetStore.step]
        simp only [done] at changed ⊢
        exact .delete allowed changed
      exact ⟨_, rfl, effect', shows', abstracts'⟩

theorem RunState.next {log : List HeapEvent} (holds : RunState log w s) {op : HeapOp}
    {answer : HeapAnswer} {s' : HeapState} (effect : HeapState.Effect op answer s s')
    (shows : Shows w' s' fun _ => 0) : RunState (⟨op, .ok answer⟩ :: log) w' s' := by
  refine ⟨shows, ?_⟩
  intro entry member
  rcases issued_cases member with earlier | ⟨data, rfl, rfl⟩
  · exact effect.known holds.1.sound (holds.2 entry earlier)
  · exact (effect.placed_new holds.1.sound).1

/-- A run of the heap files, and the same calls on sheets. -/
structure SheetState (pages : Int) (log : List HeapEvent) (w : World N) (s : HeapState) :
    Prop where
  state : RunState log w s
  abstracts : Abstracts s (SheetStore.after pages (log.map HeapEvent.op))
  answered : log.map HeapEvent.outcome =
    (SheetStore.answers pages (log.map HeapEvent.op)).map Except.ok

theorem SheetState.step {pages : Int} {log : List HeapEvent} {event : HeapEvent}
    (holds : SheetState pages log w s) (taken : heapStep GivenRids log w event w') :
    ∃ s', SheetState pages (event :: log) w' s' := by
  obtain ⟨op, outcome⟩ := event
  obtain ⟨ended, given, unwrapped⟩ : op.run w = some (outcome, w') ∧ GivenRids log op ∧
    0 ≤ nextAllocated w'.bm := taken
  obtain ⟨s', computes⟩ := holds.state.1.computes holds.abstracts
    (GivenRids.allowed given holds.state.2) ended unwrapped
  obtain rfl : outcome = _ := computes.answered
  refine ⟨s', holds.state.next computes.effect computes.shows, computes.abstracts, ?_⟩
  rw [List.map_cons, holds.answered]
  rfl

theorem sheetState [NeZero N] {raw : Fin N → Page} {file : File}
    (small : file.size / pageSize < 2 ^ 31) {log : List HeapEvent}
    (run : HeapRun GivenRids (start raw file) log w) :
    ∃ s, SheetState (file.size / pageSize : Nat) log w s := by
  apply run.invariant fun log w => ∃ s, SheetState (file.size / pageSize : Nat) log w s
  · refine ⟨startState file, ⟨start_shows raw file small, ?_⟩, ⟨rfl, rfl, ?_⟩, rfl⟩
    · intro entry member
      cases member
    · intro i bound
      cases bound
  · intro log w event w' _ holds taken
    obtain ⟨s, holds⟩ := holds
    exact holds.step taken

/-- The pages of a heap, as the pool and the disk have them, are its sheets. -/
theorem SheetState.chain {pages : Int} {log : List HeapEvent} (holds : SheetState pages log w s)
    {heap : HeapFile} (present : w.heaps[i]? = some heap) :
    ∃ chain, Chain w.bm.contents heap.firstPageId chain ∧ chain.Nodup ∧
      (SheetStore.after pages (log.map HeapEvent.op)).heaps[i]? =
        some (sheetsOf w.bm.contents chain) := by
  have sound := holds.state.1.sound
  have same : ∀ pageId ∈ s.chain i, w.bm.contents pageId = s.view pageId :=
    fun _ member => sound.contents_eq holds.state.1.steady.toBacked member
  rw [holds.state.1.heaps] at present
  refine ⟨s.chain i, (sound.linked i heap present).congr same, sound.nodup i, ?_⟩
  rw [holds.abstracts.sheets i (List.getElem?_eq_some_iff.mp present).1, sheetsOf_congr same]

/-- The heap files compute what the calls do on sheets: every answer, every record id, the slots
and the free space of every page, and the id of the next page. -/
theorem heaps_compute [NeZero N] (raw : Fin N → Page) (file : File)
    (small : file.size / pageSize < 2 ^ 31) (log : List HeapEvent) (w : World N)
    (run : HeapRun GivenRids (start raw file) log w) :
    log.map HeapEvent.outcome =
        (SheetStore.answers (file.size / pageSize : Nat) (log.map HeapEvent.op)).map Except.ok ∧
      (SheetStore.after (file.size / pageSize : Nat) (log.map HeapEvent.op)).pages =
        nextAllocated w.bm ∧
      ∀ (i : Nat) (heap : HeapFile), w.heaps[i]? = some heap →
        ∃ chain, Chain w.bm.contents heap.firstPageId chain ∧
          (SheetStore.after (file.size / pageSize : Nat) (log.map HeapEvent.op)).heaps[i]? =
            some (sheetsOf w.bm.contents chain) := by
  obtain ⟨s, holds⟩ := sheetState small run
  refine ⟨holds.answered, ?_, ?_⟩
  · exact holds.abstracts.pages.trans holds.state.1.steady.allocated.next.symm
  · intro i heap present
    obtain ⟨chain, linked, _, same⟩ := holds.chain present
    exact ⟨chain, linked, same⟩

theorem oneRecord_start [NeZero N] :
    ∃ w : World N, HeapRun GivenRids (start (fun _ _ => 0) File.empty) oneRecord w := by
  obtain ⟨w₁, raw, created, first⟩ := @oneHeap_run N _
  have next : nextAllocated w₁.bm = 1 := first.1.steady.allocated.next
  have made : w₁.heaps.length = 1 := by rw [first.1.heaps]; rfl
  obtain ⟨answer, w₂, s₂, inserted, placed, second⟩ :=
    first.extend (.insert 0 [7]) (by decide : [7].length < 2 ^ 63)
      (fun i _ same => by cases same; omega) (by rw [next]; decide)
  obtain rfl : answer = .placed (some ⟨0, 0⟩) := first_answer rfl (by decide) placed
  exact ⟨w₂, (Run.nil.cons created).cons inserted⟩

theorem heaps_compute_oneRecord : ∃ w : World 3,
    HeapRun GivenRids (start (fun _ _ => 0) File.empty) oneRecord w ∧
      (SheetStore.after 0 (oneRecord.map HeapEvent.op)).pages = nextAllocated w.bm := by
  obtain ⟨w, run⟩ := @oneRecord_start 3 _
  exact ⟨w, run, (heaps_compute _ _ (by decide) _ _ run).2.1⟩

/-- The size of the pool, the bytes in its frames and the bytes in the file cannot be told from
the answers: the same calls on files with as many pages give the same run, and their heaps have
the same records in the same slots of the same pages. -/
theorem pool_unobservable {M : Nat} [NeZero N] [NeZero M] (raw : Fin N → Page)
    (raw' : Fin M → Page) (file file' : File) (small : file.size / pageSize < 2 ^ 31)
    (alike : file'.size / pageSize = file.size / pageSize) (log log' : List HeapEvent)
    (w : World N) (w' : World M) (run : HeapRun GivenRids (start raw file) log w)
    (run' : HeapRun GivenRids (start raw' file') log' w')
    (calls : log'.map HeapEvent.op = log.map HeapEvent.op) :
    log'.map HeapEvent.outcome = log.map HeapEvent.outcome ∧
      nextAllocated w'.bm = nextAllocated w.bm ∧
      ∀ (i : Nat) (heap heap' : HeapFile), w.heaps[i]? = some heap → w'.heaps[i]? = some heap' →
        ∃ chain, Chain w.bm.contents heap.firstPageId chain ∧
          Chain w'.bm.contents heap'.firstPageId chain ∧
          ∀ pageId ∈ chain, sheetOf w'.bm.contents pageId = sheetOf w.bm.contents pageId := by
  obtain ⟨s, holds⟩ := sheetState small run
  obtain ⟨s', holds'⟩ := sheetState (alike ▸ small) run'
  rw [alike] at holds'
  have next := holds.state.1.steady.allocated.next
  have next' := holds'.state.1.steady.allocated.next
  refine ⟨?_, ?_, ?_⟩
  · rw [holds.answered, holds'.answered, calls]
  · have pages := holds'.abstracts.pages
    rw [calls, holds.abstracts.pages] at pages
    exact next'.trans (pages.symm.trans next.symm)
  · intro i heap heap' present present'
    obtain ⟨chain, linked, _, same⟩ := holds.chain present
    obtain ⟨chain', linked', _, same'⟩ := holds'.chain present'
    rw [calls, same, Option.some.injEq] at same'
    have ids : chain' = chain := by
      have mapped := congrArg (List.map Prod.fst) same'
      simp only [sheetsOf, List.map_map, Function.comp_def, sheetOf, List.map_id'] at mapped
      exact mapped.symm
    subst ids
    exact ⟨chain', linked, linked', fun pageId member =>
      (List.map_inj_left.mp same' pageId member).symm⟩

theorem pool_unobservable_oneRecord : ∃ (w : World 1) (w' : World 5),
    HeapRun GivenRids (start (fun _ _ => 0) File.empty) oneRecord w ∧
      HeapRun GivenRids (start (fun _ _ => 0) File.empty) oneRecord w' ∧
      nextAllocated w'.bm = nextAllocated w.bm := by
  obtain ⟨w, run⟩ := @oneRecord_start 1 _
  obtain ⟨w', run'⟩ := @oneRecord_start 5 _
  exact ⟨w, w', run, run',
    (pool_unobservable _ _ _ _ (by decide) rfl _ _ _ _ run run' rfl).2.1⟩

end World

end RelationalDb
