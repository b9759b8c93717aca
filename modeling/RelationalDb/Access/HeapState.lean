import RelationalDb.Access.HeapCalls

set_option autoImplicit false

namespace RelationalDb

open HeapFile
open SlottedPage (Layout Appended Rewritten)

/-- The calls of clients on the heap files made so far, each named by its position. -/
inductive HeapOp where
  | create (fileId : Uuid)
  | openEmpty (fileId : Uuid)
  | insert (heap : Nat) (data : List UInt8)
  | get (heap : Nat) (rid : Rid)
  | update (heap : Nat) (rid : Rid) (data : List UInt8)
  | delete (heap : Nat) (rid : Rid)

/-- What a client sees of a call. A record is read before the next call. -/
inductive HeapAnswer where
  | made (heap : Nat)
  | placed (rid : Option Rid)
  | found (data : Option (List UInt8))
  | done (success : Bool)
  deriving DecidableEq

/-- Heap files as chains of pages: the pages by id, how many there are, the heap
files and the chain of each. -/
structure HeapState where
  view : Int → Option Page
  pages : Int
  heaps : List HeapFile
  chain : Nat → List Int

namespace HeapState

/-- Each heap has a chain of its own below the allocated pages. -/
structure Sound (s : HeapState) : Prop where
  linked : ∀ (i : Nat) (heap : HeapFile), s.heaps[i]? = some heap →
    Chain s.view heap.firstPageId (s.chain i)
  beyond : ∀ i, s.heaps.length ≤ i → s.chain i = []
  nodup : ∀ i, (s.chain i).Nodup
  apart : ∀ i j pageId, pageId ∈ s.chain i → pageId ∈ s.chain j → i = j
  inside : ∀ i, ∀ pageId ∈ s.chain i, pageId < s.pages
  given : 0 ≤ s.pages
  room : s.pages < 2 ^ 31

/-- A record id that points into the slot directory of a page of the heap. -/
def Known (s : HeapState) (i : Nat) (rid : Rid) : Prop :=
  rid.pageId ∈ s.chain i ∧ ∃ page, s.view rid.pageId = some page ∧
    rid.slotId < SlottedPage.numSlots page headerSize

/-- A new empty page becomes the chain of heap `i`. -/
def withFirstPage (s : HeapState) (i : Nat) (heaps : List HeapFile) (raw : Page) : HeapState :=
  { view := Function.update s.view s.pages (some (initHeapPage raw))
    pages := s.pages + 1
    heaps := heaps
    chain := Function.update s.chain i [s.pages] }

def withPage (s : HeapState) (pageId : Int) (page : Page) : HeapState :=
  { s with view := Function.update s.view pageId (some page) }

/-- A new page is linked behind the last page of heap `i`. -/
def withLastPage (s : HeapState) (i : Nat) (last : Int) (lastPage page : Page) : HeapState :=
  { s with
    view := Function.update
      (Function.update s.view last (some (setNextPageId lastPage s.pages))) s.pages (some page)
    pages := s.pages + 1
    chain := Function.update s.chain i (s.chain i ++ [s.pages]) }

/-- What a call does to the chains and answers. -/
inductive Effect : HeapOp → HeapAnswer → HeapState → HeapState → Prop
  | create {s : HeapState} {fileId : Uuid} (raw : Page) (more : s.pages + 1 < 2 ^ 31) :
      Effect (.create fileId) (.made s.heaps.length) s
        (s.withFirstPage s.heaps.length (s.heaps ++ [⟨fileId, s.pages⟩]) raw)
  | openEmpty {s : HeapState} {fileId : Uuid} :
      Effect (.openEmpty fileId) (.made s.heaps.length) s
        { s with heaps := s.heaps ++ [⟨fileId, invalidPageId⟩] }
  | first {s s' : HeapState} {i : Nat} {heap : HeapFile} {data : List UInt8} {answer : HeapAnswer}
      (raw : Page) (present : s.heaps[i]? = some heap) (lazy : heap.firstPageId = invalidPageId)
      (more : s.pages + 1 < 2 ^ 31)
      (rest : Effect (.insert i data) answer
        (s.withFirstPage i (s.heaps.set i { heap with firstPageId := s.pages }) raw) s') :
      Effect (.insert i data) answer s s'
  | placed {s : HeapState} {i : Nat} {heap : HeapFile} {data : List UInt8} {pageId : Int}
      {page page' : Page} (present : s.heaps[i]? = some heap)
      (found : (s.chain i).find? (HeapFile.room s.view data) = some pageId)
      (known : s.view pageId = some page) (appended : Appended page page' headerSize data) :
      Effect (.insert i data) (.placed (some ⟨pageId, SlottedPage.numSlots page headerSize⟩)) s
        (s.withPage pageId page')
  | grown {s : HeapState} {i : Nat} {heap : HeapFile} {data : List UInt8} {last : Int}
      {lastPage page : Page} {result : Option Rid} (present : s.heaps[i]? = some heap)
      (full : (s.chain i).find? (HeapFile.room s.view data) = none)
      (isLast : (s.chain i).getLast? = some last) (known : s.view last = some lastPage)
      (fresh : FreshPage data s.pages result page) (more : s.pages + 1 < 2 ^ 31) :
      Effect (.insert i data) (.placed result) s (s.withLastPage i last lastPage page)
  | get {s : HeapState} {i : Nat} {rid : Rid} :
      Effect (.get i rid) (.found (storedRecord s.view rid)) s s
  | update {s : HeapState} {i : Nat} {rid : Rid} {data : List UInt8} {success : Bool}
      {view' : Int → Option Page} (known : s.Known i rid)
      (changed : Changed s.view rid data success view') :
      Effect (.update i rid data) (.done success) s { s with view := view' }
  | delete {s : HeapState} {i : Nat} {rid : Rid} {view' : Int → Option Page}
      (known : s.Known i rid) (changed : Changed s.view rid [] true view') :
      Effect (.delete i rid) (.done true) s { s with view := view' }

variable {s s' : HeapState}

theorem Sound.page (sound : Sound s) {i : Nat} {pageId : Int} (member : pageId ∈ s.chain i) :
    0 ≤ pageId ∧ pageId < s.pages ∧
      ∃ page, s.view pageId = some page ∧ Layout page headerSize := by
  have bound : i < s.heaps.length := by
    by_contra outside
    rw [sound.beyond i (by omega)] at member
    cases member
  have linked := sound.linked i s.heaps[i] (List.getElem?_eq_getElem bound)
  obtain ⟨given, page, present, layout⟩ := linked.page member
  exact ⟨given, sound.inside i pageId member, page, present, layout⟩

/-- The pool and the disk have the pages of the chains. -/
theorem Sound.contents_eq {N : Nat} {bm : BufferManager N DiskManager} (sound : Sound s)
    (backed : BufferManager.Backed bm s.view) {i : Nat} {pageId : Int}
    (member : pageId ∈ s.chain i) : bm.contents pageId = s.view pageId := by
  obtain ⟨_, _, page, present, _⟩ := sound.page member
  rw [present, backed.contents_eq present]

theorem Sound.withPage (sound : Sound s) {pageId : Int} {page page' : Page}
    (present : s.view pageId = some page) (layout : Layout page' headerSize)
    (link : nextPageId page' = nextPageId page) : Sound (s.withPage pageId page') :=
  ⟨fun i heap found => (sound.linked i heap found).edit present layout link, sound.beyond,
    sound.nodup, sound.apart, sound.inside, sound.given, sound.room⟩

theorem Sound.fresh (sound : Sound s) (i : Nat) : s.pages ∉ s.chain i := by
  intro member
  have inside := sound.inside i _ member
  omega

/-- A chain that gains the new page at its end, and the pages it had before or some of them. -/
theorem Sound.extend (sound : Sound s) {i : Nat} {front : List Int}
    (kept : front.Sublist (s.chain i))
    (chain : s'.chain = Function.update s.chain i (front ++ [s.pages]))
    (pages : s'.pages = s.pages + 1) (more : s.pages + 1 < 2 ^ 31)
    (longer : s.heaps.length ≤ s'.heaps.length) (bound : i < s'.heaps.length)
    (linked : ∀ j heap, s'.heaps[j]? = some heap → Chain s'.view heap.firstPageId (s'.chain j)) :
    Sound s' := by
  have given := sound.given
  have old : ∀ j pageId, pageId ∈ s'.chain j → pageId ∈ s.chain j ∨ j = i ∧ pageId = s.pages := by
    intro j pageId member
    rw [chain] at member
    by_cases same : j = i
    · rw [same, Function.update_self, List.mem_append, List.mem_singleton] at member
      rcases member with before | new
      · exact Or.inl (by rw [same]; exact kept.subset before)
      · exact Or.inr ⟨same, new⟩
    · rw [Function.update_of_ne same] at member
      exact Or.inl member
  refine ⟨linked, ?_, ?_, ?_, ?_, by omega, by omega⟩
  · intro j outside
    have apart : j ≠ i := by omega
    rw [chain, Function.update_of_ne apart]
    exact sound.beyond j (Nat.le_trans longer outside)
  · intro j
    rw [chain]
    by_cases same : j = i
    · rw [same, Function.update_self]
      exact ((sound.nodup i).sublist kept).append (List.nodup_singleton _)
        (List.disjoint_singleton.mpr fun before => sound.fresh i (kept.subset before))
    · rw [Function.update_of_ne same]
      exact sound.nodup j
  · intro j k pageId first second
    rcases old j pageId first with firstOld | ⟨firstSame, new⟩
    · rcases old k pageId second with secondOld | ⟨_, new⟩
      · exact sound.apart j k pageId firstOld secondOld
      · rw [new] at firstOld
        exact absurd firstOld (sound.fresh j)
    · rcases old k pageId second with secondOld | ⟨secondSame, _⟩
      · rw [new] at secondOld
        exact absurd secondOld (sound.fresh k)
      · rw [firstSame, secondSame]
  · intro j pageId member
    rcases old j pageId member with before | ⟨_, new⟩
    · have inside := sound.inside j pageId before
      omega
    · omega

theorem Sound.withFirstPage (sound : Sound s) {i : Nat} {heaps : List HeapFile} {raw : Page}
    (more : s.pages + 1 < 2 ^ 31) (longer : s.heaps.length ≤ heaps.length) (bound : i < heaps.length)
    (here : ∀ heap, heaps[i]? = some heap → heap.firstPageId = s.pages)
    (there : ∀ j heap, j ≠ i → heaps[j]? = some heap → s.heaps[j]? = some heap) :
    Sound (s.withFirstPage i heaps raw) := by
  refine sound.extend (List.nil_sublist _) rfl rfl more longer bound ?_
  intro j heap found
  by_cases same : j = i
  · subst same
    simp only [HeapState.withFirstPage, Function.update_self, here heap found]
    refine .cons sound.given (Function.update_self _ _ _) (initHeapPage_layout raw) ?_
    rw [initHeapPage_nextPageId]
    exact .nil
  · simp only [HeapState.withFirstPage, Function.update_of_ne same]
    refine (sound.linked j heap (there j heap same found)).congr ?_
    intro pageId member
    have apart : pageId ≠ s.pages := by
      rintro rfl
      exact sound.fresh j member
    rw [Function.update_of_ne apart]

theorem Sound.withLastPage (sound : Sound s) {i : Nat} {heap : HeapFile} {last : Int}
    {lastPage page : Page} (present : s.heaps[i]? = some heap)
    (isLast : (s.chain i).getLast? = some last) (known : s.view last = some lastPage)
    (layout : Layout page headerSize) (link : nextPageId page = invalidPageId)
    (more : s.pages + 1 < 2 ^ 31) : Sound (s.withLastPage i last lastPage page) := by
  have bound := (List.getElem?_eq_some_iff.mp present).1
  refine sound.extend (List.Sublist.refl _) rfl rfl more (Nat.le_refl _) bound ?_
  intro j heap' found
  by_cases same : j = i
  · subst same
    simp only [HeapState.withLastPage, Function.update_self]
    exact (sound.linked j heap' found).grow (sound.nodup j) isLast known (sound.fresh j) sound.given
      sound.room layout link
  · simp only [HeapState.withLastPage, Function.update_of_ne same]
    refine (sound.linked j heap' found).congr ?_
    intro pageId other
    have notNew : pageId ≠ s.pages := by
      rintro rfl
      exact sound.fresh j other
    have notLast : pageId ≠ last := by
      rintro rfl
      exact same (sound.apart j i pageId other (List.mem_of_getLast? isLast))
    rw [Function.update_of_ne notNew, Function.update_of_ne notLast]

theorem Sound.changed (sound : Sound s) {rid : Rid} {data : List UInt8} {success : Bool}
    {view' : Int → Option Page} (changed : Changed s.view rid data success view') :
    Sound { s with view := view' } := by
  rcases changed.link with same | ⟨page, page', present, rewrites, same⟩
  · rw [same]
    exact sound
  · rw [same]
    exact sound.withPage present rewrites.layout (nextPageId_of_below rewrites.below)

theorem Effect.made {fileId : Uuid} {answer : HeapAnswer}
    (effect : Effect (.create fileId) answer s s') :
    ∃ raw, s' = s.withFirstPage s.heaps.length (s.heaps ++ [⟨fileId, s.pages⟩]) raw := by
  cases effect with
  | create raw more => exact ⟨raw, rfl⟩

theorem Effect.answer_placed {i : Nat} {data : List UInt8} {answer : HeapAnswer}
    (effect : Effect (.insert i data) answer s s') : ∃ result, answer = .placed result := by
  generalize opEq : HeapOp.insert i data = op at effect
  induction effect with
  | create => cases opEq
  | openEmpty => cases opEq
  | first _ _ _ _ _ ih => exact ih opEq
  | placed => exact ⟨_, rfl⟩
  | grown => exact ⟨_, rfl⟩
  | get => cases opEq
  | update => cases opEq
  | delete => cases opEq

theorem Effect.count {op : HeapOp} {answer : HeapAnswer} (effect : Effect op answer s s') :
    s'.heaps.length = match op with
      | .create _ => s.heaps.length + 1
      | .openEmpty _ => s.heaps.length + 1
      | _ => s.heaps.length := by
  induction effect with
  | create => simp only [HeapState.withFirstPage, List.length_append, List.length_singleton]
  | openEmpty => simp only [List.length_append, List.length_singleton]
  | first raw present lazy more rest ih =>
      simpa only [HeapState.withFirstPage, List.length_set] using ih
  | placed => rfl
  | grown => rfl
  | get => rfl
  | update => rfl
  | delete => rfl

theorem Effect.count_le {op : HeapOp} {answer : HeapAnswer} (effect : Effect op answer s s') :
    s.heaps.length ≤ s'.heaps.length := by
  rw [effect.count]
  cases op <;> simp only [Nat.le_refl, Nat.le_add_right]

/-- Every call keeps the chains sound. -/
theorem Effect.sound {op : HeapOp} {answer : HeapAnswer} (effect : Effect op answer s s')
    (sound : Sound s) : Sound s' := by
  induction effect with
  | create raw more =>
      refine sound.withFirstPage more (by simp) (by simp) ?_ ?_
      · intro heap found
        rw [List.getElem?_append_right (Nat.le_refl _), Nat.sub_self] at found
        cases found
        rfl
      · intro j heap apart found
        rw [List.getElem?_append] at found
        split at found
        · exact found
        · rename_i outside
          rw [List.getElem?_singleton] at found
          split at found
          · omega
          · cases found
  | @openEmpty s fileId =>
      refine ⟨?_, ?_, sound.nodup, sound.apart, sound.inside, sound.given, sound.room⟩
      · intro j heap found
        rw [List.getElem?_append] at found
        split at found
        · exact sound.linked j heap found
        · rename_i outside
          rw [List.getElem?_singleton] at found
          split at found
          · cases found
            rw [sound.beyond j (by omega)]
            exact .nil
          · cases found
      · intro j outside
        rw [List.length_append, List.length_singleton] at outside
        exact sound.beyond j (by omega)
  | @first s s' i heap data answer raw present lazy more rest ih =>
      have bound := (List.getElem?_eq_some_iff.mp present).1
      refine ih (sound.withFirstPage more (by simp) (by simpa using bound) ?_ ?_)
      · intro heap' found
        rw [List.getElem?_set_self bound] at found
        cases found
        rfl
      · intro j heap' apart found
        rwa [List.getElem?_set_ne (Ne.symm apart)] at found
  | @placed s i heap data pageId page page' present found known appended =>
      have member := List.mem_of_find?_eq_some found
      obtain ⟨_, _, page₁, known₁, layout⟩ := sound.page member
      rw [known] at known₁
      cases known₁
      have fits := (room_iff known).mp (List.find?_some found)
      exact sound.withPage known (appended.layout layout fits) (nextPageId_of_below appended.below)
  | grown present full isLast known fresh more =>
      exact sound.withLastPage present isLast known fresh.layout fresh.link more
  | get => exact sound
  | update known changed => exact sound.changed changed
  | delete known changed => exact sound.changed changed

theorem Known.bound {i : Nat} {rid : Rid} (known : s.Known i rid) (sound : Sound s) :
    i < s.heaps.length := by
  by_contra outside
  have member := known.1
  rw [sound.beyond i (by omega)] at member
  cases member

theorem Known.heap_eq {i j : Nat} {rid : Rid} (known : s.Known i rid) (other : s.Known j rid)
    (sound : Sound s) : i = j :=
  sound.apart i j rid.pageId known.1 other.1

theorem Known.inside {i : Nat} {rid : Rid} (known : s.Known i rid) (sound : Sound s) :
    rid.pageId < s.pages :=
  sound.inside i _ known.1

theorem Known.withPage {i : Nat} {rid : Rid} {pageId : Int} {page page' : Page}
    (known : s.Known i rid) (present : s.view pageId = some page)
    (grows : SlottedPage.numSlots page headerSize ≤ SlottedPage.numSlots page' headerSize) :
    (s.withPage pageId page').Known i rid := by
  obtain ⟨member, current, found, inside⟩ := known
  refine ⟨member, ?_⟩
  by_cases here : rid.pageId = pageId
  · rw [here, present] at found
    cases found
    refine ⟨page', ?_, Nat.lt_of_lt_of_le inside grows⟩
    simp only [HeapState.withPage, here, Function.update_self]
  · refine ⟨current, ?_, inside⟩
    simp only [HeapState.withPage, Function.update_of_ne here, found]

theorem Known.withFirstPage {i j : Nat} {rid : Rid} {heaps : List HeapFile} {raw : Page}
    (known : s.Known j rid) (sound : Sound s) (empty : s.chain i = []) :
    (s.withFirstPage i heaps raw).Known j rid := by
  have old := known.inside sound
  obtain ⟨member, current, found, inside⟩ := known
  have apart : j ≠ i := by
    rintro rfl
    rw [empty] at member
    cases member
  have older : rid.pageId ≠ s.pages := by omega
  refine ⟨?_, current, ?_, inside⟩
  · simp only [HeapState.withFirstPage, Function.update_of_ne apart, member]
  · simp only [HeapState.withFirstPage, Function.update_of_ne older, found]

theorem Known.withLastPage {i j : Nat} {rid : Rid} {last : Int} {lastPage page : Page}
    (known : s.Known j rid) (sound : Sound s) (present : s.view last = some lastPage) :
    (s.withLastPage i last lastPage page).Known j rid := by
  have old := known.inside sound
  obtain ⟨member, current, found, inside⟩ := known
  have older : rid.pageId ≠ s.pages := by omega
  refine ⟨?_, ?_⟩
  · by_cases same : j = i
    · simp only [HeapState.withLastPage, same, Function.update_self]
      rw [same] at member
      exact List.mem_append_left _ member
    · simp only [HeapState.withLastPage, Function.update_of_ne same, member]
  · by_cases here : rid.pageId = last
    · rw [here, present] at found
      cases found
      refine ⟨setNextPageId lastPage s.pages, ?_, by rwa [setNextPageId_numSlots]⟩
      rw [here] at older
      simp only [HeapState.withLastPage, here, Function.update_of_ne older, Function.update_self]
    · refine ⟨current, ?_, inside⟩
      simp only [HeapState.withLastPage, Function.update_of_ne older, Function.update_of_ne here,
        found]

theorem Known.changed {i : Nat} {rid other : Rid} {data : List UInt8} {success : Bool}
    {view' : Int → Option Page} (known : s.Known i other)
    (changed : Changed s.view rid data success view') : Known { s with view := view' } i other := by
  rcases changed.link with same | ⟨page, page', present, rewrites, same⟩
  · rw [same]
    exact known
  · rw [same]
    exact known.withPage present (Nat.le_of_eq rewrites.numSlots_eq.symm)

theorem Sound.chain_nil (sound : Sound s) {i : Nat} {heap : HeapFile}
    (present : s.heaps[i]? = some heap) (lazy : heap.firstPageId = invalidPageId) :
    s.chain i = [] := by
  have linked := sound.linked i heap present
  rw [lazy] at linked
  exact linked.unique .nil

theorem Sound.made (sound : Sound s) {i : Nat} {heap : HeapFile} {raw : Page}
    (present : s.heaps[i]? = some heap) (more : s.pages + 1 < 2 ^ 31) :
    Sound (s.withFirstPage i (s.heaps.set i { heap with firstPageId := s.pages }) raw) := by
  have bound := (List.getElem?_eq_some_iff.mp present).1
  apply sound.withFirstPage more
  · rw [List.length_set]
  · rwa [List.length_set]
  · intro heap' found
    rw [List.getElem?_set_self bound] at found
    cases found
    rfl
  · intro j heap' apart found
    rwa [List.getElem?_set_ne (Ne.symm apart)] at found

/-- Chains only grow at their ends. -/
theorem Effect.chain_append {op : HeapOp} {answer : HeapAnswer} (effect : Effect op answer s s')
    (sound : Sound s) {i : Nat} (bound : i < s.heaps.length) :
    ∃ more, s'.chain i = s.chain i ++ more := by
  induction effect with
  | @create s fileId raw more =>
      refine ⟨[], ?_⟩
      rw [List.append_nil]
      exact Function.update_of_ne (by omega) _ _
  | openEmpty => exact ⟨[], (List.append_nil _).symm⟩
  | @first s s' j heap data answer raw present lazy more rest ih =>
      obtain ⟨later, grown⟩ := ih (sound.made present more)
        (by simpa only [HeapState.withFirstPage, List.length_set] using bound)
      rw [grown]
      by_cases same : i = j
      · subst same
        refine ⟨[s.pages] ++ later, ?_⟩
        rw [sound.chain_nil present lazy]
        simp only [HeapState.withFirstPage, Function.update_self, List.nil_append]
      · refine ⟨later, ?_⟩
        simp only [HeapState.withFirstPage, Function.update_of_ne same]
  | placed => exact ⟨[], (List.append_nil _).symm⟩
  | @grown s j heap data last lastPage page result present full isLast known fresh more =>
      by_cases same : i = j
      · subst same
        exact ⟨[s.pages], Function.update_self _ _ _⟩
      · refine ⟨[], ?_⟩
        rw [List.append_nil]
        exact Function.update_of_ne same _ _
  | get => exact ⟨[], (List.append_nil _).symm⟩
  | update => exact ⟨[], (List.append_nil _).symm⟩
  | delete => exact ⟨[], (List.append_nil _).symm⟩

theorem Effect.known {op : HeapOp} {answer : HeapAnswer} (effect : Effect op answer s s')
    (sound : Sound s) {i : Nat} {rid : Rid} (known : s.Known i rid) : s'.Known i rid := by
  induction effect with
  | create raw more => exact known.withFirstPage sound (sound.beyond _ (Nat.le_refl _))
  | openEmpty => exact known
  | first raw present lazy more rest ih =>
      exact ih (sound.made present more)
        (known.withFirstPage sound (sound.chain_nil present lazy))
  | placed present found present' appended =>
      exact known.withPage present' (by rw [appended.numSlots_eq]; exact Nat.le_succ _)
  | grown present full isLast present' fresh more => exact known.withLastPage sound present'
  | get => exact known
  | update _ changed => exact known.changed changed
  | delete _ changed => exact known.changed changed

theorem Known.of_withFirstPage {i j : Nat} {rid : Rid} {heaps : List HeapFile} {raw : Page}
    (known : (s.withFirstPage i heaps raw).Known j rid) : s.Known j rid := by
  obtain ⟨member, page, present, inside⟩ := known
  by_cases new : rid.pageId = s.pages
  · simp only [HeapState.withFirstPage, new, Function.update_self, Option.some.injEq] at present
    subst present
    rw [initHeapPage_numSlots] at inside
    exact absurd inside (Nat.not_lt_zero _)
  · have apart : j ≠ i := by
      rintro rfl
      simp only [HeapState.withFirstPage, Function.update_self, List.mem_singleton] at member
      exact new member
    simp only [HeapState.withFirstPage, Function.update_of_ne apart] at member
    simp only [HeapState.withFirstPage, Function.update_of_ne new] at present
    exact ⟨member, page, present, inside⟩

theorem Known.of_changed {i : Nat} {rid other : Rid} {data : List UInt8} {success : Bool}
    {view' : Int → Option Page} (changed : Changed s.view rid data success view')
    (known : Known { s with view := view' } i other) : s.Known i other := by
  rcases changed.link with same | ⟨page, page', present, rewrites, same⟩
  · rwa [same] at known
  · obtain ⟨member, current, found, inside⟩ := known
    replace found : view' other.pageId = some current := found
    rw [same] at found
    refine ⟨member, ?_⟩
    by_cases here : other.pageId = rid.pageId
    · rw [here, Function.update_self, Option.some.injEq] at found
      subst found
      rw [rewrites.numSlots_eq] at inside
      exact ⟨page, by rw [here, present], inside⟩
    · rw [Function.update_of_ne here] at found
      exact ⟨current, found, inside⟩

/-- Only an insertion that gives a record id makes one. -/
theorem Effect.known_cases {op : HeapOp} {answer : HeapAnswer} (effect : Effect op answer s s')
    (sound : Sound s) {i : Nat} {rid : Rid} (known : s'.Known i rid) : s.Known i rid ∨
      ∃ data, op = .insert i data ∧ answer = .placed (some rid) := by
  induction effect with
  | create raw more => exact Or.inl known.of_withFirstPage
  | openEmpty => exact Or.inl known
  | first raw present lazy more rest ih =>
      rcases ih (sound.made present more) known with old | new
      · exact Or.inl old.of_withFirstPage
      · exact Or.inr new
  | @placed s j heap data pageId page page' present found known' appended =>
      obtain ⟨member, current, here, inside⟩ := known
      by_cases onPage : rid.pageId = pageId
      · simp only [HeapState.withPage, onPage, Function.update_self, Option.some.injEq] at here
        subst here
        rw [appended.numSlots_eq] at inside
        rcases Nat.lt_succ_iff_lt_or_eq.mp inside with old | last
        · exact Or.inl ⟨member, page, by rw [onPage, known'], old⟩
        · have owner : i = j := sound.apart i j pageId (onPage ▸ member)
            (List.mem_of_find?_eq_some found)
          right
          refine ⟨data, by rw [owner], ?_⟩
          rw [← onPage, ← last]
      · simp only [HeapState.withPage, Function.update_of_ne onPage] at here
        exact Or.inl ⟨member, current, here, inside⟩
  | @grown s j heap data last lastPage page result present full isLast known' fresh more =>
      obtain ⟨member, current, here, inside⟩ := known
      simp only [HeapState.withLastPage] at member here
      by_cases new : rid.pageId = s.pages
      · rw [new, Function.update_self, Option.some.injEq] at here
        subst here
        have owner : i = j := by
          by_contra apart
          rw [Function.update_of_ne apart, new] at member
          exact sound.fresh i member
        cases fresh with
        | placed fits appended =>
            rw [appended.numSlots_eq, initHeapPage_numSlots] at inside
            have slot : rid.slotId = 0 := by omega
            right
            refine ⟨data, by rw [owner], ?_⟩
            rw [← new, ← slot]
        | tooLong =>
            rw [initHeapPage_numSlots] at inside
            exact absurd inside (Nat.not_lt_zero _)
      · rw [Function.update_of_ne new] at here
        have old : rid.pageId ∈ s.chain i := by
          by_cases same : i = j
          · subst same
            rw [Function.update_self, List.mem_append, List.mem_singleton] at member
            exact member.resolve_right new
          · rwa [Function.update_of_ne same] at member
        left
        refine ⟨old, ?_⟩
        by_cases onLast : rid.pageId = last
        · rw [onLast, Function.update_self, Option.some.injEq] at here
          subst here
          rw [setNextPageId_numSlots] at inside
          exact ⟨lastPage, by rw [onLast, known'], inside⟩
        · rw [Function.update_of_ne onLast] at here
          exact ⟨current, here, inside⟩
  | get => exact Or.inl known
  | update _ changed => exact Or.inl (known.of_changed changed)
  | delete _ changed => exact Or.inl (known.of_changed changed)

/-- An insertion that gives a record id gives a new one, of its heap, and that
the data was stored under. -/
theorem Effect.placed_new {i : Nat} {data : List UInt8} {rid : Rid}
    (effect : Effect (.insert i data) (.placed (some rid)) s s') (sound : Sound s) :
    s'.Known i rid ∧ storedRecord s'.view rid = SlottedPage.visible data ∧
      ∀ j, ¬ s.Known j rid := by
  generalize opEq : HeapOp.insert i data = op at effect
  generalize answerEq : HeapAnswer.placed (some rid) = answer at effect
  induction effect with
  | create => cases opEq
  | openEmpty => cases opEq
  | get => cases opEq
  | update => cases opEq
  | delete => cases opEq
  | first raw present lazy more rest ih =>
      obtain ⟨known, stored, new⟩ := ih (sound.made present more) opEq answerEq
      cases opEq
      refine ⟨known, stored, ?_⟩
      intro j old
      exact new j (old.withFirstPage sound (sound.chain_nil present lazy))
  | @placed s j heap data' pageId page page' present found known appended =>
      cases opEq
      cases answerEq
      have member := List.mem_of_find?_eq_some found
      refine ⟨⟨member, page', Function.update_self _ _ _, ?_⟩, ?_, ?_⟩
      · rw [appended.numSlots_eq]
        exact Nat.lt_succ_self _
      · unfold HeapState.withPage
        exact (storedRecord_update_self ⟨pageId, _⟩).trans appended.record_new
      · rintro k ⟨_, page₁, present₁, inside⟩
        rw [known] at present₁
        cases present₁
        exact absurd inside (Nat.lt_irrefl _)
  | @grown s j heap data' last lastPage page result present full isLast known fresh more =>
      cases opEq
      cases answerEq
      cases fresh with
      | @placed raw _ fits appended =>
          have slots := initHeapPage_numSlots raw
          have recordNew := appended.record_new
          rw [slots] at recordNew
          refine ⟨⟨?_, page, Function.update_self _ _ _, ?_⟩, ?_, ?_⟩
          · simp only [HeapState.withLastPage, Function.update_self]
            exact List.mem_append_right _ List.mem_cons_self
          · rw [appended.numSlots_eq]
            exact Nat.succ_pos _
          · unfold HeapState.withLastPage
            exact (storedRecord_update_self ⟨s.pages, 0⟩).trans recordNew
          · intro k old
            exact sound.fresh k old.1

/-- What a call leaves under a record id that was there before. -/
def recordAfter (op : HeapOp) (answer : HeapAnswer) (rid : Rid) (old : Option (List UInt8)) :
    Option (List UInt8) :=
  match op, answer with
  | .update _ other data, .done true => if rid = other then SlottedPage.visible data else old
  | .delete _ other, .done true => if rid = other then none else old
  | _, _ => old

theorem storedRecord_withFirstPage {i : Nat} {heaps : List HeapFile} {raw : Page} {rid : Rid}
    (older : rid.pageId < s.pages) :
    storedRecord (s.withFirstPage i heaps raw).view rid = storedRecord s.view rid :=
  storedRecord_update_other (by omega)

theorem storedRecord_withLastPage (sound : Sound s) {i : Nat} {last : Int} {lastPage page : Page}
    {rid : Rid} (member : last ∈ s.chain i) (present : s.view last = some lastPage)
    (older : rid.pageId < s.pages) :
    storedRecord (s.withLastPage i last lastPage page).view rid = storedRecord s.view rid := by
  obtain ⟨_, _, page₁, present₁, layout⟩ := sound.page member
  rw [present] at present₁
  cases present₁
  unfold HeapState.withLastPage
  rw [storedRecord_update_other (by omega)]
  by_cases here : rid.pageId = last
  · rw [← here, storedRecord_update_self, setNextPageId_record _ _ _ layout,
      storedRecord_eq (by rw [here]; exact present)]
  · exact storedRecord_update_other here

theorem storedRecord_changed {view view' : Int → Option Page} {rid other : Rid} {data : List UInt8}
    {success : Bool} (changed : Changed view other data success view') :
    storedRecord view' rid =
      if success = true ∧ rid = other then SlottedPage.visible data else storedRecord view rid := by
  cases changed with
  | refused => simp only [Bool.false_eq_true, false_and, ↓reduceIte]
  | @rewritten page page' present inside rewrites =>
      by_cases same : rid = other
      · subst same
        simp only [and_self, ↓reduceIte]
        rw [storedRecord_update_self, rewrites.record_same]
      · simp only [same, and_false, ↓reduceIte]
        by_cases here : rid.pageId = other.pageId
        · have slots : rid.slotId ≠ other.slotId := by
            intro equal
            apply same
            cases rid
            cases other
            simp_all
          rw [← here, storedRecord_update_self, rewrites.record_other _ slots,
            storedRecord_eq (by rw [here]; exact present)]
        · exact storedRecord_update_other here

/-- A call changes the record it names and no other. -/
theorem Effect.record {op : HeapOp} {answer : HeapAnswer} (effect : Effect op answer s s')
    (sound : Sound s) {i : Nat} {rid : Rid} (known : s.Known i rid) :
    storedRecord s'.view rid = recordAfter op answer rid (storedRecord s.view rid) := by
  induction effect with
  | create raw more => exact storedRecord_withFirstPage (known.inside sound)
  | openEmpty => rfl
  | first raw present lazy more rest ih =>
      rw [ih (sound.made present more) (known.withFirstPage sound (sound.chain_nil present lazy)),
        storedRecord_withFirstPage (known.inside sound)]
  | @placed s j heap data pageId page page' present found present' appended =>
      obtain ⟨_, _, page₁, present₁, layout⟩ := sound.page (List.mem_of_find?_eq_some found)
      rw [present'] at present₁
      cases present₁
      by_cases here : rid.pageId = pageId
      · subst here
        obtain ⟨_, current, found', inside⟩ := known
        rw [present'] at found'
        cases found'
        unfold HeapState.withPage
        rw [storedRecord_update_self, appended.record_old layout _ inside, storedRecord_eq present']
        rfl
      · exact storedRecord_update_other here
  | grown present full isLast present' fresh more =>
      exact storedRecord_withLastPage sound (List.mem_of_getLast? isLast) present'
        (known.inside sound)
  | get => rfl
  | @update s j other data success view' _ changed =>
      rw [storedRecord_changed changed]
      cases success <;> simp [recordAfter]
  | @delete s j other view' _ changed =>
      rw [storedRecord_changed changed]
      simp [recordAfter, SlottedPage.visible]

end HeapState

/-- The heap whose pages a call may change. -/
def HeapOp.target : HeapOp → Option Nat
  | .create _ => none
  | .openEmpty _ => none
  | .insert i _ => some i
  | .get _ _ => none
  | .update i _ _ => some i
  | .delete i _ => some i

namespace HeapState

variable {s s' : HeapState}

theorem Effect.pages_le {op : HeapOp} {answer : HeapAnswer} (effect : Effect op answer s s') :
    s.pages ≤ s'.pages := by
  induction effect with
  | create => exact Int.le_add_one (Int.le_refl _)
  | openEmpty => exact Int.le_refl _
  | first raw present lazy more rest ih => exact Int.le_trans (Int.le_add_one (Int.le_refl _)) ih
  | placed => exact Int.le_refl _
  | grown => exact Int.le_add_one (Int.le_refl _)
  | get => exact Int.le_refl _
  | update => exact Int.le_refl _
  | delete => exact Int.le_refl _

theorem Effect.pages_create {fileId : Uuid} {answer : HeapAnswer}
    (effect : Effect (.create fileId) answer s s') : s'.pages = s.pages + 1 := by
  cases effect with
  | create => rfl

/-- An insertion into a heap that has a first page takes at most one page id. -/
theorem Effect.pages_insert {i : Nat} {heap : HeapFile} {data : List UInt8} {answer : HeapAnswer}
    (effect : Effect (.insert i data) answer s s') (present : s.heaps[i]? = some heap)
    (made : heap.firstPageId ≠ invalidPageId) : s'.pages ≤ s.pages + 1 := by
  cases effect with
  | first _ found lazy =>
      rw [present] at found
      cases found
      exact absurd lazy made
  | placed => exact Int.le_add_one (Int.le_refl _)
  | grown => exact Int.le_refl _

theorem view_changed {view view' : Int → Option Page} {rid : Rid} {data : List UInt8}
    {success : Bool} {pageId : Int} (changed : Changed view rid data success view')
    (apart : pageId ≠ rid.pageId) : view' pageId = view pageId := by
  rcases changed.link with same | ⟨_, page', _, _, same⟩
  · rw [same]
  · rw [same, Function.update_of_ne apart]

/-- Pages outside the chain of the target keep their bytes. -/
theorem Effect.view_eq {op : HeapOp} {answer : HeapAnswer} (effect : Effect op answer s s')
    {pageId : Int} (older : pageId < s.pages)
    (apart : ∀ i, op.target = some i → pageId ∉ s.chain i) : s'.view pageId = s.view pageId := by
  have notNew : pageId ≠ s.pages := by omega
  induction effect with
  | create => exact Function.update_of_ne notNew _ _
  | openEmpty => rfl
  | @first s s' i heap data answer raw present lazy more rest ih =>
      have later : pageId < s.pages + 1 := by omega
      have stillApart : ∀ j, (HeapOp.insert i data).target = some j →
          pageId ∉ (s.withFirstPage i (s.heaps.set i { heap with firstPageId := s.pages }) raw).chain
            j := by
        intro j same
        cases same
        simp only [HeapState.withFirstPage, Function.update_self, List.mem_singleton]
        exact notNew
      rw [ih later stillApart (by simp only [HeapState.withFirstPage]; omega)]
      exact Function.update_of_ne notNew _ _
  | @placed s i heap data target page page' present found known appended =>
      have different : pageId ≠ target := by
        intro same
        apply apart i rfl
        rw [same]
        exact List.mem_of_find?_eq_some found
      exact Function.update_of_ne different _ _
  | @grown s i heap data last lastPage page result present full isLast known fresh more =>
      have different : pageId ≠ last := by
        intro same
        apply apart i rfl
        rw [same]
        exact List.mem_of_getLast? isLast
      simp only [HeapState.withLastPage]
      rw [Function.update_of_ne notNew, Function.update_of_ne different]
  | get => rfl
  | @update s i rid data success view' known changed =>
      apply view_changed changed
      intro same
      apply apart i rfl
      rw [same]
      exact known.1
  | @delete s i rid view' known changed =>
      apply view_changed changed
      intro same
      apply apart i rfl
      rw [same]
      exact known.1

theorem Effect.chain_eq {op : HeapOp} {answer : HeapAnswer} (effect : Effect op answer s s')
    {j : Nat} (bound : j < s.heaps.length) (apart : op.target ≠ some j) :
    s'.chain j = s.chain j := by
  induction effect with
  | create => exact Function.update_of_ne (by omega) _ _
  | openEmpty => rfl
  | @first s s' i heap data answer raw present lazy more rest ih =>
      have different : j ≠ i := fun same => apart (by rw [same]; rfl)
      have longer : j < (s.withFirstPage i (s.heaps.set i { heap with firstPageId := s.pages })
          raw).heaps.length := by
        simpa only [HeapState.withFirstPage, List.length_set] using bound
      rw [ih longer apart]
      exact Function.update_of_ne different _ _
  | placed => rfl
  | @grown s i heap data last lastPage page result present full isLast known fresh more =>
      have different : j ≠ i := fun same => apart (by rw [same]; rfl)
      exact Function.update_of_ne different _ _
  | get => rfl
  | update => rfl
  | delete => rfl

theorem Effect.heaps_kept {op : HeapOp} {answer : HeapAnswer} (effect : Effect op answer s s')
    {j : Nat} {heap : HeapFile} (present : s.heaps[j]? = some heap)
    (made : heap.firstPageId ≠ invalidPageId) : s'.heaps[j]? = some heap := by
  have bound := (List.getElem?_eq_some_iff.mp present).1
  induction effect with
  | create =>
      simp only [HeapState.withFirstPage]
      rw [List.getElem?_append_left bound, present]
  | openEmpty => rw [List.getElem?_append_left bound, present]
  | @first s s' i other data answer raw found lazy more rest ih =>
      have different : i ≠ j := by
        intro same
        rw [same, present] at found
        cases found
        exact made lazy
      apply ih
      · simp only [HeapState.withFirstPage]
        rw [List.getElem?_set_ne different, present]
      · simpa only [HeapState.withFirstPage, List.length_set] using bound
  | placed => exact present
  | grown => exact present
  | get => exact present
  | update => exact present
  | delete => exact present

theorem Effect.heap {i : Nat} {data : List UInt8} {answer : HeapAnswer}
    (effect : Effect (.insert i data) answer s s') : ∃ heap, s.heaps[i]? = some heap := by
  cases effect with
  | first _ present => exact ⟨_, present⟩
  | placed present => exact ⟨_, present⟩
  | grown present => exact ⟨_, present⟩

theorem Effect.longer_of_refused {i : Nat} {data : List UInt8} {answer : HeapAnswer}
    (effect : Effect (.insert i data) answer s s') (sound : Sound s)
    (refused : answer = .placed none) : (s.chain i).length < (s'.chain i).length := by
  generalize opEq : HeapOp.insert i data = op at effect
  induction effect with
  | create => cases opEq
  | openEmpty => cases opEq
  | get => cases opEq
  | update => cases opEq
  | delete => cases opEq
  | placed => cases refused
  | first raw present lazy more rest ih =>
      cases opEq
      have longer := ih (sound.made present more) refused rfl
      rw [sound.chain_nil present lazy]
      exact Nat.lt_of_le_of_lt (Nat.zero_le _) longer
  | grown =>
      cases opEq
      simp [HeapState.withLastPage]

end HeapState

end RelationalDb
