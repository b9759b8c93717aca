import RelationalDb.Access.HeapOrder
import RelationalDb.Access.HeapRuns

set_option autoImplicit false

namespace RelationalDb

open HeapFile
open BufferManager (Steady)
open Program (Ensures Ends)
open SlottedPage (Layout)

namespace HeapState

variable {s s' : HeapState}

/-- The pages on the chains and their links. -/
def links (s : HeapState) (sound : s.Sound) : Links where
  owned pageId := ∃ i, pageId ∈ s.chain i
  next pageId := ((s.view pageId).map nextPageId).getD invalidPageId
  pages := s.pages
  given := by
    rintro pageId ⟨i, member⟩
    obtain ⟨given, inside, _⟩ := sound.page member
    exact ⟨given, inside⟩
  room := sound.room

theorem links_next (sound : s.Sound) {pageId : Int} {page : Page}
    (present : s.view pageId = some page) : (s.links sound).next pageId = nextPageId page := by
  show ((s.view pageId).map nextPageId).getD invalidPageId = nextPageId page
  rw [present, Option.map_some, Option.getD_some]

/-- The pages of a chain are as they should be. -/
theorem Sound.fits (sound : s.Sound) {i : Nat} {pageId : Int} {page : Page}
    (member : pageId ∈ s.chain i) (present : s.view pageId = some page) :
    (s.links sound).Fits pageId page := by
  obtain ⟨_, _, page', present', layout⟩ := sound.page member
  rw [present, Option.some.injEq] at present'
  exact ⟨⟨i, member⟩, by rw [present']; exact layout, Or.inr (links_next sound present).symm⟩

theorem grows_of_view (sound : s.Sound) (sound' : s'.Sound) (pages : s.pages ≤ s'.pages)
    (kept : ∀ i, ∀ pageId ∈ s.chain i, pageId ∈ s'.chain i)
    (new : ∀ i, ∀ pageId ∈ s'.chain i, pageId ∈ s.chain i ∨ s.pages ≤ pageId)
    (view : ∀ i, ∀ pageId ∈ s.chain i, ∀ page, s.view pageId = some page →
      ∃ page', s'.view pageId = some page' ∧
        (nextPageId page = invalidPageId ∨ nextPageId page = nextPageId page')) :
    (s.links sound).Grows (s'.links sound') := by
  refine ⟨?_, ?_, ?_, pages⟩
  · rintro pageId ⟨i, member⟩
    exact ⟨i, kept i pageId member⟩
  · rintro pageId ⟨i, member⟩
    exact (new i pageId member).imp (fun old => ⟨i, old⟩) id
  · rintro pageId ⟨i, member⟩
    obtain ⟨_, _, page, present, _⟩ := sound.page member
    obtain ⟨page', present', leads⟩ := view i pageId member page present
    rw [links_next sound present, links_next sound' present']
    exact leads

theorem grows_withFirstPage (sound : s.Sound) {i : Nat} {heaps : List HeapFile} {raw : Page}
    (none : s.chain i = []) (sound' : (s.withFirstPage i heaps raw).Sound) :
    (s.links sound).Grows ((s.withFirstPage i heaps raw).links sound') := by
  apply grows_of_view sound sound' (Int.le_add_one (Int.le_refl _))
  · intro j pageId member
    have apart : j ≠ i := by
      rintro rfl
      rw [none] at member
      cases member
    simpa only [HeapState.withFirstPage, Function.update_of_ne apart] using member
  · intro j pageId member
    by_cases same : j = i
    · simp only [HeapState.withFirstPage, same, Function.update_self, List.mem_singleton] at member
      exact Or.inr (by omega)
    · simp only [HeapState.withFirstPage, Function.update_of_ne same] at member
      exact Or.inl member
  · intro j pageId member page present
    have notNew : pageId ≠ s.pages := by
      rintro rfl
      exact sound.fresh j member
    exact ⟨page, by simp only [HeapState.withFirstPage, Function.update_of_ne notNew, present],
      Or.inr rfl⟩

theorem grows_remade {i : Nat} {heaps : List HeapFile} {raw other : Page}
    (sound : (s.withFirstPage i heaps other).Sound) (sound' : (s.withFirstPage i heaps raw).Sound) :
    ((s.withFirstPage i heaps other).links sound).Grows
      ((s.withFirstPage i heaps raw).links sound') := by
  apply grows_of_view sound sound' (Int.le_refl _) (fun _ _ member => member)
    (fun _ _ member => Or.inl member)
  intro j pageId member page present
  by_cases new : pageId = s.pages
  · subst new
    simp only [HeapState.withFirstPage, Function.update_self, Option.some.injEq] at present
    rw [← present]
    exact ⟨initHeapPage raw, Function.update_self _ _ _, Or.inl (initHeapPage_nextPageId other)⟩
  · simp only [HeapState.withFirstPage, Function.update_of_ne new] at present
    exact ⟨page, by simp only [HeapState.withFirstPage, Function.update_of_ne new, present],
      Or.inr rfl⟩

theorem grows_withPage (sound : s.Sound) {pageId : Int} {page page' : Page}
    (present : s.view pageId = some page) (link : nextPageId page' = nextPageId page)
    (sound' : (s.withPage pageId page').Sound) :
    (s.links sound).Grows ((s.withPage pageId page').links sound') := by
  apply grows_of_view sound sound' (Int.le_refl _) (fun _ _ member => member)
    (fun _ _ member => Or.inl member)
  intro i other member old found
  by_cases same : other = pageId
  · subst same
    rw [present, Option.some.injEq] at found
    exact ⟨page', Function.update_self _ _ _, Or.inr (by rw [link, found])⟩
  · exact ⟨old, by simp only [HeapState.withPage, Function.update_of_ne same, found], Or.inr rfl⟩

theorem grows_changed (sound : s.Sound) {rid : Rid} {data : List UInt8} {success : Bool}
    {view' : Int → Option Page} (changed : Changed s.view rid data success view')
    (sound' : ({ s with view := view' } : HeapState).Sound) :
    (s.links sound).Grows (({ s with view := view' } : HeapState).links sound') := by
  cases changed with
  | refused => exact .refl _
  | rewritten present inside rewrites =>
      exact grows_withPage sound present (nextPageId_of_below rewrites.below) sound'

theorem grows_withLastPage (sound : s.Sound) {i : Nat} {heap : HeapFile} {last : Int}
    {lastPage page : Page} (present : s.heaps[i]? = some heap)
    (isLast : (s.chain i).getLast? = some last) (known : s.view last = some lastPage)
    (sound' : (s.withLastPage i last lastPage page).Sound) :
    (s.links sound).Grows ((s.withLastPage i last lastPage page).links sound') := by
  apply grows_of_view sound sound' (Int.le_add_one (Int.le_refl _))
  · intro j pageId member
    by_cases same : j = i
    · subst same
      simp only [HeapState.withLastPage, Function.update_self]
      exact List.mem_append_left _ member
    · simpa only [HeapState.withLastPage, Function.update_of_ne same] using member
  · intro j pageId member
    by_cases same : j = i
    · subst same
      simp only [HeapState.withLastPage, Function.update_self, List.mem_append,
        List.mem_singleton] at member
      exact member.imp id fun new => by omega
    · simp only [HeapState.withLastPage, Function.update_of_ne same] at member
      exact Or.inl member
  · intro j pageId member old found
    have notNew : pageId ≠ s.pages := by
      rintro rfl
      exact sound.fresh j member
    by_cases same : pageId = last
    · subst same
      have ends := (sound.linked i heap present).last isLast found
      exact ⟨setNextPageId lastPage s.pages, by simp only [HeapState.withLastPage,
        Function.update_of_ne notNew, Function.update_self], Or.inl ends⟩
    · exact ⟨old, by simp only [HeapState.withLastPage, Function.update_of_ne notNew,
        Function.update_of_ne same, found], Or.inr rfl⟩

theorem Effect.grows {op : HeapOp} {answer : HeapAnswer} (effect : Effect op answer s s')
    (sound : s.Sound) (sound' : s'.Sound) : (s.links sound).Grows (s'.links sound') := by
  induction effect with
  | create raw more => exact grows_withFirstPage sound (sound.beyond _ (Nat.le_refl _)) sound'
  | openEmpty =>
      exact grows_of_view sound sound' (Int.le_refl _) (fun _ _ member => member)
        (fun _ _ member => Or.inl member) fun _ _ _ page present => ⟨page, present, Or.inr rfl⟩
  | first raw present lazy more rest ih =>
      have made := @Sound.made _ sound _ _ raw present more
      exact (grows_withFirstPage sound (sound.chain_nil present lazy) made).trans (ih made sound')
  | placed present found known appended =>
      exact grows_withPage sound known (nextPageId_of_below appended.below) sound'
  | grown present full isLast known fresh more =>
      exact grows_withLastPage sound present isLast known sound'
  | get => exact .refl _
  | update _ changed => exact grows_changed sound changed sound'
  | delete _ changed => exact grows_changed sound changed sound'

end HeapState

namespace World

variable {N : Nat} {s s' : HeapState} {pins : Int → Int} {links : Links}

theorem onPool_ordered {α : Type} {program : Heap N α} {code : PoolCode id program}
    {pre : World N → Prop} {begin : BufferManager N DiskManager → Prop}
    {post : Except Error α → BufferManager N DiskManager → Prop}
    (ordered : Ordered links begin code post) (begins : ∀ w, pre w → begin w.bm) :
    Ordered links pre (onPoolCode code) fun outcome w => post outcome w.bm :=
  Ensures.within ordered begins fun _ _ _ _ ends => ends

theorem pure_ordered {α : Type} (value : α) : Ordered links (fun w : World N => Orderly links w.bm)
    (.pure value : PoolCode World.bm _) fun _ w => Orderly links w.bm :=
  Ensures.pure fun _ begins => begins

theorem addHeap_ordered (heap : HeapFile) : Ordered links
    (fun w : World N => Orderly links w.bm) (addHeapCode heap) fun _ w => Orderly links w.bm := by
  have added : ∀ w : World N, Ordered links (fun state => state = w ∧ Orderly links state.bm)
      (.aside (fun w => { w with heaps := w.heaps ++ [heap] }) (fun _ => rfl) : PoolCode World.bm _)
      (Ends fun _ w => Orderly links w.bm) :=
    fun _ => Ensures.aside fun _ begins => begins.2
  exact Ensures.look fun w => (added w).andThen fun _ => pure_ordered _

theorem heapAt_ordered {i : Nat} {heap : HeapFile} (present : s.heaps[i]? = some heap) :
    Ordered links (fun w : World N => Shows w s pins ∧ Orderly links w.bm) (heapAtCode i)
      (Ends fun found w => found = heap ∧ Shows w s pins ∧ Orderly links w.bm) := by
  refine Ensures.look fun w => ?_
  cases there : w.heaps[i]? with
  | none =>
      apply Ensures.absurd
      rintro state ⟨rfl, shows, _⟩
      rw [shows.heaps, present] at there
      cases there
  | some other =>
      refine Ensures.pure ?_
      rintro state ⟨rfl, shows, orderly⟩
      rw [shows.heaps, present, Option.some.injEq] at there
      exact ⟨there.symm, shows, orderly⟩

theorem grown_links {i : Nat} {last : Int} {lastPage page : Page} (sound : s.Sound)
    (isLast : (s.chain i).getLast? = some last) (known : s.view last = some lastPage)
    (sound' : (s.withLastPage i last lastPage page).Sound) :
    ((s.withLastPage i last lastPage page).links sound').owned s.pages ∧
      ((s.withLastPage i last lastPage page).links sound').next last = s.pages := by
  have given := sound.given
  have notNew : last ≠ s.pages := by
    rintro rfl
    exact sound.fresh i (List.mem_of_getLast? isLast)
  have present : (s.withLastPage i last lastPage page).view last =
      some (setNextPageId lastPage s.pages) := by
    simp only [HeapState.withLastPage, Function.update_of_ne notNew, Function.update_self]
  refine ⟨⟨i, ?_⟩, ?_⟩
  · simp only [HeapState.withLastPage, Function.update_self]
    exact List.mem_append_right _ List.mem_cons_self
  · rw [HeapState.links_next sound' present]
    exact nextPageId_setNextPageId lastPage s.pages (by omega) sound.room

section Insert

variable {i : Nat} {heap : HeapFile} {data : List UInt8}

theorem insertRecord_effect [NeZero N] (bounded : data.length < 2 ^ 63) (sound : s.Sound)
    (present : s.heaps[i]? = some heap) (valid : heap.firstPageId ≠ invalidPageId)
    (grows : (s.links sound).Grows links)
    (more : (s.chain i).find? (HeapFile.room s.view data) = none → s.pages + 1 < 2 ^ 31 ∧
      links.owned s.pages ∧ ∀ last, (s.chain i).getLast? = some last → links.next last = s.pages) :
    Ordered links (fun bm => Steady bm s.view pins s.pages ∧ Orderly links bm)
      (insertRecordCode (N := N) heap data) fun _ bm => Orderly links bm :=
  insertRecord_ordered bounded (sound.linked i heap present) valid (sound.inside i)
    (fun _ member _ known => grows.fits (sound.fits member known)) more

theorem place_ordered {s : HeapState}
    (ordered : Ordered links (fun bm => Steady bm s.view pins s.pages ∧ Orderly links bm)
      (insertRecordCode (N := N) heap data) fun _ bm => Orderly links bm) :
    Ordered links (fun w : World N => Steady w.bm s.view pins s.pages ∧ Orderly links w.bm)
      (placeCode heap data) fun _ w => Orderly links w.bm :=
  (onPool_ordered ordered fun _ begins => begins).bind (fun _ => pure_ordered _) fun _ _ ends => ends

theorem insert_valid (valid : heap.firstPageId ≠ invalidPageId)
    (ordered : Ordered links (fun bm => Steady bm s.view pins s.pages ∧ Orderly links bm)
      (insertRecordCode (N := N) heap data) fun _ bm => Orderly links bm) :
    Ordered links (fun w : World N => Shows w s pins ∧ Orderly links w.bm)
      ((firstPageCode i heap).bind fun heap => placeCode heap data) fun _ w => Orderly links w.bm := by
  have first : Ordered links (fun w : World N => Shows w s pins ∧ Orderly links w.bm)
      (firstPageCode i heap) (Ends fun found w => found = heap ∧ Shows w s pins ∧ Orderly links w.bm) :=
    Ensures.branch (fun lazy => (valid lazy).elim) fun _ => Ensures.pure fun _ begins => ⟨rfl, begins⟩
  refine first.andThenAt ?_
  exact (place_ordered ordered).strengthen fun _ begins => ⟨begins.1.steady, begins.2⟩

theorem firstPage_ordered (lazy : heap.firstPageId = invalidPageId) (more : s.pages + 1 < 2 ^ 31)
    (given : 0 ≤ s.pages) (owned : links.owned s.pages) :
    Ordered links (fun w : World N => Shows w s pins ∧ Orderly links w.bm) (firstPageCode i heap)
      fun _ w => Orderly links w.bm := by
  have allocated : Ordered links (fun w : World N => Shows w s pins ∧ Orderly links w.bm)
      (onPoolCode allocatePageCode) (Ends fun pageId w => pageId = s.pages ∧
        Steady w.bm s.view pins (s.pages + 1) ∧ Orderly links w.bm) := by
    refine (onPool_ordered (allocatePage_ordered more) fun w begins =>
      ⟨begins.1.steady, begins.2⟩).weaken (fun _ begins => begins) fun outcome w ends => ?_
    cases outcome with
    | ok pageId => exact ends
    | error reason => exact ends
  have put : Ordered links
      (fun w : World N => Steady w.bm s.view pins (s.pages + 1) ∧ Orderly links w.bm)
      (setHeapCode i { heap with firstPageId := s.pages }) (Ends fun _ w =>
        Steady w.bm s.view pins (s.pages + 1) ∧ Orderly links w.bm) :=
    Ensures.aside fun _ begins => begins
  refine Ensures.branch (fun _ => ?_) fun valid => (valid lazy).elim
  refine allocated.andThenAt (put.andThen fun _ => ?_)
  exact (onPool_ordered (initPage_ordered given owned) fun _ begins => begins).bind
    (fun _ => pure_ordered _) fun _ _ ends => ends

/-- A record too long for the first page of its heap goes to a second one. -/
theorem first_grown {raw : Page} {answer : HeapAnswer} (sound : s.Sound) (sound' : s'.Sound)
    (present : s.heaps[i]? = some heap) (more : s.pages + 1 < 2 ^ 31)
    (rest : HeapState.Effect (.insert i data) answer
      (s.withFirstPage i (s.heaps.set i { heap with firstPageId := s.pages }) raw) s')
    (long : 8176 < data.length) : s.pages + 1 + 1 < 2 ^ 31 ∧
      (s'.links sound').owned (s.pages + 1) ∧ (s'.links sound').next s.pages = s.pages + 1 := by
  have given := sound.given
  let heaps := s.heaps.set i { heap with firstPageId := s.pages }
  have full : ((s.withFirstPage i heaps raw).chain i).find?
      (HeapFile.room (s.withFirstPage i heaps raw).view data) = none := made_full_iff.mpr long
  have made := @HeapState.Sound.made _ sound _ _ raw present more
  have bound := (List.getElem?_eq_some_iff.mp present).1
  cases rest with
  | first _ found lazy =>
      rw [show (s.withFirstPage i heaps raw).heaps[i]? = some { heap with firstPageId := s.pages } from
        List.getElem?_set_self bound, Option.some.injEq] at found
      rw [← found] at lazy
      rw [show s.pages = invalidPageId from lazy] at given
      cases given
  | placed _ room =>
      rw [full] at room
      cases room
  | grown _ _ isLast known _ again =>
      have new := grown_links made isLast known sound'
      have only : (s.withFirstPage i heaps raw).chain i = [s.pages] := Function.update_self _ _ _
      rw [only, List.getLast?_singleton, Option.some.injEq] at isLast
      subst isLast
      exact ⟨again, new.1, new.2⟩

/-- `Insert` into a heap without a first page. -/
theorem insert_first [NeZero N] {raw : Page} {answer : HeapAnswer} (bounded : data.length < 2 ^ 63)
    (sound : s.Sound) (sound' : s'.Sound) (present : s.heaps[i]? = some heap)
    (lazy : heap.firstPageId = invalidPageId) (more : s.pages + 1 < 2 ^ 31)
    (rest : HeapState.Effect (.insert i data) answer
      (s.withFirstPage i (s.heaps.set i { heap with firstPageId := s.pages }) raw) s') :
    Ordered (s'.links sound')
      (fun w : World N => Shows w s pins ∧ Orderly (s'.links sound') w.bm)
      ((firstPageCode i heap).bind fun heap => placeCode heap data)
      fun _ w => Orderly (s'.links sound') w.bm := by
  have given := sound.given
  have bound := (List.getElem?_eq_some_iff.mp present).1
  have grows := rest.grows (sound.made present more) sound'
  have owned : (s'.links sound').owned s.pages := by
    apply grows.owned
    refine ⟨i, ?_⟩
    simp only [HeapState.withFirstPage, Function.update_self, List.mem_singleton]
  have valid : s.pages ≠ invalidPageId := by
    intro same
    rw [same] at given
    cases given
  let made : HeapFile := { heap with firstPageId := s.pages }
  let first : Page → HeapState := fun other => s.withFirstPage i (s.heaps.set i made) other
  have ensured := (@firstPage_ordered N s pins _ i heap lazy more given owned).knowing
    (fun heap' w => heap' = made ∧
      ∃ other, Steady w.bm (first other).view pins (first other).pages) (by
        rintro w ⟨shows, _⟩
        obtain ⟨other, bm', returned, steady'⟩ := ensureFirstPage_made shows.steady lazy more
        have found : w.heaps[i]? = some heap := by rw [shows.heaps, present]
        exact ⟨_, _, firstPage_returns found returned, rfl, other, steady'⟩)
  have placed : ∀ other, Ordered (s'.links sound') (fun w : World N =>
      Steady w.bm (first other).view pins (first other).pages ∧ Orderly (s'.links sound') w.bm)
      (placeCode made data)
      fun _ w => Orderly (s'.links sound') w.bm := by
    intro other
    have again := @HeapState.Sound.made _ sound _ _ other present more
    refine place_ordered (insertRecord_effect bounded again (List.getElem?_set_self bound) valid
      ((HeapState.grows_remade again (sound.made present more)).trans grows) fun full => ?_)
    obtain ⟨enough, new, leads⟩ :=
      first_grown sound sound' present more rest (made_full_iff.mp full)
    refine ⟨enough, new, fun last ends => ?_⟩
    rw [show (first other).chain i = [s.pages] from Function.update_self _ _ _,
      List.getLast?_singleton, Option.some.injEq] at ends
    rw [← ends]
    exact leads
  refine ensured.andThen fun heap' => ?_
  by_cases same : heap' = made
  · subst same
    refine (Ensures.unknown placed).strengthen ?_
    rintro w ⟨⟨_, other, steady⟩, orderly⟩
    exact ⟨other, steady, orderly⟩
  · apply Ensures.absurd
    rintro w ⟨⟨impossible, _⟩, _⟩
    exact same impossible

/-- `Insert` keeps the file as it should be. -/
theorem insert_effect [NeZero N] {answer : HeapAnswer} (bounded : data.length < 2 ^ 63)
    (effect : HeapState.Effect (.insert i data) answer s s') (sound : s.Sound) (sound' : s'.Sound)
    (present : s.heaps[i]? = some heap) :
    Ordered (s'.links sound')
      (fun w : World N => Shows w s pins ∧ Orderly (s'.links sound') w.bm)
      ((firstPageCode i heap).bind fun heap => placeCode heap data)
      fun _ w => Orderly (s'.links sound') w.bm := by
  have grows := effect.grows sound sound'
  have valid : ∀ pageId, pageId ∈ s.chain i → heap.firstPageId ≠ invalidPageId := by
    intro pageId member lazy
    rw [sound.chain_nil present lazy] at member
    cases member
  cases effect with
  | placed found room known appended =>
      have made := valid _ (List.mem_of_find?_eq_some room)
      refine insert_valid made (insertRecord_effect bounded sound present made grows ?_)
      intro full
      rw [room] at full
      cases full
  | grown found full isLast known fresh more =>
      have made := valid _ (List.mem_of_getLast? isLast)
      have new := grown_links sound isLast known sound'
      refine insert_valid made (insertRecord_effect bounded sound present made grows fun _ =>
        ⟨more, new.1, fun last ends => ?_⟩)
      rw [isLast, Option.some.injEq] at ends
      rw [← ends]
      exact new.2
  | first raw found lazy more rest =>
      rw [present, Option.some.injEq] at found
      subst found
      exact insert_first bounded sound sound' present lazy more rest

end Insert

theorem withHeap_ordered {i : Nat} {heap : HeapFile}
    {next : HeapFile → Program (World N) Error HeapAnswer}
    {rest : ∀ heap, PoolCode World.bm (next heap)} (present : s.heaps[i]? = some heap)
    (goesOn : Ordered links (fun w => Shows w s pins ∧ Orderly links w.bm) (rest heap)
      fun _ w => Orderly links w.bm) :
    Ordered links (fun w : World N => Shows w s pins ∧ Orderly links w.bm)
      ((heapAtCode i).bind rest) fun _ w => Orderly links w.bm :=
  (heapAt_ordered present).andThenAt goesOn

theorem edit_run_ordered {i : Nat} {rid : Rid} {change : Page → Bool × Page} (known : s.Known i rid)
    (sound : s.Sound) (grows : (s.links sound).Grows links)
    (changes : ∀ page, Layout page headerSize → (change page).2 = page ∨
      ∃ data, SlottedPage.Rewritten page (change page).2 headerSize rid.slotId data) :
    Ordered links (fun w : World N => Shows w s pins ∧ Orderly links w.bm)
      ((heapAtCode i).bind fun _ => (onPoolCode (editCode rid.pageId change)).bind fun done =>
        .pure (HeapAnswer.done done)) fun _ w => Orderly links w.bm := by
  have bound := known.bound sound
  obtain ⟨given, _, page, present, layout⟩ := sound.page known.1
  have fits := grows.fits (sound.fits known.1 present)
  have changed : links.Fits rid.pageId (change page).2 := by
    rcases changes page layout with same | ⟨data, rewritten⟩
    · rw [same]
      exact fits
    · exact fits.edit rewritten.layout rewritten.below
  refine withHeap_ordered (List.getElem?_eq_getElem bound) ?_
  exact (onPool_ordered (edit_ordered given present changed)
    fun w (begins : Shows w s pins ∧ Orderly links w.bm) => ⟨begins.1.steady, begins.2⟩).bind
    (fun done => pure_ordered _) fun _ _ ends => ends

/-- Every operation keeps the file as it should be while its write-backs come in order. -/
theorem run_ordered [NeZero N] {op : HeapOp} {answer : HeapAnswer} (allowed : Allowed s op)
    (effect : HeapState.Effect op answer s s') (sound : s.Sound) (sound' : s'.Sound) :
    Ordered (s'.links sound')
      (fun w : World N => Shows w s pins ∧ Orderly (s'.links sound') w.bm) op.code
      fun _ w => Orderly (s'.links sound') w.bm := by
  have grows := effect.grows sound sound'
  cases op with
  | create fileId =>
      have more : s.pages + 1 < 2 ^ 31 ∧ (s'.links sound').owned s.pages := by
        cases effect with
        | create raw more =>
            refine ⟨more, s.heaps.length, ?_⟩
            simp only [HeapState.withFirstPage, Function.update_self, List.mem_singleton]
      exact (onPool_ordered (create_ordered more.1 sound.given more.2 fileId)
        fun w (begins : Shows w s pins ∧ Orderly (s'.links sound') w.bm) =>
          ⟨begins.1.steady, begins.2⟩).bind (fun heap => addHeap_ordered heap) fun _ _ ends => ends
  | openEmpty fileId =>
      exact (addHeap_ordered (HeapFile.openHeap fileId invalidPageId)).strengthen
        fun _ begins => begins.2
  | insert i data =>
      obtain ⟨heap, present⟩ := effect.heap
      exact withHeap_ordered present (insert_effect allowed effect sound sound' present)
  | get i rid =>
      have known : s.Known i rid := allowed
      refine withHeap_ordered (List.getElem?_eq_getElem (known.bound sound)) ?_
      refine (onPool_ordered (get_stays rid) fun w begins => begins.2).bind (fun record => ?_)
        fun _ _ ends => ends
      exact Ensures.look fun w => (pure_ordered _).strengthen fun _ begins => begins.2
  | update i rid data =>
      refine edit_run_ordered allowed sound grows fun page layout => ?_
      rcases SlottedPage.update_cases page headerSize rid.slotId data layout with
        refused | ⟨_, _, page', done, rewritten⟩
      · exact Or.inl (by rw [refused])
      · exact Or.inr ⟨data, by rw [done]; exact rewritten⟩
  | delete i rid =>
      refine edit_run_ordered allowed sound grows fun page layout => ?_
      by_cases inside : rid.slotId < SlottedPage.numSlots page headerSize
      · obtain ⟨page', done, rewritten⟩ :=
          SlottedPage.delete_rewritten page headerSize rid.slotId layout inside
        exact Or.inr ⟨[], by rw [done]; exact rewritten⟩
      · left
        simp only [SlottedPage.delete, Nat.le_of_not_lt inside, ↓reduceIte]

end World

end RelationalDb
