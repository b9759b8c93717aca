import RelationalDb.Access.HeapInsert

set_option autoImplicit false

namespace RelationalDb

open HeapFile
open BufferManager (Settled Steady Crowded Backed accessed_data written_written)
open SlottedPage (Layout Appended)

variable {N : Nat} {bm bm' : BufferManager N DiskManager} {view : Int → Option Page}
  {pins : Int → Int} {pages pageId : Int} {frame : Fin N} {data : List UInt8}

namespace HeapFile

theorem allocated_unwrapped (allocated : BufferManager.Allocated bm pages)
    (unwrapped : 0 ≤ toInt32 (pages + 1)) : pages + 1 < 2 ^ 31 := by
  have upper := allocated.upper
  by_contra full
  have last : pages = 2 ^ 31 - 1 := by omega
  rw [last] at unwrapped
  exact absurd unwrapped (by decide)

theorem stored_new (settled : Settled bm view pins pages) {disk : DiskManager}
    (file : disk.dbIo = bm.disk.dbIo) : stored disk pages = none := by
  have size := settled.allocated.size
  show DiskManager.storedPage disk pages = none
  unfold DiskManager.storedPage
  rw [if_neg]
  rw [file]
  rintro ⟨_, whole⟩
  omega

section Held

variable (settled : Settled bm view pins pages) (crowded : Crowded bm)

include settled crowded

theorem held_visit (cached : bm.pageTable pageId = some frame) :
    PageVisit bm pageId frame (bm.pool frame).data (bm.accessed frame)
      (fun bm' => ∃ policy, bm' = bm.setPolicy policy)
      fun page bm' => ∃ policy, bm' = (bm.written frame page).setPolicy policy := by
  refine ⟨BufferManager.request_hit bm pageId frame cached, accessed_data bm frame, ?_, ?_⟩
  · obtain ⟨policy, released, _⟩ := settled.release_held cached (crowded frame) (bm.pool frame).data
    exact ⟨_, released, policy, rfl⟩
  · intro page
    obtain ⟨policy, _, released⟩ := settled.release_held cached (crowded frame) page
    exact ⟨_, released, policy, rfl⟩

theorem get_held {rid : Rid} {page : Page} (present : view rid.pageId = some page)
    (cached : bm.pageTable rid.pageId = some frame) :
    ∃ result policy, (get rid).Returns bm result (bm.setPolicy policy) ∧
      result.map (·.bytes (bm.setPolicy policy)) =
        SlottedPage.record page headerSize rid.slotId := by
  obtain ⟨_, fetched, ⟨policy, rfl⟩, held⟩ := (held_visit settled crowded cached).get
  refine ⟨_, policy, fetched, ?_⟩
  rw [Option.map_map, settled.data rid.pageId frame page cached present, SlottedPage.record]
  refine congrArg (Option.map · _) (funext fun place => ?_)
  simp only [Function.comp_apply, Record.bytes, held,
    settled.data rid.pageId frame page cached present]

theorem edit_held {page : Page} (change : Page → Bool × Page) (inside : pageId < pages)
    (present : view pageId = some page) (refused : (change page).1 = false → (change page).2 = page)
    (cached : bm.pageTable pageId = some frame) :
    ∃ bm', (edit pageId change).Returns bm (change page).1 bm' ∧
      Settled bm' (if (change page).1 then Function.update view pageId (some (change page).2)
        else view) pins pages := by
  have visit := held_visit settled crowded cached
  rw [settled.data pageId frame page cached present] at visit
  obtain ⟨bm', returned, after⟩ := visit.edit change refused
  refine ⟨bm', returned, ?_⟩
  split
  · rename_i done
    rw [if_pos done] at after
    obtain ⟨policy, rfl⟩ := after
    exact (settled.written cached inside _).setPolicy policy
  · rename_i undone
    rw [if_neg undone] at after
    obtain ⟨policy, rfl⟩ := after
    exact settled.setPolicy policy

theorem insertStep_held (bounded : data.length < 2 ^ 63) {page : Page} (given : 0 ≤ pageId)
    (inside : pageId < pages) (present : view pageId = some page) (layout : Layout page headerSize)
    (cached : bm.pageTable pageId = some frame) (last : Int) :
    (room view data pageId = true ∧ ∃ page' bm', Appended page page' headerSize data ∧
      (insertStep data (pageId, last)).Returns bm
        (.inr (.inl ⟨pageId, SlottedPage.numSlots page headerSize⟩)) bm' ∧
      Settled bm' (Function.update view pageId (some page')) pins pages) ∨
    (room view data pageId = false ∧ ∃ policy, (insertStep data (pageId, last)).Returns bm
      (.inl (nextPageId page, pageId)) (bm.setPolicy policy)) := by
  have valid : pageId ≠ invalidPageId := by
    rintro rfl
    exact absurd given (by decide)
  have visit := held_visit settled crowded cached
  rw [settled.data pageId frame page cached present] at visit
  rcases visit.insertStep valid layout bounded last with
    ⟨fits, page', _, appended, turn, policy, rfl⟩ | ⟨full, _, turn, policy, rfl⟩
  · exact Or.inl ⟨(room_iff present).mpr fits, page', _, appended, turn,
      (settled.written cached inside page').setPolicy policy⟩
  · refine Or.inr ⟨?_, policy, turn⟩
    rw [← Bool.not_eq_true, room_iff present]
    exact Nat.not_le.mpr full

/-- The page loop places the record, stops at a page that is in no frame, or leaves with the
last page of the chain. -/
theorem insertLoop_held (bounded : data.length < 2 ^ 63) {first : Int} {chain : List Int}
    (linked : Chain view first chain) (inside : ∀ pageId ∈ chain, pageId < pages) (last : Int) :
    (∃ pageId page page' bm', chain.find? (room view data) = some pageId ∧
      view pageId = some page ∧ Appended page page' headerSize data ∧
      Program.Returns (Program.loop (insertStep data) (first, last)) bm
        (.inl ⟨pageId, SlottedPage.numSlots page headerSize⟩) bm' ∧
      Settled bm' (Function.update view pageId (some page')) pins pages) ∨
    ∃ policy,
      (Program.Throws (Program.loop (insertStep data) (first, last)) bm noCandidates
          (bm.setPolicy policy) ∧ ∃ pageId ∈ chain, bm.pageTable pageId = none) ∨
      (Program.Returns (Program.loop (insertStep data) (first, last)) bm
          (.inr ((chain.getLast?).getD last)) (bm.setPolicy policy) ∧
        chain.find? (room view data) = none ∧ ∀ pageId ∈ chain, bm.pageTable pageId ≠ none) := by
  induction linked generalizing bm last with
  | nil =>
      refine Or.inr ⟨bm.policy, Or.inr ⟨Program.Returns.loop_exit ?_, rfl, ?_⟩⟩
      · simp only [insertStep, ↓reduceIte]
        exact Program.pure_returns _ _
      · intro pageId member
        cases member
  | @cons pageId page rest given present layout linked ih =>
      cases cached : bm.pageTable pageId with
      | none =>
          have valid : pageId ≠ invalidPageId := by
            rintro rfl
            exact absurd given (by decide)
          refine Or.inr ⟨bm.policy, Or.inl ⟨Program.Throws.loop_exit ?_, pageId,
            List.mem_cons_self, cached⟩⟩
          simp only [insertStep, valid, ↓reduceIte]
          exact (settled.request_crowded crowded cached).bind
      | some frame =>
          rcases insertStep_held settled crowded bounded given (inside pageId List.mem_cons_self)
            present layout cached last with
            ⟨fits, page', bm', appended, turn, settled'⟩ | ⟨full, policy, turn⟩
          · rw [List.find?_cons_of_pos fits]
            exact Or.inl ⟨pageId, page, page', bm', rfl, present, appended,
              Program.Returns.loop_exit turn, settled'⟩
          · have lastEq : ((pageId :: rest).getLast?).getD last = (rest.getLast?).getD pageId := by
              rw [List.getLast?_cons]
              rfl
            rw [lastEq, List.find?_cons_of_neg (by rw [full]; exact Bool.false_ne_true)]
            rcases ih (settled.setPolicy policy) crowded
              (fun other member => inside other (List.mem_cons_of_mem _ member)) pageId with
              ⟨other, page₁, page₁', bm', found, known, appended, ended, settled'⟩ |
                ⟨later, ⟨thrown, other, member, absent⟩ | ⟨left, noRoom, all⟩⟩
            · exact Or.inl ⟨other, page₁, page₁', bm', found, known, appended,
                Program.Returns.loop_again turn ended, settled'⟩
            · exact Or.inr ⟨later, Or.inl ⟨Program.Throws.loop_again turn thrown, other,
                List.mem_cons_of_mem _ member, absent⟩⟩
            · refine Or.inr ⟨later, Or.inr ⟨Program.Returns.loop_again turn left, noRoom, ?_⟩⟩
              intro other member
              rcases List.mem_cons.mp member with rfl | inRest
              · rw [cached]
                exact Option.some_ne_none _
              · exact all other inRest

theorem initPage_held (cached : bm.pageTable pageId = some frame) :
    ∃ policy, (initPage pageId).Returns bm ()
      ((bm.written frame (initHeapPage (bm.pool frame).data)).setPolicy policy) := by
  obtain ⟨_, returned, policy, rfl⟩ := (held_visit settled crowded cached).initPage
  exact ⟨policy, returned⟩

theorem fillNewPage_held (bounded : data.length < 2 ^ 63) (inside : pageId < pages)
    (cached : bm.pageTable pageId = some frame) :
    ∃ result page bm', (fillNewPage data pageId).Returns bm result bm' ∧
      FreshPage data pageId result page ∧
      Settled bm' (Function.update view pageId (some page)) pins pages := by
  obtain ⟨result, page, _, returned, fresh, policy, rfl⟩ :=
    (held_visit settled crowded cached).fillNewPage bounded
  exact ⟨result, page, _, returned, fresh, (settled.written cached inside page).setPolicy policy⟩

theorem linkNewPage_held (data : List UInt8) {last : Int} (newPageId : Int)
    (cached : bm.pageTable last = some frame) :
    ∃ policy, linkNewPage data last newPageId bm = fillNewPage data newPageId
      ((bm.written frame (setNextPageId (bm.pool frame).data newPageId)).setPolicy policy) := by
  obtain ⟨_, linked, policy, rfl⟩ := (held_visit settled crowded cached).linkNewPage data newPageId
  exact ⟨policy, linked⟩

/-- A new last page is filled when it is in a frame, and linked without being filled when it
is in none. -/
theorem insertInNewPage_held (bounded : data.length < 2 ^ 63) {last : Int} {lastPage : Page}
    (cached : bm.pageTable last = some frame) (present : view last = some lastPage)
    (inside : last < pages) (more : pages + 1 < 2 ^ 31) :
    (bm.pageTable pages ≠ none ∧ ∃ result page bm', (insertInNewPage data last).Returns bm result bm' ∧
      FreshPage data pages result page ∧
      Settled bm' (Function.update (Function.update view last (some (setNextPageId lastPage pages)))
        pages (some page)) pins (pages + 1)) ∨
    (bm.pageTable pages = none ∧ ∃ bm', (insertInNewPage data last).Throws bm noCandidates bm' ∧
      Settled bm' (Function.update view last (some (setNextPageId lastPage pages))) pins
        (pages + 1) ∧ bm'.contents pages = none) := by
  have lower := settled.allocated.lower
  have allocated := allocatePage_takes settled.allocated.next settled.allocated.noneFree
  rw [toInt32_of_bounds (by omega) more] at allocated
  have settled₁ := settled.allocate more
  obtain ⟨policy, linked⟩ := linkNewPage_held settled₁ crowded data pages cached
  have held : (bm.pool frame).data = lastPage := settled.data last frame lastPage cached present
  rw [show setNextPageId (({ bm with disk := { bm.disk with nextPageId := pages + 1 } } :
    BufferManager N DiskManager).pool frame).data pages = setNextPageId lastPage pages by
      rw [← held]] at linked
  have settled₂ := (settled₁.written cached (by omega) (setNextPageId lastPage pages)).setPolicy
    policy
  cases there : bm.pageTable pages with
  | some other =>
      left
      obtain ⟨result, page, bm', filled, fresh, settled'⟩ :=
        fillNewPage_held settled₂ (crowded.written frame _) bounded (by omega) there
      refine ⟨Option.some_ne_none _, result, page, bm', allocated.bind ?_, fresh, settled'⟩
      rw [Program.Returns, linked]
      exact filled
  | none =>
      right
      have refused := settled₂.request_crowded (crowded.written frame _) there
      have thrown : (linkNewPage data last pages).Throws _ noCandidates _ :=
        linked.trans refused.bind
      refine ⟨rfl, _, ?_, settled₂, (BufferManager.contents_uncached ?_).trans ?_⟩
      · rw [Program.Throws, insertInNewPage, allocated.bind_eq]
        exact thrown
      · exact there
      · exact stored_new settled rfl

end Held

/-- The pages `next_page_id` leads to from a first page on. -/
inductive Reaches (pages : Int → Option Page) : Int → Int → Prop
  | here {pageId : Int} (valid : pageId ≠ invalidPageId) : Reaches pages pageId pageId
  | next {first target : Int} {page : Page} (valid : first ≠ invalidPageId)
      (present : pages first = some page) (rest : Reaches pages (nextPageId page) target) :
      Reaches pages first target

theorem Reaches.step {pages : Int → Option Page} {first target : Int} {page : Page}
    (reaches : Reaches pages first target) (present : pages target = some page)
    (valid : nextPageId page ≠ invalidPageId) : Reaches pages first (nextPageId page) := by
  induction reaches with
  | here known => exact .next known present (.here valid)
  | next known there _ ih => exact .next known there (ih present)

/-- The pages of a chain are those that can be reached. -/
theorem Chain.reached {first target : Int} {chain : List Int} (linked : Chain view first chain)
    (reaches : Reaches view first target) : target ∈ chain := by
  induction reaches generalizing chain with
  | here valid => exact linked.first_mem valid
  | next valid present _ ih =>
      cases linked with
      | nil => exact absurd rfl valid
      | cons _ there _ rest =>
          rw [present, Option.some.injEq] at there
          rw [← there] at rest
          exact List.mem_cons_of_mem _ (ih rest)

theorem Chain.reaches {first target : Int} {chain : List Int} (linked : Chain view first chain)
    (member : target ∈ chain) : Reaches view first target := by
  induction linked with
  | nil => cases member
  | @cons pageId page rest given present _ _ ih =>
      have valid : pageId ≠ invalidPageId := by
        rintro rfl
        exact absurd given (by decide)
      rcases List.mem_cons.mp member with rfl | inRest
      · exact .here valid
      · exact .next valid present (ih inRest)

theorem Chain.reaches_last {view' : Int → Option Page} {first last : Int} {chain : List Int}
    (linked : Chain view first chain) (nodup : chain.Nodup) (isLast : chain.getLast? = some last)
    (same : ∀ pageId ∈ chain, pageId ≠ last → view' pageId = view pageId) :
    Reaches view' first last := by
  induction linked with
  | nil => cases isLast
  | @cons pageId page rest given present _ linked ih =>
      have valid : pageId ≠ invalidPageId := by
        rintro rfl
        exact absurd given (by decide)
      cases rest with
      | nil =>
          rw [List.getLast?_singleton, Option.some.injEq] at isLast
          rw [isLast] at valid ⊢
          exact .here valid
      | cons second rest =>
          rw [List.getLast?_cons_cons] at isLast
          have apart : pageId ≠ last := by
            rintro rfl
            exact (List.nodup_cons.mp nodup).1 (List.mem_of_getLast? isLast)
          have there : view' pageId = some page := by
            rw [same pageId List.mem_cons_self apart, present]
          exact .next valid there (ih (List.nodup_cons.mp nodup).2 isLast
            fun other member => same other (List.mem_cons_of_mem _ member))

theorem insertInNewPage_more (allocated : BufferManager.Allocated bm pages) {last : Int}
    {outcome : Except Error (Option Rid)}
    (ended : insertInNewPage data last bm = some (outcome, bm')) (unwrapped : 0 ≤ nextAllocated bm') :
    pages + 1 < 2 ^ 31 := by
  unfold insertInNewPage at ended
  rw [(allocatePage_takes allocated.next allocated.noneFree).bind_eq] at ended
  have kept : nextAllocated bm' = toInt32 (pages + 1) :=
    (linkNewPage_keeps data last pages).map Prod.fst _ _ _ ended
  rw [kept] at unwrapped
  exact allocated_unwrapped allocated unwrapped

section Insert

variable {s : HeapState} {i : Nat} {heap : HeapFile} (settled : Settled bm s.view pins s.pages)
  (crowded : Crowded bm) (sound : s.Sound) (present : s.heaps[i]? = some heap)
  (valid : heap.firstPageId ≠ invalidPageId) (bounded : data.length < 2 ^ 63)

include settled crowded sound present valid bounded

/-- `Insert` with all frames held: the record is placed, the page loop stops at a page that is in
no frame, or the last page is linked to a page that is nowhere. -/
theorem insertRecord_crowded {outcome : Except Error (Option Rid)}
    (ended : insertRecord heap data bm = some (outcome, bm')) (unwrapped : 0 ≤ nextAllocated bm') :
    (∃ result s', outcome = .ok result ∧
      HeapState.Effect (.insert i data) (.placed result) s s' ∧
      Settled bm' s'.view pins s'.pages ∧ s'.heaps = s.heaps) ∨
    (outcome = .error noCandidates ∧ (∃ policy, bm' = bm.setPolicy policy) ∧
      ∃ pageId ∈ s.chain i, bm.pageTable pageId = none) ∨
    (outcome = .error noCandidates ∧ (∀ pageId ∈ s.chain i, bm.pageTable pageId ≠ none) ∧
      ∃ pageId, Reaches bm'.contents heap.firstPageId pageId ∧ bm'.contents pageId = none) := by
  have linked := sound.linked i heap present
  unfold insertRecord at ended
  rcases insertLoop_held settled crowded bounded linked (sound.inside i) invalidPageId with
    ⟨pageId, page, page', bm₁, found, known, appended, left, settled'⟩ |
      ⟨policy, ⟨stopped, absent⟩ | ⟨left, noRoom, all⟩⟩
  · rw [left.bind_eq] at ended
    cases ended
    exact Or.inl ⟨_, s.withPage pageId page', rfl, .placed present found known appended, settled', rfl⟩
  · rw [show (_ >>= _ : Heap N (Option Rid)) bm = some (.error noCandidates, _) from
      stopped.bind] at ended
    cases ended
    exact Or.inr (Or.inl ⟨rfl, ⟨policy, rfl⟩, absent⟩)
  · rw [left.bind_eq] at ended
    obtain ⟨last, isLast⟩ := World.chain_last sound present valid
    rw [isLast, Option.getD_some] at ended
    have inChain := List.mem_of_getLast? isLast
    have settled₁ := settled.setPolicy policy
    have more := insertInNewPage_more settled₁.allocated ended unwrapped
    obtain ⟨given, inside, lastPage, known, _⟩ := sound.page inChain
    obtain ⟨frame, cached⟩ := Option.ne_none_iff_exists'.mp (all last inChain)
    rcases insertInNewPage_held settled₁ crowded bounded cached known inside more with
      ⟨_, result, page, bm₂, placed, fresh, settled₂⟩ | ⟨_, bm₂, thrown, settled₂, nowhere⟩
    · cases placed.symm.trans ended
      exact Or.inl ⟨result, s.withLastPage i last lastPage page, rfl,
        .grown present noRoom isLast known fresh more, settled₂, rfl⟩
    · cases thrown.symm.trans ended
      refine Or.inr (Or.inr ⟨rfl, all, s.pages, ?_, nowhere⟩)
      have next := nextPageId_setNextPageId lastPage s.pages (by have := sound.given; omega)
        sound.room
      have reached : Reaches bm'.contents heap.firstPageId last := by
        refine linked.reaches_last (sound.nodup i) isLast fun other otherMember apart => ?_
        obtain ⟨_, _, page, here, _⟩ := sound.page otherMember
        rw [here]
        exact settled₂.contents_eq (by rw [Function.update_of_ne apart, here])
      have step := reached.step (settled₂.contents_eq (Function.update_self _ _ _)) (by
        rw [next]
        intro same
        have lower := sound.given
        rw [same] at lower
        cases lower)
      rwa [next] at step

theorem insertRecord_throws (all : ∀ pageId ∈ s.chain i, bm.pageTable pageId ≠ none)
    (full : (s.chain i).find? (room s.view data) = none) (absent : bm.pageTable s.pages = none)
    (more : s.pages + 1 < 2 ^ 31) :
    ∃ bm', (insertRecord heap data).Throws bm noCandidates bm' ∧
      nextAllocated bm' = s.pages + 1 := by
  have linked := sound.linked i heap present
  rcases insertLoop_held settled crowded bounded linked (sound.inside i) invalidPageId with
    ⟨_, _, _, _, found, _⟩ | ⟨policy, ⟨_, pageId, member, gone⟩ | ⟨left, _⟩⟩
  · rw [full] at found
    cases found
  · exact absurd gone (all pageId member)
  · obtain ⟨last, isLast⟩ := World.chain_last sound present valid
    rw [isLast, Option.getD_some] at left
    have inChain := List.mem_of_getLast? isLast
    obtain ⟨_, inside, lastPage, known, _⟩ := sound.page inChain
    obtain ⟨frame, cached⟩ := Option.ne_none_iff_exists'.mp (all last inChain)
    have settled₁ := settled.setPolicy policy
    rcases insertInNewPage_held settled₁ crowded bounded cached known inside more with
      ⟨there, _⟩ | ⟨_, bm', thrown, settled', _⟩
    · exact absurd absent there
    · refine ⟨bm', ?_, settled'.allocated.next⟩
      unfold Program.Throws insertRecord
      rw [left.bind_eq]
      exact thrown

end Insert

end HeapFile

end RelationalDb
