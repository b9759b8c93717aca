import RelationalDb.Access.HeapFill
import RelationalDb.Access.SharedRuns

set_option autoImplicit false

namespace RelationalDb.World

open HeapFile
open BufferManager (Settled Backed)
open SlottedPage (Layout Appended freeSpace numSlots slotSize pageHeaderSize)

variable {N : Nat} {w w' : World N} {s s' : HeapState} {pins : Int → Int} {log : List SharedEvent}
  {i : Nat} {data : List UInt8}

def Full (pages : Int → Option Page) (data : List UInt8) (pageId : Int) : Prop :=
  ∃ page, pages pageId = some page ∧ freeSpace page headerSize < data.length + slotSize

/-- What an insertion into a chain of pages may do: its first page with room takes the record,
or a new page is linked behind the last one. -/
inductive InsertEffect (before after : Int → Option Page) (chain : List Int) (data : List UInt8) :
    Option Rid → List Int → Prop
  | found {front rest : List Int} {pageId : Int} {page page' : Page}
      (order : chain = front ++ pageId :: rest) (earlier : ∀ other ∈ front, Full before data other)
      (known : before pageId = some page)
      (fits : data.length + slotSize ≤ freeSpace page headerSize)
      (stored : after pageId = some page') (appended : Appended page page' headerSize data)
      (others : ∀ other ∈ chain, other ≠ pageId → after other = before other) :
      InsertEffect before after chain data (some ⟨pageId, numSlots page headerSize⟩) chain
  | grown {front : List Int} {last new : Int} {lastPage page : Page} {result : Option Rid}
      (full : ∀ other ∈ chain, Full before data other) (order : chain = front ++ [last])
      (new_notMem : new ∉ chain) (known : before last = some lastPage)
      (linked : after last = some (setNextPageId lastPage new)) (stored : after new = some page)
      (fresh : FreshPage data new result page)
      (others : ∀ other ∈ front, after other = before other) :
      InsertEffect before after chain data result (chain ++ [new])

theorem full_of_room {view : Int → Option Page} {pageId : Int} {page : Page}
    (present : view pageId = some page) (noRoom : HeapFile.room view data pageId = false) :
    freeSpace page headerSize < data.length + slotSize := by
  have never : ¬ HeapFile.room view data pageId = true := by simp [noRoom]
  rw [room_iff present] at never
  simp only [slotSize]
  omega

/-- An insertion into a heap that has a first page. -/
theorem firstFit_of_effect {heap : HeapFile} {result : Option Rid} (sound : s.Sound)
    (present : s.heaps[i]? = some heap) (made : heap.firstPageId ≠ invalidPageId)
    (effect : HeapState.Effect (.insert i data) (.placed result) s s') :
    s'.heaps = s.heaps ∧ InsertEffect s.view s'.view (s.chain i) data result (s'.chain i) := by
  have known : ∀ pageId ∈ s.chain i, ∃ page, s.view pageId = some page := fun pageId member => by
    obtain ⟨_, _, page, present, _⟩ := sound.page member
    exact ⟨page, present⟩
  cases effect with
  | first _ found lazy =>
      rw [present] at found
      cases found
      exact absurd lazy made
  | @placed _ _ _ _ pageId page page' _ found here appended =>
      obtain ⟨fits, front, rest, order, earlier⟩ := List.find?_eq_some_iff_append.mp found
      refine ⟨rfl, .found order ?_ here ((room_iff here).mp fits) (Function.update_self _ _ _)
        appended fun other _ apart => Function.update_of_ne apart _ _⟩
      intro other member
      obtain ⟨page, present⟩ := known other (by rw [order]; exact List.mem_append_left _ member)
      exact ⟨page, present, full_of_room present (by simpa using earlier other member)⟩
  | @grown _ _ _ _ last lastPage page _ _ full isLast here fresh more =>
      have inChain := List.mem_of_getLast? isLast
      obtain ⟨front, order⟩ := List.getLast?_eq_some_iff.mp isLast
      have notNew := sound.fresh i
      have apart : ∀ other ∈ s.chain i, other ≠ s.pages := by
        rintro other member rfl
        exact notNew member
      have nodup := sound.nodup i
      rw [order, List.nodup_append] at nodup
      have chain : (s.withLastPage i last lastPage page).chain i = s.chain i ++ [s.pages] :=
        Function.update_self _ _ _
      rw [chain]
      refine ⟨rfl, .grown ?_ order notNew here ?_ (Function.update_self _ _ _) fresh ?_⟩
      · intro other member
        obtain ⟨page, present⟩ := known other member
        have noRoom := List.find?_eq_none.mp full other member
        exact ⟨page, present, full_of_room present (by simpa using noRoom)⟩
      · simp only [HeapState.withLastPage]
        rw [Function.update_of_ne (apart last inChain), Function.update_self]
      · intro other member
        have different : other ≠ last := nodup.2.2 other member last List.mem_cons_self
        have older := apart other (by rw [order]; exact List.mem_append_left _ member)
        simp only [HeapState.withLastPage]
        rw [Function.update_of_ne older, Function.update_of_ne different]

/-- The pages of the chains are those of the pool and the disk. -/
theorem InsertEffect.congr {before before' after after' : Int → Option Page} {chain chain' : List Int}
    {result : Option Rid} (fits : InsertEffect before after chain data result chain')
    (old : ∀ pageId ∈ chain, before' pageId = before pageId)
    (new : ∀ pageId ∈ chain', after' pageId = after pageId) :
    InsertEffect before' after' chain data result chain' := by
  have full : ∀ pageId ∈ chain, Full before data pageId → Full before' data pageId := by
    rintro pageId member ⟨page, present, noRoom⟩
    exact ⟨page, by rw [old pageId member, present], noRoom⟩
  cases fits with
  | @found front rest pageId page page' order earlier known fits stored appended others =>
      have member : pageId ∈ chain := by simp [order]
      refine .found order ?_ (by rw [old pageId member, known]) fits
        (by rw [new pageId member, stored]) appended ?_
      · intro other inFront
        exact full other (by rw [order]; exact List.mem_append_left _ inFront) (earlier other inFront)
      · intro other inChain apart
        rw [old other inChain, new other inChain, others other inChain apart]
  | @grown front last fresh lastPage page _ allFull order notMem known linked stored made others =>
      have member : last ∈ chain := by simp [order]
      have still : ∀ pageId ∈ chain, pageId ∈ chain ++ [fresh] :=
        fun pageId inChain => List.mem_append_left _ inChain
      refine .grown (fun other inChain => full other inChain (allFull other inChain)) order notMem
        (by rw [old last member, known]) (by rw [new last (still last member), linked])
        (by rw [new fresh (by simp), stored]) made ?_
      intro other inFront
      have inChain : other ∈ chain := by rw [order]; exact List.mem_append_left _ inFront
      rw [old other inChain, new other (still other inChain), others other inFront]

theorem InsertEffect.isSome_iff {before after : Int → Option Page} {chain chain' : List Int}
    {result : Option Rid} (fits : InsertEffect before after chain data result chain')
    (layouts : ∀ pageId ∈ chain, ∀ page, before pageId = some page → Layout page headerSize) :
    result.isSome = true ↔ data.length ≤ pageSize - headerSize - pageHeaderSize - slotSize := by
  have size : pageSize - headerSize - pageHeaderSize - slotSize = 8176 := by decide
  rw [size]
  cases fits with
  | @found front rest pageId page _ order _ known fits =>
      have layout := layouts pageId (by simp [order]) page known
      have bounded := layout.bounded
      have pageSizeEq := SlottedPage.pageSize_eq
      have header : headerSize = 8 := rfl
      have pageHeader : pageHeaderSize = 4 := rfl
      have slot : slotSize = 4 := rfl
      rw [SlottedPage.freeSpace_eq page headerSize layout] at fits
      unfold SlottedPage.directoryEnd at fits
      simp only [Option.isSome_some, true_iff]
      omega
  | grown _ _ _ _ _ _ fresh =>
      cases fresh with
      | placed fits => simp [fits]
      | tooLong long =>
          simp only [Option.isSome_none, Bool.false_eq_true, false_iff]
          omega

theorem contents_chain {bm : BufferManager N DiskManager} {heap : HeapFile}
    (backed : Backed bm s.view) (sound : s.Sound) (present : s.heaps[i]? = some heap) :
    Chain bm.contents heap.firstPageId (s.chain i) :=
  (sound.linked i heap present).congr fun _ member => sound.contents_eq backed member

/-- `Insert` takes the first page with room, for every heap that `Create` made. -/
theorem insert_firstFit [NeZero N] {raw : Fin N → Page} {file : File}
    (small : file.size / pageSize < 2 ^ 31) (run : SharedRun (start raw file) log w) {fileId : Uuid}
    (created : ⟨.heap (.create fileId), .ok (some (.made i))⟩ ∈ log) (bounded : data.length < 2 ^ 63)
    (evictable : ∃ frame, (w.bm.pool frame).pinCount = 0)
    (pageIdLeft : nextAllocated w.bm + 1 < 2 ^ 31) :
    ∃ (heap : HeapFile) (chain chain' : List Int) (result : Option Rid) (w' : World N),
      w.heaps[i]? = some heap ∧ Chain w.bm.contents heap.firstPageId chain ∧
      (HeapOp.insert i data).run.Returns w (.placed result) w' ∧ w'.heaps = w.heaps ∧
      Chain w'.bm.contents heap.firstPageId chain' ∧
      (result.isSome = true ↔
        data.length ≤ pageSize - headerSize - pageHeaderSize - slotSize) ∧
      InsertEffect w.bm.contents w'.bm.contents chain data result chain' := by
  obtain ⟨s, pins, holds⟩ := sharedState small run
  have shows := holds.shows evictable
  have sound := holds.sound
  have member : ⟨.create fileId, .ok (.made i)⟩ ∈ heapCalls log :=
    List.mem_filterMap.mpr ⟨_, created, rfl⟩
  obtain ⟨heap, present, made⟩ := holds.created i fileId member
  have next : nextAllocated w.bm = s.pages := holds.settled.allocated.next
  have room : RoomFor s i heap data := by
    rw [RoomFor, if_neg made]
    intro _
    omega
  obtain ⟨answer, w', s', performs⟩ := insert_performs shows present bounded room
  obtain ⟨result, rfl⟩ := performs.effect.answer_placed
  obtain ⟨sameHeaps, fits⟩ := firstFit_of_effect sound present made performs.effect
  have backed := holds.settled.toBacked
  have backed' := performs.shows.steady.toBacked
  have sound' := performs.shows.sound
  have before : ∀ pageId ∈ s.chain i, w.bm.contents pageId = s.view pageId :=
    fun _ inChain => sound.contents_eq backed inChain
  have fits' := fits.congr before fun _ inChain => sound'.contents_eq backed' inChain
  refine ⟨heap, s.chain i, s'.chain i, result, w', ?_, contents_chain backed sound present,
    performs.ended, ?_, contents_chain backed' sound' (by rw [sameHeaps, present]), ?_, fits'⟩
  · rw [holds.heaps, present]
  · rw [performs.shows.heaps, sameHeaps, holds.heaps]
  · refine fits'.isSome_iff fun pageId inChain page known => ?_
    obtain ⟨_, page', there, layout⟩ := (contents_chain backed sound present).page inChain
    rw [known] at there
    cases there
    exact layout

/-- A short record goes to the first of two pages that have room for it. -/
theorem insert_firstFit_two : ∃ (w w' : World 1) (chain' : List Int),
    Chain w.bm.contents 0 [0, 1] ∧
      (HeapOp.insert 0 [7]).run.Returns w (.placed (some ⟨0, 1⟩)) w' ∧
      InsertEffect w.bm.contents w'.bm.contents [0, 1] [7] (some ⟨0, 1⟩) chain' := by
  have length : ∀ byte : UInt8, (List.replicate 5000 byte).length = 5000 := fun byte =>
    List.length_replicate
  have nonempty : ∀ byte : UInt8, List.replicate 5000 byte ≠ [] := by
    intro byte
    apply List.ne_nil_of_length_pos
    rw [length]
    decide
  obtain ⟨w, page, page', run, present, grown, two⟩ := @two_run 1 _ (fun _ _ => 0) (by decide)
    (List.replicate 5000 1) (List.replicate 5000 2) ⟨nonempty 1, nonempty 2⟩
    (by rw [length, length]) (by rw [length]; decide) (by rw [length]; decide)
  have small : File.empty.size / pageSize < 2 ^ 31 := by decide
  have next := grown.next
  have made : ⟨.heap (.create fun _ => 0), .ok (some (.made 0))⟩ ∈
      ((⟨.insert (1 - 1) (List.replicate 5000 2), .ok (.placed (some ⟨1, 0⟩))⟩ : HeapEvent) ::
        ⟨.insert (1 - 1) (List.replicate 5000 1), .ok (.placed (some ⟨1 - 1, 0⟩))⟩ ::
          creates 1).map HeapEvent.shared :=
    List.mem_map_of_mem (List.mem_cons_of_mem _ (List.mem_cons_of_mem _ List.mem_cons_self))
  obtain ⟨heap, chain, chain', result, w', found, linked, returned, _, _, _, fits⟩ :=
    insert_firstFit small (shared_of_heapRun small run).1 made (show [7].length < 2 ^ 63 by decide)
      ⟨0, grown.filling.unpinned 0⟩ (by rw [next]; decide)
  rw [present, Option.some.injEq] at found
  subst found
  obtain rfl := linked.unique two.linked
  obtain ⟨_, _, _, _, ⟨raw, first, appended, known⟩, _⟩ := two
  have first_known : w.bm.contents 0 = some (setNextPageId first 1) := known
  have space : freeSpace (setNextPageId first 1) headerSize = 3176 := by
    rw [setNextPageId_freeSpace, appended.freeSpace (initHeapPage_layout raw)
      (by rw [initHeapPage_freeSpace, length]; decide), initHeapPage_freeSpace, length]
  have slots : numSlots (setNextPageId first 1) headerSize = 1 := by
    rw [setNextPageId_numSlots, appended.numSlots_eq, initHeapPage_numSlots]
  have room : ¬ Full w.bm.contents [7] 0 := by
    intro full
    obtain ⟨page, present, small⟩ := full
    rw [first_known, Option.some.injEq] at present
    rw [← present, space] at small
    exact absurd small (by decide)
  have placed : result = some ⟨0, 1⟩ := by
    cases fits with
    | @found front rest pageId page _ order earlier known =>
        cases front with
        | nil =>
            have here : 0 = pageId := (List.cons.inj order).1
            rw [← here, first_known, Option.some.injEq] at known
            rw [← here, ← known, slots]
        | cons other front =>
            have here : 0 = other := (List.cons.inj order).1
            exact absurd (earlier other List.mem_cons_self) (here ▸ room)
    | grown full => exact absurd (full 0 List.mem_cons_self) room
  rw [placed] at returned fits
  exact ⟨w, w', chain', linked, returned, fits⟩

/-- What `AllocatePage` leaves to allocate from. -/
def taken : Int × List Int → Int × List Int
  | (next, free) =>
      match free.getLast? with
      | some _ => (next, free.dropLast)
      | none => (toInt32 (next + 1), free)

theorem allocatePage_taken {bm bm' : BufferManager N DiskManager} {pageId : Int}
    (allocated : Program.Returns HeapFile.allocatePage bm pageId bm') :
    allocation bm' = taken (allocation bm) := by
  simp only [Program.Returns, HeapFile.allocatePage, modifyGet, MonadStateOf.modifyGet,
    DiskManager.allocatePage] at allocated
  unfold allocation taken
  cases last : bm.disk.freeList.getLast? with
  | some pageId =>
      simp only [last] at allocated
      cases allocated
      simp only [last]
  | none =>
      simp only [last] at allocated
      cases allocated
      simp only [last]

theorem toInt32_succ_ne (value : Int) : toInt32 (value + 1) ≠ value := by
  unfold toInt32
  omega

/-- One or two allocations are never undone by what they leave. -/
theorem taken_ne (state : Int × List Int) : taken state ≠ state ∧ taken (taken state) ≠ state := by
  obtain ⟨next, free⟩ := state
  rcases List.eq_nil_or_concat free with rfl | ⟨front, last, rfl⟩
  · have once : taken (next, []) = (toInt32 (next + 1), []) := rfl
    have twice : taken (toInt32 (next + 1), []) = (toInt32 (toInt32 (next + 1) + 1), []) := rfl
    rw [once, twice]
    refine ⟨fun same => toInt32_succ_ne next (Prod.mk.inj same).1, fun same => ?_⟩
    have again := (Prod.mk.inj same).1
    unfold toInt32 at again
    omega
  · have once : taken (next, front.concat last) = (next, front) := by
      simp [taken, List.concat_eq_append]
    have shorter : (taken (next, front)).2.length ≤ front.length := by
      simp only [taken]
      split
      · simp
      · exact Nat.le_refl _
    have longer : (front.concat last).length = front.length + 1 := List.length_concat
    rw [once]
    constructor
    · intro same
      have lengths := congrArg List.length (Prod.mk.inj same).2
      omega
    · intro same
      rw [same] at shorter
      simp only at shorter
      omega

theorem insertRecord_taken {heap : HeapFile} {bm bm' : BufferManager N DiskManager}
    (refused : (insertRecord heap data).Returns bm none bm') :
    allocation bm' = taken (allocation bm) := by
  have keeps : Program.Keeps (Program.loop (insertStep data) (heap.firstPageId, invalidPageId) :
      Heap N (Rid ⊕ Int)) allocation := Program.Keeps.loop (insertStep_keeps data) _
  unfold insertRecord at refused
  obtain ⟨left, bm₁, looped, rest⟩ := Program.returns_bind.mp refused
  cases left with
  | inl rid =>
      have placed := ((Program.returns_pure _ _ _ _).mp rest).1
      cases placed
  | inr last =>
      obtain ⟨newPageId, bm₂, allocated, linked⟩ := Program.returns_bind.mp rest
      rw [linkNewPage_keeps data last newPageId _ _ _ linked, allocatePage_taken allocated,
        keeps _ _ _ looped]

theorem firstPage_taken {heap heap' : HeapFile} (ensured : (firstPage i heap).Returns w heap' w') :
    allocation w'.bm = allocation w.bm ∨ allocation w'.bm = taken (allocation w.bm) := by
  have inner : (ensureFirstPage heap).Returns w.bm heap' w'.bm := firstPage_ends ensured
  unfold ensureFirstPage at inner
  split at inner
  · obtain ⟨pageId, bm₁, allocated, rest⟩ := Program.returns_bind.mp inner
    obtain ⟨_, bm₂, initialised, rest⟩ := Program.returns_bind.mp rest
    cases rest
    exact Or.inr (by rw [initPage_keeps pageId _ _ _ initialised, allocatePage_taken allocated])
  · obtain ⟨_, same⟩ := (Program.returns_pure _ _ _ _).mp inner
    exact Or.inl (by rw [same])

theorem refused_insert_allocates
    (refused : (HeapOp.insert i data).run.Returns w (.placed none) w') :
    allocation w'.bm ≠ allocation w.bm := by
  obtain ⟨heap, w₁, found, rest⟩ := Program.returns_bind.mp refused
  obtain ⟨heap', w₂, ensured, rest⟩ := Program.returns_bind.mp rest
  obtain ⟨result, w₃, inserted, same⟩ := Program.returns_bind.mp rest
  obtain ⟨answer, rfl⟩ := (Program.returns_pure _ _ _ _).mp same
  cases answer
  have start : w₁ = w := by
    unfold Program.Returns heapAt at found
    rw [Option.map_eq_some_iff] at found
    obtain ⟨_, _, pair⟩ := found
    cases pair
    rfl
  obtain ⟨bm', inner, rfl⟩ := onPool_ends inserted
  have last := insertRecord_taken inner
  rw [start] at ensured
  rw [last]
  rcases firstPage_taken ensured with same | same
  · rw [same]
    exact (taken_ne _).1
  · rw [same]
    exact (taken_ne _).2

/-- The chain of heap `i` has the pages it had, with the bytes they had. -/
def SamePages (i : Nat) (w w' : World N) : Prop :=
  ∃ (heap heap' : HeapFile) (chain : List Int), w.heaps[i]? = some heap ∧
    w'.heaps[i]? = some heap' ∧ Chain w.bm.contents heap.firstPageId chain ∧
    Chain w'.bm.contents heap'.firstPageId chain ∧
    ∀ pageId ∈ chain, w'.bm.contents pageId = w.bm.contents pageId

/-- What a call on heap `i` that changes nothing leaves. -/
structure Unchanged (i : Nat) (w w' : World N) : Prop where
  pages : SamePages i w w'
  allocation : allocation w'.bm = allocation w.bm

/-- An insertion that is refused changes the heap file, whatever it is and whatever the record. -/
theorem refused_insert_changes (refused : (HeapOp.insert i data).run.Returns w (.placed none) w') :
    ¬ Unchanged i w w' :=
  fun unchanged => refused_insert_allocates refused unchanged.allocation

theorem refused_insert : ∃ (log : List HeapEvent) (w w' : World bufferPoolSize),
    HeapRun GivenRids (start (fun _ _ => 0) File.empty) log w ∧
      (HeapOp.insert 99 (List.replicate 8177 0)).run.Returns w (.placed none) w' := by
  obtain ⟨w', _, _, run, _⟩ := @long_run bufferPoolSize _ (fun _ _ => 0) (by decide)
    (List.replicate 8177 0) (by rw [List.length_replicate]; decide)
    (by rw [List.length_replicate]; decide)
  cases run with
  | cons previous taken => exact ⟨_, _, w', previous, taken.1⟩

theorem refused_insert_changes_long : ∃ w w' : World bufferPoolSize,
    (HeapOp.insert 99 (List.replicate 8177 0)).run.Returns w (.placed none) w' ∧
      ¬ Unchanged 99 w w' := by
  obtain ⟨_, w, w', _, refused⟩ := refused_insert
  exact ⟨w, w', refused, refused_insert_changes refused⟩

/-- A record of 8177 bytes, the hundredth heap and a pool of 100 frames. -/
theorem long_insert_not_unchanged : ∃ (log : List HeapEvent) (w w' : World bufferPoolSize),
    HeapRun GivenRids (start (fun _ _ => 0) File.empty) log w ∧
      (HeapOp.insert 99 (List.replicate 8177 0)).run.Returns w (.placed none) w' ∧
      ¬ Unchanged 99 w w' := by
  obtain ⟨log, w, w', run, refused⟩ := refused_insert
  exact ⟨log, w, w', run, refused, fun unchanged =>
    refused_insert_allocates refused unchanged.allocation⟩

theorem refused_insert_grows [NeZero N] {raw : Fin N → Page} {file : File}
    (small : file.size / pageSize < 2 ^ 31) (run : SharedRun (start raw file) log w)
    (taken : sharedStep log w ⟨.heap (.insert i data), .ok (some (.placed none))⟩ w') :
    ∃ (heap heap' : HeapFile) (chain chain' : List Int), w.heaps[i]? = some heap ∧
      w'.heaps[i]? = some heap' ∧ Chain w.bm.contents heap.firstPageId chain ∧
      Chain w'.bm.contents heap'.firstPageId chain' ∧ chain.length < chain'.length := by
  obtain ⟨s, pins, holds⟩ := sharedState small run
  obtain ⟨answer, s', same, effect, _, holds'⟩ := holds.call taken
  cases same
  have longer := effect.longer_of_refused holds.sound rfl
  obtain ⟨heap, present⟩ := effect.heap
  obtain ⟨heap', present'⟩ : ∃ heap', s'.heaps[i]? = some heap' := by
    have bound := (List.getElem?_eq_some_iff.mp present).1
    exact ⟨_, List.getElem?_eq_getElem (Nat.lt_of_lt_of_le bound effect.count_le)⟩
  exact ⟨heap, heap', s.chain i, s'.chain i, by rw [holds.heaps, present],
    by rw [holds'.heaps, present'], contents_chain holds.settled.toBacked holds.sound present,
    contents_chain holds'.settled.toBacked holds'.sound present', longer⟩

end RelationalDb.World
