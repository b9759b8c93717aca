import RelationalDb.Access.CrowdedRuns
import RelationalDb.Access.HeapRecords

set_option autoImplicit false

namespace RelationalDb.World

open HeapFile
open BufferManager (Settled Steady Crowded)
open SlottedPage (Layout)

variable {N : Nat} {w w' : World N} {s : HeapState} {pins : Int → Int} {log : List SharedEvent}
  {i : Nat} {data : List UInt8}

/-- The loop over all records of heap `i`. -/
def scanned (i : Nat) : Program (World N) Error (List (List UInt8) ⊕ Empty) := do
  let heap ← heapAt i
  onPool (heap.forRecords i (fun records bytes => some (.inl (records ++ [bytes]))) [])

def releases (freed : List Int) : Program (World N) Error Unit :=
  onPool (freed.forM BufferManager.release)

/-- Once pages were given back so that a frame is free, an insertion or a scan answers in `w'` as
it does in `w`. -/
def SameLater (w w' : World N) : Prop :=
  ∀ (freed : List Int) (w₁ : World N), (releases freed).Returns w () w₁ →
    (∃ frame, (w₁.bm.pool frame).pinCount = 0) → nextAllocated w.bm + 2 < 2 ^ 31 →
    ∃ w₁', (releases freed).Returns w' () w₁' ∧
      (∀ j (bytes : List UInt8) result w₂, bytes.length < 2 ^ 63 →
        (HeapOp.insert j bytes).run.Returns w₁ (.placed result) w₂ →
        ∃ w₂', (HeapOp.insert j bytes).run.Returns w₁' (.placed result) w₂') ∧
      ∀ j records w₂, (scanned j).Returns w₁ records w₂ →
        ∃ w₂', (scanned j).Returns w₁' records w₂'

/-- What an insertion into heap `i` that failed leaves when it changes nothing. -/
structure Intact (i : Nat) (w w' : World N) : Prop where
  initialised : ∀ heap, w'.heaps[i]? = some heap → ∀ pageId,
    Reaches w'.bm.contents heap.firstPageId pageId →
    ∃ page, w'.bm.contents pageId = some page ∧ Layout page headerSize
  records : ∀ rid, storedRecord w'.bm.contents rid = storedRecord w.bm.contents rid
  later : SameLater w w'

section Policy

variable {bm bm₁ : BufferManager N DiskManager} {view : Int → Option Page} {pages : Int}

/-- A release that returned does so whatever the policy. -/
theorem release_alike (settled : Settled bm view pins pages) {pageId : Int}
    (returned : (BufferManager.release pageId).Returns bm () bm₁) (policy : ClockPolicy N) :
    ∃ policy' pins', (BufferManager.release pageId).Returns (bm.setPolicy policy) ()
      (bm₁.setPolicy policy') ∧ Settled bm₁ view pins' pages := by
  obtain ⟨frame, cached, same⟩ := BufferManager.released_of_returns returned
  have pinned : 0 < (bm.pool frame).pinCount := by
    by_contra unpinned
    have thrown := BufferManager.release_unpinned bm pageId frame cached (by omega)
    unfold Program.Throws at thrown
    unfold Program.Returns at returned
    rw [thrown] at returned
    cases returned
  have held : 0 < pins pageId := by
    rw [← settled.pinned, BufferManager.pins_cached cached]
    exact pinned
  obtain ⟨bm₂, again, settled₂⟩ := settled.release held
  obtain ⟨_, rfl⟩ := returned.value_eq again
  subst same
  exact ⟨((bm.setPolicy policy).released frame).policy, _,
    BufferManager.release_pinned (bm.setPolicy policy) pageId frame cached pinned, settled₂⟩

theorem releases_alike (settled : Settled bm view pins pages) {freed : List Int}
    (returned : (freed.forM BufferManager.release : Heap N Unit).Returns bm () bm₁)
    (policy : ClockPolicy N) :
    ∃ policy' pins', (freed.forM BufferManager.release : Heap N Unit).Returns (bm.setPolicy policy) ()
      (bm₁.setPolicy policy') ∧ Settled bm₁ view pins' pages := by
  induction freed generalizing bm pins policy with
  | nil =>
      obtain ⟨_, rfl⟩ := (Program.returns_pure _ _ _ _).mp returned
      exact ⟨policy, pins, Program.pure_returns _ _, settled⟩
  | cons pageId freed ih =>
      change (BufferManager.release pageId >>= fun _ =>
        freed.forM BufferManager.release : Heap N Unit).Returns bm () bm₁ at returned
      obtain ⟨_, bm₂, first, rest⟩ := Program.returns_bind.mp returned
      obtain ⟨policy₂, pins₂, first', settled₂⟩ := release_alike settled first policy
      obtain ⟨policy', pins', rest', settled'⟩ := ih settled₂ rest policy₂
      refine ⟨policy', pins', ?_, settled'⟩
      change (BufferManager.release pageId >>= fun _ =>
        freed.forM BufferManager.release : Heap N Unit).Returns _ () _
      exact first'.bind rest'

end Policy

theorem heapAt_cases {heap : HeapFile} (found : (heapAt i).Returns w heap w') :
    w.heaps[i]? = some heap ∧ w' = w := by
  unfold Program.Returns heapAt at found
  rw [Option.map_eq_some_iff] at found
  obtain ⟨_, present, pair⟩ := found
  cases pair
  exact ⟨present, rfl⟩

theorem Shows.insert_alike {w₂ : World N} (shows : Shows w s pins) (shows' : Shows w' s pins)
    (bounded : data.length < 2 ^ 63) (room : s.pages + 2 < 2 ^ 31) {result : Option Rid}
    (inserted : (HeapOp.insert i data).run.Returns w (.placed result) w₂) :
    ∃ w₂', (HeapOp.insert i data).run.Returns w' (.placed result) w₂' := by
  obtain ⟨heap, _, found, _⟩ := Program.returns_bind.mp inserted
  have present := (heapAt_cases found).1
  rw [shows.heaps] at present
  have enough : RoomFor s i heap data := by
    unfold RoomFor
    split
    · exact ⟨by omega, fun _ => room⟩
    · intro _
      omega
  obtain ⟨answer, _, _, performs⟩ := insert_performs shows present bounded enough
  obtain ⟨answer', w₂', _, performs'⟩ := insert_performs shows' present bounded enough
  have same := insert_answer_unique shows.sound performs.effect performs'.effect
  obtain ⟨answered, _⟩ := inserted.value_eq performs.ended
  refine ⟨w₂', ?_⟩
  rw [answered, same]
  exact performs'.ended

theorem Shows.scan_alike {w₂ : World N} (shows : Shows w s pins) (shows' : Shows w' s pins)
    {records : List (List UInt8) ⊕ Empty} (ended : (scanned i).Returns w records w₂) :
    ∃ w₂', (scanned i).Returns w' records w₂' := by
  obtain ⟨heap, w₁, found, rest⟩ := Program.returns_bind.mp ended
  obtain ⟨present, rfl⟩ := heapAt_cases found
  have known : s.heaps[i]? = some heap := by rw [← shows.heaps, present]
  have present' : w'.heaps[i]? = some heap := by rw [shows'.heaps, known]
  have linked := shows.sound.linked i heap known
  have folds : ∀ (bytes : List (List UInt8)) (start : List (List UInt8)),
      foldRecords (γ := Empty) (fun records bytes => some (.inl (records ++ [bytes]))) start bytes =
        some (.inl (start ++ bytes)) := by
    intro bytes
    induction bytes with
    | nil => simp [foldRecords]
    | cons first bytes ih => simp [foldRecords, ih]
  obtain ⟨bm₁, scan, _⟩ := forRecords_returns i linked shows.steady (folds _ [])
  obtain ⟨bm₁', scan', _⟩ := forRecords_returns i linked shows'.steady (folds _ [])
  obtain ⟨same, _⟩ := rest.value_eq (onPool_returns scan)
  rw [same]
  exact ⟨_, (heapAt_returns present').bind (onPool_returns scan')⟩

theorem SharedState.sameLater (holds : SharedState log w s pins) (policy : ClockPolicy N) :
    SameLater w ⟨w.bm.setPolicy policy, w.heaps⟩ := by
  intro freed w₁ returned evictable room
  rw [show nextAllocated w.bm = s.pages from holds.settled.allocated.next] at room
  obtain ⟨bm₁, inner, rfl⟩ := onPool_ends returned
  obtain ⟨policy', pins', inner', settled⟩ := releases_alike holds.settled inner policy
  have shows : Shows ⟨bm₁, w.heaps⟩ s pins' := ⟨settled.steady evictable, holds.heaps, holds.sound⟩
  have shows' : Shows ⟨bm₁.setPolicy policy', w.heaps⟩ s pins' :=
    ⟨(settled.setPolicy policy').steady evictable, holds.heaps, holds.sound⟩
  refine ⟨⟨bm₁.setPolicy policy', w.heaps⟩, onPool_returns inner', ?_, ?_⟩
  · intro j bytes result w₂ bounded inserted
    exact shows.insert_alike shows' bounded room inserted
  · intro j records w₂ ended
    exact shows.scan_alike shows' ended

theorem not_intact {heap : HeapFile} {pageId : Int} (present : w'.heaps[i]? = some heap)
    (reached : Reaches w'.bm.contents heap.firstPageId pageId)
    (nowhere : w'.bm.contents pageId = none) : ¬ Intact i w w' := by
  intro intact
  obtain ⟨page, there, _⟩ := intact.initialised heap present pageId reached
  rw [nowhere] at there
  cases there

theorem SharedState.intact (holds : SharedState log w s pins) (policy : ClockPolicy N) :
    Intact i w ⟨w.bm.setPolicy policy, w.heaps⟩ := by
  have backed := (holds.settled.setPolicy policy).toBacked
  refine ⟨?_, fun _ => rfl, holds.sameLater policy⟩
  intro heap present pageId reached
  have known : s.heaps[i]? = some heap := by rw [← holds.heaps, present]
  have linked := contents_chain backed holds.sound known
  obtain ⟨_, page, there, layout⟩ := linked.page (linked.reached reached)
  exact ⟨page, there, layout⟩

section Exhausted

variable (holds : SharedState log w s pins) (bounded : data.length < 2 ^ 63)
  (thrown : (HeapOp.insert i data).run.Throws w noCandidates w')
  (unwrapped : 0 ≤ nextAllocated w'.bm)

include holds bounded thrown unwrapped

theorem exhausted_crowded : Crowded w.bm := by
  rcases holds.settled.steady_or_crowded with steady | crowded
  · have shows : Shows w s pins := ⟨steady, holds.heaps, holds.sound⟩
    have allowed : Allowed s (.insert i data) := bounded
    obtain ⟨_, _, returned, _⟩ := shows.step allowed thrown unwrapped
    cases returned
  · exact crowded

theorem exhausted_iff : Intact i w w' ↔ Interrupted i w := by
  have crowded := exhausted_crowded holds bounded thrown unwrapped
  obtain ⟨heap, present, _⟩ := heapAt_ends thrown
  have known : s.heaps[i]? = some heap := by rw [← holds.heaps, present]
  by_cases lazy : heap.firstPageId = invalidPageId
  · refine iff_of_false ?_ ?_
    · rcases holds.insert_lazy_crowded crowded present lazy bounded thrown unwrapped with
        ⟨_, _, returned, _⟩ | ⟨_, heap', pageId, there, reached, nowhere⟩
      · cases returned
      · exact not_intact there reached nowhere
    · rintro ⟨other, found, valid, _⟩
      rw [present] at found
      cases found
      exact valid lazy
  · have chain := contents_chain holds.settled.toBacked holds.sound known
    obtain ⟨outcome, bm', inner, rfl, failed⟩ := insert_valid_ends present lazy thrown
    rcases insertRecord_crowded holds.settled crowded holds.sound known lazy bounded inner unwrapped
      with ⟨_, _, rfl, _⟩ | ⟨_, ⟨policy, rfl⟩, pageId, member, absent⟩ |
        ⟨_, all, pageId, reached, nowhere⟩
    · cases failed
    · exact iff_of_true (holds.intact policy)
        ⟨heap, present, lazy, pageId, chain.reaches member, absent⟩
    · refine iff_of_false (not_intact present reached nowhere) ?_
      rintro ⟨other, found, _, absentId, reaches, absent⟩
      rw [present] at found
      cases found
      exact all absentId (chain.reached reaches) absent

end Exhausted

/-- An insertion that fails out of frames changes nothing if and only if some page of its chain
was in no frame. -/
theorem exhausted_insert_iff [NeZero N] {raw : Fin N → Page} {file : File}
    (small : file.size / pageSize < 2 ^ 31) (run : CrowdedRun (start raw file) log w)
    (bounded : data.length < 2 ^ 63) (thrown : (HeapOp.insert i data).run.Throws w noCandidates w')
    (unwrapped : 0 ≤ nextAllocated w'.bm) : Intact i w w' ↔ Interrupted i w := by
  obtain ⟨s, pins, holds⟩ := crowdedState small run
  exact exhausted_iff holds bounded thrown unwrapped

/-- Another client asks for a page. -/
theorem SharedState.requested (holds : SharedState log w s pins) {pageId : Int} (given : 0 ≤ pageId)
    (more : pins pageId + 1 < 2 ^ 31 - 1) :
    ∃ event w' pins', sharedStep log w event w' ∧ SharedState (event :: log) w' s pins' ∧
      w'.heaps = w.heaps ∧ (pins' = Function.update pins pageId (pins pageId + 1) ∨
        Crowded w'.bm ∧ pins' = pins) := by
  obtain ⟨outcome, bm', requested⟩ : ∃ outcome bm',
      BufferManager.request pageId w.bm = some (outcome, bm') := by
    rcases BufferManager.request_cases w.bm pageId with ⟨_, _, returned⟩ | ⟨_, _, _, _, returned⟩ |
      ⟨_, _, _, _, _, returned⟩ | ⟨_, _, _, refused⟩
    · exact ⟨_, _, returned⟩
    · exact ⟨_, _, returned⟩
    · exact ⟨_, _, returned⟩
    · exact ⟨_, _, refused⟩
  have inner : onPool (BufferManager.request pageId) w = some (outcome, ⟨bm', w.heaps⟩) := by
    rw [onPool, requested]
    rfl
  have guard : SharedGuard log w (.request pageId) := by
    refine ⟨given, ?_⟩
    rwa [show w.bm.pins = pins from holds.settled.pinned]
  have taken : ∀ {pins' : Int → Int}, Settled bm' s.view pins' s.pages →
      sharedStep log w ⟨.request pageId, outcome.map fun _ => none⟩ ⟨bm', w.heaps⟩ := by
    intro pins' settled
    refine ⟨Program.answer_eq_some.mpr ⟨outcome, inner, rfl⟩, guard, ?_⟩
    rw [show nextAllocated bm' = s.pages from settled.allocated.next]
    exact settled.allocated.lower
  rcases holds.settled.request_ends given more requested with
    ⟨frame, rfl, settled⟩ | ⟨rfl, crowded, rfl⟩
  · exact ⟨_, _, _, taken settled, holds.pinned settled rfl, rfl, Or.inl rfl⟩
  · exact ⟨_, _, _, taken holds.settled, holds.pinned holds.settled rfl, rfl, Or.inr ⟨crowded, rfl⟩⟩

/-- Other clients ask for the first pages, until all frames are held. -/
theorem crowd_run {first : World N} (run : SharedRun first log w) (holds : SharedState log w s pins)
    (unheld : ∀ pageId, pins pageId = 0) (count : Nat) :
    ∃ log' w' pins', SharedRun first log' w' ∧ SharedState log' w' s pins' ∧ w'.heaps = w.heaps ∧
      (∀ pageId, pins' pageId ≠ 0 → 0 ≤ pageId ∧ pageId < count) ∧
      (Crowded w'.bm ∨ ∀ k : Nat, k < count → 0 < pins' k) := by
  induction count with
  | zero =>
      refine ⟨log, w, pins, run, holds, rfl, ?_, Or.inr fun k bound => absurd bound (Nat.not_lt_zero k)⟩
      intro pageId held
      exact absurd (unheld pageId) held
  | succ count ih =>
      obtain ⟨log₁, w₁, pins₁, run₁, holds₁, heaps₁, only, ended⟩ := ih
      have wider : ∀ pageId, pins₁ pageId ≠ 0 → 0 ≤ pageId ∧ pageId < (count + 1 : Nat) := by
        intro pageId held
        have known := only pageId held
        omega
      rcases ended with crowded | all
      · exact ⟨log₁, w₁, pins₁, run₁, holds₁, heaps₁, wider, Or.inl crowded⟩
      · have fresh : pins₁ count = 0 := by
          by_contra held
          have known := only count held
          omega
        obtain ⟨event, w₂, pins₂, taken, holds₂, heaps₂, added⟩ :=
          holds₁.requested (Int.natCast_nonneg count) (by rw [fresh]; decide)
        refine ⟨_, w₂, pins₂, run₁.cons taken, holds₂, heaps₂.trans heaps₁, ?_⟩
        rcases added with rfl | ⟨crowded, rfl⟩
        · refine ⟨?_, Or.inr ?_⟩
          · intro pageId held
            by_cases same : pageId = count
            · omega
            · rw [Function.update_of_ne same] at held
              exact wider pageId held
          · intro k bound
            by_cases same : k = count
            · rw [same, Function.update_self, fresh]
              decide
            · rw [Function.update_of_ne (by omega)]
              exact all k (by omega)
        · exact ⟨wider, Or.inl crowded⟩

theorem room_long {view : Int → Option Page} {pageId : Int} {page : Page}
    (present : view pageId = some page) (layout : Layout page headerSize)
    (long : 8176 < data.length) : ¬ HeapFile.room view data pageId = true := by
  rw [room_iff present, SlottedPage.freeSpace_eq page headerSize layout]
  have bounded := layout.bounded
  have size := SlottedPage.pageSize_eq
  have header : headerSize = 8 := rfl
  have pageHeader : SlottedPage.pageHeaderSize = 4 := rfl
  have slot : SlottedPage.slotSize = 4 := rfl
  unfold SlottedPage.directoryEnd
  omega

/-- With a heap on each page and all of them held by others, the last heap takes no record that
is too long for a page. -/
theorem exhausted_run [NeZero N] (raw : Fin N → Page) (room : N + 1 < 2 ^ 31)
    (bounded : data.length < 2 ^ 63) (long : 8176 < data.length) :
    ∃ log w w', SharedRun (start raw File.empty) log w ∧
      (HeapOp.insert (N - 1) data).run.Throws w noCandidates w' ∧ 0 ≤ nextAllocated w'.bm ∧
      ¬ Interrupted (N - 1) w := by
  have positive : 0 < N := Nat.pos_of_ne_zero (NeZero.ne N)
  have small : File.empty.size / pageSize < 2 ^ 31 := by decide
  obtain ⟨w₀, made, filled, heaps₀⟩ := fill_run raw (by omega) (Nat.le_refl N)
  obtain ⟨run₀, _⟩ := shared_of_heapRun small made
  obtain ⟨s₀, shows₀, _⟩ := runState small made
  obtain ⟨s, pins₀, holds₀⟩ := sharedState small run₀
  have pages : s.pages = N := by
    rw [← holds₀.settled.allocated.next, filled.next, Nat.sub_self]
    omega
  have unheld : ∀ pageId, pins₀ pageId = 0 := by
    intro pageId
    rw [← holds₀.settled.pinned, shows₀.steady.pinned]
  obtain ⟨log, w, pins, run, holds, heaps, only, ended⟩ := crowd_run run₀ holds₀ unheld N
  have crowded : Crowded w.bm := ended.elim id holds.settled.crowded
  have all : ∀ pageId ∈ s.chain (N - 1), w.bm.pageTable pageId ≠ none := by
    intro pageId member
    obtain ⟨given, inside, _⟩ := holds.sound.page member
    have held := holds.settled.held crowded only (k := pageId.toNat) (by omega)
    rw [Int.toNat_of_nonneg given] at held
    obtain ⟨frame, cached, _⟩ := holds.settled.held_cached held
    rw [cached]
    exact Option.some_ne_none _
  have absent : w.bm.pageTable s.pages = none := by
    apply holds.settled.absent crowded
    by_contra held
    have known := only s.pages held
    omega
  obtain ⟨heap, present, firstEq⟩ : ∃ heap, w.heaps[N - 1]? = some heap ∧
      heap.firstPageId = (N - 1 : Nat) := by
    rw [heaps, heaps₀, List.getElem?_map, List.getElem?_range (by omega)]
    exact ⟨_, rfl, rfl⟩
  have known : s.heaps[N - 1]? = some heap := by rw [← holds.heaps, present]
  have valid : heap.firstPageId ≠ invalidPageId := by
    intro same
    have nonnegative := Int.natCast_nonneg (N - 1)
    rw [← firstEq, same] at nonnegative
    exact absurd nonnegative (by decide)
  have full : (s.chain (N - 1)).find? (HeapFile.room s.view data) = none := by
    rw [List.find?_eq_none]
    intro pageId member
    obtain ⟨_, _, page, there, layout⟩ := holds.sound.page member
    exact room_long there layout long
  obtain ⟨bm', thrown, next⟩ := insertRecord_throws holds.settled crowded holds.sound known valid
    bounded all full absent (by omega)
  refine ⟨log, w, ⟨bm', w.heaps⟩, run, ?_, ?_, ?_⟩
  · simp only [HeapOp.run, Program.Throws]
    rw [(heapAt_returns present).bind_eq, (firstPage_valid (N - 1) valid).bind_eq]
    exact (onPool_throws thrown).bind
  · show 0 ≤ nextAllocated bm'
    omega
  · rintro ⟨heap, found, _, pageId, reaches, gone⟩
    rw [present] at found
    cases found
    have linked := contents_chain holds.settled.toBacked holds.sound known
    exact all pageId (linked.reached reaches) gone

/-- An insertion of 8177 bytes into the hundredth heap, in a pool of 100 frames. -/
theorem exhausted_insert_iff_long : ∃ w w' : World bufferPoolSize,
    (HeapOp.insert 99 (List.replicate 8177 0)).run.Throws w noCandidates w' ∧
      (Intact 99 w w' ↔ Interrupted 99 w) := by
  obtain ⟨log, w, w', run, thrown, unwrapped, _⟩ := @exhausted_run bufferPoolSize
    (List.replicate 8177 0) _ (fun _ _ => 0) (by decide)
    (by rw [List.length_replicate]; decide) (by rw [List.length_replicate]; decide)
  have small : File.empty.size / pageSize < 2 ^ 31 := by decide
  exact ⟨w, w', thrown, exhausted_insert_iff small (crowded_of_shared small run)
    (by rw [List.length_replicate]; decide) thrown unwrapped⟩

/-- That insertion leaves a page id on the chain of a page that was never initialised. -/
theorem exhausted_insert_not_intact : ∃ (log : List SharedEvent) (w w' : World bufferPoolSize),
    SharedRun (start (fun _ _ => 0) File.empty) log w ∧
      (HeapOp.insert 99 (List.replicate 8177 0)).run.Throws w noCandidates w' ∧
      ¬ Intact 99 w w' := by
  obtain ⟨log, w, w', run, thrown, unwrapped, held⟩ := @exhausted_run bufferPoolSize
    (List.replicate 8177 0) _ (fun _ _ => 0) (by decide)
    (by rw [List.length_replicate]; decide) (by rw [List.length_replicate]; decide)
  have small : File.empty.size / pageSize < 2 ^ 31 := by decide
  obtain ⟨s, pins, holds⟩ := sharedState small run
  refine ⟨log, w, w', run, thrown, fun intact => held ?_⟩
  exact (exhausted_iff holds (by rw [List.length_replicate]; decide) thrown unwrapped).mp intact

end RelationalDb.World
