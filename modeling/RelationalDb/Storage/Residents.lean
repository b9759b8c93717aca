import RelationalDb.Storage.PageTable
import RelationalDb.Storage.PoolFill

set_option autoImplicit false

namespace RelationalDb.BufferManager

variable {N : Nat} {D : Type}

/-- A page that is not there is added, in the place of the last one where there is no room. -/
def added (room : Nat) (kept : List Int) (pageId : Int) : List Int :=
  if pageId ∈ kept then kept
  else if kept.length < room then kept ++ [pageId]
  else kept.dropLast ++ [pageId]

/-- The pages that are left of those that were requested, the latest request first. -/
def residents (room : Nat) : List Int → List Int
  | [] => []
  | pageId :: earlier => added room (residents room earlier) pageId

/-- The pages a client has requested, the latest first. -/
def requestedPages : List (PoolEvent N D) → List Int
  | [] => []
  | ⟨_, .request pageId, _⟩ :: log => pageId :: requestedPages log
  | _ :: log => requestedPages log

/-- A client that holds no page while it requests one. -/
def OneAtATime (_ : List (PoolEvent N D)) (event : PoolEvent N D) : Prop :=
  ∀ pageId, event.op = .request pageId →
    pageId ≠ invalidPageId ∧ ∀ frame, (event.before.pool frame).pinCount = 0

/-- The pages have taken the frames from the last to the first, and the hand is at the first. -/
structure Placed (bm : BufferManager N D) (kept : List Int) : Prop where
  short : kept.length ≤ N
  nodup : kept.Nodup
  named : invalidPageId ∉ kept
  table : ∀ pageId frame,
    bm.pageTable pageId = some frame ↔ kept[N - 1 - frame.val]? = some pageId
  ids : ∀ pageId frame, bm.pageTable pageId = some frame → (bm.pool frame).pageId = pageId
  hand : bm.policy.hand.val = 0
  clear : ∀ frame, (bm.pool frame).pinCount = 0 → bm.policy.refBits frame = false

structure Queued (bm : BufferManager N D) (kept : List Int) : Prop extends Placed bm kept where
  free : bm.freeList = (List.finRange N).take (N - kept.length)

variable {bm bm' : BufferManager N D} {kept : List Int} {pageId : Int} {frame : Fin N}

theorem new_queued [NeZero N] (raw : Fin N → Page) (disk : D) : Queued (new raw disk) [] := by
  refine ⟨⟨Nat.zero_le N, List.nodup_nil, List.not_mem_nil, ?_, ?_, rfl, fun _ _ => rfl⟩, ?_⟩
  · intro pageId frame
    rw [List.getElem?_nil]
    constructor <;> intro impossible <;> cases impossible
  · intro pageId frame cached
    cases cached
  · rw [List.length_nil, Nat.sub_zero, List.take_of_length_le (by simp)]
    rfl

/-- What leaves the table and the hand alone. -/
theorem Placed.congr (placed : Placed bm kept) (table : bm'.pageTable = bm.pageTable)
    (hand : bm'.policy.hand = bm.policy.hand)
    (ids : ∀ frame, (bm'.pool frame).pageId = (bm.pool frame).pageId)
    (clear : ∀ frame, (bm'.pool frame).pinCount = 0 → bm'.policy.refBits frame = false) :
    Placed bm' kept := by
  refine ⟨placed.short, placed.nodup, placed.named, ?_, ?_, ?_, clear⟩
  · rw [table]
    exact placed.table
  · intro pageId frame cached
    rw [table] at cached
    rw [ids]
    exact placed.ids pageId frame cached
  · rw [hand]
    exact placed.hand

theorem Placed.setFrame (placed : Placed bm kept) (frame : Fin N) (change : Frame → Frame)
    (sameId : ∀ f, (change f).pageId = f.pageId)
    (samePins : ∀ f, (change f).pinCount = f.pinCount) :
    Placed (bm.setFrame frame change) kept := by
  refine placed.congr rfl rfl ?_ ?_
  · intro other
    rw [pool_setFrame]
    split
    · rename_i same
      rw [sameId, same]
    · rfl
  · intro other free
    rw [pool_setFrame] at free
    split at free
    · rename_i same
      rw [samePins, ← same] at free
      exact placed.clear other free
    · exact placed.clear other free

theorem Placed.cached_iff (placed : Placed bm kept) :
    bm.pageTable pageId ≠ none ↔ pageId ∈ kept := by
  rw [Option.ne_none_iff_exists', List.mem_iff_getElem?]
  constructor
  · rintro ⟨frame, cached⟩
    exact ⟨_, (placed.table pageId frame).mp cached⟩
  · rintro ⟨i, found⟩
    have inside := (List.getElem?_eq_some_iff.mp found).1
    have short := placed.short
    refine ⟨⟨N - 1 - i, by omega⟩, (placed.table _ _).mpr ?_⟩
    rw [← found]
    congr 1
    show N - 1 - (N - 1 - i) = i
    omega

theorem Placed.absent_iff (placed : Placed bm kept) :
    bm.pageTable pageId = none ↔ pageId ∉ kept := by
  rw [← placed.cached_iff, not_ne_iff]

theorem loaded_pageTable [IDiskManager D] (bm : BufferManager N D) (pageId other : Int)
    (frame : Fin N) : (bm.loaded pageId frame).pageTable other =
      if other = pageId then some frame else bm.pageTable other := by
  simp only [BufferManager.loaded, Function.update_apply]

/-- The place of a page that is read into the next frame is behind those of the others. -/
theorem Placed.loaded_table [IDiskManager D] (placed : Placed bm kept)
    (absent : bm.pageTable pageId = none) (place : kept.length + frame.val + 1 = N) (other : Int)
    (there : Fin N) : (bm.loaded pageId frame).pageTable other = some there ↔
      (kept ++ [pageId])[N - 1 - there.val]? = some other := by
  have bound := there.isLt
  rw [loaded_pageTable]
  rcases Nat.lt_trichotomy (N - 1 - there.val) kept.length with before | here | behind
  · have apart : frame ≠ there := by
      rintro rfl
      omega
    rw [List.getElem?_append_left before, ← placed.table]
    split
    · rename_i same
      rw [same, absent, Option.some.injEq]
      exact iff_of_false apart (Option.some_ne_none there).symm
    · rfl
  · have same : there = frame := Fin.ext (by omega)
    rw [here, List.getElem?_concat_length, Option.some.injEq, same]
    split
    · rename_i equal
      exact iff_of_true rfl equal.symm
    · rename_i differs
      rw [placed.table, ← same, here, List.getElem?_eq_none (Nat.le_refl _)]
      exact iff_of_false (Option.some_ne_none other).symm fun back => differs back.symm
  · have apart : frame ≠ there := by
      rintro rfl
      omega
    have longer : (kept ++ [pageId]).length = kept.length + 1 := List.length_append
    rw [List.getElem?_eq_none (by omega)]
    refine iff_of_false ?_ (Option.some_ne_none other).symm
    split
    · rw [Option.some.injEq]
      exact apart
    · rw [placed.table, List.getElem?_eq_none (by omega)]
      exact (Option.some_ne_none other).symm

theorem Placed.not_next (placed : Placed bm kept) (place : kept.length + frame.val + 1 = N)
    {there : Fin N} (cached : bm.pageTable pageId = some there) : there ≠ frame := by
  rintro rfl
  rw [placed.table, List.getElem?_eq_none (by omega)] at cached
  cases cached

/-- A page that is read into the next frame. -/
theorem Placed.loaded [IDiskManager D] (placed : Placed bm kept)
    (unpinned : ∀ frame, (bm.pool frame).pinCount = 0) (valid : pageId ≠ invalidPageId)
    (absent : bm.pageTable pageId = none) (place : kept.length + frame.val + 1 = N) :
    Placed (bm.loaded pageId frame) (kept ++ [pageId]) := by
  have once : toInt32 1 = 1 := by decide
  have longer : (kept ++ [pageId]).length = kept.length + 1 := List.length_append
  refine ⟨by omega, placed.nodup.append (List.nodup_singleton _)
    (List.disjoint_singleton.mpr (placed.absent_iff.mp absent)), ?_,
    placed.loaded_table absent place, ?_, placed.hand, ?_⟩
  · rw [List.mem_append, List.mem_singleton, not_or]
    exact ⟨placed.named, valid.symm⟩
  · intro other there cached
    rw [loaded_pageTable] at cached
    simp only [BufferManager.loaded]
    split at cached
    · rename_i same
      rw [← Option.some.inj cached, Function.update_self, same]
    · rw [Function.update_of_ne (placed.not_next place cached)]
      exact placed.ids other there cached
  · intro there free
    by_cases same : there = frame
    · subst same
      simp [BufferManager.loaded, unpinned, once] at free
    · simp only [BufferManager.loaded, ClockPolicy.recordLoad, ClockPolicy.setRefBit_refBits,
        Function.update_of_ne same]
      exact placed.clear there (unpinned there)

theorem Placed.last_found (placed : Placed bm kept) (first : frame.val = 0)
    (whole : kept.length = N) (nonempty : kept ≠ []) :
    bm.pageTable (kept.getLast nonempty) = some frame := by
  have positive : 0 < N := frame.pos
  rw [placed.table, List.getLast_eq_getElem, show N - 1 - frame.val = kept.length - 1 by omega,
    List.getElem?_eq_getElem]

theorem Placed.evicted_last [IDiskManager D] (placed : Placed bm kept) (first : frame.val = 0)
    (whole : kept.length = N) (nonempty : kept ≠ []) (other : Int) :
    (bm.evicted frame).pageTable other =
      if other = kept.getLast nonempty then none else bm.pageTable other := by
  have isLast := placed.ids _ frame (placed.last_found first whole nonempty)
  rw [evicted_pageTable, isLast]
  by_cases same : other = kept.getLast nonempty
  · have real : other ≠ invalidPageId := by
      intro sentinel
      apply placed.named
      rw [← sentinel, same]
      exact List.getLast_mem nonempty
    rw [if_pos ⟨same, real⟩, if_pos same]
  · rw [if_neg fun both => same both.1, if_neg same]

theorem Placed.not_first (placed : Placed bm kept) (first : frame.val = 0)
    (whole : kept.length = N) (nonempty : kept ≠ []) {other : Int} {there : Fin N}
    (apart : other ≠ kept.getLast nonempty) (cached : bm.pageTable other = some there) :
    there ≠ frame := by
  rintro rfl
  have found := placed.last_found first whole nonempty
  rw [placed.table] at cached found
  rw [cached, Option.some.injEq] at found
  exact apart found

theorem Placed.evicted_table [IDiskManager D] (placed : Placed bm kept) (first : frame.val = 0)
    (whole : kept.length = N) (nonempty : kept ≠ []) (other : Int) (there : Fin N) :
    (bm.evicted frame).pageTable other = some there ↔
      kept.dropLast[N - 1 - there.val]? = some other := by
  have bound := there.isLt
  have shorter : kept.dropLast.length = N - 1 := by rw [List.length_dropLast, whole]
  have twice := placed.nodup
  rw [← List.dropLast_append_getLast nonempty] at twice
  have lastOnce : kept.getLast nonempty ∉ kept.dropLast := fun member =>
    (List.nodup_append.mp twice).2.2 _ member _ (List.mem_singleton_self _) rfl
  rw [placed.evicted_last first whole nonempty]
  split
  · rename_i same
    rw [same]
    exact iff_of_false (Option.some_ne_none there).symm
      fun found => lastOnce (List.mem_of_getElem? found)
  · rename_i apart
    by_cases here : there = frame
    · rw [here, List.getElem?_eq_none (by omega)]
      exact iff_of_false (fun cached => placed.not_first first whole nonempty apart cached rfl)
        (Option.some_ne_none other).symm
    · have differ : there.val ≠ frame.val := fun equal => here (Fin.ext equal)
      rw [placed.table, List.getElem?_dropLast, if_pos (by omega)]

theorem Placed.evicted [IDiskManager D] (placed : Placed bm kept) (first : frame.val = 0)
    (whole : kept.length = N) : Placed (bm.evicted frame) kept.dropLast := by
  have positive : 0 < N := frame.pos
  have nonempty : kept ≠ [] := List.ne_nil_of_length_pos (by omega)
  have shorter : kept.dropLast.length = N - 1 := by rw [List.length_dropLast, whole]
  refine ⟨by omega, placed.nodup.sublist (List.dropLast_sublist _),
    fun member => placed.named (List.mem_of_mem_dropLast member),
    placed.evicted_table first whole nonempty, ?_, placed.hand, ?_⟩
  · intro other there cached
    rw [placed.evicted_last first whole nonempty] at cached
    split at cached
    · cases cached
    · rename_i apart
      simp only [BufferManager.evicted,
        Function.update_of_ne (placed.not_first first whole nonempty apart cached)]
      exact placed.ids other there cached
  · intro there free
    by_cases same : there = frame
    · subst same
      simp only [BufferManager.evicted, Function.update_self] at free
      exact placed.clear there free
    · simp only [BufferManager.evicted, Function.update_of_ne same] at free
      exact placed.clear there free

theorem Queued.hit (queued : Queued bm kept) (unpinned : ∀ frame, (bm.pool frame).pinCount = 0)
    (cached : bm.pageTable pageId = some frame) :
    Queued (bm.accessed frame) (added N kept pageId) := by
  have member : pageId ∈ kept := queued.cached_iff.mp (by rw [cached]; exact Option.some_ne_none _)
  rw [added, if_pos member]
  have once : toInt32 1 = 1 := by decide
  refine ⟨queued.congr rfl rfl ?_ ?_, queued.free⟩
  · intro other
    by_cases same : other = frame
    · subst same
      simp [accessed]
    · simp [accessed, same]
  · intro other free
    by_cases same : other = frame
    · subst same
      simp [accessed, unpinned, once] at free
    · simp only [accessed, ClockPolicy.recordAccess, ClockPolicy.setRefBit_refBits,
        Function.update_of_ne same]
      exact queued.clear other (unpinned other)

variable [IDiskManager D]

theorem Queued.taken (queued : Queued bm kept) (valid : pageId ≠ invalidPageId)
    (unpinned : ∀ frame, (bm.pool frame).pinCount = 0) (absent : bm.pageTable pageId = none)
    {rest : List (Fin N)} (available : bm.freeList = rest ++ [frame]) :
    Queued (({ bm with freeList := rest } : BufferManager N D).loaded pageId frame)
      (added N kept pageId) := by
  have free := queued.free
  have short := queued.short
  have count := congrArg List.length free
  rw [available, List.length_append, List.length_singleton, List.length_take,
    List.length_finRange] at count
  obtain ⟨left, more⟩ : ∃ left, N - kept.length = left + 1 := ⟨N - kept.length - 1, by omega⟩
  rw [more, take_finRange_succ (by omega), available] at free
  obtain ⟨rfl, last⟩ := List.append_inj' free rfl
  rw [List.cons.injEq] at last
  have value : frame.val = left := congrArg Fin.val last.1
  have placed : Placed ({ bm with freeList := (List.finRange N).take left } : BufferManager N D)
      kept := queued.congr rfl rfl (fun _ => rfl) queued.clear
  rw [added, if_neg (queued.absent_iff.mp absent), if_pos (by omega)]
  refine ⟨placed.loaded unpinned valid absent (by omega), ?_⟩
  rw [List.length_append, List.length_singleton, show N - (kept.length + 1) = left by omega]
  rfl

/-- A page that takes the place of the last one. -/
theorem Queued.replaced (queued : Queued bm kept) (valid : pageId ≠ invalidPageId)
    (unpinned : ∀ frame, (bm.pool frame).pinCount = 0) (absent : bm.pageTable pageId = none)
    (full : bm.freeList = []) {policy : ClockPolicy N}
    (chosen : bm.policy.chooseVictim bm.pool = (some frame, policy)) :
    Queued (((bm.setPolicy policy).evicted frame).loaded pageId frame) (added N kept pageId) := by
  have fresh := queued.absent_iff.mp absent
  have short := queued.short
  have count := congrArg List.length queued.free
  rw [full, List.length_nil, List.length_take, List.length_finRange] at count
  have atHand := bm.policy.chooseVictim_hand bm.pool (unpinned _) (queued.clear _ (unpinned _))
  rw [chosen, Prod.mk.injEq, Option.some.injEq] at atHand
  obtain ⟨victim, rfl⟩ := atHand
  have first : frame.val = 0 := by rw [victim, queued.hand]
  have positive : 0 < N := frame.pos
  have placed : Placed (bm.evicted frame) kept.dropLast := queued.toPlaced.evicted first (by omega)
  have stillUnpinned : ∀ there, ((bm.evicted frame).pool there).pinCount = 0 := by
    intro there
    by_cases same : there = frame
    · subst same
      simp only [evicted, Function.update_self]
      exact unpinned _
    · simp only [evicted, Function.update_of_ne same]
      exact unpinned there
  have stillAbsent : (bm.evicted frame).pageTable pageId = none :=
    placed.absent_iff.mpr fun member => fresh (List.mem_of_mem_dropLast member)
  have place : kept.dropLast.length + frame.val + 1 = N := by
    rw [List.length_dropLast]
    omega
  rw [added, if_neg fresh, if_neg (by omega)]
  refine ⟨placed.loaded stillUnpinned valid stillAbsent place, ?_⟩
  rw [List.length_append, List.length_singleton, List.length_dropLast,
    show N - (kept.length - 1 + 1) = 0 by omega, List.take_zero]
  exact full

/-- Calls other than requests move no page. -/
theorem Queued.other (queued : Queued bm kept) {op : PoolOp N}
    {outcome : Except Error (Option (Fin N))} (call : Call bm op outcome bm')
    (noRequest : ∀ pageId, op ≠ .request pageId) : Queued bm' kept := by
  cases call with
  | refused op reason => exact queued
  | hit cached => exact absurd rfl (noRequest _)
  | free absent available => exact absurd rfl (noRequest _)
  | evict absent full chosen => exact absurd rfl (noRequest _)
  | @release pageId frame cached pinned =>
      refine ⟨queued.congr rfl ?_ ?_ ?_, queued.free⟩
      · simp only [released]
        split <;> rfl
      · intro other
        by_cases same : other = frame
        · subst same
          simp [released]
        · simp [released, same]
      · intro other free
        by_cases same : other = frame
        · subst same
          simp only [released, Function.update_self] at free
          simp only [released, free, ↓reduceIte, ClockPolicy.recordUnpin,
            ClockPolicy.setRefBit_refBits, Function.update_self]
        · simp only [released, Function.update_of_ne same] at free
          have clear := queued.clear other free
          simp only [released]
          split
          · rw [ClockPolicy.recordUnpin, ClockPolicy.setRefBit_refBits, Function.update_of_ne same]
            exact clear
          · exact clear
  | markDirty frame => exact ⟨queued.setFrame frame _ (fun _ => rfl) fun _ => rfl, queued.free⟩
  | write pageId frame page =>
      exact ⟨queued.setFrame frame _ (fun _ => rfl) fun _ => rfl, queued.free⟩
  | flushAll => exact ⟨queued.congr rfl rfl (fun _ => rfl) queued.clear, queued.free⟩

theorem added_kept {room i : Nat} {other : Int} (short : kept.length ≤ room) (inside : i + 1 < room)
    (found : kept[i]? = some other) : (added room kept pageId)[i]? = some other := by
  have bound := (List.getElem?_eq_some_iff.mp found).1
  unfold added
  split
  · exact found
  · split
    · rw [List.getElem?_append_left bound, found]
    · have before : i < kept.dropLast.length := by
        rw [List.length_dropLast]
        omega
      rw [List.getElem?_append_left before, List.getElem?_dropLast, if_pos (by omega), found]

theorem Queued.request [NeZero N] (queued : Queued bm kept) (valid : pageId ≠ invalidPageId)
    (unpinned : ∀ frame, (bm.pool frame).pinCount = 0) :
    ∃ frame bm', (BufferManager.request pageId).Returns bm frame bm' ∧
      Queued bm' (added N kept pageId) := by
  rcases request_cases bm pageId with ⟨frame, cached, returned⟩ |
    ⟨absent, rest, frame, available, returned⟩ | ⟨absent, full, frame, policy, chosen, returned⟩ |
    ⟨_, _, pinned, _⟩
  · exact ⟨frame, _, returned, queued.hit unpinned cached⟩
  · exact ⟨frame, _, returned, queued.taken valid unpinned absent available⟩
  · exact ⟨frame, _, returned, queued.replaced valid unpinned absent full chosen⟩
  · exact absurd (unpinned 0) (pinned 0)

/-- Pages behind the first frame stay there. -/
def Settles (bm bm' : BufferManager N D) : Prop :=
  ∀ pageId frame, frame.val ≠ 0 → bm.pageTable pageId = some frame →
    bm'.pageTable pageId = some frame

omit [IDiskManager D] in
theorem Queued.settles (queued : Queued bm kept) (queued' : Queued bm' (added N kept pageId)) :
    Settles bm bm' := by
  intro other there behind cached
  have bound := there.isLt
  exact (queued'.table other there).mpr
    (added_kept queued.short (by omega) ((queued.table other there).mp cached))

theorem Queued.step [NeZero N] {log : List (PoolEvent N D)} {event : PoolEvent N D}
    (queued : Queued bm (residents N (requestedPages log)))
    (taken : poolStep OneAtATime log bm event bm') :
    Queued bm' (residents N (requestedPages (event :: log))) ∧ Settles bm bm' := by
  obtain ⟨before, op, outcome⟩ := event
  obtain ⟨rfl, ended, alone⟩ := taken
  have call := call_of_run ended
  by_cases request : ∃ pageId, op = .request pageId
  · obtain ⟨pageId, rfl⟩ := request
    obtain ⟨valid, unpinned⟩ := alone pageId rfl
    obtain ⟨frame, after, returned, queued'⟩ := queued.request valid unpinned
    have whole : (PoolOp.request pageId).run before = some (.ok (some frame), after) :=
      returned.bind_eq
    rw [show (PoolOp.request pageId).run before = some (outcome, bm') from ended] at whole
    cases whole
    exact ⟨queued', queued.settles queued'⟩
  · have noRequest : ∀ pageId, op ≠ .request pageId := fun pageId same => request ⟨pageId, same⟩
    have same : requestedPages (⟨before, op, outcome⟩ :: log) = requestedPages log := by
      cases op with
      | request pageId => exact absurd rfl (noRequest pageId)
      | release => rfl
      | markDirty => rfl
      | write => rfl
      | flushAll => rfl
    rw [same]
    have queued' := queued.other call noRequest
    exact ⟨queued', fun other there _ cached =>
      (queued'.table other there).mpr ((queued.table other there).mp cached)⟩

/-- While a client holds no page when it requests one, the pool has the pages that came first, in
the frames that they took, and of all others only the one that was read in last. -/
theorem residents_exact [NeZero N] (raw : Fin N → Page) (disk : D) (log : List (PoolEvent N D))
    (bm : BufferManager N D) (run : PoolRun OneAtATime (new raw disk) log bm) :
    (∀ pageId frame, bm.pageTable pageId = some frame ↔
      (residents N (requestedPages log))[N - 1 - frame.val]? = some pageId) ∧
    ∀ event ∈ log, Settles event.before bm := by
  have whole : Queued bm (residents N (requestedPages log)) ∧
      ∀ event ∈ log, Settles event.before bm := by
    apply run.invariant fun log bm => Queued bm (residents N (requestedPages log)) ∧
      ∀ event ∈ log, Settles event.before bm
    · exact ⟨new_queued raw disk, fun _ member => absurd member List.not_mem_nil⟩
    · intro log bm event bm' _ holds taken
      obtain ⟨queued, earlier⟩ := holds
      obtain ⟨queued', settles⟩ := queued.step taken
      refine ⟨queued', fun other member => ?_⟩
      rcases List.mem_cons.mp member with rfl | old
      · rw [taken.1]
        exact settles
      · intro pageId frame behind cached
        exact settles pageId frame behind (earlier other old pageId frame behind cached)
  exact ⟨whole.1.table, whole.2⟩

/-- Pages 1, 2 and 3 through two frames: page 1 stays, and page 3 has the place of page 2. -/
theorem residents_exact_three : ∃ (log : List (PoolEvent 2 MockDiskManager))
    (bm : BufferManager 2 MockDiskManager),
    PoolRun OneAtATime (new (fun _ _ => 0) MockDiskManager.empty) log bm ∧
      requestedPages log = [3, 2, 1] ∧ bm.pageTable 1 = some 1 ∧ bm.pageTable 2 ≠ some 0 ∧
      bm.pageTable 3 = some 0 := by
  let start : BufferManager 2 MockDiskManager := new (fun _ _ => 0) MockDiskManager.empty
  have filling : Filling start (1 + 1) := new_filling (fun _ _ => 0) MockDiskManager.empty
  obtain ⟨first, requested, released, filling₁⟩ :=
    @Filling.touch 2 MockDiskManager _ start 1 1 filling (by decide) rfl
  obtain ⟨second, again, given, filling₂⟩ :=
    @Filling.touch 2 MockDiskManager _ _ 0 2 filling₁ (by decide) rfl
  have third := @Filling.request_first 2 MockDiskManager _ _ 0 3 filling₂ rfl rfl
  have begins : PoolRun OneAtATime start [] start := .nil
  have alone : ∀ {left : Nat} {bm : BufferManager 2 MockDiskManager} {pageId : Int}
      {log : List (PoolEvent 2 MockDiskManager)} {outcome : Except Error (Option (Fin 2))},
      Filling bm left → pageId ≠ invalidPageId →
        OneAtATime log ⟨bm, .request pageId, outcome⟩ := by
    intro left bm pageId log outcome fills valid other same
    rw [PoolOp.request.injEq] at same
    rw [← same]
    exact ⟨valid, fills.unpinned⟩
  have back : ∀ {bm : BufferManager 2 MockDiskManager} {pageId : Int}
      {log : List (PoolEvent 2 MockDiskManager)} {outcome : Except Error (Option (Fin 2))},
      OneAtATime log ⟨bm, .release pageId, outcome⟩ := by
    intro bm pageId log outcome other impossible
    cases impossible
  have run : PoolRun OneAtATime start [⟨_, .request 3, .ok (some 0)⟩, ⟨_, .release 2, .ok none⟩,
      ⟨_, .request 2, .ok (some 0)⟩, ⟨_, .release 1, .ok none⟩, ⟨_, .request 1, .ok (some 1)⟩] _ :=
    ((((begins.cons ⟨rfl, requested.bind_eq, alone filling (by decide)⟩).cons
      ⟨rfl, released.bind_eq, back⟩).cons ⟨rfl, again.bind_eq, alone filling₁ (by decide)⟩).cons
      ⟨rfl, given.bind_eq, back⟩).cons ⟨rfl, third.bind_eq, alone filling₂ (by decide)⟩
  obtain ⟨exact_table, _⟩ := residents_exact _ _ _ _ run
  refine ⟨_, _, run, rfl, (exact_table 1 1).mpr rfl, fun cached => ?_, (exact_table 3 0).mpr rfl⟩
  have impossible := (exact_table 2 0).mp cached
  cases impossible

end RelationalDb.BufferManager
