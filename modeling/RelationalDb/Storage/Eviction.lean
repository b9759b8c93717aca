import RelationalDb.Storage.PoolHistory

set_option autoImplicit false

namespace RelationalDb.BufferManager

variable {N : Nat} {D : Type}

section SecondChance

variable [IDiskManager D] {bm bm' : BufferManager N D} {log : List (PoolRecord N)} {pageId : Int}
  {frame : Fin N}

/-- No frame is free, and a request reads its page into a frame that held another one. -/
def Evicts (bm : BufferManager N D) (pageId : Int) (frame : Fin N) : Prop :=
  bm.pageTable pageId = none ∧ bm.freeList = [] ∧
    ∃ bm', (request pageId).Returns bm frame bm'

omit [IDiskManager D] in
/-- The last call released a page, and its frame is unpinned. -/
structure JustReleased (log : List (PoolRecord N)) (bm : BufferManager N D) (frame : Fin N) :
    Prop where
  last : ∃ pageId value earlier, log = ⟨.call (.release pageId), .ok value⟩ :: earlier ∧
    bm.pageTable pageId = some frame
  unpinned : (bm.pool frame).pinCount = 0

/-- `record_unpin` has cleared the bit of a frame that was just released. -/
theorem JustReleased.clear {wanted : List (PoolRecord N) → Prop} {start : BufferManager N D}
    (released : JustReleased log bm frame) (run : PoolHistory wanted start log bm) :
    bm.policy.Clear bm.pool frame := by
  obtain ⟨pageId, value, earlier, rfl, cached⟩ := released.last
  have unpinned := released.unpinned
  refine ⟨unpinned, ?_⟩
  cases run with
  | @cons _ before _ _ _ taken =>
      have call : Call before (.release pageId) (.ok value) bm := call_of_run taken.1
      cases call with
      | @release _ other there pinned =>
          have same : other = frame := by
            rw [show (before.released other).pageTable = before.pageTable from rfl, there,
              Option.some.injEq] at cached
            exact cached
          subst same
          simp only [BufferManager.released, Function.update_self] at unpinned
          simp only [BufferManager.released, unpinned, ↓reduceIte, ClockPolicy.recordUnpin,
            ClockPolicy.setRefBit_refBits, Function.update_self]

theorem evicts_iff (full : bm.freeList = []) (absent : bm.pageTable pageId = none)
    (clear : bm.policy.Clear bm.pool frame) :
    ∃ victim, Cyclic.First bm.policy.hand (bm.policy.Clear bm.pool) victim ∧
      ∀ other, Evicts bm pageId other ↔ victim = other := by
  rcases request_cases bm pageId with ⟨_, cached, _⟩ | ⟨_, rest, other, available, _⟩ |
    ⟨_, _, victim, policy, chosen, returned⟩ | ⟨_, _, pinned, _⟩
  · rw [absent] at cached
    cases cached
  · rw [full] at available
    exact absurd (congrArg List.length available) (by simp)
  · refine ⟨victim, ClockPolicy.chooseVictim_clear chosen ⟨frame, clear⟩, fun other => ?_⟩
    constructor
    · rintro ⟨_, _, bm', again⟩
      exact (returned.value_eq again).1
    · rintro rfl
      exact ⟨absent, full, _, returned⟩
  · exact absurd clear.1 (pinned frame)

/-- The frame that was just released is spared exactly when the hand comes to another unpinned
frame whose bit is clear before it. -/
theorem second_chance_iff [NeZero N] (raw : Fin N → Page) (disk : D) (log : List (PoolRecord N))
    (bm : BufferManager N D) (run : PoolHistory (fun _ => True) (new raw disk) log bm)
    (full : bm.freeList = []) (frame : Fin N) (released : JustReleased log bm frame)
    (pageId : Int) (absent : bm.pageTable pageId = none) :
    ¬ Evicts bm pageId frame ↔ ∃ other, bm.policy.Clear bm.pool other ∧
      Cyclic.distance bm.policy.hand other < Cyclic.distance bm.policy.hand frame := by
  have clear := released.clear run
  obtain ⟨victim, first, evicted⟩ := evicts_iff full absent clear
  rw [evicted frame]
  exact first.ne_iff clear

end SecondChance

theorem used_run : ∃ (log : List (PoolRecord 2)) (bm : BufferManager 2 DiskManager),
    PoolHistory (fun _ => True) (new (fun _ _ => 0) (DiskManager.openFile File.empty)) log bm ∧
      bm.pageTable = Function.update (Function.update (fun _ => none) 1 (some 1)) 2 (some 0) ∧
      JustReleased log bm 0 ∧ Filling bm 0 := by
  let start : BufferManager 2 DiskManager :=
    new (fun _ _ => 0) (DiskManager.openFile File.empty)
  have filling : Filling start (1 + 1) := new_filling (fun _ _ => 0) _
  obtain ⟨first, requested, released, filling₁⟩ :=
    @Filling.touch 2 DiskManager _ start 1 1 filling (by decide) rfl
  obtain ⟨second, again, given, filling₂⟩ :=
    @Filling.touch 2 DiskManager _ _ 0 2 filling₁ (by decide) rfl
  have run : PoolHistory (fun _ => True) start [] start := .nil
  have one : PoolHistory (fun _ => True) start [⟨.call (.release 1), .ok none⟩,
      ⟨.call (.request 1), .ok (some 1)⟩] (start.touched 1 ⟨1, by decide⟩) :=
    (run.cons ⟨requested.bind_eq, trivial⟩).cons ⟨released.bind_eq, trivial⟩
  have both : PoolHistory (fun _ => True) start [⟨.call (.release 2), .ok none⟩,
      ⟨.call (.request 2), .ok (some 0)⟩, ⟨.call (.release 1), .ok none⟩,
      ⟨.call (.request 1), .ok (some 1)⟩]
      ((start.touched 1 ⟨1, by decide⟩).touched 2 ⟨0, by decide⟩) :=
    (one.cons ⟨again.bind_eq, trivial⟩).cons ⟨given.bind_eq, trivial⟩
  refine ⟨_, _, both, rfl, ⟨⟨2, none, _, rfl, rfl⟩, filling₂.unpinned 0⟩, filling₂⟩

/-- The frame under the hand is the one that was just released, and it is evicted next. -/
theorem just_released_evicted : ∃ (log : List (PoolRecord 2)) (bm : BufferManager 2 DiskManager),
    PoolHistory (fun _ => True) (new (fun _ _ => 0) (DiskManager.openFile File.empty)) log bm ∧
      bm.freeList = [] ∧ JustReleased log bm 0 ∧ bm.policy.Clear bm.pool 1 ∧ Evicts bm 3 0 := by
  obtain ⟨log, bm, run, table, released, filling⟩ := used_run
  have absent : bm.pageTable 3 = none := by
    rw [table]
    rfl
  have full : bm.freeList = [] := by rw [filling.free, List.take_zero]
  exact ⟨log, bm, run, full, released, ⟨filling.unpinned 1, filling.clear 1⟩, absent, full, _,
    filling.request_first rfl absent⟩

theorem second_chance_iff_two : ∃ (log : List (PoolRecord 2)) (bm : BufferManager 2 DiskManager),
    PoolHistory (fun _ => True) (new (fun _ _ => 0) (DiskManager.openFile File.empty)) log bm ∧
      (¬ Evicts bm 3 0 ↔ ∃ other, bm.policy.Clear bm.pool other ∧
        Cyclic.distance bm.policy.hand other < Cyclic.distance bm.policy.hand 0) := by
  obtain ⟨log, bm, run, table, released, filling⟩ := used_run
  refine ⟨log, bm, run, second_chance_iff _ _ log bm run ?_ 0 released 3 ?_⟩
  · rw [filling.free, List.take_zero]
  · rw [table]
    rfl

section Delivered

variable {bm bm' : BufferManager N DiskManager} {log : List (PoolRecord N)} {pageId : Int}

/-- A page that a frame names is in the table. -/
def Named (bm : BufferManager N DiskManager) : Prop :=
  ∀ frame, 0 ≤ (bm.pool frame).pageId → bm.pageTable (bm.pool frame).pageId = some frame

theorem Named.congr (named : Named bm) (table : bm'.pageTable = bm.pageTable)
    (pages : ∀ frame, (bm'.pool frame).pageId = (bm.pool frame).pageId) : Named bm' := by
  intro frame given
  rw [pages] at given ⊢
  rw [table]
  exact named frame given

theorem Named.setFrame (named : Named bm) {frame : Fin N} {change : Frame → Frame}
    (page : ∀ f, (change f).pageId = f.pageId) : Named (bm.setFrame frame change) := by
  refine named.congr rfl fun other => ?_
  rw [pool_setFrame]
  split
  · rename_i same
    rw [page, same]
  · rfl

/-- A page that is in no frame is read into one. -/
theorem Named.loaded {frame : Fin N}
    (others : ∀ other, other ≠ frame → 0 ≤ (bm.pool other).pageId →
      bm.pageTable (bm.pool other).pageId = some other)
    (absent : bm.pageTable pageId = none) : Named (bm.loaded pageId frame) := by
  intro other given
  by_cases same : other = frame
  · subst same
    simp only [BufferManager.loaded, Function.update_self]
  · simp only [BufferManager.loaded, Function.update_of_ne same] at given ⊢
    have cached := others other same given
    have apart : (bm.pool other).pageId ≠ pageId := by
      intro equal
      rw [equal, absent] at cached
      cases cached
    rw [Function.update_of_ne apart, cached]

theorem Named.evicted (named : Named bm) {frame other : Fin N} (apart : other ≠ frame)
    (given : 0 ≤ ((bm.evicted frame).pool other).pageId) :
    (bm.evicted frame).pageTable ((bm.evicted frame).pool other).pageId = some other := by
  have same : (bm.evicted frame).pool other = bm.pool other := by
    simp only [BufferManager.evicted, Function.update_of_ne apart]
  rw [same] at given ⊢
  have cached := named other given
  have different : (bm.pool other).pageId ≠ (bm.pool frame).pageId := by
    intro equal
    have there := named frame (by rwa [← equal])
    rw [← equal, cached, Option.some.injEq] at there
    exact apart there
  rw [evicted_pageTable, if_neg fun victim => different victim.1, cached]

theorem Named.call (named : Named bm) {op : PoolOp N} {outcome : Except Error (Option (Fin N))}
    (call : Call bm op outcome bm') : Named bm' := by
  cases call with
  | refused => exact named
  | @hit _ frame =>
      refine named.congr rfl fun other => ?_
      by_cases same : other = frame <;> simp [accessed, same]
  | free absent => exact .loaded (fun other _ given => named other given) absent
  | @evict _ frame policy absent =>
      have chosen : Named (bm.setPolicy policy) := named
      refine .loaded (fun other apart given => chosen.evicted apart given) ?_
      rw [evicted_pageTable]
      split
      · rfl
      · exact absent
  | @release _ frame =>
      refine named.congr rfl fun other => ?_
      by_cases same : other = frame <;> simp [BufferManager.released, same]
  | markDirty => exact named.setFrame fun _ => rfl
  | write => exact named.setFrame fun _ => rfl
  | flushAll => exact named.congr rfl fun _ => rfl

theorem named [NeZero N] {wanted : List (PoolRecord N) → Prop} {raw : Fin N → Page}
    {disk : DiskManager} (run : PoolHistory wanted (new raw disk) log bm) : Named bm := by
  apply run.invariant fun _ => Named
  · intro frame given
    exact absurd (show (0 : Int) ≤ invalidPageId from given) (by decide)
  · intro log before event after _ named taken
    obtain ⟨action, outcome⟩ := event
    obtain ⟨ended, _⟩ := taken
    cases action with
    | call op => exact named.call (call_of_run ended)
    | store frame page =>
        cases ended
        have kept : Named (before.setFrame frame fun f => { f with data := page }) :=
          named.setFrame fun _ => rfl
        exact kept
    | allocatePage =>
        cases ended
        exact named.congr rfl fun _ => rfl
    | deallocatePage =>
        cases ended
        exact named.congr rfl fun _ => rfl

theorem stored_evicted (named : Named bm)
    (absent : bm.pageTable pageId = none) (frame : Fin N) {page : Page}
    (whole : stored bm.disk pageId = some page) :
    stored (bm.evicted frame).disk pageId = some page := by
  by_cases dirty : (bm.pool frame).dirty
  · by_cases negative : 0 ≤ (bm.pool frame).pageId
    · have apart : pageId ≠ (bm.pool frame).pageId := by
        intro same
        rw [same, named frame negative] at absent
        cases absent
      simp only [BufferManager.evicted, dirty, ↓reduceIte]
      exact stored_writePage_other _ _ _ _ _ negative apart whole
    · have kept : writePage bm.disk (bm.pool frame).pageId (bm.pool frame).data = bm.disk :=
        if_neg negative
      simp only [BufferManager.evicted, dirty, ↓reduceIte]
      rwa [kept]
  · simpa only [BufferManager.evicted, dirty, Bool.false_eq_true, ↓reduceIte] using whole

theorem delivered (named : Named bm) (given : 0 ≤ pageId) (absent : bm.pageTable pageId = none)
    {page : Page} (whole : stored bm.disk pageId = some page) {frame : Fin N}
    (returned : (request pageId).Returns bm frame bm') : (bm'.pool frame).data = page := by
  rcases request_cases bm pageId with ⟨_, cached, _⟩ | ⟨_, rest, other, available, loads⟩ |
    ⟨_, _, victim, policy, chosen, loads⟩ | ⟨_, _, _, refused⟩
  · rw [absent] at cached
    cases cached
  · obtain ⟨rfl, rfl⟩ := loads.value_eq returned
    simp only [BufferManager.loaded, Function.update_self]
    exact readPage_of_stored _ _ _ _ given whole
  · obtain ⟨rfl, rfl⟩ := loads.value_eq returned
    simp only [BufferManager.loaded, Function.update_self]
    have chosen : Named (bm.setPolicy policy) := named
    exact readPage_of_stored _ _ _ _ given (stored_evicted chosen absent victim whole)
  · cases refused.symm.trans returned

end Delivered

/-- Files of the same bytes. -/
structure SameContents (file other : File) : Prop where
  size : file.size = other.size
  bytes : ∀ index < file.size, file.byte index = other.byte index

theorem SameContents.stored {disk disk' : DiskManager} (same : SameContents disk.dbIo disk'.dbIo)
    (pageId : Int) : stored disk pageId = stored disk' pageId := by
  rw [DiskManager.stored_eq, DiskManager.stored_eq]
  unfold DiskManager.storedPage
  rw [← same.size]
  split
  · rename_i inside
    have whole := inside.2
    rw [Nat.add_mul, Nat.one_mul] at whole
    refine congrArg some (funext fun index => same.bytes _ ?_)
    have bound := index.isLt
    omega
  · rfl

theorem SameContents.symm {file other : File} (same : SameContents file other) :
    SameContents other file :=
  ⟨same.size.symm, fun index inside => (same.bytes index (by rw [same.size]; exact inside)).symm⟩

theorem SameContents.trans {file other third : File} (first : SameContents file other)
    (second : SameContents other third) : SameContents file third :=
  ⟨first.size.trans second.size, fun index inside => (first.bytes index inside).trans
    (second.bytes index (by rw [← first.size]; exact inside))⟩

/-- Two pools, each after a history of its own, deliver a page that is in neither with the same
bytes if their file is this one. -/
def DeliversAlike [NeZero N] (raw raw' : Fin N → Page) (file : File) (pageId : Int) : Prop :=
  ∀ (disk disk' : DiskManager) (log log' : List (PoolRecord N))
    (bm bm' opened opened' : BufferManager N DiskManager) (frame frame' : Fin N),
    PoolHistory (fun _ => True) (new raw disk) log bm →
    PoolHistory (fun _ => True) (new raw' disk') log' bm' →
    SameContents bm.disk.dbIo file → SameContents bm'.disk.dbIo file →
    bm.pageTable pageId = none → bm'.pageTable pageId = none →
    (request pageId).Returns bm frame opened → (request pageId).Returns bm' frame' opened' →
    (opened.pool frame).data = (opened'.pool frame').data

/-- Bytes past the end of the file are those the frame held. -/
theorem readPage_past {disk : DiskManager} {pageId : Int} {buffer : Page} {index : Fin pageSize}
    (past : disk.dbIo.size ≤ pageId.toNat * pageSize + index.val) :
    readPage disk pageId buffer index = buffer index :=
  if_neg fun inside => by omega

/-- The pool after other pages were visited in its frames from `left` on, and the same bytes were
stored into each. -/
structure Recycled [NeZero N] (raw : Fin N → Page) (disk : DiskManager) (pageId : Int)
    (page : Page) (left : Nat) (log : List (PoolRecord N)) (bm : BufferManager N DiskManager) :
    Prop where
  run : PoolHistory (fun _ => True) (new raw disk) log bm
  filling : Filling bm left
  clean : ∀ frame, (bm.pool frame).dirty = false
  data : ∀ frame : Fin N, left ≤ frame.val → (bm.pool frame).data = page
  absent : ∀ other ≤ pageId + left, bm.pageTable other = none
  disk : bm.disk = disk

section Recycled

variable [NeZero N] {raw : Fin N → Page} {disk : DiskManager} {pageId : Int} {page : Page}
  {left : Nat} {log : List (PoolRecord N)} {bm : BufferManager N DiskManager}

/-- One more page is requested, overwritten and released. -/
theorem Recycled.visit (recycled : Recycled raw disk pageId page (left + 1) log bm)
    (inside : left < N) :
    ∃ log' bm', Recycled raw disk pageId page left log' bm' := by
  let frame : Fin N := ⟨left, inside⟩
  let other : Int := pageId + (left + 1 : Nat)
  have absent : bm.pageTable other = none := recycled.absent other (Int.le_refl _)
  have free : bm.freeList = (List.finRange N).take left ++ [frame] := by
    rw [recycled.filling.free, take_finRange_succ inside]
  let opened := ({ bm with freeList := (List.finRange N).take left } :
    BufferManager N DiskManager).loaded other frame
  let stored := opened.setFrame frame fun f => { f with data := page }
  have requested : (request other).Returns bm frame opened := request_free bm other _ _ absent free
  have loadedPin : toInt32 1 = 1 := by decide
  have releasedPin : toInt32 0 = 0 := by decide
  have cached : stored.pageTable other = some frame := by
    simp only [stored, opened, setFrame, loaded, Function.update_self]
  have pins : (stored.pool frame).pinCount = 1 := by
    simp [stored, opened, setFrame, loaded, recycled.filling.unpinned, loadedPin]
  have released : (release other).Returns stored () (stored.released frame) :=
    release_pinned stored other frame cached (by omega)
  have run : PoolHistory (fun _ => True) (new raw disk)
      (⟨.call (.release other), .ok none⟩ :: ⟨.store frame page, .ok none⟩ ::
        ⟨.call (.request other), .ok (some frame)⟩ :: log) (stored.released frame) :=
    ((recycled.run.cons ⟨requested.bind_eq, trivial⟩).cons ⟨rfl, trivial⟩).cons
      ⟨released.bind_eq, trivial⟩
  refine ⟨_, _, run, ⟨rfl, ?_, ?_, ?_⟩, ?_, ?_, ?_, recycled.disk⟩
  · simp [BufferManager.released, stored, opened, setFrame, loaded, recycled.filling.unpinned,
      loadedPin, releasedPin, ClockPolicy.recordLoad, ClockPolicy.recordUnpin,
      recycled.filling.hand]
  · intro current
    by_cases same : current = frame <;>
      simp [BufferManager.released, stored, opened, setFrame, loaded, recycled.filling.unpinned,
        loadedPin, releasedPin, ClockPolicy.recordLoad, ClockPolicy.recordUnpin,
        recycled.filling.clear, same]
  · intro current
    by_cases same : current = frame <;>
      simp [BufferManager.released, stored, opened, setFrame, loaded, recycled.filling.unpinned,
        loadedPin, releasedPin, same]
  · intro current
    by_cases same : current = frame <;>
      simp [BufferManager.released, stored, opened, setFrame, loaded, recycled.clean, same]
  · intro current used
    by_cases same : current = frame
    · simp [BufferManager.released, stored, opened, setFrame, same]
    · have apart : current.val ≠ left := fun equal => same (Fin.ext equal)
      simp only [BufferManager.released, stored, opened, setFrame, loaded,
        Function.update_of_ne same]
      exact recycled.data current (by omega)
  · intro before low
    have apart : before ≠ other := by omega
    simp only [BufferManager.released, stored, opened, setFrame, loaded,
      Function.update_of_ne apart]
    exact recycled.absent before (by omega)

/-- Every frame can be used before the page is asked for. -/
theorem recycled (raw : Fin N → Page) (disk : DiskManager) (pageId : Int) (page : Page) :
    ∃ log bm, Recycled raw disk pageId page 0 log bm := by
  have visits : ∀ used ≤ N, ∃ log bm, Recycled raw disk pageId page (N - used) log bm := by
    intro used
    induction used with
    | zero =>
        intro _
        refine ⟨[], _, .nil, new_filling raw disk, fun _ => rfl, fun frame used => ?_,
          fun _ _ => rfl, rfl⟩
        exact absurd used (Nat.not_le_of_lt frame.isLt)
    | succ used ih =>
        intro enough
        obtain ⟨log, bm, recycled⟩ := ih (by omega)
        rw [show N - used = N - (used + 1) + 1 by omega] at recycled
        exact recycled.visit (by omega)
  obtain ⟨log, bm, recycled⟩ := visits N (Nat.le_refl N)
  rw [Nat.sub_self] at recycled
  exact ⟨log, bm, recycled⟩

theorem Recycled.missing (recycled : Recycled raw disk pageId page 0 log bm) :
    bm.pageTable pageId = none :=
  recycled.absent pageId (by omega)

theorem Recycled.delivers (recycled : Recycled raw disk pageId page 0 log bm) :
    ∃ frame opened, (request pageId).Returns bm frame opened ∧
      (opened.pool frame).data = readPage disk pageId page := by
  let frame : Fin N := ⟨0, Nat.pos_of_ne_zero (NeZero.ne N)⟩
  have returned : (request pageId).Returns bm frame ((bm.evicted frame).loaded pageId frame) :=
    recycled.filling.request_first rfl recycled.missing
  have same : (bm.evicted frame).disk = disk := by
    simp [evicted, recycled.clean, recycled.disk]
  refine ⟨frame, _, returned, ?_⟩
  simp only [loaded, Function.update_self, same]
  simp [evicted, recycled.data]

end Recycled

theorem not_deliversAlike [NeZero N] (raw raw' : Fin N → Page) {file : File} {pageId : Int}
    (short : file.size < (pageId.toNat + 1) * pageSize) : ¬ DeliversAlike raw raw' file pageId := by
  intro alike
  let disk := DiskManager.openFile file
  obtain ⟨log, bm, zeros⟩ := recycled raw disk pageId fun _ => 0
  obtain ⟨log', bm', ones⟩ := recycled raw' disk pageId fun _ => 1
  obtain ⟨frame, opened, returned, data⟩ := zeros.delivers
  obtain ⟨frame', opened', returned', data'⟩ := ones.delivers
  have contents : SameContents bm.disk.dbIo file := by
    rw [zeros.disk]
    exact ⟨rfl, fun _ _ => rfl⟩
  have contents' : SameContents bm'.disk.dbIo file := by
    rw [ones.disk]
    exact ⟨rfl, fun _ _ => rfl⟩
  have same := alike disk disk log log' bm bm' opened opened' frame frame' zeros.run ones.run
    contents contents' zeros.missing ones.missing returned returned'
  rw [data, data'] at same
  have size : 0 < pageSize := by decide
  have last := congrFun same ⟨pageSize - 1, by omega⟩
  rw [Nat.add_mul, Nat.one_mul] at short
  have past : file.size ≤ pageId.toNat * pageSize + (pageSize - 1) := by omega
  rw [readPage_past past, readPage_past past] at last
  exact absurd (show (0 : UInt8) = 1 from last) (by decide)

/-- What a page is delivered with depends on the file alone exactly when the page lies in the
file as a whole. -/
theorem deliversAlike_iff (N : Nat) [NeZero N] (raw raw' : Fin N → Page) (file : File)
    (pageId : Int) (given : 0 ≤ pageId) :
    DeliversAlike raw raw' file pageId ↔ (pageId.toNat + 1) * pageSize ≤ file.size := by
  constructor
  · intro alike
    by_contra short
    exact not_deliversAlike raw raw' (Nat.lt_of_not_le short) alike
  · intro whole disk disk' log log' bm bm' opened opened' frame frame' run run' contents
      contents' absent absent' returned returned'
    obtain ⟨page, inFile⟩ : ∃ page, stored bm.disk pageId = some page := by
      rw [DiskManager.stored_eq, DiskManager.storedPage, contents.size, if_pos ⟨given, whole⟩]
      exact ⟨_, rfl⟩
    have inFile' : stored bm'.disk pageId = some page := by
      rw [← (contents.trans contents'.symm).stored pageId, inFile]
    rw [delivered (named run) given absent inFile returned,
      delivered (named run') given absent' inFile' returned']

/-- A pool of one frame, where page 0 was filled with sevens and released. -/
theorem sevens_run : ∃ (log : List (PoolRecord 1)) (bm : BufferManager 1 DiskManager),
    PoolHistory (fun _ => True) (new (fun _ _ => 0) (DiskManager.openFile File.empty)) log bm ∧
      Filling bm 0 ∧ bm.disk = DiskManager.openFile File.empty ∧ bm.pageTable 1 = none ∧
      bm.pool 0 = { pageId := 0, pinCount := 0, dirty := true, data := fun _ => 7 } := by
  let start : BufferManager 1 DiskManager := new (fun _ _ => 0) (DiskManager.openFile File.empty)
  let opened := ({ start with freeList := [] } : BufferManager 1 DiskManager).loaded 0 0
  let filled := opened.written 0 fun _ => 7
  have requested : (request 0).Returns start 0 opened := request_free start 0 [] 0 rfl rfl
  have cached : filled.pageTable 0 = some 0 := by
    simp only [filled, written, setFrame, opened, loaded, Function.update_self]
  have pins : filled.pool 0 = { pageId := 0, pinCount := 1, dirty := true, data := fun _ => 7 } := by
    have loadedPin : toInt32 (0 + 1) = 1 := by decide
    simp only [filled, written, setFrame, opened, loaded, Function.update_self, start, new,
      loadedPin]
  have released : (release 0).Returns filled () (filled.released 0) :=
    release_pinned filled 0 0 cached (by rw [pins]; decide)
  have begins : PoolHistory (fun _ => True) start [] start := .nil
  have run : PoolHistory (fun _ => True) start [⟨.call (.release 0), .ok none⟩,
      ⟨.call (.write 0 0 fun _ => 7), .ok none⟩, ⟨.call (.request 0), .ok (some 0)⟩]
      (filled.released 0) := by
    refine ((begins.cons ⟨requested.bind_eq, trivial⟩).cons ⟨?_, trivial⟩).cons
      ⟨released.bind_eq, trivial⟩
    have stored : ((opened.setFrame 0 fun f => { f with data := fun _ => 7 }).setFrame 0
        fun f => { f with dirty := true }) = filled := by
      simp [setFrame, filled, written]
    exact congrArg (fun bm => some (Except.ok none, bm)) stored
  have releasedPin : toInt32 (1 - 1) = 0 := by decide
  have page : (filled.released 0).pool 0 =
      { pageId := 0, pinCount := 0, dirty := true, data := fun _ => 7 } := by
    simp only [BufferManager.released, Function.update_self, pins, releasedPin]
  have apart : (1 : Int) ≠ 0 := by decide
  refine ⟨_, _, run, ⟨rfl, ?_, fun frame => ?_, fun frame => ?_⟩, rfl, ?_, page⟩
  · rw [Subsingleton.elim (filled.released 0).policy.hand 0]
    rfl
  · rw [Subsingleton.elim frame 0]
    simp only [BufferManager.released, pins, releasedPin, ↓reduceIte, ClockPolicy.recordUnpin,
      ClockPolicy.setRefBit_refBits, Function.update_self]
  · rw [Subsingleton.elim frame 0, page]
  · simp only [BufferManager.released, filled, written, setFrame, opened, loaded, start, new,
      Function.update_of_ne apart]

/-- Page 1 comes with zeros in a fresh pool, and with the sevens of page 0 after the run. -/
theorem recycled_frame_delivered : ∃ (log : List (PoolRecord 1))
    (bm opened opened' : BufferManager 1 DiskManager),
    PoolHistory (fun _ => True) (new (fun _ _ => 0) (DiskManager.openFile File.empty)) log bm ∧
      bm.disk.dbIo = File.empty ∧ bm.pageTable 1 = none ∧
      (request 1).Returns (new (fun _ _ => 0) (DiskManager.openFile File.empty)) 0 opened ∧
      (request 1).Returns bm 0 opened' ∧
      (opened.pool 0).data = (fun _ => 0) ∧ (opened'.pool 0).data = fun _ => 7 := by
  obtain ⟨log, bm, run, filling, disk, absent, held⟩ := sevens_run
  let start : BufferManager 1 DiskManager := new (fun _ _ => 0) (DiskManager.openFile File.empty)
  have fresh := request_free start 1 [] 0 rfl rfl
  have reused : (request 1).Returns bm 0 ((bm.evicted 0).loaded 1 0) :=
    filling.request_first rfl absent
  refine ⟨log, bm, _, _, run, by rw [disk]; rfl, absent, fresh, reused, ?_, ?_⟩
  · simp only [loaded, Function.update_self]
    exact funext fun index => readPage_past (Nat.zero_le _)
  · have written : (bm.evicted 0).disk =
        writePage (DiskManager.openFile File.empty) 0 fun _ => 7 := by
      simp only [evicted, held, disk, ↓reduceIte]
    simp only [loaded, Function.update_self, written]
    refine funext fun index => (readPage_past ?_).trans ?_
    · have size := DiskManager.writePage_size (DiskManager.openFile File.empty) 0 (fun _ => 7)
        (Int.le_refl 0)
      rw [show (writePage (DiskManager.openFile File.empty) 0 fun _ => 7 : DiskManager) =
        (DiskManager.openFile File.empty).writePage 0 fun _ => 7 from rfl, size]
      have empty : (DiskManager.openFile File.empty).dbIo.size = 0 := rfl
      have zero : (0 : Int).toNat = 0 := rfl
      have one : (1 : Int).toNat = 1 := rfl
      rw [empty, zero, one]
      omega
    · simp only [evicted, Function.update_self, held]

theorem deliversAlike_iff_one :
    DeliversAlike (fun (_ : Fin 1) _ => 0) (fun _ _ => 0) File.empty 1 ↔
      ((1 : Int).toNat + 1) * pageSize ≤ File.empty.size :=
  deliversAlike_iff 1 _ _ File.empty 1 (by decide)

end RelationalDb.BufferManager
