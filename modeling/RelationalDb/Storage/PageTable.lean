import RelationalDb.Storage.PoolFill

set_option autoImplicit false

namespace RelationalDb.BufferManager

variable {N : Nat} {D : Type}

/-- The page table names the page each frame holds, and every frame is either
free or in the table. -/
structure PageTableIntegrity (bm : BufferManager N D) : Prop where
  mapped : ∀ pageId frame, bm.pageTable pageId = some frame → (bm.pool frame).pageId = pageId
  injective : ∀ first second frame, bm.pageTable first = some frame →
    bm.pageTable second = some frame → first = second
  partition : ∀ frame,
    (frame ∈ bm.freeList ∧ (bm.pool frame).pinCount = 0 ∧
      ∀ pageId, bm.pageTable pageId ≠ some frame) ∨
    (frame ∉ bm.freeList ∧ ∃ pageId, bm.pageTable pageId = some frame)

/-- The integrity of the table with what keeps it: no frame is free twice. -/
structure Linked (bm : BufferManager N D) : Prop where
  mapped : ∀ pageId frame, bm.pageTable pageId = some frame → (bm.pool frame).pageId = pageId
  covered : ∀ frame, frame ∉ bm.freeList → bm.pageTable (bm.pool frame).pageId = some frame
  unmapped : ∀ frame, frame ∈ bm.freeList → ∀ pageId, bm.pageTable pageId ≠ some frame
  unpinned : ∀ frame, frame ∈ bm.freeList → (bm.pool frame).pinCount = 0
  nodup : bm.freeList.Nodup

theorem Linked.integrity {bm : BufferManager N D} (linked : Linked bm) : PageTableIntegrity bm := by
  refine ⟨linked.mapped, ?_, ?_⟩
  · intro first second frame firstMapped secondMapped
    rw [← linked.mapped first frame firstMapped, linked.mapped second frame secondMapped]
  · intro frame
    by_cases free : frame ∈ bm.freeList
    · exact Or.inl ⟨free, linked.unpinned frame free, linked.unmapped frame free⟩
    · exact Or.inr ⟨free, _, linked.covered frame free⟩

/-- A frame in the table is not free. -/
theorem Linked.not_free {bm : BufferManager N D} (linked : Linked bm) {pageId : Int}
    {frame : Fin N} (cached : bm.pageTable pageId = some frame) : frame ∉ bm.freeList :=
  fun free => linked.unmapped frame free pageId cached

theorem new_linked [NeZero N] (raw : Fin N → Page) (disk : D) : Linked (new raw disk) := by
  refine ⟨?_, ?_, ?_, ?_, List.nodup_finRange N⟩
  · intro pageId frame cached
    cases cached
  · intro frame used
    exact absurd (List.mem_finRange frame) used
  · intro frame _ pageId cached
    cases cached
  · intro frame _
    rfl

theorem Linked.congr {bm bm' : BufferManager N D} (linked : Linked bm)
    (table : bm'.pageTable = bm.pageTable) (free : bm'.freeList = bm.freeList)
    (pages : ∀ frame, (bm'.pool frame).pageId = (bm.pool frame).pageId)
    (pins : ∀ frame ∈ bm.freeList, (bm'.pool frame).pinCount = (bm.pool frame).pinCount) :
    Linked bm' := by
  refine ⟨?_, ?_, ?_, ?_, free ▸ linked.nodup⟩
  · intro pageId frame cached
    rw [table] at cached
    rw [pages, linked.mapped pageId frame cached]
  · intro frame used
    rw [free] at used
    rw [table, pages, linked.covered frame used]
  · intro frame member pageId
    rw [free] at member
    rw [table]
    exact linked.unmapped frame member pageId
  · intro frame member
    rw [free] at member
    rw [pins frame member, linked.unpinned frame member]

theorem Linked.setFrame {bm : BufferManager N D} (linked : Linked bm) {frame : Fin N}
    (used : frame ∉ bm.freeList) (change : Frame → Frame)
    (page : (change (bm.pool frame)).pageId = (bm.pool frame).pageId) :
    Linked (bm.setFrame frame change) := by
  refine linked.congr rfl rfl ?_ ?_
  · intro other
    by_cases same : other = frame
    · subst same
      simpa [BufferManager.setFrame] using page
    · simp [BufferManager.setFrame, same]
  · intro other member
    have different : other ≠ frame := by
      rintro rfl
      exact used member
    simp [BufferManager.setFrame, different]

theorem Linked.setPolicy {bm : BufferManager N D} (linked : Linked bm) (policy : ClockPolicy N) :
    Linked (bm.setPolicy policy) :=
  linked.congr rfl rfl (fun _ => rfl) (fun _ _ => rfl)

theorem accessed_linked {bm : BufferManager N D} (linked : Linked bm) {pageId : Int}
    {frame : Fin N} (cached : bm.pageTable pageId = some frame) : Linked (bm.accessed frame) :=
  (linked.setFrame (linked.not_free cached)
    (fun f => { f with pinCount := toInt32 (f.pinCount + 1) }) rfl).setPolicy _

theorem released_linked {bm : BufferManager N D} (linked : Linked bm) {pageId : Int}
    {frame : Fin N} (cached : bm.pageTable pageId = some frame) : Linked (bm.released frame) :=
  (linked.setFrame (linked.not_free cached)
    (fun f => { f with pinCount := toInt32 (f.pinCount - 1) }) rfl).setPolicy _

theorem pool_setFrame (bm : BufferManager N D) (frame other : Fin N) (change : Frame → Frame) :
    (bm.setFrame frame change).pool other =
      if other = frame then change (bm.pool frame) else bm.pool other := by
  simp [BufferManager.setFrame, Function.update_apply]

theorem setFrame_linked {bm : BufferManager N D} (linked : Linked bm) (frame : Fin N)
    (change : Frame → Frame) (page : ∀ f, (change f).pageId = f.pageId)
    (pins : ∀ f, (change f).pinCount = f.pinCount) : Linked (bm.setFrame frame change) := by
  refine linked.congr rfl rfl ?_ ?_
  · intro other
    rw [pool_setFrame]
    split
    · rename_i same
      rw [page, same]
    · rfl
  · intro other _
    rw [pool_setFrame]
    split
    · rename_i same
      rw [pins, same]
    · rfl

section Load

variable [IDiskManager D]

theorem flushed_linked {bm : BufferManager N D} (linked : Linked bm) : Linked bm.flushed :=
  linked.congr rfl rfl (fun _ => rfl) (fun _ _ => rfl)

/-- A page that is not cached goes to a frame that no entry points to. -/
theorem loaded_linked {bm : BufferManager N D} {pageId : Int} {frame : Fin N}
    (mapped : ∀ other g, bm.pageTable other = some g → (bm.pool g).pageId = other)
    (covered : ∀ g, g ∉ bm.freeList → g ≠ frame → bm.pageTable (bm.pool g).pageId = some g)
    (unmapped : ∀ g, g ∈ bm.freeList → ∀ other, bm.pageTable other ≠ some g)
    (unpinned : ∀ g, g ∈ bm.freeList → (bm.pool g).pinCount = 0)
    (nodup : bm.freeList.Nodup) (absent : bm.pageTable pageId = none)
    (used : frame ∉ bm.freeList) (clear : ∀ other, bm.pageTable other ≠ some frame) :
    Linked (bm.loaded pageId frame) := by
  have table : ∀ other, (bm.loaded pageId frame).pageTable other =
      if other = pageId then some frame else bm.pageTable other := fun other => by
    simp [loaded, Function.update_apply]
  have pool : ∀ g, g ≠ frame → (bm.loaded pageId frame).pool g = bm.pool g := fun g different => by
    simp [loaded, different]
  have here : ((bm.loaded pageId frame).pool frame).pageId = pageId := by simp [loaded]
  refine ⟨?_, ?_, ?_, ?_, nodup⟩
  · intro other g cached
    rw [table] at cached
    split at cached
    · rename_i same
      cases cached
      rw [here, same]
    · have different : g ≠ frame := by
        rintro rfl
        exact clear other cached
      rw [pool g different]
      exact mapped other g cached
  · intro g member
    by_cases same : g = frame
    · rw [same, here, table, if_pos rfl]
    · have entry := covered g member same
      rw [pool g same, table, if_neg]
      · exact entry
      · intro equal
        rw [equal, absent] at entry
        cases entry
  · intro g member other
    have different : g ≠ frame := by
      rintro rfl
      exact used member
    rw [table]
    split
    · intro equal
      exact different (Option.some.inj equal).symm
    · exact unmapped g member other
  · intro g member
    have different : g ≠ frame := by
      rintro rfl
      exact used member
    rw [pool g different]
    exact unpinned g member

theorem loaded_free_linked {bm : BufferManager N D} (linked : Linked bm) {pageId : Int}
    {rest : List (Fin N)} {frame : Fin N} (absent : bm.pageTable pageId = none)
    (available : bm.freeList = rest ++ [frame]) :
    Linked (({ bm with freeList := rest } : BufferManager N D).loaded pageId frame) := by
  have nodup := linked.nodup
  rw [available, List.nodup_append] at nodup
  obtain ⟨restNodup, _, apart⟩ := nodup
  have inRest : ∀ g ∈ rest, g ∈ bm.freeList := fun g member => by
    rw [available]
    exact List.mem_append_left _ member
  have frameFree : frame ∈ bm.freeList := by
    rw [available]
    exact List.mem_append_right _ List.mem_cons_self
  refine loaded_linked linked.mapped ?_ (fun g member => linked.unmapped g (inRest g member))
    (fun g member => linked.unpinned g (inRest g member)) restNodup absent
    (fun member => apart frame member frame List.mem_cons_self rfl) (linked.unmapped frame frameFree)
  intro g outside different
  apply linked.covered
  rw [available, List.mem_append, List.mem_singleton]
  rintro (member | same)
  · exact outside member
  · exact different same

/-- Evicting a frame that does not hold page `INVALID_PAGE_ID` frees its entry. -/
theorem evicted_loaded_linked {bm : BufferManager N D} (linked : Linked bm) {pageId : Int}
    {frame : Fin N} {policy : ClockPolicy N} (absent : bm.pageTable pageId = none)
    (full : bm.freeList = []) (valid : (bm.pool frame).pageId ≠ invalidPageId) :
    Linked (((bm.setPolicy policy).evicted frame).loaded pageId frame) := by
  have all : ∀ g : Fin N, g ∉ bm.freeList := fun g => by
    rw [full]
    exact List.not_mem_nil
  have table : ∀ other, ((bm.setPolicy policy).evicted frame).pageTable other =
      if other = (bm.pool frame).pageId then none else bm.pageTable other := fun other => by
    simp [evicted, setPolicy, valid, Function.update_apply]
  have pool : ∀ g, g ≠ frame → ((bm.setPolicy policy).evicted frame).pool g = bm.pool g :=
    fun g different => by simp [evicted, setPolicy, different]
  have clear : ∀ other, ((bm.setPolicy policy).evicted frame).pageTable other ≠ some frame := by
    intro other
    rw [table]
    split
    · intro impossible
      cases impossible
    · rename_i different
      intro cached
      exact different (linked.mapped other frame cached).symm
  refine loaded_linked ?_ ?_ ?_ ?_ (by simp [evicted, setPolicy, full]) ?_ (all frame) clear
  · intro other g cached
    have different : g ≠ frame := by
      rintro rfl
      exact clear other cached
    rw [table] at cached
    split at cached
    · cases cached
    · rw [pool g different]
      exact linked.mapped other g cached
  · intro g _ different
    have entry := linked.covered g (all g)
    rw [pool g different, table, if_neg]
    · exact entry
    · intro equal
      have other := linked.covered frame (all frame)
      rw [← equal, entry] at other
      exact different (Option.some.inj other)
  · intro g member
    exact absurd member (all g)
  · intro g member
    exact absurd member (all g)
  · rw [table, absent, ite_self]

/-- A request that takes the frame of page `INVALID_PAGE_ID` away. -/
def EvictsSentinel (bm : BufferManager N D) (op : PoolOp N) : Prop :=
  ∃ pageId frame, op = .request pageId ∧ bm.pageTable pageId = none ∧ bm.freeList = [] ∧
    (bm.policy.chooseVictim bm.pool).1 = some frame ∧ (bm.pool frame).pageId = invalidPageId

theorem Call.linked {bm bm' : BufferManager N D} {op : PoolOp N}
    {outcome : Except Error (Option (Fin N))} (call : Call bm op outcome bm') (linked : Linked bm)
    (kept : ¬ EvictsSentinel bm op) : Linked bm' := by
  cases call with
  | refused => exact linked
  | hit cached => exact accessed_linked linked cached
  | free absent available => exact loaded_free_linked linked absent available
  | evict absent full chosen =>
      apply evicted_loaded_linked linked absent full
      intro sentinel
      exact kept ⟨_, _, rfl, absent, full, by rw [chosen], sentinel⟩
  | release cached _ => exact released_linked linked cached
  | markDirty frame => exact setFrame_linked linked frame _ (fun _ => rfl) (fun _ => rfl)
  | write _ frame page => exact setFrame_linked linked frame _ (fun _ => rfl) (fun _ => rfl)
  | flushAll => exact flushed_linked linked

/-- The entry of page `INVALID_PAGE_ID` outlives its frame's eviction. -/
theorem Call.sentinel_breaks {bm bm' : BufferManager N D} {op : PoolOp N}
    {outcome : Except Error (Option (Fin N))} (call : Call bm op outcome bm')
    (returned : ∃ value, outcome = .ok value) (intact : PageTableIntegrity bm)
    (evicts : EvictsSentinel bm op) : ¬ PageTableIntegrity bm' := by
  obtain ⟨pageId, frame, rfl, absent, full, victim, sentinel⟩ := evicts
  have entry : bm.pageTable invalidPageId = some frame := by
    rcases intact.partition frame with ⟨free, _⟩ | ⟨_, other, cached⟩
    · rw [full] at free
      cases free
    · rwa [← sentinel, intact.mapped other frame cached]
  have different : invalidPageId ≠ pageId := by
    intro same
    rw [← same, entry] at absent
    cases absent
  cases call with
  | refused =>
      obtain ⟨_, impossible⟩ := returned
      cases impossible
  | hit cached =>
      rw [absent] at cached
      cases cached
  | free _ available =>
      rw [full] at available
      simp at available
  | @evict _ _ policy _ _ chosen =>
      rw [chosen] at victim
      cases victim
      intro broken
      have stale : (((bm.setPolicy policy).evicted frame).loaded pageId frame).pageTable
          invalidPageId = some frame := by
        simp only [loaded, Function.update_of_ne different]
        simpa [evicted, setPolicy, sentinel] using entry
      have moved := broken.mapped invalidPageId frame stale
      simp only [loaded, Function.update_self] at moved
      exact different moved.symm

theorem EvictsSentinel.returns {bm bm' : BufferManager N D} {op : PoolOp N}
    {outcome : Except Error (Option (Fin N))} (evicts : EvictsSentinel bm op)
    (ended : op.run bm = some (outcome, bm')) : ∃ value, outcome = .ok value := by
  obtain ⟨pageId, frame, rfl, absent, full, victim, _⟩ := evicts
  have returned := request_evict bm pageId frame _ absent full (Prod.ext victim rfl)
  have whole : (PoolOp.request pageId : PoolOp N).run bm = some (.ok (some frame), _) :=
    returned.bind_eq
  rw [whole] at ended
  cases ended
  exact ⟨_, rfl⟩

/-- In a run with any page ids whatever the table stays sound in every state
exactly when no request takes the frame of page `INVALID_PAGE_ID` away. -/
theorem pageTableIntegrity_iff [NeZero N] (raw : Fin N → Page) (disk : D)
    (log : List (PoolEvent N D)) (bm : BufferManager N D)
    (run : PoolRun (fun _ _ => True) (new raw disk) log bm) :
    ((∀ event ∈ log, PageTableIntegrity event.before) ∧ PageTableIntegrity bm) ↔
      ∀ event ∈ log, ¬ EvictsSentinel event.before event.op := by
  constructor
  · rintro ⟨before, after⟩
    induction run with
    | nil =>
        intro event member
        cases member
    | cons previous taken ih =>
        obtain ⟨rfl, ended, _⟩ := taken
        have intact := before _ List.mem_cons_self
        intro event member evicts
        rcases List.mem_cons.mp member with rfl | earlier
        · exact (call_of_run ended).sentinel_breaks (evicts.returns ended) intact evicts after
        · exact ih (fun other old => before other (List.mem_cons_of_mem _ old)) intact event earlier
            evicts
  · intro kept
    suffices linked : (∀ event ∈ log, Linked event.before) ∧ Linked bm from
      ⟨fun event member => (linked.1 event member).integrity, linked.2.integrity⟩
    induction run with
    | nil =>
        refine ⟨?_, new_linked raw disk⟩
        intro event member
        cases member
    | cons previous taken ih =>
        obtain ⟨rfl, ended, _⟩ := taken
        have earlier := ih fun other old => kept other (List.mem_cons_of_mem _ old)
        refine ⟨?_, (call_of_run ended).linked earlier.2 (kept _ List.mem_cons_self)⟩
        intro event member
        rcases List.mem_cons.mp member with rfl | old
        · exact earlier.2
        · exact earlier.1 event old

theorem Call.freeList {bm bm' : BufferManager N D} {op : PoolOp N}
    {outcome : Except Error (Option (Fin N))} (call : Call bm op outcome bm')
    (free : bm'.freeList ≠ []) : bm.freeList ≠ [] := by
  cases call with
  | refused => exact free
  | hit => exact free
  | free absent available =>
      rw [available]
      exact List.append_ne_nil_of_right_ne_nil _ (List.cons_ne_nil _ _)
  | evict => exact free
  | release => exact free
  | markDirty => exact free
  | write => exact free
  | flushAll => exact free

theorem not_evictsSentinel {start bm : BufferManager N D} {log : List (PoolEvent N D)}
    (run : PoolRun (fun _ _ => True) start log bm) (free : bm.freeList ≠ []) :
    ∀ event ∈ log, ¬ EvictsSentinel event.before event.op := by
  induction run with
  | nil =>
      intro event member
      cases member
  | cons previous taken ih =>
      obtain ⟨rfl, ended, _⟩ := taken
      have before := (call_of_run ended).freeList free
      intro event member evicts
      rcases List.mem_cons.mp member with rfl | earlier
      · obtain ⟨_, _, _, _, full, _⟩ := evicts
        exact before full
      · exact ih before event earlier evicts

/-- Three pages are touched, `INVALID_PAGE_ID` among them. -/
theorem pageTableIntegrity_iff_touched :
    ∃ (log : List (PoolEvent bufferPoolSize MockDiskManager))
      (bm : BufferManager bufferPoolSize MockDiskManager),
      PoolRun (fun _ _ => True) (new (fun _ _ => 0) MockDiskManager.empty) log bm ∧
      (log.map PoolEvent.op).reverse = touches [0, invalidPageId, 1] ∧
      (∀ event ∈ log, PageTableIntegrity event.before) ∧ PageTableIntegrity bm := by
  obtain ⟨log, bm, run, ops, filling, _⟩ :=
    @Filling.touches_run _ _ _ _ _ _ 97 [0, invalidPageId, 1] .nil
      (new_filling (N := bufferPoolSize) (fun _ _ => 0) MockDiskManager.empty) (by decide)
      (by decide) (fun _ _ => rfl)
  have free : bm.freeList ≠ [] := by
    rw [filling.free]
    decide
  exact ⟨log, bm, run, ops, (pageTableIntegrity_iff _ _ log bm run).mpr
    (not_evictsSentinel run free)⟩

end Load

/-- With as many pages touched as there are frames, page `INVALID_PAGE_ID` the
last of them, the next request breaks the table. -/
theorem pageTableIntegrity_broken :
    ∃ (log : List (PoolEvent bufferPoolSize MockDiskManager))
      (bm : BufferManager bufferPoolSize MockDiskManager),
      PoolRun (fun _ _ => True) (new (fun _ _ => 0) MockDiskManager.empty) log bm ∧
      (log.map PoolEvent.op).reverse =
        touches ((List.range 99).map Int.ofNat) ++ touches [invalidPageId] ++ [.request 99] ∧
      ¬ PageTableIntegrity bm := by
  let pages : List Int := (List.range 99).map Int.ofNat
  have length : pages.length = 99 := by simp [pages]
  have invalid : invalidPageId ∉ pages := by decide
  have fresh : (99 : Int) ∉ pages := by decide
  let start : BufferManager bufferPoolSize MockDiskManager :=
    new (fun _ _ => 0) MockDiskManager.empty
  have all : 1 + pages.length = bufferPoolSize := by rw [length]; rfl
  have unused : Filling start (1 + pages.length) := by
    rw [all]
    exact new_filling _ _
  obtain ⟨log, bm, run, ops, filling, table⟩ :=
    Filling.touches_run pages .nil unused (Nat.le_of_eq all) (by decide) (fun _ _ => rfl)
  obtain ⟨log', run', ops', full⟩ := filling.touch_run run (by decide) (table invalidPageId invalid)
  let frame : Fin bufferPoolSize := ⟨0, by decide⟩
  let last := bm.touched invalidPageId frame
  have other : invalidPageId ≠ 99 := by decide
  have uncached : last.pageTable 99 = none := by
    simp only [last, touched, Function.update_of_ne other.symm]
    exact table 99 fresh
  have under : last.policy.hand = frame := Fin.ext full.hand
  have chosen := ClockPolicy.chooseVictim_hand last.policy last.pool (full.unpinned _) (full.clear _)
  rw [under] at chosen
  have returned := request_evict last 99 frame _ uncached full.free chosen
  have ended : (PoolOp.request 99 : PoolOp bufferPoolSize).run last = some (.ok (some _), _) :=
    returned.bind_eq
  refine ⟨⟨last, .request 99, .ok (some frame)⟩ :: log', _, run'.cons ⟨rfl, ended, trivial⟩, ?_, ?_⟩
  · rw [List.map_cons, List.reverse_cons, ops', ops]
    rfl
  · intro intact
    have stale := intact.mapped invalidPageId frame (by
      simp only [loaded, Function.update_of_ne other]
      simp [evicted, setPolicy, last, touched])
    simp only [loaded, Function.update_self] at stale
    exact other stale.symm

end RelationalDb.BufferManager
