import Mathlib.Data.Fintype.Card
import RelationalDb.Storage.PoolRun

set_option autoImplicit false

namespace RelationalDb

/-- A disk with the ids of the pages that were written to it, the latest first. -/
structure Recorder (D : Type) where
  disk : D
  writes : List Int

instance {D : Type} [IDiskManager D] : IDiskManager (Recorder D) where
  readPage recorder pageId buffer := readPage recorder.disk pageId buffer
  writePage recorder pageId page :=
    ⟨writePage recorder.disk pageId page, pageId :: recorder.writes⟩
  allocatePage recorder :=
    ((allocatePage recorder.disk).1, { recorder with disk := (allocatePage recorder.disk).2 })
  deallocatePage recorder pageId := { recorder with disk := deallocatePage recorder.disk pageId }

namespace BufferManager

variable {N : Nat} {D : Type}

def dirtyFrames (bm : BufferManager N D) : Finset (Fin N) :=
  Finset.univ.filter fun frame => (bm.pool frame).dirty = true

def HasChanges (bm : BufferManager N D) (pageId : Int) : Prop :=
  ∃ frame, (bm.pool frame).dirty = true ∧ (bm.pool frame).pageId = pageId

/-- The frame that a call marks. -/
def marks : PoolOp N → Option (Fin N)
  | .markDirty frame => some frame
  | .write _ frame _ => some frame
  | _ => none

/-- How often a frame was marked. -/
def markings : List (PoolEvent N D) → Nat
  | [] => 0
  | event :: log => markings log + (if (marks event.op).isSome then 1 else 0)

def Marks (event : PoolEvent N D) (pageId : Int) : Prop :=
  ∃ frame, marks event.op = some frame ∧ (event.before.pool frame).pageId = pageId

variable {bm bm' : BufferManager N (Recorder D)}

/-- What was written, what is still to be written and what was marked, from a start. -/
structure Accounted (start : BufferManager N (Recorder D)) (log : List (PoolEvent N (Recorder D)))
    (bm : BufferManager N (Recorder D)) : Prop where
  count : bm.disk.writes.length + bm.dirtyFrames.card ≤
    start.disk.writes.length + start.dirtyFrames.card + markings log
  written : ∀ pageId ∈ bm.disk.writes,
    pageId ∈ start.disk.writes ∨ start.HasChanges pageId ∨ ∃ event ∈ log, Marks event pageId
  changed : ∀ pageId, bm.HasChanges pageId →
    start.HasChanges pageId ∨ ∃ event ∈ log, Marks event pageId

/-- What a call writes and marks, in terms of the state before it. -/
structure Spends (bm : BufferManager N (Recorder D)) (marked : Option (Fin N))
    (bm' : BufferManager N (Recorder D)) : Prop where
  count : bm'.disk.writes.length + bm'.dirtyFrames.card ≤
    bm.disk.writes.length + bm.dirtyFrames.card + (if marked.isSome then 1 else 0)
  written : ∀ pageId ∈ bm'.disk.writes, pageId ∈ bm.disk.writes ∨ bm.HasChanges pageId
  changed : ∀ pageId, bm'.HasChanges pageId →
    bm.HasChanges pageId ∨ ∃ frame, marked = some frame ∧ (bm.pool frame).pageId = pageId

/-- A call that writes nothing and leaves no frame dirty that was not. -/
theorem Spends.still (writes : bm'.disk.writes = bm.disk.writes)
    (dirty : ∀ frame, (bm'.pool frame).dirty = true →
      (bm.pool frame).dirty = true ∧ (bm'.pool frame).pageId = (bm.pool frame).pageId) :
    Spends bm none bm' := by
  refine ⟨?_, ?_, ?_⟩
  · have fewer : bm'.dirtyFrames ⊆ bm.dirtyFrames := by
      intro frame member
      have isDirty := (Finset.mem_filter.mp member).2
      exact Finset.mem_filter.mpr ⟨Finset.mem_univ _, (dirty frame isDirty).1⟩
    have below := Finset.card_le_card fewer
    rw [writes]
    simpa using below
  · intro pageId member
    rw [writes] at member
    exact Or.inl member
  · rintro pageId ⟨frame, isDirty, rfl⟩
    obtain ⟨before, same⟩ := dirty frame isDirty
    exact Or.inl ⟨frame, before, same.symm⟩

theorem Spends.replaced (frame : Fin N) (contents : Frame)
    (writes : bm'.disk.writes = bm.disk.writes)
    (pool : bm'.pool = Function.update bm.pool frame contents)
    (dirty : contents.dirty = true →
      (bm.pool frame).dirty = true ∧ contents.pageId = (bm.pool frame).pageId) :
    Spends bm none bm' := by
  refine Spends.still writes fun other isDirty => ?_
  rw [pool] at isDirty ⊢
  by_cases same : other = frame
  · subst same
    rw [Function.update_self] at isDirty ⊢
    exact dirty isDirty
  · rw [Function.update_of_ne same] at isDirty ⊢
    exact ⟨isDirty, rfl⟩

theorem Spends.trans {bm'' : BufferManager N (Recorder D)} (first : Spends bm none bm')
    (second : Spends bm' none bm'') : Spends bm none bm'' := by
  refine ⟨second.count.trans first.count, ?_, ?_⟩
  · intro pageId member
    rcases second.written pageId member with before | changes
    · exact first.written pageId before
    · rcases first.changed pageId changes with before | ⟨_, impossible, _⟩
      · exact Or.inr before
      · cases impossible
  · intro pageId changes
    rcases second.changed pageId changes with before | ⟨_, impossible, _⟩
    · exact first.changed pageId before
    · cases impossible

theorem Spends.atMost (spends : Spends bm none bm') (marked : Option (Fin N)) :
    Spends bm marked bm' := by
  refine ⟨spends.count.trans (Nat.add_le_add_left (Nat.zero_le _) _), spends.written, ?_⟩
  intro pageId changes
  rcases spends.changed pageId changes with before | ⟨_, impossible, _⟩
  · exact Or.inl before
  · cases impossible

/-- A frame that is marked. -/
theorem Spends.marked (frame : Fin N) (change : Frame → Frame)
    (sameId : ∀ f, (change f).pageId = f.pageId) :
    Spends bm (some frame) (bm.setFrame frame change) := by
  have others : ∀ other, other ≠ frame → (bm.setFrame frame change).pool other = bm.pool other :=
    fun other apart => Function.update_of_ne apart _ _
  have here : ((bm.setFrame frame change).pool frame).pageId = (bm.pool frame).pageId := by
    simp only [setFrame, Function.update_self, sameId]
  refine ⟨?_, fun pageId member => Or.inl member, ?_⟩
  · have one : (bm.setFrame frame change).dirtyFrames ⊆ insert frame bm.dirtyFrames := by
      intro other member
      by_cases same : other = frame
      · rw [same]
        exact Finset.mem_insert_self _ _
      · have isDirty := (Finset.mem_filter.mp member).2
        rw [others other same] at isDirty
        exact Finset.mem_insert_of_mem (Finset.mem_filter.mpr ⟨Finset.mem_univ _, isDirty⟩)
    have below := (Finset.card_le_card one).trans (Finset.card_insert_le _ _)
    show bm.disk.writes.length + _ ≤ _
    simp only [Option.isSome_some, ↓reduceIte]
    omega
  · rintro pageId ⟨other, isDirty, rfl⟩
    by_cases same : other = frame
    · rw [same, here]
      exact Or.inr ⟨frame, rfl, rfl⟩
    · rw [others other same] at isDirty ⊢
      exact Or.inl ⟨other, isDirty, rfl⟩

variable [IDiskManager D]

/-- The frame of a victim is written back if it is dirty, and is not dirty then. -/
theorem Spends.evicted (frame : Fin N) : Spends bm none (bm.evicted frame) := by
  have here : ((bm.evicted frame).pool frame).dirty = false := by
    simp only [BufferManager.evicted, Function.update_self]
  have others : ∀ other, other ≠ frame → (bm.evicted frame).pool other = bm.pool other :=
    fun other apart => Function.update_of_ne apart _ _
  have apart : ∀ {other}, ((bm.evicted frame).pool other).dirty = true → other ≠ frame := by
    rintro other isDirty rfl
    rw [here] at isDirty
    cases isDirty
  have rest : (bm.evicted frame).dirtyFrames ⊆ bm.dirtyFrames.erase frame := by
    intro other member
    have isDirty := (Finset.mem_filter.mp member).2
    have differ := apart isDirty
    rw [others other differ] at isDirty
    exact Finset.mem_erase.mpr ⟨differ, Finset.mem_filter.mpr ⟨Finset.mem_univ _, isDirty⟩⟩
  have below := Finset.card_le_card rest
  by_cases dirty : (bm.pool frame).dirty = true
  · have member : frame ∈ bm.dirtyFrames := Finset.mem_filter.mpr ⟨Finset.mem_univ _, dirty⟩
    have positive := Finset.card_pos.mpr ⟨frame, member⟩
    rw [Finset.card_erase_of_mem member] at below
    have writes : (bm.evicted frame).disk.writes = (bm.pool frame).pageId :: bm.disk.writes := by
      simp only [BufferManager.evicted, dirty, ↓reduceIte]
      rfl
    refine ⟨?_, ?_, ?_⟩
    · rw [writes, List.length_cons]
      simp only [Option.isSome_none, Bool.false_eq_true, ↓reduceIte]
      omega
    · intro pageId among
      rw [writes] at among
      rcases List.mem_cons.mp among with rfl | before
      · exact Or.inr ⟨frame, dirty, rfl⟩
      · exact Or.inl before
    · rintro pageId ⟨other, isDirty, rfl⟩
      have differ := apart isDirty
      rw [others other differ] at isDirty ⊢
      exact Or.inl ⟨other, isDirty, rfl⟩
  · apply Spends.still
    · simp only [BufferManager.evicted, dirty, Bool.false_eq_true, ↓reduceIte]
    · intro other isDirty
      have differ := apart isDirty
      rw [others other differ] at isDirty ⊢
      exact ⟨isDirty, rfl⟩

theorem Spends.loaded (pageId : Int) (frame : Fin N) : Spends bm none (bm.loaded pageId frame) := by
  refine Spends.replaced frame _ rfl rfl fun isDirty => ?_
  cases isDirty

theorem flushDisk_recorded (pool : Fin N → Frame) (disk : Recorder D) (frames : List (Fin N)) :
    (flushDisk pool disk frames).writes =
      ((frames.filter fun frame => (pool frame).dirty).map
        fun frame => (pool frame).pageId).reverse ++ disk.writes := by
  induction frames generalizing disk with
  | nil => rfl
  | cons frame frames ih =>
      rw [flushDisk, List.foldl_cons]
      change Recorder.writes (flushDisk pool _ frames) = _
      rw [ih]
      by_cases dirty : (pool frame).dirty = true
      · simp only [List.filter_cons, dirty, ↓reduceIte, List.map_cons, List.reverse_cons,
          List.append_assoc]
        rfl
      · simp only [List.filter_cons, dirty, Bool.false_eq_true, ↓reduceIte]

theorem Spends.flushed : Spends bm none bm.flushed := by
  have writes : bm.flushed.disk.writes = _ := flushDisk_recorded bm.pool bm.disk (List.finRange N)
  have clean : bm.flushed.dirtyFrames = ∅ := Finset.filter_false_of_mem fun frame _ => by
    simp [BufferManager.flushed]
  have all : ((List.finRange N).filter fun frame => (bm.pool frame).dirty).length =
      bm.dirtyFrames.card := by
    rw [← List.toFinset_card_of_nodup ((List.nodup_finRange N).filter _), List.toFinset_filter,
      List.toFinset_finRange]
    rfl
  refine ⟨?_, ?_, ?_⟩
  · rw [writes, clean, List.length_append, List.length_reverse, List.length_map, all,
      Finset.card_empty]
    simp only [Option.isSome_none, Bool.false_eq_true, ↓reduceIte]
    omega
  · intro pageId member
    rw [writes, List.mem_append, List.mem_reverse, List.mem_map] at member
    rcases member with ⟨frame, among, same⟩ | before
    · exact Or.inr ⟨frame, (List.mem_filter.mp among).2, same⟩
    · exact Or.inl before
  · rintro pageId ⟨frame, isDirty, _⟩
    cases isDirty

theorem Call.spends {op : PoolOp N} {outcome : Except Error (Option (Fin N))}
    (call : Call bm op outcome bm') : Spends bm (marks op) bm' := by
  cases call with
  | refused op reason => exact (Spends.still rfl fun _ isDirty => ⟨isDirty, rfl⟩).atMost _
  | @hit pageId frame cached => exact .replaced frame _ rfl rfl fun isDirty => ⟨isDirty, rfl⟩
  | @free pageId rest frame absent available =>
      have taken : Spends bm none ({ bm with freeList := rest } : BufferManager N (Recorder D)) :=
        .still rfl fun _ isDirty => ⟨isDirty, rfl⟩
      exact taken.trans (.loaded pageId frame)
  | @evict pageId frame policy absent full chosen =>
      have swept : Spends bm none (bm.setPolicy policy) :=
        .still rfl fun _ isDirty => ⟨isDirty, rfl⟩
      exact (swept.trans (.evicted frame)).trans (.loaded pageId frame)
  | @release pageId frame cached pinned =>
      exact .replaced frame _ rfl rfl fun isDirty => ⟨isDirty, rfl⟩
  | markDirty frame => exact .marked frame _ fun _ => rfl
  | write pageId frame page => exact .marked frame _ fun _ => rfl
  | flushAll => exact .flushed

theorem Accounted.step {start : BufferManager N (Recorder D)}
    {log : List (PoolEvent N (Recorder D))} {event : PoolEvent N (Recorder D)}
    (accounted : Accounted start log bm) (taken : poolStep (fun _ _ => True) log bm event bm') :
    Accounted start (event :: log) bm' := by
  obtain ⟨rfl, ended, _⟩ := taken
  have spends := (call_of_run ended).spends
  have earlier : ∀ pageId, event.before.HasChanges pageId →
      start.HasChanges pageId ∨ ∃ other ∈ event :: log, Marks other pageId := by
    intro pageId changes
    rcases accounted.changed pageId changes with before | ⟨other, member, marking⟩
    · exact Or.inl before
    · exact Or.inr ⟨other, List.mem_cons_of_mem _ member, marking⟩
  refine ⟨?_, ?_, ?_⟩
  · have before := accounted.count
    have now := spends.count
    rw [markings]
    omega
  · intro pageId member
    rcases spends.written pageId member with before | changes
    · rcases accounted.written pageId before with old | changes | ⟨other, member, marking⟩
      · exact Or.inl old
      · exact Or.inr (Or.inl changes)
      · exact Or.inr (Or.inr ⟨other, List.mem_cons_of_mem _ member, marking⟩)
    · exact Or.inr (earlier pageId changes)
  · intro pageId changes
    rcases spends.changed pageId changes with before | ⟨frame, isMarked, named⟩
    · exact earlier pageId before
    · exact Or.inr ⟨event, List.mem_cons_self, frame, isMarked, named⟩

/-- From any state on, the pool writes no more often than frames were dirty or are marked, and
only pages that had changes or whose frame was marked. -/
theorem writes_accounted (start : BufferManager N (Recorder D))
    (log : List (PoolEvent N (Recorder D))) (bm : BufferManager N (Recorder D))
    (run : PoolRun (fun _ _ => True) start log bm) : Accounted start log bm := by
  apply run.invariant (Accounted start)
  · exact ⟨Nat.le_add_right _ _, fun pageId member => Or.inl member,
      fun pageId changes => Or.inl changes⟩
  · exact fun _ _ _ _ _ accounted taken => accounted.step taken

/-- Page 3 is requested, stored into and written back, once. -/
theorem writes_accounted_three : ∃ (start : BufferManager 1 (Recorder MockDiskManager))
    (log : List (PoolEvent 1 (Recorder MockDiskManager)))
    (bm : BufferManager 1 (Recorder MockDiskManager)),
    Accounted start log bm ∧ markings log = 1 ∧ bm.disk.writes = [3] := by
  let start : BufferManager 1 (Recorder MockDiskManager) :=
    new (fun _ _ => 0) ⟨MockDiskManager.empty, []⟩
  have requested := request_free start 3 [] 0 rfl rfl
  let opened :=
    ({ start with freeList := [] } : BufferManager 1 (Recorder MockDiskManager)).loaded 3 0
  let stored := opened.written 0 fun _ => 7
  have wrote : (PoolOp.write 3 0 fun _ => 7).run opened = some (.ok none, stored) := by
    have same : ((opened.setFrame 0 fun f => { f with data := fun _ => 7 }).setFrame 0
        fun f => { f with dirty := true }) = stored := by
      simp [setFrame, written, stored]
    rw [← same]
    rfl
  have begins : PoolRun (fun _ _ => True) start [] start := .nil
  have run : PoolRun (fun _ _ => True) start [⟨stored, .flushAll, .ok none⟩,
      ⟨opened, .write 3 0 fun _ => 7, .ok none⟩, ⟨start, .request 3, .ok (some 0)⟩]
      stored.flushed :=
    ((begins.cons ⟨rfl, requested.bind_eq, trivial⟩).cons ⟨rfl, wrote, trivial⟩).cons
      ⟨rfl, (flushAll_returns stored).bind_eq, trivial⟩
  exact ⟨start, _, _, writes_accounted start _ _ run, rfl, flushDisk_recorded _ _ _⟩

end BufferManager

end RelationalDb
