import RelationalDb.Storage.PinSafety

set_option autoImplicit false

namespace RelationalDb.BufferManager

variable {N : Nat} {D : Type} [IDiskManager D] [LawfulDisk D]

/-- The pool and the disk together hold the pages of a view: a cached page is in
its frame, and on the disk as well unless the frame is dirty. -/
structure Backed (bm : BufferManager N D) (view : Int → Option Page) : Prop extends Valid bm where
  data : ∀ pageId frame page, bm.pageTable pageId = some frame → view pageId = some page →
    (bm.pool frame).data = page
  clean : ∀ pageId frame page, bm.pageTable pageId = some frame → view pageId = some page →
    (bm.pool frame).dirty = false → stored bm.disk pageId = some page
  uncached : ∀ pageId page, bm.pageTable pageId = none → view pageId = some page →
    stored bm.disk pageId = some page
  spare : ∀ frame ∈ bm.freeList, (bm.pool frame).dirty = false

/-- The bytes of a page as the pool and the disk have them now. -/
def contents (bm : BufferManager N D) (pageId : Int) : Option Page :=
  match bm.pageTable pageId with
  | some frame => some (bm.pool frame).data
  | none => stored bm.disk pageId

theorem contents_uncached {bm : BufferManager N D} {pageId : Int}
    (absent : bm.pageTable pageId = none) : bm.contents pageId = stored bm.disk pageId := by
  simp only [contents, absent]

theorem Backed.contents_eq {bm : BufferManager N D} {view : Int → Option Page} {pageId : Int}
    {page : Page} (backed : Backed bm view) (present : view pageId = some page) :
    bm.contents pageId = some page := by
  unfold contents
  cases cached : bm.pageTable pageId with
  | some frame => exact congrArg some (backed.data pageId frame page cached present)
  | none => exact backed.uncached pageId page cached present

theorem new_backed [NeZero N] (raw : Fin N → Page) (disk : D) :
    Backed (new raw disk) (stored disk) := by
  refine ⟨new_valid raw disk, ?_, ?_, fun _ _ _ present => present, fun _ _ => rfl⟩
  · intro pageId frame page cached
    cases cached
  · intro pageId frame page cached
    cases cached

/-- Pins and the policy do not matter to what is held. -/
theorem Backed.congr {bm bm' : BufferManager N D} {view : Int → Option Page}
    (backed : Backed bm view) (valid : Valid bm') (table : bm'.pageTable = bm.pageTable)
    (free : bm'.freeList = bm.freeList)
    (disk : ∀ pageId, stored bm'.disk pageId = stored bm.disk pageId)
    (dirty : ∀ frame, (bm'.pool frame).dirty = (bm.pool frame).dirty)
    (data : ∀ frame, (bm'.pool frame).data = (bm.pool frame).data) : Backed bm' view := by
  refine ⟨valid, ?_, ?_, ?_, ?_⟩
  · intro pageId frame page cached present
    rw [table] at cached
    rw [data]
    exact backed.data pageId frame page cached present
  · intro pageId frame page cached present clean
    rw [table] at cached
    rw [dirty] at clean
    rw [disk]
    exact backed.clean pageId frame page cached present clean
  · intro pageId page absent present
    rw [table] at absent
    rw [disk]
    exact backed.uncached pageId page absent present
  · intro frame member
    rw [free] at member
    rw [dirty]
    exact backed.spare frame member

theorem accessed_backed {bm : BufferManager N D} {view : Int → Option Page} {frame : Fin N}
    (backed : Backed bm view) (valid : Valid (bm.accessed frame)) :
    Backed (bm.accessed frame) view := by
  refine backed.congr valid rfl rfl (fun _ => rfl) ?_ ?_
  · intro other
    by_cases same : other = frame <;> simp [accessed, same]
  · intro other
    by_cases same : other = frame <;> simp [accessed, same]

theorem released_backed {bm : BufferManager N D} {view : Int → Option Page} {frame : Fin N}
    (backed : Backed bm view) (valid : Valid (bm.released frame)) :
    Backed (bm.released frame) view := by
  refine backed.congr valid rfl rfl (fun _ => rfl) ?_ ?_
  · intro other
    by_cases same : other = frame <;> simp [released, same]
  · intro other
    by_cases same : other = frame <;> simp [released, same]

theorem loaded_data {bm : BufferManager N D} {pageId : Int} {frame : Fin N} {page : Page}
    (given : 0 ≤ pageId) (present : stored bm.disk pageId = some page) :
    ((bm.loaded pageId frame).pool frame).data = page := by
  simp only [loaded, Function.update_self]
  exact readPage_of_stored _ _ _ _ given present

/-- Loading an uncached page into a frame that is out of use. -/
theorem loaded_backed {bm : BufferManager N D} {view : Int → Option Page} {pageId : Int}
    {frame : Fin N} (given : 0 ≤ pageId) (valid : Valid (bm.loaded pageId frame))
    (data : ∀ other g page, bm.pageTable other = some g → view other = some page →
      (bm.pool g).data = page)
    (clean : ∀ other g page, bm.pageTable other = some g → view other = some page →
      (bm.pool g).dirty = false → stored bm.disk other = some page)
    (uncached : ∀ other page, bm.pageTable other = none → view other = some page →
      stored bm.disk other = some page)
    (spare : ∀ g ∈ bm.freeList, (bm.pool g).dirty = false)
    (absent : bm.pageTable pageId = none) (clear : ∀ other, bm.pageTable other ≠ some frame)
    (used : frame ∉ bm.freeList) : Backed (bm.loaded pageId frame) view := by
  have here : (bm.loaded pageId frame).pageTable pageId = some frame := by
    simp only [loaded, Function.update_self]
  have there : ∀ other, other ≠ pageId →
      (bm.loaded pageId frame).pageTable other = bm.pageTable other := fun other apart => by
    simp only [loaded, Function.update_of_ne apart]
  have pool : ∀ g, g ≠ frame → (bm.loaded pageId frame).pool g = bm.pool g := fun g apart => by
    simp only [loaded, Function.update_of_ne apart]
  have outside : ∀ other g, bm.pageTable other = some g → g ≠ frame := by
    rintro other g cached rfl
    exact clear other cached
  refine ⟨valid, ?_, ?_, ?_, ?_⟩
  · intro other g page cached present
    by_cases same : other = pageId
    · subst same
      rw [here] at cached
      cases cached
      exact loaded_data given (uncached other page absent present)
    · rw [there other same] at cached
      rw [pool g (outside other g cached)]
      exact data other g page cached present
  · intro other g page cached present notDirty
    by_cases same : other = pageId
    · subst same
      exact uncached other page absent present
    · rw [there other same] at cached
      rw [pool g (outside other g cached)] at notDirty
      exact clean other g page cached present notDirty
  · intro other page gone present
    by_cases same : other = pageId
    · subst same
      rw [here] at gone
      cases gone
    · rw [there other same] at gone
      exact uncached other page gone present
  · intro g member
    have apart : g ≠ frame := by
      rintro rfl
      exact used member
    rw [pool g apart]
    exact spare g member

theorem evicted_disk {bm : BufferManager N D} {view : Int → Option Page} {frame : Fin N}
    (backed : Backed bm view) (cached : bm.pageTable (bm.pool frame).pageId = some frame)
    (pageId : Int) (page : Page) (present : view pageId = some page)
    (safe : pageId ≠ (bm.pool frame).pageId → stored bm.disk pageId = some page) :
    stored (bm.evicted frame).disk pageId = some page := by
  have given := backed.nonnegative _ frame cached
  by_cases victim : pageId = (bm.pool frame).pageId
  · subst victim
    have data := backed.data _ frame page cached present
    by_cases dirty : (bm.pool frame).dirty
    · simp only [evicted, dirty, ↓reduceIte]
      rw [stored_writePage _ _ _ given, data]
    · simp only [evicted, dirty, Bool.false_eq_true, ↓reduceIte]
      exact backed.clean _ frame page cached present (by simpa using dirty)
  · by_cases dirty : (bm.pool frame).dirty
    · simp only [evicted, dirty, ↓reduceIte]
      exact stored_writePage_other _ _ _ _ _ given victim (safe victim)
    · simp only [evicted, dirty, Bool.false_eq_true, ↓reduceIte]
      exact safe victim

theorem Backed.setPolicy {bm : BufferManager N D} {view : Int → Option Page}
    (backed : Backed bm view) (policy : ClockPolicy N) : Backed (bm.setPolicy policy) view :=
  backed.congr ⟨backed.toLinked.setPolicy policy, backed.nonnegative⟩ rfl rfl (fun _ => rfl)
    (fun _ => rfl) (fun _ => rfl)

theorem evicted_loaded_backed {bm : BufferManager N D} {view : Int → Option Page} {pageId : Int}
    {frame : Fin N} {policy : ClockPolicy N} (backed : Backed bm view) (given : 0 ≤ pageId)
    (absent : bm.pageTable pageId = none) (full : bm.freeList = [])
    (valid : Valid (((bm.setPolicy policy).evicted frame).loaded pageId frame)) :
    Backed (((bm.setPolicy policy).evicted frame).loaded pageId frame) view := by
  have backed' : Backed (bm.setPolicy policy) view := backed.setPolicy policy
  have used : frame ∉ bm.freeList := by
    rw [full]
    exact List.not_mem_nil
  have cached : (bm.setPolicy policy).pageTable ((bm.setPolicy policy).pool frame).pageId =
      some frame := backed.covered frame used
  have given' := backed.nonnegative _ frame cached
  have actual : ((bm.setPolicy policy).pool frame).pageId ≠ invalidPageId := by
    intro sentinel
    rw [sentinel] at given'
    cases given'
  have table : ∀ other g, ((bm.setPolicy policy).evicted frame).pageTable other = some g →
      other ≠ ((bm.setPolicy policy).pool frame).pageId ∧ bm.pageTable other = some g ∧ g ≠ frame := by
    intro other g present
    rw [evicted_pageTable] at present
    split at present
    · cases present
    · rename_i kept
      have apart : other ≠ ((bm.setPolicy policy).pool frame).pageId := by
        intro victim
        exact kept ⟨victim, by rwa [victim]⟩
      exact ⟨apart, present, backed.different present cached apart⟩
  have pool : ∀ g, g ≠ frame → ((bm.setPolicy policy).evicted frame).pool g = bm.pool g :=
    fun g apart => by simp only [evicted, setPolicy, Function.update_of_ne apart]
  refine loaded_backed given valid ?_ ?_ ?_ ?_ ?_ ?_ ?_
  · intro other g page present known
    obtain ⟨_, old, apart⟩ := table other g present
    rw [pool g apart]
    exact backed.data other g page old known
  · intro other g page present known notDirty
    obtain ⟨_, old, apart⟩ := table other g present
    rw [pool g apart] at notDirty
    exact evicted_disk backed' cached other page known
      fun _ => backed.clean other g page old known notDirty
  · intro other page gone known
    refine evicted_disk backed' cached other page known ?_
    intro apart
    rw [evicted_pageTable, if_neg fun victim => apart victim.1] at gone
    exact backed.uncached other page gone known
  · intro g member
    change g ∈ bm.freeList at member
    rw [full] at member
    cases member
  · rw [evicted_pageTable]
    split
    · rfl
    · exact absent
  · intro other present
    exact (table other frame present).2.2 rfl
  · exact used

/-- A store into a page, marked dirty, changes the view of that page. -/
theorem written_backed {bm : BufferManager N D} {view : Int → Option Page} {pageId : Int}
    {frame : Fin N} (backed : Backed bm view) (cached : bm.pageTable pageId = some frame)
    (page : Page) : Backed (bm.written frame page) (Function.update view pageId (some page)) := by
  have valid : Valid (bm.written frame page) :=
    ⟨setFrame_linked backed.toLinked frame _ (fun _ => rfl) (fun _ => rfl), backed.nonnegative⟩
  have pool : ∀ g, g ≠ frame → (bm.written frame page).pool g = bm.pool g := fun g apart => by
    simp only [written, setFrame, Function.update_of_ne apart]
  refine ⟨valid, ?_, ?_, ?_, ?_⟩
  · intro other g known otherCached present
    change bm.pageTable other = some g at otherCached
    by_cases same : other = pageId
    · subst same
      rw [cached] at otherCached
      cases otherCached
      rw [Function.update_self] at present
      cases present
      simp only [written, setFrame, Function.update_self]
    · rw [Function.update_of_ne same] at present
      rw [pool g (backed.different otherCached cached same)]
      exact backed.data other g known otherCached present
  · intro other g known otherCached present notDirty
    change bm.pageTable other = some g at otherCached
    by_cases same : other = pageId
    · subst same
      rw [cached] at otherCached
      cases otherCached
      simp [written, setFrame] at notDirty
    · rw [Function.update_of_ne same] at present
      rw [pool g (backed.different otherCached cached same)] at notDirty
      exact backed.clean other g known otherCached present notDirty
  · intro other known absent present
    change bm.pageTable other = none at absent
    have apart : other ≠ pageId := by
      rintro rfl
      rw [cached] at absent
      cases absent
    rw [Function.update_of_ne apart] at present
    exact backed.uncached other known absent present
  · intro g member
    have apart : g ≠ frame := by
      rintro rfl
      exact backed.not_free cached member
    rw [pool g apart]
    exact backed.spare g member

theorem markedDirty_backed {bm : BufferManager N D} {view : Int → Option Page} {pageId : Int}
    {frame : Fin N} (backed : Backed bm view) (cached : bm.pageTable pageId = some frame) :
    Backed (bm.markedDirty frame) view := by
  have valid : Valid (bm.markedDirty frame) :=
    ⟨setFrame_linked backed.toLinked frame _ (fun _ => rfl) (fun _ => rfl), backed.nonnegative⟩
  have pool : ∀ g, g ≠ frame → (bm.markedDirty frame).pool g = bm.pool g := fun g apart => by
    simp only [markedDirty, setFrame, Function.update_of_ne apart]
  have data : ∀ g, ((bm.markedDirty frame).pool g).data = (bm.pool g).data := by
    intro g
    by_cases same : g = frame <;> simp [markedDirty, setFrame, same]
  refine ⟨valid, ?_, ?_, backed.uncached, ?_⟩
  · intro other g page otherCached present
    rw [data]
    exact backed.data other g page otherCached present
  · intro other g page otherCached present notDirty
    by_cases same : g = frame
    · simp [markedDirty, setFrame, same] at notDirty
    · rw [pool g same] at notDirty
      exact backed.clean other g page otherCached present notDirty
  · intro g member
    have apart : g ≠ frame := by
      rintro rfl
      exact backed.not_free cached member
    rw [pool g apart]
    exact backed.spare g member

theorem flushDisk_keeps (pool : Fin N → Frame) (disk : D) (frames : List (Fin N)) (pageId : Int)
    (page : Page) (others : ∀ frame ∈ frames, (pool frame).dirty = true →
      0 ≤ (pool frame).pageId ∧ pageId ≠ (pool frame).pageId)
    (present : stored disk pageId = some page) :
    stored (flushDisk pool disk frames) pageId = some page := by
  induction frames generalizing disk with
  | nil => exact present
  | cons frame frames ih =>
      rw [flushDisk, List.foldl_cons]
      apply ih _ fun other member => others other (List.mem_cons_of_mem _ member)
      by_cases dirty : (pool frame).dirty
      · obtain ⟨given, apart⟩ := others frame List.mem_cons_self dirty
        simp only [dirty, ↓reduceIte]
        exact stored_writePage_other _ _ _ _ _ given apart present
      · simpa only [dirty, Bool.false_eq_true, ↓reduceIte] using present

/-- A dirty frame's page is on the disk once the frame was written back. -/
theorem flushDisk_writes (pool : Fin N → Frame) (disk : D) (frames : List (Fin N)) (frame : Fin N)
    (member : frame ∈ frames) (dirty : (pool frame).dirty = true) (given : 0 ≤ (pool frame).pageId)
    (others : ∀ other ∈ frames, other ≠ frame → (pool other).dirty = true →
      0 ≤ (pool other).pageId ∧ (pool frame).pageId ≠ (pool other).pageId) :
    stored (flushDisk pool disk frames) (pool frame).pageId = some (pool frame).data := by
  induction frames generalizing disk with
  | nil => cases member
  | cons head frames ih =>
      rw [flushDisk, List.foldl_cons]
      have rest : ∀ other ∈ frames, other ≠ frame → (pool other).dirty = true →
          0 ≤ (pool other).pageId ∧ (pool frame).pageId ≠ (pool other).pageId :=
        fun other later => others other (List.mem_cons_of_mem _ later)
      by_cases again : frame ∈ frames
      · exact ih _ again rest
      · have same : frame = head := by
          rcases List.mem_cons.mp member with same | later
          · exact same
          · exact absurd later again
        subst same
        apply flushDisk_keeps
        · intro other later otherDirty
          have apart : other ≠ frame := by
            rintro rfl
            exact again later
          exact rest other later apart otherDirty
        · simp only [dirty, ↓reduceIte]
          exact stored_writePage _ _ _ given

/-- After `flush_all` the disk alone holds the view. -/
theorem Backed.flushed_stored {bm : BufferManager N D} {view : Int → Option Page}
    (backed : Backed bm view) {pageId : Int} {page : Page} (present : view pageId = some page) :
    stored bm.flushed.disk pageId = some page := by
  have dirtyCached : ∀ frame, (bm.pool frame).dirty = true →
      bm.pageTable (bm.pool frame).pageId = some frame := by
    intro frame dirty
    apply backed.covered
    intro free
    rw [backed.spare frame free] at dirty
    cases dirty
  have others : ∀ frame, bm.pageTable pageId ≠ some frame → (bm.pool frame).dirty = true →
      0 ≤ (bm.pool frame).pageId ∧ pageId ≠ (bm.pool frame).pageId := by
    intro frame elsewhere dirty
    have cached := dirtyCached frame dirty
    refine ⟨backed.nonnegative _ frame cached, ?_⟩
    rintro rfl
    exact elsewhere cached
  change stored (flushDisk bm.pool bm.disk (List.finRange N)) pageId = some page
  cases cached : bm.pageTable pageId with
  | none =>
      apply flushDisk_keeps
      · intro frame _ dirty
        exact others frame (by rw [cached]; exact Option.some_ne_none frame ∘ Eq.symm) dirty
      · exact backed.uncached pageId page cached present
  | some frame =>
      have name := backed.mapped pageId frame cached
      have rest : ∀ other, other ≠ frame → (bm.pool other).dirty = true →
          0 ≤ (bm.pool other).pageId ∧ pageId ≠ (bm.pool other).pageId := by
        intro other apart dirty
        refine others other ?_ dirty
        rw [cached]
        intro same
        exact apart (Option.some.inj same).symm
      by_cases dirty : (bm.pool frame).dirty = true
      · have given := backed.nonnegative pageId frame cached
        have whole := flushDisk_writes bm.pool bm.disk (List.finRange N) frame
          (List.mem_finRange frame) dirty (by rwa [name])
          (fun other _ apart otherDirty => by rw [name]; exact rest other apart otherDirty)
        rwa [name, backed.data pageId frame page cached present] at whole
      · apply flushDisk_keeps
        · intro other _ otherDirty
          refine rest other ?_ otherDirty
          rintro rfl
          exact dirty otherDirty
        · exact backed.clean pageId frame page cached present (by simpa using dirty)

theorem flushed_backed {bm : BufferManager N D} {view : Int → Option Page}
    (backed : Backed bm view) : Backed bm.flushed view :=
  ⟨⟨flushed_linked backed.toLinked, backed.nonnegative⟩, backed.data,
    fun _ _ _ _ present _ => backed.flushed_stored present,
    fun _ _ _ present => backed.flushed_stored present, fun _ _ => rfl⟩

theorem Call.request_backed {bm bm' : BufferManager N D} {view : Int → Option Page} {pageId : Int}
    {outcome : Except Error (Option (Fin N))} (call : Call bm (.request pageId) outcome bm')
    (backed : Backed bm view) (given : 0 ≤ pageId) : Backed bm' view := by
  have valid : Valid bm' := call.valid backed.toValid (by
    intro other asked
    cases asked
    exact given)
  cases call with
  | refused => exact backed
  | hit cached => exact accessed_backed backed valid
  | @free _ rest frame absent available =>
      have inRest : ∀ g ∈ rest, g ∈ bm.freeList := fun g member => by
        rw [available]
        exact List.mem_append_left _ member
      have nodup := backed.nodup
      rw [available, List.nodup_append] at nodup
      refine loaded_backed given valid backed.data backed.clean backed.uncached
        (fun g member => backed.spare g (inRest g member)) absent ?_ ?_
      · apply backed.unmapped
        rw [available]
        exact List.mem_append_right _ List.mem_cons_self
      · intro member
        exact nodup.2.2 frame member frame List.mem_cons_self rfl
  | evict absent full chosen => exact evicted_loaded_backed backed given absent full valid

theorem Call.release_backed {bm bm' : BufferManager N D} {view : Int → Option Page} {pageId : Int}
    {outcome : Except Error (Option (Fin N))} (call : Call bm (.release pageId) outcome bm')
    (backed : Backed bm view) : Backed bm' view := by
  have valid : Valid bm' := call.valid backed.toValid fun _ impossible => by cases impossible
  cases call with
  | refused => exact backed
  | release cached pinned => exact released_backed backed valid

end RelationalDb.BufferManager
