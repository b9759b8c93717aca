import RelationalDb.Storage.PoolContents

set_option autoImplicit false

namespace RelationalDb.BufferManager

variable {N : Nat} {D : Type} [IDiskManager D] [LawfulDisk D] {bm bm' : BufferManager N D}
  {view : Int → Option Page} {pageId : Int} {frame : Fin N}

/-- The disk holds a view and no frame is about to write one of its pages. -/
structure OnDisk (bm : BufferManager N D) (view : Int → Option Page) : Prop where
  stored : ∀ pageId page, view pageId = some page → stored bm.disk pageId = some page
  dirty : ∀ frame, (bm.pool frame).dirty = true → view (bm.pool frame).pageId = none

theorem OnDisk.congr (onDisk : OnDisk bm view)
    (disk : ∀ pageId page, RelationalDb.stored bm.disk pageId = some page →
      RelationalDb.stored bm'.disk pageId = some page)
    (frames : ∀ frame, (bm'.pool frame).dirty = true →
      (bm.pool frame).dirty = true ∧ (bm'.pool frame).pageId = (bm.pool frame).pageId) :
    OnDisk bm' view := by
  refine ⟨fun pageId page present => disk pageId page (onDisk.stored pageId page present), ?_⟩
  intro frame dirty
  obtain ⟨old, same⟩ := frames frame dirty
  rw [same]
  exact onDisk.dirty frame old

/-- A page is loaded into a clean frame. -/
theorem OnDisk.loaded (onDisk : OnDisk bm view) : OnDisk (bm.loaded pageId frame) view := by
  apply onDisk.congr
  · intro other page present
    exact present
  · intro other dirty
    by_cases same : other = frame
    · simp [BufferManager.loaded, same] at dirty
    · simpa [BufferManager.loaded, same] using dirty

theorem OnDisk.evicted (onDisk : OnDisk bm view) (given : 0 ≤ (bm.pool frame).pageId) :
    OnDisk (bm.evicted frame) view := by
  constructor
  · intro other page present
    by_cases dirty : (bm.pool frame).dirty = true
    · have apart : other ≠ (bm.pool frame).pageId := by
        intro same
        rw [same, onDisk.dirty frame dirty] at present
        cases present
      simp only [BufferManager.evicted, dirty, ↓reduceIte]
      exact stored_writePage_other _ _ _ _ _ given apart (onDisk.stored other page present)
    · simp only [BufferManager.evicted, dirty, Bool.false_eq_true, ↓reduceIte]
      exact onDisk.stored other page present
  · intro other dirty
    by_cases same : other = frame
    · simp [BufferManager.evicted, same] at dirty
    · simp only [BufferManager.evicted, Function.update_of_ne same] at dirty ⊢
      exact onDisk.dirty other dirty

theorem OnDisk.request (onDisk : OnDisk bm view) (valid : Valid bm)
    (returned : (request pageId).Returns bm frame bm') : OnDisk bm' view := by
  rcases request_cases bm pageId with ⟨other, _, done⟩ | ⟨_, rest, other, _, done⟩ |
    ⟨_, full, other, policy, _, done⟩ | ⟨_, _, _, thrown⟩
  · obtain ⟨_, rfl⟩ := done.value_eq returned
    refine onDisk.congr (fun _ _ present => present) fun frame dirty => ?_
    by_cases same : frame = other <;> simpa [accessed, same] using dirty
  · obtain ⟨_, rfl⟩ := done.value_eq returned
    exact OnDisk.loaded (onDisk.congr (fun _ _ present => present) fun _ dirty => ⟨dirty, rfl⟩)
  · obtain ⟨_, rfl⟩ := done.value_eq returned
    have used : other ∉ bm.freeList := by
      rw [full]
      exact List.not_mem_nil
    have given := valid.nonnegative _ other (valid.covered other used)
    have onDisk' : OnDisk (bm.setPolicy policy) view :=
      onDisk.congr (fun _ _ present => present) fun _ dirty => ⟨dirty, rfl⟩
    exact (onDisk'.evicted given).loaded
  · unfold Program.Throws at thrown
    unfold Program.Returns at returned
    rw [thrown] at returned
    cases returned

theorem OnDisk.release (onDisk : OnDisk bm view) {value : Unit}
    (returned : (release pageId).Returns bm value bm') : OnDisk bm' view := by
  obtain ⟨frame, _, rfl⟩ := released_of_returns returned
  refine onDisk.congr (fun _ _ present => present) fun other dirty => ?_
  by_cases same : other = frame <;> simpa [released, same] using dirty

theorem OnDisk.written (onDisk : OnDisk bm view) (outside : view (bm.pool frame).pageId = none)
    (page : Page) : OnDisk (bm.written frame page) view := by
  refine ⟨onDisk.stored, fun other dirty => ?_⟩
  by_cases same : other = frame
  · rw [same]
    simpa [BufferManager.written, setFrame] using outside
  · simp only [BufferManager.written, setFrame, Function.update_of_ne same] at dirty ⊢
    exact onDisk.dirty other dirty

theorem flushed_onDisk (whole : ∀ pageId page, view pageId = some page →
    stored bm.flushed.disk pageId = some page) : OnDisk bm.flushed view := by
  refine ⟨whole, fun frame dirty => ?_⟩
  cases dirty

end RelationalDb.BufferManager
