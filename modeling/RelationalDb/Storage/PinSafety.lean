import RelationalDb.Storage.PageTable

set_option autoImplicit false

namespace RelationalDb

variable {N : Nat} {D : Type}

namespace PoolEvent

/-- A request of the page that did not throw. -/
def requests (event : PoolEvent N D) (pageId : Int) : Bool :=
  match event.op, event.outcome with
  | .request other, .ok _ => other == pageId
  | _, _ => false

/-- A release of the page that did not throw. -/
def releases (event : PoolEvent N D) (pageId : Int) : Bool :=
  match event.op, event.outcome with
  | .release other, .ok _ => other == pageId
  | _, _ => false

def loads (event : PoolEvent N D) (pageId : Int) : Bool :=
  event.requests pageId && (event.before.pageTable pageId).isNone

end PoolEvent

/-- The part of a log from the last load of a page on. -/
def sinceLoad (pageId : Int) : List (PoolEvent N D) → List (PoolEvent N D)
  | [] => []
  | event :: log => if event.loads pageId then [event] else event :: sinceLoad pageId log

def netRequests (pageId : Int) (log : List (PoolEvent N D)) : Int :=
  log.countP (·.requests pageId) - log.countP (·.releases pageId)

/-- What clients were given and have not released: a page and its frame. -/
def held : List (PoolEvent N D) → List (Int × Fin N)
  | [] => []
  | event :: log =>
      match event.op, event.outcome with
      | .request pageId, .ok (some frame) => (pageId, frame) :: held log
      | .release pageId, .ok _ => (held log).eraseP (·.1 == pageId)
      | _, _ => held log

def PinGuard (log : List (PoolEvent N D)) (event : PoolEvent N D) : Prop :=
  (∀ pageId, event.op = .request pageId → 0 ≤ pageId) ∧ (held (event :: log)).length < 2 ^ 31

namespace BufferManager

/-- A sound page table without page `INVALID_PAGE_ID`. -/
structure Valid (bm : BufferManager N D) : Prop extends Linked bm where
  nonnegative : ∀ pageId frame, bm.pageTable pageId = some frame → 0 ≤ pageId

theorem new_valid [NeZero N] (raw : Fin N → Page) (disk : D) : Valid (new raw disk) := by
  refine ⟨new_linked raw disk, ?_⟩
  intro pageId frame cached
  cases cached

/-- The pin count of the frame a page is in. -/
def pins (bm : BufferManager N D) (pageId : Int) : Int :=
  match bm.pageTable pageId with
  | some frame => (bm.pool frame).pinCount
  | none => 0

theorem pins_cached {bm : BufferManager N D} {pageId : Int} {frame : Fin N}
    (cached : bm.pageTable pageId = some frame) : bm.pins pageId = (bm.pool frame).pinCount := by
  simp only [pins, cached]

theorem pins_uncached {bm : BufferManager N D} {pageId : Int}
    (absent : bm.pageTable pageId = none) : bm.pins pageId = 0 := by
  simp only [pins, absent]

/-- A frame that holds no page of the table is free. -/
theorem Linked.pinCount_eq {bm : BufferManager N D} (linked : Linked bm) (frame : Fin N) :
    (bm.pool frame).pinCount = 0 ∨ bm.pageTable (bm.pool frame).pageId = some frame := by
  by_cases free : frame ∈ bm.freeList
  · exact Or.inl (linked.unpinned frame free)
  · exact Or.inr (linked.covered frame free)

theorem Linked.different {bm : BufferManager N D} (linked : Linked bm) {first second : Int}
    {f g : Fin N} (firstCached : bm.pageTable first = some f)
    (secondCached : bm.pageTable second = some g) (apart : first ≠ second) : f ≠ g := by
  rintro rfl
  exact apart (by rw [← linked.mapped first f firstCached, linked.mapped second f secondCached])

theorem Valid.kept {bm : BufferManager N D} (valid : Valid bm) {op : PoolOp N}
    (asked : ∀ pageId, op = .request pageId → 0 ≤ pageId) : ¬ EvictsSentinel bm op := by
  rintro ⟨pageId, frame, rfl, _, full, _, sentinel⟩
  have used : frame ∉ bm.freeList := by
    rw [full]
    exact List.not_mem_nil
  have cached := valid.covered frame used
  have nonnegative := valid.nonnegative _ frame cached
  rw [sentinel] at nonnegative
  cases nonnegative

/-- What a call does to the table and the frame of a page it is not about. A
page leaves the pool only unpinned. -/
inductive Moved (bm bm' : BufferManager N D) (pageId : Int) : Prop
  | kept (same : bm'.pageTable pageId = bm.pageTable pageId)
      (frames : ∀ frame, bm.pageTable pageId = some frame → bm'.pool frame = bm.pool frame)
  | evicted (gone : bm'.pageTable pageId = none) (unpinned : bm.pins pageId = 0)

theorem Moved.pins_eq {bm bm' : BufferManager N D} {pageId : Int} (moved : Moved bm bm' pageId) :
    bm'.pins pageId = bm.pins pageId := by
  cases moved with
  | kept same frames =>
      cases cached : bm.pageTable pageId with
      | none => rw [pins_uncached cached, pins_uncached (same.trans cached)]
      | some frame =>
          rw [pins_cached cached, pins_cached (same.trans cached), frames frame cached]
  | evicted gone unpinned => rw [pins_uncached gone, unpinned]

/-- What a request that returned has done to the table and the pins. -/
structure Requested (bm bm' : BufferManager N D) (pageId : Int) (frame : Fin N) : Prop where
  cached : bm'.pageTable pageId = some frame
  pinned : bm'.pins pageId = toInt32 (bm.pins pageId + 1)
  again : ∀ old, bm.pageTable pageId = some old → old = frame
  others : ∀ other, other ≠ pageId → Moved bm bm' other

/-- What a release that returned has done. -/
structure Released (bm bm' : BufferManager N D) (pageId : Int) : Prop where
  table : bm'.pageTable = bm.pageTable
  positive : 0 < bm.pins pageId
  unpinned : bm'.pins pageId = toInt32 (bm.pins pageId - 1)
  others : ∀ other, other ≠ pageId → Moved bm bm' other

/-- One more pin, on the page. -/
theorem Requested.pins_eq {bm bm' : BufferManager N D} {pageId : Int} {frame : Fin N}
    (done : Requested bm bm' pageId frame) (lower : 0 ≤ bm.pins pageId)
    (upper : bm.pins pageId < 2 ^ 31 - 1) :
    bm'.pins = Function.update bm.pins pageId (bm.pins pageId + 1) := by
  funext other
  by_cases same : other = pageId
  · subst same
    rw [Function.update_self, done.pinned, toInt32_of_bounds (by omega) (by omega)]
  · rw [Function.update_of_ne same, (done.others other same).pins_eq]

theorem Released.pins_eq {bm bm' : BufferManager N D} {pageId : Int}
    (done : Released bm bm' pageId) (upper : bm.pins pageId < 2 ^ 31) :
    bm'.pins = Function.update bm.pins pageId (bm.pins pageId - 1) := by
  have positive := done.positive
  funext other
  by_cases same : other = pageId
  · subst same
    rw [Function.update_self, done.unpinned, toInt32_of_bounds (by omega) (by omega)]
  · rw [Function.update_of_ne same, (done.others other same).pins_eq]

variable [IDiskManager D]

theorem Call.valid {bm bm' : BufferManager N D} {op : PoolOp N}
    {outcome : Except Error (Option (Fin N))} (call : Call bm op outcome bm') (valid : Valid bm)
    (asked : ∀ pageId, op = .request pageId → 0 ≤ pageId) : Valid bm' := by
  refine ⟨call.linked valid.toLinked (valid.kept asked), ?_⟩
  have loadedNonnegative : ∀ (middle : BufferManager N D) (pageId : Int) (frame : Fin N),
      0 ≤ pageId → (∀ other g, middle.pageTable other = some g → 0 ≤ other) →
      ∀ other g, (middle.loaded pageId frame).pageTable other = some g → 0 ≤ other := by
    intro middle pageId frame given old other g cached
    by_cases same : other = pageId
    · rw [same]
      exact given
    · simp only [loaded, Function.update_of_ne same] at cached
      exact old other g cached
  cases call with
  | refused => exact valid.nonnegative
  | hit cached => exact valid.nonnegative
  | free absent available => exact loadedNonnegative _ _ _ (asked _ rfl) valid.nonnegative
  | @evict pageId frame policy absent full chosen =>
      apply loadedNonnegative _ _ _ (asked _ rfl)
      intro other g cached
      apply valid.nonnegative other g
      rw [evicted_pageTable] at cached
      split at cached
      · cases cached
      · exact cached
  | release cached _ => exact valid.nonnegative
  | markDirty frame => exact valid.nonnegative
  | write _ frame page => exact valid.nonnegative
  | flushAll => exact valid.nonnegative

theorem Call.still {bm bm' : BufferManager N D} {op : PoolOp N}
    {outcome : Except Error (Option (Fin N))} (call : Call bm op outcome bm')
    (notRequest : ∀ pageId, op ≠ .request pageId) (notRelease : ∀ pageId, op ≠ .release pageId) :
    bm'.pageTable = bm.pageTable ∧ ∀ frame, (bm'.pool frame).pinCount = (bm.pool frame).pinCount := by
  have stored : ∀ (frame : Fin N) (change : Frame → Frame) (other : Fin N),
      (∀ f, (change f).pinCount = f.pinCount) →
      ((bm.setFrame frame change).pool other).pinCount = (bm.pool other).pinCount := by
    intro frame change other same
    rw [pool_setFrame]
    split
    · rename_i equal
      rw [same, equal]
    · rfl
  cases call with
  | refused => exact ⟨rfl, fun _ => rfl⟩
  | hit cached => exact absurd rfl (notRequest _)
  | free absent available => exact absurd rfl (notRequest _)
  | evict absent full chosen => exact absurd rfl (notRequest _)
  | release cached pinned => exact absurd rfl (notRelease _)
  | markDirty frame => exact ⟨rfl, fun other => stored frame _ other fun _ => rfl⟩
  | write _ frame page => exact ⟨rfl, fun other => stored frame _ other fun _ => rfl⟩
  | flushAll => exact ⟨rfl, fun _ => rfl⟩

theorem loaded_moved (bm : BufferManager N D) (pageId other : Int) (frame : Fin N)
    (apart : other ≠ pageId) (clear : bm.pageTable other ≠ some frame) :
    Moved bm (bm.loaded pageId frame) other := by
  refine .kept ?_ ?_
  · simp only [loaded, Function.update_of_ne apart]
  · intro g cached
    have different : g ≠ frame := by
      rintro rfl
      exact clear cached
    simp only [loaded, Function.update_of_ne different]

theorem loaded_pins (bm : BufferManager N D) (pageId : Int) (frame : Fin N) :
    (bm.loaded pageId frame).pins pageId = toInt32 ((bm.pool frame).pinCount + 1) := by
  simp only [pins, loaded, Function.update_self]

theorem Call.requested {bm bm' : BufferManager N D} {pageId : Int} {frame : Fin N}
    (call : Call bm (.request pageId) (.ok (some frame)) bm') (valid : Valid bm) :
    Requested bm bm' pageId frame := by
  cases call with
  | hit cached =>
      refine ⟨cached, ?_, ?_, ?_⟩
      · have after : (bm.accessed frame).pins pageId = _ := pins_cached cached
        rw [after, pins_cached cached]
        simp only [accessed, Function.update_self]
      · intro old already
        rw [cached] at already
        exact (Option.some.inj already).symm
      · intro other apart
        refine .kept rfl ?_
        intro g otherCached
        have different := valid.different otherCached cached apart
        simp only [accessed, Function.update_of_ne different]
  | @free _ rest _ absent available =>
      have frameFree : frame ∈ bm.freeList := by
        rw [available]
        exact List.mem_append_right _ List.mem_cons_self
      refine ⟨by simp only [loaded, Function.update_self], ?_, ?_, ?_⟩
      · rw [loaded_pins, pins_uncached absent, valid.unpinned frame frameFree]
      · intro old already
        rw [absent] at already
        cases already
      · intro other apart
        have moved := loaded_moved ({ bm with freeList := rest } : BufferManager N D) pageId other
          frame apart (valid.unmapped frame frameFree other)
        cases moved with
        | kept same frames => exact .kept same frames
        | evicted gone unpinned => exact .evicted gone unpinned
  | @evict _ _ policy absent full chosen =>
      have unpinned := ClockPolicy.chooseVictim_unpinned _ _ _ _ chosen
      have used : frame ∉ bm.freeList := by
        rw [full]
        exact List.not_mem_nil
      have cached := valid.covered frame used
      have nonnegative := valid.nonnegative _ frame cached
      have actual : (bm.pool frame).pageId ≠ invalidPageId := by
        intro sentinel
        rw [sentinel] at nonnegative
        cases nonnegative
      refine ⟨by simp only [loaded, Function.update_self], ?_, ?_, ?_⟩
      · rw [loaded_pins, pins_uncached absent]
        simp only [evicted, setPolicy, Function.update_self, unpinned]
      · intro old already
        rw [absent] at already
        cases already
      · intro other apart
        by_cases victim : other = (bm.pool frame).pageId
        · refine .evicted ?_ ?_
          · rw [victim] at apart ⊢
            simp only [loaded, Function.update_of_ne apart, evicted, setPolicy, actual, ↓reduceIte,
              Function.update_self]
          · rw [victim, pins_cached cached, unpinned]
        · refine .kept ?_ ?_
          · simp only [loaded, Function.update_of_ne apart, evicted, setPolicy, actual, ↓reduceIte,
              Function.update_of_ne victim]
          · intro g otherCached
            have different := valid.different otherCached cached victim
            simp only [loaded, Function.update_of_ne different, evicted, setPolicy]

theorem Call.released {bm bm' : BufferManager N D} {pageId : Int} {value : Option (Fin N)}
    (call : Call bm (.release pageId) (.ok value) bm') (valid : Valid bm) :
    Released bm bm' pageId := by
  cases call with
  | @release _ frame cached pinned =>
      refine ⟨rfl, ?_, ?_, ?_⟩
      · rwa [pins_cached cached]
      · have after : (bm.released frame).pins pageId = _ := pins_cached cached
        rw [after, pins_cached cached]
        simp only [BufferManager.released, Function.update_self]
      · intro other apart
        refine .kept rfl ?_
        intro g otherCached
        have different := valid.different otherCached cached apart
        simp only [BufferManager.released, Function.update_of_ne different]

end BufferManager

section Count

variable {α : Type} {p q : α → Bool}

theorem countP_eraseP_inside {entries : List α} (inside : ∀ entry, p entry → q entry)
    (present : ∃ entry ∈ entries, p entry) :
    (entries.eraseP p).countP q + 1 = entries.countP q := by
  induction entries with
  | nil =>
      obtain ⟨_, member, _⟩ := present
      cases member
  | cons head tail ih =>
      by_cases here : p head
      · simp only [List.eraseP_cons_of_pos here, List.countP_cons_of_pos (inside head here)]
      · have later : ∃ entry ∈ tail, p entry := by
          obtain ⟨entry, member, matching⟩ := present
          rcases List.mem_cons.mp member with rfl | old
          · exact absurd matching here
          · exact ⟨entry, old, matching⟩
        rw [List.eraseP_cons_of_neg here, List.countP_cons, List.countP_cons]
        have step := ih later
        omega

theorem countP_eraseP_outside {entries : List α} (outside : ∀ entry, p entry → ¬ q entry) :
    (entries.eraseP p).countP q = entries.countP q := by
  induction entries with
  | nil => rfl
  | cons head tail ih =>
      by_cases here : p head
      · rw [List.eraseP_cons_of_pos here, List.countP_cons_of_neg (outside head here)]
      · rw [List.eraseP_cons_of_neg here, List.countP_cons, List.countP_cons, ih]

end Count

theorem held_other {event : PoolEvent N D} {log : List (PoolEvent N D)}
    (other : (∀ pageId, event.op ≠ .request pageId) ∧ (∀ pageId, event.op ≠ .release pageId) ∨
      ∃ reason, event.outcome = .error reason) :
    held (event :: log) = held log ∧
      ∀ pageId, event.requests pageId = false ∧ event.releases pageId = false := by
  obtain ⟨before, op, outcome⟩ := event
  rcases other with ⟨notRequest, notRelease⟩ | ⟨reason, rfl⟩
  · cases op with
    | request pageId => exact absurd rfl (notRequest pageId)
    | release pageId => exact absurd rfl (notRelease pageId)
    | markDirty frame => exact ⟨rfl, fun _ => ⟨rfl, rfl⟩⟩
    | write pageId frame page => exact ⟨rfl, fun _ => ⟨rfl, rfl⟩⟩
    | flushAll => exact ⟨rfl, fun _ => ⟨rfl, rfl⟩⟩
  · cases op <;> exact ⟨rfl, fun _ => ⟨rfl, rfl⟩⟩

theorem sinceLoad_of_not_loads {event : PoolEvent N D} {log : List (PoolEvent N D)} {pageId : Int}
    (later : event.loads pageId = false) :
    sinceLoad pageId (event :: log) = event :: sinceLoad pageId log := by
  simp only [sinceLoad, later, Bool.false_eq_true, ↓reduceIte]

theorem netRequests_cons (event : PoolEvent N D) (log : List (PoolEvent N D)) (pageId : Int) :
    netRequests pageId (event :: log) = netRequests pageId log +
      (if event.requests pageId then 1 else 0) - (if event.releases pageId then 1 else 0) := by
  simp only [netRequests, List.countP_cons]
  split <;> split <;> omega

namespace BufferManager

variable [IDiskManager D]

/-- What the pins count at every point of a run. -/
structure PinInvariant (log : List (PoolEvent N D)) (bm : BufferManager N D) : Prop where
  valid : Valid bm
  count : ∀ pageId, bm.pins pageId = (held log).countP (·.1 == pageId)
  few : (held log).length < 2 ^ 31
  since : ∀ pageId, bm.pageTable pageId ≠ none →
    bm.pins pageId = netRequests pageId (sinceLoad pageId log)
  frames : ∀ entry ∈ held log, bm.pageTable entry.1 = some entry.2

omit [IDiskManager D] in
theorem PinInvariant.small {log : List (PoolEvent N D)} {bm : BufferManager N D}
    (holds : PinInvariant log bm) (pageId : Int) :
    0 ≤ bm.pins pageId ∧ bm.pins pageId ≤ (held log).length := by
  have bounded : (held log).countP (·.1 == pageId) ≤ (held log).length := List.countP_le_length
  rw [holds.count]
  omega

omit [IDiskManager D] in
theorem PinInvariant.positive {log : List (PoolEvent N D)} {bm : BufferManager N D}
    (holds : PinInvariant log bm) {entry : Int × Fin N} (member : entry ∈ held log) :
    0 < bm.pins entry.1 := by
  rw [holds.count]
  have positive : 0 < (held log).countP (·.1 == entry.1) :=
    List.countP_pos_iff.mpr ⟨entry, member, by simp⟩
  omega

theorem PinInvariant.request {log : List (PoolEvent N D)} {bm bm' : BufferManager N D}
    {pageId : Int} {frame : Fin N} (holds : PinInvariant log bm)
    (call : Call bm (.request pageId) (.ok (some frame)) bm')
    (guard : PinGuard log ⟨bm, .request pageId, .ok (some frame)⟩) :
    PinInvariant (⟨bm, .request pageId, .ok (some frame)⟩ :: log) bm' := by
  have asked := guard.1
  have few := guard.2
  have done := call.requested holds.valid
  have small := holds.small pageId
  simp only [held, List.length_cons] at few
  have pinned : bm'.pins pageId = bm.pins pageId + 1 := by
    rw [done.pinned, toInt32_of_bounds (by omega) (by omega)]
  refine ⟨call.valid holds.valid asked, ?_, ?_, ?_, ?_⟩
  · intro other
    simp only [held, List.countP_cons]
    by_cases same : pageId = other
    · subst same
      rw [pinned, holds.count]
      simp
    · rw [(done.others other (Ne.symm same)).pins_eq, holds.count]
      simp [same]
  · simpa only [held, List.length_cons] using few
  · intro other cached
    by_cases same : pageId = other
    · subst same
      cases before : bm.pageTable pageId with
      | none =>
          simp [pinned, pins_uncached before, sinceLoad, PoolEvent.loads, PoolEvent.requests,
            before, netRequests, PoolEvent.releases]
      | some old =>
          have later : PoolEvent.loads ⟨bm, .request pageId, .ok (some frame)⟩ pageId = false := by
            simp [PoolEvent.loads, before]
          rw [sinceLoad_of_not_loads later, netRequests_cons, pinned,
            holds.since pageId (by rw [before]; exact Option.some_ne_none old)]
          simp [PoolEvent.requests, PoolEvent.releases]
    · have moved := done.others other (Ne.symm same)
      have later : PoolEvent.loads ⟨bm, .request pageId, .ok (some frame)⟩ other = false := by
        simp [PoolEvent.loads, PoolEvent.requests, same]
      rw [moved.pins_eq, sinceLoad_of_not_loads later, netRequests_cons]
      cases moved with
      | kept table _ =>
          rw [holds.since other (by rwa [table] at cached)]
          simp [PoolEvent.requests, PoolEvent.releases, same]
      | evicted gone _ => exact absurd gone cached
  · intro entry member
    simp only [held, List.mem_cons] at member
    rcases member with rfl | old
    · exact done.cached
    · have entryCached := holds.frames entry old
      by_cases same : entry.1 = pageId
      · rw [same] at entryCached ⊢
        rw [done.cached, done.again _ entryCached]
      · cases done.others entry.1 same with
        | kept table _ => rw [table, entryCached]
        | evicted _ unpinned =>
            have positive := holds.positive old
            omega

theorem PinInvariant.release {log : List (PoolEvent N D)} {bm bm' : BufferManager N D}
    {pageId : Int} {value : Option (Fin N)} (holds : PinInvariant log bm)
    (call : Call bm (.release pageId) (.ok value) bm') :
    PinInvariant (⟨bm, .release pageId, .ok value⟩ :: log) bm' := by
  have done := call.released holds.valid
  have small := holds.small pageId
  have few := holds.few
  have positive := done.positive
  have unpinned : bm'.pins pageId = bm.pins pageId - 1 := by
    rw [done.unpinned, toInt32_of_bounds (by omega) (by omega)]
  have present : ∃ entry ∈ held log, entry.1 == pageId := by
    rw [holds.count] at positive
    exact List.countP_pos_iff.mp (by omega)
  refine ⟨call.valid holds.valid (fun _ impossible => by cases impossible), ?_, ?_, ?_, ?_⟩
  · intro other
    simp only [held]
    by_cases same : pageId = other
    · subst same
      have less : ((held log).eraseP (·.1 == pageId)).countP (·.1 == pageId) + 1 =
          (held log).countP (·.1 == pageId) :=
        countP_eraseP_inside (fun _ inside => inside) present
      rw [unpinned, holds.count]
      omega
    · rw [(done.others other (Ne.symm same)).pins_eq, holds.count, countP_eraseP_outside]
      intro entry inside outside
      simp only [beq_iff_eq] at inside outside
      exact same (inside.symm.trans outside)
  · have shorter : ((held log).eraseP (·.1 == pageId)).length ≤ (held log).length :=
      List.length_eraseP_le
    simp only [held]
    omega
  · intro other cached
    have later : PoolEvent.loads ⟨bm, .release pageId, .ok value⟩ other = false := rfl
    rw [sinceLoad_of_not_loads later, netRequests_cons]
    rw [done.table] at cached
    rw [← holds.since other cached]
    by_cases same : pageId = other
    · subst same
      simp [unpinned, PoolEvent.requests, PoolEvent.releases]
    · rw [(done.others other (Ne.symm same)).pins_eq]
      simp [PoolEvent.requests, PoolEvent.releases, same]
  · intro entry member
    simp only [held] at member
    rw [done.table]
    exact holds.frames entry (List.mem_of_mem_eraseP member)

/-- No call takes a pinned page out of its frame. -/
theorem Call.pinned_kept {bm bm' : BufferManager N D} {op : PoolOp N}
    {outcome : Except Error (Option (Fin N))} (call : Call bm op outcome bm') (valid : Valid bm)
    {pageId : Int} {frame : Fin N} (cached : bm.pageTable pageId = some frame)
    (pinned : 0 < bm.pins pageId) : bm'.pageTable pageId = some frame := by
  cases op with
  | request other =>
      cases outcome with
      | error reason =>
          cases call
          exact cached
      | ok value =>
          obtain ⟨asked, rfl⟩ : ∃ asked, value = some asked := by
            cases call <;> exact ⟨_, rfl⟩
          have done := call.requested valid
          by_cases same : pageId = other
          · subst same
            rw [done.cached, done.again frame cached]
          · cases done.others pageId same with
            | kept table _ => rw [table, cached]
            | evicted _ unpinned => omega
  | release other =>
      cases outcome with
      | error reason =>
          cases call
          exact cached
      | ok value => rw [(call.released valid).table, cached]
  | markDirty _ => rw [(call.still (by simp) (by simp)).1, cached]
  | write _ _ _ => rw [(call.still (by simp) (by simp)).1, cached]
  | flushAll => rw [(call.still (by simp) (by simp)).1, cached]

theorem PinInvariant.other {log : List (PoolEvent N D)} {bm bm' : BufferManager N D}
    {event : PoolEvent N D} (holds : PinInvariant log bm)
    (call : Call bm event.op event.outcome bm')
    (asked : ∀ pageId, event.op = .request pageId → 0 ≤ pageId)
    (other : (∀ pageId, event.op ≠ .request pageId) ∧ (∀ pageId, event.op ≠ .release pageId) ∨
      ∃ reason, event.outcome = .error reason) : PinInvariant (event :: log) bm' := by
  obtain ⟨same, silent⟩ : held (event :: log) = held log ∧
      ∀ pageId, event.requests pageId = false ∧ event.releases pageId = false := held_other other
  have still : bm'.pageTable = bm.pageTable ∧
      ∀ frame, (bm'.pool frame).pinCount = (bm.pool frame).pinCount := by
    rcases other with ⟨notRequest, notRelease⟩ | ⟨reason, failed⟩
    · exact call.still notRequest notRelease
    · obtain ⟨before, op, outcome⟩ := event
      subst failed
      cases call
      exact ⟨rfl, fun _ => rfl⟩
  have pins : ∀ pageId, bm'.pins pageId = bm.pins pageId := by
    intro pageId
    simp only [BufferManager.pins, still.1]
    split
    · exact still.2 _
    · rfl
  refine ⟨call.valid holds.valid asked, ?_, ?_, ?_, ?_⟩
  · intro pageId
    rw [pins, same, holds.count]
  · rw [same]
    exact holds.few
  · intro pageId cached
    have later : event.loads pageId = false := by simp [PoolEvent.loads, silent]
    rw [pins, sinceLoad_of_not_loads later, netRequests_cons, (silent pageId).1, (silent pageId).2,
      holds.since pageId (by rwa [still.1] at cached)]
    simp
  · rw [same, still.1]
    exact holds.frames

theorem PinInvariant.step {log : List (PoolEvent N D)} {bm bm' : BufferManager N D}
    {event : PoolEvent N D} (holds : PinInvariant log bm)
    (taken : poolStep PinGuard log bm event bm') : PinInvariant (event :: log) bm' := by
  obtain ⟨before, op, outcome⟩ := event
  obtain ⟨rfl, ended, guard⟩ := taken
  have call := call_of_run ended
  cases outcome with
  | error reason => exact holds.other call guard.1 (Or.inr ⟨reason, rfl⟩)
  | ok value =>
      cases op with
      | request pageId =>
          obtain ⟨frame, rfl⟩ : ∃ frame, value = some frame := by
            cases call <;> exact ⟨_, rfl⟩
          exact holds.request call guard
      | release pageId => exact holds.release call
      | markDirty _ => exact holds.other call guard.1 (Or.inl ⟨by simp, by simp⟩)
      | write _ _ _ => exact holds.other call guard.1 (Or.inl ⟨by simp, by simp⟩)
      | flushAll => exact holds.other call guard.1 (Or.inl ⟨by simp, by simp⟩)

theorem pinInvariant [NeZero N] {raw : Fin N → Page} {disk : D} {log : List (PoolEvent N D)}
    {bm : BufferManager N D} (run : PoolRun PinGuard (new raw disk) log bm) :
    PinInvariant log bm := by
  refine run.invariant PinInvariant ?_ fun _ _ _ _ _ holds taken => holds.step taken
  refine ⟨new_valid raw disk, fun _ => rfl, ?_, ?_, ?_⟩
  · simp only [held, List.length_nil]
    decide
  · intro pageId cached
    exact absurd rfl cached
  · intro entry member
    cases member

/-- What each client was given and has not released: the page and its frame. -/
def heldBy {C : Type} [DecidableEq C] : List (C × PoolEvent N D) → List (C × Int × Fin N)
  | [] => []
  | (client, event) :: log =>
      match event.op, event.outcome with
      | .request pageId, .ok (some frame) => (client, pageId, frame) :: heldBy log
      | .release pageId, .ok _ =>
          (heldBy log).eraseP fun entry => entry.1 == client && entry.2.1 == pageId
      | _, _ => heldBy log

/-- Every client releases only what it requested. -/
def ReleasesOwn {C : Type} [DecidableEq C] : List (C × PoolEvent N D) → Prop
  | [] => True
  | (client, event) :: log => ReleasesOwn log ∧ ∀ pageId, event.op = .release pageId →
      ∃ frame, (client, pageId, frame) ∈ heldBy log

/-- A client's own release takes one entry of the page out of both accounts. -/
theorem released_counts {C : Type} [DecidableEq C] {tagged : List (C × Int × Fin N)}
    {entries : List (Int × Fin N)} {client : C} {pageId : Int} {frame : Fin N}
    (counts : ∀ other, tagged.countP (·.2.1 == other) = entries.countP (·.1 == other))
    (mine : (client, pageId, frame) ∈ tagged) (other : Int) :
    (tagged.eraseP fun entry => entry.1 == client && entry.2.1 == pageId).countP (·.2.1 == other) =
      (entries.eraseP (·.1 == pageId)).countP (·.1 == other) := by
  by_cases equal : pageId = other
  · subst equal
    have tags : (tagged.eraseP fun entry =>
        entry.1 == client && entry.2.1 == pageId).countP (·.2.1 == pageId) + 1 =
        tagged.countP (·.2.1 == pageId) := by
      refine countP_eraseP_inside ?_ ⟨_, mine, by simp⟩
      intro entry inside
      exact (Bool.and_eq_true_iff.mp inside).2
    have positive : 0 < entries.countP (·.1 == pageId) := by
      rw [← counts]
      omega
    have plain : (entries.eraseP (·.1 == pageId)).countP (·.1 == pageId) + 1 =
        entries.countP (·.1 == pageId) :=
      countP_eraseP_inside (fun _ inside => inside) (List.countP_pos_iff.mp positive)
    have count := counts pageId
    omega
  · rw [countP_eraseP_outside, countP_eraseP_outside, counts]
    · intro entry inside outside
      simp only [beq_iff_eq] at inside outside
      exact equal (inside.symm.trans outside)
    · intro entry inside outside
      simp only [beq_iff_eq, Bool.and_eq_true] at inside outside
      exact equal (inside.2.symm.trans outside)

/-- The tags do not change what is held of each page, and every client's frame
is the one its page is in. -/
theorem heldBy_frames [NeZero N] {C : Type} [DecidableEq C] {raw : Fin N → Page} {disk : D}
    {log : List (PoolEvent N D)} {bm : BufferManager N D}
    (run : PoolRun PinGuard (new raw disk) log bm) (tagged : List (C × PoolEvent N D))
    (same : tagged.map Prod.snd = log) (own : ReleasesOwn tagged) :
    (∀ pageId, (heldBy tagged).countP (·.2.1 == pageId) = (held log).countP (·.1 == pageId)) ∧
      ∀ entry ∈ heldBy tagged, bm.pageTable entry.2.1 = some entry.2.2 := by
  induction run generalizing tagged with
  | nil =>
      rw [List.map_eq_nil_iff] at same
      subst same
      refine ⟨fun _ => rfl, ?_⟩
      intro entry member
      cases member
  | @cons log before after event previous taken ih =>
      cases tagged with
      | nil => cases same
      | cons head tagged =>
          obtain ⟨client, event⟩ := head
          rw [List.map_cons, List.cons.injEq] at same
          obtain ⟨rfl, same⟩ := same
          obtain ⟨rest, mine⟩ := own
          obtain ⟨counts, frames⟩ := ih tagged same rest
          have holds := pinInvariant previous
          obtain ⟨state, op, outcome⟩ := event
          obtain ⟨rfl, ended, guard⟩ := taken
          have call := call_of_run ended
          have old : ∀ entry ∈ heldBy tagged, after.pageTable entry.2.1 = some entry.2.2 := by
            intro entry member
            refine call.pinned_kept holds.valid (frames entry member) ?_
            rw [holds.count, ← counts]
            have positive : 0 < (heldBy tagged).countP (·.2.1 == entry.2.1) :=
              List.countP_pos_iff.mpr ⟨entry, member, by simp⟩
            omega
          have unchanged : heldBy ((client, ⟨state, op, outcome⟩) :: tagged) = heldBy tagged →
              held (⟨state, op, outcome⟩ :: log) = held log →
              (∀ pageId, (heldBy ((client, ⟨state, op, outcome⟩) :: tagged)).countP
                (·.2.1 == pageId) = (held (⟨state, op, outcome⟩ :: log)).countP (·.1 == pageId)) ∧
              ∀ entry ∈ heldBy ((client, ⟨state, op, outcome⟩) :: tagged),
                after.pageTable entry.2.1 = some entry.2.2 := by
            intro tags plain
            rw [tags, plain]
            exact ⟨counts, old⟩
          cases outcome with
          | error reason => cases op <;> exact unchanged rfl rfl
          | ok value =>
              cases op with
              | request pageId =>
                  obtain ⟨frame, rfl⟩ : ∃ frame, value = some frame := by
                    cases call <;> exact ⟨_, rfl⟩
                  refine ⟨?_, ?_⟩
                  · intro other
                    simp only [heldBy, held, List.countP_cons, counts]
                  · intro entry member
                    rcases List.mem_cons.mp member with rfl | earlier
                    · exact (call.requested holds.valid).cached
                    · exact old entry earlier
              | release pageId =>
                  obtain ⟨frame, mineHeld⟩ := mine pageId rfl
                  refine ⟨released_counts counts mineHeld, ?_⟩
                  intro entry member
                  exact old entry (List.mem_of_mem_eraseP member)
              | markDirty _ => exact unchanged rfl rfl
              | write _ _ _ => exact unchanged rfl rfl
              | flushAll => exact unchanged rfl rfl

/-- A pinned frame is no victim, and whatever is called next it keeps its page
and the page its frame. -/
def Secure (bm : BufferManager N D) (frame : Fin N) : Prop :=
  (∀ policy, bm.policy.chooseVictim bm.pool ≠ (some frame, policy)) ∧
  bm.pageTable (bm.pool frame).pageId = some frame ∧
  ∀ (op : PoolOp N) outcome bm', op.run bm = some (outcome, bm') →
    (∀ pageId, op = .request pageId → 0 ≤ pageId) →
    (bm'.pool frame).pageId = (bm.pool frame).pageId ∧
      bm'.pageTable (bm.pool frame).pageId = some frame

theorem Valid.secure {bm : BufferManager N D} (valid : Valid bm) {frame : Fin N}
    (pinned : 0 < (bm.pool frame).pinCount) : Secure bm frame := by
  have cached : bm.pageTable (bm.pool frame).pageId = some frame := by
    rcases valid.pinCount_eq frame with zero | cached
    · omega
    · exact cached
  refine ⟨?_, cached, ?_⟩
  · intro policy chosen
    have unpinned := ClockPolicy.chooseVictim_unpinned _ _ _ _ chosen
    omega
  · intro op outcome bm' ended asked
    have call := call_of_run ended
    have kept := call.pinned_kept valid cached (by rwa [pins_cached cached])
    exact ⟨(call.valid valid asked).mapped _ _ kept, kept⟩

omit [IDiskManager D] in
theorem release_throws_iff (bm : BufferManager N D) (pageId : Int) :
    (∃ reason bm', (release pageId).Throws bm reason bm') ↔
      bm.pageTable pageId = none ∨ bm.pins pageId ≤ 0 := by
  cases cached : bm.pageTable pageId with
  | none =>
      constructor
      · exact fun _ => Or.inl rfl
      · exact fun _ => ⟨_, _, release_uncached bm pageId cached⟩
  | some frame =>
      rw [pins_cached cached]
      constructor
      · rintro ⟨reason, bm', thrown⟩
        right
        by_contra pinned
        have returned := release_pinned bm pageId frame cached (by omega)
        unfold Program.Throws at thrown
        unfold Program.Returns at returned
        rw [thrown] at returned
        cases returned
      · rintro (impossible | unpinned)
        · cases impossible
        · exact ⟨_, _, release_unpinned bm pageId frame cached unpinned⟩

/-- How pins protect frames at a point of a run. -/
structure PinSafety (log : List (PoolEvent N D)) (bm : BufferManager N D) : Prop where
  /-- A frame counts what its page was requested more often than released since its load. -/
  counts : ∀ frame, 0 ≤ (bm.pool frame).pinCount ∧
    ((∃ pageId, bm.pageTable pageId = some frame ∧
        (bm.pool frame).pinCount = netRequests pageId (sinceLoad pageId log)) ∨
      (∀ pageId, bm.pageTable pageId ≠ some frame) ∧ (bm.pool frame).pinCount = 0)
  refusals : ∀ pageId, (∃ reason bm', (release pageId).Throws bm reason bm') ↔
    bm.pageTable pageId = none ∨ netRequests pageId (sinceLoad pageId log) = 0
  secure : ∀ frame, 0 < (bm.pool frame).pinCount → Secure bm frame
  /-- With clients that release only what they requested, a frame is good until
  its client's own release. -/
  clients : ∀ (C : Type) [DecidableEq C] (tagged : List (C × PoolEvent N D)),
    tagged.map Prod.snd = log → ReleasesOwn tagged →
    ∀ client pageId frame, (client, pageId, frame) ∈ heldBy tagged →
      bm.pageTable pageId = some frame ∧ (bm.pool frame).pageId = pageId ∧
        0 < (bm.pool frame).pinCount

theorem pin_safety [NeZero N] (raw : Fin N → Page) (disk : D) (log : List (PoolEvent N D))
    (bm : BufferManager N D) (run : PoolRun PinGuard (new raw disk) log bm) :
    PinSafety log bm := by
  have holds := pinInvariant run
  have cachedPins : ∀ pageId frame, bm.pageTable pageId = some frame →
      (bm.pool frame).pinCount = netRequests pageId (sinceLoad pageId log) := by
    intro pageId frame cached
    rw [← pins_cached cached, holds.since pageId (by rw [cached]; exact Option.some_ne_none frame)]
  refine ⟨?_, ?_, fun frame pinned => holds.valid.secure pinned, ?_⟩
  · intro frame
    by_cases free : frame ∈ bm.freeList
    · have unpinned := holds.valid.unpinned frame free
      exact ⟨by omega, Or.inr ⟨holds.valid.unmapped frame free, unpinned⟩⟩
    · have cached := holds.valid.covered frame free
      have small := holds.small (bm.pool frame).pageId
      rw [pins_cached cached] at small
      exact ⟨small.1, Or.inl ⟨_, cached, cachedPins _ _ cached⟩⟩
  · intro pageId
    rw [release_throws_iff]
    cases cached : bm.pageTable pageId with
    | none => simp
    | some frame =>
        have small := holds.small pageId
        rw [← holds.since pageId (by rw [cached]; exact Option.some_ne_none frame)]
        constructor
        · rintro (impossible | unpinned)
          · cases impossible
          · exact Or.inr (by omega)
        · rintro (impossible | unpinned)
          · cases impossible
          · exact Or.inr (by omega)
  · intro C _ tagged same own client pageId frame member
    obtain ⟨counts, frames⟩ := heldBy_frames run tagged same own
    have cached := frames _ member
    refine ⟨cached, holds.valid.mapped pageId frame cached, ?_⟩
    rw [← pins_cached cached, holds.count, ← counts]
    have positive : 0 < (heldBy tagged).countP (·.2.1 == pageId) :=
      List.countP_pos_iff.mpr ⟨_, member, by simp⟩
    exact_mod_cast positive

/-- A page that was requested once in a pool of two frames. -/
theorem pin_safety_request :
    let start : BufferManager 2 MockDiskManager := new (fun _ _ => 0) MockDiskManager.empty
    ∃ log bm, PoolRun PinGuard start log bm ∧ bm.pageTable 3 = some 1 ∧ PinSafety log bm := by
  intro start
  have returned := request_free start 3 [0] 1 rfl rfl
  have ended : (PoolOp.request 3).run start = some (.ok (some 1), _) := returned.bind_eq
  have guard : PinGuard [] ⟨start, .request 3, .ok (some 1)⟩ := by
    refine ⟨?_, by simp [held]⟩
    intro pageId asked
    cases asked
    decide
  have run : PoolRun PinGuard start [⟨start, .request 3, .ok (some 1)⟩] _ :=
    .cons .nil ⟨rfl, ended, guard⟩
  exact ⟨_, _, run, rfl, pin_safety _ _ _ _ run⟩

end BufferManager

end RelationalDb
