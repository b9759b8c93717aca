import RelationalDb.Storage.PoolSession

set_option autoImplicit false

namespace RelationalDb.BufferManager

variable {N : Nat} {D : Type} {bm bm' : BufferManager N D} {pages list : List Int}
  {pageId : Int} {frame : Fin N}

def missing (bm : BufferManager N D) (pages : List Int) : List Int :=
  pages.filter fun pageId => (bm.pageTable pageId).isNone

def Roomy (pages : List Int) (bm : BufferManager N D) : Prop :=
  (bm.missing pages).length ≤ bm.freeList.length

def Retains (bm bm' : BufferManager N D) : Prop :=
  ∀ pageId frame, bm.pageTable pageId = some frame → bm'.pageTable pageId = some frame

theorem Retains.trans {bm'' : BufferManager N D} (first : Retains bm bm')
    (second : Retains bm' bm'') : Retains bm bm'' :=
  fun pageId frame cached => second pageId frame (first pageId frame cached)

theorem new_roomy [NeZero N] (raw : Fin N → Page) (disk : D) (fits : pages.length ≤ N) :
    Roomy pages (new raw disk) := by
  have free : (new raw disk).freeList.length = N := List.length_finRange
  unfold Roomy
  rw [free]
  exact Nat.le_trans (List.length_filter_le _ _) fits

/-- Reading one of the pages in takes one frame and leaves one page fewer to read. -/
theorem missing_loaded (absent : bm.pageTable pageId = none)
    (member : pageId ∈ pages)
    (table : bm'.pageTable = Function.update bm.pageTable pageId (some frame)) :
    (bm'.missing pages).length < (bm.missing pages).length := by
  have same : bm'.missing pages = (bm.missing pages).filter (· ≠ pageId) := by
    rw [missing, missing, List.filter_filter, table]
    apply List.filter_congr
    intro other _
    by_cases here : other = pageId
    · rw [here, Function.update_self]
      simp
    · rw [Function.update_of_ne here]
      simp [here]
  rw [same, List.length_filter_lt_length_iff_exists]
  refine ⟨pageId, List.mem_filter.mpr ⟨member, by rw [absent]; rfl⟩, ?_⟩
  simp

theorem Roomy.free (room : Roomy pages bm) (absent : bm.pageTable pageId = none)
    (member : pageId ∈ pages) : bm.freeList ≠ [] := by
  intro full
  have one : pageId ∈ bm.missing pages :=
    List.mem_filter.mpr ⟨member, by rw [absent]; rfl⟩
  have positive := List.length_pos_of_mem one
  rw [Roomy, full, List.length_nil] at room
  omega

theorem Roomy.congr (room : Roomy pages bm) (table : bm'.pageTable = bm.pageTable)
    (free : bm'.freeList = bm.freeList) : Roomy pages bm' := by
  unfold Roomy missing at room ⊢
  rw [table, free]
  exact room

variable [IDiskManager D]

/-- A request for one of the pages is not refused, moves no page and leaves the room that is
needed. -/
theorem Roomy.request (room : Roomy pages bm) (member : pageId ∈ pages) :
    ∃ frame bm', (BufferManager.request pageId).Returns bm frame bm' ∧ Roomy pages bm' ∧
      Retains bm bm' ∧ bm'.pageTable pageId = some frame := by
  rcases request_cases bm pageId with ⟨frame, cached, returned⟩ |
    ⟨absent, rest, frame, available, returned⟩ | ⟨absent, full, _⟩ | ⟨absent, full, _⟩
  · exact ⟨frame, _, returned, room, fun _ _ there => there, cached⟩
  · refine ⟨frame, _, returned, ?_, ?_, Function.update_self _ _ _⟩
    · have fewer := @missing_loaded N D bm (({ bm with freeList := rest } :
        BufferManager N D).loaded pageId frame) pages pageId frame absent member rfl
      have taken : bm.freeList.length = rest.length + 1 := by
        rw [available, List.length_append, List.length_singleton]
      unfold Roomy at room ⊢
      show _ ≤ rest.length
      omega
    · intro other there cached
      have apart : other ≠ pageId := by
        rintro rfl
        rw [absent] at cached
        cases cached
      show Function.update bm.pageTable pageId (some frame) other = some there
      rw [Function.update_of_ne apart, cached]
  · exact absurd full (room.free absent member)
  · exact absurd full (room.free absent member)

theorem Call.table_kept {op : PoolOp N} {outcome : Except Error (Option (Fin N))}
    (call : Call bm op outcome bm') (other : ∀ pageId, op ≠ .request pageId) :
    bm'.pageTable = bm.pageTable ∧ bm'.freeList = bm.freeList := by
  cases call with
  | refused op reason => exact ⟨rfl, rfl⟩
  | hit cached => exact absurd rfl (other _)
  | free absent available => exact absurd rfl (other _)
  | evict absent full chosen => exact absurd rfl (other _)
  | release cached pinned => exact ⟨rfl, rfl⟩
  | markDirty frame => exact ⟨rfl, rfl⟩
  | write pageId frame page => exact ⟨rfl, rfl⟩
  | flushAll => exact ⟨rfl, rfl⟩

/-- A client that requests only these pages. -/
def Within (pages : List Int) (_ : List (PoolEvent N D)) (event : PoolEvent N D) : Prop :=
  ∀ pageId, event.op = .request pageId → pageId ∈ pages

/-- While the client requests no more pages than there are frames, no request is refused, and
every page that was requested is still in the frame that was handed out for it. -/
theorem workingSet_stays [NeZero N] (raw : Fin N → Page) (disk : D) (pages : List Int)
    (fits : pages.length ≤ N) (log : List (PoolEvent N D)) (bm : BufferManager N D)
    (run : PoolRun (Within pages) (new raw disk) log bm) :
    ∀ event ∈ log, ∀ pageId, event.op = .request pageId →
      ∃ frame, event.outcome = .ok (some frame) ∧ bm.pageTable pageId = some frame := by
  have whole : Roomy pages bm ∧ ∀ event ∈ log, ∀ pageId, event.op = .request pageId →
      ∃ frame, event.outcome = .ok (some frame) ∧ bm.pageTable pageId = some frame := by
    apply run.invariant fun log bm => Roomy pages bm ∧ ∀ event ∈ log, ∀ pageId,
      event.op = .request pageId →
        ∃ frame, event.outcome = .ok (some frame) ∧ bm.pageTable pageId = some frame
    · exact ⟨new_roomy raw disk fits, fun _ member => absurd member List.not_mem_nil⟩
    · intro log bm event bm' _ before taken
      obtain ⟨room, earlier⟩ := before
      obtain ⟨_, ended, within⟩ := taken
      have step : Roomy pages bm' ∧ Retains bm bm' ∧ ∀ pageId, event.op = .request pageId →
          ∃ frame, event.outcome = .ok (some frame) ∧ bm'.pageTable pageId = some frame := by
        by_cases request : ∃ pageId, event.op = .request pageId
        · obtain ⟨pageId, isRequest⟩ := request
          obtain ⟨frame, after, returned, room', stays, cached⟩ :=
            room.request (within pageId isRequest)
          have given : (PoolOp.request pageId).run.Returns bm (some frame) after :=
            returned.bind (Program.pure_returns _ _)
          rw [isRequest, show (PoolOp.request pageId).run bm = some (_, after) from given,
            Option.some.injEq, Prod.mk.injEq] at ended
          obtain ⟨isFrame, rfl⟩ := ended
          refine ⟨room', stays, fun other same => ⟨frame, isFrame.symm, ?_⟩⟩
          rw [isRequest, PoolOp.request.injEq] at same
          rw [← same, cached]
        · have other : ∀ pageId, event.op ≠ .request pageId :=
            fun pageId same => request ⟨pageId, same⟩
          obtain ⟨table, free⟩ := (call_of_run ended).table_kept other
          refine ⟨room.congr table free, fun _ _ cached => by rw [table, cached], ?_⟩
          exact fun pageId same => absurd same (other pageId)
      obtain ⟨room', stays, here⟩ := step
      refine ⟨room', ?_⟩
      intro other member pageId isRequest
      rcases List.mem_cons.mp member with rfl | old
      · exact here pageId isRequest
      · obtain ⟨frame, given, cached⟩ := earlier other old pageId isRequest
        exact ⟨frame, given, stays pageId frame cached⟩
  exact whole.2

/-- Two requests for page 3. -/
theorem workingSet_stays_three : ∃ (log : List (PoolEvent 2 MockDiskManager))
    (bm : BufferManager 2 MockDiskManager) (frame : Fin 2), log.length = 2 ∧
      bm.pageTable 3 = some frame ∧ ∀ event ∈ log, event.outcome = .ok (some frame) := by
  let start : BufferManager 2 MockDiskManager := new (fun _ _ => 0) MockDiskManager.empty
  have only : ∀ (log : List (PoolEvent 2 MockDiskManager)) before outcome,
      Within [3] log ⟨before, .request 3, outcome⟩ := by
    intro log before outcome pageId same
    rw [PoolOp.request.injEq] at same
    rw [← same]
    exact List.mem_singleton_self 3
  obtain ⟨frame, bm₁, returned, room, _, _⟩ :=
    (new_roomy (fun _ _ => 0) MockDiskManager.empty (show [(3 : Int)].length ≤ 2 by decide)).request
      (List.mem_singleton_self 3)
  obtain ⟨frame', bm₂, returned', _⟩ := room.request (List.mem_singleton_self 3)
  have first : (PoolOp.request 3).run.Returns start (some frame) bm₁ :=
    returned.bind (Program.pure_returns _ _)
  have second : (PoolOp.request 3).run.Returns bm₁ (some frame') bm₂ :=
    returned'.bind (Program.pure_returns _ _)
  have run : PoolRun (Within [3]) start
      [⟨bm₁, .request 3, .ok (some frame')⟩, ⟨start, .request 3, .ok (some frame)⟩] bm₂ :=
    (Run.nil.cons ⟨rfl, first, only _ _ _⟩).cons ⟨rfl, second, only _ _ _⟩
  have stays := workingSet_stays _ _ [3] (by decide) _ bm₂ run
  obtain ⟨found, given, cached⟩ := stays _ List.mem_cons_self 3 rfl
  refine ⟨[⟨bm₁, .request 3, .ok (some frame')⟩, ⟨start, .request 3, .ok (some frame)⟩], bm₂, found,
    rfl, cached, ?_⟩
  intro event member
  have isRequest : event.op = .request 3 := by
    rcases List.mem_cons.mp member with rfl | member
    · rfl
    · rw [List.mem_singleton.mp member]
  obtain ⟨other, given', cached'⟩ := stays event member 3 isRequest
  rw [cached, Option.some.injEq] at cached'
  rw [given', cached']

theorem Roomy.visits {bm bm' : BufferManager N DiskManager} (room : Roomy pages bm)
    (inside : ∀ pageId ∈ list, pageId ∈ pages)
    (visited : (BufferManager.visits list).Returns bm ⟨⟩ bm') :
    Roomy pages bm' ∧ Retains bm bm' := by
  induction list generalizing bm with
  | nil =>
      obtain ⟨_, rfl⟩ := (Program.returns_pure _ _ _ _).mp visited
      exact ⟨room, fun _ _ cached => cached⟩
  | cons pageId rest ih =>
      obtain ⟨frame, opened, requested, visited⟩ := Program.returns_bind.mp visited
      obtain ⟨_, closed, released, visited⟩ := Program.returns_bind.mp visited
      obtain ⟨found, after, returned, room', stays, _⟩ :=
        room.request (inside pageId List.mem_cons_self)
      obtain ⟨rfl, rfl⟩ := returned.value_eq requested
      obtain ⟨other, _, rfl⟩ := released_of_returns released
      have kept : Roomy pages (after.released other) := room'.congr rfl rfl
      obtain ⟨room'', stays'⟩ :=
        ih kept (fun other member => inside other (List.mem_cons_of_mem _ member))
        visited
      exact ⟨room'', stays.trans stays'⟩

end RelationalDb.BufferManager
