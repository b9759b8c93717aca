import RelationalDb.Storage.PoolContents

set_option autoImplicit false

namespace RelationalDb

variable {N : Nat} {D : Type}

/-- A client stores into a page, marks it dirty or releases it only while it
holds it. -/
def HoldsWhatItUses (log : List (PoolEvent N D)) : PoolOp N → Prop
  | .release pageId => ∃ frame, (pageId, frame) ∈ held log
  | .write pageId frame _ => (pageId, frame) ∈ held log
  | .markDirty frame => ∃ pageId, (pageId, frame) ∈ held log
  | _ => True

def CacheGuard (log : List (PoolEvent N D)) (event : PoolEvent N D) : Prop :=
  PinGuard log event ∧ HoldsWhatItUses log event.op

/-- The bytes of each page: those last written to it, or the initial ones. -/
def logical (initial : Int → Option Page) : List (PoolEvent N D) → Int → Option Page
  | [] => initial
  | event :: log =>
      match event.op with
      | .write pageId _ page => Function.update (logical initial log) pageId (some page)
      | _ => logical initial log

namespace BufferManager

variable [IDiskManager D] [LawfulDisk D]

/-- The pool and the disk hold the last write to every page all along a run. -/
theorem backed_of_run [NeZero N] {raw : Fin N → Page} {disk : D} {log : List (PoolEvent N D)}
    {bm : BufferManager N D} (run : PoolRun CacheGuard (new raw disk) log bm) :
    PinInvariant log bm ∧ Backed bm (logical (stored disk) log) := by
  have pinRun : PoolRun PinGuard (new raw disk) log bm :=
    run.mono fun _ _ _ _ taken => ⟨taken.1, taken.2.1, taken.2.2.1⟩
  refine ⟨pinInvariant pinRun, ?_⟩
  induction run with
  | nil => exact new_backed raw disk
  | @cons log before after event previous taken ih =>
      have earlier : PoolRun PinGuard (new raw disk) log before :=
        previous.mono fun _ _ _ _ taken => ⟨taken.1, taken.2.1, taken.2.2.1⟩
      have holds := pinInvariant earlier
      have backed := ih earlier
      obtain ⟨state, op, outcome⟩ := event
      obtain ⟨rfl, ended, guard, uses⟩ := taken
      have call := call_of_run ended
      cases op with
      | request pageId => exact call.request_backed backed (guard.1 pageId rfl)
      | release pageId => exact call.release_backed backed
      | markDirty frame =>
          obtain ⟨pageId, member⟩ := uses
          cases ended
          exact markedDirty_backed backed (holds.frames _ member)
      | write pageId frame page =>
          cases call with
          | refused => cases ended
          | write => exact written_backed backed (holds.frames _ uses) page
      | flushAll =>
          cases call with
          | refused =>
              rw [show PoolOp.flushAll.run state = _ from (flushAll_returns state).bind_eq] at ended
              cases ended
          | flushAll => exact flushed_backed backed

/-- What a client sees of the pages of a view. -/
structure Transparent (bm : BufferManager N D) (view : Int → Option Page) : Prop where
  requests : ∀ pageId frame bm', 0 ≤ pageId → (request pageId).Returns bm frame bm' →
    (bm'.pool frame).pageId = pageId ∧
      ∀ page, view pageId = some page → (bm'.pool frame).data = page
  flushes : flushAll.Returns bm () bm.flushed ∧
    (∀ pageId page, view pageId = some page → stored bm.flushed.disk pageId = some page) ∧
    bm.flushed.pageTable = bm.pageTable ∧
    (∀ frame, (bm.flushed.pool frame).pinCount = (bm.pool frame).pinCount) ∧
    bm.flushed.policy = bm.policy

/-- The pool is a transparent cache: in every state of a run each request gives
the bytes last written to the page, and `flush_all` brings the disk up to date. -/
theorem cache_transparent [NeZero N] (raw : Fin N → Page) (disk : D) (log : List (PoolEvent N D))
    (bm : BufferManager N D) (run : PoolRun CacheGuard (new raw disk) log bm) :
    Transparent bm (logical (stored disk) log) := by
  obtain ⟨holds, backed⟩ := backed_of_run run
  refine ⟨?_, flushAll_returns bm, fun _ _ present => backed.flushed_stored present, rfl,
    fun _ => rfl, rfl⟩
  intro pageId frame bm' given returned
  have ended : (PoolOp.request pageId).run bm = some (.ok (some frame), bm') := returned.bind_eq
  have call := call_of_run ended
  have cached := (call.requested holds.valid).cached
  have after := call.request_backed backed given
  exact ⟨after.mapped pageId frame cached, fun page present => after.data _ _ _ cached present⟩

/-- A page written through its frame in a pool of one frame. -/
theorem cache_transparent_write :
    let start : BufferManager 1 MockDiskManager := new (fun _ _ => 0) MockDiskManager.empty
    ∃ log bm, PoolRun CacheGuard start log bm ∧
      logical (stored start.disk) log 5 = some (fun _ => 7) ∧
      Transparent bm (logical (stored start.disk) log) := by
  intro start
  let pinned : BufferManager 1 MockDiskManager :=
    ({ start with freeList := [] } : BufferManager 1 MockDiskManager).loaded 5 0
  have returned : (request 5).Returns start 0 pinned := request_free start 5 [] 0 rfl rfl
  have requested : (PoolOp.request 5).run start = some (.ok (some 0), pinned) := returned.bind_eq
  have requestGuard : CacheGuard [] ⟨start, .request 5, .ok (some 0)⟩ := by
    refine ⟨⟨?_, by simp [held]⟩, trivial⟩
    intro pageId asked
    cases asked
    decide
  have opened : PoolRun CacheGuard start [⟨start, .request 5, .ok (some 0)⟩] pinned :=
    .cons .nil ⟨rfl, requested, requestGuard⟩
  have writeGuard : CacheGuard [⟨start, .request 5, .ok (some 0)⟩]
      ⟨pinned, .write 5 0 fun _ => 7, .ok none⟩ := by
    refine ⟨⟨?_, by simp [held]⟩, List.mem_cons_self⟩
    intro pageId asked
    cases asked
  have run := opened.cons ⟨rfl, rfl, writeGuard⟩
  exact ⟨_, _, run, by simp only [logical, Function.update_self], cache_transparent _ _ _ _ run⟩

end BufferManager

end RelationalDb
