import RelationalDb.Run
import RelationalDb.Storage.BufferManagerCalls

set_option autoImplicit false

namespace RelationalDb

/-- The calls of a client of the buffer manager. `write` is a store through the
pointer a client was given for a page, made together with `mark_dirty`. -/
inductive PoolOp (N : Nat) where
  | request (pageId : Int)
  | release (pageId : Int)
  | markDirty (frame : Fin N)
  | write (pageId : Int) (frame : Fin N) (page : Page)
  | flushAll

namespace PoolOp

variable {N : Nat} {D : Type} [IDiskManager D]

/-- The frame a call hands out is its outcome. -/
def run : PoolOp N → Pool N D (Option (Fin N))
  | request pageId => do return some (← BufferManager.request pageId)
  | release pageId => do
      BufferManager.release pageId
      return none
  | markDirty frame => do
      BufferManager.markDirty frame
      return none
  | write _ frame page => do
      BufferManager.modifyData frame fun _ => page
      BufferManager.markDirty frame
      return none
  | flushAll => do
      BufferManager.flushAll
      return none

end PoolOp

/-- One call, with the state it was made in and how it ended. -/
structure PoolEvent (N : Nat) (D : Type) where
  before : BufferManager N D
  op : PoolOp N
  outcome : Except Error (Option (Fin N))

/-- A call that `guard` lets the client make. -/
def poolStep {N : Nat} {D : Type} [IDiskManager D]
    (guard : List (PoolEvent N D) → PoolEvent N D → Prop) (log : List (PoolEvent N D))
    (bm : BufferManager N D) (event : PoolEvent N D) (bm' : BufferManager N D) : Prop :=
  event.before = bm ∧ event.op.run bm = some (event.outcome, bm') ∧ guard log event

/-- The runs of a buffer manager under a client. -/
abbrev PoolRun {N : Nat} {D : Type} [IDiskManager D]
    (guard : List (PoolEvent N D) → PoolEvent N D → Prop) (start : BufferManager N D) :
    List (PoolEvent N D) → BufferManager N D → Prop :=
  Run (poolStep guard) start

namespace BufferManager

variable {N : Nat} {D : Type} [IDiskManager D]

def markedDirty (bm : BufferManager N D) (frame : Fin N) : BufferManager N D :=
  bm.setFrame frame fun f => { f with dirty := true }

def written (bm : BufferManager N D) (frame : Fin N) (page : Page) : BufferManager N D :=
  bm.setFrame frame fun f => { f with data := page, dirty := true }

/-- Everything a call can do. A call that throws changes nothing. -/
inductive Call (bm : BufferManager N D) :
    PoolOp N → Except Error (Option (Fin N)) → BufferManager N D → Prop
  | refused (op : PoolOp N) (reason : Error) : Call bm op (.error reason) bm
  | hit {pageId : Int} {frame : Fin N} (cached : bm.pageTable pageId = some frame) :
      Call bm (.request pageId) (.ok (some frame)) (bm.accessed frame)
  | free {pageId : Int} {rest : List (Fin N)} {frame : Fin N}
      (absent : bm.pageTable pageId = none) (available : bm.freeList = rest ++ [frame]) :
      Call bm (.request pageId) (.ok (some frame))
        (({ bm with freeList := rest } : BufferManager N D).loaded pageId frame)
  | evict {pageId : Int} {frame : Fin N} {policy : ClockPolicy N}
      (absent : bm.pageTable pageId = none) (full : bm.freeList = [])
      (chosen : bm.policy.chooseVictim bm.pool = (some frame, policy)) :
      Call bm (.request pageId) (.ok (some frame))
        (((bm.setPolicy policy).evicted frame).loaded pageId frame)
  | release {pageId : Int} {frame : Fin N} (cached : bm.pageTable pageId = some frame)
      (pinned : 0 < (bm.pool frame).pinCount) :
      Call bm (.release pageId) (.ok none) (bm.released frame)
  | markDirty (frame : Fin N) : Call bm (.markDirty frame) (.ok none) (bm.markedDirty frame)
  | write (pageId : Int) (frame : Fin N) (page : Page) :
      Call bm (.write pageId frame page) (.ok none) (bm.written frame page)
  | flushAll : Call bm .flushAll (.ok none) bm.flushed

section Outcome

variable {α : Type} {program : Pool N D α} {bm bm' middle : BufferManager N D} {value : α}
  {reason : Error} {result : α → Option (Fin N)} {outcome : Except Error (Option (Fin N))}

omit [IDiskManager D] in
private theorem outcome_of_returns (returned : program.Returns bm value middle)
    (ended : (do return result (← program) : Pool N D (Option (Fin N))) bm = some (outcome, bm')) :
    Except.ok (result value) = outcome ∧ middle = bm' := by
  rw [Program.Returns.bind_eq returned] at ended
  cases ended
  exact ⟨rfl, rfl⟩

omit [IDiskManager D] in
private theorem outcome_of_throws (thrown : program.Throws bm reason middle)
    (ended : (do return result (← program) : Pool N D (Option (Fin N))) bm = some (outcome, bm')) :
    Except.error reason = outcome ∧ middle = bm' := by
  have failed : (do return result (← program) : Pool N D (Option (Fin N))).Throws bm reason middle :=
    thrown.bind
  unfold Program.Throws at failed
  rw [failed] at ended
  cases ended
  exact ⟨rfl, rfl⟩

end Outcome

theorem call_of_run {bm bm' : BufferManager N D} {op : PoolOp N}
    {outcome : Except Error (Option (Fin N))} (ended : op.run bm = some (outcome, bm')) :
    Call bm op outcome bm' := by
  cases op with
  | request pageId =>
      rcases request_cases bm pageId with ⟨frame, cached, returned⟩ |
        ⟨absent, rest, frame, available, returned⟩ |
        ⟨absent, full, frame, policy, chosen, returned⟩ | ⟨_, _, _, thrown⟩
      · obtain ⟨rfl, rfl⟩ := outcome_of_returns returned ended
        exact .hit cached
      · obtain ⟨rfl, rfl⟩ := outcome_of_returns returned ended
        exact .free absent available
      · obtain ⟨rfl, rfl⟩ := outcome_of_returns returned ended
        exact .evict absent full chosen
      · obtain ⟨rfl, rfl⟩ := outcome_of_throws thrown ended
        exact .refused _ _
  | release pageId =>
      cases cached : bm.pageTable pageId with
      | none =>
          obtain ⟨rfl, rfl⟩ := outcome_of_throws (release_uncached bm pageId cached) ended
          exact .refused _ _
      | some frame =>
          by_cases pinned : 0 < (bm.pool frame).pinCount
          · obtain ⟨rfl, rfl⟩ :=
              outcome_of_returns (release_pinned bm pageId frame cached pinned) ended
            exact .release cached pinned
          · obtain ⟨rfl, rfl⟩ := outcome_of_throws
              (release_unpinned bm pageId frame cached (by omega)) ended
            exact .refused _ _
  | markDirty frame =>
      cases ended
      exact .markDirty frame
  | write pageId frame page =>
      have stored : ((bm.setFrame frame fun f => { f with data := page }).setFrame frame
          fun f => { f with dirty := true }) = bm.written frame page := by
        simp [setFrame, written]
      change some (Except.ok none, (bm.setFrame frame fun f => { f with data := page }).setFrame frame
        fun f => { f with dirty := true }) = some (outcome, bm') at ended
      rw [stored] at ended
      cases ended
      exact .write pageId frame page
  | flushAll =>
      obtain ⟨rfl, rfl⟩ := outcome_of_returns (flushAll_returns bm) ended
      exact .flushAll

end BufferManager

end RelationalDb
