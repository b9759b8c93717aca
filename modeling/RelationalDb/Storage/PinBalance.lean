import RelationalDb.Storage.PageTable
import RelationalDb.Storage.PoolCalls

set_option autoImplicit false

namespace RelationalDb

/-- What `request` throws when every frame is pinned. -/
def noCandidates : Error :=
  .runtimeError "BufferManager::evict(): no eviction candidates (all frames pinned)"

namespace BufferManager

open Program (Ensures Ends)

variable {N : Nat}

def Holds (bm : BufferManager N DiskManager) (held : Option (Fin N)) : Prop :=
  ∀ frame, (bm.pool frame).pinCount = if held = some frame then 1 else 0

/-- The pool while the page is open in the frame. -/
structure Holding (bm : BufferManager N DiskManager) (pageId : Int) (frame : Fin N) : Prop where
  held : bm.Holds (some frame)
  cached : bm.pageTable pageId = some frame

/-- At most one frame is pinned at the moment, and none when a victim is looked for. -/
structure Tight (moment : Moment (poolCalls N)) : Prop where
  one : ∀ frame other, (moment.before.pool frame).pinCount ≠ 0 →
    (moment.before.pool other).pinCount ≠ 0 → frame = other
  evictable : moment.call = .chooseVictim → ∀ frame, (moment.before.pool frame).pinCount = 0

/-- Every moment of the program is tight. -/
abbrev Keeping {σ α : Type} {part : σ → BufferManager N DiskManager} {program : Program σ Error α}
    (pre : σ → Prop) (code : PoolCode part program) (post : Except Error α → σ → Prop) : Prop :=
  Ensures (fun _ : Moment (poolCalls N) => True) Tight pre code post

theorem Holds.one {bm : BufferManager N DiskManager} {held : Option (Fin N)} (holds : bm.Holds held)
    {frame : Fin N} (pinned : (bm.pool frame).pinCount ≠ 0) : held = some frame := by
  by_contra other
  rw [holds frame, if_neg other] at pinned
  exact pinned rfl

theorem Holds.tight {bm : BufferManager N DiskManager} {held : Option (Fin N)} (holds : bm.Holds held)
    {call : PoolCall N} (free : call = .chooseVictim → held = none) : Tight ⟨bm, call⟩ := by
  refine ⟨fun frame other pinned alsoPinned => ?_, fun chooses frame => ?_⟩
  · have same := (holds.one pinned).symm.trans (holds.one alsoPinned)
    simpa using same
  · rw [holds frame, free chooses]
    simp

section Calls

variable {bm : BufferManager N DiskManager} {held : Option (Fin N)} {pageId : Int} {frame : Fin N}

/-- A call in a pool that holds at most one frame, with its normal end. -/
theorem keeping_call (call : PoolCall N) {pre : BufferManager N DiskManager → Prop}
    {post : call.Result → BufferManager N DiskManager → Prop}
    (holds : ∀ bm, pre bm → ∃ held, bm.Holds held ∧ (call = .chooseVictim → held = none))
    (ends : ∀ bm, pre bm → ∃ value bm', call.run.Returns bm value bm' ∧ post value bm') :
    Keeping pre call.code (Ends post) := by
  refine Ensures.call ?_ ?_
  · intro bm begins
    obtain ⟨held, pins, free⟩ := holds bm begins
    exact pins.tight free
  · intro bm outcome bm' begins _ ended
    obtain ⟨value, after, returned, reached⟩ := ends bm begins
    rw [show (poolCalls N).run call bm = some (.ok value, after) from returned] at ended
    cases ended
    exact reached

theorem Holds.pinned (unpinned : bm.Holds none) (frame : Fin N) :
    (bm.setFrame frame fun f => { f with pinCount := toInt32 (f.pinCount + 1) }).Holds
      (some frame) := by
  have once : toInt32 1 = 1 := by decide
  intro other
  rw [pool_setFrame]
  by_cases same : other = frame
  · subst same
    simp [unpinned other, once]
  · have apart : ¬ frame = other := fun equal => same equal.symm
    simp [same, apart, unpinned other]

theorem Holds.unpinned (held : bm.Holds (some frame)) :
    (bm.setFrame frame fun f => { f with pinCount := toInt32 (f.pinCount - 1) }).Holds none := by
  have never : toInt32 0 = 0 := by decide
  intro other
  rw [pool_setFrame]
  by_cases same : other = frame
  · subst same
    simp [held other, never]
  · have apart : ¬ frame = other := fun equal => same equal.symm
    simp [same, apart, held other]

theorem pin_keeping (table : (Int → Option (Fin N)) → Prop) (frame : Fin N) :
    Keeping (fun bm => bm.Holds none ∧ table bm.pageTable) (PoolCall.pin frame).code
      (Ends fun _ bm => bm.Holds (some frame) ∧ table bm.pageTable) := by
  refine keeping_call (.pin frame) (fun bm begins => ⟨none, begins.1, fun _ => rfl⟩) ?_
  intro bm begins
  exact ⟨⟨⟩, _, rfl, begins.1.pinned frame, begins.2⟩

theorem unpin_keeping (frame : Fin N) :
    Keeping (fun bm => bm.Holds (some frame)) (PoolCall.unpin frame).code
      (Ends fun _ bm => bm.Holds none) := by
  refine keeping_call (.unpin frame) (fun bm begins => ⟨_, begins, ?_⟩) ?_
  · intro chooses
    cases chooses
  intro bm begins
  exact ⟨⟨⟩, _, rfl, begins.unpinned⟩

theorem pinCount_setFrame (bm : BufferManager N DiskManager) (frame : Fin N)
    (change : Frame → Frame) (same : ∀ f, (change f).pinCount = f.pinCount) (other : Fin N) :
    ((bm.setFrame frame change).pool other).pinCount = (bm.pool other).pinCount := by
  rw [pool_setFrame]
  split
  · rename_i here
    rw [same, here]
  · rfl

theorem read_keeping (pageId : Int) (frame : Fin N) :
    Keeping (fun bm => bm.Holds (some frame)) (PoolCall.read pageId frame).code
      (Ends fun _ bm => bm.Holding pageId frame) := by
  refine keeping_call (.read pageId frame) (fun bm begins => ⟨_, begins, ?_⟩) ?_
  · intro chooses
    cases chooses
  · intro bm begins
    have same := pinCount_setFrame (bm.mapPage pageId (some frame)) frame (fun f => { f with
      data := readPage bm.disk pageId (bm.pool frame).data, pageId := pageId, dirty := false })
      fun _ => rfl
    exact ⟨⟨⟩, _, rfl, fun other => (same other).trans (begins other), Function.update_self _ _ _⟩

/-- No call throws, and only two kinds of calls change a pin count. -/
theorem run_pins {call : PoolCall N} (still : call.pins = false) (bm : BufferManager N DiskManager) :
    ∃ value bm', call.run.Returns bm value bm' ∧
      (∀ frame, (bm'.pool frame).pinCount = (bm.pool frame).pinCount) ∧
      (call.maps = false → bm'.pageTable = bm.pageTable) := by
  cases call with
  | pin frame => cases still
  | unpin frame => cases still
  | markDirty frame =>
      have same := pinCount_setFrame bm frame (fun f => { f with dirty := true }) fun _ => rfl
      exact ⟨⟨⟩, _, rfl, same, fun _ => rfl⟩
  | modifyData frame change =>
      have same := pinCount_setFrame bm frame (fun f => { f with data := change f.data }) fun _ => rfl
      exact ⟨⟨⟩, _, rfl, same, fun _ => rfl⟩
  | tellPolicy change => exact ⟨⟨⟩, _, rfl, fun _ => rfl, fun _ => rfl⟩
  | takeFree => exact ⟨_, _, rfl, fun _ => rfl, fun _ => rfl⟩
  | chooseVictim => exact ⟨_, _, rfl, fun _ => rfl, fun _ => rfl⟩
  | flush frame =>
      have same := pinCount_setFrame bm frame (fun f => { f with dirty := false }) fun _ => rfl
      exact ⟨⟨⟩, _, rfl, same, fun _ => rfl⟩
  | erase pageId => exact ⟨⟨⟩, _, rfl, fun _ => rfl, fun maps => by cases maps⟩
  | reset frame =>
      have same := pinCount_setFrame bm frame
        (fun f => { f with pageId := invalidPageId, dirty := false }) fun _ => rfl
      exact ⟨⟨⟩, _, rfl, same, fun _ => rfl⟩
  | read pageId frame =>
      have same := pinCount_setFrame (bm.mapPage pageId (some frame)) frame (fun f => { f with
        data := readPage bm.disk pageId (bm.pool frame).data, pageId := pageId, dirty := false })
        fun _ => rfl
      exact ⟨⟨⟩, _, rfl, same, fun maps => by cases maps⟩
  | allocatePage => exact ⟨_, _, rfl, fun _ => rfl, fun _ => rfl⟩
  | writePage pageId page => exact ⟨⟨⟩, _, rfl, fun _ => rfl, fun _ => rfl⟩

theorem keeping_still (call : PoolCall N) (still : call.pins = false) :
    Keeping (fun bm => bm.Holds none) call.code (Ends fun _ bm => bm.Holds none) := by
  apply keeping_call call fun bm begins => ⟨none, begins, fun _ => rfl⟩
  intro bm begins
  obtain ⟨value, bm', returned, same, _⟩ := run_pins still bm
  exact ⟨value, bm', returned, fun frame => (same frame).trans (begins frame)⟩

theorem keeping_open (call : PoolCall N) (still : call.pins = false) (unmapped : call.maps = false)
    (stays : call ≠ .chooseVictim) :
    Keeping (fun bm => bm.Holding pageId frame) call.code
      (Ends fun _ bm => bm.Holding pageId frame) := by
  apply keeping_call call fun bm begins => ⟨_, begins.held, fun chooses => absurd chooses stays⟩
  intro bm begins
  obtain ⟨value, bm', returned, same, table⟩ := run_pins still bm
  refine ⟨value, bm', returned, fun other => (same other).trans (begins.held other), ?_⟩
  rw [table unmapped, begins.cached]

theorem readData_keeping (opened : Fin N) :
    Keeping (fun bm => bm.Holding pageId frame) (readDataCode opened)
      (Ends fun _ bm => bm.Holding pageId frame) := by
  apply Ensures.look
  intro start
  exact Ensures.pure fun bm begins => begins.2

theorem emptyFrame_keeping (frame : Fin N) :
    Keeping (fun bm => bm.Holds none) (emptyFrameCode frame) (Ends fun _ bm => bm.Holds none) :=
  (keeping_still (.reset frame) rfl).andThen fun _ => Ensures.pure fun _ begins => begins

theorem forgetPage_keeping (frame : Fin N) :
    Keeping (fun bm => bm.Holds none) (forgetPageCode frame) (Ends fun _ bm => bm.Holds none) := by
  refine Ensures.look fun start => Ensures.branch (fun _ => ?_) fun _ => ?_
  · exact ((keeping_still (.erase (start.pool frame).pageId) rfl).strengthen
      fun _ begins => begins.2).andThen fun _ => emptyFrame_keeping frame
  · exact (emptyFrame_keeping frame).strengthen fun _ begins => begins.2

theorem evictFrame_keeping (frame : Fin N) :
    Keeping (fun bm => bm.Holds none) (evictFrameCode frame) (Ends fun _ bm => bm.Holds none) := by
  refine Ensures.look fun start => Ensures.branch (fun pinned => ?_) fun _ => ?_
  · apply Ensures.throw
    rintro bm ⟨rfl, begins⟩
    exact pinned (begins frame)
  · refine Ensures.look fun start => Ensures.branch (fun _ => ?_) fun _ => ?_
    · exact ((keeping_still (.flush frame) rfl).strengthen fun _ begins => begins.2.2).andThen
        fun _ => forgetPage_keeping frame
    · exact (forgetPage_keeping frame).strengthen fun _ begins => begins.2.2

theorem evict_keeping [NeZero N] :
    Keeping (fun bm => bm.Holds none) (evictCode (N := N)) (Ends fun _ bm => bm.Holds none) := by
  have chosen : Keeping (fun bm : BufferManager N DiskManager => bm.Holds none)
      PoolCall.chooseVictim.code (Ends fun victim bm => victim.isSome ∧ bm.Holds none) := by
    apply keeping_call .chooseVictim fun bm begins => ⟨none, begins, fun _ => rfl⟩
    intro bm begins
    refine ⟨_, _, rfl, ?_, begins⟩
    rw [ClockPolicy.chooseVictim_isSome]
    exact ⟨0, begins 0⟩
  refine chosen.andThen fun victim => ?_
  cases victim with
  | none => exact Ensures.throw fun _ begins => by cases begins.1
  | some frame => exact (evictFrame_keeping frame).strengthen fun _ begins => begins.2

theorem obtainFrame_keeping [NeZero N] :
    Keeping (fun bm => bm.Holds none) (obtainFrameCode (N := N)) (Ends fun _ bm => bm.Holds none) := by
  refine (keeping_still .takeFree rfl).andThen fun free => ?_
  cases free with
  | some frame => exact Ensures.pure fun _ begins => begins
  | none => exact evict_keeping

theorem request_keeping [NeZero N] (pageId : Int) :
    Keeping (fun bm => bm.Holds none) (requestCode (N := N) pageId)
      (Ends fun frame bm => bm.Holding pageId frame) := by
  have told : ∀ (frame : Fin N) change, Keeping (fun bm => bm.Holding pageId frame)
      ((PoolCall.tellPolicy change).code.bind fun _ => .pure frame)
      (Ends fun frame bm => bm.Holding pageId frame) := fun frame change =>
    (keeping_open (.tellPolicy change) rfl rfl (by simp)).andThen fun _ =>
      Ensures.pure fun _ begins => begins
  refine Ensures.look fun start => ?_
  cases cached : start.pageTable pageId with
  | some frame =>
      have pinned := pin_keeping (fun table => table pageId = some frame) frame
      refine (pinned.strengthen ?_).andThen fun _ => ?_
      · rintro bm ⟨rfl, begins⟩
        exact ⟨begins, cached⟩
      · exact (told frame fun policy => policy.recordAccess frame).strengthen fun _ begins =>
          ⟨begins.1, begins.2⟩
  | none =>
      refine (obtainFrame_keeping.strengthen fun _ begins => begins.2).andThen fun frame => ?_
      have pinned := pin_keeping (fun _ : Int → Option (Fin N) => True) frame
      refine (pinned.strengthen fun _ begins => ⟨begins, trivial⟩).andThen fun _ => ?_
      refine ((read_keeping pageId frame).strengthen fun _ begins => begins.1).andThen fun _ => ?_
      exact told frame fun policy => policy.recordLoad frame

theorem release_keeping (pageId : Int) (frame : Fin N) :
    Keeping (fun bm => bm.Holding pageId frame) (releaseCode pageId)
      (Ends fun _ bm => bm.Holds none) := by
  refine Ensures.look fun start => ?_
  cases cached : start.pageTable pageId with
  | none =>
      apply Ensures.throw
      rintro bm ⟨rfl, begins⟩
      rw [begins.cached] at cached
      cases cached
  | some other =>
      have held : ∀ bm, bm = start ∧ bm.Holding pageId frame → bm.Holds (some other) := by
        rintro bm ⟨rfl, begins⟩
        rw [← cached, begins.cached]
        exact begins.held
      refine Ensures.look fun again => Ensures.branch (fun none => ?_) fun _ => ?_
      · apply Ensures.throw
        rintro bm ⟨rfl, begins⟩
        rw [held bm begins other] at none
        simp at none
      · refine ((unpin_keeping other).strengthen fun bm begins => held bm begins.2).andThen fun _ => ?_
        refine Ensures.look fun after => Ensures.branch (fun _ => ?_) fun _ => ?_
        · exact (keeping_still (.tellPolicy fun policy => policy.recordUnpin other) rfl).strengthen
            fun _ begins => begins.2
        · exact Ensures.pure fun _ begins => begins.2

/-- However an operation ends, nothing is pinned then, and no request was refused. -/
def Balanced {α : Type} (outcome : Except Error α) (bm : BufferManager N DiskManager) : Prop :=
  bm.Holds none ∧ outcome ≠ .error noCandidates

theorem Balanced.of_ends {α : Type} {outcome : Except Error α} {bm : BufferManager N DiskManager}
    (ends : Ends (fun _ bm => bm.Holds none) outcome bm) : Balanced outcome bm := by
  cases outcome with
  | ok value => exact ⟨ends, by simp⟩
  | error reason => exact ends.elim

/-- An operation that gives every page back. -/
def Balances {σ α : Type} {part : σ → BufferManager N DiskManager} {program : Program σ Error α}
    (code : PoolCode part program) : Prop :=
  Keeping (fun state => (part state).Holds none) code
    fun outcome state => Balanced outcome (part state)

/-- The rest of an operation that has a page open. -/
def Closes {α : Type} {program : Pool N DiskManager α} (pageId : Int) (frame : Fin N)
    (code : PoolCode id program) : Prop :=
  Keeping (fun bm => bm.Holding pageId frame) code Balanced

section Operations

variable {σ α β : Type} {part : σ → BufferManager N DiskManager} {program : Program σ Error α}
  {code : PoolCode part program}

namespace Balances

theorem pure (value : α) : Balances (.pure value : PoolCode part _) :=
  Ensures.pure fun _ begins => ⟨begins, by simp⟩

theorem throw {reason : Error} (other : reason ≠ noCandidates) :
    Balances (.throw reason : PoolCode part (Program.throw reason : Program σ Error α)) :=
  Ensures.throw fun _ begins => ⟨begins, by simpa using other⟩

theorem get : Balances (.get : PoolCode part _) :=
  Ensures.get fun _ begins => ⟨begins, by simp⟩

theorem aside {change : σ → σ} {apart : ∀ state, part (change state) = part state} :
    Balances (.aside change apart : PoolCode part _) :=
  Ensures.aside fun state begins => ⟨by rw [apart]; exact begins, by simp⟩

theorem bind {first : Program σ Error β} {next : β → Program σ Error α} {begin : PoolCode part first}
    {rest : ∀ value, PoolCode part (next value)} (begins : Balances begin)
    (goesOn : ∀ value, Balances (rest value)) : Balances (begin.bind rest) := by
  apply Ensures.bind begins
  · exact fun value => (goesOn value).strengthen fun _ ends => ends.1
  · rintro reason state ⟨ends, other⟩
    exact ⟨ends, fun same => other (by cases same; rfl)⟩

theorem branch {condition : Prop} [Decidable condition] {yes no : Program σ Error α}
    {taken : PoolCode part yes} {other : PoolCode part no} (holding : Balances taken)
    (failing : Balances other) :
    Balances (.branch taken other : PoolCode part (if condition then yes else no)) :=
  Ensures.branch (fun _ => holding) fun _ => failing

theorem loop {body : β → Program σ Error (β ⊕ α)} {turn : ∀ current, PoolCode part (body current)}
    (each : ∀ current, Balances (turn current)) (current : β) : Balances (.loop turn current) := by
  refine Ensures.loop (fun _ state => (part state).Holds none) (fun current => ?_) current
  refine (each current).weaken (fun _ begins => begins) ?_
  intro outcome state ends
  cases outcome with
  | ok turn =>
      cases turn with
      | inl next => exact ends.1
      | inr value => exact ⟨ends.1, by simp⟩
  | error reason => exact ⟨ends.1, fun same => ends.2 (by cases same; rfl)⟩

theorem within {τ : Type} {sub : τ → σ} {put : τ → σ → τ} (balances : Balances code)
    (back : ∀ state inner, sub (put state inner) = inner) : Balances (code.within sub put) := by
  refine Ensures.within balances (fun _ begins => begins) ?_
  intro state outcome inner _ ends
  show Balanced outcome (part (sub (put state inner)))
  rw [back]
  exact ends

/-- A part of an operation that ends normally without a page open. -/
theorem of_ends (ends : Keeping (fun state => (part state).Holds none) code
      (Ends fun _ state => (part state).Holds none)) : Balances code := by
  refine ends.weaken (fun _ begins => begins) fun outcome state reached => .of_ends ?_
  cases outcome with
  | ok value => exact reached
  | error reason => exact reached

/-- A request is followed by what gives the page back. -/
theorem request [NeZero N] {next : Fin N → Pool N DiskManager α}
    {rest : ∀ frame, PoolCode id (next frame)} (pageId : Int)
    (closes : ∀ frame, Closes pageId frame (rest frame)) :
    Balances ((requestCode pageId).bind rest) :=
  (request_keeping pageId).andThen closes

end Balances

namespace Closes

/-- A call before the page is given back. -/
theorem step {first : Pool N DiskManager β} {next : β → Pool N DiskManager α} {begin : PoolCode id first}
    {rest : ∀ value, PoolCode id (next value)}
    (still : Keeping (fun bm => bm.Holding pageId frame) begin
      (Ends fun _ bm => bm.Holding pageId frame))
    (closes : ∀ value, Closes pageId frame (rest value)) : Closes pageId frame (begin.bind rest) :=
  still.andThen closes

theorem branch {condition : Prop} [Decidable condition] {yes no : Pool N DiskManager α}
    {taken : PoolCode id yes} {other : PoolCode id no} (holding : Closes pageId frame taken)
    (failing : Closes pageId frame other) :
    Closes pageId frame (.branch taken other : PoolCode id (if condition then yes else no)) :=
  Ensures.branch (fun _ => holding) fun _ => failing

theorem markDirty {next : Unit → Pool N DiskManager α} {rest : ∀ value, PoolCode id (next value)}
    (opened : Fin N) (closes : ∀ value, Closes pageId frame (rest value)) :
    Closes pageId frame ((PoolCall.markDirty opened).code.bind rest) :=
  step (keeping_open (.markDirty opened) rfl rfl (by simp)) closes

theorem modifyData {next : Unit → Pool N DiskManager α} {rest : ∀ value, PoolCode id (next value)}
    (opened : Fin N) (change : Page → Page) (closes : ∀ value, Closes pageId frame (rest value)) :
    Closes pageId frame ((PoolCall.modifyData opened change).code.bind rest) :=
  step (keeping_open (.modifyData opened change) rfl rfl (by simp)) closes

theorem readData {next : Page → Pool N DiskManager α} {rest : ∀ page, PoolCode id (next page)}
    (opened : Fin N) (closes : ∀ page, Closes pageId frame (rest page)) :
    Closes pageId frame ((readDataCode opened).bind rest) :=
  step (readData_keeping opened) closes

theorem release {next : Unit → Pool N DiskManager α} {rest : ∀ value, PoolCode id (next value)}
    (balances : ∀ value, Balances (rest value)) :
    Closes pageId frame ((releaseCode pageId).bind rest) :=
  (release_keeping pageId frame).andThen balances

theorem last : Closes pageId frame (releaseCode pageId) :=
  (release_keeping pageId frame).weaken (fun _ begins => begins) fun _ _ ends => .of_ends ends

end Closes

theorem flushIfDirty_balances (frame : Fin N) : Balances (flushIfDirtyCode frame) :=
  Balances.get.bind fun _ => .branch (.of_ends (keeping_still (.flush frame) rfl)) (.pure _)

theorem flushFrames_balances (frames : List (Fin N)) : Balances (flushFramesCode frames) := by
  induction frames with
  | nil => exact .pure _
  | cons frame frames ih => exact (flushIfDirty_balances frame).bind fun _ => ih

theorem flushAll_balances : Balances (flushAllCode (N := N)) :=
  flushFrames_balances (List.finRange N)

end Operations

end Calls

end BufferManager

end RelationalDb
