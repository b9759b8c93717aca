import RelationalDb.Program

set_option autoImplicit false

namespace RelationalDb

/-- The single calls that programs on a state `σ` are made of. -/
structure Calls (σ ε : Type) where
  Call : Type
  Result : Call → Type
  run : (call : Call) → Program σ ε (Result call)

/-- A call and the state it is made in. -/
structure Moment {σ ε : Type} (calls : Calls σ ε) where
  before : σ
  call : calls.Call

namespace Program

variable {ω ε : Type}

/-- A program written out in calls. It sees the state of the calls as a part of its own and
changes that part through calls only. -/
inductive Code (calls : Calls ω ε) :
    {σ : Type} → (σ → ω) → {α : Type} → Program σ ε α → Type 1
  | pure {σ α : Type} {part : σ → ω} (value : α) :
      Code calls part (Pure.pure value : Program σ ε α)
  | throw {σ α : Type} {part : σ → ω} (reason : ε) :
      Code calls part (Program.throw reason : Program σ ε α)
  | never {σ α : Type} {part : σ → ω} : Code calls part (fun _ => none : Program σ ε α)
  | get {σ : Type} {part : σ → ω} : Code calls part (MonadState.get : Program σ ε σ)
  | aside {σ : Type} {part : σ → ω} (change : σ → σ)
      (apart : ∀ state, part (change state) = part state) :
      Code calls part (modify change : Program σ ε PUnit)
  | call (call : calls.Call) : Code calls id (calls.run call)
  | bind {σ α β : Type} {part : σ → ω} {first : Program σ ε α} {next : α → Program σ ε β}
      (begins : Code calls part first) (goesOn : ∀ value, Code calls part (next value)) :
      Code calls part (first >>= next)
  | branch {σ α : Type} {part : σ → ω} {condition : Prop} [Decidable condition]
      {yes no : Program σ ε α} (taken : Code calls part yes) (other : Code calls part no) :
      Code calls part (if condition then yes else no)
  | loop {σ α β : Type} {part : σ → ω} {body : β → Program σ ε (β ⊕ α)}
      (turn : ∀ current, Code calls part (body current)) (start : β) :
      Code calls part (Program.loop body start)
  | within {σ τ α : Type} {part : σ → ω} {program : Program σ ε α} (sub : τ → σ)
      (put : τ → σ → τ) (inside : Code calls part program) :
      Code calls (fun whole => part (sub whole)) (Program.within sub put program)

namespace Code

variable {calls : Calls ω ε} {σ α β : Type} {part : σ → ω}

/-- The program with a list of the calls it has made. -/
def recorded {σ α : Type} {part : σ → ω} {program : Program σ ε α} :
    Code calls part program → Program (σ × List (Moment calls)) ε α
  | pure value => Pure.pure value
  | throw reason => Program.throw reason
  | never => fun _ => none
  | get => fun whole => some (.ok whole.1, whole)
  | aside change _ => modify fun whole => (change whole.1, whole.2)
  | call made => fun whole => (calls.run made whole.1).map fun ended =>
      (ended.1, (ended.2, whole.2 ++ [⟨whole.1, made⟩]))
  | bind begins goesOn => begins.recorded >>= fun value => (goesOn value).recorded
  | @branch _ _ _ _ _ _ condition _ _ _ taken other =>
      if condition then taken.recorded else other.recorded
  | loop turn start => Program.loop (fun current => (turn current).recorded) start
  | within sub put inside => fun whole =>
      (inside.recorded (sub whole.1, whole.2)).map fun ended =>
        (ended.1, (put whole.1 ended.2.1, ended.2.2))

def assert : (holds : Bool) → Code calls part (Program.assert holds : Program σ ε Unit)
  | true => pure ()
  | false => never

def ofOption : (value : Option α) → Code calls part (Program.ofOption value : Program σ ε α)
  | some found => pure found
  | none => never

/-- Started in `state` the program makes the calls of the list, in this order, and ends so. -/
def Goes {program : Program σ ε α} (code : Code calls part program) (state : σ)
    (moments : List (Moment calls)) (outcome : Except ε α) (state' : σ) : Prop :=
  ∀ log, code.recorded (state, log) = some (outcome, (state', log ++ moments))

namespace Goes

variable {program : Program σ ε α} {code : Code calls part program} {state state' state'' : σ}
  {moments later : List (Moment calls)} {outcome : Except ε α}

/-- The calls of a program are fixed by its start. -/
theorem unique {other : Except ε α} (first : code.Goes state moments outcome state')
    (second : code.Goes state later other state'') :
    moments = later ∧ outcome = other ∧ state' = state'' := by
  have same := (first []).symm.trans (second [])
  rw [Option.some.injEq, Prod.mk.injEq, Prod.mk.injEq] at same
  exact ⟨same.2.2, same.1, same.2.1⟩

theorem bind {first : Program σ ε β} {next : β → Program σ ε α} {begins : Code calls part first}
    {goesOn : ∀ value, Code calls part (next value)} {value : β}
    (reached : begins.Goes state moments (.ok value) state')
    (rest : (goesOn value).Goes state' later outcome state'') :
    (begins.bind goesOn).Goes state (moments ++ later) outcome state'' := by
  intro log
  have ended : (begins.recorded >>= fun value => (goesOn value).recorded) (state, log) =
      (goesOn value).recorded (state', log ++ moments) := Returns.bind_eq (reached log)
  rw [← List.append_assoc, ← rest (log ++ moments)]
  exact ended

theorem stop {first : Program σ ε β} {next : β → Program σ ε α} {begins : Code calls part first}
    {goesOn : ∀ value, Code calls part (next value)} {reason : ε}
    (thrown : begins.Goes state moments (.error reason) state') :
    (begins.bind goesOn).Goes state moments (.error reason) state' := by
  intro log
  have ended : Throws (begins.recorded >>= fun value => (goesOn value).recorded) (state, log) reason
      (state', log ++ moments) := Throws.bind (thrown log)
  exact ended

theorem within {τ : Type} {sub : τ → σ} {put : τ → σ → τ} {whole : τ}
    (inside : code.Goes (sub whole) moments outcome state') :
    (code.within sub put).Goes whole moments outcome (put whole state') := by
  intro log
  show ((code.recorded (sub whole, log)).map _) = _
  rw [inside log, Option.map_some]

section Loop

variable {body : β → Program σ ε (β ⊕ α)} {turn : ∀ current, Code calls part (body current)}
  {current next : β}

theorem again (reached : (turn current).Goes state moments (.ok (.inl next)) state')
    (rest : (loop turn next).Goes state' later outcome state'') :
    (loop turn current).Goes state (moments ++ later) outcome state'' := by
  intro log
  have turned : (loop turn current).recorded (state, log) =
      (loop turn next).recorded (state', log ++ moments) := loop_again (reached log)
  rw [← List.append_assoc, ← rest (log ++ moments)]
  exact turned

theorem exit {value : α} (left : (turn current).Goes state moments (.ok (.inr value)) state') :
    (loop turn current).Goes state moments (.ok value) state' := by
  intro log
  have ended : Returns (Program.loop (fun current => (turn current).recorded) current) (state, log)
      value (state', log ++ moments) := Returns.loop_exit (left log)
  exact ended

theorem throws {reason : ε} (thrown : (turn current).Goes state moments (.error reason) state') :
    (loop turn current).Goes state moments (.error reason) state' := by
  intro log
  have ended : Throws (Program.loop (fun current => (turn current).recorded) current) (state, log)
      reason (state', log ++ moments) := Throws.loop_exit (thrown log)
  exact ended

end Loop

end Goes

/-- Recording does not change how a program ends. -/
theorem goes_of_ended {program : Program σ ε α} (code : Code calls part program) {state state' : σ}
    {outcome : Except ε α} (ended : program state = some (outcome, state')) :
    ∃ moments, code.Goes state moments outcome state' := by
  induction code with
  | pure value =>
      cases ended
      exact ⟨[], fun log => by rw [List.append_nil]; rfl⟩
  | throw reason =>
      cases ended
      exact ⟨[], fun log => by rw [List.append_nil]; rfl⟩
  | never => cases ended
  | get =>
      cases ended
      exact ⟨[], fun log => by rw [List.append_nil]; rfl⟩
  | aside change apart =>
      cases ended
      exact ⟨[], fun log => by rw [List.append_nil]; rfl⟩
  | call made =>
      refine ⟨[⟨state, made⟩], fun log => ?_⟩
      show (calls.run made state).map _ = _
      rw [ended, Option.map_some]
  | bind begins goesOn ih ih' =>
      rcases bind_cases ended with ⟨value, middle, reached, rest⟩ | ⟨reason, thrown, rfl⟩
      · obtain ⟨moments, goes⟩ := ih reached
        obtain ⟨later, goes'⟩ := ih' value rest
        exact ⟨moments ++ later, goes.bind goes'⟩
      · obtain ⟨moments, goes⟩ := ih thrown
        exact ⟨moments, goes.stop⟩
  | @branch _ _ _ condition _ _ _ taken other ih ih' =>
      by_cases here : condition
      · rw [if_pos here] at ended
        obtain ⟨moments, goes⟩ := ih ended
        exact ⟨moments, fun log => by rw [recorded, if_pos here, goes log]⟩
      · rw [if_neg here] at ended
        obtain ⟨moments, goes⟩ := ih' ended
        exact ⟨moments, fun log => by rw [recorded, if_neg here, goes log]⟩
  | loop turn start ih =>
      refine loop_induct (motive := fun current state outcome state' =>
        ∃ moments, (loop turn current).Goes state moments outcome state') ?_ ?_ ?_ ended
      · intro current state reason state' thrown
        obtain ⟨moments, goes⟩ := ih current thrown
        exact ⟨moments, goes.throws⟩
      · intro current state value state' left
        obtain ⟨moments, goes⟩ := ih current left
        exact ⟨moments, goes.exit⟩
      · intro current state next state' outcome state'' reached rest
        obtain ⟨moments, goes⟩ := ih current reached
        obtain ⟨later, goes'⟩ := rest
        exact ⟨moments ++ later, goes.again goes'⟩
  | within sub put inside ih =>
      obtain ⟨inner, ended', rfl⟩ := within_eq_some.mp ended
      obtain ⟨moments, goes⟩ := ih ended'
      exact ⟨moments, goes.within⟩

end Code

variable {calls : Calls ω ε} {σ α β : Type} {part : σ → ω}

/-- `holds` is true at each of the moments as long as all the earlier ones were `allowed`. -/
def Kept (allowed holds : Moment calls → Prop) : List (Moment calls) → Prop
  | [] => True
  | moment :: later => holds moment ∧ (allowed moment → Kept allowed holds later)

theorem Kept.append {allowed holds : Moment calls → Prop} {moments later : List (Moment calls)}
    (first : Kept allowed holds moments)
    (rest : (∀ moment ∈ moments, allowed moment) → Kept allowed holds later) :
    Kept allowed holds (moments ++ later) := by
  induction moments with
  | nil => exact rest fun _ member => absurd member List.not_mem_nil
  | cons moment moments ih =>
      refine ⟨first.1, fun permitted => ih (first.2 permitted) fun all => rest ?_⟩
      intro other member
      rcases List.mem_cons.mp member with rfl | earlier
      · exact permitted
      · exact all other earlier

theorem Kept.mono {allowed holds holds' : Moment calls → Prop} {moments : List (Moment calls)}
    (kept : Kept allowed holds moments) (weaker : ∀ moment, holds moment → holds' moment) :
    Kept allowed holds' moments := by
  induction moments with
  | nil => trivial
  | cons moment moments ih => exact ⟨weaker moment kept.1, fun permitted => ih (kept.2 permitted)⟩

/-- What holds at a moment of the list if all before it were allowed. -/
theorem Kept.at {allowed holds : Moment calls → Prop} {before after : List (Moment calls)}
    {moment : Moment calls} (kept : Kept allowed holds (before ++ moment :: after))
    (all : ∀ earlier ∈ before, allowed earlier) : holds moment := by
  induction before with
  | nil => exact kept.1
  | cons first before ih =>
      exact ih (kept.2 (all first List.mem_cons_self)) fun earlier member =>
        all earlier (List.mem_cons_of_mem _ member)

theorem Kept.all {holds : Moment calls → Prop} {moments : List (Moment calls)}
    (kept : Kept (fun _ => True) holds moments) : ∀ moment ∈ moments, holds moment := by
  intro moment member
  obtain ⟨before, after, rfl⟩ := List.append_of_mem member
  exact kept.at fun _ _ => trivial

/-- A normal end. -/
def Ends (reaches : α → σ → Prop) : Except ε α → σ → Prop
  | .ok value, state => reaches value state
  | .error _, _ => False

/-- Started with `pre` the program keeps `holds` at its calls and ends with `post`, as long as
its calls are allowed. -/
def Ensures (allowed holds : Moment calls → Prop) (pre : σ → Prop) {program : Program σ ε α}
    (code : Code calls part program) (post : Except ε α → σ → Prop) : Prop :=
  ∀ state outcome state', pre state → program state = some (outcome, state') →
    ∃ moments, code.Goes state moments outcome state' ∧ Kept allowed holds moments ∧
      ((∀ moment ∈ moments, allowed moment) → post outcome state')

namespace Ensures

open Code (Goes)

variable {allowed holds : Moment calls → Prop} {pre pre' : σ → Prop}
  {post post' : Except ε α → σ → Prop} {program : Program σ ε α} {code : Code calls part program}

/-- What holds of the calls of a program. -/
theorem goes (ensures : Ensures allowed holds pre code post) {state state' : σ}
    {moments : List (Moment calls)} {outcome : Except ε α} (begins : pre state)
    (ended : program state = some (outcome, state')) (goes : code.Goes state moments outcome state') :
    Kept allowed holds moments ∧ ((∀ moment ∈ moments, allowed moment) → post outcome state') := by
  obtain ⟨known, goes', kept⟩ := ensures state outcome state' begins ended
  rw [(goes.unique goes').1]
  exact kept

theorem silent (goes : ∀ state outcome state', program state = some (outcome, state') →
      code.Goes state [] outcome state')
    (ends : ∀ state outcome state', program state = some (outcome, state') → pre state →
      post outcome state') : Ensures allowed holds pre code post := by
  intro state outcome state' begins ended
  exact ⟨[], goes state outcome state' ended, trivial, fun _ => ends state outcome state' ended begins⟩

theorem pure {value : α} (ends : ∀ state, pre state → post (.ok value) state) :
    Ensures allowed holds pre (.pure value : Code calls part _) post := by
  apply silent
  · intro state outcome state' ended log
    cases ended
    rw [List.append_nil]
    rfl
  · intro state outcome state' ended begins
    cases ended
    exact ends state begins

theorem throw {reason : ε} (ends : ∀ state, pre state → post (.error reason) state) :
    Ensures allowed holds pre (.throw reason : Code calls part _) post := by
  apply silent
  · intro state outcome state' ended log
    cases ended
    rw [List.append_nil]
    rfl
  · intro state outcome state' ended begins
    cases ended
    exact ends state begins

theorem get {post : Except ε σ → σ → Prop} (ends : ∀ state, pre state → post (.ok state) state) :
    Ensures allowed holds pre (.get : Code calls part _) post := by
  apply silent
  · intro state outcome state' ended log
    cases ended
    rw [List.append_nil]
    rfl
  · intro state outcome state' ended begins
    cases ended
    exact ends state begins

theorem aside {change : σ → σ} {apart : ∀ state, part (change state) = part state}
    {post : Except ε PUnit → σ → Prop} (ends : ∀ state, pre state → post (.ok ⟨⟩) (change state)) :
    Ensures allowed holds pre (.aside change apart : Code calls part _) post := by
  apply silent
  · intro state outcome state' ended log
    cases ended
    rw [List.append_nil]
    rfl
  · intro state outcome state' ended begins
    cases ended
    exact ends state begins

/-- What never ends ensures anything. -/
theorem never : Ensures allowed holds pre (.never : Code calls part _) post := by
  intro state outcome state' begins ended
  cases ended

theorem call {call : calls.Call} {pre : ω → Prop} {post : Except ε (calls.Result call) → ω → Prop}
    (held : ∀ state, pre state → holds ⟨state, call⟩)
    (ends : ∀ state outcome state', pre state → allowed ⟨state, call⟩ →
      calls.run call state = some (outcome, state') → post outcome state') :
    Ensures allowed holds pre (.call call) post := by
  intro state outcome state' begins ended
  refine ⟨[⟨state, call⟩], fun log => ?_, ⟨held state begins, fun _ => trivial⟩, fun all => ?_⟩
  · show (calls.run call state).map _ = _
    rw [ended, Option.map_some]
  · exact ends state outcome state' begins (all _ List.mem_cons_self) ended

theorem bind {first : Program σ ε β} {next : β → Program σ ε α} {code : Code calls part first}
    {rest : ∀ value, Code calls part (next value)} {middle : Except ε β → σ → Prop}
    (begins : Ensures allowed holds pre code middle)
    (goesOn : ∀ value, Ensures allowed holds (middle (.ok value)) (rest value) post)
    (stops : ∀ reason state, middle (.error reason) state → post (.error reason) state) :
    Ensures allowed holds pre (code.bind rest) post := by
  intro state outcome state'' initial ended
  rcases bind_cases ended with ⟨value, state', reached, after⟩ | ⟨reason, thrown, rfl⟩
  · obtain ⟨moments, goes, held, reaches⟩ := begins state (.ok value) state' initial reached
    by_cases all : ∀ moment ∈ moments, allowed moment
    · obtain ⟨later, goes', held', reaches'⟩ := goesOn value state' outcome state'' (reaches all) after
      refine ⟨moments ++ later, goes.bind goes', held.append fun _ => held', fun every => ?_⟩
      exact reaches' fun moment member => every moment (List.mem_append_right _ member)
    · -- A call was not allowed: nothing is promised of the rest.
      obtain ⟨later, goes'⟩ := Code.goes_of_ended (rest value) after
      refine ⟨moments ++ later, goes.bind goes', held.append fun every => (all every).elim, ?_⟩
      exact fun every => (all fun moment member => every moment (List.mem_append_left _ member)).elim
  · obtain ⟨moments, goes, held, reaches⟩ := begins state (.error reason) state'' initial thrown
    exact ⟨moments, goes.stop, held, fun all => stops reason state'' (reaches all)⟩

/-- The two cases of a condition. -/
theorem branch {condition : Prop} [Decidable condition] {yes no : Program σ ε α}
    {taken : Code calls part yes} {other : Code calls part no}
    (holding : condition → Ensures allowed holds pre taken post)
    (failing : ¬ condition → Ensures allowed holds pre other post) :
    Ensures allowed holds pre (.branch taken other : Code calls part (if condition then yes else no))
      post := by
  intro state outcome state' begins ended
  by_cases here : condition
  · rw [if_pos here] at ended
    obtain ⟨moments, goes, kept⟩ := holding here state outcome state' begins ended
    exact ⟨moments, fun log => by rw [Code.recorded, if_pos here, goes log], kept⟩
  · rw [if_neg here] at ended
    obtain ⟨moments, goes, kept⟩ := failing here state outcome state' begins ended
    exact ⟨moments, fun log => by rw [Code.recorded, if_neg here, goes log], kept⟩

theorem weaken (ensures : Ensures allowed holds pre code post) (begins : ∀ state, pre' state → pre state)
    (ends : ∀ outcome state, post outcome state → post' outcome state) :
    Ensures allowed holds pre' code post' := by
  intro state outcome state' initial ended
  obtain ⟨moments, goes, held, reaches⟩ := ensures state outcome state' (begins state initial) ended
  exact ⟨moments, goes, held, fun all => ends outcome state' (reaches all)⟩

theorem strengthen (ensures : Ensures allowed holds pre code post)
    (begins : ∀ state, pre' state → pre state) : Ensures allowed holds pre' code post :=
  ensures.weaken begins fun _ _ ends => ends

theorem unknown {ι : Type} {begin : ι → σ → Prop}
    (ensures : ∀ value, Ensures allowed holds (begin value) code post) :
    Ensures allowed holds (fun state => ∃ value, begin value state) code post := by
  intro state outcome state' initial ended
  obtain ⟨value, begins⟩ := initial
  exact ensures value state outcome state' begins ended

theorem absurd (never : ∀ state, ¬ pre state) : Ensures allowed holds pre code post :=
  fun state _ _ begins _ => (never state begins).elim

theorem andThen {first : Program σ ε β} {next : β → Program σ ε α} {code : Code calls part first}
    {rest : ∀ value, Code calls part (next value)} {middle : β → σ → Prop}
    (begins : Ensures allowed holds pre code (Ends middle))
    (goesOn : ∀ value, Ensures allowed holds (middle value) (rest value) post) :
    Ensures allowed holds pre (code.bind rest) post :=
  begins.bind goesOn fun _ _ impossible => impossible.elim

theorem andThenAt {first : Program σ ε β} {next : β → Program σ ε α} {code : Code calls part first}
    {rest : ∀ value, Code calls part (next value)} {known : β} {middle : σ → Prop}
    (begins : Ensures allowed holds pre code (Ends fun value state => value = known ∧ middle state))
    (goesOn : Ensures allowed holds middle (rest known) post) :
    Ensures allowed holds pre (code.bind rest) post := by
  refine begins.andThen fun value => ?_
  by_cases same : value = known
  · subst same
    exact goesOn.strengthen fun _ begins => begins.2
  · exact absurd fun _ begins => same begins.1

theorem look {next : σ → Program σ ε α} {rest : ∀ value, Code calls part (next value)}
    (goesOn : ∀ value, Ensures allowed holds (fun state => state = value ∧ pre state) (rest value)
      post) : Ensures allowed holds pre (Code.get.bind rest) post := by
  refine andThen ?_ goesOn
  exact get fun state begins => ⟨rfl, begins⟩

theorem knowing (ensures : Ensures allowed holds pre code post) (reaches : α → σ → Prop)
    (returns : ∀ state, pre state → ∃ value state', program.Returns state value state' ∧
      reaches value state') :
    Ensures allowed holds pre code
      (Ends fun value state => reaches value state ∧ post (.ok value) state) := by
  intro state outcome state' initial ended
  obtain ⟨moments, goes, held, reached⟩ := ensures state outcome state' initial ended
  refine ⟨moments, goes, held, ?_⟩
  obtain ⟨value, after, returned, known⟩ := returns state initial
  rw [show program state = some (.ok value, after) from returned] at ended
  cases ended
  exact fun all => ⟨known, reached all⟩

/-- How a turn of a loop ends. -/
def Turns (invariant : β → σ → Prop) (post : Except ε α → σ → Prop) : Except ε (β ⊕ α) → σ → Prop
  | .ok (.inl next), state => invariant next state
  | .ok (.inr value), state => post (.ok value) state
  | .error reason, state => post (.error reason) state

/-- The loop rule: what a turn keeps holds in all turns. -/
theorem loop {body : β → Program σ ε (β ⊕ α)} {turn : ∀ current, Code calls part (body current)}
    (invariant : β → σ → Prop)
    (kept : ∀ current, Ensures allowed holds (invariant current) (turn current) (Turns invariant post))
    (current : β) : Ensures allowed holds (invariant current) (.loop turn current) post := by
  intro state outcome state' initial ended
  have every : ∃ moments, (Code.loop turn current).Goes state moments outcome state' ∧
      (invariant current state → Kept allowed holds moments ∧
        ((∀ moment ∈ moments, allowed moment) → post outcome state')) := by
    refine loop_induct (motive := fun current state outcome state' =>
      ∃ moments, (Code.loop turn current).Goes state moments outcome state' ∧
        (invariant current state → Kept allowed holds moments ∧
          ((∀ moment ∈ moments, allowed moment) → post outcome state'))) ?_ ?_ ?_ ended
    · intro current state reason state' thrown
      obtain ⟨moments, goes⟩ := Code.goes_of_ended (turn current) thrown
      exact ⟨moments, goes.throws, fun begins => (kept current).goes begins thrown goes⟩
    · intro current state value state' left
      obtain ⟨moments, goes⟩ := Code.goes_of_ended (turn current) left
      exact ⟨moments, goes.exit, fun begins => (kept current).goes begins left goes⟩
    · intro current state next state' outcome state'' reached rest
      obtain ⟨moments, goes⟩ := Code.goes_of_ended (turn current) reached
      obtain ⟨later, goes', kept'⟩ := rest
      refine ⟨moments ++ later, goes.again goes', fun begins => ?_⟩
      obtain ⟨held, reaches⟩ := (kept current).goes begins reached goes
      refine ⟨held.append fun all => (kept' (reaches all)).1, fun all => ?_⟩
      exact (kept' (reaches fun moment member => all moment (List.mem_append_left _ member))).2
        fun moment member => all moment (List.mem_append_right _ member)
  obtain ⟨moments, goes, kept'⟩ := every
  exact ⟨moments, goes, kept' initial⟩

theorem within {τ : Type} {sub : τ → σ} {put : τ → σ → τ} {pre : τ → Prop}
    {post : Except ε α → τ → Prop} (ensures : Ensures allowed holds pre' code post')
    (begins : ∀ state, pre state → pre' (sub state))
    (ends : ∀ state outcome inner, pre state → post' outcome inner → post outcome (put state inner)) :
    Ensures allowed holds pre (code.within sub put) post := by
  intro state outcome state' initial ended
  obtain ⟨inner, inside, rfl⟩ := within_eq_some.mp ended
  obtain ⟨moments, goes, held, reaches⟩ := ensures (sub state) outcome inner (begins state initial) inside
  exact ⟨moments, goes.within, held, fun all => ends state outcome inner initial (reaches all)⟩

end Ensures

end Program

end RelationalDb
