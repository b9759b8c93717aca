import RelationalDb.Executor.PlanState
import RelationalDb.Executor.SeqScanOp
import RelationalDb.Model.TableManager

set_option autoImplicit false

namespace RelationalDb

/-- `Expr`. It is stored by value, so the members of its subclasses are cut off. -/
structure Expr where
  deriving DecidableEq

/-- The nodes of a `LogicalPlan` with their members. -/
inductive LogicalPlan where
  | logicalScan (tableName : List UInt8)
  | logicalFilter (child : LogicalPlan) (pred : Expr)
  | logicalProject (child : LogicalPlan) (columns : List (List UInt8))
  | logicalLimit (child : LogicalPlan) (limit : Nat)

/-- The functions that the planner declares and calls and nobody defines. The last two take the
project node. -/
structure PlannerCalls where
  compilePredicate : Expr → Except Error (Tuple → Bool)
  buildOutputSchema : LogicalPlan → List (List UInt8) → Except Error Schema
  columnsToPositions : LogicalPlan → List (List UInt8) → Except Error (Finset UInt16)

namespace LogicalPlan

/-- The table at the leaf. -/
def tableName : LogicalPlan → List UInt8
  | logicalScan tableName => tableName
  | logicalFilter child _ => child.tableName
  | logicalProject child _ => child.tableName
  | logicalLimit child _ => child.tableName

/-- What a plan stands for on the rows of its table, or on the reason why there are none. -/
def meaning (calls : PlannerCalls) : LogicalPlan → Except Error (List Tuple) →
    Except Error (List Tuple)
  | logicalScan _, rows => rows
  | logicalFilter child pred, rows => do
      let keep ← calls.compilePredicate pred
      let below ← child.meaning calls rows
      return below.filter keep
  | logicalProject child columns, rows => do
      let below ← child.meaning calls rows
      let outSchema ← calls.buildOutputSchema child columns
      let colPos ← calls.columnsToPositions child columns
      return below.map (projected colPos outSchema)
  | logicalLimit child limit, rows => do
      let below ← child.meaning calls rows
      return below.take limit

end LogicalPlan

namespace PhysicalPlanner

open LogicalPlan

variable {N : Nat}

/-- `Build`: the table at the leaf and the operators over its scan. -/
def build (calls : PlannerCalls) : LogicalPlan → Program (TableManager N) Error (UserTable × Plan)
  | logicalScan tableName => do
      let table ← TableManager.openTable tableName
      return (table, .leaf)
  | logicalFilter child pred => do
      let pred ← Program.ofExcept (calls.compilePredicate pred)
      let childOp ← build calls child
      return (childOp.1, .filterOp childOp.2 pred)
  | logicalProject child columns => do
      let childOp ← build calls child
      let schema ← Program.ofExcept (calls.buildOutputSchema child columns)
      let colPos ← Program.ofExcept (calls.columnsToPositions child columns)
      return (childOp.1, .projectionOp childOp.2 colPos schema)
  | logicalLimit child limit => do
      let childOp ← build calls child
      return (childOp.1, .limitOp childOp.2 limit)

def withPool (manager : TableManager N) (bm : BufferManager N DiskManager) : TableManager N :=
  manager.setCatalog (manager.catalog.setPool bm)

/-- `ExecuteAndCollect` of operators over the scan of a table; `it` is what the iterator of the
scan happens to be. -/
def collect (table : UserTable) (plan : Plan) (it : HeapIterator) :
    Program (TableManager N) Error (List Tuple) :=
  Program.within (fun manager => plan.fresh ⟨manager.catalog.world.bm, it⟩)
    (fun manager state => withPool manager (plan.leafState state).bm)
    (Executor.executeAndCollect (seqScanOp ⟨table.hf, table.decode⟩) plan)

/-- An `Executor` on what `Build` makes of a plan. -/
def query (calls : PlannerCalls) (it : HeapIterator) (plan : LogicalPlan) :
    Program (TableManager N) Error (List Tuple) := do
  let built ← build calls plan
  collect built.1 built.2 it

/-- How `Build` ends, by how `OpenTable` ends. What it makes means what the plan means. -/
structure Builds (calls : PlannerCalls) (plan : LogicalPlan) (manager : TableManager N)
    (opened : Except Error UserTable) (manager₁ : TableManager N)
    (built : Except Error (UserTable × Plan)) (after : TableManager N) : Prop where
  ended : build calls plan manager = some (built, after)
  state : after = manager₁ ∨ after = manager ∧ ∃ reason, built = .error reason
  table : ∀ made, built = .ok made → opened = .ok made.1
  means : ∀ rows : UserTable → List Tuple, plan.meaning calls (opened.map rows) =
    built.map fun made => Plan.denotation made.2 (rows made.1)

variable {calls : PlannerCalls} {plan child : LogicalPlan} {manager manager₁ : TableManager N}
  {opened : Except Error UserTable} {reason : Error} {after : TableManager N}

/-- A failure below is a failure of the whole. -/
theorem Builds.failed {outer : LogicalPlan}
    (below : Builds calls child manager opened manager₁ (.error reason) after)
    (ended : build calls outer manager = some (.error reason, after))
    (means : ∀ rows, child.meaning calls rows = .error reason →
      outer.meaning calls rows = .error reason) :
    Builds calls outer manager opened manager₁ (.error reason) after := by
  refine ⟨ended, below.state, fun made same => (by cases same), fun rows => ?_⟩
  exact means _ (below.means rows)

theorem Builds.onTop {outer : LogicalPlan} {childOp : UserTable × Plan} (op : Plan)
    (meaning : List Tuple → List Tuple)
    (below : Builds calls child manager opened manager₁ (.ok childOp) after)
    (ended : build calls outer manager = some (.ok (childOp.1, op), after))
    (means : ∀ rows inner, child.meaning calls rows = .ok inner →
      outer.meaning calls rows = .ok (meaning inner))
    (denotes : ∀ rows, op.denotation rows = meaning (Plan.denotation childOp.2 rows)) :
    Builds calls outer manager opened manager₁ (.ok (childOp.1, op)) after := by
  refine ⟨ended, ?_, ?_, ?_⟩
  · rcases below.state with same | ⟨_, reason, impossible⟩
    · exact Or.inl same
    · cases impossible
  · intro made same
    cases same
    exact below.table childOp rfl
  · intro rows
    rw [means _ _ (below.means rows), Except.map, denotes]

theorem Builds.refused {outer : LogicalPlan} {childOp : UserTable × Plan} (reason : Error)
    (below : Builds calls child manager opened manager₁ (.ok childOp) after)
    (ended : build calls outer manager = some (.error reason, after))
    (means : ∀ rows inner, child.meaning calls rows = .ok inner →
      outer.meaning calls rows = .error reason) :
    Builds calls outer manager opened manager₁ (.error reason) after := by
  refine ⟨ended, ?_, fun made same => (by cases same), fun rows => means _ _ (below.means rows)⟩
  rcases below.state with same | ⟨_, reason, impossible⟩
  · exact Or.inl same
  · cases impossible

theorem Builds.filter {built : Except Error (UserTable × Plan)} (pred : Expr)
    (below : Builds calls child manager opened manager₁ built after) :
    ∃ built' after', Builds calls (.logicalFilter child pred) manager opened manager₁ built'
      after' := by
  cases compiled : calls.compilePredicate pred with
  | error reason =>
      have ended : build calls (.logicalFilter child pred) manager =
          some (.error reason, manager) := by
        simp only [build, Bind.bind, Program.ofExcept, compiled]
      refine ⟨_, _, ended, Or.inr ⟨rfl, reason, rfl⟩, fun made same => (by cases same),
        fun rows => ?_⟩
      simp only [meaning, compiled, Bind.bind, Except.bind, Except.map]
  | ok keep =>
      cases built with
      | error reason =>
          refine ⟨_, _, below.failed ?_ ?_⟩
          · simp only [build, Bind.bind, Program.ofExcept, compiled, below.ended]
          · intro rows failed
            simp only [meaning, compiled, failed, Bind.bind, Except.bind]
      | ok childOp =>
          refine ⟨_, _, below.onTop (.filterOp childOp.2 keep) (·.filter keep)
            ?_ ?_ fun rows => rfl⟩
          · simp only [build, Bind.bind, Program.ofExcept, compiled, below.ended, pure]
          · intro rows inner same
            simp only [meaning, compiled, same, Bind.bind, Except.bind, pure, Except.pure]

theorem Builds.project {built : Except Error (UserTable × Plan)} (columns : List (List UInt8))
    (below : Builds calls child manager opened manager₁ built after) :
    ∃ built' after', Builds calls (.logicalProject child columns) manager opened manager₁ built'
      after' := by
  cases built with
  | error reason =>
      refine ⟨_, _, below.failed ?_ ?_⟩
      · simp only [build, Bind.bind, below.ended]
      · intro rows failed
        simp only [meaning, failed, Bind.bind, Except.bind]
  | ok childOp =>
      cases schema : calls.buildOutputSchema child columns with
      | error reason =>
          refine ⟨_, _, below.refused reason ?_ ?_⟩
          · simp only [build, Bind.bind, Program.ofExcept, schema, below.ended]
          · intro rows inner same
            simp only [meaning, same, schema, Bind.bind, Except.bind]
      | ok outSchema =>
          cases positions : calls.columnsToPositions child columns with
          | error reason =>
              refine ⟨_, _, below.refused reason ?_ ?_⟩
              · simp only [build, Bind.bind, Program.ofExcept, schema, positions, below.ended]
              · intro rows inner same
                simp only [meaning, same, schema, positions, Bind.bind, Except.bind]
          | ok colPos =>
              refine ⟨_, _, below.onTop (.projectionOp childOp.2 colPos outSchema)
                (·.map (projected colPos outSchema)) ?_ ?_ fun rows => rfl⟩
              · simp only [build, Bind.bind, Program.ofExcept, schema, positions, below.ended, pure]
              · intro rows inner same
                simp only [meaning, same, schema, positions, Bind.bind, Except.bind, pure,
                  Except.pure]

theorem Builds.limit {built : Except Error (UserTable × Plan)} (limit : Nat)
    (below : Builds calls child manager opened manager₁ built after) :
    ∃ built' after', Builds calls (.logicalLimit child limit) manager opened manager₁ built'
      after' := by
  cases built with
  | error reason =>
      refine ⟨_, _, below.failed ?_ ?_⟩
      · simp only [build, Bind.bind, below.ended]
      · intro rows failed
        simp only [meaning, failed, Bind.bind, Except.bind]
  | ok childOp =>
      refine ⟨_, _, below.onTop (.limitOp childOp.2 limit) (·.take limit)
        ?_ ?_ fun rows => rfl⟩
      · simp only [build, Bind.bind, below.ended, pure]
      · intro rows inner same
        simp only [meaning, same, Bind.bind, Except.bind, pure, Except.pure]

/-- `Build` opens the table of the plan and makes operators that mean what the plan means. -/
theorem builds (calls : PlannerCalls) (plan : LogicalPlan)
    (opens : TableManager.openTable plan.tableName manager = some (opened, manager₁)) :
    ∃ built after, Builds calls plan manager opened manager₁ built after := by
  induction plan with
  | logicalScan name =>
      have ended : build calls (.logicalScan name) manager =
          some (opened.map fun table => (table, Plan.leaf), manager₁) :=
        Program.answer_eq_some.mpr ⟨opened, opens, rfl⟩
      refine ⟨_, _, ended, Or.inl rfl, ?_, ?_⟩
      · intro made same
        cases opened with
        | error reason => cases same
        | ok table =>
            cases same
            rfl
      · intro rows
        cases opened with
        | error reason => rfl
        | ok table => rfl
  | logicalFilter child pred ih =>
      obtain ⟨_, _, below⟩ := ih opens
      exact below.filter pred
  | logicalProject child columns ih =>
      obtain ⟨_, _, below⟩ := ih opens
      exact below.project columns
  | logicalLimit child limit ih =>
      obtain ⟨_, _, below⟩ := ih opens
      exact below.limit limit

end PhysicalPlanner

end RelationalDb
