import Mathlib.Data.List.ReduceOption
import RelationalDb.Executor.ScanPlan
import RelationalDb.Model.TableRows
import RelationalDb.Planner.PhysicalPlanner

set_option autoImplicit false

namespace RelationalDb.TableManager

open HeapFile
open BufferManager (Steady Roomy)
open PhysicalPlanner (query collect withPool Builds builds)

variable {N : Nat}

inductive SessionEvent (N : Nat) where
  | call (event : Event N)
  | query (it : HeapIterator) (plan : LogicalPlan) (outcome : Except Error (List Tuple))

/-- The calls of a session. A query opens its table. -/
def sessionCalls : List (SessionEvent N) → List (Event N)
  | [] => []
  | .call event :: log => event :: sessionCalls log
  | .query _ plan _ :: log => ⟨.openTable plan.tableName, .ok .done⟩ :: sessionCalls log

def sessionStep [NeZero N] (calls : PlannerCalls) (log : List (SessionEvent N))
    (manager : TableManager N) (event : SessionEvent N) (manager' : TableManager N) : Prop :=
  match event with
  | .call event => databaseStep (sessionCalls log) manager event manager'
  | .query it plan outcome => query calls it plan manager = some (outcome, manager')

/-- Runs of a database in which calls and queries come in any order. -/
abbrev SessionRun [NeZero N] (calls : PlannerCalls) (start : TableManager N) :
    List (SessionEvent N) → TableManager N → Prop :=
  Run (sessionStep calls) start

variable {manager manager' manager₁ : TableManager N} {s : HeapState} {names : List (List UInt8)}
  {ids : List Uuid} {rids : List (Nat × Rid)} {log : List (Event N)} {table : UserTable}
  {calls : PlannerCalls} {plan : LogicalPlan} {it : HeapIterator}

/-- A query has left the pages and the tables as they are. -/
theorem CacheState.queried (holds : CacheState log manager s) (name : List UInt8)
    (stands' : Stands manager' s (knownNames log) (knownIds log) (issued (heapEvents log)))
    (kept : CacheFrom s manager manager') :
    CacheState (⟨.openTable name, .ok .done⟩ :: log) manager' s := by
  refine ⟨⟨stands', holds.state.first, False.elim⟩, ?_, ?_⟩
  · intro name table present
    rcases kept name table present with cached | ⟨row, found, _⟩
    · exact holds.found name table cached
    · exact ⟨row, found⟩
  · intro distinct name table present
    rcases kept name table present with cached | loaded
    · exact holds.loaded distinct name table cached
    · exact loaded

theorem CacheState.opens (holds : CacheState log manager s) (name : List UInt8) :
    ∃ opened manager₁, openTable name manager = some (opened, manager₁) ∧
      CacheFrom s manager manager₁ ∧
      Stands manager₁ s (knownNames log) (knownIds log) (issued (heapEvents log)) ∧
      ∀ table, opened = .ok table → Cached s (knownNames log) name table := by
  rcases holds.state.stands.openTable_cases name with ⟨_, reason, after, thrown, kept, stands'⟩ |
    ⟨table, after, opened, _, kept, cached, stands'⟩
  · exact ⟨_, after, thrown, kept, stands', fun table same => by cases same⟩
  · refine ⟨_, after, opened, kept, stands', fun other same => ?_⟩
    cases same
    exact cached

theorem Stands.linked (stands : Stands manager s names ids rids) {name : List UInt8}
    (cached : Cached s names name table) :
    ∃ i, s.heaps[i]? = some table.hf ∧ Chain s.view table.hf.firstPageId (s.chain i) ∧
      (s.chain i).Nodup := by
  obtain ⟨i, present, _⟩ := cached.place
  have sound := stands.holds.shows.sound
  exact ⟨i, present, sound.linked i _ present, sound.nodup i⟩

/-- However a query ends, the pages and the tables are as they were. -/
theorem CacheState.query_leaves (holds : CacheState log manager s)
    {outcome : Except Error (List Tuple)}
    (ended : query calls it plan manager = some (outcome, manager')) :
    CacheState (⟨.openTable plan.tableName, .ok .done⟩ :: log) manager' s ∧
      manager'.catalog.world.heaps = manager.catalog.world.heaps := by
  obtain ⟨opened, manager₁, opens, kept, stands₁, cached⟩ := holds.opens plan.tableName
  obtain ⟨built, after, build⟩ := builds calls plan opens
  have heaps : ∀ manager' : TableManager N,
      Stands manager' s (knownNames log) (knownIds log) (issued (heapEvents log)) →
      manager'.catalog.world.heaps = manager.catalog.world.heaps := by
    intro manager' stands'
    have same := stands'.holds.shows.heaps.trans holds.state.stands.holds.shows.heaps.symm
    exact List.append_cancel_left same
  have left : ∀ after, after = manager₁ ∨ after = manager →
      CacheState (⟨.openTable plan.tableName, .ok .done⟩ :: log) after s ∧
        after.catalog.world.heaps = manager.catalog.world.heaps := by
    rintro after (rfl | rfl)
    · exact ⟨holds.queried _ stands₁ kept, heaps _ stands₁⟩
    · exact ⟨holds.queried _ holds.state.stands fun _ _ present => Or.inl present, rfl⟩
  unfold PhysicalPlanner.query at ended
  rcases Program.bind_cases ended with ⟨made, middle, reached, rest⟩ | ⟨reason, thrown, _⟩
  · unfold Program.Returns at reached
    rw [build.ended, Option.some.injEq, Prod.mk.injEq] at reached
    obtain ⟨rfl, rfl⟩ := reached
    have isOpen := build.table made rfl
    obtain ⟨i, present, linked, distinct⟩ := stands₁.linked (cached _ isOpen)
    have same : after = manager₁ := by
      rcases build.state with same | ⟨_, _, impossible⟩
      · exact same
      · cases impossible
    subst same
    obtain ⟨state', ran, rfl⟩ := Program.within_eq_some.mp rest
    have steady := SeqScanOp.plan_steady ⟨made.1.hf, made.1.decode⟩ made.2 it linked distinct
      stands₁.holds.shows.steady ran
    have stands' := stands₁.withCatalog
      (stands₁.holds.setPool steady rfl stands₁.holds.shows.sound)
    exact ⟨holds.queried _ stands' kept, heaps _ stands'⟩
  · have same : after = manager' := by
      unfold Program.Throws at thrown
      rw [build.ended, Option.some.injEq, Prod.mk.injEq] at thrown
      exact thrown.2
    rw [← same]
    apply left
    rcases build.state with same | ⟨same, _⟩
    · exact Or.inl same
    · exact Or.inr same

/-- A query of a table whose scan loses no record gives what its plan means on the decoded
records. -/
theorem CacheState.query_answers (holds : CacheState log manager s) (calls : PlannerCalls)
    (plan : LogicalPlan) (tuples : List Tuple)
    (opened : (openTable plan.tableName).Returns manager table manager₁) {i : Nat}
    (present : s.heaps[i]? = some table.hf)
    (undisturbed : Undisturbed table.decode s.view (s.chain i) manager₁.catalog.world.bm)
    (decoded : tuples.map some =
      (heapRecords s.view (s.chain i)).map fun record => table.decode record.2)
    (small : ∀ tup ∈ tuples, tup.values.length < 65536) (it : HeapIterator) :
    ∃ manager', query calls it plan manager =
      some (plan.meaning calls (.ok tuples), manager') := by
  obtain ⟨built, after, build⟩ := builds calls plan opened
  have means := build.means fun _ => tuples
  rw [Except.map] at means
  have stands₁ := (holds.state.stands.opened opened).2
  have sound := stands₁.holds.shows.sound
  have started := build.ended
  cases built with
  | error reason =>
      rw [Except.map] at means
      rw [means]
      have thrown : (PhysicalPlanner.build calls plan).Throws manager reason after := started
      exact ⟨after, thrown.bind⟩
  | ok made =>
      have isTable := build.table made rfl
      rw [Except.ok.injEq] at isTable
      have same : after = manager₁ := by
        rcases build.state with same | ⟨_, _, impossible⟩
        · exact same
        · cases impossible
      subst same
      obtain ⟨state', ran, _⟩ := SeqScanOp.plan_returns ⟨table.hf, table.decode⟩ made.2 it
        (sound.linked i _ present) (sound.nodup i) stands₁.holds.shows.steady undisturbed decoded
        small
      rw [Except.map] at means
      have reached : (PhysicalPlanner.build calls plan).Returns manager made after := started
      refine ⟨withPool after (made.2.leafState state').bm, ?_⟩
      unfold PhysicalPlanner.query
      rw [means, reached.bind_eq, ← isTable]
      exact Program.within_eq_some.mpr ⟨state', ran, rfl⟩

theorem Shelved.queried (shelved : Shelved log s) (name : List UInt8) :
    Shelved (⟨.openTable name, .ok .done⟩ :: log : List (Event N)) s := by
  have same : ∀ other, offeredRows other (⟨.openTable name, .ok .done⟩ :: log : List (Event N)) =
      offeredRows other log := fun other => offeredRows_other (by simp) _ _
  refine ⟨?_, shelved.firstPages, ?_⟩
  · intro other unknown
    rw [same, shelved.unknown other unknown]
  · intro other table i loaded present own columns untouched
    rw [same]
    exact shelved.rows other table i loaded present own columns untouched.earlier

theorem sessionState [NeZero N] {start : TableManager N} (initialised : Initialised start)
    {log : List (SessionEvent N)} (run : SessionRun calls start log manager) :
    ∃ s, TableState (sessionCalls log) manager s := by
  apply run.invariant fun log manager => ∃ s, TableState (sessionCalls log) manager s
  · exact initialised.tableState
  · intro log manager event manager' _ before taken
    obtain ⟨s, holds⟩ := before
    cases event with
    | call event => exact holds.step taken
    | query it plan outcome =>
        refine ⟨s, (holds.cache.query_leaves taken).1, fun distinct => ?_⟩
        exact (holds.shelved distinct).queried plan.tableName

theorem Stands.chain_eq (stands : Stands manager s names ids rids) {i : Nat} {chain : List Int}
    (present : s.heaps[i]? = some table.hf)
    (linked : Chain manager.pages table.hf.firstPageId chain) : s.chain i = chain :=
  (linked_of_holds stands.holds present).unique linked

theorem Stands.records_eq (stands : Stands manager s names ids rids) (i : Nat) :
    heapRecords manager.pages (s.chain i) = heapRecords s.view (s.chain i) :=
  recordsFrom_congr (fun _ member => stands.contents_eq member) 0

theorem session_of_run [NeZero N] {start : TableManager N} (calls : PlannerCalls)
    (run : DatabaseRun start log manager) :
    SessionRun calls start (log.map .call) manager ∧
      sessionCalls (log.map SessionEvent.call) = log := by
  induction run with
  | nil => exact ⟨.nil, rfl⟩
  | @cons log state state' event previous taken ih =>
      obtain ⟨run, same⟩ := ih
      refine ⟨run.cons ?_, congrArg (event :: ·) same⟩
      show databaseStep (sessionCalls (log.map SessionEvent.call)) state event state'
      rw [same]
      exact taken

/-- Every row passes, whatever it is asked for. -/
def plainCalls : PlannerCalls where
  compilePredicate _ := .ok fun _ => true
  buildOutputSchema _ _ := .ok []
  columnsToPositions _ _ := .ok {1}

def plainPlan : LogicalPlan := .logicalLimit (.logicalFilter (.logicalScan (ascii "t")) ⟨⟩) 1

/-- The page of the first table, with its one row. -/
theorem NumbersIn.one {start manager manager' : TableManager bufferPoolSize} {table : UserTable}
    {log : List (Event bufferPoolSize)} (rows : NumbersIn start manager log table manager' [7]) :
    ∃ chain rid, Chain manager'.pages table.hf.firstPageId chain ∧ chain.length ≤ 1 ∧
      heapRecords manager'.pages chain = [(rid, [7, 0, 0, 0])] := by
  obtain ⟨chain, linked, one, records⟩ := rows.scan rfl
  obtain ⟨⟨rid, data⟩, rest, listed, isData, isEnd⟩ := List.map_eq_cons_iff.mp records
  refine ⟨chain, rid, linked, Nat.le_of_eq one, ?_⟩
  rw [listed, List.map_eq_nil_iff.mp isEnd]
  exact congrArg (fun data => [(rid, data)]) isData

theorem NumbersIn.decode_seven {start manager manager' : TableManager bufferPoolSize}
    {table : UserTable} {log : List (Event bufferPoolSize)}
    (rows : NumbersIn start manager log table manager' [7]) :
    table.decode [7, 0, 0, 0] = some ⟨[.int 7], table.schema⟩ := by
  rw [rows.decode]
  rfl

/-- A query answers with what its plan means on the decoded records of its table, where the scan
loses none, and fails as the plan does where there is no table. -/
theorem query_means [NeZero N] (calls : PlannerCalls) (start : TableManager N)
    (initialised : Initialised start) (log : List (SessionEvent N)) (manager : TableManager N)
    (run : SessionRun calls start log manager) (plan : LogicalPlan) (it : HeapIterator) :
    (∀ table manager₁ chain tuples,
      (openTable plan.tableName).Returns manager table manager₁ →
      Chain manager₁.pages table.hf.firstPageId chain →
      Undisturbed table.decode manager₁.pages chain manager₁.catalog.world.bm →
      tuples.map some = (heapRecords manager₁.pages chain).map
        (fun record => table.decode record.2) →
      (∀ tup ∈ tuples, tup.values.length < 65536) →
      ∃ manager', query calls it plan manager =
        some (plan.meaning calls (.ok tuples), manager')) ∧
    ∀ reason manager₁, (openTable plan.tableName).Throws manager reason manager₁ →
      ∃ manager', query calls it plan manager =
        some (plan.meaning calls (.error reason), manager') := by
  obtain ⟨s, holds, _⟩ := sessionState initialised run
  constructor
  · intro table manager₁ chain tuples opened linked undisturbed decoded small
    obtain ⟨cached, stands₁⟩ := holds.state.stands.opened opened
    obtain ⟨i, present, _⟩ := cached.place
    obtain rfl := stands₁.chain_eq present linked
    rw [stands₁.records_eq] at decoded
    apply holds.query_answers calls plan tuples opened present _ decoded small it
    intro before rid data after records
    rw [← stands₁.records_eq] at records
    exact undisturbed before rid data after records
  · intro reason manager₁ thrown
    obtain ⟨built, after, build⟩ := builds calls plan thrown
    have means := build.means fun _ => []
    have started := build.ended
    cases built with
    | ok made => cases build.table made rfl
    | error reason' =>
        rw [Except.map, Except.map] at means
        rw [means]
        have failed : (PhysicalPlanner.build calls plan).Throws manager reason' after := started
        exact ⟨after, failed.bind⟩

/-- The row of the first table, through a filter and a limit. -/
theorem query_means_seven : ∃ (manager manager' : TableManager bufferPoolSize) (table : UserTable),
    query plainCalls ⟨0, 0, 0, false⟩ plainPlan manager =
      some (.ok [⟨[.int 7], table.schema⟩], manager') := by
  obtain ⟨start, manager, log, table, manager₁, first⟩ := numbersIn_exists [7] (by decide)
  obtain ⟨chain, rid, linked, one, records⟩ := first.one
  have run := (session_of_run plainCalls first.run).1
  have answers := (query_means plainCalls start first.initialised _ manager run plainPlan
    ⟨0, 0, 0, false⟩).1 table manager₁ chain [⟨[.int 7], table.schema⟩] first.opened linked
    (undisturbed_of_one one) (by
      rw [records, List.map_singleton, List.map_singleton, first.decode_seven]) (by
      intro tup member
      rw [List.mem_singleton.mp member]
      show ([.int 7] : List Value).length < 65536
      decide)
  obtain ⟨manager', answered⟩ := answers
  exact ⟨manager, manager', table, answered⟩

/-- The rows that fit a page, read back. -/
def storedTuples (schema : Schema) (rows : List (List Value)) : List Tuple :=
  (rows.filter fun values => (DynamicCodec.encode values schema).any (·.length ≤ 8176)).map
    fun values => ⟨values.map Value.readBack, schema⟩

theorem typed_of_fits {values : List Value} {schema : Schema}
    (fits : List.Forall₂ Fits values schema) : DynamicCodec.Typed schema := by
  induction fits with
  | nil => exact fun _ member => absurd member List.not_mem_nil
  | @cons value column values schema own rest ih =>
      intro other member
      rcases List.mem_cons.mp member with rfl | later
      · cases own with
        | int isInt => exact Or.inl isInt
        | pageId isInt => exact Or.inl isInt
        | text isText => exact Or.inr isText
      · exact ih other later

theorem decode_fitting {values : List Value} {bytes : List UInt8}
    (fits : List.Forall₂ Fits values table.schema)
    (encoded : DynamicCodec.encode values table.schema = some bytes) (small : bytes.length ≤ 8176) :
    table.decode bytes = some ⟨values.map Value.readBack, table.schema⟩ := by
  rw [UserTable.decode, DynamicCodec.decode_of_fits fits encoded (typed_of_fits fits) (by omega)]
  rfl

/-- The rows that were given and fit a page are what is decoded from their bytes. -/
theorem decode_encodedRows {rows : List (List Value)}
    (fits : ∀ values ∈ rows, List.Forall₂ Fits values table.schema) :
    ((encodedRows table.schema rows).filter (·.length ≤ 8176)).map table.decode =
      (storedTuples table.schema rows).map some := by
  induction rows with
  | nil => rfl
  | cons values rows ih =>
      obtain ⟨own, later⟩ := List.forall_mem_cons.mp fits
      have rest := ih later
      obtain ⟨bytes, encoded, _⟩ := (typed_of_fits own).encodes own.length_eq
      have split : encodedRows table.schema (values :: rows) =
          bytes :: encodedRows table.schema rows := by
        rw [encodedRows, List.filterMap_cons, encoded]
        rfl
      rw [split]
      by_cases small : bytes.length ≤ 8176
      · have stored : storedTuples table.schema (values :: rows) =
            ⟨values.map Value.readBack, table.schema⟩ :: storedTuples table.schema rows := by
          simp only [storedTuples, List.filter_cons, encoded, Option.any_some, small, decide_true,
            ↓reduceIte, List.map_cons]
        rw [List.filter_cons_of_pos (by simpa using small), List.map_cons, rest,
          decode_fitting own encoded small, stored, List.map_cons]
      · have stored : storedTuples table.schema (values :: rows) =
            storedTuples table.schema rows := by
          simp only [storedTuples, List.filter_cons, encoded, Option.any_some, small, decide_false,
            Bool.false_eq_true, ↓reduceIte]
        rw [List.filter_cons_of_neg (by simpa using small), rest, stored]

theorem storedTuples_small {schema : Schema} {rows : List (List Value)} {tup : Tuple}
    (member : tup ∈ storedTuples schema rows) : tup.values.length < 65536 := by
  obtain ⟨values, among, rfl⟩ := List.mem_map.mp member
  obtain ⟨bytes, encoded, small⟩ := (Option.any_eq_true _ _).mp (List.mem_filter.mp among).2
  have few := DynamicCodec.encode_length encoded
  have same := DynamicCodec.length_of_encode encoded
  have most : bytes.length ≤ 8176 := of_decide_eq_true small
  show (values.map Value.readBack).length < 65536
  rw [List.length_map]
  omega

theorem perm_map_some {α : Type} {found : List (Option α)} {items : List α}
    (perm : found.Perm (items.map some)) :
    ∃ again : List α, again.map some = found ∧ again.Perm items := by
  have all : ∀ other ∈ found, ∃ item, other = some item := by
    intro other member
    obtain ⟨item, _, rfl⟩ := List.mem_map.mp (perm.mem_iff.mp member)
    exact ⟨item, rfl⟩
  refine ⟨found.reduceOption, ?_, ?_⟩
  · clear perm
    induction found with
    | nil => rfl
    | cons other found ih =>
        obtain ⟨item, rfl⟩ := all other List.mem_cons_self
        rw [List.reduceOption_cons_of_some, List.map_cons,
          ih fun later member => all later (List.mem_cons_of_mem _ member)]
  · have reduced := perm.filterMap id
    rwa [List.filterMap_map, Function.id_comp, List.filterMap_some] at reduced

/-- From `Insert` to the answer of a query: in every session a query over a table gives what its
plan means on the rows that were inserted, as first fit has laid them, if the table is one page
or the pool has a free frame for every page of it that it does not hold. -/
theorem query_inserted [NeZero N] (calls : PlannerCalls) (start : TableManager N)
    (initialised : Initialised start) (log : List (SessionEvent N)) (manager : TableManager N)
    (run : SessionRun calls start log manager) (distinct : (createdIds (sessionCalls log)).Nodup)
    (plan : LogicalPlan) (it : HeapIterator) (table : UserTable) (manager₁ : TableManager N)
    (own : plan.tableName ∉ systemNames)
    (opened : (openTable plan.tableName).Returns manager table manager₁)
    (columns : table.schema ≠ []) (owns : OwnHeap manager (sessionCalls log) table)
    (fits : ∀ values ∈ offeredRows plan.tableName (sessionCalls log),
      List.Forall₂ Fits values table.schema)
    (chain : List Int) (linked : Chain manager₁.pages table.hf.firstPageId chain)
    (room : chain.length ≤ 1 ∨ Roomy chain manager₁.catalog.world.bm) :
    ∃ tuples manager', query calls it plan manager =
        some (plan.meaning calls (.ok tuples), manager') ∧
      tuples.map some = (FirstFit.contents (FirstFit.offerAll 8180 rowSize [⟨8180, []⟩]
        (encodedRows table.schema (offeredRows plan.tableName (sessionCalls log))))).map
          table.decode ∧
      tuples.Perm (storedTuples table.schema (offeredRows plan.tableName (sessionCalls log))) := by
  obtain ⟨s, holds, shelved⟩ := sessionState initialised run
  have stands := holds.state.stands
  have loaded := holds.opened distinct opened
  have stands₁ := (stands.opened opened).2
  have sound := stands₁.holds.shows.sound
  obtain ⟨_, i, present, behind⟩ := loaded.place stands.catalogued
  have rows := (shelved distinct).rows plan.tableName table i loaded present (behind own) columns
    (stands.untouched present owns)
  obtain rfl := stands₁.chain_eq present linked
  have bytes : (heapRecords s.view (s.chain i)).map Prod.snd =
      FirstFit.contents (FirstFit.offerAll 8180 rowSize [⟨8180, []⟩]
        (encodedRows table.schema (offeredRows plan.tableName (sessionCalls log)))) := by
    rw [← rows, HeapState.contents_bins]
  have perm := @FirstFit.contents_offerAll_perm _ 8180 rowSize [⟨8180, []⟩]
    (encodedRows table.schema (offeredRows plan.tableName (sessionCalls log)))
  simp only [rowSize_le] at perm
  rw [← bytes] at perm
  -- decoding succeeds on every record, since the records are the rows in another order
  have decodes := perm.map table.decode
  rw [show FirstFit.contents [(⟨8180, []⟩ : FirstFit.Bin (List UInt8))] = [] from rfl,
    List.nil_append, decode_encodedRows fits] at decodes
  obtain ⟨tuples, decoded, same⟩ := perm_map_some decodes
  have undisturbed : Undisturbed table.decode s.view (s.chain i) manager₁.catalog.world.bm := by
    rcases room with one | room
    · exact undisturbed_of_one one
    · apply undisturbed_of_room (sound.linked i _ present) (sound.nodup i)
        stands₁.holds.shows.steady room
      intro record member
      have among : table.decode record.2 ∈ tuples.map some := by
        rw [decoded]
        exact List.mem_map_of_mem (List.mem_map_of_mem member)
      obtain ⟨tup, _, isTuple⟩ := List.mem_map.mp among
      rw [← isTuple]
      rfl
  have plain : tuples.map some =
      (heapRecords s.view (s.chain i)).map fun record => table.decode record.2 := by
    rw [decoded, List.map_map]
    rfl
  obtain ⟨manager', answered⟩ := holds.query_answers calls plan tuples opened present
    undisturbed plain (fun tup member => storedTuples_small (same.mem_iff.mp member)) it
  refine ⟨tuples, manager', answered, ?_, same⟩
  rw [decoded, bytes]

theorem query_inserted_seven : ∃ (manager manager' : TableManager bufferPoolSize)
    (table : UserTable), query plainCalls ⟨0, 0, 0, false⟩ plainPlan manager =
      some (.ok [⟨[.int 7], table.schema⟩], manager') := by
  obtain ⟨start, manager, log, table, manager₁, first⟩ := numbersIn_exists [7] (by decide)
  obtain ⟨chain, rid, linked, one, records⟩ := first.one
  obtain ⟨run, same⟩ := session_of_run plainCalls first.run
  have offered : offeredRows plainPlan.tableName (sessionCalls (log.map SessionEvent.call)) =
      [[.int 7]] := by
    rw [same]
    exact first.offered
  obtain ⟨tuples, manager', answered, decoded, _⟩ := query_inserted plainCalls start
    first.initialised _ manager run (by rw [same]; exact first.distinct) plainPlan
    ⟨0, 0, 0, false⟩ table manager₁ (by decide) first.opened first.columns
    (by rw [same]; exact first.owns) (by
      intro values member
      rw [offered, List.mem_singleton] at member
      rw [member, first.schema]
      exact .cons (.int rfl) .nil) chain linked (Or.inl one)
  have encoded : encodedRows table.schema [[.int 7]] = [[7, 0, 0, 0]] := by
    rw [first.schema]
    rfl
  rw [offered, encoded, show FirstFit.contents (FirstFit.offerAll 8180 rowSize [⟨8180, []⟩]
    [[7, 0, 0, 0]]) = [[7, 0, 0, 0]] from rfl, List.map_singleton, first.decode_seven] at decoded
  obtain ⟨tup, rest, rfl, isTuple, isEnd⟩ := List.map_eq_cons_iff.mp decoded
  obtain rfl := List.map_eq_nil_iff.mp isEnd
  rw [Option.some.inj isTuple] at answered
  exact ⟨manager, manager', table, answered⟩

/-- However a query ends, no heap file, no page of one, no page id, no answer of the catalog and
no pin is other than before. -/
theorem query_readOnly [NeZero N] (calls : PlannerCalls) (start : TableManager N)
    (initialised : Initialised start) (log : List (SessionEvent N)) (manager : TableManager N)
    (run : SessionRun calls start log manager) (plan : LogicalPlan) (it : HeapIterator)
    (outcome : Except Error (List Tuple)) (manager' : TableManager N)
    (ended : query calls it plan manager = some (outcome, manager')) :
    manager'.catalog.world.heaps = manager.catalog.world.heaps ∧
      (∀ hf ∈ systemHeaps ++ manager.catalog.world.heaps, ∀ chain,
        Chain manager.pages hf.firstPageId chain → Chain manager'.pages hf.firstPageId chain ∧
          ∀ pageId ∈ chain, manager'.pages pageId = manager.pages pageId) ∧
      nextAllocated manager'.catalog.world.bm = nextAllocated manager.catalog.world.bm ∧
      (∀ name answer, Finds manager name answer ↔ Finds manager' name answer) ∧
      (∀ tableId cols, Lists manager tableId cols ↔ Lists manager' tableId cols) ∧
      manager'.catalog.world.bm.pins = fun _ => 0 := by
  obtain ⟨s, holds⟩ := sessionState initialised run
  obtain ⟨holds', heaps⟩ := holds.cache.query_leaves ended
  have stands := holds.cache.state.stands
  have stands' := holds'.state.stands
  refine ⟨heaps, ?_, ?_, ?_, ?_, stands'.holds.shows.steady.pinned⟩
  · intro hf member chain linked
    rw [show systemHeaps ++ manager.catalog.world.heaps = s.heaps from
      stands.holds.shows.heaps] at member
    obtain ⟨i, present⟩ := List.mem_iff_getElem?.mp member
    have known := stands.holds.shows.sound.linked i hf present
    obtain rfl := (known.congr fun _ inChain => stands.contents_eq inChain).unique linked
    refine ⟨known.congr fun _ inChain => stands'.contents_eq inChain, fun pageId inChain => ?_⟩
    exact (stands'.contents_eq inChain).trans (stands.contents_eq inChain).symm
  · exact stands'.holds.shows.steady.allocated.next.trans
      stands.holds.shows.steady.allocated.next.symm
  · intro name answer
    rw [stands.finds_iff, stands'.finds_iff]
  · intro tableId cols
    rw [stands.lists_iff, stands'.lists_iff]

theorem query_readOnly_seven : ∃ (manager manager' : TableManager bufferPoolSize)
    (outcome : Except Error (List Tuple)),
    query plainCalls ⟨0, 0, 0, false⟩ plainPlan manager = some (outcome, manager') ∧
      manager'.catalog.world.bm.pins = fun _ => 0 := by
  obtain ⟨start, manager, log, table, manager₁, first⟩ := numbersIn_exists [7] (by decide)
  obtain ⟨chain, rid, linked, one, records⟩ := first.one
  obtain ⟨s, holds⟩ := cacheState first.initialised first.run
  obtain ⟨cached, stands₁⟩ := holds.state.stands.opened first.opened
  obtain ⟨i, present, _⟩ := cached.place
  obtain rfl := stands₁.chain_eq present linked
  rw [stands₁.records_eq] at records
  obtain ⟨manager', answered⟩ := holds.query_answers plainCalls plainPlan
    [⟨[.int 7], table.schema⟩] first.opened present (undisturbed_of_one one) (by
      rw [records, List.map_singleton, List.map_singleton, first.decode_seven]) (by
      intro tup member
      rw [List.mem_singleton.mp member]
      show ([.int 7] : List Value).length < 65536
      decide) ⟨0, 0, 0, false⟩
  have run := (session_of_run plainCalls first.run).1
  obtain ⟨_, _, _, _, _, unpinned⟩ := query_readOnly plainCalls start first.initialised _ manager
    run plainPlan ⟨0, 0, 0, false⟩ _ manager' answered
  exact ⟨manager, manager', _, answered, unpinned⟩

end RelationalDb.TableManager
