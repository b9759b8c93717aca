import RelationalDb.Access.HeapPins
import RelationalDb.Model.AccessCode

set_option autoImplicit false

namespace RelationalDb

open BufferManager (Balances Keeping Tight)

variable {N : Nat}

namespace Catalog

theorem onPool_balances {α : Type} {program : Heap N α} {code : PoolCode id program}
    (balances : Balances code) : Balances (onPoolCode code) :=
  balances.within fun _ _ => rfl

theorem relation_balances (table : CatalogTable) : Balances (relationCode (N := N) table) := by
  refine Balances.get.bind fun catalog => ?_
  cases catalog.relations table with
  | some hf => exact .pure _
  | none => exact .throw (by simp [noCandidates])

theorem emplace_balances (table : CatalogTable) (hf : HeapFile) :
    Balances (emplaceCode (N := N) table hf) :=
  .aside

theorem assert_balances (holds : Bool) : Balances (.assert holds : PoolCode (N := N) bm _) := by
  cases holds with
  | true => exact .pure ()
  | false => exact Program.Ensures.never

theorem isInitialised_balances (buf : Page) : Balances (isInitialisedCode (N := N) buf) :=
  Balances.get.bind fun _ => .branch (.pure _) (.pure _)

theorem loadCatalogs_balances : Balances (loadCatalogsCode (N := N)) :=
  (emplace_balances _ _).bind fun _ => (emplace_balances _ _).bind fun _ => emplace_balances _ _

theorem bootstrapHeader_balances : Balances (bootstrapHeaderCode (N := N)) := by
  refine (onPool_balances HeapFile.allocatePage_balances).bind fun pid => ?_
  refine (assert_balances _).bind fun _ => onPool_balances ?_
  exact .of_ends (BufferManager.keeping_still (.writePage pid headerPage) rfl)

theorem onPool_keeping {α : Type} {program : Heap N α} {code : PoolCode id program}
    {pre : BufferManager N DiskManager → Prop} {post : α → BufferManager N DiskManager → Prop}
    (keeping : Keeping pre code (Program.Ends post)) :
    Keeping (fun catalog => pre catalog.bm) (onPoolCode code)
      (Program.Ends fun value catalog => post value catalog.bm) := by
  refine Program.Ensures.within keeping (fun _ begins => begins) ?_
  intro catalog outcome inner _ ends
  cases outcome with
  | ok value => exact ends
  | error reason => exact ends.elim

variable [NeZero N]

theorem bootstrapPage_balances (expected : Int) : Balances (bootstrapPageCode (N := N) expected) := by
  refine (onPool_balances HeapFile.allocatePage_balances).bind fun pid => ?_
  refine (assert_balances _).bind fun _ => ?_
  refine (onPool_keeping (BufferManager.request_keeping pid)).andThen fun frame => ?_
  refine (onPool_keeping (BufferManager.keeping_open (.modifyData frame HeapFile.initHeapPage) rfl
    rfl (by simp))).andThen fun _ => ?_
  refine (onPool_keeping (BufferManager.keeping_open (.markDirty frame) rfl rfl
    (by simp))).andThen fun _ => ?_
  refine Program.Ensures.within (BufferManager.unpin_keeping frame) (fun _ begins => begins.held) ?_
  exact fun _ _ _ _ ends => .of_ends ends

theorem insertRaw_balances (table : CatalogTable) (bytes : List UInt8) :
    Balances (insertRawCode (N := N) table bytes) := by
  refine (relation_balances table).bind fun hf => ?_
  refine (onPool_balances (hf.insert_balances bytes)).bind fun placed => ?_
  exact (emplace_balances table _).bind fun _ => .pure _

theorem lookup_balances (name : List UInt8) : Balances (lookupCode (N := N) name) := by
  refine (relation_balances _).bind fun hf => ?_
  refine (onPool_balances (hf.forRecords_balances _ _ _)).bind fun found => ?_
  cases found with
  | inl none => exact .pure _
  | inr table => exact .pure _

theorem getColumns_balances (tableId : Uuid) : Balances (getColumnsCode (N := N) tableId) := by
  refine (relation_balances _).bind fun hf => ?_
  refine (onPool_balances (hf.forRecords_balances _ _ _)).bind fun found => ?_
  cases found with
  | inl res => exact .pure _
  | inr none => exact none.elim

theorem getTypes_balances : Balances (getTypesCode (N := N)) := by
  refine (relation_balances _).bind fun hf => ?_
  refine (onPool_balances (hf.forRecords_balances _ _ _)).bind fun found => ?_
  cases found with
  | inl res => exact .pure _
  | inr none => exact none.elim

theorem insertColumns_balances (columns : List ColumnInfo) :
    Balances (insertColumnsCode (N := N) columns) := by
  induction columns with
  | nil => exact .pure _
  | cons col rest ih => exact (insertRaw_balances _ _).bind fun _ => ih

theorem createTable_balances (tableRandom fileRandom : Uuid) (name : List UInt8)
    (columns : List RawColumnInfo) :
    Balances (createTableCode (N := N) tableRandom fileRandom name columns) := by
  have made : Balances (makeHeapCode (N := N) (generateUuid fileRandom)) :=
    (onPool_balances (HeapFile.create_balances _)).bind fun _ => Balances.aside.bind fun _ => .pure _
  refine made.bind fun hf => (insertRaw_balances _ _).bind fun _ => ?_
  exact (insertColumns_balances _).bind fun _ => .pure _

theorem insertBuiltinTypes_balances : Balances (insertBuiltinTypesCode (N := N)) :=
  (insertRaw_balances _ _).bind fun _ => (insertRaw_balances _ _).bind fun _ => .pure _

theorem insertCatalogMetadata_balances : Balances (insertCatalogMetadataCode (N := N)) := by
  refine (insertRaw_balances _ _).bind fun _ => (insertColumns_balances _).bind fun _ => ?_
  refine (insertRaw_balances _ _).bind fun _ => (insertColumns_balances _).bind fun _ => ?_
  exact (insertRaw_balances _ _).bind fun _ => insertColumns_balances _

theorem bootstrapCatalogs_balances : Balances (bootstrapCatalogsCode (N := N)) := by
  refine bootstrapHeader_balances.bind fun _ => (bootstrapPage_balances _).bind fun _ => ?_
  refine (bootstrapPage_balances _).bind fun _ => (bootstrapPage_balances _).bind fun _ => ?_
  refine loadCatalogs_balances.bind fun _ => insertBuiltinTypes_balances.bind fun _ => ?_
  exact insertCatalogMetadata_balances.bind fun _ => onPool_balances BufferManager.flushAll_balances

theorem init_balances (buf : Page) : Balances (initCode (N := N) buf) :=
  (isInitialised_balances buf).bind fun _ => .branch loadCatalogs_balances bootstrapCatalogs_balances

end Catalog

theorem UserTable.insert_balances [NeZero N] (table : UserTable) (values : List Value) :
    Balances (table.insertCode (N := N) values) := by
  have encoded : Balances (.ofOption (DynamicCodec.encode values table.schema) :
      PoolCode (N := N) id _) := by
    cases DynamicCodec.encode values table.schema with
    | some bytes => exact .pure bytes
    | none => exact Program.Ensures.never
  exact encoded.bind fun bytes => (table.hf.insert_balances bytes).bind fun _ => .pure _

namespace TableManager

theorem onCatalog_balances {α : Type} {program : CatalogProgram N α}
    {code : PoolCode Catalog.bm program} (balances : Balances code) : Balances (onCatalogCode code) :=
  balances.within fun _ _ => rfl

variable [NeZero N]

theorem openTable_balances (name : List UInt8) : Balances (openTableCode (N := N) name) := by
  refine Balances.get.bind fun manager => ?_
  cases manager.cache name with
  | some table => exact .pure _
  | none =>
      refine (onCatalog_balances (Catalog.lookup_balances name)).bind fun found => ?_
      cases found with
      | none => exact .throw (by simp [noCandidates])
      | some tableInfo =>
          refine (onCatalog_balances (Catalog.getColumns_balances _)).bind fun cols => ?_
          exact Balances.aside.bind fun _ => .pure _

theorem insert_balances (name : List UInt8) (values : List Value) :
    Balances (insertCode (N := N) name values) := by
  refine (openTable_balances name).bind fun table => ?_
  refine (onCatalog_balances (Catalog.onPool_balances (table.insert_balances values))).bind
    fun placed => ?_
  exact Balances.aside.bind fun _ => .pure _

end TableManager

namespace AccessOp

open TableManager Catalog in
theorem run_balances [NeZero N] (op : AccessOp N) : Balances op.code := by
  cases op with
  | create fileId => exact onCatalog_balances (onPool_balances (HeapFile.create_balances fileId))
  | get rid => exact onCatalog_balances (onPool_balances (HeapFile.get_balances rid))
  | insert heap data => exact onCatalog_balances (onPool_balances (heap.insert_balances data))
  | update data rid => exact onCatalog_balances (onPool_balances (HeapFile.edit_balances _ _))
  | delete rid => exact onCatalog_balances (onPool_balances (HeapFile.edit_balances _ _))
  | begin heap address => exact onCatalog_balances (onPool_balances (heap.begin_balances address))
  | iterator heap page slot hasNext =>
      exact onCatalog_balances (onPool_balances (HeapIterator.new_balances heap page slot hasNext))
  | next it => exact onCatalog_balances (onPool_balances it.next_balances)
  | deref it => exact onCatalog_balances (onPool_balances it.deref_balances)
  | increment it => exact onCatalog_balances (onPool_balances it.increment_balances)
  | init buf => exact onCatalog_balances (init_balances buf)
  | bootstrapCatalogs => exact onCatalog_balances bootstrapCatalogs_balances
  | insertTable row => exact onCatalog_balances (insertRaw_balances _ _)
  | insertColumn row => exact onCatalog_balances (insertRaw_balances _ _)
  | insertType row => exact onCatalog_balances (insertRaw_balances _ _)
  | lookup name => exact onCatalog_balances (lookup_balances name)
  | getColumns tableId => exact onCatalog_balances (getColumns_balances tableId)
  | getTypes => exact onCatalog_balances getTypes_balances
  | createTable tableRandom fileRandom name columns =>
      exact onCatalog_balances (createTable_balances tableRandom fileRandom name columns)
  | openTable name => exact openTable_balances name
  | openInsert name values => exact insert_balances name values
  | tableInsert table values =>
      exact onCatalog_balances (onPool_balances (table.insert_balances values))

end AccessOp

/-- An operation with the objects it was called on, before and after. -/
structure AccessEvent (N : Nat) where
  before : TableManager N
  op : AccessOp N
  outcome : Except Error op.Answer
  after : TableManager N

/-- Catalogs, table managers and heap files come and go; the pool stays. -/
def accessStep (_ : List (AccessEvent N)) (bm : BufferManager N DiskManager)
    (event : AccessEvent N) (bm' : BufferManager N DiskManager) : Prop :=
  event.before.bm = bm ∧ event.op.run event.before = some (event.outcome, event.after) ∧
    event.after.bm = bm'

abbrev AccessRun (start : BufferManager N DiskManager) :
    List (AccessEvent N) → BufferManager N DiskManager → Prop :=
  Run accessStep start

/-- The operation left the pins as they were, pinned one frame at most at each moment of
it, and no request of it lacked a frame. -/
structure PinsKept (event : AccessEvent N) : Prop where
  counts : ∀ frame,
    (event.after.bm.pool frame).pinCount = (event.before.bm.pool frame).pinCount
  moments : ∃ moments,
    event.op.code.recorded (event.before, []) = some (event.outcome, (event.after, moments)) ∧
      ∀ moment ∈ moments, Tight moment
  served : event.outcome ≠ .error noCandidates

theorem AccessOp.pinsKept [NeZero N] {event : AccessEvent N}
    (ended : event.op.run event.before = some (event.outcome, event.after))
    (unpinned : event.before.bm.Holds none) :
    PinsKept event ∧ event.after.bm.Holds none := by
  obtain ⟨moments, goes, tight, ends⟩ := event.op.run_balances _ _ _ unpinned ended
  obtain ⟨unpinned', served⟩ := ends fun _ _ => trivial
  refine ⟨⟨fun frame => ?_, ⟨moments, goes [], tight.all⟩, served⟩, unpinned'⟩
  rw [unpinned' frame, unpinned frame]

/-- No operation leaks a pin. -/
theorem no_pin_leaks [NeZero N] {raw : Fin N → Page} {disk : DiskManager}
    {log : List (AccessEvent N)} {bm : BufferManager N DiskManager}
    (run : AccessRun (BufferManager.new raw disk) log bm) : ∀ event ∈ log, PinsKept event := by
  have kept := run.invariant (fun log bm => bm.Holds none ∧ ∀ event ∈ log, PinsKept event)
    ⟨fun _ => rfl, fun _ none => absurd none List.not_mem_nil⟩ (by
      rintro log bm event bm' _ ⟨unpinned, earlier⟩ ⟨rfl, ended, rfl⟩
      obtain ⟨pinsKept, unpinned'⟩ := AccessOp.pinsKept ended unpinned
      refine ⟨unpinned', fun other member => ?_⟩
      rcases List.mem_cons.mp member with rfl | old
      · exact pinsKept
      · exact earlier other old)
  exact kept.2

/-- A heap file is made in a pool of one frame. -/
theorem no_pin_leaks_create :
    let start : TableManager 1 := TableManager.new (fun _ _ => 0) File.empty []
    ∃ log bm, AccessRun start.bm log bm ∧ log.map AccessEvent.op = [.create fun _ => 0] ∧
      ∀ event ∈ log, PinsKept event := by
  intro start
  have steady := (World.start_shows (fun _ _ => 0) File.empty (by decide) :
    World.Shows (World.start (fun _ _ => 0) File.empty : World 1) _ _).steady
  obtain ⟨_, bm', returned, _⟩ := HeapFile.create_returns steady (by decide) fun _ => 0
  have created : (HeapFile.create fun _ => 0).Returns start.catalog.world.bm _ bm' := returned
  have inCatalog := Program.Returns.within (fun catalog : Catalog 1 => catalog.world.bm)
    Catalog.setPool created
  have ended := Program.Returns.within TableManager.catalog TableManager.setCatalog inCatalog
  let event : AccessEvent 1 :=
    ⟨start, .create fun _ => 0, .ok ⟨fun _ => 0, (World.startState File.empty).pages⟩,
      start.setCatalog (start.catalog.setPool bm')⟩
  have run : AccessRun start.bm [event] event.after.bm := Run.nil.cons ⟨rfl, ended, rfl⟩
  exact ⟨_, _, run, rfl, no_pin_leaks run⟩

end RelationalDb
