import RelationalDb.Access.ChainSafety
import RelationalDb.Model.DatabaseRuns
import RelationalDb.Storage.DiskRuns

set_option autoImplicit false

namespace RelationalDb.TableManager

open HeapFile
open BufferManager (Steady)

variable {N : Nat}

/-- The bytes that `Get` finds for a record id. -/
def Gets (bm : BufferManager N DiskManager) (rid : Rid) (data : Option (List UInt8)) : Prop :=
  ∃ record bm', (HeapFile.get rid).Returns bm record bm' ∧ record.map (·.bytes bm') = data

/-- The catalogs of two states answer every question alike. -/
structure SameCatalog (manager manager' : TableManager N) : Prop where
  tables : ∀ name, ∃ table after after', (Catalog.lookupTable name).Returns manager.catalog table after ∧
    (Catalog.lookupTable name).Returns manager'.catalog table after'
  columns : ∀ tableId, ∃ cols after after',
    (Catalog.getTableColumns tableId).Returns manager.catalog cols after ∧
      (Catalog.getTableColumns tableId).Returns manager'.catalog cols after'

/-- A heap has the pages of `chain` in two pools, with the same bytes for each record id. -/
structure SameHeap (bm bm' : BufferManager N DiskManager) (hf : HeapFile) (chain : List Int) : Prop where
  before : Chain bm.contents hf.firstPageId chain
  after : Chain bm'.contents hf.firstPageId chain
  records : ∀ rid : Rid, rid.pageId ∈ chain → ∃ data, Gets bm rid data ∧ Gets bm' rid data

def allHeaps (manager : TableManager N) : List HeapFile := systemHeaps ++ manager.catalog.world.heaps

variable {manager manager' : TableManager N} {s s' : HeapState} {names : List (List UInt8)}
  {ids : List Uuid} {rids : List (Nat × Rid)}

theorem gets_of_holds (holds : manager.catalog.Holds s) {rid : Rid} {i : Nat}
    (member : rid.pageId ∈ s.chain i) :
    Gets manager.catalog.world.bm rid (storedRecord s.view rid) := by
  obtain ⟨given, _, page, present, _⟩ := holds.shows.sound.page member
  obtain ⟨record, bm', returned, _, fetched⟩ := get_returns holds.shows.steady given present
  refine ⟨record, bm', returned, ?_⟩
  rw [storedRecord_eq present, ← fetched.bytes]

theorem Stands.gets (stands : Stands manager s names ids rids) {rid : Rid} {i : Nat}
    (member : rid.pageId ∈ s.chain i) :
    Gets manager.catalog.world.bm rid (storedRecord s.view rid) :=
  gets_of_holds stands.holds member

theorem chained_of_holds (holds : manager.catalog.Holds s) {i : Nat} {hf : HeapFile}
    (found : manager.allHeaps[i]? = some hf) :
    Chain manager.catalog.world.bm.contents hf.firstPageId (s.chain i) :=
  holds.shows.chained.linked i hf found

theorem Stands.chained (stands : Stands manager s names ids rids) {i : Nat} {hf : HeapFile}
    (found : manager.allHeaps[i]? = some hf) :
    Chain manager.catalog.world.bm.contents hf.firstPageId (s.chain i) :=
  chained_of_holds stands.holds found

/-- Two states whose rows are the same answer alike. -/
theorem Stands.sameCatalog (stands : Stands manager s names ids rids)
    (stands' : Stands manager' s' names ids rids) (same : s.SameRows s') :
    SameCatalog manager manager' := by
  constructor
  · intro name
    obtain ⟨_, found, _⟩ := stands.holds.lookup_returns stands.catalogued name
    obtain ⟨_, found', _⟩ := stands'.holds.lookup_returns stands'.catalogued name
    rw [same.tableRows] at found'
    exact ⟨_, _, _, found, found'⟩
  · intro tableId
    obtain ⟨_, listed, _⟩ := stands.holds.getColumns_returns stands.catalogued tableId
    obtain ⟨_, listed', _⟩ := stands'.holds.getColumns_returns stands'.catalogued tableId
    rw [same.columnRows] at listed'
    exact ⟨_, _, _, listed, listed'⟩

/-- No later `AllocatePage` returns a page of the chain. -/
def NeverReturned (disk : DiskManager) (chain : List Int) : Prop :=
  ∀ log disk', DiskRun disk log disk' → ∀ pageId ∈ allocatedIds log, pageId ∉ chain

theorem Flushed.neverReturned (flushed : Flushed manager s) (stands : Stands manager s names ids rids)
    (i : Nat) :
    NeverReturned (DiskManager.openFile manager.catalog.world.bm.disk.dbIo) (s.chain i) := by
  intro log disk' run pageId returned member
  obtain ⟨_, _, page, present, _⟩ := stands.holds.shows.sound.page member
  have inside := HeapState.stored_inside (flushed.inFile pageId page present)
  have above := DiskManager.allocated_above stands.file_small run pageId returned
  omega

/-- A run that ends with `flush_all` loses nothing when fresh objects open its file:
the catalog and every heap are what they were, and their pages are not given out again. -/
theorem restart_loses_nothing [NeZero N] (start : TableManager N) (initialised : Initialised start)
    (log : List (Event N)) (manager : TableManager N) (run : DatabaseRun start log manager)
    (flushed : EndsFlushed log) (raw : Fin N → Page) (buf : Page) :
    ∃ manager', (restart raw buf).Returns manager ⟨⟩ manager' ∧ SameCatalog manager manager' ∧
      ∀ hf ∈ manager.allHeaps, ∃ chain,
        SameHeap manager.catalog.world.bm manager'.catalog.world.bm hf chain ∧
        NeverReturned manager'.catalog.world.bm.disk chain := by
  obtain ⟨s, stands, _, whole⟩ := runState initialised run
  have all := whole flushed
  have sound := stands.holds.shows.sound
  obtain ⟨manager', returned, stands', opened⟩ := stands.restart_returns all raw buf
  have same : manager'.allHeaps = manager.allHeaps := by
    rw [allHeaps, opened.heaps, allHeaps]
  refine ⟨manager', returned, stands.sameCatalog stands' (all.inFile.sameRows sound), ?_⟩
  intro hf member
  obtain ⟨i, found⟩ := List.getElem?_of_mem member
  refine ⟨s.chain i, ⟨stands.chained found, stands'.chained (by rw [same, found]), ?_⟩, ?_⟩
  · intro rid inChain
    have gets := stands'.gets (show rid.pageId ∈ (s.reopened _).chain i from inChain)
    have stored : storedRecord (s.reopened manager.catalog.world.bm.disk.dbIo).view rid =
        storedRecord s.view rid := by
      rw [storedRecord, all.inFile.chain_view sound inChain, storedRecord]
    rw [stored] at gets
    exact ⟨_, stands.gets inChain, gets⟩
  · rw [opened.disk]
    exact all.neverReturned stands i

theorem flushedTable_exists :
    ∃ (start manager : TableManager bufferPoolSize) (log : List (Event bufferPoolSize)),
      Initialised start ∧ DatabaseRun start log manager ∧ EndsFlushed log ∧
      createdNames log = [ascii "t"] := by
  obtain ⟨start, initialised⟩ := @initialised_exists bufferPoolSize _ (fun _ _ => 0) (fun _ => 0)
  obtain ⟨s, booted⟩ := initialised.booted
  have stands := booted.state.stands
  have few := booted.few
  have sized : Catalog.Sized (ascii "t") [⟨ascii "c", intType, 1⟩] := by
    refine ⟨by decide, ?_⟩
    intro column member
    rw [List.mem_singleton.mp member]
    decide
  obtain ⟨middle, _, created, _, stands'⟩ := stands.createTable_step sized
    (show s.pages + 1 + 2 < 2 ^ 31 by omega) (fun _ => 0) (fun _ => 0) []
  obtain ⟨manager, flushed, _⟩ := stands'.flushAll_step
    [⟨.createTable (fun _ => 0) (fun _ => 0) (ascii "t") [⟨ascii "c", intType, 1⟩],
      .ok (.created (generateUuid fun _ => 0))⟩]
  exact ⟨start, manager, _, initialised, (Run.nil.cons created).cons flushed, trivial, rfl⟩

/-- A database with one table, flushed and opened again. -/
theorem restart_loses_nothing_table :
    ∃ (start manager : TableManager bufferPoolSize) (log : List (Event bufferPoolSize)),
      Initialised start ∧ DatabaseRun start log manager ∧ EndsFlushed log ∧
      createdNames log = [ascii "t"] ∧
      ∃ manager', (restart (fun _ _ => 0) (fun _ => 0)).Returns manager ⟨⟩ manager' ∧
        SameCatalog manager manager' ∧ ∀ hf ∈ manager.allHeaps, ∃ chain,
          SameHeap manager.catalog.world.bm manager'.catalog.world.bm hf chain ∧
          NeverReturned manager'.catalog.world.bm.disk chain := by
  obtain ⟨start, manager, log, initialised, run, flushed, names⟩ := flushedTable_exists
  exact ⟨start, manager, log, initialised, run, flushed, names,
    restart_loses_nothing start initialised log manager run flushed _ _⟩

end RelationalDb.TableManager
