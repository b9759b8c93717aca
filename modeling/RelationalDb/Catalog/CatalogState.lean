import RelationalDb.Access.HeapShift
import RelationalDb.Catalog.Catalog

set_option autoImplicit false

namespace RelationalDb

open HeapFile
open BufferManager (Steady)

namespace CatalogTable

/-- The heap file of a relation that was set up. -/
def heapFile : CatalogTable → HeapFile
  | tables => openHeap dbTablesFileId dbTablesRootPageId
  | attributes => openHeap dbAttributesFileId dbAttributesRootPageId
  | types => openHeap dbTypesFileId dbTypesRootPageId

/-- The heaps of the catalog come first. -/
def index : CatalogTable → Nat
  | tables => 0
  | attributes => 1
  | types => 2

theorem heapFile_valid (table : CatalogTable) : table.heapFile.firstPageId ≠ invalidPageId := by
  cases table <;> decide

theorem index_inj {first second : CatalogTable} (same : first.index = second.index) :
    first = second := by
  cases first <;> cases second <;> first | rfl | cases same

theorem index_lt (table : CatalogTable) : table.index < 3 := by
  cases table <;> decide

end CatalogTable

def systemHeaps : List HeapFile :=
  [CatalogTable.tables.heapFile, CatalogTable.attributes.heapFile, CatalogTable.types.heapFile]

def systemNames : List (List UInt8) := [dbTablesTable, dbAttributesTable, dbTypesTable]

theorem systemHeaps_index (table : CatalogTable) :
    systemHeaps[table.index]? = some table.heapFile := by
  cases table <;> rfl

namespace Catalog

variable {N : Nat} {catalog catalog' : Catalog N} {s s' : HeapState}

/-- A catalog that was set up, on the pages of a heap state. -/
structure Holds (catalog : Catalog N) (s : HeapState) : Prop where
  shows : World.Shows (World.behind systemHeaps catalog.world) s (fun _ => 0)
  relations : ∀ table, catalog.relations table = some table.heapFile

theorem Holds.present (holds : Holds catalog s) (table : CatalogTable) :
    s.heaps[table.index]? = some table.heapFile := by
  rw [← holds.shows.heaps, World.behind, List.getElem?_append_left (index_bound table),
    systemHeaps_index]
where
  index_bound (table : CatalogTable) : table.index < systemHeaps.length := table.index_lt

theorem Holds.setPool (holds : Holds catalog s) {bm' : BufferManager N DiskManager}
    (steady : Steady bm' s'.view (fun _ => 0) s'.pages) (heaps : s'.heaps = s.heaps)
    (sound : s'.Sound) : Holds (catalog.setPool bm') s' :=
  ⟨⟨steady, by rw [heaps]; exact holds.shows.heaps, sound⟩, holds.relations⟩

theorem onPool_returns (catalog : Catalog N) {α : Type} {program : Heap N α} {value : α}
    {bm' : BufferManager N DiskManager} (returned : program.Returns catalog.world.bm value bm') :
    (onPool program).Returns catalog value (catalog.setPool bm') :=
  Program.Returns.within (fun catalog : Catalog N => catalog.world.bm) setPool returned

theorem onPool_cases {α : Type} {program : Heap N α} {outcome : Except Error α}
    (ended : onPool program catalog = some (outcome, catalog')) :
    ∃ bm', program catalog.world.bm = some (outcome, bm') ∧ catalog.setPool bm' = catalog' :=
  Program.within_eq_some.mp ended

theorem relation_returns {table : CatalogTable} {hf : HeapFile}
    (present : catalog.relations table = some hf) : (relation table).Returns catalog hf catalog := by
  apply (Program.get_returns _).bind
  rw [present]
  exact Program.pure_returns _ _

theorem Holds.relation_returns (holds : Holds catalog s) (table : CatalogTable) :
    (relation table).Returns catalog table.heapFile catalog :=
  Catalog.relation_returns (holds.relations table)

/-- Putting the heap file of a relation back changes nothing. -/
theorem Holds.emplace_returns (holds : Holds catalog s) (table : CatalogTable) :
    (emplace table table.heapFile).Returns catalog ⟨⟩ catalog := by
  apply (Program.returns_modify _ _ _ ⟨⟩).mpr
  rw [← holds.relations table, Function.update_eq_self]

theorem Holds.heapInsert_returns (holds : Holds catalog s) {i : Nat} {hf : HeapFile}
    {bytes : List UInt8} (present : s.heaps[i]? = some hf) (made : hf.firstPageId ≠ invalidPageId)
    (bounded : bytes.length < 2 ^ 63) (room : World.RoomFor s i hf bytes) :
    ∃ result bm' s', (hf.insert bytes).Returns catalog.world.bm (result, hf) bm' ∧
      HeapState.Effect (.insert i bytes) (.placed result) s s' ∧ Holds (catalog.setPool bm') s' := by
  obtain ⟨result, heap', bm', s', returned, effect, steady', heaps⟩ :=
    World.insert_returns holds.shows present bounded room
  have kept := effect.heaps_kept present made
  obtain ⟨bound, here⟩ := List.getElem?_eq_some_iff.mp present
  rw [heaps, List.getElem?_set_self bound, Option.some.injEq] at kept
  subst kept
  rw [← here, List.set_getElem_self bound] at heaps
  exact ⟨result, bm', s', returned, effect,
    holds.setPool steady' heaps (effect.sound holds.shows.sound)⟩

theorem Holds.heapInsert_ends (holds : Holds catalog s) {i : Nat} {hf : HeapFile}
    {bytes : List UInt8} (present : s.heaps[i]? = some hf) (made : hf.firstPageId ≠ invalidPageId)
    (bounded : bytes.length < 2 ^ 63) {outcome : Except Error (Option Rid × HeapFile)}
    {bm' : BufferManager N DiskManager}
    (ended : hf.insert bytes catalog.world.bm = some (outcome, bm'))
    (unwrapped : 0 ≤ nextAllocated bm') :
    ∃ result s', outcome = .ok (result, hf) ∧
      HeapState.Effect (.insert i bytes) (.placed result) s s' ∧ Holds (catalog.setPool bm') s' := by
  have room := World.insert_roomFor holds.shows present bounded ended unwrapped
  obtain ⟨result, after, s', returned, effect, holds'⟩ :=
    holds.heapInsert_returns present made bounded room
  unfold Program.Returns at returned
  rw [returned] at ended
  cases ended
  exact ⟨result, s', rfl, effect, holds'⟩

/-- An insertion into a relation of the catalog. -/
structure Inserts (catalog : Catalog N) (s : HeapState) (table : CatalogTable) (bytes : List UInt8)
    (result : Option Rid) (catalog' : Catalog N) (s' : HeapState) : Prop where
  returned : (insertRaw table bytes).Returns catalog result catalog'
  effect : HeapState.Effect (.insert table.index bytes) (.placed result) s s'
  holds : Holds catalog' s'
  heaps : catalog'.world.heaps = catalog.world.heaps

/-- The insertion of a row, up to the insertion into its heap file. -/
theorem Holds.insertRaw_returns (holds : Holds catalog s) {table : CatalogTable}
    {bytes : List UInt8} {result : Option Rid} {bm' : BufferManager N DiskManager}
    (inserted : (table.heapFile.insert bytes).Returns catalog.world.bm (result, table.heapFile) bm')
    (holds' : Holds (catalog.setPool bm') s') :
    (insertRaw table bytes).Returns catalog result (catalog.setPool bm') := by
  apply (holds.relation_returns table).bind
  apply (onPool_returns catalog inserted).bind
  exact (holds'.emplace_returns table).bind (Program.pure_returns _ _)

theorem Holds.insert_inserts (holds : Holds catalog s) {table : CatalogTable} {bytes : List UInt8}
    (bounded : bytes.length < 2 ^ 63) (room : World.RoomFor s table.index table.heapFile bytes) :
    ∃ result catalog' s', Inserts catalog s table bytes result catalog' s' := by
  obtain ⟨result, bm', s', inserted, effect, holds'⟩ :=
    holds.heapInsert_returns (holds.present table) table.heapFile_valid bounded room
  exact ⟨result, catalog.setPool bm', s', holds.insertRaw_returns inserted holds', effect, holds', rfl⟩

theorem roomFor_of_pages {table : CatalogTable} {bytes : List UInt8} (more : s.pages + 1 < 2 ^ 31) :
    World.RoomFor s table.index table.heapFile bytes := by
  rw [World.RoomFor, if_neg table.heapFile_valid]
  exact fun _ => more

theorem Holds.insert_ends (holds : Holds catalog s) {table : CatalogTable} {bytes : List UInt8}
    (bounded : bytes.length < 2 ^ 63) {outcome : Except Error (Option Rid)}
    (ended : insertRaw table bytes catalog = some (outcome, catalog'))
    (unwrapped : 0 ≤ nextAllocated catalog'.world.bm) :
    ∃ result s', outcome = .ok result ∧ Inserts catalog s table bytes result catalog' s' := by
  have rest := ended
  unfold insertRaw at rest
  rw [(holds.relation_returns table).bind_eq] at rest
  have inner : ∃ outcome', table.heapFile.insert bytes catalog.world.bm =
      some (outcome', catalog'.world.bm) := by
    rcases Program.bind_cases rest with ⟨placed, middle, inserted, done⟩ | ⟨_, thrown, _⟩
    · obtain ⟨bm', inside, same⟩ := onPool_cases inserted
      have pool : catalog'.world.bm = bm' := by
        rw [← same] at done
        cases done
        rfl
      rw [pool]
      exact ⟨_, inside⟩
    · obtain ⟨bm', inside, same⟩ := onPool_cases thrown
      rw [← same]
      exact ⟨_, inside⟩
  obtain ⟨_, inner⟩ := inner
  obtain ⟨result, s', rfl, effect, holds'⟩ :=
    holds.heapInsert_ends (holds.present table) table.heapFile_valid bounded inner unwrapped
  have returned := holds.insertRaw_returns inner holds'
  have same := returned
  unfold Program.Returns at same
  rw [same, Option.some.injEq, Prod.mk.injEq] at ended
  rw [ended.2] at returned holds'
  refine ⟨result, s', ended.1.symm, returned, effect, holds', ?_⟩
  rw [← ended.2]
  rfl

end Catalog

end RelationalDb
