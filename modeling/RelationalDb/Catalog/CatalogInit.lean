import RelationalDb.Catalog.CatalogCalls
import RelationalDb.Storage.OnDisk

set_option autoImplicit false

namespace RelationalDb

open HeapFile
open BufferManager (Steady Backed)

def rowSize (bytes : List UInt8) : Nat := bytes.length + 4

namespace HeapState

variable {s s' : HeapState}

/-- Rows of columns that fit a page are put down by first fit. -/
theorem ColumnsInserted.bins_eq {columns : List ColumnInfo} {names : List (List UInt8)}
    {ids : List Uuid} (inserted : ColumnsInserted columns s s') (sound : Sound s)
    (catalogued : Catalogued s names ids) (known : ∀ column ∈ columns, column.tableId ∈ ids)
    (fits : ∀ column ∈ columns, (ColumnInfoCodec.encode column).length ≤ 8176) :
    s'.relationBins .attributes = FirstFit.insertAll 8180 rowSize (s.relationBins .attributes)
      (columns.map ColumnInfoCodec.encode) := by
  induction inserted with
  | nil => rfl
  | @cons column columns result s s₁ s' effect rest ih =>
      have first := effect.relationBins_insert sound (catalogued.present .attributes)
        (ColumnInfoCodec.encode_ne_nil column)
      rw [if_pos (fits column List.mem_cons_self)] at first
      rw [ih (effect.sound sound)
        (catalogued.insertColumn sound effect (known column List.mem_cons_self))
        (fun other member => known other (List.mem_cons_of_mem _ member))
        (fun other member => fits other (List.mem_cons_of_mem _ member)), first]
      rfl

theorem ColumnsInserted.pages_le {columns : List ColumnInfo} {names : List (List UInt8)}
    {ids : List Uuid} (inserted : ColumnsInserted columns s s') (sound : Sound s)
    (catalogued : Catalogued s names ids) (known : ∀ column ∈ columns, column.tableId ∈ ids) :
    s'.pages ≤ s.pages + columns.length := by
  induction inserted with
  | nil => exact Int.le_add_of_nonneg_right (Int.natCast_nonneg _)
  | @cons column columns result s s₁ s' effect rest ih =>
      have first := effect.pages_insert (catalogued.present .attributes)
        (CatalogTable.heapFile_valid .attributes)
      have further := ih (effect.sound sound)
        (catalogued.insertColumn sound effect (known column List.mem_cons_self))
        (fun other member => known other (List.mem_cons_of_mem _ member))
      rw [List.length_cons]
      omega

end HeapState

namespace Catalog

variable {N : Nat} {catalog : Catalog N} {s : HeapState}

theorem bootstrapPage_returns (steady : Steady catalog.world.bm s.view (fun _ => 0) s.pages)
    (more : s.pages + 1 < 2 ^ 31) (fileId : Uuid) :
    ∃ bm' s', (bootstrapPage s.pages).Returns catalog ⟨⟩ (catalog.setPool bm') ∧
      HeapState.Effect (.create fileId) (.made s.heaps.length) s s' ∧
      Steady bm' s'.view (fun _ => 0) s'.pages := by
  have given := steady.allocated.lower
  obtain ⟨bm₁, allocated, steady₁⟩ := allocatePage_returns steady more
  obtain ⟨frame, bm₂, requested, opened⟩ := steady₁.request given
  obtain ⟨bm', unpinned, steady'⟩ :=
    (opened.write (by omega) (initHeapPage (bm₂.pool frame).data)).unpin
  refine ⟨bm', _, ?_, .create (bm₂.pool frame).data more, steady'⟩
  apply (onPool_returns catalog allocated).bind
  apply (Program.assert_returns (decide_eq_true rfl) _).bind
  apply (onPool_returns (catalog.setPool bm₁) requested).bind
  apply (onPool_returns (catalog.setPool bm₂)
    (BufferManager.modifyData_returns bm₂ frame initHeapPage)).bind
  apply (onPool_returns (catalog.setPool _)
    (BufferManager.markDirty_returns bm₂ frame initHeapPage)).bind
  exact onPool_returns (catalog.setPool _) unpinned

/-- The pages of a new database before its relations: page 0. -/
def headerState : HeapState :=
  { view := Function.update (stored (DiskManager.openFile File.empty)) rootPageId (some headerPage)
    pages := 1
    heaps := []
    chain := fun _ => [] }

theorem headerState_sound : headerState.Sound := by
  refine ⟨?_, fun _ _ => rfl, fun _ => List.nodup_nil, ?_, ?_, by decide, by decide⟩
  · intro i heap found
    cases found
  · intro i j pageId member
    cases member
  · intro i pageId member
    cases member

/-- A catalog that was not set up, over a database file. -/
def fresh [NeZero N] (raw : Fin N → Page) (file : File) (heaps : List HeapFile) : Catalog N :=
  { world := ⟨BufferManager.new raw (DiskManager.openFile file), heaps⟩
    relations := fun _ => none }

theorem bootstrapHeader_returns [NeZero N] (raw : Fin N → Page) :
    ∃ bm', bootstrapHeader.Returns (fresh raw File.empty []) ⟨⟩
        ((fresh raw File.empty []).setPool bm') ∧
      Steady bm' headerState.view (fun _ => 0) headerState.pages := by
  have shows := World.start_shows raw File.empty (by decide)
  obtain ⟨bm₁, allocated, steady₁⟩ := allocatePage_returns shows.steady (by decide)
  have absent : bm₁.pageTable rootPageId = none := by
    rw [allocatePage_pageTable allocated]
    rfl
  have written := steady₁.writePage absent (by decide) (by decide) headerPage
  refine ⟨_, ?_, written⟩
  apply (onPool_returns (fresh raw File.empty []) allocated).bind
  apply (Program.assert_returns (by decide) _).bind
  exact onPool_returns (Catalog.setPool _ bm₁) (Program.modify_returns _ _)

def systemIds : List Uuid := [dbTablesTableId, dbAttributesTableId, dbTypesTableId]

/-- The row of a relation in `db_tables`. -/
def systemRow : CatalogTable → TableInfo
  | .tables => ⟨dbTablesTableId, dbTablesTable, dbTablesFileId, dbTablesRootPageId⟩
  | .attributes =>
      ⟨dbAttributesTableId, dbAttributesTable, dbAttributesFileId, dbAttributesRootPageId⟩
  | .types => ⟨dbTypesTableId, dbTypesTable, dbTypesFileId, dbTypesRootPageId⟩

/-- The catalog during the bootstrap, after the rows of `tables`, `columns` and `types`. -/
structure Booting (catalog : Catalog N) (s : HeapState) (tables : List TableInfo)
    (columns : List ColumnInfo) (types : List TypeInfo) (pages : Int) : Prop where
  holds : Holds catalog s
  catalogued : s.Catalogued systemNames systemIds
  tableBins : s.relationBins .tables = tables.foldl HeapState.withTableRow [⟨8180, []⟩]
  bins : s.relationBins .attributes =
    FirstFit.insertAll 8180 rowSize [⟨8180, []⟩] (columns.map ColumnInfoCodec.encode)
  typeBins : s.relationBins .types =
    FirstFit.insertAll 8180 rowSize [⟨8180, []⟩] (types.map TypeInfoCodec.encode)
  first : s.FirstRows
  bound : s.pages ≤ pages
  heaps : catalog.world.heaps = []

/-- The state with the first pages of the three relations. -/
def relationState (first second third : Page) : HeapState :=
  ((headerState.withFirstPage 0 [CatalogTable.tables.heapFile] first).withFirstPage 1
    [CatalogTable.tables.heapFile, CatalogTable.attributes.heapFile] second).withFirstPage 2
      systemHeaps third

theorem relationState_bins (first second third : Page) (table : CatalogTable) :
    (relationState first second third).relationBins table = [⟨8180, []⟩] := by
  cases table with
  | tables => exact congrArg (· :: []) (@HeapState.pageBin_made _ _ first rfl)
  | attributes => exact congrArg (· :: []) (@HeapState.pageBin_made _ _ second rfl)
  | types => exact congrArg (· :: []) (@HeapState.pageBin_made _ _ third rfl)

theorem relationState_catalogued (first second third : Page) :
    (relationState first second third).Catalogued systemNames systemIds := by
  have none : ∀ table, (relationState first second third).rows table = [] := by
    intro table
    rw [HeapState.rows, relationState_bins]
    rfl
  have pages : (relationState first second third).pages = 4 := rfl
  refine ⟨rfl, ?_, by omega, systemHeaps_index, ?_, ?_⟩
  · intro i member
    rcases HeapState.mem_withFirstPage member with earlier | impossible
    · rcases HeapState.mem_withFirstPage earlier with earlier | impossible
      · rcases HeapState.mem_withFirstPage earlier with none | impossible
        · cases none
        · exact absurd (show (0 : Int) = 1 from impossible) (by decide)
      · exact absurd (show (0 : Int) = 2 from impossible) (by decide)
    · exact absurd (show (0 : Int) = 3 from impossible) (by decide)
  · intro bytes member
    rw [none] at member
    cases member
  · intro bytes member
    rw [none] at member
    cases member

variable {tables : List TableInfo} {columns : List ColumnInfo} {types : List TypeInfo} {pages : Int}

theorem loadCatalogs_returns (catalog : Catalog N) :
    loadCatalogs.Returns catalog ⟨⟩ { catalog with relations := fun table => some table.heapFile } := by
  have relations : Function.update (Function.update (Function.update catalog.relations
      CatalogTable.tables (some CatalogTable.tables.heapFile))
      CatalogTable.attributes (some CatalogTable.attributes.heapFile))
      CatalogTable.types (some CatalogTable.types.heapFile) =
        fun table => some table.heapFile := by
    funext table
    cases table <;> rfl
  rw [← relations]
  rfl

theorem Booting.insertType (booting : Booting catalog s tables columns types pages) (row : TypeInfo)
    (fits : (TypeInfoCodec.encode row).length ≤ 8176) (more : pages + 1 < 2 ^ 31) :
    ∃ result catalog' s', (Catalog.insertType row).Returns catalog result catalog' ∧
      Booting catalog' s' tables columns (types ++ [row]) (pages + 1) := by
  have bound := booting.bound
  have nonempty : TypeInfoCodec.encode row ≠ [] := by
    apply List.ne_nil_of_length_pos
    rw [TypeInfoCodec.encode_length]
    omega
  obtain ⟨result, catalog', s', inserts⟩ := @Holds.insert_inserts N catalog s booting.holds .types _
    (Nat.lt_of_le_of_lt fits (by decide)) (roomFor_of_pages (by omega))
  have sound := booting.holds.shows.sound
  have grows := inserts.pages_le booting.holds
  have same := inserts.effect.rows_eq sound (booting.holds.present .tables)
    (HeapState.target_insert (by decide))
  refine ⟨result, catalog', s', inserts.returned, inserts.holds,
    booting.catalogued.insertType sound inserts.effect, same.trans booting.tableBins, ?_, ?_,
    booting.first.same same, by omega, inserts.heaps.trans booting.heaps⟩
  · rw [inserts.effect.rows_eq sound (booting.holds.present .attributes)
      (HeapState.target_insert (by decide)), booting.bins]
  · rw [inserts.effect.relationBins_insert sound (booting.holds.present .types) nonempty, if_pos fits,
      booting.typeBins, List.map_append, FirstFit.insertAll, FirstFit.insertAll, List.foldl_append]
    rfl

theorem systemRow_leadsTo (holds : Holds catalog s) (table : CatalogTable) :
    s.LeadsTo systemNames systemIds (systemRow table) := by
  have named : (systemRow table).tableName ∈ systemNames := by cases table <;> decide
  have place : (⟨(systemRow table).heapFileId, (systemRow table).firstPageId⟩ : HeapFile) =
      table.heapFile := by cases table <;> rfl
  refine ⟨by cases table <;> decide, by cases table <;> decide, named, by cases table <;> decide,
    table.index, ?_,
    fun other => absurd named other⟩
  rw [place]
  exact holds.present table

theorem Booting.insertTable (booting : Booting catalog s tables columns types pages)
    (table : CatalogTable) (more : pages + 1 < 2 ^ 31) :
    ∃ result catalog' s', (Catalog.insertTable (systemRow table)).Returns catalog result catalog' ∧
      Booting catalog' s' (tables ++ [systemRow table]) columns types (pages + 1) := by
  have bound := booting.bound
  have sized : (TableInfoCodec.encode (systemRow table)).length < 2 ^ 63 := by
    rw [TableInfoCodec.encode_length]
    cases table <;> decide
  obtain ⟨result, catalog', s', inserts⟩ :=
    @Holds.insert_inserts N catalog s booting.holds .tables _ sized (roomFor_of_pages (by omega))
  have sound := booting.holds.shows.sound
  have grows := inserts.pages_le booting.holds
  have more' := inserts.effect.withTableRow sound (booting.holds.present .tables)
  refine ⟨result, catalog', s', inserts.returned, inserts.holds, booting.catalogued.insertTable sound
    inserts.effect (systemRow_leadsTo booting.holds table), ?_, ?_, ?_,
    HeapState.FirstRows.insert booting.first ?_ more', by omega,
    inserts.heaps.trans booting.heaps⟩
  · rw [more', booting.tableBins, List.foldl_append]
    rfl
  · rw [inserts.effect.rows_eq sound (booting.holds.present .attributes)
      (HeapState.target_insert (by decide)), booting.bins]
  · rw [inserts.effect.rows_eq sound (booting.holds.present .types)
      (HeapState.target_insert (by decide)), booting.typeBins]
  · intro fits
    have leads := systemRow_leadsTo booting.holds table
    exact TableInfoCodec.decode_encode (Int.le_trans (by decide) leads.lower) leads.upper fits.short

/-- The rows of a schema. -/
theorem Booting.insertColumns (booting : Booting catalog s tables columns types pages)
    (schema : List ColumnInfo)
    (known : ∀ column ∈ schema, column.tableId ∈ systemIds)
    (fits : ∀ column ∈ schema, (ColumnInfoCodec.encode column).length ≤ 8176)
    (more : pages + schema.length < 2 ^ 31) :
    ∃ catalog' s', (Catalog.insertColumns schema).Returns catalog ⟨⟩ catalog' ∧
      Booting catalog' s' tables (columns ++ schema) types (pages + schema.length) := by
  have bound := booting.bound
  obtain ⟨catalog', s', returned, inserted, holds', heaps⟩ :=
    booting.holds.insertColumns_returns (fun column member => by
      have small := fits column member
      omega) (by omega)
  have sound := booting.holds.shows.sound
  have grows := inserted.pages_le sound booting.catalogued known
  have same := inserted.other_eq sound booting.catalogued known
    (show CatalogTable.attributes ≠ .tables by decide)
  have sameTypes := inserted.other_eq sound booting.catalogued known
    (show CatalogTable.attributes ≠ .types by decide)
  refine ⟨catalog', s', returned, holds', inserted.catalogued sound booting.catalogued known,
    same.trans booting.tableBins, ?_, sameTypes.trans booting.typeBins, booting.first.same same,
    by omega, heaps.trans booting.heaps⟩
  rw [inserted.bins_eq sound booting.catalogued known fits, booting.bins, List.map_append]
  exact List.foldl_append.symm

def systemRows : List TableInfo := [systemRow .tables, systemRow .attributes, systemRow .types]

def systemColumns : List ColumnInfo :=
  tablesCatalogSchema ++ attrCatalogSchema ++ typesCatalogSchema

def builtinTypes : List TypeInfo := [⟨intType, intSize, []⟩, ⟨textType, textSize, []⟩]

theorem Booting.insertBuiltinTypes (booting : Booting catalog s tables columns [] pages)
    (more : pages + 2 < 2 ^ 31) :
    ∃ catalog' s', Catalog.insertBuiltinTypes.Returns catalog ⟨⟩ catalog' ∧
      Booting catalog' s' tables columns builtinTypes (pages + 1 + 1) := by
  obtain ⟨_, _, _, int, booting₁⟩ := booting.insertType ⟨intType, intSize, []⟩ (by decide) (by omega)
  obtain ⟨_, _, _, text, booting₂⟩ :=
    booting₁.insertType ⟨textType, textSize, []⟩ (by decide) (by omega)
  exact ⟨_, _, int.bind (text.bind (Program.pure_returns _ _)), booting₂⟩

theorem systemSchema_fits {schema : List ColumnInfo}
    (short : ∀ column ∈ schema, column.colName.length ≤ 16) :
    ∀ column ∈ schema, (ColumnInfoCodec.encode column).length ≤ 8176 := by
  intro column member
  have bound := short column member
  rw [ColumnInfoCodec.encode_length]
  omega

theorem Booting.insertCatalogMetadata (booting : Booting catalog s [] [] types pages)
    (more : pages + 14 < 2 ^ 31) :
    ∃ catalog' s', Catalog.insertCatalogMetadata.Returns catalog ⟨⟩ catalog' ∧
      Booting catalog' s' systemRows systemColumns types (pages + 1 + 4 + 1 + 4 + 1 + 3) := by
  obtain ⟨_, _, _, first, booting⟩ := booting.insertTable .tables (by omega)
  obtain ⟨_, _, firstColumns, booting⟩ := booting.insertColumns tablesCatalogSchema (by decide)
    (systemSchema_fits (by decide)) (show pages + 1 + 4 < 2 ^ 31 by omega)
  obtain ⟨_, _, _, second, booting⟩ :=
    booting.insertTable .attributes (show pages + 1 + 4 + 1 < 2 ^ 31 by omega)
  obtain ⟨_, _, secondColumns, booting⟩ := booting.insertColumns attrCatalogSchema (by decide)
    (systemSchema_fits (by decide)) (show pages + 1 + 4 + 1 + 4 < 2 ^ 31 by omega)
  obtain ⟨_, _, _, third, booting⟩ :=
    booting.insertTable .types (show pages + 1 + 4 + 1 + 4 + 1 < 2 ^ 31 by omega)
  obtain ⟨_, _, thirdColumns, booting⟩ := booting.insertColumns typesCatalogSchema (by decide)
    (systemSchema_fits (by decide)) (show pages + 1 + 4 + 1 + 4 + 1 + 3 < 2 ^ 31 by omega)
  exact ⟨_, _, first.bind (firstColumns.bind (second.bind (secondColumns.bind
    (third.bind thirdColumns)))), booting⟩

theorem bootstrapRelations_returns (steady : Steady catalog.world.bm headerState.view (fun _ => 0)
    headerState.pages) :
    ∃ first second third bm₁ bm₂ bm₃,
      (bootstrapPage dbTablesRootPageId).Returns catalog ⟨⟩ (catalog.setPool bm₁) ∧
      (bootstrapPage dbAttributesRootPageId).Returns (catalog.setPool bm₁) ⟨⟩
        (catalog.setPool bm₂) ∧
      (bootstrapPage dbTypesRootPageId).Returns (catalog.setPool bm₂) ⟨⟩ (catalog.setPool bm₃) ∧
      Steady bm₃ (relationState first second third).view (fun _ => 0) 4 ∧
      (relationState first second third).Sound := by
  obtain ⟨bm₁, _, tables, effect₁, steady₁⟩ :=
    bootstrapPage_returns steady (by decide) dbTablesFileId
  obtain ⟨first, rfl⟩ := effect₁.made
  obtain ⟨bm₂, _, attributes, effect₂, steady₂⟩ := @bootstrapPage_returns N (catalog.setPool bm₁) _
    steady₁ (show (3 : Int) < 2 ^ 31 by decide) dbAttributesFileId
  obtain ⟨second, rfl⟩ := effect₂.made
  obtain ⟨bm₃, _, types, effect₃, steady₃⟩ := @bootstrapPage_returns N (catalog.setPool bm₂) _
    steady₂ (show (4 : Int) < 2 ^ 31 by decide) dbTypesFileId
  obtain ⟨third, rfl⟩ := effect₃.made
  exact ⟨first, second, third, bm₁, bm₂, bm₃, tables, attributes, types, steady₃,
    effect₃.sound (effect₂.sound (effect₁.sound headerState_sound))⟩

theorem isInitialised_empty [NeZero N] (raw : Fin N → Page) (buf : Page) :
    (isInitialised buf).Returns (fresh raw File.empty []) false (fresh raw File.empty []) := by
  apply (Program.get_returns _).bind
  have none : DiskManager.getNumPages (fresh raw File.empty []).world.bm.disk.dbIo ≤ 0 := by
    show DiskManager.getNumPages File.empty ≤ 0
    decide
  simp only [none, ↓reduceIte]
  exact Program.pure_returns _ _

/-- `Init` sets a new database up and leaves all of it on the disk. -/
theorem init_empty [NeZero N] (raw : Fin N → Page) (buf : Page) :
    ∃ catalog' s, (init buf).Returns (fresh raw File.empty []) ⟨⟩ catalog' ∧
      Booting catalog' s systemRows systemColumns builtinTypes 20 ∧
      BufferManager.OnDisk catalog'.world.bm s.view := by
  obtain ⟨bm₀, header, steady₀⟩ := bootstrapHeader_returns raw
  obtain ⟨first, second, third, bm₁, bm₂, bm₃, tables, attributes, types, steady, sound⟩ :=
    @bootstrapRelations_returns N ((fresh raw File.empty []).setPool bm₀) steady₀
  have loaded := loadCatalogs_returns ((fresh raw File.empty []).setPool bm₃)
  have firstRows : (relationState first second third).FirstRows := by
    intro tableName
    rw [relationState_bins]
    exact FirstFit.settled_single _
  have booting : Booting { (fresh raw File.empty []).setPool bm₃ with
      relations := fun table => some table.heapFile } (relationState first second third) [] [] [] 4 :=
    ⟨⟨⟨steady, rfl, sound⟩, fun _ => rfl⟩, relationState_catalogued first second third,
      relationState_bins first second third .tables,
      relationState_bins first second third .attributes,
      relationState_bins first second third .types, firstRows, Int.le_refl _, rfl⟩
  obtain ⟨_, _, builtin, booting⟩ := booting.insertBuiltinTypes (by decide)
  obtain ⟨catalog', s, metadata, booting⟩ := booting.insertCatalogMetadata (by decide)
  obtain ⟨steady', whole⟩ := booting.holds.shows.steady.flushAll
  refine ⟨catalog'.setPool catalog'.world.bm.flushed, s, ?_, ⟨?_, booting.catalogued,
    booting.tableBins, booting.bins, booting.typeBins, booting.first, booting.bound, booting.heaps⟩,
    BufferManager.flushed_onDisk whole⟩
  · apply Program.Returns.bind (isInitialised_empty raw buf)
    rw [if_neg Bool.false_ne_true]
    apply header.bind
    apply tables.bind
    apply attributes.bind
    apply types.bind
    apply loaded.bind
    apply builtin.bind
    apply metadata.bind
    exact onPool_returns catalog' (BufferManager.flushAll_returns _)
  · exact booting.holds.setPool steady' rfl booting.holds.shows.sound

end Catalog

end RelationalDb
