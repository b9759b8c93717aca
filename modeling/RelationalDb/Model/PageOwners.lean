import RelationalDb.Model.DatabaseChanges
import RelationalDb.Model.Restart
import RelationalDb.Model.TableRows

set_option autoImplicit false

namespace RelationalDb

namespace HeapState

variable {s s' : HeapState}

def Covered (s : HeapState) : Prop :=
  ∀ pageId, 0 < pageId → pageId < s.pages → ∃ i, pageId ∈ s.chain i

/-- A chain that loses no page and gains the new one. -/
theorem Covered.extend (covered : Covered s) {i : Nat} {chain : List Int}
    (kept : s.chain i ⊆ chain) (more : s.pages ∈ chain)
    (chains : s'.chain = Function.update s.chain i chain) (pages : s'.pages = s.pages + 1) :
    Covered s' := by
  intro pageId given below
  rw [chains]
  by_cases new : pageId = s.pages
  · refine ⟨i, ?_⟩
    rw [Function.update_self, new]
    exact more
  · obtain ⟨j, member⟩ := covered pageId given (by omega)
    refine ⟨j, ?_⟩
    by_cases same : j = i
    · rw [same, Function.update_self]
      rw [same] at member
      exact kept member
    · rw [Function.update_of_ne same]
      exact member

theorem Covered.congr (covered : Covered s) (chain : s'.chain = s.chain)
    (pages : s'.pages ≤ s.pages) : Covered s' := by
  intro pageId given below
  rw [chain]
  exact covered pageId given (by omega)

theorem Effect.covered {op : HeapOp} {answer : HeapAnswer} (effect : Effect op answer s s')
    (sound : Sound s) (covered : Covered s) : Covered s' := by
  induction effect with
  | @create s fileId raw more =>
      have empty := sound.beyond s.heaps.length (Nat.le_refl _)
      refine covered.extend ?_ (List.mem_singleton_self s.pages) rfl rfl
      rw [empty]
      exact List.nil_subset _
  | openEmpty => exact covered.congr rfl (Int.le_refl _)
  | @first s s' i heap data answer raw present lazy more rest ih =>
      apply ih (sound.made present more)
      refine covered.extend ?_ (List.mem_singleton_self s.pages) rfl rfl
      rw [sound.chain_nil present lazy]
      exact List.nil_subset _
  | placed => exact covered.congr rfl (Int.le_refl _)
  | grown =>
      exact covered.extend (List.subset_append_left _ _)
        (List.mem_append_right _ (List.mem_singleton_self _)) rfl rfl
  | get => exact covered
  | update => exact covered.congr rfl (Int.le_refl _)
  | delete => exact covered.congr rfl (Int.le_refl _)

theorem ColumnsInserted.covered {columns : List ColumnInfo}
    (inserted : ColumnsInserted columns s s') (sound : Sound s) (covered : Covered s) :
    Covered s' := by
  induction inserted with
  | nil => exact covered
  | cons effect rest ih => exact ih (effect.sound sound) (effect.covered sound covered)

theorem TableCreated.covered {tableId fileId : Uuid} {tableName : List UInt8}
    {columns : List ColumnInfo} (created : TableCreated s tableId fileId tableName columns s')
    (sound : Sound s) (covered : Covered s) : Covered s' := by
  obtain ⟨s₁, s₂, result, made, row, columns⟩ := created.steps
  have sound₁ := made.sound sound
  exact columns.covered (row.sound sound₁) (row.covered sound₁ (made.covered sound covered))

end HeapState

namespace Catalog

open HeapState (Covered)

variable {N : Nat} {catalog : Catalog N} {s : HeapState}

/-- A catalog during the bootstrap, with at most so many pages. -/
structure Filled (catalog : Catalog N) (s : HeapState) (pages : Int) : Prop where
  holds : Holds catalog s
  covered : s.Covered
  bound : s.pages ≤ pages

theorem Filled.insertRaw {pages : Int} (filled : Filled catalog s pages) (table : CatalogTable)
    (bytes : List UInt8) (sized : bytes.length < 2 ^ 63) (more : pages + 1 < 2 ^ 31) :
    ∃ result catalog' s', (Catalog.insertRaw table bytes).Returns catalog result catalog' ∧
      Filled catalog' s' (pages + 1) := by
  have bound := filled.bound
  obtain ⟨result, catalog', s', inserts⟩ :=
    @Holds.insert_inserts N catalog s filled.holds table bytes sized (roomFor_of_pages (by omega))
  have grows := inserts.pages_le filled.holds
  exact ⟨result, catalog', s', inserts.returned, inserts.holds,
    inserts.effect.covered filled.holds.shows.sound filled.covered, by omega⟩

theorem Filled.insertColumns {pages : Int} (filled : Filled catalog s pages)
    (columns : List ColumnInfo)
    (sized : ∀ column ∈ columns, (ColumnInfoCodec.encode column).length < 2 ^ 63)
    (more : pages + columns.length < 2 ^ 31) :
    ∃ catalog' s', (Catalog.insertColumns columns).Returns catalog ⟨⟩ catalog' ∧
      Filled catalog' s' (pages + columns.length) := by
  induction columns generalizing catalog s pages with
  | nil =>
      refine ⟨catalog, s, Program.pure_returns _ _, filled.holds, filled.covered, ?_⟩
      exact Int.le_trans filled.bound (Int.le_add_of_nonneg_right (Int.natCast_nonneg _))
  | cons column columns ih =>
      rw [List.length_cons] at more ⊢
      obtain ⟨_, catalog₁, s₁, inserted, filled₁⟩ := filled.insertRaw .attributes _
        (sized column List.mem_cons_self) (by omega)
      obtain ⟨catalog', s', returned, filled'⟩ := ih filled₁
        (fun other member => sized other (List.mem_cons_of_mem _ member)) (by omega)
      refine ⟨catalog', s', inserted.bind returned, filled'.holds, filled'.covered, ?_⟩
      have bound := filled'.bound
      omega

theorem Filled.insertTypes {pages : Int} (filled : Filled catalog s pages)
    (more : pages + 2 < 2 ^ 31) :
    ∃ catalog' s', Catalog.insertBuiltinTypes.Returns catalog ⟨⟩ catalog' ∧
      Filled catalog' s' (pages + 1 + 1) := by
  obtain ⟨_, _, _, int, filled⟩ := filled.insertRaw .types
    (TypeInfoCodec.encode ⟨intType, intSize, []⟩) (by decide) (by omega)
  obtain ⟨_, _, _, text, filled⟩ := filled.insertRaw .types
    (TypeInfoCodec.encode ⟨textType, textSize, []⟩) (by decide) (by omega)
  exact ⟨_, _, int.bind (text.bind (Program.pure_returns _ _)), filled⟩

theorem systemRow_sized (table : CatalogTable) :
    (TableInfoCodec.encode (systemRow table)).length < 2 ^ 63 := by
  rw [TableInfoCodec.encode_length]
  cases table <;> decide

/-- The row and the columns of a system table. -/
theorem Filled.insertSystem {pages : Int} (filled : Filled catalog s pages) (table : CatalogTable)
    (schema : List ColumnInfo) (short : ∀ column ∈ schema, column.colName.length ≤ 16)
    (more : pages + 1 + schema.length < 2 ^ 31) :
    ∃ result catalog₁ catalog' s',
      (Catalog.insertTable (systemRow table)).Returns catalog result catalog₁ ∧
      (Catalog.insertColumns schema).Returns catalog₁ ⟨⟩ catalog' ∧
      Filled catalog' s' (pages + 1 + schema.length) := by
  obtain ⟨result, catalog₁, s₁, row, filled₁⟩ :=
    filled.insertRaw .tables _ (systemRow_sized table) (by omega)
  obtain ⟨catalog', s', columns, filled'⟩ := filled₁.insertColumns schema
    (fun column member => Nat.lt_of_le_of_lt (systemSchema_fits short column member) (by decide))
    more
  exact ⟨result, catalog₁, catalog', s', row, columns, filled'⟩

theorem Filled.insertMetadata {pages : Int} (filled : Filled catalog s pages)
    (more : pages + 14 < 2 ^ 31) :
    ∃ catalog' s', Catalog.insertCatalogMetadata.Returns catalog ⟨⟩ catalog' ∧
      Filled catalog' s' (pages + 1 + 4 + 1 + 4 + 1 + 3) := by
  obtain ⟨_, _, _, _, first, firstColumns, filled⟩ :=
    filled.insertSystem .tables tablesCatalogSchema (by decide)
      (show pages + 1 + 4 < 2 ^ 31 by omega)
  obtain ⟨_, _, _, _, second, secondColumns, filled⟩ :=
    filled.insertSystem .attributes attrCatalogSchema (by decide)
      (show pages + 1 + 4 + 1 + 4 < 2 ^ 31 by omega)
  obtain ⟨_, _, _, _, third, thirdColumns, filled⟩ :=
    filled.insertSystem .types typesCatalogSchema (by decide)
      (show pages + 1 + 4 + 1 + 4 + 1 + 3 < 2 ^ 31 by omega)
  exact ⟨_, _, first.bind (firstColumns.bind (second.bind (secondColumns.bind
    (third.bind thirdColumns)))), filled⟩

theorem relationState_covered (first second third : Page) :
    (relationState first second third).Covered := by
  intro pageId given below
  have few : pageId < 4 := below
  rcases show pageId = 1 ∨ pageId = 2 ∨ pageId = 3 by omega with rfl | rfl | rfl
  · exact ⟨0, List.mem_singleton_self _⟩
  · exact ⟨1, List.mem_singleton_self _⟩
  · exact ⟨2, List.mem_singleton_self _⟩

/-- `Init` on an empty file leaves every page with a system table. -/
theorem init_covered [NeZero N] (raw : Fin N → Page) (buf : Page) :
    ∃ catalog' s, (init buf).Returns (fresh raw File.empty []) ⟨⟩ catalog' ∧
      Holds catalog' s ∧ s.Covered := by
  obtain ⟨bm₀, header, steady₀⟩ := bootstrapHeader_returns raw
  obtain ⟨first, second, third, bm₁, bm₂, bm₃, tables, attributes, types, steady, sound⟩ :=
    @bootstrapRelations_returns N ((fresh raw File.empty []).setPool bm₀) steady₀
  have loaded := loadCatalogs_returns ((fresh raw File.empty []).setPool bm₃)
  have filled : Filled { (fresh raw File.empty []).setPool bm₃ with
      relations := fun table => some table.heapFile } (relationState first second third) 4 :=
    ⟨⟨⟨steady, rfl, sound⟩, fun _ => rfl⟩, relationState_covered first second third,
      Int.le_refl _⟩
  obtain ⟨_, _, builtin, filled⟩ := filled.insertTypes (by decide)
  obtain ⟨catalog', s, metadata, filled⟩ := filled.insertMetadata (by decide)
  obtain ⟨steady', _⟩ := filled.holds.shows.steady.flushAll
  refine ⟨catalog'.setPool catalog'.world.bm.flushed, s, ?_,
    filled.holds.setPool steady' rfl filled.holds.shows.sound, filled.covered⟩
  apply Program.Returns.bind (isInitialised_empty raw buf)
  rw [if_neg Bool.false_ne_true]
  apply header.bind
  apply tables.bind
  apply attributes.bind
  apply types.bind
  apply loaded.bind
  apply builtin.bind
  apply metadata.bind
  exact onPool_returns catalog' (BufferManager.flushAll_returns _)

theorem Holds.covered_unique {s' : HeapState} (holds : Holds catalog s) (holds' : Holds catalog s')
    (covered : s.Covered) : s'.Covered := by
  have heaps : s.heaps = s'.heaps := holds.shows.heaps.symm.trans holds'.shows.heaps
  have pages : s.pages = s'.pages :=
    holds.shows.steady.allocated.next.symm.trans holds'.shows.steady.allocated.next
  intro pageId given below
  obtain ⟨i, member⟩ := covered pageId given (by omega)
  refine ⟨i, ?_⟩
  have bound : i < s.heaps.length := by
    by_contra outside
    rw [holds.shows.sound.beyond i (by omega)] at member
    cases member
  have present : (World.behind systemHeaps catalog.world).heaps[i]? = some s.heaps[i] := by
    rw [holds.shows.heaps, List.getElem?_eq_getElem bound]
  have same := (holds.shows.chained.linked i _ present).unique
    (holds'.shows.chained.linked i _ present)
  rw [← same]
  exact member

end Catalog

namespace TableManager

open HeapFile
open HeapState (Covered)

variable {N : Nat} {manager manager' : TableManager N} {s s' : HeapState} {log : List (Event N)}

/-- The page is on the chain of the heap file with this number. -/
def OwnedBy (manager : TableManager N) (pageId : Int) (i : Nat) : Prop :=
  ∃ hf chain, manager.allHeaps[i]? = some hf ∧ Chain manager.pages hf.firstPageId chain ∧
    pageId ∈ chain

theorem Initialised.covered [NeZero N] (initialised : Initialised manager)
    (holds : manager.catalog.Holds s) : s.Covered := by
  obtain ⟨raw, buf, returned⟩ := initialised
  obtain ⟨catalog', s₀, init, holds₀, covered⟩ := Catalog.init_covered raw buf
  have inner := onCatalog_returns (new raw File.empty []) init
  obtain ⟨_, rfl⟩ := returned.value_eq inner
  exact holds₀.covered_unique holds covered

/-- No call leaves a page behind. -/
theorem Changes.covered {event : Event N} (changes : Changes manager event s s')
    {names : List (List UInt8)} {ids : List Uuid} {rids : List (Nat × Rid)}
    (stands : Stands manager s names ids rids) (covered : s.Covered) : s'.Covered := by
  have sound := stands.holds.shows.sound
  cases changes with
  | created created => exact created.covered sound covered
  | inserted opened present made own encoded effect => exact effect.covered sound covered
  | refused => exact covered
  | heap effect => exact effect.covered sound covered
  | reopened inFile =>
      have allocated := stands.holds.shows.steady.allocated
      have size : manager.catalog.world.bm.disk.dbIo.size < (s.pages.toNat + 1) * pageSize :=
        allocated.size
      have whole := (Nat.div_lt_iff_lt_mul (by decide : 0 < pageSize)).mpr size
      refine covered.congr rfl ?_
      show ((manager.catalog.world.bm.disk.dbIo.size / pageSize : Nat) : Int) ≤ s.pages
      have lower := allocated.lower
      omega
  | looked => exact covered

theorem coveredState [NeZero N] {start : TableManager N} (initialised : Initialised start)
    (run : DatabaseRun start log manager) : ∃ s, RunState log manager s ∧ s.Covered := by
  apply run.invariant fun log manager => ∃ s, RunState log manager s ∧ s.Covered
  · obtain ⟨s, booted⟩ := initialised.booted
    exact ⟨s, booted.state, initialised.covered booted.state.stands.holds⟩
  · intro log manager event manager' _ before taken
    obtain ⟨s, holds, covered⟩ := before
    obtain ⟨s', changes, holds'⟩ := holds.changes taken
    exact ⟨s', holds', changes.covered holds.stands covered⟩

/-- No page is lost and none is shared: at every point of a run the page ids that were given out
are the header and the pages of the heap files, and no page is in two heap files. -/
theorem pages_owned [NeZero N] (start : TableManager N) (initialised : Initialised start)
    (log : List (Event N)) (manager : TableManager N) (run : DatabaseRun start log manager)
    (pageId : Int) :
    (0 < pageId ∧ pageId < nextAllocated manager.catalog.world.bm ↔
      ∃ i, OwnedBy manager pageId i) ∧
    ∀ i j, OwnedBy manager pageId i → OwnedBy manager pageId j → i = j := by
  obtain ⟨s, holds, covered⟩ := coveredState initialised run
  have stands := holds.stands
  have sound := stands.holds.shows.sound
  have next : nextAllocated manager.catalog.world.bm = s.pages :=
    stands.holds.shows.steady.allocated.next
  have onChain : ∀ {i}, OwnedBy manager pageId i → pageId ∈ s.chain i := by
    rintro i ⟨hf, chain, found, linked, member⟩
    rw [(stands.chained found).unique linked]
    exact member
  rw [next]
  refine ⟨⟨?_, ?_⟩, fun i j owned other => sound.apart i j pageId (onChain owned) (onChain other)⟩
  · rintro ⟨given, below⟩
    obtain ⟨i, member⟩ := covered pageId given below
    have bound : i < manager.allHeaps.length := by
      rw [show manager.allHeaps = s.heaps from stands.holds.shows.heaps]
      by_contra outside
      rw [sound.beyond i (by omega)] at member
      cases member
    have found := List.getElem?_eq_getElem bound
    exact ⟨i, _, s.chain i, found, stands.chained found, member⟩
  · rintro ⟨i, owned⟩
    have member := onChain owned
    obtain ⟨given, below, _⟩ := sound.page member
    have header : pageId ≠ 0 := by
      rintro rfl
      exact stands.catalogued.headerFree i member
    omega

/-- A table with one row. -/
theorem pages_owned_row : ∃ (start manager : TableManager bufferPoolSize)
    (log : List (Event bufferPoolSize)),
    DatabaseRun start log manager ∧ offeredRows (ascii "t") log = [[.int 7]] ∧
      ∀ pageId, (0 < pageId ∧ pageId < nextAllocated manager.catalog.world.bm ↔
          ∃ i, OwnedBy manager pageId i) ∧
        ∀ i j, OwnedBy manager pageId i → OwnedBy manager pageId j → i = j := by
  obtain ⟨start, manager, log, _, _, first⟩ := numbersIn_exists [7] (by decide)
  exact ⟨start, manager, log, first.run, first.offered, fun pageId =>
    pages_owned start first.initialised log manager first.run pageId⟩

end TableManager

end RelationalDb
