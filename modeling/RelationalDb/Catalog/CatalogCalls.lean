import RelationalDb.Catalog.CatalogRows

set_option autoImplicit false

namespace RelationalDb

open HeapFile
open BufferManager (Steady)

namespace HeapState

/-- The rows of columns are inserted one after the other. -/
inductive ColumnsInserted : List ColumnInfo → HeapState → HeapState → Prop
  | nil {s : HeapState} : ColumnsInserted [] s s
  | cons {column : ColumnInfo} {columns : List ColumnInfo} {result : Option Rid} {s s' s'' : HeapState}
      (effect : Effect (.insert CatalogTable.attributes.index (ColumnInfoCodec.encode column))
        (.placed result) s s')
      (rest : ColumnsInserted columns s' s'') : ColumnsInserted (column :: columns) s s''

variable {s s' : HeapState} {columns : List ColumnInfo}

theorem ColumnsInserted.known {i : Nat} {rid : Rid} (inserted : ColumnsInserted columns s s')
    (sound : Sound s) (known : s.Known i rid) : s'.Known i rid := by
  induction inserted with
  | nil => exact known
  | cons effect rest ih => exact ih (effect.sound sound) (effect.known sound known)

theorem ColumnsInserted.heaps_kept {i : Nat} {heap : HeapFile}
    (inserted : ColumnsInserted columns s s') (present : s.heaps[i]? = some heap)
    (made : heap.firstPageId ≠ invalidPageId) : s'.heaps[i]? = some heap := by
  induction inserted with
  | nil => exact present
  | cons effect rest ih => exact ih (effect.heaps_kept present made)

theorem ColumnsInserted.catalogued {names : List (List UInt8)} {ids : List Uuid}
    (inserted : ColumnsInserted columns s s') (sound : Sound s)
    (catalogued : Catalogued s names ids) (known : ∀ column ∈ columns, column.tableId ∈ ids) :
    Catalogued s' names ids := by
  induction inserted with
  | nil => exact catalogued
  | cons effect rest ih =>
      apply ih (effect.sound sound)
      · exact catalogued.insertColumn sound effect (known _ List.mem_cons_self)
      · exact fun column member => known column (List.mem_cons_of_mem _ member)

theorem ColumnsInserted.other_eq {names : List (List UInt8)} {ids : List Uuid}
    (inserted : ColumnsInserted columns s s') (sound : Sound s)
    (catalogued : Catalogued s names ids) (known : ∀ column ∈ columns, column.tableId ∈ ids)
    {table : CatalogTable} (other : CatalogTable.attributes ≠ table) :
    s'.relationBins table = s.relationBins table := by
  induction inserted with
  | nil => rfl
  | @cons column columns result s s₁ s' effect rest ih =>
      rw [ih (effect.sound sound)
        (catalogued.insertColumn sound effect (known column List.mem_cons_self))
        (fun later member => known later (List.mem_cons_of_mem _ member))]
      exact effect.rows_eq sound (catalogued.present table) (target_insert other)

/-- The pages of the catalog and of other heaps have grown by a table. -/
structure TableCreated (s : HeapState) (tableId fileId : Uuid) (tableName : List UInt8)
    (columns : List ColumnInfo) (s' : HeapState) : Prop where
  steps : ∃ s₁ s₂ result, Effect (.create fileId) (.made s.heaps.length) s s₁ ∧
    Effect (.insert CatalogTable.tables.index
      (TableInfoCodec.encode ⟨tableId, tableName, fileId, s.pages⟩)) (.placed result) s₁ s₂ ∧
    ColumnsInserted columns s₂ s'

theorem effect_create {fileId : Uuid} {answer : HeapAnswer} {s₁ : HeapState}
    (effect : Effect (.create fileId) answer s s₁) :
    s₁.heaps[s.heaps.length]? = some ⟨fileId, s.pages⟩ := by
  cases effect with
  | create raw more =>
      simp only [HeapState.withFirstPage]
      rw [List.getElem?_append_right (Nat.le_refl _), Nat.sub_self]
      rfl

/-- The heap of a new table is one that a row can lead to. -/
theorem Catalogued.make {names : List (List UInt8)} {ids : List Uuid} {fileId : Uuid}
    {answer : HeapAnswer} (catalogued : Catalogued s names ids) (sound : Sound s)
    (effect : Effect (.create fileId) answer s s') (tableId : Uuid) (tableName : List UInt8) :
    Catalogued s' (tableName :: names) (tableId :: ids) ∧
      LeadsTo s' (tableName :: names) (tableId :: ids) ⟨tableId, tableName, fileId, s.pages⟩ := by
  have more := catalogued.mono (List.subset_cons_self tableName names)
    (List.subset_cons_self tableId ids)
  have count : 3 ≤ s.heaps.length := by
    have types := (List.getElem?_eq_some_iff.mp (catalogued.present .types)).1
    exact types
  exact ⟨more.other sound effect fun table => (Option.some_ne_none _).symm,
    sound.given, sound.room, List.mem_cons_self, List.mem_cons_self, s.heaps.length,
    effect_create effect, fun _ => count⟩

theorem TableCreated.catalogued {tableId fileId : Uuid} {tableName : List UInt8}
    {names : List (List UInt8)} {ids : List Uuid}
    (created : TableCreated s tableId fileId tableName columns s') (sound : Sound s)
    (catalogued : Catalogued s names ids) (own : ∀ column ∈ columns, column.tableId = tableId) :
    Catalogued s' (tableName :: names) (tableId :: ids) := by
  obtain ⟨s₁, s₂, result, make, insert, rest⟩ := created.steps
  obtain ⟨made, leads⟩ := catalogued.make sound make tableId tableName
  have sound₁ := make.sound sound
  apply rest.catalogued (insert.sound sound₁) (made.insertTable sound₁ insert leads)
  intro column member
  rw [own column member]
  exact List.mem_cons_self

theorem TableCreated.known {tableId fileId : Uuid} {tableName : List UInt8} {i : Nat} {rid : Rid}
    (created : TableCreated s tableId fileId tableName columns s') (sound : Sound s)
    (known : s.Known i rid) : s'.Known i rid := by
  obtain ⟨_, _, _, make, insert, rest⟩ := created.steps
  have sound₁ := make.sound sound
  exact rest.known (insert.sound sound₁) (insert.known sound₁ (make.known sound known))

theorem TableCreated.heaps_kept {tableId fileId : Uuid} {tableName : List UInt8} {i : Nat}
    {heap : HeapFile} (created : TableCreated s tableId fileId tableName columns s')
    (present : s.heaps[i]? = some heap) (made : heap.firstPageId ≠ invalidPageId) :
    s'.heaps[i]? = some heap := by
  obtain ⟨_, _, _, make, insert, rest⟩ := created.steps
  exact rest.heaps_kept (insert.heaps_kept (make.heaps_kept present made) made) made

end HeapState

namespace Catalog

open HeapState (ColumnsInserted TableCreated)

variable {N : Nat} {catalog catalog' : Catalog N} {s s' : HeapState}

theorem Inserts.pages_le {table : CatalogTable} {bytes : List UInt8} {result : Option Rid}
    (inserts : Inserts catalog s table bytes result catalog' s') (holds : Holds catalog s) :
    s'.pages ≤ s.pages + 1 :=
  inserts.effect.pages_insert (holds.present table) table.heapFile_valid

theorem Holds.insertColumns_returns (holds : Holds catalog s) {columns : List ColumnInfo}
    (sized : ∀ column ∈ columns, (ColumnInfoCodec.encode column).length < 2 ^ 63)
    (more : s.pages + columns.length < 2 ^ 31) :
    ∃ catalog' s', (insertColumns columns).Returns catalog ⟨⟩ catalog' ∧
      ColumnsInserted columns s s' ∧ Holds catalog' s' ∧
      catalog'.world.heaps = catalog.world.heaps := by
  induction columns generalizing catalog s with
  | nil => exact ⟨catalog, s, Program.pure_returns _ _, .nil, holds, rfl⟩
  | cons column columns ih =>
      rw [List.length_cons] at more
      obtain ⟨result, catalog₁, s₁, inserts⟩ :=
        @Holds.insert_inserts N catalog s holds .attributes _ (sized column List.mem_cons_self)
          (roomFor_of_pages (by omega))
      have grows := inserts.pages_le holds
      obtain ⟨catalog', s', returned, inserted, holds', heaps⟩ :=
        ih inserts.holds (fun other member => sized other (List.mem_cons_of_mem _ member)) (by omega)
      exact ⟨catalog', s', inserts.returned.bind returned, .cons inserts.effect inserted, holds',
        heaps.trans inserts.heaps⟩

/-- Columns whose insertion ended, with unwrapped page ids after each of them, are
inserted. -/
theorem Holds.insertColumns_ends (holds : Holds catalog s) {columns : List ColumnInfo}
    (sized : ∀ column ∈ columns, (ColumnInfoCodec.encode column).length < 2 ^ 63)
    {outcome : Except Error Unit} (ended : insertColumns columns catalog = some (outcome, catalog'))
    (unwrapped : ∀ part outcome' after, part <+: columns →
      insertColumns part catalog = some (outcome', after) → 0 ≤ nextAllocated after.world.bm) :
    outcome = .ok ⟨⟩ ∧ ∃ s', ColumnsInserted columns s s' ∧ Holds catalog' s' ∧
      catalog'.world.heaps = catalog.world.heaps := by
  induction columns generalizing catalog s with
  | nil =>
      cases ended
      exact ⟨rfl, s, .nil, holds, rfl⟩
  | cons column columns ih =>
      have alone : [column] <+: column :: columns := ⟨columns, rfl⟩
      have size := sized column List.mem_cons_self
      rcases Program.bind_cases ended with ⟨result, middle, inserted, rest⟩ | ⟨_, thrown, _⟩
      · have single : insertColumns [column] catalog = some (.ok ⟨⟩, middle) :=
          inserted.bind (Program.pure_returns _ _)
        obtain ⟨_, s₁, _, inserts⟩ :=
          holds.insert_ends size inserted (unwrapped _ _ _ alone single)
        obtain ⟨done, s', more, holds', heaps⟩ := ih inserts.holds
          (fun other member => sized other (List.mem_cons_of_mem _ member)) rest (by
            intro part outcome' after begins partEnded
            apply unwrapped (column :: part) outcome' after
            · exact (List.prefix_cons_inj column).mpr begins
            · rw [← partEnded]
              exact inserted.bind_eq)
        exact ⟨done, s', .cons inserts.effect more, holds', heaps.trans inserts.heaps⟩
      · have single : (insertColumns [column]).Throws catalog _ catalog' :=
          Program.Throws.bind thrown
        obtain ⟨_, _, impossible, _⟩ :=
          holds.insert_ends size thrown (unwrapped _ _ _ alone single)
        cases impossible

theorem columnInfo_own (tableId : Uuid) (columns : List RawColumnInfo) :
    ∀ column ∈ columns.map (columnInfo tableId), column.tableId = tableId := by
  intro column member
  obtain ⟨col, _, rfl⟩ := List.mem_map.mp member
  rfl

/-- The world with one more heap file. -/
def withHeap (catalog : Catalog N) (bm : BufferManager N DiskManager) (hf : HeapFile) : Catalog N :=
  { catalog with world := ⟨bm, catalog.world.heaps ++ [hf]⟩ }

theorem makeHeap_made {fileId : Uuid} {hf : HeapFile} {bm' : BufferManager N DiskManager}
    (created : (HeapFile.create fileId).Returns catalog.world.bm hf bm') :
    (makeHeap fileId).Returns catalog hf (catalog.withHeap bm' hf) :=
  (onPool_returns catalog created).bind ((Program.modify_returns _ _).bind
    (Program.pure_returns _ _))

theorem Holds.makeHeap_returns (holds : Holds catalog s) (more : s.pages + 1 < 2 ^ 31)
    (fileId : Uuid) :
    ∃ bm' s', (makeHeap fileId).Returns catalog ⟨fileId, s.pages⟩
        (catalog.withHeap bm' ⟨fileId, s.pages⟩) ∧
      HeapState.Effect (.create fileId) (.made s.heaps.length) s s' ∧
      Holds (catalog.withHeap bm' ⟨fileId, s.pages⟩) s' ∧ s'.pages = s.pages + 1 := by
  obtain ⟨raw, bm', returned, steady'⟩ := create_returns holds.shows.steady more fileId
  have effect : HeapState.Effect (.create fileId) (.made s.heaps.length) s
      (s.withFirstPage s.heaps.length (s.heaps ++ [⟨fileId, s.pages⟩]) raw) := .create raw more
  have heaps := holds.shows.heaps
  refine ⟨bm', _, makeHeap_made returned, effect,
    ⟨⟨steady', ?_, effect.sound holds.shows.sound⟩, holds.relations⟩, rfl⟩
  simp only [HeapState.withFirstPage, World.behind, withHeap, ← heaps, List.append_assoc]

/-- The arguments of a `CreateTable` whose rows are shorter than 2^63 bytes. -/
structure Sized (tableName : List UInt8) (columns : List RawColumnInfo) : Prop where
  table : tableName.length + 40 < 2 ^ 63
  columns : ∀ column ∈ columns, column.colName.length + 26 < 2 ^ 63

theorem Sized.row {tableName : List UInt8} {columns : List RawColumnInfo}
    (sized : Sized tableName columns) (tableId fileId : Uuid) (firstPageId : Int) :
    (TableInfoCodec.encode ⟨tableId, tableName, fileId, firstPageId⟩).length < 2 ^ 63 := by
  have bound := sized.table
  rw [TableInfoCodec.encode_length, Nat.add_comm]
  exact bound

theorem Sized.rows {tableName : List UInt8} {columns : List RawColumnInfo}
    (sized : Sized tableName columns) (tableId : Uuid) :
    ∀ column ∈ columns.map (columnInfo tableId),
      (ColumnInfoCodec.encode column).length < 2 ^ 63 := by
  intro column member
  obtain ⟨col, among, rfl⟩ := List.mem_map.mp member
  rw [ColumnInfoCodec.encode_length]
  exact sized.columns col among

/-- How a `CreateTable` ends. -/
structure Creates (catalog : Catalog N) (s : HeapState) (tableRandom fileRandom : Uuid)
    (tableName : List UInt8) (columns : List RawColumnInfo) (catalog' : Catalog N) (s' : HeapState) :
    Prop where
  returned : (createTable tableRandom fileRandom tableName columns).Returns catalog
    (generateUuid tableRandom) catalog'
  created : TableCreated s (generateUuid tableRandom) (generateUuid fileRandom) tableName
    (columns.map (columnInfo (generateUuid tableRandom))) s'
  holds : Holds catalog' s'
  heaps : catalog'.world.heaps = catalog.world.heaps ++ [⟨generateUuid fileRandom, s.pages⟩]

/-- With page ids for all its insertions a table is created. -/
theorem Holds.createTable_creates (holds : Holds catalog s) {tableName : List UInt8}
    {columns : List RawColumnInfo} (sized : Sized tableName columns)
    (more : s.pages + columns.length + 2 < 2 ^ 31) (tableRandom fileRandom : Uuid) :
    ∃ catalog' s', Creates catalog s tableRandom fileRandom tableName columns catalog' s' := by
  obtain ⟨bm₁, s₁, made, effect, holds₁, pages⟩ :=
    holds.makeHeap_returns (by omega) (generateUuid fileRandom)
  obtain ⟨result, catalog₂, s₂, inserts⟩ :=
    @Holds.insert_inserts N _ s₁ holds₁ .tables _
      (sized.row (generateUuid tableRandom) (generateUuid fileRandom) s.pages)
      (roomFor_of_pages (by omega))
  have grows := inserts.pages_le holds₁
  obtain ⟨catalog', s', inserted, columnsInserted, holds', heaps⟩ :=
    inserts.holds.insertColumns_returns (sized.rows (generateUuid tableRandom))
      (by rw [List.length_map]; omega)
  refine ⟨catalog', s', ?_, ⟨s₁, s₂, result, effect, inserts.effect, columnsInserted⟩, holds', ?_⟩
  · exact made.bind (inserts.returned.bind (inserted.bind
      (Program.pure_returns _ _)))
  · exact heaps.trans inserts.heaps

/-- A `CreateTable` that ended, with unwrapped page ids after each of its parts, did
not throw. -/
theorem Holds.createTable_ends (holds : Holds catalog s) {tableName : List UInt8}
    {columns : List RawColumnInfo} (sized : Sized tableName columns) {tableRandom fileRandom : Uuid}
    {outcome : Except Error Uuid}
    (ended : createTable tableRandom fileRandom tableName columns catalog =
      some (outcome, catalog'))
    (unwrappedHeap : ∀ outcome' bm', HeapFile.create (generateUuid fileRandom) catalog.world.bm =
      some (outcome', bm') → 0 ≤ nextAllocated bm')
    (unwrapped : ∀ part outcome' after, part <+: columns →
      createTable tableRandom fileRandom tableName part catalog = some (outcome', after) →
      0 ≤ nextAllocated after.world.bm) :
    outcome = .ok (generateUuid tableRandom) ∧
      ∃ s', Creates catalog s tableRandom fileRandom tableName columns catalog' s' := by
  have more : s.pages + 1 < 2 ^ 31 := by
    obtain ⟨_, _, made⟩ := Program.bind_first ended
    obtain ⟨_, _, created⟩ := Program.bind_first made
    obtain ⟨bm', inside, _⟩ := onPool_cases created
    exact create_more holds.shows.steady inside (unwrappedHeap _ bm' inside)
  obtain ⟨bm₁, s₁, made, effect, holds₁, _⟩ :=
    holds.makeHeap_returns more (generateUuid fileRandom)
  have whole : ∀ part, createTable tableRandom fileRandom tableName part catalog = (do
      let _ ← insertTable
        ⟨generateUuid tableRandom, tableName, generateUuid fileRandom, s.pages⟩
      insertColumns (part.map (columnInfo (generateUuid tableRandom)))
      return generateUuid tableRandom : CatalogProgram N Uuid)
        (catalog.withHeap bm₁ ⟨generateUuid fileRandom, s.pages⟩) := fun _ => made.bind_eq
  have row := sized.row (generateUuid tableRandom) (generateUuid fileRandom) s.pages
  rw [whole columns] at ended
  rcases Program.bind_cases ended with ⟨result, catalog₂, inserted, rest⟩ | ⟨reason, thrown, _⟩
  · have table : createTable tableRandom fileRandom tableName [] catalog =
        some (.ok (generateUuid tableRandom), catalog₂) := by
      rw [whole []]
      exact inserted.bind_eq
    obtain ⟨_, s₂, _, inserts⟩ :=
      holds₁.insert_ends row inserted (unwrapped _ _ _ List.nil_prefix table)
    have columnsUnwrapped : ∀ part outcome' after,
        part <+: columns.map (columnInfo (generateUuid tableRandom)) →
        insertColumns part catalog₂ = some (outcome', after) → 0 ≤ nextAllocated after.world.bm := by
      intro part outcome' after begins partEnded
      obtain ⟨raw, rawBegins, rfl⟩ := List.prefix_map_iff.mp begins
      have table' : ∃ outcome', createTable tableRandom fileRandom tableName raw catalog =
          some (outcome', after) := by
        rw [whole raw, inserted.bind_eq]
        cases outcome' with
        | ok value => exact ⟨_, Program.Returns.bind_eq partEnded⟩
        | error reason => exact ⟨_, Program.Throws.bind partEnded⟩
      obtain ⟨_, table'⟩ := table'
      exact unwrapped raw _ after rawBegins table'
    rcases Program.bind_cases rest with ⟨_, catalog₃, more', done⟩ | ⟨_, thrown, _⟩
    · obtain ⟨_, s', columnsInserted, holds', heaps⟩ := inserts.holds.insertColumns_ends
        (sized.rows (generateUuid tableRandom)) more' columnsUnwrapped
      cases done
      refine ⟨rfl, s', ?_, ⟨s₁, s₂, _, effect, inserts.effect, columnsInserted⟩, holds',
        heaps.trans inserts.heaps⟩
      exact made.bind (inserted.bind (more'.bind (Program.pure_returns _ _)))
    · obtain ⟨impossible, _⟩ := inserts.holds.insertColumns_ends
        (sized.rows (generateUuid tableRandom)) thrown columnsUnwrapped
      cases impossible
  · have table : (createTable tableRandom fileRandom tableName []).Throws catalog reason catalog' := by
      unfold Program.Throws
      rw [whole []]
      exact Program.Throws.bind thrown
    obtain ⟨_, _, impossible, _⟩ :=
      holds₁.insert_ends row thrown (unwrapped _ _ _ List.nil_prefix table)
    cases impossible

end Catalog

end RelationalDb
