import RelationalDb.Catalog.CatalogInit

set_option autoImplicit false

namespace RelationalDb

open FirstFit (OneMore)

namespace HeapState

variable {s s' : HeapState} {names : List (List UInt8)} {ids : List Uuid}

section Rows

variable {table : CatalogTable} {bytes : List UInt8} {result : Option Rid}

theorem Effect.rows_fits
    (effect : Effect (.insert table.index bytes) (.placed result) s s') (sound : Sound s)
    (present : s.heaps[table.index]? = some table.heapFile) (nonempty : bytes ≠ [])
    (fits : bytes.length ≤ 8176) : OneMore (s.rows table) bytes (s'.rows table) := by
  unfold rows
  rw [effect.relationBins_insert sound present nonempty, if_pos fits]
  exact FirstFit.contents_insert_oneMore _ _ _ _

theorem Effect.rows_over
    (effect : Effect (.insert table.index bytes) (.placed result) s s') (sound : Sound s)
    (present : s.heaps[table.index]? = some table.heapFile) (nonempty : bytes ≠ [])
    (tooLong : ¬ bytes.length ≤ 8176) : s'.rows table = s.rows table := by
  unfold rows
  rw [effect.relationBins_insert sound present nonempty, if_neg tooLong, FirstFit.contents_append]
  exact List.append_nil _

end Rows

theorem Catalogued.tableRows_insert (catalogued : Catalogued s names ids) (sound : Sound s)
    {row : TableInfo} {result : Option Rid}
    (effect : Effect (.insert CatalogTable.tables.index (TableInfoCodec.encode row)) (.placed result)
      s s')
    (lower : 0 ≤ row.firstPageId) (upper : row.firstPageId < 2 ^ 31) :
    if TableFits row.tableName then OneMore s.tableRows row s'.tableRows
    else s'.tableRows = s.tableRows := by
  have size := TableInfoCodec.encode_length row
  have present := catalogued.present .tables
  have nonempty := TableInfoCodec.encode_ne_nil row
  split
  · rename_i fits
    unfold TableFits at fits
    apply (effect.rows_fits sound present nonempty (by omega)).filterMap
    exact TableInfoCodec.decode_encode (by omega) upper (by omega)
  · rename_i tooLong
    unfold TableFits at tooLong
    unfold tableRows
    rw [effect.rows_over sound present nonempty (by omega)]

theorem Catalogued.columnRows_insert (catalogued : Catalogued s names ids) (sound : Sound s)
    {column : ColumnInfo} {result : Option Rid}
    (effect : Effect (.insert CatalogTable.attributes.index (ColumnInfoCodec.encode column))
      (.placed result) s s') :
    if ColumnFits column.colName then OneMore s.columnRows column s'.columnRows
    else s'.columnRows = s.columnRows := by
  have size := ColumnInfoCodec.encode_length column
  have present := catalogued.present .attributes
  have nonempty := ColumnInfoCodec.encode_ne_nil column
  split
  · rename_i fits
    unfold ColumnFits at fits
    apply (effect.rows_fits sound present nonempty (by omega)).filterMap
    exact ColumnInfoCodec.decode_encode (by omega)
  · rename_i tooLong
    unfold ColumnFits at tooLong
    unfold columnRows
    rw [effect.rows_over sound present nonempty (by omega)]

theorem ColumnsInserted.columnRows_perm {columns : List ColumnInfo}
    (inserted : ColumnsInserted columns s s') (sound : Sound s)
    (catalogued : Catalogued s names ids) (known : ∀ column ∈ columns, column.tableId ∈ ids) :
    s'.columnRows.Perm (s.columnRows ++ columns.filter (ColumnFits ·.colName)) := by
  induction inserted with
  | nil => rw [List.filter_nil, List.append_nil]
  | @cons column columns result s s₁ s' effect rest ih =>
      have first := catalogued.columnRows_insert sound effect
      have rest := ih (effect.sound sound)
        (catalogued.insertColumn sound effect (known column List.mem_cons_self))
        fun other member => known other (List.mem_cons_of_mem _ member)
      by_cases fits : ColumnFits column.colName
      · rw [if_pos fits] at first
        rw [List.filter_cons_of_pos (by simpa using fits)]
        apply rest.trans
        apply (first.perm.append_right _).trans
        exact List.perm_middle.symm
      · rw [if_neg fits] at first
        rw [List.filter_cons_of_neg (by simpa using fits), ← first]
        exact rest

theorem ColumnsInserted.columnRows_other {columns : List ColumnInfo}
    (inserted : ColumnsInserted columns s s') (sound : Sound s)
    (catalogued : Catalogued s names ids) (known : ∀ column ∈ columns, column.tableId ∈ ids)
    {tableId : Uuid} (other : ∀ column ∈ columns, column.tableId ≠ tableId) :
    s'.columnRows.filter (·.tableId = tableId) = s.columnRows.filter (·.tableId = tableId) := by
  induction inserted with
  | nil => rfl
  | @cons column columns result s s₁ s' effect rest ih =>
      have first := catalogued.columnRows_insert sound effect
      rw [ih (effect.sound sound)
        (catalogued.insertColumn sound effect (known column List.mem_cons_self))
        (fun later member => known later (List.mem_cons_of_mem _ member))
        (fun later member => other later (List.mem_cons_of_mem _ member))]
      have apart := other column List.mem_cons_self
      split at first
      · exact first.filter_other (by simpa using apart)
      · rw [first]

section Created

variable {tableId fileId : Uuid} {tableName : List UInt8} {columns : List ColumnInfo}

/-- The states a `CreateTable` goes through before it inserts the columns. -/
structure Stages (s : HeapState) (tableId fileId : Uuid) (tableName : List UInt8)
    (names : List (List UInt8)) (ids : List Uuid) (s₁ s₂ : HeapState) : Prop where
  inserted : ∃ result, Effect (.insert CatalogTable.tables.index
    (TableInfoCodec.encode ⟨tableId, tableName, fileId, s.pages⟩)) (.placed result) s₁ s₂
  sound₁ : Sound s₁
  sound₂ : Sound s₂
  catalogued₁ : Catalogued s₁ (tableName :: names) (tableId :: ids)
  catalogued₂ : Catalogued s₂ (tableName :: names) (tableId :: ids)
  bins₁ : ∀ table, s₁.relationBins table = s.relationBins table
  bins₂ : ∀ table, CatalogTable.tables ≠ table → s₂.relationBins table = s.relationBins table

theorem TableCreated.stages (created : TableCreated s tableId fileId tableName columns s')
    (sound : Sound s) (catalogued : Catalogued s names ids) :
    ∃ s₁ s₂, Stages s tableId fileId tableName names ids s₁ s₂ ∧ ColumnsInserted columns s₂ s' := by
  obtain ⟨s₁, s₂, result, make, insert, rest⟩ := created.steps
  have apart : ∀ table : CatalogTable, (HeapOp.create fileId).target ≠ some table.index :=
    fun table => (Option.some_ne_none _).symm
  have sound₁ := make.sound sound
  have bins₁ : ∀ table, s₁.relationBins table = s.relationBins table := fun table =>
    make.rows_eq sound (catalogued.present table) (apart table)
  obtain ⟨catalogued₁, leads⟩ := catalogued.make sound make tableId tableName
  refine ⟨s₁, s₂, ⟨⟨result, insert⟩, sound₁, insert.sound sound₁, catalogued₁,
    catalogued₁.insertTable sound₁ insert leads, bins₁, ?_⟩, rest⟩
  intro table other
  rw [insert.rows_eq sound₁ (catalogued₁.present table) (target_insert other), bins₁]

variable (created : TableCreated s tableId fileId tableName columns s') (sound : Sound s)
  (catalogued : Catalogued s names ids) (own : ∀ column ∈ columns, column.tableId = tableId)

include created sound catalogued own

theorem TableCreated.tables_eq : ∃ s₁ s₂, Stages s tableId fileId tableName names ids s₁ s₂ ∧
    s'.relationBins .tables = s₂.relationBins .tables := by
  obtain ⟨s₁, s₂, stages, rest⟩ := created.stages sound catalogued
  refine ⟨s₁, s₂, stages, rest.other_eq stages.sound₂ stages.catalogued₂ ?_ (by decide)⟩
  intro column member
  rw [own column member]
  exact List.mem_cons_self

/-- The row of the table is one more row of `db_tables`, if it fits a page. -/
theorem TableCreated.tableRows :
    if TableFits tableName then OneMore s.tableRows ⟨tableId, tableName, fileId, s.pages⟩ s'.tableRows
    else s'.tableRows = s.tableRows := by
  obtain ⟨s₁, s₂, stages, same⟩ := created.tables_eq sound catalogued own
  obtain ⟨result, inserted⟩ := stages.inserted
  have step := stages.catalogued₁.tableRows_insert stages.sound₁ inserted sound.given sound.room
  have before : s₁.tableRows = s.tableRows := by
    unfold HeapState.tableRows rows
    rw [stages.bins₁]
  have after : s'.tableRows = s₂.tableRows := by
    unfold HeapState.tableRows rows
    rw [same]
  rw [before] at step
  rw [after]
  exact step

theorem TableCreated.tables_bins : s'.relationBins .tables =
    withTableRow (s.relationBins .tables) ⟨tableId, tableName, fileId, s.pages⟩ := by
  obtain ⟨s₁, s₂, stages, same⟩ := created.tables_eq sound catalogued own
  obtain ⟨result, inserted⟩ := stages.inserted
  rw [same, inserted.withTableRow stages.sound₁ (stages.catalogued₁.present .tables), stages.bins₁]

theorem TableCreated.firstRows (first : FirstRows s) : FirstRows s' :=
  first.insert (fun fits => TableInfoCodec.decode_encode (Int.le_trans (by decide) sound.given)
    sound.room fits.short) (created.tables_bins sound catalogued own)

theorem TableCreated.find?_kept (first : FirstRows s) {other : List UInt8} {row : TableInfo}
    (found : s.tableRows.find? (·.tableName = other) = some row) :
    s'.tableRows.find? (·.tableName = other) = some row :=
  first.find?_insert (fun fits => TableInfoCodec.decode_encode (Int.le_trans (by decide) sound.given)
    sound.room fits.short) (created.tables_bins sound catalogued own) found

theorem TableCreated.columnRows_perm :
    s'.columnRows.Perm (s.columnRows ++ columns.filter (ColumnFits ·.colName)) := by
  obtain ⟨s₁, s₂, stages, rest⟩ := created.stages sound catalogued
  have before : s₂.columnRows = s.columnRows := by
    unfold HeapState.columnRows rows
    rw [stages.bins₂ _ (by decide)]
  rw [← before]
  apply rest.columnRows_perm stages.sound₂ stages.catalogued₂
  intro column member
  rw [own column member]
  exact List.mem_cons_self

theorem TableCreated.columnRows_other {other : Uuid} (apart : tableId ≠ other) :
    s'.columnRows.filter (·.tableId = other) = s.columnRows.filter (·.tableId = other) := by
  obtain ⟨s₁, s₂, stages, rest⟩ := created.stages sound catalogued
  have before : s₂.columnRows = s.columnRows := by
    unfold HeapState.columnRows rows
    rw [stages.bins₂ _ (by decide)]
  rw [← before]
  apply rest.columnRows_other stages.sound₂ stages.catalogued₂
  · intro column member
    rw [own column member]
    exact List.mem_cons_self
  · intro column member
    rw [own column member]
    exact apart

theorem TableCreated.pages_le : s'.pages ≤ s.pages + columns.length + 2 := by
  obtain ⟨s₁, s₂, result, make, insert, rest⟩ := created.steps
  have sound₁ := make.sound sound
  obtain ⟨catalogued₁, leads⟩ := catalogued.make sound make tableId tableName
  have first := make.pages_create
  have second := insert.pages_insert (catalogued₁.present .tables)
    (CatalogTable.heapFile_valid .tables)
  have further := rest.pages_le (insert.sound sound₁)
    (catalogued₁.insertTable sound₁ insert leads) fun column member => by
      rw [own column member]
      exact List.mem_cons_self
  omega

theorem TableCreated.types_bins : s'.relationBins .types = s.relationBins .types := by
  obtain ⟨s₁, s₂, stages, rest⟩ := created.stages sound catalogued
  rw [← stages.bins₂ _ (by decide)]
  apply rest.other_eq stages.sound₂ stages.catalogued₂ _ (by decide)
  intro column member
  rw [own column member]
  exact List.mem_cons_self

theorem TableCreated.attributes_bins (fits : ∀ column ∈ columns, ColumnFits column.colName) :
    s'.relationBins .attributes = FirstFit.insertAll 8180 rowSize (s.relationBins .attributes)
      (columns.map ColumnInfoCodec.encode) := by
  obtain ⟨s₁, s₂, stages, rest⟩ := created.stages sound catalogued
  rw [← stages.bins₂ _ (by decide)]
  apply rest.bins_eq stages.sound₂ stages.catalogued₂
  · intro column member
    rw [own column member]
    exact List.mem_cons_self
  · intro column member
    rw [ColumnInfoCodec.encode_length]
    exact fits column member

end Created

end HeapState

end RelationalDb
