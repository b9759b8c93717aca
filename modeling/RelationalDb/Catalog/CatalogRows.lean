import RelationalDb.Catalog.CatalogState

set_option autoImplicit false

namespace RelationalDb

open HeapFile
open BufferManager (Steady)

namespace HeapState

variable {s s' : HeapState}

def relationBins (s : HeapState) (table : CatalogTable) : List (FirstFit.Bin (List UInt8)) :=
  bins s.view (s.chain table.index)

def rows (s : HeapState) (table : CatalogTable) : List (List UInt8) :=
  FirstFit.contents (s.relationBins table)

def tableRows (s : HeapState) : List TableInfo :=
  (s.rows .tables).filterMap TableInfoCodec.decode

def columnRows (s : HeapState) : List ColumnInfo :=
  (s.rows .attributes).filterMap ColumnInfoCodec.decode

def TableFits (tableName : List UInt8) : Prop := 40 + tableName.length ≤ 8176

def ColumnFits (colName : List UInt8) : Prop := colName.length + 26 ≤ 8176

instance (tableName : List UInt8) : Decidable (TableFits tableName) :=
  inferInstanceAs (Decidable (_ ≤ _))

instance (colName : List UInt8) : Decidable (ColumnFits colName) :=
  inferInstanceAs (Decidable (_ ≤ _))

theorem TableFits.short {tableName : List UInt8} (fits : TableFits tableName) :
    tableName.length < 2 ^ 32 := by
  unfold TableFits at fits
  omega

theorem ColumnFits.short {colName : List UInt8} (fits : ColumnFits colName) :
    colName.length < 2 ^ 32 := by
  unfold ColumnFits at fits
  omega

/-- A row of `db_tables` that leads to a heap; only the rows of the catalog lead to
the heaps of the catalog. -/
structure LeadsTo (s : HeapState) (names : List (List UInt8)) (ids : List Uuid) (row : TableInfo) :
    Prop where
  lower : 0 ≤ row.firstPageId
  upper : row.firstPageId < 2 ^ 31
  named : row.tableName ∈ names
  known : row.tableId ∈ ids
  place : ∃ i, s.heaps[i]? = some ⟨row.heapFileId, row.firstPageId⟩ ∧
    (row.tableName ∉ systemNames → 3 ≤ i)

/-- The pages of a catalog with tables of these names and columns of these ids. -/
structure Catalogued (s : HeapState) (names : List (List UInt8)) (ids : List Uuid) : Prop where
  header : s.view rootPageId = some Catalog.headerPage
  headerFree : ∀ i, rootPageId ∉ s.chain i
  positive : 0 < s.pages
  present : ∀ table : CatalogTable, s.heaps[table.index]? = some table.heapFile
  tables : ∀ bytes ∈ s.rows .tables, ∃ row, bytes = TableInfoCodec.encode row ∧
    TableFits row.tableName ∧ LeadsTo s names ids row
  columns : ∀ bytes ∈ s.rows .attributes, ∃ column, bytes = ColumnInfoCodec.encode column ∧
    ColumnFits column.colName ∧ column.tableId ∈ ids

theorem mem_withFirstPage {i j : Nat} {heaps : List HeapFile} {raw : Page} {pageId : Int}
    (member : pageId ∈ (s.withFirstPage i heaps raw).chain j) :
    pageId ∈ s.chain j ∨ pageId = s.pages := by
  simp only [HeapState.withFirstPage, Function.update_apply] at member
  split at member
  · exact Or.inr (List.mem_singleton.mp member)
  · exact Or.inl member

theorem Effect.chain_mem {op : HeapOp} {answer : HeapAnswer} (effect : Effect op answer s s')
    {i : Nat} {pageId : Int} (member : pageId ∈ s'.chain i) :
    pageId ∈ s.chain i ∨ s.pages ≤ pageId := by
  induction effect with
  | create raw more => exact (mem_withFirstPage member).imp_right fun same => Int.le_of_eq same.symm
  | openEmpty => exact Or.inl member
  | @first s s' j heap data answer raw present lazy more rest ih =>
      have pages : (s.withFirstPage j (s.heaps.set j { heap with firstPageId := s.pages })
          raw).pages = s.pages + 1 := rfl
      rcases ih member with before | new
      · exact (mem_withFirstPage before).imp_right fun same => Int.le_of_eq same.symm
      · omega
  | placed => exact Or.inl member
  | @grown s j heap data last lastPage page result present full isLast known fresh more =>
      simp only [HeapState.withLastPage, Function.update_apply] at member
      split at member
      · rename_i same
        rw [same]
        rcases List.mem_append.mp member with before | new
        · exact Or.inl before
        · rw [List.mem_singleton] at new
          omega
      · exact Or.inl member
  | get => exact Or.inl member
  | update => exact Or.inl member
  | delete => exact Or.inl member

/-- A call leaves the pages of every heap but its target alone. -/
theorem Effect.bins_eq {op : HeapOp} {answer : HeapAnswer} (effect : Effect op answer s s')
    (sound : Sound s) {j : Nat} (bound : j < s.heaps.length) (apart : op.target ≠ some j) :
    bins s'.view (s'.chain j) = bins s.view (s.chain j) := by
  rw [effect.chain_eq bound apart]
  apply bins_congr
  intro pageId member
  apply effect.view_eq (sound.inside j pageId member)
  intro i target other
  apply apart
  rw [target, sound.apart i j pageId other member]

theorem Effect.rows_eq {op : HeapOp} {answer : HeapAnswer} (effect : Effect op answer s s')
    (sound : Sound s) {table : CatalogTable} (present : s.heaps[table.index]? = some table.heapFile)
    (apart : op.target ≠ some table.index) : s'.relationBins table = s.relationBins table :=
  effect.bins_eq sound (List.getElem?_eq_some_iff.mp present).1 apart

/-- The rows of the catalog lie where they lay. -/
def SameRows (s s' : HeapState) : Prop :=
  ∀ table : CatalogTable, s'.relationBins table = s.relationBins table

theorem SameRows.tableRows (same : SameRows s s') : s'.tableRows = s.tableRows := by
  rw [HeapState.tableRows, rows, same]
  rfl

theorem SameRows.columnRows (same : SameRows s s') : s'.columnRows = s.columnRows := by
  rw [HeapState.columnRows, rows, same]
  rfl

/-- The pages of a relation after an insertion. -/
theorem Effect.relationBins_insert {table : CatalogTable} {bytes : List UInt8} {result : Option Rid}
    (effect : Effect (.insert table.index bytes) (.placed result) s s') (sound : Sound s)
    (present : s.heaps[table.index]? = some table.heapFile) (nonempty : bytes ≠ []) :
    s'.relationBins table =
      if bytes.length ≤ 8176 then
        FirstFit.insert 8180 (bytes.length + 4) bytes (s.relationBins table)
      else s.relationBins table ++ [⟨8180, []⟩] :=
  effect.insert_bins sound present table.heapFile_valid nonempty

theorem Effect.rows_insert {table : CatalogTable} {bytes : List UInt8} {result : Option Rid}
    (effect : Effect (.insert table.index bytes) (.placed result) s s') (sound : Sound s)
    (present : s.heaps[table.index]? = some table.heapFile) (nonempty : bytes ≠ [])
    {row : List UInt8} (member : row ∈ s'.rows table) :
    row ∈ s.rows table ∨ row = bytes ∧ bytes.length ≤ 8176 := by
  unfold rows at member ⊢
  rw [effect.relationBins_insert sound present nonempty] at member
  split at member
  · rename_i fits
    rcases FirstFit.mem_contents_insert.mp member with old | new
    · exact Or.inl old
    · exact Or.inr ⟨new, fits⟩
  · rw [FirstFit.contents_append, List.mem_append] at member
    rcases member with old | impossible
    · exact Or.inl old
    · cases impossible

theorem LeadsTo.kept {names : List (List UInt8)} {ids : List Uuid} {row : TableInfo}
    (leads : LeadsTo s names ids row) {op : HeapOp} {answer : HeapAnswer}
    (effect : Effect op answer s s') : LeadsTo s' names ids row := by
  obtain ⟨i, found, own⟩ := leads.place
  refine ⟨leads.lower, leads.upper, leads.named, leads.known, i, ?_, own⟩
  apply effect.heaps_kept found
  intro invalid
  have lower := leads.lower
  rw [show row.firstPageId = invalidPageId from invalid] at lower
  exact absurd lower (by decide)

variable {names : List (List UInt8)} {ids : List Uuid}

/-- What a call must not do to the rows so that the pages stay those of a catalog. -/
theorem Catalogued.kept (catalogued : Catalogued s names ids) {op : HeapOp}
    {answer : HeapAnswer} (effect : Effect op answer s s')
    (tables : ∀ bytes ∈ s'.rows .tables, bytes ∈ s.rows .tables ∨
      ∃ row, bytes = TableInfoCodec.encode row ∧ TableFits row.tableName ∧
        LeadsTo s names ids row)
    (columns : ∀ bytes ∈ s'.rows .attributes, bytes ∈ s.rows .attributes ∨
      ∃ column, bytes = ColumnInfoCodec.encode column ∧ ColumnFits column.colName ∧
        column.tableId ∈ ids) : Catalogued s' names ids := by
  have positive := catalogued.positive
  have grows := effect.pages_le
  have root : rootPageId < s.pages := positive
  refine ⟨?_, ?_, by omega, ?_, ?_, ?_⟩
  · rw [effect.view_eq root fun i _ => catalogued.headerFree i]
    exact catalogued.header
  · intro i member
    rcases effect.chain_mem member with old | new
    · exact catalogued.headerFree i old
    · omega
  · intro table
    exact effect.heaps_kept (catalogued.present table) table.heapFile_valid
  · intro bytes member
    have known : ∃ row, bytes = TableInfoCodec.encode row ∧ TableFits row.tableName ∧
        LeadsTo s names ids row := by
      rcases tables bytes member with old | new
      · exact catalogued.tables bytes old
      · exact new
    obtain ⟨row, same, fits, leads⟩ := known
    exact ⟨row, same, fits, leads.kept effect⟩
  · intro bytes member
    rcases columns bytes member with old | new
    · exact catalogued.columns bytes old
    · exact new

theorem Catalogued.other (catalogued : Catalogued s names ids) (sound : Sound s) {op : HeapOp}
    {answer : HeapAnswer} (effect : Effect op answer s s')
    (apart : ∀ table : CatalogTable, op.target ≠ some table.index) : Catalogued s' names ids := by
  apply catalogued.kept effect
  · intro bytes member
    rw [rows, effect.rows_eq sound (catalogued.present .tables) (apart .tables)] at member
    exact Or.inl member
  · intro bytes member
    rw [rows, effect.rows_eq sound (catalogued.present .attributes) (apart .attributes)] at member
    exact Or.inl member

theorem target_insert {first second : CatalogTable} {bytes : List UInt8} (different : first ≠ second) :
    (HeapOp.insert first.index bytes).target ≠ some second.index := by
  intro same
  exact different (CatalogTable.index_inj (Option.some.inj same))

theorem Catalogued.insertTable (catalogued : Catalogued s names ids) (sound : Sound s)
    {row : TableInfo} {result : Option Rid}
    (effect : Effect (.insert CatalogTable.tables.index (TableInfoCodec.encode row)) (.placed result)
      s s')
    (leads : LeadsTo s names ids row) : Catalogued s' names ids := by
  apply catalogued.kept effect
  · intro bytes member
    rcases effect.rows_insert sound (catalogued.present .tables)
      (TableInfoCodec.encode_ne_nil row) member with old | ⟨same, fits⟩
    · exact Or.inl old
    · rw [TableInfoCodec.encode_length] at fits
      exact Or.inr ⟨row, same, fits, leads⟩
  · intro bytes member
    rw [rows, effect.rows_eq sound (catalogued.present .attributes)
      (target_insert (by decide))] at member
    exact Or.inl member

theorem Catalogued.insertColumn (catalogued : Catalogued s names ids) (sound : Sound s)
    {column : ColumnInfo} {result : Option Rid}
    (effect : Effect (.insert CatalogTable.attributes.index (ColumnInfoCodec.encode column))
      (.placed result) s s')
    (known : column.tableId ∈ ids) : Catalogued s' names ids := by
  apply catalogued.kept effect
  · intro bytes member
    rw [rows, effect.rows_eq sound (catalogued.present .tables)
      (target_insert (by decide))] at member
    exact Or.inl member
  · intro bytes member
    rcases effect.rows_insert sound (catalogued.present .attributes)
      (ColumnInfoCodec.encode_ne_nil column) member with old | ⟨same, fits⟩
    · exact Or.inl old
    · rw [ColumnInfoCodec.encode_length] at fits
      exact Or.inr ⟨column, same, fits, known⟩

theorem Catalogued.insertType (catalogued : Catalogued s names ids) (sound : Sound s)
    {bytes : List UInt8} {result : Option Rid}
    (effect : Effect (.insert CatalogTable.types.index bytes) (.placed result) s s') :
    Catalogued s' names ids := by
  apply catalogued.kept effect
  · intro row member
    rw [rows, effect.rows_eq sound (catalogued.present .tables)
      (target_insert (by decide))] at member
    exact Or.inl member
  · intro row member
    rw [rows, effect.rows_eq sound (catalogued.present .attributes)
      (target_insert (by decide))] at member
    exact Or.inl member

theorem Catalogued.row_of_mem (catalogued : Catalogued s names ids) {row : TableInfo}
    (member : row ∈ s.tableRows) : TableFits row.tableName ∧ LeadsTo s names ids row := by
  obtain ⟨bytes, among, decoded⟩ := List.mem_filterMap.mp member
  obtain ⟨row', same, fits, leads⟩ := catalogued.tables bytes among
  have lower := leads.lower
  rw [same, TableInfoCodec.decode_encode (by omega) leads.upper fits.short,
    Option.some.injEq] at decoded
  rw [← decoded]
  exact ⟨fits, leads⟩

theorem Catalogued.leadsTo_of_find (catalogued : Catalogued s names ids) {row : TableInfo}
    {tableName : List UInt8} (found : s.tableRows.find? (·.tableName = tableName) = some row) :
    LeadsTo s names ids row :=
  (catalogued.row_of_mem (List.mem_of_find?_eq_some found)).2

def namedRow (tableName : List UInt8) (bytes : List UInt8) : Bool :=
  (TableInfoCodec.decode bytes).any (·.tableName = tableName)

/-- Rows of one name have one size, so first fit puts none in front of the first. -/
def FirstRows (s : HeapState) : Prop :=
  ∀ tableName, FirstFit.Settled (namedRow tableName) (40 + tableName.length + 4)
    (s.relationBins .tables)

theorem find?_tableRows (s : HeapState) (tableName : List UInt8) :
    s.tableRows.find? (·.tableName = tableName) =
      ((s.rows .tables).find? (namedRow tableName)).bind TableInfoCodec.decode := by
  rw [tableRows, List.find?_filterMap]
  rfl

theorem namedRow_size {tableName : List UInt8} {row : TableInfo}
    (decoded : TableInfoCodec.decode (TableInfoCodec.encode row) = some row)
    (named : namedRow tableName (TableInfoCodec.encode row) = true) :
    40 + row.tableName.length + 4 = 40 + tableName.length + 4 := by
  rw [namedRow, decoded, Option.any_some, decide_eq_true_iff] at named
  rw [named]

/-- What an insertion into `db_tables` does to its pages. -/
def withTableRow (bins : List (FirstFit.Bin (List UInt8))) (row : TableInfo) :
    List (FirstFit.Bin (List UInt8)) :=
  if TableFits row.tableName then
    FirstFit.insert 8180 (40 + row.tableName.length + 4) (TableInfoCodec.encode row) bins
  else bins ++ [⟨8180, []⟩]

theorem Effect.withTableRow {row : TableInfo} {result : Option Rid}
    (effect : Effect (.insert CatalogTable.tables.index (TableInfoCodec.encode row)) (.placed result)
      s s')
    (sound : Sound s)
    (present : s.heaps[CatalogTable.tables.index]? = some CatalogTable.tables.heapFile) :
    s'.relationBins .tables = withTableRow (s.relationBins .tables) row := by
  rw [effect.relationBins_insert sound present (TableInfoCodec.encode_ne_nil row),
    TableInfoCodec.encode_length]
  rfl

theorem FirstRows.insert (first : FirstRows s) {row : TableInfo}
    (decodes : TableFits row.tableName →
      TableInfoCodec.decode (TableInfoCodec.encode row) = some row)
    (bins : s'.relationBins .tables = withTableRow (s.relationBins .tables) row) :
    FirstRows s' := by
  intro tableName
  rw [bins, HeapState.withTableRow]
  split
  · rename_i fits
    exact (first tableName).insert fun named => namedRow_size (decodes fits) named
  · exact (first tableName).more

/-- The first row of a name stays the first. -/
theorem FirstRows.find?_insert (first : FirstRows s) {row found : TableInfo}
    {tableName : List UInt8}
    (decodes : TableFits row.tableName →
      TableInfoCodec.decode (TableInfoCodec.encode row) = some row)
    (bins : s'.relationBins .tables = withTableRow (s.relationBins .tables) row)
    (isFirst : s.tableRows.find? (·.tableName = tableName) = some found) :
    s'.tableRows.find? (·.tableName = tableName) = some found := by
  rw [find?_tableRows] at isFirst ⊢
  obtain ⟨bytes, isBytes, decoded⟩ := Option.bind_eq_some_iff.mp isFirst
  have after : (s'.rows .tables).find? (namedRow tableName) = some bytes := by
    rw [rows, bins, HeapState.withTableRow]
    split
    · rename_i fits
      exact (first tableName).find?_insert (fun named => namedRow_size (decodes fits) named) isBytes
    · rw [FirstFit.contents_append, List.find?_append]
      rw [rows] at isBytes
      rw [isBytes, Option.some_or]
  rw [after, Option.bind_some, decoded]

theorem FirstRows.same (first : FirstRows s)
    (bins : s'.relationBins .tables = s.relationBins .tables) : FirstRows s' := by
  intro tableName
  rw [bins]
  exact first tableName

theorem Catalogued.mono (catalogued : Catalogued s names ids) {names' : List (List UInt8)}
    {ids' : List Uuid} (moreNames : names ⊆ names') (moreIds : ids ⊆ ids') :
    Catalogued s names' ids' := by
  refine ⟨catalogued.header, catalogued.headerFree, catalogued.positive, catalogued.present, ?_, ?_⟩
  · intro bytes member
    obtain ⟨row, same, fits, leads⟩ := catalogued.tables bytes member
    exact ⟨row, same, fits, leads.lower, leads.upper, moreNames leads.named, moreIds leads.known,
      leads.place⟩
  · intro bytes member
    obtain ⟨column, same, fits, known⟩ := catalogued.columns bytes member
    exact ⟨column, same, fits, moreIds known⟩

end HeapState

namespace Catalog

variable {N : Nat} {catalog : Catalog N} {s : HeapState}

theorem foldRecords_lookup (tableName : List UInt8) {records : List (List UInt8)}
    (decodes : ∀ bytes ∈ records, ∃ row, TableInfoCodec.decode bytes = some row) :
    foldRecords (lookupBody tableName) ⟨⟩ records =
      some (match (records.filterMap TableInfoCodec.decode).find? (·.tableName = tableName) with
        | some table => .inr table
        | none => .inl ⟨⟩) := by
  induction records with
  | nil => rfl
  | cons bytes rest ih =>
      obtain ⟨row, decoded⟩ := decodes bytes List.mem_cons_self
      have further := ih fun other member => decodes other (List.mem_cons_of_mem _ member)
      rw [foldRecords, lookupBody, decoded, List.filterMap_cons_some decoded, List.find?_cons]
      simp only [Option.bind_eq_bind, Option.bind_some, Option.pure_def]
      by_cases here : row.tableName = tableName
      · simp only [here, ↓reduceIte, decide_true]
      · simp only [here, ↓reduceIte, decide_false]
        exact further

theorem foldRecords_columns (tableId : Uuid) {records : List (List UInt8)} (res : List ColumnInfo)
    (decodes : ∀ bytes ∈ records, ∃ column, ColumnInfoCodec.decode bytes = some column) :
    foldRecords (columnsBody tableId) res records =
      some (.inl (res ++ (records.filterMap ColumnInfoCodec.decode).filter (·.tableId = tableId))) := by
  induction records generalizing res with
  | nil =>
      rw [List.filterMap_nil, List.filter_nil, List.append_nil]
      rfl
  | cons bytes rest ih =>
      obtain ⟨column, decoded⟩ := decodes bytes List.mem_cons_self
      have further := fun res => ih res fun other member => decodes other (List.mem_cons_of_mem _ member)
      rw [foldRecords, columnsBody, decoded, List.filterMap_cons_some decoded, List.filter_cons]
      simp only [Option.bind_eq_bind, Option.bind_some, Option.pure_def]
      by_cases here : column.tableId = tableId
      · simp only [here, ↓reduceIte, decide_true]
        rw [further, List.append_assoc]
        rfl
      · simp only [here, ↓reduceIte, decide_false, Bool.false_eq_true]
        exact further res

theorem foldRecords_types {records : List (List UInt8)} (res : List TypeInfo)
    (decodes : ∀ bytes ∈ records, ∃ type, TypeInfoCodec.decode bytes = some type) :
    foldRecords typesBody res records =
      some (.inl (res ++ records.filterMap TypeInfoCodec.decode)) := by
  induction records generalizing res with
  | nil =>
      rw [List.filterMap_nil, List.append_nil]
      rfl
  | cons bytes rest ih =>
      obtain ⟨type, decoded⟩ := decodes bytes List.mem_cons_self
      have further := ih (res ++ [type])
        fun other member => decodes other (List.mem_cons_of_mem _ member)
      rw [foldRecords, typesBody, decoded, List.filterMap_cons_some decoded]
      simp only [Option.bind_eq_bind, Option.bind_some, Option.pure_def]
      rw [further, List.append_assoc, List.singleton_append]

/-- A catalog whose pool holds relations with these rows. The built-in types are not
read again. -/
structure Reads (catalog : Catalog N) (view : Int → Option Page) (pages : Int)
    (rows : CatalogTable → List (List UInt8)) : Prop where
  steady : Steady catalog.world.bm view (fun _ => 0) pages
  relations : ∀ table, catalog.relations table = some table.heapFile
  linked : ∀ table, table ≠ .types → ∃ chain,
    HeapFile.Chain view table.heapFile.firstPageId chain ∧
      FirstFit.contents (HeapState.bins view chain) = rows table

section Reads

variable {view : Int → Option Page} {pages : Int} {rows : CatalogTable → List (List UInt8)}

/-- The loop over a relation goes through its rows. -/
theorem Reads.forRecords_returns {β γ : Type} (reads : Reads catalog view pages rows)
    {table : CatalogTable} (followed : table ≠ .types) {body : β → List UInt8 → Option (β ⊕ γ)}
    {start : β} {result : β ⊕ γ} (folds : foldRecords body start (rows table) = some result) :
    ∃ bm', (onPool (table.heapFile.forRecords 0 body start)).Returns catalog result
        (catalog.setPool bm') ∧ Steady bm' view (fun _ => 0) pages := by
  obtain ⟨chain, linked, same⟩ := reads.linked table followed
  rw [← same, HeapState.contents_bins] at folds
  obtain ⟨bm', looped, steady'⟩ := HeapFile.forRecords_returns 0 linked reads.steady folds
  exact ⟨bm', onPool_returns catalog looped, steady'⟩

theorem Reads.lookup_returns (reads : Reads catalog view pages rows)
    (decodes : ∀ bytes ∈ rows .tables, ∃ row, TableInfoCodec.decode bytes = some row)
    (tableName : List UInt8) :
    ∃ bm', (lookup tableName).Returns catalog
        (((rows .tables).filterMap TableInfoCodec.decode).find? (·.tableName = tableName))
        (catalog.setPool bm') ∧ Steady bm' view (fun _ => 0) pages := by
  obtain ⟨bm', looped, steady'⟩ :=
    reads.forRecords_returns (by decide) (foldRecords_lookup tableName decodes)
  refine ⟨bm', ?_, steady'⟩
  apply (relation_returns (reads.relations .tables)).bind
  apply looped.bind
  cases (rows .tables).filterMap TableInfoCodec.decode |>.find? (·.tableName = tableName) with
  | none => exact Program.pure_returns _ _
  | some table => exact Program.pure_returns _ _

theorem Reads.getColumns_returns (reads : Reads catalog view pages rows)
    (decodes : ∀ bytes ∈ rows .attributes, ∃ column, ColumnInfoCodec.decode bytes = some column)
    (tableId : Uuid) :
    ∃ bm', (getColumns tableId).Returns catalog
        (((rows .attributes).filterMap ColumnInfoCodec.decode).filter (·.tableId = tableId))
        (catalog.setPool bm') ∧ Steady bm' view (fun _ => 0) pages := by
  obtain ⟨bm', looped, steady'⟩ :=
    reads.forRecords_returns (by decide) (foldRecords_columns tableId [] decodes)
  refine ⟨bm', ?_, steady'⟩
  apply (relation_returns (reads.relations .attributes)).bind
  apply looped.bind
  exact Program.pure_returns _ _

end Reads

theorem Holds.reads (holds : Holds catalog s) : Reads catalog s.view s.pages s.rows :=
  ⟨holds.shows.steady, holds.relations, fun table _ =>
    ⟨s.chain table.index, holds.shows.sound.linked _ _ (holds.present table), rfl⟩⟩

variable {names : List (List UInt8)} {ids : List Uuid}

theorem decodes_tables (catalogued : s.Catalogued names ids) :
    ∀ bytes ∈ s.rows .tables, ∃ row, TableInfoCodec.decode bytes = some row := by
  intro bytes member
  obtain ⟨row, same, fits, leads⟩ := catalogued.tables bytes member
  have lower := leads.lower
  rw [same]
  exact ⟨row, TableInfoCodec.decode_encode (by omega) leads.upper fits.short⟩

theorem decodes_columns (catalogued : s.Catalogued names ids) :
    ∀ bytes ∈ s.rows .attributes, ∃ column, ColumnInfoCodec.decode bytes = some column := by
  intro bytes member
  obtain ⟨column, same, fits, _⟩ := catalogued.columns bytes member
  rw [same]
  exact ⟨column, ColumnInfoCodec.decode_encode fits.short⟩

theorem Holds.lookup_returns (holds : Holds catalog s) (catalogued : s.Catalogued names ids)
    (tableName : List UInt8) :
    ∃ bm', (lookup tableName).Returns catalog (s.tableRows.find? (·.tableName = tableName))
        (catalog.setPool bm') ∧ Holds (catalog.setPool bm') s := by
  obtain ⟨bm', found, steady'⟩ :=
    holds.reads.lookup_returns (decodes_tables catalogued) tableName
  exact ⟨bm', found, holds.setPool steady' rfl holds.shows.sound⟩

theorem Holds.getColumns_returns (holds : Holds catalog s) (catalogued : s.Catalogued names ids)
    (tableId : Uuid) :
    ∃ bm', (getColumns tableId).Returns catalog (s.columnRows.filter (·.tableId = tableId))
        (catalog.setPool bm') ∧ Holds (catalog.setPool bm') s := by
  obtain ⟨bm', listed, steady'⟩ :=
    holds.reads.getColumns_returns (decodes_columns catalogued) tableId
  exact ⟨bm', listed, holds.setPool steady' rfl holds.shows.sound⟩

theorem Holds.getTypes_returns (holds : Holds catalog s)
    (decodes : ∀ bytes ∈ s.rows .types, ∃ type, TypeInfoCodec.decode bytes = some type) :
    ∃ bm', getTypes.Returns catalog ((s.rows .types).filterMap TypeInfoCodec.decode)
        (catalog.setPool bm') ∧ Holds (catalog.setPool bm') s := by
  have linked := holds.shows.sound.linked _ _ (holds.present .types)
  have folds := foldRecords_types [] decodes
  unfold HeapState.rows HeapState.relationBins at folds
  rw [HeapState.contents_bins] at folds
  obtain ⟨bm', looped, steady'⟩ :=
    HeapFile.forRecords_returns 0 linked holds.shows.steady folds
  refine ⟨bm', ?_, holds.setPool steady' rfl holds.shows.sound⟩
  apply (holds.relation_returns .types).bind
  apply (onPool_returns catalog looped).bind
  rw [List.nil_append, ← HeapState.contents_bins]
  exact Program.pure_returns _ _

end Catalog

end RelationalDb
