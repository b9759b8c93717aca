import RelationalDb.Model.DatabaseChanges
import RelationalDb.Model.RowPadding
import RelationalDb.Model.SchemaEnforcement
import RelationalDb.Model.SystemTables
import RelationalDb.Model.TableNames

set_option autoImplicit false

namespace RelationalDb

open HeapFile

namespace HeapState

variable {s s' : HeapState}

theorem Effect.offered_bins {i : Nat} {heap : HeapFile} {data : List UInt8} {result : Option Rid}
    (effect : Effect (.insert i data) (.placed result) s s') (sound : Sound s)
    (present : s.heaps[i]? = some heap) (made : heap.firstPageId ≠ invalidPageId)
    (nonempty : data ≠ []) :
    bins s'.view (s'.chain i) =
      FirstFit.offer 8180 (rowSize data) data (bins s.view (s.chain i)) := by
  rw [effect.insert_bins sound present made nonempty, FirstFit.offer, rowSize]
  by_cases fits : data.length ≤ 8176
  · rw [if_pos fits, if_pos (by omega)]
  · rw [if_neg fits, if_neg (by omega)]

theorem ColumnsInserted.bins_other {columns : List ColumnInfo}
    (inserted : ColumnsInserted columns s s') (sound : Sound s) {i : Nat} (own : 3 ≤ i)
    (bound : i < s.heaps.length) : bins s'.view (s'.chain i) = bins s.view (s.chain i) := by
  induction inserted with
  | nil => rfl
  | @cons column columns result s s₁ s' effect rest ih =>
      have apart : (HeapOp.insert CatalogTable.attributes.index
          (ColumnInfoCodec.encode column)).target ≠ some i := by
        intro same
        have target : CatalogTable.attributes.index = i := Option.some.inj same
        have small := CatalogTable.index_lt .attributes
        omega
      rw [ih (effect.sound sound) (Nat.lt_of_lt_of_le bound effect.count_le),
        effect.bins_eq sound bound apart]

/-- `CreateTable` leaves the other heaps of clients alone, and the new heap is one empty page. -/
theorem TableCreated.bins_clients {tableId fileId : Uuid} {tableName : List UInt8}
    {columns : List ColumnInfo} (created : TableCreated s tableId fileId tableName columns s')
    (sound : Sound s) {i : Nat} (own : 3 ≤ i) :
    (i < s.heaps.length → bins s'.view (s'.chain i) = bins s.view (s.chain i)) ∧
      (i = s.heaps.length → bins s'.view (s'.chain i) = [⟨8180, []⟩]) := by
  obtain ⟨s₁, s₂, result, make, insert, rest⟩ := created.steps
  have sound₁ := make.sound sound
  have longer : s₁.heaps.length = s.heaps.length + 1 := make.count
  have apart : (HeapOp.insert CatalogTable.tables.index
      (TableInfoCodec.encode ⟨tableId, tableName, fileId, s.pages⟩)).target ≠ some i := by
    intro same
    have target : CatalogTable.tables.index = i := Option.some.inj same
    have small := CatalogTable.index_lt .tables
    omega
  have later : i < s₁.heaps.length → bins s'.view (s'.chain i) = bins s₁.view (s₁.chain i) := by
    intro bound
    rw [rest.bins_other (insert.sound sound₁) own (Nat.lt_of_lt_of_le bound insert.count_le),
      insert.bins_eq sound₁ bound apart]
  constructor
  · intro bound
    rw [later (by omega), make.bins_eq sound bound (Option.some_ne_none _).symm]
  · intro new
    subst new
    rw [later (by omega)]
    obtain ⟨raw, same⟩ := make.made
    have chain : s₁.chain s.heaps.length = [s.pages] := by
      rw [same]
      exact Function.update_self _ _ _
    have page : s₁.view s.pages = some (initHeapPage raw) := by
      rw [same]
      exact Function.update_self _ _ _
    rw [chain, bins, List.map_singleton, pageBin_made page]

end HeapState

namespace DynamicCodec

variable {values : List Value} {schema : Schema} {buffer bytes : List UInt8}

theorem encode_length (encoded : encode values schema = some bytes) :
    schema.length ≤ bytes.length := by
  have same := length_of_encode encoded
  rw [encode, if_pos same] at encoded
  have longer := encodeFrom_length same encoded
  rw [List.length_nil] at longer
  omega

theorem paddingNeeded_le {size padding : Nat} {typeId : UInt32}
    (needed : paddingNeeded size typeId = some padding) : padding ≤ 3 := by
  have aligned : getAlignment typeId ≤ 4 := by
    unfold getAlignment
    split
    · exact Nat.le_refl 4
    · split
      · exact Nat.le_refl 4
      · exact Nat.zero_le 4
  rw [paddingNeeded] at needed
  split at needed
  · cases needed
  · split at needed
    · cases needed
      omega
    · cases needed
      omega

theorem encodeFrom_small (encoded : encodeFrom buffer values schema = some bytes) :
    bytes.length ≤ buffer.length + (values.map fun value => value.field.length + 3).sum := by
  fun_induction encodeFrom buffer values schema with
  | case1 buffer value values column schema ih =>
      obtain ⟨padded, isPadded, encoded⟩ := Option.bind_eq_some_iff.mp encoded
      obtain ⟨padding, needed, rfl⟩ := Option.map_eq_some_iff.mp isPadded
      have few := paddingNeeded_le needed
      have rest := ih _ encoded
      rw [writeValue_eq, List.length_append, List.length_append, List.length_replicate] at rest
      rw [List.map_cons, List.sum_cons]
      omega
  | case2 buffer =>
      obtain rfl := Option.some.inj encoded
      exact Nat.le_add_right _ _

theorem encode_small (encoded : encode values schema = some bytes) :
    bytes.length ≤ (values.map fun value => value.field.length + 3).sum := by
  rw [encode, if_pos (length_of_encode encoded)] at encoded
  have small := encodeFrom_small encoded
  rwa [List.length_nil, Nat.zero_add] at small

theorem encode_ne_nil (encoded : encode values schema = some bytes) (columns : schema ≠ []) :
    bytes ≠ [] := by
  have longer := encode_length encoded
  have positive := List.length_pos_iff.mpr columns
  rintro rfl
  rw [List.length_nil] at longer
  omega

end DynamicCodec

namespace TableManager

open HeapState (bins)

variable {N : Nat} {manager manager' : TableManager N} {s s' : HeapState}
  {names : List (List UInt8)}
  {ids : List Uuid} {rids : List (Nat × Rid)} {name : List UInt8} {table : UserTable}
  {log : List (Event N)} {event : Event N}

/-- The values that `Insert` was given for a table and did not throw on, in their order. -/
def offeredRows (name : List UInt8) : List (Event N) → List (List Value)
  | [] => []
  | event :: log =>
      match event.op, event.outcome with
      | .insert other values, .ok _ =>
          if other = name then offeredRows name log ++ [values] else offeredRows name log
      | _, _ => offeredRows name log

def encodedRows (schema : Schema) (rows : List (List Value)) : List (List UInt8) :=
  rows.filterMap fun values => DynamicCodec.encode values schema

/-- No call on a heap file has changed heap `i`. -/
def Untouched (i : Nat) (log : List (Event N)) : Prop :=
  ∀ event ∈ log, ∀ op, event.op = .heap op → (op.shift 3).target ≠ some i

theorem Untouched.earlier {i : Nat} (untouched : Untouched i (event :: log)) : Untouched i log :=
  fun other member => untouched other (List.mem_cons_of_mem _ member)

/-- Only an `Insert` into the table adds a row. -/
theorem offeredRows_other {op : Op N} (apart : ∀ values, op ≠ .insert name values)
    (outcome : Except Error Answer) (log : List (Event N)) :
    offeredRows name (⟨op, outcome⟩ :: log) = offeredRows name log := by
  cases op with
  | insert other values =>
      have different : other ≠ name := by
        rintro rfl
        exact apart values rfl
      cases outcome with
      | ok answer => simp only [offeredRows, different, ↓reduceIte]
      | error reason => rfl
  | createTable => rfl
  | lookupTable => rfl
  | getTableColumns => rfl
  | openTable => rfl
  | heap => rfl
  | flushAll => rfl
  | restart => rfl

theorem offeredRows_insert (name : List UInt8) (values : List Value) (answer : Answer)
    (log : List (Event N)) :
    offeredRows name (⟨.insert name values, .ok answer⟩ :: log) =
      offeredRows name log ++ [values] := by
  simp only [offeredRows, ↓reduceIte]

theorem Loaded.unique {first second : UserTable} (one : Loaded s name first)
    (other : Loaded s name second) : first = second := by
  obtain ⟨row, found, rfl⟩ := one
  obtain ⟨row', found', rfl⟩ := other
  rw [found, Option.some.injEq] at found'
  rw [found']

theorem valid_of_lower {pageId : Int} (lower : 0 ≤ pageId) : pageId ≠ invalidPageId := by
  rintro rfl
  exact absurd lower (by decide)

theorem Loaded.place (loaded : Loaded s name table) (catalogued : s.Catalogued names ids) :
    table.hf.firstPageId ≠ invalidPageId ∧
      ∃ i, s.heaps[i]? = some table.hf ∧ (name ∉ systemNames → 3 ≤ i) := by
  obtain ⟨row, found, rfl⟩ := loaded
  have leads := catalogued.leadsTo_of_find found
  have named : row.tableName = name := by simpa using List.find?_some found
  refine ⟨valid_of_lower leads.lower, ?_⟩
  rw [← named]
  exact leads.place

/-- Every table has pages of its own, and the pages of a table have the rows it was given, as
first fit puts them. -/
structure Shelved (log : List (Event N)) (s : HeapState) : Prop where
  unknown : ∀ name, s.tableRows.find? (·.tableName = name) = none → offeredRows name log = []
  firstPages : (s.tableRows.map (·.firstPageId)).Nodup
  rows : ∀ name table i, Loaded s name table → s.heaps[i]? = some table.hf → 3 ≤ i →
    table.schema ≠ [] → Untouched i log →
      bins s.view (s.chain i) = FirstFit.offerAll 8180 rowSize [⟨8180, []⟩]
        (encodedRows table.schema (offeredRows name log))

/-- Tables with one first page have one name. -/
theorem Shelved.name_unique (shelved : Shelved log s) {other : List UInt8}
    {first second : UserTable} (one : Loaded s name first) (two : Loaded s other second)
    (same : first.hf = second.hf) : name = other := by
  obtain ⟨row, found, rfl⟩ := one
  obtain ⟨row', found', rfl⟩ := two
  have page : row.firstPageId = row'.firstPageId := congrArg HeapFile.firstPageId same
  have rows := List.inj_on_of_nodup_map shelved.firstPages (List.mem_of_find?_eq_some found)
    (List.mem_of_find?_eq_some found') page
  have named : row.tableName = name := by simpa using List.find?_some found
  have named' : row'.tableName = other := by simpa using List.find?_some found'
  rw [← named, ← named', rows]

theorem Changes.heaps_kept (changes : Changes manager event s s') {i : Nat} {hf : HeapFile}
    (present : s.heaps[i]? = some hf) (made : hf.firstPageId ≠ invalidPageId) :
    s'.heaps[i]? = some hf := by
  cases changes with
  | created created => exact created.heaps_kept present made
  | inserted opened here made' own encoded effect => exact effect.heaps_kept present made
  | refused => exact present
  | heap effect => exact effect.heaps_kept present made
  | reopened inFile => exact present
  | looked looks => exact present

/-- A table keeps the rows it was given, and gets the one it is given. -/
theorem Shelved.rows_step (shelved : Shelved log s) (holds : CacheState log manager s)
    (changes : Changes manager event s s') (distinct : (createdIds log).Nodup)
    (loaded : Loaded s name table) {i : Nat} (present : s.heaps[i]? = some table.hf)
    (own : 3 ≤ i) (columns : table.schema ≠ []) (untouched : Untouched i (event :: log)) :
    bins s'.view (s'.chain i) = FirstFit.offerAll 8180 rowSize [⟨8180, []⟩]
      (encodedRows table.schema (offeredRows name (event :: log))) := by
  have stands := holds.state.stands
  have sound := stands.holds.shows.sound
  have bound := (List.getElem?_eq_some_iff.mp present).1
  have before := shelved.rows name table i loaded present own columns untouched.earlier
  have still : ∀ {op outcome}, event = ⟨op, outcome⟩ → (∀ values, op ≠ .insert name values) →
      bins s'.view (s'.chain i) = bins s.view (s.chain i) →
      bins s'.view (s'.chain i) = FirstFit.offerAll 8180 rowSize [⟨8180, []⟩]
        (encodedRows table.schema (offeredRows name (event :: log))) := by
    rintro op outcome rfl apart same
    rw [offeredRows_other apart, same, before]
  cases changes with
  | created created =>
      exact still rfl (fun _ => by simp) ((created.bins_clients sound own).1 bound)
  | @inserted other values opened' bytes manager₁ j result s s' opened there made behind encoded
      effect =>
      have loaded' := holds.opened distinct opened
      by_cases same : other = name
      · subst same
        obtain rfl := loaded.unique loaded'
        obtain rfl := index_unique sound present there made
        have row : encodedRows table.schema (offeredRows other
            (⟨.insert other values, .ok (.placed result)⟩ :: log)) =
              encodedRows table.schema (offeredRows other log) ++ [bytes] := by
          simp only [offeredRows_insert, encodedRows, List.filterMap_append, List.filterMap_cons,
            encoded, List.filterMap_nil]
        rw [effect.offered_bins sound present made (DynamicCodec.encode_ne_nil encoded columns),
          before, row, FirstFit.offerAll_concat]
      · apply still rfl
        · intro values' isInsert
          cases isInsert
          exact same rfl
        · apply effect.bins_eq sound bound
          intro target
          obtain rfl : j = i := Option.some.inj target
          rw [there, Option.some.injEq] at present
          exact same (shelved.name_unique loaded' loaded present)
  | refused => exact before
  | @heap op answer s s' effect =>
      exact still rfl (fun _ => by simp)
        (effect.bins_eq sound bound (untouched _ List.mem_cons_self op rfl))
  | reopened inFile =>
      exact still rfl (fun _ => by simp)
        (HeapState.bins_congr fun _ member => inFile.chain_view sound member)
  | @looked op outcome s looks =>
      refine still rfl ?_ rfl
      rintro values rfl
      cases looks

theorem CacheState.changed [NeZero N] (holds : CacheState log manager s)
    (taken : databaseStep log manager event manager') (evolves : Evolves event.op s s')
    (state' : RunState (event :: log) manager' s') : CacheState (event :: log) manager' s' := by
  obtain ⟨_, _, kept, _⟩ := holds.state.step taken
  have stands := holds.state.stands
  refine ⟨state', ?_, ?_⟩
  · intro name table present
    have before : ∃ row, s.tableRows.find? (·.tableName = name) = some row := by
      rcases kept name table present with cached | ⟨row, found, _⟩
      · exact holds.found name table cached
      · exact ⟨row, found⟩
    obtain ⟨row, found⟩ := before
    exact ⟨row,
      evolves.find?_kept stands.holds.shows.sound stands.catalogued holds.state.first found⟩
  · intro distinct name table present
    apply holds.state.loaded taken evolves distinct
    rcases kept name table present with cached | loaded
    · exact holds.loaded (distinct.sublist (createdIds_sublist event log)) name table cached
    · exact loaded

theorem Shelved.firstPages_step (shelved : Shelved log s) (evolves : Evolves event.op s s')
    (sound : s.Sound) (catalogued : s.Catalogued names ids) :
    (s'.tableRows.map (·.firstPageId)).Nodup := by
  rcases evolves.cases with same | ⟨tableRandom, fileRandom, other, columns, _, created⟩
  · rw [same.tableRows]
    exact shelved.firstPages
  · have more := created.tableRows sound catalogued (Catalog.columnInfo_own _ columns)
    split at more
    · have pages := more.perm.map (·.firstPageId)
      rw [pages.nodup_iff, List.map_cons, List.nodup_cons]
      refine ⟨?_, shelved.firstPages⟩
      intro member
      obtain ⟨row, among, same⟩ := List.mem_map.mp member
      -- the page of the new table is behind all pages that there are
      have leads := (catalogued.row_of_mem among).2
      obtain ⟨i, present, _⟩ := leads.place
      have inside : row.firstPageId < s.pages :=
        sound.inside i _ ((sound.linked i _ present).first_mem (valid_of_lower leads.lower))
      have first : row.firstPageId = s.pages := same
      omega
    · rw [more]
      exact shelved.firstPages

theorem created_place {tableId fileId : Uuid} {columns : List ColumnInfo}
    (created : s.TableCreated tableId fileId name columns s') (sound : s.Sound) :
    s'.heaps[s.heaps.length]? = some ⟨fileId, s.pages⟩ := by
  obtain ⟨s₁, s₂, result, make, insert, rest⟩ := created.steps
  have made : (⟨fileId, s.pages⟩ : HeapFile).firstPageId ≠ invalidPageId :=
    valid_of_lower sound.given
  exact rest.heaps_kept (insert.heaps_kept (HeapState.effect_create make) made) made

theorem Shelved.unknown_step (shelved : Shelved log s) (holds : CacheState log manager s)
    (changes : Changes manager event s s') (distinct : (createdIds log).Nodup)
    (unknown : s.tableRows.find? (·.tableName = name) = none) :
    offeredRows name (event :: log) = [] := by
  have before := shelved.unknown name unknown
  obtain ⟨op, outcome⟩ := event
  by_cases own : ∃ values, op = .insert name values
  · obtain ⟨values, rfl⟩ := own
    cases changes with
    | inserted opened present made own encoded effect =>
        obtain ⟨row, found, _⟩ := holds.opened distinct opened
        rw [unknown] at found
        cases found
    | refused => exact before
    | looked looks => cases looks
  · rw [offeredRows_other (fun values same => own ⟨values, same⟩), before]

theorem new_table_bins (holds : CacheState log manager s) (evolves : Evolves event.op s s')
    (unknown : s.tableRows.find? (·.tableName = name) = none) (loaded : Loaded s' name table)
    {i : Nat} (sound' : s'.Sound) (present : s'.heaps[i]? = some table.hf) (own : 3 ≤ i) :
    bins s'.view (s'.chain i) = [⟨8180, []⟩] := by
  have stands := holds.state.stands
  have sound := stands.holds.shows.sound
  obtain ⟨row, isRow, rfl⟩ := loaded
  rcases evolves.cases with same | ⟨tableRandom, fileRandom, other, raws, isCreate, created⟩
  · rw [same.tableRows, unknown] at isRow
    cases isRow
  · have more := created.tableRows sound stands.catalogued (Catalog.columnInfo_own _ raws)
    split at more
    · have new : row =
          ⟨generateUuid tableRandom, other, generateUuid fileRandom, s.pages⟩ := by
        rcases List.mem_cons.mp (more.perm.mem_iff.mp (List.mem_of_find?_eq_some isRow)) with
          same | old
        · exact same
        · exact absurd (List.find?_some isRow) (List.find?_eq_none.mp unknown row old)
      subst new
      have place := created_place created sound
      obtain rfl := index_unique sound' present place (valid_of_lower sound.given)
      exact (created.bins_clients sound own).2 rfl
    · rw [more, unknown] at isRow
      cases isRow

theorem Shelved.step [NeZero N] (shelved : Shelved log s) (holds : CacheState log manager s)
    (taken : databaseStep log manager event manager') (changes : Changes manager event s s')
    (distinct : (createdIds (event :: log)).Nodup) (sound' : s'.Sound) :
    Shelved (event :: log) s' := by
  have stands := holds.state.stands
  have sound := stands.holds.shows.sound
  have evolves := changes.evolves stands
  have earlier := distinct.sublist (createdIds_sublist event log)
  refine ⟨?_, shelved.firstPages_step evolves sound stands.catalogued, ?_⟩
  · intro name unknown
    apply shelved.unknown_step holds changes earlier
    cases found : s.tableRows.find? (·.tableName = name) with
    | none => rfl
    | some row =>
        rw [evolves.find?_kept sound stands.catalogued holds.state.first found] at unknown
        cases unknown
  · intro name table i loaded present own columns untouched
    cases found : s.tableRows.find? (·.tableName = name) with
    | some row =>
        have before : Loaded s name _ := ⟨row, found, rfl⟩
        obtain rfl := (holds.state.loaded taken evolves distinct before).unique loaded
        obtain ⟨made, j, there, _⟩ := before.place stands.catalogued
        obtain rfl := index_unique sound' present
          (changes.heaps_kept there made) made
        exact shelved.rows_step holds changes earlier before there own columns untouched
    | none =>
        rw [shelved.unknown_step holds changes earlier found]
        exact new_table_bins holds evolves found loaded sound' present own

theorem Booted.shelved {manager : TableManager N} (booted : Booted manager s)
    (empty : manager.cache = fun _ => none) : Shelved ([] : List (Event N)) s := by
  refine ⟨fun _ _ => rfl, ?_, ?_⟩
  · rw [HeapState.tableRows, HeapState.rows, booted.tables]
    decide
  · intro name table i loaded present own _ _
    have system := booted.system empty
    have named : ∃ relation : CatalogTable, name = relation.row.tableName := by
      obtain ⟨row, found, _⟩ := loaded
      have isName : row.tableName = name := by simpa using List.find?_some found
      have member := List.mem_map_of_mem (f := (·.tableName)) (List.mem_of_find?_eq_some found)
      rw [booted.names, isName] at member
      simp only [systemNames, List.mem_cons, List.not_mem_nil, or_false] at member
      rcases member with same | same | same
      · exact ⟨.tables, same⟩
      · exact ⟨.attributes, same⟩
      · exact ⟨.types, same⟩
    obtain ⟨relation, rfl⟩ := named
    have heap := (system.loaded loaded).2
    rw [heap] at present
    have stands := booted.state.stands
    have same := index_unique stands.holds.shows.sound present (stands.holds.present relation)
      relation.heapFile_valid
    have small := relation.index_lt
    omega

/-- What every point of a run has: a state of the cache, and tables whose pages are as first fit
fills them if all generated ids are distinct. -/
structure TableState (log : List (Event N)) (manager : TableManager N) (s : HeapState) : Prop where
  cache : CacheState log manager s
  shelved : (createdIds log).Nodup → Shelved log s

theorem TableState.step [NeZero N] (holds : TableState log manager s)
    (taken : databaseStep log manager event manager') :
    ∃ s', TableState (event :: log) manager' s' := by
  obtain ⟨s', changes, state'⟩ := holds.cache.state.changes taken
  have evolves := changes.evolves holds.cache.state.stands
  refine ⟨s', holds.cache.changed taken evolves state', fun distinct => ?_⟩
  exact (holds.shelved (distinct.sublist (createdIds_sublist event log))).step holds.cache taken
    changes distinct state'.stands.holds.shows.sound

theorem Initialised.tableState [NeZero N] {start : TableManager N}
    (initialised : Initialised start) : ∃ s, TableState [] start s := by
  obtain ⟨s, booted⟩ := initialised.booted
  obtain ⟨raw, buf, returned⟩ := initialised
  have empty := onCatalog_keeps _ _ _ _ returned
  refine ⟨s, ⟨booted.state, ?_, ?_⟩, fun _ => booted.shelved empty⟩
  · intro name table present
    rw [empty] at present
    cases present
  · intro _ name table present
    rw [empty] at present
    cases present

theorem tableState [NeZero N] {start : TableManager N} (initialised : Initialised start)
    {log : List (Event N)} (run : DatabaseRun start log manager) :
    ∃ s, TableState log manager s := by
  apply run.invariant fun log manager => ∃ s, TableState log manager s
  · exact initialised.tableState
  · intro log manager event manager' _ before taken
    obtain ⟨s, holds⟩ := before
    exact holds.step taken

/-- The live records of a table, as the bytes of the pages have them now. -/
def TableHolds (manager : TableManager N) (table : UserTable) (records : List (Rid × List UInt8)) :
    Prop :=
  ∃ chain, Chain manager.catalog.world.bm.contents table.hf.firstPageId chain ∧
    heapRecords manager.catalog.world.bm.contents chain = records

/-- The heap of the table was changed only through the table. -/
def OwnHeap (manager : TableManager N) (log : List (Event N)) (table : UserTable) : Prop :=
  ∀ event ∈ log, ∀ op i, event.op = .heap op → op.target = some i →
    manager.catalog.world.heaps[i]? ≠ some table.hf

theorem Stands.untouched (stands : Stands manager s names ids rids) {i : Nat}
    (present : s.heaps[i]? = some table.hf) (owns : OwnHeap manager log table) :
    Untouched i log := by
  intro event member op isHeap target
  have there : ∃ j, op.target = some j ∧ i = 3 + j := by
    cases op with
    | create => cases target
    | openEmpty => cases target
    | get => cases target
    | insert j data => exact ⟨j, rfl, (Option.some.inj target).symm⟩
    | update j rid data => exact ⟨j, rfl, (Option.some.inj target).symm⟩
    | delete j rid => exact ⟨j, rfl, (Option.some.inj target).symm⟩
  obtain ⟨j, isTarget, rfl⟩ := there
  apply owns event member op j isHeap isTarget
  rw [← stands.holds.shows.heaps, World.behind, List.getElem?_append_right (Nat.le_add_right 3 j)]
    at present
  rw [← present]
  congr 1
  exact (Nat.add_sub_cancel_left 3 j).symm

theorem rowSize_le (bytes : List UInt8) :
    decide (rowSize bytes ≤ 8180) = decide (bytes.length ≤ 8176) := by
  apply decide_eq_decide.mpr
  unfold rowSize
  omega

/-- The pages of a table that was opened are as first fit has filled them. -/
theorem opened_bins [NeZero N] {start : TableManager N} (initialised : Initialised start)
    (run : DatabaseRun start log manager) (distinct : (createdIds log).Nodup)
    (own : name ∉ systemNames) (opened : (openTable name).Returns manager table manager')
    (columns : table.schema ≠ []) (owns : OwnHeap manager log table) :
    ∃ chain, Chain manager'.pages table.hf.firstPageId chain ∧
      bins manager'.pages chain = FirstFit.offerAll 8180 rowSize [⟨8180, []⟩]
        (encodedRows table.schema (offeredRows name log)) := by
  obtain ⟨s, holds, shelved⟩ := tableState initialised run
  have stands := holds.state.stands
  have loaded := holds.opened distinct opened
  obtain ⟨_, i, present, behind⟩ := loaded.place stands.catalogued
  have rows := (shelved distinct).rows name table i loaded present (behind own) columns
    (stands.untouched present owns)
  have stands' := (stands.opened opened).2
  have same : bins manager'.pages (s.chain i) = bins s.view (s.chain i) :=
    HeapState.bins_congr fun _ member => stands'.contents_eq member
  exact ⟨s.chain i, linked_of_holds stands'.holds present, same.trans rows⟩

theorem opened_holds [NeZero N] {start : TableManager N} (initialised : Initialised start)
    (run : DatabaseRun start log manager) (distinct : (createdIds log).Nodup)
    (own : name ∉ systemNames) (opened : (openTable name).Returns manager table manager')
    (columns : table.schema ≠ []) (owns : OwnHeap manager log table) :
    ∃ records, TableHolds manager' table records ∧
      records.map Prod.snd = FirstFit.contents (FirstFit.offerAll 8180 rowSize [⟨8180, []⟩]
        (encodedRows table.schema (offeredRows name log))) := by
  obtain ⟨chain, linked, rows⟩ := opened_bins initialised run distinct own opened columns owns
  refine ⟨_, ⟨chain, linked, rfl⟩, ?_⟩
  rw [← rows]
  exact (HeapState.contents_bins _ chain).symm

theorem unwrapped_of_ended [NeZero N] {op : Op N} (alone : op.parts = [op])
    {outcome : Except Error Answer} (ended : op.run manager = some (outcome, manager'))
    (lower : 0 ≤ nextAllocated manager'.catalog.world.bm) : Unwrapped manager op := by
  intro part member outcome' after endedPart
  rw [alone] at member
  rw [List.mem_singleton.mp member, ended, Option.some.injEq, Prod.mk.injEq] at endedPart
  rw [← endedPart.2]
  exact lower

theorem bounded_of_small {values : List Value}
    (small : (values.map fun value => value.field.length + 3).sum < 2 ^ 63) :
    ∀ schema bytes, DynamicCodec.encode values schema = some bytes → bytes.length < 2 ^ 63 :=
  fun _ _ encoded => Nat.lt_of_le_of_lt (DynamicCodec.encode_small encoded) small

/-- A run goes on with every `Insert` for which a page id is left. -/
theorem Stands.insert_step [NeZero N] (stands : Stands manager s names ids rids)
    {manager₁ : TableManager N} {values : List Value} {bytes : List UInt8}
    (own : name ∉ systemNames) (opened : (openTable name).Returns manager table manager₁)
    (encoded : DynamicCodec.encode values table.schema = some bytes)
    (bounded : ∀ schema bytes, DynamicCodec.encode values schema = some bytes →
      bytes.length < 2 ^ 63)
    (pageIdLeft : nextAllocated manager.catalog.world.bm + 1 < 2 ^ 31) (log : List (Event N)) :
    ∃ result manager', databaseStep log manager
      ⟨.insert name values, .ok (.placed result)⟩ manager' ∧
      nextAllocated manager'.catalog.world.bm ≤ nextAllocated manager.catalog.world.bm + 1 := by
  obtain ⟨cached, stands₁⟩ := stands.opened opened
  obtain ⟨i, present, _⟩ := cached.place
  have next : nextAllocated manager.catalog.world.bm = s.pages :=
    stands.holds.shows.steady.allocated.next
  have room : World.RoomFor s i table.hf bytes := by
    rw [World.RoomFor, if_neg cached.made]
    intro _
    omega
  obtain ⟨result, bm', s', inserted, effect, holds'⟩ :=
    stands₁.holds.heapInsert_returns present cached.made (bounded _ _ encoded) room
  have ended : (TableManager.insert name values).Returns manager result _ :=
    opened.bind (insertInto_returns name encoded inserted)
  have step : (Op.insert name values).run.Returns manager (.placed result) _ :=
    ended.bind (Program.pure_returns _ _)
  refine ⟨result, _, ⟨step, ⟨own, bounded⟩, unwrapped_of_ended rfl step holds'.shows.unwrapped⟩, ?_⟩
  have next' : nextAllocated bm' = s'.pages := holds'.shows.steady.allocated.next
  have grows := effect.pages_insert present cached.made
  change nextAllocated bm' ≤ _
  omega

/-- A run that has inserted some numbers into its first table. -/
structure NumbersIn (start manager : TableManager bufferPoolSize)
    (log : List (Event bufferPoolSize)) (table : UserTable)
    (manager' : TableManager bufferPoolSize) (numbers : List UInt32) : Prop where
  initialised : Initialised start
  run : DatabaseRun start log manager
  created : createdIds log = [generateUuid fun _ => 0]
  opened : (openTable (ascii "t")).Returns manager table manager'
  schema : table.schema = [⟨generateUuid fun _ => 0, ascii "c", intType, 1⟩]
  noHeaps : ∀ event ∈ log, ∀ op, event.op ≠ .heap op
  offered : offeredRows (ascii "t") log = numbers.map fun number => [.int number]
  few : nextAllocated manager.catalog.world.bm ≤ 30 + numbers.length

namespace NumbersIn

variable {start manager manager' : TableManager bufferPoolSize} {log : List (Event bufferPoolSize)}
  {numbers : List UInt32}

theorem distinct (rows : NumbersIn start manager log table manager' numbers) :
    (createdIds log).Nodup := by
  rw [rows.created]
  exact List.nodup_singleton _

theorem owns (rows : NumbersIn start manager log table manager' numbers) :
    OwnHeap manager log table :=
  fun event member op _ isHeap => absurd isHeap (rows.noHeaps event member op)

theorem columns (rows : NumbersIn start manager log table manager' numbers) :
    table.schema ≠ [] := by
  rw [rows.schema]
  exact List.cons_ne_nil _ _

theorem encoded (rows : NumbersIn start manager log table manager' numbers) :
    encodedRows table.schema (offeredRows (ascii "t") log) =
      encodedRows [⟨generateUuid fun _ => 0, ascii "c", intType, 1⟩]
        (numbers.map fun number => [.int number]) := by
  rw [rows.offered, rows.schema]

theorem decode (rows : NumbersIn start manager log table manager' numbers) (bytes : List UInt8) :
    table.decode bytes =
      (DynamicCodec.decode bytes [⟨generateUuid fun _ => 0, ascii "c", intType, 1⟩]).map
        fun values => ⟨values, table.schema⟩ := by
  rw [UserTable.decode, rows.schema]
  cases DynamicCodec.decode bytes [⟨generateUuid fun _ => 0, ascii "c", intType, 1⟩] <;> rfl

/-- The pages of the first table and the rows on them. -/
theorem scan (rows : NumbersIn start manager log table manager' numbers)
    {packed : List (FirstFit.Bin (List UInt8))}
    (fit : FirstFit.offerAll 8180 rowSize [⟨8180, []⟩]
      (encodedRows [⟨generateUuid fun _ => 0, ascii "c", intType, 1⟩]
        (numbers.map fun number => [.int number])) = packed) :
    ∃ chain, Chain manager'.pages table.hf.firstPageId chain ∧ chain.length = packed.length ∧
      (heapRecords manager'.pages chain).map Prod.snd = FirstFit.contents packed := by
  obtain ⟨chain, linked, same⟩ := opened_bins rows.initialised rows.run rows.distinct (by decide)
    rows.opened rows.columns rows.owns
  rw [rows.encoded, fit] at same
  refine ⟨chain, linked, ?_, ?_⟩
  · rw [← same, bins, List.length_map]
  · rw [← same]
    exact (HeapState.contents_bins _ chain).symm

/-- One more number. -/
theorem insert (rows : NumbersIn start manager log table manager' numbers)
    (short : numbers.length ≤ 1000) (number : UInt32) :
    ∃ manager₁ log' manager₂,
      NumbersIn start manager₁ log' table manager₂ (numbers ++ [number]) := by
  obtain ⟨s, holds⟩ := cacheState rows.initialised rows.run
  have few := rows.few
  have typed : DynamicCodec.Typed table.schema := by
    rw [rows.schema]
    intro column member
    rw [List.mem_singleton.mp member]
    exact Or.inl rfl
  have one : [Value.int number].length = table.schema.length := by
    rw [rows.schema]
    rfl
  obtain ⟨bytes, encoded, _⟩ := typed.encodes one
  have small : (([.int number] : List Value).map fun value => value.field.length + 3).sum <
      2 ^ 63 := by
    have four : (Value.int number).field.length = 4 := by
      simp [Value.field, writeValue, writeUInt32]
    simp [four]
  obtain ⟨result, manager₁, step, grows⟩ := holds.state.stands.insert_step (by decide) rows.opened
    encoded (bounded_of_small small) (by omega) log
  have run : DatabaseRun start ([_] ++ log) manager₁ := rows.run.cons step
  have loaded := holds.opened rows.distinct rows.opened
  obtain ⟨s₁, holds₁, loaded₁⟩ := holds.loaded_after rows.run run rows.distinct loaded
  have named := loaded₁
  obtain ⟨row, found, _⟩ := named
  obtain ⟨table', manager₂, _, opened, _⟩ := holds₁.state.stands.openTable_step found []
  have same : table' = table := (holds₁.opened rows.distinct opened).unique loaded₁
  rw [same] at opened
  refine ⟨manager₁, _, manager₂, rows.initialised, run, rows.created, opened, rows.schema, ?_, ?_,
    ?_⟩
  · intro event member op isHeap
    rcases List.mem_cons.mp member with rfl | member
    · cases isHeap
    · exact rows.noHeaps event member op isHeap
  · rw [List.singleton_append, offeredRows_insert, rows.offered, List.map_append]
    rfl
  · rw [List.length_append, List.length_singleton]
    push_cast
    omega

end NumbersIn

theorem numbersIn_exists (numbers : List UInt32) (short : numbers.length ≤ 1000) :
    ∃ start manager log table manager', NumbersIn start manager log table manager' numbers := by
  induction numbers using List.reverseRecOn with
  | nil =>
      obtain ⟨start, manager, table, manager₁, first⟩ := first_opened intType
      refine ⟨start, manager, [firstCall intType], table, manager₁, first.initialised, first.run,
        rfl, first.opened, first.schema, ?_, rfl, first.few⟩
      intro event member op isHeap
      rw [List.mem_singleton.mp member] at isHeap
      cases isHeap
  | append_singleton numbers number ih =>
      rw [List.length_append, List.length_singleton] at short
      obtain ⟨start, manager, log, table, manager', rows⟩ := ih (by omega)
      obtain ⟨manager₁, log', manager₂, rows'⟩ := rows.insert (by omega) number
      exact ⟨start, manager₁, log', table, manager₂, rows'⟩

/-- A table holds the rows that were inserted under its name and fit a page, where first fit has
put them, whatever was done to other tables and however often the file was opened again. -/
theorem tableRows_inserted [NeZero N] (start : TableManager N) (initialised : Initialised start)
    (log : List (Event N)) (manager : TableManager N) (run : DatabaseRun start log manager)
    (distinct : (createdIds log).Nodup) (name : List UInt8) (table : UserTable)
    (manager' : TableManager N) (own : name ∉ systemNames)
    (opened : (openTable name).Returns manager table manager') (columns : table.schema ≠ [])
    (owns : OwnHeap manager log table) :
    ∃ records, TableHolds manager' table records ∧
      records.map Prod.snd = FirstFit.contents (FirstFit.offerAll 8180 rowSize [⟨8180, []⟩]
        (encodedRows table.schema (offeredRows name log))) ∧
      (records.map Prod.snd).Perm
        ((encodedRows table.schema (offeredRows name log)).filter (·.length ≤ 8176)) := by
  obtain ⟨records, inPages, same⟩ := opened_holds initialised run distinct own opened columns owns
  refine ⟨records, inPages, same, ?_⟩
  rw [same]
  have whole := @FirstFit.contents_offerAll_perm _ 8180 rowSize [⟨8180, []⟩]
    (encodedRows table.schema (offeredRows name log))
  simp only [rowSize_le] at whole
  exact whole

/-- Three rows of one number. -/
theorem tableRows_inserted_three : ∃ (manager' : TableManager bufferPoolSize) (table : UserTable)
    (records : List (Rid × List UInt8)), TableHolds manager' table records ∧
      records.map Prod.snd = [[7, 0, 0, 0], [8, 0, 0, 0], [9, 0, 0, 0]] := by
  obtain ⟨start, manager, log, table, manager', rows⟩ := numbersIn_exists [7, 8, 9] (by decide)
  obtain ⟨records, inPages, placed, _⟩ := tableRows_inserted start rows.initialised log manager
    rows.run rows.distinct (ascii "t") table manager' (by decide) rows.opened rows.columns rows.owns
  refine ⟨manager', table, records, inPages, ?_⟩
  rw [placed, rows.encoded]
  rfl

/-- Rows of one size are scanned in the order in which they were inserted. -/
theorem tableRows_inOrder [NeZero N] (start : TableManager N) (initialised : Initialised start)
    (log : List (Event N)) (manager : TableManager N) (run : DatabaseRun start log manager)
    (distinct : (createdIds log).Nodup) (name : List UInt8) (table : UserTable)
    (manager' : TableManager N) (own : name ∉ systemNames)
    (opened : (openTable name).Returns manager table manager') (columns : table.schema ≠ [])
    (owns : OwnHeap manager log table) :
    ∃ records, TableHolds manager' table records ∧ ∀ size ≤ 8176,
      (records.map Prod.snd).filter (·.length = size) =
          (encodedRows table.schema (offeredRows name log)).filter (·.length = size) ∧
        ((∀ bytes ∈ encodedRows table.schema (offeredRows name log), bytes.length = size) →
          records.map Prod.snd = encodedRows table.schema (offeredRows name log)) := by
  obtain ⟨records, inPages, same⟩ := opened_holds initialised run distinct own opened columns owns
  refine ⟨records, inPages, fun size fits => ⟨?_, ?_⟩⟩
  · rw [same]
    have order := @FirstFit.filter_size_offerAll _ 8180 rowSize
      (encodedRows table.schema (offeredRows name log)) (size + 4) (by omega) 8180
    simp only [rowSize, Nat.add_right_cancel_iff] at order
    exact order
  · intro sized
    rw [same]
    exact FirstFit.contents_offerAll_sameSize (size + 4)
      (fun bytes member => congrArg (· + 4) (sized bytes member)) (by omega) 8180

theorem tableRows_inOrder_three : ∃ (manager' : TableManager bufferPoolSize) (table : UserTable)
    (records : List (Rid × List UInt8)), TableHolds manager' table records ∧
      records.map Prod.snd = [[7, 0, 0, 0], [8, 0, 0, 0], [9, 0, 0, 0]] := by
  obtain ⟨start, manager, log, table, manager', rows⟩ := numbersIn_exists [7, 8, 9] (by decide)
  obtain ⟨records, inPages, order⟩ := tableRows_inOrder start rows.initialised log manager
    rows.run rows.distinct (ascii "t") table manager' (by decide) rows.opened rows.columns rows.owns
  have bytes : encodedRows table.schema (offeredRows (ascii "t") log) =
      [[7, 0, 0, 0], [8, 0, 0, 0], [9, 0, 0, 0]] := by
    rw [rows.encoded]
    rfl
  refine ⟨manager', table, records, inPages, ?_⟩
  rw [← bytes]
  apply (order 4 (by decide)).2
  rw [bytes]
  decide

end TableManager

end RelationalDb
