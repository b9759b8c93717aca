import RelationalDb.Access.HeapInsert
import RelationalDb.Model.ColumnOrder
import RelationalDb.Model.RowLayout

set_option autoImplicit false

namespace RelationalDb

namespace Value

theorem field_text (string : List UInt8) : (text string).field.length = 4 + string.length := by
  simp only [field, writeValue, writeString, writeUInt32, List.nil_append, List.length_append,
    leBytes_length]

theorem short_of_field {value : Value} (small : value.field.length < 2 ^ 32) : value.Short := by
  cases value with
  | int => trivial
  | uuid => trivial
  | pageId => trivial
  | text string =>
      rw [field_text] at small
      show string.length < 2 ^ 32
      omega

end Value

namespace DynamicCodec

variable {values : List Value} {schema : Schema} {buffer bytes : List UInt8}

/-- Columns that are all `INT` or `TEXT`. -/
def Typed (schema : Schema) : Prop :=
  ∀ column ∈ schema, column.typeId = intType ∨ column.typeId = textType

theorem Typed.alignment (typed : Typed schema) {column : ColumnInfo} (member : column ∈ schema) :
    getAlignment column.typeId = 4 := by
  rcases typed column member with isInt | isText
  · rw [isInt]
    rfl
  · rw [isText]
    rfl

theorem Typed.tail {column : ColumnInfo} (typed : Typed (column :: schema)) : Typed schema :=
  fun other member => typed other (List.mem_cons_of_mem _ member)

/-- `Encode` writes any values for such columns, whether they fit or not. -/
theorem Typed.encodesFrom (typed : Typed schema) (same : values.length = schema.length)
    (buffer : List UInt8) :
    ∃ bytes, encodeFrom buffer values schema = some bytes ∧ buffer.length ≤ bytes.length ∧
      ∀ value ∈ values, value.field.length ≤ bytes.length := by
  induction schema generalizing values buffer with
  | nil =>
      obtain rfl := List.eq_nil_of_length_eq_zero same
      exact ⟨buffer, rfl, Nat.le_refl _, nofun⟩
  | cons column schema ih =>
      cases values with
      | nil => cases same
      | cons value values =>
          obtain ⟨padding, needed, _⟩ :=
            paddingNeeded_eq (typed.alignment List.mem_cons_self) buffer.length
          have padded : applyPadding buffer column.typeId =
              some (buffer ++ List.replicate padding 0) := by
            rw [applyPadding, needed, Option.map_some]
          obtain ⟨bytes, encoded, longer, fields⟩ :=
            ih typed.tail (Nat.succ.inj same) (buffer ++ List.replicate padding 0 ++ value.field)
          have length : (buffer ++ List.replicate padding 0 ++ value.field).length =
              buffer.length + padding + value.field.length := by
            simp only [List.length_append, List.length_replicate]
          refine ⟨bytes, ?_, by omega, ?_⟩
          · rw [DynamicCodec.encodeFrom, padded, Option.bind_eq_bind, Option.bind_some,
              writeValue_eq, encoded]
          · intro other member
            rcases List.mem_cons.mp member with own | later
            · rw [own]
              omega
            · exact fields other later

theorem Typed.encodes (typed : Typed schema) (same : values.length = schema.length) :
    ∃ bytes, encode values schema = some bytes ∧
      ∀ value ∈ values, value.field.length ≤ bytes.length := by
  obtain ⟨bytes, encoded, _, fields⟩ := typed.encodesFrom same []
  exact ⟨bytes, by rw [DynamicCodec.encode, if_pos same, encoded], fields⟩

theorem length_of_encode (encoded : encode values schema = some bytes) :
    values.length = schema.length := by
  by_contra other
  rw [encode, if_neg other] at encoded
  cases encoded

theorem decode_of_fits (fits : List.Forall₂ Fits values schema)
    (encoded : encode values schema = some bytes) (typed : Typed schema)
    (small : bytes.length < 2 ^ 32) : decode bytes schema = some (values.map Value.readBack) := by
  obtain ⟨bytes', encoded', fields⟩ := typed.encodes fits.length_eq
  rw [encoded, Option.some.injEq] at encoded'
  subst encoded'
  have row : Row values schema := ⟨fits, fun value member =>
    Value.short_of_field (Nat.lt_of_le_of_lt (fields value member) small)⟩
  obtain ⟨bytes', encoded', _, decoded⟩ := row.lockstep []
  rw [DynamicCodec.encode, if_pos fits.length_eq, encoded', Option.some.injEq] at encoded
  subst encoded
  have all := decoded []
  rw [List.append_nil] at all
  rw [decode_eq, show decodeLoop bytes' 0 schema = some (_, bytes'.length) from all,
    Option.map_some]

end DynamicCodec

namespace TableManager

open HeapFile
open DynamicCodec (Typed)
open SlottedPage (slotSize pageHeaderSize)

variable {N : Nat} {manager manager' : TableManager N} {s s' : HeapState}
  {names : List (List UInt8)} {ids : List Uuid} {rids : List (Nat × Rid)} {name : List UInt8}
  {table : UserTable} {values : List Value} {bytes : List UInt8}

/-- The pages, as the pool and the disk have them. -/
def pages (manager : TableManager N) : Int → Option Page := manager.catalog.world.bm.contents

/-- The heap of the table has the pages it had, with the bytes they had. -/
def HeapKept (table : UserTable) (manager manager' : TableManager N) : Prop :=
  ∃ chain, Chain manager.pages table.hf.firstPageId chain ∧
    Chain manager'.pages table.hf.firstPageId chain ∧
    ∀ pageId ∈ chain, manager'.pages pageId = manager.pages pageId

/-- What an insertion of these bytes does to the heap of the table. -/
structure Placed (table : UserTable) (bytes : List UInt8) (manager : TableManager N)
    (result : Option Rid) (manager' : TableManager N) : Prop where
  small : result.isSome = true → bytes.length ≤ pageSize
  stored : ∀ rid, result = some rid →
    Gets manager'.catalog.world.bm rid (SlottedPage.visible bytes)
  longer : result = none → ∃ chain chain', Chain manager.pages table.hf.firstPageId chain ∧
    Chain manager'.pages table.hf.firstPageId chain' ∧ chain.length < chain'.length

/-- An insertion that was refused has made the chain longer. -/
theorem Placed.not_heapKept (placed : Placed table bytes manager none manager') :
    ¬ HeapKept table manager manager' := by
  intro kept
  obtain ⟨chain, before, after, _⟩ := kept
  obtain ⟨front, longer, before', after', less⟩ := placed.longer rfl
  rw [before'.unique before, after'.unique after] at less
  exact Nat.lt_irrefl _ less

theorem linked_of_holds (holds : manager.catalog.Holds s) {i : Nat}
    (present : s.heaps[i]? = some table.hf) :
    Chain manager.pages table.hf.firstPageId (s.chain i) := by
  apply chained_of_holds holds
  rw [← present, ← holds.shows.heaps]
  rfl

theorem placed_of_effect (holds : manager.catalog.Holds s) {i : Nat} {result : Option Rid}
    (present : s.heaps[i]? = some table.hf) (made : table.hf.firstPageId ≠ invalidPageId)
    (effect : HeapState.Effect (.insert i bytes) (.placed result) s s')
    (holds' : manager'.catalog.Holds s') : Placed table bytes manager result manager' := by
  have sound := holds.shows.sound
  have kept := effect.heaps_kept present made
  obtain ⟨_, fits⟩ := World.firstFit_of_effect sound present made effect
  refine ⟨?_, ?_, ?_⟩
  · intro isSome
    have small := (fits.isSome_iff fun pageId member page known => by
      obtain ⟨_, _, page', there, layout⟩ := sound.page member
      rw [known] at there
      cases there
      exact layout).mp isSome
    exact Nat.le_trans small (by decide)
  · intro rid same
    rw [same] at effect
    obtain ⟨⟨inChain, _⟩, stored, _⟩ := effect.placed_new sound
    rw [← stored]
    exact gets_of_holds holds' inChain
  · intro same
    rw [same] at effect
    exact ⟨s.chain i, s'.chain i, linked_of_holds holds present, linked_of_holds holds' kept,
      effect.longer_of_refused sound rfl⟩

theorem Stands.opened (stands : Stands manager s names ids rids)
    (opened : (openTable name).Returns manager table manager') :
    Cached s names name table ∧ Stands manager' s names ids rids := by
  rcases stands.openTable_cases name with ⟨_, _, after, thrown, _⟩ |
    ⟨table', after, returned, _, _, cached, stands'⟩
  · cases opened.symm.trans thrown
  · obtain ⟨rfl, rfl⟩ := returned.value_eq opened
    exact ⟨cached, stands'⟩

theorem Stands.insert_placed (stands : Stands manager s names ids rids) {manager₁ : TableManager N}
    (opened : (openTable name).Returns manager table manager₁)
    (encoded : DynamicCodec.encode values table.schema = some bytes)
    (bounded : bytes.length < 2 ^ 63)
    (pageIdLeft : nextAllocated manager.catalog.world.bm + 1 < 2 ^ 31) :
    ∃ result manager', (TableManager.insert name values).Returns manager result manager' ∧
      Placed table bytes manager result manager' := by
  obtain ⟨cached, stands₁⟩ := stands.opened opened
  obtain ⟨i, present, _⟩ := cached.place
  have next : nextAllocated manager.catalog.world.bm = s.pages :=
    stands.holds.shows.steady.allocated.next
  have room : World.RoomFor s i table.hf bytes := by
    rw [World.RoomFor, if_neg cached.made]
    intro _
    omega
  obtain ⟨result, bm', s', inserted, effect, holds'⟩ :=
    stands₁.holds.heapInsert_returns present cached.made bounded room
  exact ⟨result, _, opened.bind (insertInto_returns name encoded inserted),
    placed_of_effect stands.holds present cached.made effect holds'⟩

/-- `Insert` stores a record only for values that fit the columns, one for each, and the record
is read back as those values; it rejects anything else and leaves the heap as it was. -/
structure Enforced (manager : TableManager N) (name : List UInt8) (table : UserTable)
    (values : List Value) : Prop where
  stored : ∀ rid manager', (TableManager.insert name values).Returns manager (some rid) manager' →
    List.Forall₂ Fits values table.schema ∧
      ∃ bytes, Gets manager'.catalog.world.bm rid (SlottedPage.visible bytes) ∧
        table.decode bytes = some ⟨values.map Value.readBack, table.schema⟩
  rejected : ¬ List.Forall₂ Fits values table.schema → ∀ outcome manager',
    TableManager.insert name values manager = some (outcome, manager') →
      (∀ rid, outcome ≠ .ok (some rid)) ∧ HeapKept table manager manager'

/-- Nothing is checked: one value for each column is all that `Insert` asks for. -/
theorem Stands.not_enforced (stands : Stands manager s names ids rids) {manager₁ : TableManager N}
    (opened : (openTable name).Returns manager table manager₁) (typed : Typed table.schema)
    (bounded : ∀ bytes, DynamicCodec.encode values table.schema = some bytes →
      bytes.length < 2 ^ 63)
    (pageIdLeft : nextAllocated manager.catalog.world.bm + 1 < 2 ^ 31)
    (same : values.length = table.schema.length)
    (mismatch : ¬ List.Forall₂ Fits values table.schema) :
    ¬ Enforced manager name table values := by
  intro enforced
  obtain ⟨bytes, encoded, _⟩ := typed.encodes same
  obtain ⟨result, manager', inserted, placed⟩ :=
    stands.insert_placed opened encoded (bounded bytes encoded) pageIdLeft
  obtain ⟨refused, kept⟩ := enforced.rejected mismatch _ _ inserted
  cases result with
  | none => exact placed.not_heapKept kept
  | some rid => exact refused rid rfl

theorem insert_encoded {manager₁ : TableManager N}
    (opened : (openTable name).Returns manager table manager₁) {outcome : Except Error (Option Rid)}
    (ended : TableManager.insert name values manager = some (outcome, manager')) :
    ∃ bytes, DynamicCodec.encode values table.schema = some bytes := by
  unfold TableManager.insert at ended
  rw [opened.bind_eq] at ended
  obtain ⟨bytes, _, encoded, _⟩ := insertInto_inner ended
  exact ⟨bytes, encoded⟩

/-- A table of `INT` and `TEXT` columns enforces its schema exactly on lists of another length
and on values that fit. -/
theorem insert_enforces_iff [NeZero N] (start : TableManager N) (initialised : Initialised start)
    (log : List (Event N)) (manager : TableManager N) (run : DatabaseRun start log manager)
    (name : List UInt8) (table : UserTable) (manager₁ : TableManager N)
    (opened : (openTable name).Returns manager table manager₁) (typed : Typed table.schema)
    (values : List Value)
    (bounded : ∀ bytes, DynamicCodec.encode values table.schema = some bytes →
      bytes.length < 2 ^ 63)
    (pageIdLeft : nextAllocated manager.catalog.world.bm + 1 < 2 ^ 31) :
    Enforced manager name table values ↔
      (values.length = table.schema.length → List.Forall₂ Fits values table.schema) := by
  obtain ⟨s, holds⟩ := runState initialised run
  have stands := holds.stands
  constructor
  · intro enforced same
    by_contra mismatch
    exact stands.not_enforced opened typed bounded pageIdLeft same mismatch enforced
  · intro condition
    constructor
    · intro rid manager' returned
      obtain ⟨bytes, encoded⟩ := insert_encoded opened returned
      have fits := condition (DynamicCodec.length_of_encode encoded)
      obtain ⟨result, after, inserted, placed⟩ :=
        stands.insert_placed opened encoded (bounded bytes encoded) pageIdLeft
      obtain ⟨rfl, rfl⟩ := inserted.value_eq returned
      have small := placed.small rfl
      have size := SlottedPage.pageSize_eq
      have decoded := DynamicCodec.decode_of_fits fits encoded typed (by omega)
      refine ⟨fits, bytes, placed.stored rid rfl, ?_⟩
      rw [UserTable.decode, decoded]
      rfl
    · intro mismatch outcome manager' ended
      obtain ⟨bytes, encoded⟩ := insert_encoded opened ended
      exact absurd (condition (DynamicCodec.length_of_encode encoded)) mismatch

/-- The first call of a new database: a table with one column. -/
def firstCall (typeId : UInt32) : Event bufferPoolSize :=
  ⟨.createTable (fun _ => 0) (fun _ => 0) (ascii "t") [⟨ascii "c", typeId, 1⟩],
    .ok (.created (generateUuid fun _ => 0))⟩

/-- A new database with one table of one column, opened. -/
structure FirstOpened (typeId : UInt32) (start manager : TableManager bufferPoolSize)
    (table : UserTable) (manager₁ : TableManager bufferPoolSize) : Prop where
  initialised : Initialised start
  free : Finds start (ascii "t") none
  run : DatabaseRun start [firstCall typeId] manager
  opened : (openTable (ascii "t")).Returns manager table manager₁
  schema : table.schema = [⟨generateUuid fun _ => 0, ascii "c", typeId, 1⟩]
  few : nextAllocated manager.catalog.world.bm ≤ 30

theorem first_opened (typeId : UInt32) :
    ∃ start manager table manager₁, FirstOpened typeId start manager table manager₁ := by
  have columnsFit : ∀ column ∈ [(⟨ascii "c", typeId, 1⟩ : RawColumnInfo)],
      HeapState.ColumnFits column.colName :=
    @single_fits ⟨ascii "c", typeId, 1⟩ (show HeapState.ColumnFits (ascii "c") by decide)
  obtain ⟨start, manager, initialised, step, unused⟩ := @first_createTable bufferPoolSize _
    (ascii "t") _ (sized_of_fits (by decide) columnsFit) (show 1 ≤ 20 by decide)
  have free := unused (by decide)
  obtain ⟨s, holds⟩ := cacheState initialised .nil
  obtain ⟨_, s', created⟩ := holds.state.created step
  have noRow := created.before.finds_iff.mp free
  obtain ⟨table, manager₁, opened, schema⟩ := created.openTable_returns (by decide) noRow
    (createTable_notCached holds noRow step)
  have listed := created.columns_perm List.not_mem_nil
  have fits : HeapState.ColumnFits (ascii "c") := by decide
  simp only [List.map_cons, List.map_nil, Catalog.columnInfo, List.filter_cons, List.filter_nil,
    fits, decide_true, if_true, List.perm_singleton] at listed
  refine ⟨start, manager, table, manager₁, initialised, free, Run.nil.cons step, opened,
    schema.trans listed, ?_⟩
  obtain ⟨s₀, booted⟩ := initialised.booted
  have before : nextAllocated start.catalog.world.bm = s.pages :=
    created.before.holds.shows.steady.allocated.next
  have before₀ : nextAllocated start.catalog.world.bm = s₀.pages :=
    booted.state.stands.holds.shows.steady.allocated.next
  have after : nextAllocated manager.catalog.world.bm = s'.pages :=
    created.after.holds.shows.steady.allocated.next
  have grows := created.rows.pages_le created.before.holds.shows.sound created.before.catalogued
    (Catalog.columnInfo_own _ _)
  have few := booted.few
  simp only [List.length_map, List.length_cons, List.length_nil] at grows
  omega

theorem FirstOpened.pageIdLeft {typeId : UInt32}
    {start manager manager₁ : TableManager bufferPoolSize}
    (first : FirstOpened typeId start manager table manager₁) :
    nextAllocated manager.catalog.world.bm + 1 < 2 ^ 31 := by
  have few := first.few
  omega

theorem FirstOpened.typed {start manager manager₁ : TableManager bufferPoolSize}
    (first : FirstOpened intType start manager table manager₁) : Typed table.schema := by
  rw [first.schema]
  intro column member
  rw [List.mem_singleton.mp member]
  exact Or.inl rfl

/-- A string is stored in an `INT` column. -/
theorem insert_unenforced : ∃ (start manager manager₁ : TableManager bufferPoolSize)
    (log : List (Event bufferPoolSize)) (table : UserTable), Initialised start ∧
      DatabaseRun start log manager ∧ (openTable (ascii "t")).Returns manager table manager₁ ∧
      Typed table.schema ∧ ¬ Enforced manager (ascii "t") table [.text (ascii "x")] := by
  obtain ⟨start, manager, table, manager₁, first⟩ := first_opened intType
  obtain ⟨s, holds⟩ := runState first.initialised first.run
  refine ⟨start, manager, manager₁, _, table, first.initialised, first.run, first.opened,
    first.typed, ?_⟩
  apply holds.stands.not_enforced first.opened first.typed _ first.pageIdLeft
  · rw [first.schema]
    rfl
  · rw [first.schema, List.forall₂_cons]
    intro fits
    cases fits.1 with
    | text isText => cases isText
  · intro bytes encoded
    rw [first.schema] at encoded
    cases encoded
    decide

/-- The number 7 in an `INT` column. -/
theorem insert_enforces_seven : ∃ (manager : TableManager bufferPoolSize) (table : UserTable),
    table.schema.map (·.typeId) = [intType] ∧ Enforced manager (ascii "t") table [.int 7] := by
  obtain ⟨start, manager, table, manager₁, first⟩ := first_opened intType
  refine ⟨manager, table, by rw [first.schema]; rfl, ?_⟩
  apply (insert_enforces_iff start first.initialised _ manager first.run (ascii "t") table manager₁
    first.opened first.typed [.int 7] _ first.pageIdLeft).mpr
  · intro _
    rw [first.schema]
    exact .cons (.int rfl) .nil
  · intro bytes encoded
    rw [first.schema] at encoded
    cases encoded
    decide

end TableManager

end RelationalDb
