import RelationalDb.Model.SchemaEnforcement

set_option autoImplicit false

namespace RelationalDb

namespace DynamicCodec

variable {values : List Value} {schema : Schema} {buffer bytes : List UInt8} {offset : Nat}
  {column : ColumnInfo}

/-- What `applyPadding` divides by, as far as `Encode` comes. -/
def encodeDivisors (buffer : List UInt8) : List Value → Schema → List Nat
  | value :: values, column :: schema =>
      getAlignment column.typeId ::
        match applyPadding buffer column.typeId with
        | none => []
        | some padded => encodeDivisors (writeValue padded value) values schema
  | _, _ => []

/-- What `skipPadding` divides by, as far as `Decode` comes. -/
def decodeDivisors (bytes : List UInt8) (offset : Nat) : Schema → List Nat
  | [] => []
  | column :: schema =>
      getAlignment column.typeId ::
        match readColumn bytes offset column with
        | none => []
        | some (_, offset) => decodeDivisors bytes offset schema

theorem alignment_eq_zero_iff (typeId : UInt32) :
    getAlignment typeId = 0 ↔ ¬ (typeId = intType ∨ typeId = textType) := by
  unfold getAlignment
  split
  · rename_i isInt
    exact iff_of_false (by decide) (fun other => other (Or.inl isInt))
  · rename_i notInt
    split
    · rename_i isText
      exact iff_of_false (by decide) (fun other => other (Or.inr isText))
    · rename_i notText
      exact iff_of_true rfl (not_or.mpr ⟨notInt, notText⟩)

theorem typed_iff : Typed schema ↔ ∀ column ∈ schema, getAlignment column.typeId ≠ 0 := by
  constructor
  · intro typed column member zero
    exact (alignment_eq_zero_iff _).mp zero (typed column member)
  · intro nonzero column member
    by_contra other
    exact nonzero column member ((alignment_eq_zero_iff _).mpr other)

theorem mem_encodeDivisors {divisor : Nat}
    (member : divisor ∈ encodeDivisors buffer values schema) :
    ∃ column ∈ schema, getAlignment column.typeId = divisor := by
  induction values generalizing buffer schema with
  | nil => cases member
  | cons value values ih =>
      cases schema with
      | nil => cases member
      | cons column schema =>
          rw [encodeDivisors] at member
          rcases List.mem_cons.mp member with own | later
          · exact ⟨column, List.mem_cons_self, own.symm⟩
          · cases padded : applyPadding buffer column.typeId with
            | none =>
                rw [padded] at later
                cases later
            | some buffer' =>
                rw [padded] at later
                obtain ⟨other, among, same⟩ := ih later
                exact ⟨other, List.mem_cons_of_mem _ among, same⟩

theorem mem_decodeDivisors {divisor : Nat} (member : divisor ∈ decodeDivisors bytes offset schema) :
    ∃ column ∈ schema, getAlignment column.typeId = divisor := by
  induction schema generalizing offset with
  | nil => cases member
  | cons column schema ih =>
      rw [decodeDivisors] at member
      rcases List.mem_cons.mp member with own | later
      · exact ⟨column, List.mem_cons_self, own.symm⟩
      · cases read : readColumn bytes offset column with
        | none =>
            rw [read] at later
            cases later
        | some found =>
            rw [read] at later
            obtain ⟨other, among, same⟩ := ih later
            exact ⟨other, List.mem_cons_of_mem _ among, same⟩

theorem applyPadding_eq_none_iff :
    applyPadding buffer column.typeId = none ↔ getAlignment column.typeId = 0 := by
  rw [applyPadding, Option.map_eq_none_iff, paddingNeeded]
  split
  · exact iff_of_true rfl ‹_›
  · split <;> exact iff_of_false (Option.some_ne_none _) ‹_›

/-- A column of another type is divided by: every row has it. -/
theorem zero_mem_encodeDivisors (member : column ∈ schema) (zero : getAlignment column.typeId = 0)
    (same : values.length = schema.length) : 0 ∈ encodeDivisors buffer values schema := by
  induction schema generalizing values buffer with
  | nil => cases member
  | cons first schema ih =>
      cases values with
      | nil => cases same
      | cons value values =>
          rw [encodeDivisors]
          cases padded : applyPadding buffer first.typeId with
          | none =>
              rw [applyPadding_eq_none_iff.mp padded]
              exact List.mem_cons_self
          | some buffer' =>
              rcases List.mem_cons.mp member with own | later
              · rw [own, ← @applyPadding_eq_none_iff buffer, padded] at zero
                cases zero
              · exact List.mem_cons_of_mem _ (ih later (Nat.succ.inj same))

theorem readColumn_length (typed : column.typeId = intType ∨ column.typeId = textType)
    {read : List Value} {next : Nat} (found : readColumn bytes offset column = some (read, next)) :
    read.length = 1 := by
  rw [readColumn, Option.bind_eq_bind, Option.bind_eq_some_iff] at found
  obtain ⟨start, _, found⟩ := found
  split at found
  · obtain ⟨_, _, same⟩ := Option.map_eq_some_iff.mp found
    rw [← (Prod.mk.inj same).1, List.length_singleton]
  · split at found
    · obtain ⟨_, _, same⟩ := Option.map_eq_some_iff.mp found
      rw [← (Prod.mk.inj same).1, List.length_singleton]
    · rename_i notInt notText
      exact absurd typed (not_or.mpr ⟨notInt, notText⟩)

theorem Typed.decodeLoop_length (typed : Typed schema) {read : List Value} {next : Nat}
    (found : decodeLoop bytes offset schema = some (read, next)) : read.length = schema.length := by
  induction schema generalizing offset read with
  | nil =>
      cases found
      rfl
  | cons column schema ih =>
      rw [decodeLoop, Option.bind_eq_bind, Option.bind_eq_some_iff] at found
      obtain ⟨⟨first, middle⟩, readFirst, found⟩ := found
      obtain ⟨⟨rest, last⟩, readRest, same⟩ := Option.bind_eq_some_iff.mp found
      cases same
      rw [List.length_append, readColumn_length (typed column List.mem_cons_self) readFirst,
        ih typed.tail readRest, List.length_cons, Nat.add_comm]

theorem Typed.decode_length (typed : Typed schema) {read : List Value}
    (found : decode bytes schema = some read) : read.length = schema.length := by
  rw [decode_eq, Option.map_eq_some_iff] at found
  obtain ⟨⟨_, next⟩, looped, rfl⟩ := found
  exact typed.decodeLoop_length looped

theorem skipPadding_aligned (typed : column.typeId = intType ∨ column.typeId = textType)
    (aligned : offset % 4 = 0) : skipPadding offset column.typeId = some offset := by
  have four : getAlignment column.typeId = 4 :=
    (show Typed [column] by simpa [Typed] using typed).alignment List.mem_cons_self
  obtain ⟨padding, needed, few, multiple⟩ := paddingNeeded_eq four offset
  have none : padding = 0 := by omega
  rw [skipPadding, needed, Option.map_some, none, Nat.add_zero]

theorem four_le_field (value : Value) : 4 ≤ value.field.length := by
  cases value with
  | int => simp [Value.field, writeValue, writeUInt32]
  | text string => simp [Value.field_text]
  | uuid value => simp [Value.field, writeValue, writeUuid, Region.read_length]
  | pageId value => simp [Value.field, writeValue, writePageId, int32Bytes]

theorem encodeFrom_length (same : values.length = schema.length)
    (encoded : encodeFrom buffer values schema = some bytes) :
    buffer.length + 4 * schema.length ≤ bytes.length := by
  induction schema generalizing values buffer with
  | nil =>
      obtain rfl := List.eq_nil_of_length_eq_zero same
      cases encoded
      exact Nat.le_refl _
  | cons column schema ih =>
      cases values with
      | nil => cases same
      | cons value values =>
          rw [encodeFrom, Option.bind_eq_bind, Option.bind_eq_some_iff] at encoded
          obtain ⟨padded, isPadded, encoded⟩ := encoded
          obtain ⟨padding, _, rfl⟩ := Option.map_eq_some_iff.mp isPadded
          have further := ih (Nat.succ.inj same) encoded
          have field := four_le_field value
          rw [writeValue_eq] at further
          simp only [List.length_append, List.length_replicate] at further
          rw [List.length_cons]
          omega

theorem decodeLoop_ints (ints : ∀ column ∈ schema, column.typeId = intType)
    (aligned : offset % 4 = 0) (inside : offset + 4 * schema.length ≤ bytes.length) :
    ∃ read next, decodeLoop bytes offset schema = some (read, next) := by
  induction schema generalizing offset with
  | nil => exact ⟨[], offset, rfl⟩
  | cons column schema ih =>
      have isInt := ints column List.mem_cons_self
      rw [List.length_cons] at inside
      obtain ⟨read, next, found⟩ := @ih (offset + 4)
        (fun other member => ints other (List.mem_cons_of_mem _ member)) (by omega) (by omega)
      have fits : offset + 4 ≤ bytes.length := by omega
      have here : ∃ value, readColumn bytes offset column = some ([.int value], offset + 4) := by
        rw [readColumn, skipPadding_aligned (Or.inl isInt) aligned, Option.bind_eq_bind,
          Option.bind_some, if_pos isInt, readUInt32, readFixed, readBytes, if_pos fits]
        exact ⟨_, rfl⟩
      obtain ⟨value, here⟩ := here
      refine ⟨[.int value] ++ read, next, ?_⟩
      rw [decodeLoop, here, Option.bind_eq_bind, Option.bind_some]
      simp only [found, Option.bind_some]
      rfl

theorem encodeFrom_large (typed : Typed schema) (aligned : buffer.length % 4 = 0) :
    encodeFrom buffer (List.replicate schema.length (.int 0xFFFFFFFF)) schema =
      some (buffer ++ List.replicate (4 * schema.length) 255) := by
  induction schema generalizing buffer with
  | nil => simp [encodeFrom]
  | cons column schema ih =>
      obtain ⟨padding, needed, few, multiple⟩ :=
        paddingNeeded_eq (typed.alignment List.mem_cons_self) buffer.length
      have none : padding = 0 := by omega
      have field : (Value.int 0xFFFFFFFF).field = List.replicate 4 255 := by decide
      have length : (buffer ++ List.replicate 4 (255 : UInt8)).length % 4 = 0 := by
        rw [List.length_append, List.length_replicate]
        omega
      rw [List.length_cons, List.replicate_succ, encodeFrom, applyPadding, needed, none,
        Option.map_some, Option.bind_eq_bind, Option.bind_some, List.replicate_zero,
        List.append_nil, writeValue_eq, field, ih typed.tail length, List.append_assoc,
        List.replicate_append_replicate, Nat.mul_add, Nat.add_comm 4]

theorem readString_large {size : Nat} (small : size < 2 ^ 32 - 1) :
    readString (List.replicate size 255) offset = none := by
  by_cases fits : offset + 4 ≤ size
  · have bytes : ((List.replicate size (255 : UInt8)).drop offset).take 4 =
        List.replicate 4 255 := by
      rw [List.drop_replicate, List.take_replicate, Nat.min_eq_left (by omega)]
    have largest : UInt32.ofNat (leNat (List.replicate 4 255)) = 0xFFFFFFFF := by decide
    have length : readUInt32 (List.replicate size 255) offset = some (0xFFFFFFFF, offset + 4) := by
      rw [readUInt32, readFixed, readBytes, List.length_replicate, if_pos fits, bytes,
        Option.map_some, largest]
    have beyond : ¬ offset + 4 + (0xFFFFFFFF : UInt32).toNat ≤ size := by
      have largest : (0xFFFFFFFF : UInt32).toNat = 2 ^ 32 - 1 := by decide
      omega
    rw [readString, length, Option.bind_eq_bind, Option.bind_some]
    simp only [readBytes, List.length_replicate, if_neg beyond]
  · rw [readString, readUInt32, readFixed, readBytes, List.length_replicate, if_neg fits]
    rfl

theorem decodeLoop_large (typed : Typed schema) (member : column ∈ schema)
    (isText : column.typeId = textType) (aligned : offset % 4 = 0) {size : Nat}
    (small : size < 2 ^ 32 - 1) : decodeLoop (List.replicate size 255) offset schema = none := by
  induction schema generalizing offset with
  | nil => cases member
  | cons first schema ih =>
      have kind := typed first List.mem_cons_self
      rw [decodeLoop, readColumn, skipPadding_aligned kind aligned, Option.bind_eq_bind,
        Option.bind_eq_bind, Option.bind_some]
      by_cases isInt : first.typeId = intType
      · rw [if_pos isInt]
        have later : column ∈ schema := by
          rcases List.mem_cons.mp member with own | later
          · rw [← own, isText] at isInt
            exact absurd isInt (by decide)
          · exact later
        have rest := @ih (offset + 4) typed.tail later (by omega)
        rw [readUInt32, readFixed, readBytes]
        split
        · simp only [Option.map_some, Option.bind_some, rest, Option.bind_none]
        · rfl
      · have isString : first.typeId = textType := kind.resolve_left isInt
        rw [if_neg isInt, if_pos isString, readString_large small]
        rfl

/-- A row that a page has room for. -/
def Storable (bytes : List UInt8) : Prop :=
  bytes.length ≤ pageSize - HeapFile.headerSize - SlottedPage.pageHeaderSize - SlottedPage.slotSize

/-- No insertion and no scan divides by zero; a scan gives one value for each column, and a row
whose values fit their columns is always given back. -/
structure NeverZero (schema : Schema) : Prop where
  inserts : ∀ values, values.length = schema.length → 0 ∉ encodeDivisors [] values schema
  scans : ∀ bytes, 0 ∉ decodeDivisors bytes 0 schema
  counts : ∀ bytes read, decode bytes schema = some read → read.length = schema.length
  fitting : ∀ values bytes, List.Forall₂ Fits values schema → encode values schema = some bytes →
    Storable bytes → ∃ read, decode bytes schema = some read

/-- Every row that can be stored is given back, whatever its values are. -/
def AlwaysReads (schema : Schema) : Prop :=
  ∀ values bytes, encode values schema = some bytes → Storable bytes →
    ∃ read, decode bytes schema = some read

/-- A schema of so many columns that no row of it fits a page. -/
def Unstorable (schema : Schema) : Prop :=
  pageSize - HeapFile.headerSize - SlottedPage.pageHeaderSize - SlottedPage.slotSize <
    4 * schema.length

theorem neverZero_iff : NeverZero schema ↔ Typed schema := by
  constructor
  · intro never
    refine typed_iff.mpr fun column member zero => ?_
    have values := never.inserts (List.replicate schema.length (.int 0)) List.length_replicate
    exact values (zero_mem_encodeDivisors member zero List.length_replicate)
  · intro typed
    have nonzero := typed_iff.mp typed
    refine ⟨?_, ?_, fun _ _ => typed.decode_length, ?_⟩
    · intro values _ member
      obtain ⟨column, among, zero⟩ := mem_encodeDivisors member
      exact nonzero column among zero
    · intro bytes member
      obtain ⟨column, among, zero⟩ := mem_decodeDivisors member
      exact nonzero column among zero
    · intro values bytes fits encoded storable
      have small : bytes.length < 2 ^ 32 := Nat.lt_of_le_of_lt storable (by decide)
      exact ⟨_, decode_of_fits fits encoded typed small⟩

/-- Rows of numbers only are always given back; a number in a `TEXT` column may be larger than
the rest of the row. -/
theorem Typed.alwaysReads_iff (typed : Typed schema) :
    AlwaysReads schema ↔ (∀ column ∈ schema, column.typeId = intType) ∨ Unstorable schema := by
  constructor
  · intro reads
    by_contra neither
    obtain ⟨other, storable⟩ := not_or.mp neither
    obtain ⟨column, member, notInt⟩ : ∃ column ∈ schema, column.typeId ≠ intType := by
      by_contra none
      exact other fun column member => by_contra fun notInt => none ⟨column, member, notInt⟩
    have isText := (typed column member).resolve_left notInt
    have whole := @encodeFrom_large schema [] typed rfl
    have encoded : encode (List.replicate schema.length (.int 0xFFFFFFFF)) schema =
        some (List.replicate (4 * schema.length) 255) := by
      rw [encode, if_pos List.length_replicate, whole, List.nil_append]
    have small : 4 * schema.length ≤
        pageSize - HeapFile.headerSize - SlottedPage.pageHeaderSize - SlottedPage.slotSize :=
      Nat.le_of_not_lt storable
    obtain ⟨read, found⟩ := reads _ _ encoded (by rwa [Storable, List.length_replicate])
    rw [decode_eq, decodeLoop_large typed member isText (by decide)
      (Nat.lt_of_le_of_lt small (by decide))] at found
    cases found
  · intro condition values bytes encoded storable
    have same := length_of_encode encoded
    rw [encode, if_pos same] at encoded
    have long := encodeFrom_length same encoded
    rw [List.length_nil, Nat.zero_add] at long
    rcases condition with ints | many
    · obtain ⟨read, next, found⟩ := @decodeLoop_ints schema bytes 0 ints rfl (by omega)
      exact ⟨read, by rw [decode_eq, found, Option.map_some]⟩
    · exact absurd (Nat.le_trans long storable) (Nat.not_le_of_lt many)

end DynamicCodec

namespace TableManager

open DynamicCodec (NeverZero AlwaysReads Typed)

variable {N : Nat}

theorem forall_schema_iff {schema : Schema} {tableId : Uuid} {columns : List RawColumnInfo}
    (listed : schema.Perm (listedColumns tableId columns)) (holds : UInt32 → Prop) :
    (∀ column ∈ schema, holds column.typeId) ↔
      ∀ column ∈ columns, HeapState.ColumnFits column.colName → holds column.typeId := by
  constructor
  · intro all column member fits
    refine all (Catalog.columnInfo tableId column) (listed.mem_iff.mpr ?_)
    exact List.mem_filter.mpr ⟨List.mem_map_of_mem member, decide_eq_true fits⟩
  · intro all column member
    obtain ⟨among, fits⟩ := List.mem_filter.mp (listed.mem_iff.mp member)
    obtain ⟨raw, inColumns, rfl⟩ := List.mem_map.mp among
    exact all raw inColumns (decide_eq_true_iff.mp fits)

/-- Padding of a table that was created never divides by zero exactly if its columns are all
`INT` or `TEXT`; every row of it is given back exactly if they are all `INT`, or too many for
a page. -/
theorem padding_neverZero_iff [NeZero N] (start : TableManager N) (initialised : Initialised start)
    (log : List (Event N)) (manager : TableManager N) (run : DatabaseRun start log manager)
    (tableRandom fileRandom : Uuid) (name : List UInt8) (columns : List RawColumnInfo)
    (free : Finds manager name none) (fits : HeapState.TableFits name)
    (outcome : Except Error Answer) (later : List (Event N)) (manager₁ manager₂ : TableManager N)
    (run₁ : DatabaseRun start
      (later ++ ⟨.createTable tableRandom fileRandom name columns, outcome⟩ :: log) manager₁)
    (distinct : (createdIds
      (later ++ ⟨.createTable tableRandom fileRandom name columns, outcome⟩ :: log)).Nodup)
    (table : UserTable) (opened : (openTable name).Returns manager₁ table manager₂) :
    (NeverZero table.schema ↔ ∀ column ∈ columns, HeapState.ColumnFits column.colName →
      column.typeId = intType ∨ column.typeId = textType) ∧
    (NeverZero table.schema ∧ AlwaysReads table.schema ↔
      (∀ column ∈ columns, HeapState.ColumnFits column.colName →
        column.typeId = intType ∨ column.typeId = textType) ∧
      ((∀ column ∈ columns, HeapState.ColumnFits column.colName → column.typeId = intType) ∨
        DynamicCodec.Unstorable (listedColumns (generateUuid tableRandom) columns))) := by
  have listed := opened_schema initialised run free fits run₁ distinct opened
  have typed : NeverZero table.schema ↔ _ :=
    DynamicCodec.neverZero_iff.trans
      (forall_schema_iff listed fun typeId => typeId = intType ∨ typeId = textType)
  refine ⟨typed, ?_⟩
  rw [DynamicCodec.Unstorable, ← listed.length_eq]
  constructor
  · intro both
    have reads := (DynamicCodec.neverZero_iff.mp both.1).alwaysReads_iff.mp both.2
    exact ⟨typed.mp both.1, reads.imp_left (forall_schema_iff listed (· = intType)).mp⟩
  · intro condition
    have never := typed.mpr condition.1
    have reads := condition.2.imp_left (forall_schema_iff listed (· = intType)).mpr
    exact ⟨never, (DynamicCodec.neverZero_iff.mp never).alwaysReads_iff.mpr reads⟩

/-- A column of type 3, which `CreateTable` accepts. -/
theorem padding_divides_by_zero : ∃ (start manager : TableManager bufferPoolSize)
    (table : UserTable) (manager₁ : TableManager bufferPoolSize),
    FirstOpened 3 start manager table manager₁ ∧
      0 ∈ DynamicCodec.encodeDivisors [] [.int 7] table.schema ∧ ¬ NeverZero table.schema := by
  obtain ⟨start, manager, table, manager₁, first⟩ := first_opened 3
  have divides : 0 ∈ DynamicCodec.encodeDivisors [] [.int 7] table.schema := by
    rw [first.schema]
    decide
  refine ⟨start, manager, table, manager₁, first, divides, fun never => ?_⟩
  exact never.inserts [.int 7] (by rw [first.schema]; rfl) divides

theorem padding_neverZero_int : ∃ (start manager : TableManager bufferPoolSize)
    (table : UserTable) (manager₁ : TableManager bufferPoolSize),
    FirstOpened intType start manager table manager₁ ∧ NeverZero table.schema ∧
      AlwaysReads table.schema := by
  obtain ⟨start, manager, table, manager₁, first⟩ := first_opened intType
  have single : ∀ column ∈ [(⟨ascii "c", intType, 1⟩ : RawColumnInfo)],
      HeapState.ColumnFits column.colName → column.typeId = intType := by
    intro column member _
    rw [List.mem_singleton.mp member]
  refine ⟨start, manager, table, manager₁, first, ?_⟩
  apply (padding_neverZero_iff start first.initialised [] start .nil (fun _ => 0) (fun _ => 0)
    (ascii "t") _ first.free (by decide) _ [] manager manager₁ first.run (List.nodup_singleton _)
    table first.opened).2.mpr
  exact ⟨fun column member fits => Or.inl (single column member fits), Or.inl single⟩

end TableManager

end RelationalDb
