import Mathlib.Data.List.Forall2
import RelationalDb.Model.DynamicCodec

set_option autoImplicit false

namespace RelationalDb

/-- The value is of the kind its column asks for. -/
inductive Fits : Value → ColumnInfo → Prop
  | int {value : UInt32} {column : ColumnInfo} (isInt : column.typeId = intType) :
      Fits (.int value) column
  | pageId {value : Int} {column : ColumnInfo} (isInt : column.typeId = intType) :
      Fits (.pageId value) column
  | text {value : List UInt8} {column : ColumnInfo} (isText : column.typeId = textType) :
      Fits (.text value) column

namespace Value

/-- A string whose length is a `uint32_t`. -/
def Short : Value → Prop
  | text value => value.length < 2 ^ 32
  | _ => True

/-- What `Decode` makes of a value that fits: integers are the same 32 bits. -/
def readBack : Value → Value
  | pageId value => int (UInt32.ofNat (value % 2 ^ 32).toNat)
  | value => value

def field (value : Value) : List UInt8 := writeValue [] value

end Value

theorem writeValue_eq (buffer : List UInt8) (value : Value) :
    writeValue buffer value = buffer ++ value.field := by
  cases value <;>
    simp [Value.field, writeValue, writeUInt32, writeString, writeUuid, writePageId]

section Padding

variable {column : ColumnInfo} {value : Value}

theorem Fits.alignment (fits : Fits value column) : getAlignment column.typeId = 4 := by
  cases fits with
  | int isInt => rw [isInt]; rfl
  | pageId isInt => rw [isInt]; rfl
  | text isText => rw [isText]; rfl

/-- Fewer than four bytes lead to a multiple of four. -/
theorem paddingNeeded_eq (aligned : getAlignment column.typeId = 4) (size : Nat) :
    ∃ padding, paddingNeeded size column.typeId = some padding ∧ padding < 4 ∧
      (size + padding) % 4 = 0 := by
  have nonzero : ¬ (4 : Nat) = 0 := by decide
  by_cases even : size % 4 = 0
  · exact ⟨0, by simp only [paddingNeeded, aligned, even, nonzero, ↓reduceIte], by omega, by omega⟩
  · exact ⟨4 - size % 4, by simp only [paddingNeeded, aligned, even, nonzero, ↓reduceIte], by omega,
      by omega⟩

end Padding

namespace DynamicCodec

variable {values first second : List Value} {schema front back : Schema}
  {buffer bytes after : List UInt8}

/-- What `Decode` pushes for a column, and the offset behind it. -/
def readColumn (bytes : List UInt8) (offset : Nat) (column : ColumnInfo) :
    Option (List Value × Nat) := do
  let offset ← skipPadding offset column.typeId
  if column.typeId = intType then
    (readUInt32 bytes offset).map fun read => ([.int read.1], read.2)
  else if column.typeId = textType then
    (readString bytes offset).map fun read => ([.text read.1], read.2)
  else some ([], offset)

/-- The loop of `Decode` with the offset it leaves behind. -/
def decodeLoop (bytes : List UInt8) (offset : Nat) : Schema → Option (List Value × Nat)
  | [] => some ([], offset)
  | column :: schema => do
      let (read, offset) ← readColumn bytes offset column
      let (values, offset) ← decodeLoop bytes offset schema
      return (read ++ values, offset)

theorem decodeFrom_eq (bytes : List UInt8) (offset : Nat) (schema : Schema) :
    decodeFrom bytes offset schema = (decodeLoop bytes offset schema).map Prod.fst := by
  induction schema generalizing offset with
  | nil => rfl
  | cons column schema ih =>
      rw [decodeFrom, decodeLoop, readColumn]
      cases skipPadding offset column.typeId with
      | none => rfl
      | some start =>
          simp only [Option.bind_eq_bind, Option.bind_some, ih]
          split
          · cases readUInt32 bytes start with
            | none => rfl
            | some read => cases found : decodeLoop bytes read.2 schema <;> simp [found]
          · split
            · cases readString bytes start with
              | none => rfl
              | some read => cases found : decodeLoop bytes read.2 schema <;> simp [found]
            · cases found : decodeLoop bytes start schema <;> simp [found]

theorem decode_eq (bytes : List UInt8) (schema : Schema) :
    decode bytes schema = (decodeLoop bytes 0 schema).map Prod.fst :=
  decodeFrom_eq bytes 0 schema

theorem encodeFrom_append (same : first.length = front.length) :
    encodeFrom buffer (first ++ second) (front ++ back) =
      (encodeFrom buffer first front).bind fun middle => encodeFrom middle second back := by
  induction first generalizing buffer front with
  | nil =>
      obtain rfl := List.eq_nil_of_length_eq_zero same.symm
      simp [encodeFrom]
  | cons value first ih =>
      cases front with
      | nil => cases same
      | cons column front =>
          rw [List.cons_append, List.cons_append, encodeFrom, encodeFrom]
          cases applyPadding buffer column.typeId with
          | none => rfl
          | some padded => exact ih (Nat.succ.inj same)

/-- One turn of `Encode`: pad bytes up to a multiple of four, then the field. -/
structure Turn (buffer : List UInt8) (value : Value) (column : ColumnInfo) (padding : Nat)
    (buffer' : List UInt8) : Prop where
  few : padding < 4
  aligned : (buffer.length + padding) % 4 = 0
  padded : applyPadding buffer column.typeId = some (buffer ++ List.replicate padding 0)
  written : buffer' = buffer ++ List.replicate padding 0 ++ value.field

variable {value : Value} {column : ColumnInfo}

theorem Turn.of_fits (fits : Fits value column) (buffer : List UInt8) :
    ∃ padding buffer', Turn buffer value column padding buffer' := by
  obtain ⟨padding, needed, few, aligned⟩ := paddingNeeded_eq fits.alignment buffer.length
  exact ⟨padding, _, few, aligned, by rw [applyPadding, needed, Option.map_some], rfl⟩

theorem Turn.encodeFrom {padding : Nat} {buffer' : List UInt8}
    (turn : Turn buffer value column padding buffer') (values : List Value) (schema : Schema) :
    encodeFrom buffer (value :: values) (column :: schema) =
      DynamicCodec.encodeFrom buffer' values schema := by
  rw [DynamicCodec.encodeFrom, turn.padded, Option.bind_eq_bind, Option.bind_some, writeValue_eq,
    turn.written]

/-- The turn of `Decode` at the same offset reads the field back and ends where it ends. -/
theorem Turn.readColumn {padding : Nat} {buffer' : List UInt8}
    (turn : Turn buffer value column padding buffer') (fits : Fits value column)
    (short : value.Short) (after : List UInt8) :
    readColumn (buffer' ++ after) buffer.length column =
      some ([value.readBack], buffer'.length) := by
  have skipped : skipPadding buffer.length column.typeId = some (buffer.length + padding) := by
    have padded := turn.padded
    rw [applyPadding, Option.map_eq_some_iff] at padded
    obtain ⟨needed, isSome, same⟩ := padded
    have length := congrArg List.length (List.append_cancel_left same)
    rw [List.length_replicate, List.length_replicate] at length
    rw [skipPadding, isSome, length, Option.map_some]
  have start : (buffer ++ List.replicate padding 0).length = buffer.length + padding := by
    rw [List.length_append, List.length_replicate]
  have whole : buffer' ++ after =
      (buffer ++ List.replicate padding 0) ++ (value.field ++ after) := by
    rw [turn.written, List.append_assoc]
  have stop : buffer'.length = buffer.length + padding + value.field.length := by
    rw [turn.written, List.length_append, start]
  rw [DynamicCodec.readColumn, skipped, Option.bind_eq_bind, Option.bind_some, whole, stop]
  cases fits with
  | @int number column isInt =>
      have found := reads_uint32 number (buffer ++ List.replicate padding 0) after
      rw [start] at found
      have field : (Value.int number).field = leBytes 4 number.toNat := by
        simp [Value.field, writeValue, writeUInt32]
      rw [if_pos isInt, field, found]
      rfl
  | @pageId number column isInt =>
      have found := reads_uint32 (UInt32.ofNat (number % 2 ^ 32).toNat)
        (buffer ++ List.replicate padding 0) after
      have small : (number % 2 ^ 32).toNat < 2 ^ 32 := by omega
      rw [start, UInt32.toNat_ofNat_of_lt' small] at found
      have field : (Value.pageId number).field = leBytes 4 (number % 2 ^ 32).toNat := by
        simp [Value.field, writeValue, writePageId, int32Bytes]
      rw [if_pos isInt, field, found]
      rfl
  | @text string column isText =>
      have found := reads_string short (buffer ++ List.replicate padding 0) after
      rw [start] at found
      have field : (Value.text string).field = leBytes 4 string.length ++ string := by
        simp only [Value.field, writeValue, writeString, writeUInt32, List.nil_append,
          UInt32.toNat_ofNat_of_lt' short]
      have other : ¬ column.typeId = intType := by
        rw [isText]
        decide
      rw [if_neg other, if_pos isText, field, found]
      rfl

/-- A row of values that fit their columns. -/
structure Row (values : List Value) (schema : Schema) : Prop where
  fits : List.Forall₂ Fits values schema
  short : ∀ value ∈ values, value.Short

theorem Row.tail {values : List Value} {schema : Schema}
    (row : Row (value :: values) (column :: schema)) :
    Fits value column ∧ value.Short ∧ Row values schema := by
  obtain ⟨fits, rest⟩ := List.forall₂_cons.mp row.fits
  exact ⟨fits, row.short value List.mem_cons_self, rest, fun other member =>
    row.short other (List.mem_cons_of_mem _ member)⟩

/-- `Decode` from the size a buffer had goes through the columns `Encode` added to it. -/
theorem Row.lockstep {values : List Value} {schema : Schema} (row : Row values schema)
    (buffer : List UInt8) :
    ∃ bytes, encodeFrom buffer values schema = some bytes ∧ buffer <+: bytes ∧
      ∀ after, decodeLoop (bytes ++ after) buffer.length schema =
        some (values.map Value.readBack, bytes.length) := by
  induction schema generalizing values buffer with
  | nil =>
      have none := List.forall₂_nil_right_iff.mp row.fits
      subst none
      exact ⟨buffer, rfl, List.prefix_refl buffer, fun _ => rfl⟩
  | cons column schema ih =>
      cases values with
      | nil => cases row.fits
      | cons value values =>
          obtain ⟨fits, short, rest⟩ := row.tail
          obtain ⟨padding, buffer', turn⟩ := Turn.of_fits fits buffer
          obtain ⟨bytes, encoded, begins, decoded⟩ := ih rest buffer'
          have grows : buffer <+: buffer' := by
            rw [turn.written, List.append_assoc]
            exact List.prefix_append _ _
          refine ⟨bytes, (turn.encodeFrom values schema).trans encoded, grows.trans begins, ?_⟩
          intro after
          obtain ⟨more, rfl⟩ := begins
          have read := turn.readColumn fits short (more ++ after)
          rw [← List.append_assoc] at read
          rw [decodeLoop, read, Option.bind_eq_bind, Option.bind_some]
          simp only [decoded after, Option.bind_some, List.map_cons]
          rfl

theorem Row.take {values : List Value} {schema : Schema} (row : Row values schema) (count : Nat) :
    Row (values.take count) (schema.take count) :=
  ⟨List.forall₂_take count row.fits, fun value member =>
    row.short value (List.mem_of_mem_take member)⟩

theorem Row.drop {values : List Value} {schema : Schema} (row : Row values schema) (count : Nat) :
    Row (values.drop count) (schema.drop count) :=
  ⟨List.forall₂_drop count row.fits, fun value member =>
    row.short value (List.mem_of_mem_drop member)⟩

/-- Both loops at a column: `Encode` has written `buffer` and `Decode` stands at its end; the
turn of the one leaves `buffer'` and that of the other reads the field up to its end. -/
structure InStep (values : List Value) (schema : Schema) (bytes : List UInt8) (i : Nat)
    (value : Value) (column : ColumnInfo) (buffer : List UInt8) (padding : Nat)
    (buffer' : List UInt8) : Prop where
  before : encodeFrom [] (values.take i) (schema.take i) = some buffer
  offset : decodeLoop bytes 0 (schema.take i) =
    some ((values.take i).map Value.readBack, buffer.length)
  turn : Turn buffer value column padding buffer'
  next : encodeFrom [] (values.take (i + 1)) (schema.take (i + 1)) = some buffer'
  read : readColumn bytes buffer.length column = some ([value.readBack], buffer'.length)
  inside : buffer'.length ≤ bytes.length

theorem Row.inStep {values : List Value} {schema : Schema} (row : Row values schema)
    {bytes : List UInt8} (encoded : encodeFrom [] values schema = some bytes) {i : Nat}
    (found : values[i]? = some value) (found' : schema[i]? = some column) :
    ∃ buffer padding buffer', InStep values schema bytes i value column buffer padding buffer' := by
  obtain ⟨inside, rfl⟩ := List.getElem?_eq_some_iff.mp found
  obtain ⟨inside', rfl⟩ := List.getElem?_eq_some_iff.mp found'
  have length := row.fits.length_eq
  have taken : ∀ count, (values.take count).length = (schema.take count).length := by
    intro count
    rw [List.length_take, List.length_take, length]
  have fits : Fits values[i] schema[i] := List.Forall₂.get row.fits inside inside'
  have short := row.short values[i] (List.getElem_mem inside)
  obtain ⟨buffer, before, _, decoded⟩ := (row.take i).lockstep []
  obtain ⟨padding, buffer', turn⟩ := Turn.of_fits fits buffer
  have next : encodeFrom [] (values.take (i + 1)) (schema.take (i + 1)) = some buffer' := by
    rw [List.take_succ_eq_append_getElem inside, List.take_succ_eq_append_getElem inside',
      encodeFrom_append (taken i), before, Option.bind_some]
    exact turn.encodeFrom [] []
  have begins : buffer' <+: bytes := by
    have whole := @encodeFrom_append (values.take (i + 1)) (values.drop (i + 1))
      (schema.take (i + 1)) (schema.drop (i + 1)) [] (taken (i + 1))
    obtain ⟨all, rest, begins, _⟩ := (row.drop (i + 1)).lockstep buffer'
    rw [List.take_append_drop, List.take_append_drop, encoded, next, Option.bind_some, rest] at whole
    rw [Option.some.inj whole]
    exact begins
  obtain ⟨after, rfl⟩ := begins
  refine ⟨buffer, padding, buffer', before, ?_, turn, next, turn.readColumn fits short after, ?_⟩
  · have split : buffer' ++ after =
        buffer ++ (List.replicate padding 0 ++ values[i].field ++ after) := by
      rw [turn.written]
      simp only [List.append_assoc]
    rw [split]
    exact decoded _
  · rw [List.length_append]
    exact Nat.le_add_right _ _

/-- A `uint32_t` for an `INT` column, a string shorter than 2^32 for a `TEXT` column. -/
inductive Holds : Value → ColumnInfo → Prop
  | int {value : UInt32} {column : ColumnInfo} (isInt : column.typeId = intType) :
      Holds (.int value) column
  | text {value : List UInt8} {column : ColumnInfo} (isText : column.typeId = textType)
      (short : value.length < 2 ^ 32) : Holds (.text value) column

theorem Holds.fits (holds : Holds value column) : Fits value column := by
  cases holds with
  | int isInt => exact .int isInt
  | text isText => exact .text isText

theorem Holds.short (holds : Holds value column) : value.Short := by
  cases holds with
  | int => trivial
  | text _ short => exact short

theorem Holds.readBack (holds : Holds value column) : value.readBack = value := by
  cases holds <;> rfl

theorem Row.of_holds {values : List Value} {schema : Schema}
    (holds : List.Forall₂ Holds values schema) :
    Row values schema ∧ values.map Value.readBack = values := by
  induction holds with
  | nil => exact ⟨⟨.nil, fun _ member => by cases member⟩, rfl⟩
  | cons here _ ih =>
      obtain ⟨row, same⟩ := ih
      refine ⟨⟨.cons here.fits row.fits, ?_⟩, ?_⟩
      · intro value member
        rcases List.mem_cons.mp member with own | later
        · rw [own]
          exact here.short
        · exact row.short value later
      · rw [List.map_cons, here.readBack, same]

/-- `Decode` gives back what `Encode` was given, column by column in step with it, with the
last read up to the end of the buffer. -/
theorem decode_encode_row (values : List Value) (schema : Schema)
    (holds : List.Forall₂ Holds values schema) :
    ∃ bytes, encode values schema = some bytes ∧ decode bytes schema = some values ∧
      decodeLoop bytes 0 schema = some (values, bytes.length) ∧
      ∀ i value column, values[i]? = some value → schema[i]? = some column →
        ∃ buffer padding buffer',
          InStep values schema bytes i value column buffer padding buffer' := by
  obtain ⟨row, same⟩ := Row.of_holds holds
  obtain ⟨bytes, encoded, _, decoded⟩ := row.lockstep []
  have all := decoded []
  rw [List.append_nil, same] at all
  refine ⟨bytes, ?_, ?_, all, fun i value column found found' => row.inStep encoded found found'⟩
  · rw [encode, if_pos holds.length_eq, encoded]
  · rw [decode_eq, show decodeLoop bytes 0 schema = some (values, bytes.length) from all,
      Option.map_some]

/-- A number, a string that ends between two multiples of four, and a number. -/
theorem decode_encode_padded : ∃ bytes,
    encode [.int 7, .text [1, 2, 3], .int 9]
        [⟨fun _ => 0, [], intType, 1⟩, ⟨fun _ => 0, [], textType, 2⟩,
          ⟨fun _ => 0, [], intType, 3⟩] = some bytes ∧
      decode bytes
        [⟨fun _ => 0, [], intType, 1⟩, ⟨fun _ => 0, [], textType, 2⟩,
          ⟨fun _ => 0, [], intType, 3⟩] = some [.int 7, .text [1, 2, 3], .int 9] := by
  obtain ⟨bytes, encoded, decoded, _⟩ := decode_encode_row
    [.int 7, .text [1, 2, 3], .int 9]
    [⟨fun _ => 0, [], intType, 1⟩, ⟨fun _ => 0, [], textType, 2⟩, ⟨fun _ => 0, [], intType, 3⟩]
    (.cons (.int rfl) (.cons (.text rfl (show 3 < 2 ^ 32 by decide)) (.cons (.int rfl) .nil)))
  exact ⟨bytes, encoded, decoded⟩

end DynamicCodec

end RelationalDb
