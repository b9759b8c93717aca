import RelationalDb.Catalog.CatalogBootstrap
import RelationalDb.Util.Data

set_option autoImplicit false

namespace RelationalDb

namespace TableInfoCodec

def encode (row : TableInfo) : List UInt8 :=
  let buf := writePageId [] row.firstPageId
  let buf := writeUuid buf row.heapFileId
  let buf := writeUuid buf row.tableId
  writeString buf row.tableName

def decode (bytes : List UInt8) : Option TableInfo := do
  let (firstPageId, off) ← readPageId bytes 0
  let (heapFileId, off) ← readUuid bytes off
  let (tableId, off) ← readUuid bytes off
  let (tableName, _) ← readString bytes off
  return { tableId, tableName, heapFileId, firstPageId }

/-- `Decode` with the offset behind its last read. -/
def decodeTo (bytes : List UInt8) : Option (TableInfo × Nat) := do
  let (firstPageId, off) ← readPageId bytes 0
  let (heapFileId, off) ← readUuid bytes off
  let (tableId, off) ← readUuid bytes off
  let (tableName, off) ← readString bytes off
  return ({ tableId, tableName, heapFileId, firstPageId }, off)

theorem decode_eq (bytes : List UInt8) : decode bytes = (decodeTo bytes).map Prod.fst := by
  simp [decode, decodeTo, Option.map_bind]

def toValues (row : TableInfo) : List Value :=
  [.uuid row.tableId, .text row.tableName, .uuid row.heapFileId, .pageId row.firstPageId]

def getSchema : Schema := tablesCatalogSchema

theorem encode_length (row : TableInfo) : (encode row).length = 40 + row.tableName.length := by
  simp only [encode, writePageId, writeUuid, writeString, writeUInt32, List.length_append,
    List.length_nil, int32Bytes_length, Region.read_length, leBytes_length]

theorem encode_ne_nil (row : TableInfo) : encode row ≠ [] := by
  apply List.ne_nil_of_length_pos
  rw [encode_length]
  omega

theorem decodeTo_encode {row : TableInfo} (lower : -2 ^ 31 ≤ row.firstPageId)
    (upper : row.firstPageId < 2 ^ 31) (short : row.tableName.length < 2 ^ 32)
    (after : List UInt8) : decodeTo (encode row ++ after) = some (row, (encode row).length) := by
  have length := encode_length row
  have whole : encode row ++ after = int32Bytes row.firstPageId ++ (row.heapFileId.read 0 16 ++
      (row.tableId.read 0 16 ++ ((leBytes 4 row.tableName.length ++ row.tableName) ++ after))) := by
    simp only [encode, writePageId, writeUuid, writeString, writeUInt32,
      UInt32.toNat_ofNat_of_lt' short, List.nil_append, List.append_assoc]
  have left := Left.start (encode row ++ after)
  rw [whole] at left
  obtain ⟨first, left⟩ := (reads_pageId lower upper).next left
  obtain ⟨second, left⟩ := (reads_uuid row.heapFileId).next left
  obtain ⟨third, left⟩ := (reads_uuid row.tableId).next left
  obtain ⟨fourth, _⟩ := (reads_string short).next left
  rw [length]
  simp only [decodeTo, whole, first, second, third, fourth, Option.bind_eq_bind, Option.bind_some,
    Option.pure_def]
  simp only [int32Bytes_length, Region.read_length, List.length_append, leBytes_length]
  congr 2
  omega

theorem decode_encode {row : TableInfo} (lower : -2 ^ 31 ≤ row.firstPageId)
    (upper : row.firstPageId < 2 ^ 31) (short : row.tableName.length < 2 ^ 32) :
    decode (encode row) = some row := by
  have decoded := decodeTo_encode lower upper short []
  rw [List.append_nil] at decoded
  rw [decode_eq, decoded, Option.map_some]

end TableInfoCodec

namespace ColumnInfoCodec

def encode (row : ColumnInfo) : List UInt8 :=
  let buf := writeString [] row.colName
  let buf := writeUInt16 buf row.ordinalPosition
  let buf := writeUuid buf row.tableId
  writeUInt32 buf row.typeId

def decode (bytes : List UInt8) : Option ColumnInfo := do
  let (colName, off) ← readString bytes 0
  let (ordinalPosition, off) ← readUInt16 bytes off
  let (tableId, off) ← readUuid bytes off
  let (typeId, _) ← readUInt32 bytes off
  return { tableId, colName, typeId, ordinalPosition }

/-- `Decode` with the offset behind its last read. -/
def decodeTo (bytes : List UInt8) : Option (ColumnInfo × Nat) := do
  let (colName, off) ← readString bytes 0
  let (ordinalPosition, off) ← readUInt16 bytes off
  let (tableId, off) ← readUuid bytes off
  let (typeId, off) ← readUInt32 bytes off
  return ({ tableId, colName, typeId, ordinalPosition }, off)

theorem decode_eq (bytes : List UInt8) : decode bytes = (decodeTo bytes).map Prod.fst := by
  simp [decode, decodeTo, Option.map_bind]

/-- An `uint16_t` is promoted to `int` and so goes to the alternative of a page id. -/
def toValues (row : ColumnInfo) : List Value :=
  [.uuid row.tableId, .text row.colName, .int row.typeId, .pageId row.ordinalPosition.toNat]

def getSchema : Schema := attrCatalogSchema

theorem encode_length (row : ColumnInfo) : (encode row).length = row.colName.length + 26 := by
  simp only [encode, writeUInt16, writeUuid, writeString, writeUInt32, List.length_append,
    List.length_nil, Region.read_length, leBytes_length]
  omega

theorem encode_ne_nil (row : ColumnInfo) : encode row ≠ [] := by
  apply List.ne_nil_of_length_pos
  rw [encode_length]
  omega

theorem decodeTo_encode {row : ColumnInfo} (short : row.colName.length < 2 ^ 32)
    (after : List UInt8) : decodeTo (encode row ++ after) = some (row, (encode row).length) := by
  have length := encode_length row
  have whole : encode row ++ after = (leBytes 4 row.colName.length ++ row.colName) ++
      (leBytes 2 row.ordinalPosition.toNat ++ (row.tableId.read 0 16 ++
        (leBytes 4 row.typeId.toNat ++ after))) := by
    simp only [encode, writeUInt16, writeUuid, writeString, writeUInt32,
      UInt32.toNat_ofNat_of_lt' short, List.nil_append, List.append_assoc]
  have left := Left.start (encode row ++ after)
  rw [whole] at left
  obtain ⟨first, left⟩ := (reads_string short).next left
  obtain ⟨second, left⟩ := (reads_uint16 row.ordinalPosition).next left
  obtain ⟨third, left⟩ := (reads_uuid row.tableId).next left
  obtain ⟨fourth, _⟩ := (reads_uint32 row.typeId).next left
  rw [length]
  simp only [decodeTo, whole, first, second, third, fourth, Option.bind_eq_bind, Option.bind_some,
    Option.pure_def]
  simp only [Region.read_length, List.length_append, leBytes_length]
  congr 2
  omega

theorem decode_encode {row : ColumnInfo} (short : row.colName.length < 2 ^ 32) :
    decode (encode row) = some row := by
  have decoded := decodeTo_encode short []
  rw [List.append_nil] at decoded
  rw [decode_eq, decoded, Option.map_some]

end ColumnInfoCodec

namespace TypeInfoCodec

def encode (row : TypeInfo) : List UInt8 :=
  let buf := writeUInt32 [] row.typeId
  let buf := writeUInt16 buf row.size
  writeString buf row.typeName

def decode (bytes : List UInt8) : Option TypeInfo := do
  let (typeId, off) ← readUInt32 bytes 0
  let (size, off) ← readUInt16 bytes off
  let (typeName, _) ← readString bytes off
  return { typeId, size, typeName }

/-- `Decode` with the offset behind its last read. -/
def decodeTo (bytes : List UInt8) : Option (TypeInfo × Nat) := do
  let (typeId, off) ← readUInt32 bytes 0
  let (size, off) ← readUInt16 bytes off
  let (typeName, off) ← readString bytes off
  return ({ typeId, size, typeName }, off)

theorem decode_eq (bytes : List UInt8) : decode bytes = (decodeTo bytes).map Prod.fst := by
  simp [decode, decodeTo, Option.map_bind]

def toValues (row : TypeInfo) : List Value :=
  [.int row.typeId, .pageId row.size.toNat, .text row.typeName]

def getSchema : Schema := typesCatalogSchema

theorem encode_length (row : TypeInfo) : (encode row).length = row.typeName.length + 10 := by
  simp only [encode, writeUInt16, writeString, writeUInt32, List.length_append, List.length_nil,
    leBytes_length]
  omega

theorem decodeTo_encode {row : TypeInfo} (short : row.typeName.length < 2 ^ 32)
    (after : List UInt8) : decodeTo (encode row ++ after) = some (row, (encode row).length) := by
  have length := encode_length row
  have whole : encode row ++ after = leBytes 4 row.typeId.toNat ++ (leBytes 2 row.size.toNat ++
      ((leBytes 4 row.typeName.length ++ row.typeName) ++ after)) := by
    simp only [encode, writeUInt16, writeString, writeUInt32, UInt32.toNat_ofNat_of_lt' short,
      List.nil_append, List.append_assoc]
  have left := Left.start (encode row ++ after)
  rw [whole] at left
  obtain ⟨first, left⟩ := (reads_uint32 row.typeId).next left
  obtain ⟨second, left⟩ := (reads_uint16 row.size).next left
  obtain ⟨third, _⟩ := (reads_string short).next left
  rw [length]
  simp only [decodeTo, whole, first, second, third, Option.bind_eq_bind, Option.bind_some,
    Option.pure_def]
  simp only [List.length_append, leBytes_length]
  congr 2
  omega

theorem decode_encode {row : TypeInfo} (short : row.typeName.length < 2 ^ 32) :
    decode (encode row) = some row := by
  have decoded := decodeTo_encode short []
  rw [List.append_nil] at decoded
  rw [decode_eq, decoded, Option.map_some]

end TypeInfoCodec

/-- A codec reads back every valid row from its bytes and what follows them, with its last
read at the end of these bytes; so no row's bytes begin with those of another row. -/
structure RoundTrips {α : Type} (valid : α → Prop) (encode : α → List UInt8)
    (decode : List UInt8 → Option α) (decodeTo : List UInt8 → Option (α × Nat)) : Prop where
  offset : ∀ bytes, decode bytes = (decodeTo bytes).map Prod.fst
  back : ∀ row, valid row → ∀ after,
    decodeTo (encode row ++ after) = some (row, (encode row).length)
  prefixFree : ∀ row row', valid row → valid row' → row ≠ row' → ¬ encode row <+: encode row'

theorem RoundTrips.of_back {α : Type} {valid : α → Prop} {encode : α → List UInt8}
    {decode : List UInt8 → Option α} {decodeTo : List UInt8 → Option (α × Nat)}
    (offset : ∀ bytes, decode bytes = (decodeTo bytes).map Prod.fst)
    (back : ∀ row, valid row → ∀ after,
      decodeTo (encode row ++ after) = some (row, (encode row).length)) :
    RoundTrips valid encode decode decodeTo := by
  refine ⟨offset, back, ?_⟩
  intro row row' first second different begins
  obtain ⟨after, whole⟩ := begins
  have read := back row first after
  have own := back row' second []
  rw [List.append_nil, ← whole, read] at own
  exact different (congrArg Prod.fst (Option.some.inj own))

def TableInfoCodec.Valid (row : TableInfo) : Prop :=
  -2 ^ 31 ≤ row.firstPageId ∧ row.firstPageId < 2 ^ 31 ∧ row.tableName.length < 2 ^ 32

def ColumnInfoCodec.Valid (row : ColumnInfo) : Prop := row.colName.length < 2 ^ 32

def TypeInfoCodec.Valid (row : TypeInfo) : Prop := row.typeName.length < 2 ^ 32

theorem codecs_roundTrip :
    RoundTrips TableInfoCodec.Valid TableInfoCodec.encode TableInfoCodec.decode
        TableInfoCodec.decodeTo ∧
      RoundTrips ColumnInfoCodec.Valid ColumnInfoCodec.encode ColumnInfoCodec.decode
        ColumnInfoCodec.decodeTo ∧
      RoundTrips TypeInfoCodec.Valid TypeInfoCodec.encode TypeInfoCodec.decode
        TypeInfoCodec.decodeTo := by
  refine ⟨?_, ?_, ?_⟩
  · apply RoundTrips.of_back TableInfoCodec.decode_eq
    intro row valid after
    exact TableInfoCodec.decodeTo_encode valid.1 valid.2.1 valid.2.2 after
  · apply RoundTrips.of_back ColumnInfoCodec.decode_eq
    intro row valid after
    exact ColumnInfoCodec.decodeTo_encode valid after
  · apply RoundTrips.of_back TypeInfoCodec.decode_eq
    intro row valid after
    exact TypeInfoCodec.decodeTo_encode valid after

end RelationalDb
