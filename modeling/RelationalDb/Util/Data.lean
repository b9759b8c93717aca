import RelationalDb.Config

set_option autoImplicit false

namespace RelationalDb

def writeUInt16 (buf : List UInt8) (v : UInt16) : List UInt8 := buf ++ leBytes 2 v.toNat

def writeUInt32 (buf : List UInt8) (v : UInt32) : List UInt8 := buf ++ leBytes 4 v.toNat

def writePageId (buf : List UInt8) (v : Int) : List UInt8 := buf ++ int32Bytes v

def writeUuid (buf : List UInt8) (v : Uuid) : List UInt8 := buf ++ v.read 0 16

/-- The length is cast to `uint32_t`. -/
def writeString (buf : List UInt8) (v : List UInt8) : List UInt8 :=
  writeUInt32 buf (UInt32.ofNat v.length) ++ v

/-- `memcpy` of `count` bytes at the offset `off`, which moves on. There is no result
where the copy would leave the span. -/
def readBytes (count : Nat) (buf : List UInt8) (off : Nat) : Option (List UInt8 × Nat) :=
  if off + count ≤ buf.length then some ((buf.drop off).take count, off + count) else none

/-- `ReadData` of a type of `count` bytes. -/
def readFixed {α : Type} (count : Nat) (value : List UInt8 → α) (buf : List UInt8) (off : Nat) :
    Option (α × Nat) :=
  (readBytes count buf off).map fun read => (value read.1, read.2)

def readUInt16 : List UInt8 → Nat → Option (UInt16 × Nat) :=
  readFixed 2 fun bytes => UInt16.ofNat (leNat bytes)

def readUInt32 : List UInt8 → Nat → Option (UInt32 × Nat) :=
  readFixed 4 fun bytes => UInt32.ofNat (leNat bytes)

def readPageId : List UInt8 → Nat → Option (Int × Nat) := readFixed 4 int32Value

def readUuid : List UInt8 → Nat → Option (Uuid × Nat) :=
  readFixed 16 fun bytes index => bytes[index.val]?.getD 0

def readString (buf : List UInt8) (off : Nat) : Option (List UInt8 × Nat) := do
  let (len, off) ← readUInt32 buf off
  readBytes len.toNat buf off

/-- The reader finds the value in the bytes, wherever they stand. -/
def Reads {α : Type} (reader : List UInt8 → Nat → Option (α × Nat)) (bytes : List UInt8)
    (value : α) : Prop :=
  ∀ before after, reader (before ++ (bytes ++ after)) before.length =
    some (value, before.length + bytes.length)

theorem reads_bytes {count : Nat} {bytes : List UInt8} (length : bytes.length = count) :
    Reads (readBytes count) bytes bytes := by
  intro before after
  have inside : before.length + count ≤ (before ++ (bytes ++ after)).length := by
    rw [List.length_append, List.length_append]
    omega
  rw [readBytes, if_pos inside, List.drop_left, ← length, List.take_left]

theorem reads_fixed {α : Type} {count : Nat} {value : List UInt8 → α} {bytes : List UInt8} {v : α}
    (length : bytes.length = count) (same : value bytes = v) :
    Reads (readFixed count value) bytes v := by
  intro before after
  rw [readFixed, reads_bytes length before after, Option.map_some, same]

theorem reads_uint16 (v : UInt16) : Reads readUInt16 (leBytes 2 v.toNat) v := by
  apply reads_fixed (leBytes_length 2 _)
  rw [leNat_leBytes_of_lt (show v.toNat < 256 ^ 2 from v.toNat_lt), UInt16.ofNat_toNat]

theorem reads_uint32 (v : UInt32) : Reads readUInt32 (leBytes 4 v.toNat) v := by
  apply reads_fixed (leBytes_length 4 _)
  rw [leNat_leBytes_of_lt (show v.toNat < 256 ^ 4 from v.toNat_lt), UInt32.ofNat_toNat]

theorem reads_pageId {v : Int} (lower : -2 ^ 31 ≤ v) (upper : v < 2 ^ 31) :
    Reads readPageId (int32Bytes v) v :=
  reads_fixed (int32Bytes_length v) (int32Value_int32Bytes_of_bounds lower upper)

theorem reads_uuid (v : Uuid) : Reads readUuid (v.read 0 16) v := by
  apply reads_fixed (v.read_length 0 16)
  funext index
  have inside : index.val < (v.read 0 16).length := by
    rw [Region.read_length]
    exact index.isLt
  rw [List.getElem?_eq_getElem inside, Region.read_getElem, Nat.zero_add, Option.getD_some,
    Region.get, dif_pos index.isLt]

theorem reads_string {v : List UInt8} (short : v.length < 2 ^ 32) :
    Reads readString (leBytes 4 v.length ++ v) v := by
  intro before after
  have length : (UInt32.ofNat v.length).toNat = v.length := UInt32.toNat_ofNat_of_lt' short
  have header := reads_uint32 (UInt32.ofNat v.length) before (v ++ after)
  have body := reads_bytes (rfl : v.length = v.length) (before ++ leBytes 4 v.length) after
  rw [length, leBytes_length] at header
  rw [List.append_assoc, List.length_append, leBytes_length] at body
  rw [readString, List.append_assoc, header, Option.bind_eq_bind, Option.bind_some]
  simp only [length, body, List.length_append, leBytes_length, Nat.add_assoc]

/-- What is left of a buffer behind an offset. -/
structure Left (buf : List UInt8) (off : Nat) (rest : List UInt8) : Prop where
  inside : off ≤ buf.length
  rest_eq : buf.drop off = rest

theorem Left.start (buf : List UInt8) : Left buf 0 buf := ⟨Nat.zero_le _, List.drop_zero⟩

/-- A reader takes its bytes off what is left. -/
theorem Reads.next {α : Type} {reader : List UInt8 → Nat → Option (α × Nat)}
    {bytes rest buf : List UInt8} {value : α} {off : Nat} (reads : Reads reader bytes value)
    (left : Left buf off (bytes ++ rest)) :
    reader buf off = some (value, off + bytes.length) ∧ Left buf (off + bytes.length) rest := by
  have whole : buf = buf.take off ++ (bytes ++ rest) := by
    rw [← left.rest_eq, List.take_append_drop]
  have start : (buf.take off).length = off := List.length_take_of_le left.inside
  have found := reads (buf.take off) rest
  rw [← whole, start] at found
  refine ⟨found, ?_, ?_⟩
  · rw [whole, List.length_append, List.length_append, start]
    omega
  · rw [← List.drop_drop, left.rest_eq, List.drop_left]

end RelationalDb
