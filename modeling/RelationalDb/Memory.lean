import Mathlib.Algebra.Order.Ring.Int

set_option autoImplicit false

namespace RelationalDb

/-- The `width` low bytes of a number, lowest byte first. -/
def leBytes : Nat → Nat → List UInt8
  | 0, _ => []
  | width + 1, value => UInt8.ofNat value :: leBytes width (value / 256)

/-- The number a byte string stands for, lowest byte first. -/
def leNat : List UInt8 → Nat
  | [] => 0
  | byte :: rest => byte.toNat + 256 * leNat rest

@[simp] theorem leBytes_length (width value : Nat) : (leBytes width value).length = width := by
  induction width generalizing value with
  | zero => rfl
  | succ width ih => simp only [leBytes, List.length_cons, ih]

theorem leBytes_mod (width value : Nat) :
    leBytes width (value % 256 ^ width) = leBytes width value := by
  induction width generalizing value with
  | zero => rfl
  | succ width ih =>
      have low : UInt8.ofNat (value % 256 ^ (width + 1)) = UInt8.ofNat value := by
        rw [← UInt8.toNat_inj, UInt8.toNat_ofNat', UInt8.toNat_ofNat', Nat.pow_succ']
        exact Nat.mod_mul_right_mod value 256 (256 ^ width)
      rw [leBytes, leBytes, low, ← ih (value / 256), Nat.pow_succ', Nat.mod_mul_right_div_self]

theorem leNat_lt (bytes : List UInt8) : leNat bytes < 256 ^ bytes.length := by
  induction bytes with
  | nil => simp [leNat]
  | cons byte rest ih =>
      have small : byte.toNat < 256 := byte.toNat_lt
      simp only [leNat, List.length_cons, Nat.pow_succ]
      omega

theorem leNat_leBytes (width value : Nat) : leNat (leBytes width value) = value % 256 ^ width := by
  induction width generalizing value with
  | zero => simp [leBytes, leNat, Nat.mod_one]
  | succ width ih =>
      have low : (UInt8.ofNat value).toNat = value % 256 := UInt8.toNat_ofNat'
      rw [leBytes, leNat, ih, low, Nat.pow_succ, Nat.mul_comm (256 ^ width) 256, Nat.mod_mul]

theorem leNat_leBytes_of_lt {width value : Nat} (fits : value < 256 ^ width) :
    leNat (leBytes width value) = value := by
  rw [leNat_leBytes, Nat.mod_eq_of_lt fits]

/-- The value a 32-bit signed integer holds after it was given `value`. -/
def toInt32 (value : Int) : Int := (value + 2 ^ 31) % 2 ^ 32 - 2 ^ 31

theorem toInt32_of_bounds {value : Int} (lower : -2 ^ 31 ≤ value) (upper : value < 2 ^ 31) :
    toInt32 value = value := by
  unfold toInt32
  omega

def int32Bytes (value : Int) : List UInt8 := leBytes 4 (value % 2 ^ 32).toNat

@[simp] theorem int32Bytes_length (value : Int) : (int32Bytes value).length = 4 :=
  leBytes_length 4 _

def int32Value (bytes : List UInt8) : Int := toInt32 (leNat bytes)

theorem int32Value_int32Bytes (value : Int) : int32Value (int32Bytes value) = toInt32 value := by
  unfold int32Value int32Bytes
  rw [leNat_leBytes]
  unfold toInt32
  omega

theorem int32Value_int32Bytes_of_bounds {value : Int} (lower : -2 ^ 31 ≤ value)
    (upper : value < 2 ^ 31) : int32Value (int32Bytes value) = value := by
  rw [int32Value_int32Bytes, toInt32_of_bounds lower upper]

/-- A block of `size` bytes. -/
abbrev Region (size : Nat) : Type := Fin size → UInt8

namespace Region

variable {size : Nat}

/-- The byte at an address; an address outside the block has no byte of the
block, which the model reads as 0. -/
def get (region : Region size) (address : Nat) : UInt8 :=
  if inside : address < size then region ⟨address, inside⟩ else 0

/-- The bytes in `[start, start + length)`. -/
def read (region : Region size) (start length : Nat) : List UInt8 :=
  (List.range length).map fun index => region.get (start + index)

/-- `memcpy` of a byte string to `start`. -/
def write (region : Region size) (start : Nat) (bytes : List UInt8) : Region size := fun address =>
  if start ≤ address.val ∧ address.val < start + bytes.length then
    bytes[address.val - start]?.getD 0
  else region address

@[simp] theorem read_length (region : Region size) (start length : Nat) :
    (region.read start length).length = length := by
  simp only [read, List.length_map, List.length_range]

theorem read_getElem (region : Region size) (start length index : Nat)
    (inside : index < (region.read start length).length) :
    (region.read start length)[index] = region.get (start + index) := by
  simp only [read, List.getElem_map, List.getElem_range]

@[simp] theorem read_zero (region : Region size) (start : Nat) : region.read start 0 = [] := rfl

@[simp] theorem write_nil (region : Region size) (start : Nat) : region.write start [] = region := by
  funext address
  have outside : ¬ (start ≤ address.val ∧ address.val < start + ([] : List UInt8).length) := by
    simp only [List.length_nil]
    omega
  simp only [write, outside, ↓reduceIte]

theorem get_write_inside (region : Region size) (start : Nat) (bytes : List UInt8) (address : Nat)
    (lower : start ≤ address) (upper : address < start + bytes.length) (bound : address < size) :
    (region.write start bytes).get address = bytes.get ⟨address - start, by omega⟩ := by
  simp only [get, bound, ↓reduceDIte, write, lower, upper, and_self, ↓reduceIte]
  rw [List.getElem?_eq_getElem (by omega), Option.getD_some, List.get_eq_getElem]

theorem get_write_outside (region : Region size) (start : Nat) (bytes : List UInt8) (address : Nat)
    (outside : address < start ∨ start + bytes.length ≤ address) :
    (region.write start bytes).get address = region.get address := by
  have absent : ¬ (start ≤ address ∧ address < start + bytes.length) := by omega
  simp only [get, write, absent, ↓reduceIte]

/-- Reading exactly what was copied. -/
theorem read_write_self (region : Region size) (start : Nat) (bytes : List UInt8)
    (fits : start + bytes.length ≤ size) :
    (region.write start bytes).read start bytes.length = bytes := by
  apply List.ext_getElem
  · exact read_length _ _ _
  · intro index inside inside'
    rw [read_getElem, get_write_inside _ _ _ _ (by omega) (by omega) (by omega)]
    simp only [Nat.add_sub_cancel_left, List.get_eq_getElem]

theorem read_write_disjoint (region : Region size) (start : Nat) (bytes : List UInt8)
    (first length : Nat) (apart : first + length ≤ start ∨ start + bytes.length ≤ first) :
    (region.write start bytes).read first length = region.read first length := by
  apply List.ext_getElem
  · rw [read_length, read_length]
  · intro index inside inside'
    rw [read_length] at inside
    rw [read_getElem, read_getElem, get_write_outside _ _ _ _ (by omega)]

theorem read_append (region : Region size) (start first second : Nat) :
    region.read start (first + second) =
      region.read start first ++ region.read (start + first) second := by
  simp only [read, List.range_add, List.map_append, List.map_map]
  congr 1
  apply List.map_congr_left
  intro index _
  simp only [Function.comp_apply, Nat.add_assoc]

/-- An unsigned little-endian integer of `width` bytes. -/
def load (region : Region size) (start width : Nat) : Nat := leNat (region.read start width)

/-- Stores the `width` low bytes of a number. -/
def store (region : Region size) (start width value : Nat) : Region size :=
  region.write start (leBytes width value)

theorem load_lt (region : Region size) (start width : Nat) :
    region.load start width < 256 ^ width := by
  have bound := leNat_lt (region.read start width)
  rwa [read_length] at bound

theorem load_store_self (region : Region size) (start width value : Nat)
    (fits : start + width ≤ size) :
    (region.store start width value).load start width = value % 256 ^ width := by
  have whole := read_write_self region start (leBytes width value) (by rwa [leBytes_length])
  rw [leBytes_length] at whole
  rw [load, store, whole, leNat_leBytes]

theorem load_write_disjoint (region : Region size) (start : Nat) (bytes : List UInt8)
    (first width : Nat) (apart : first + width ≤ start ∨ start + bytes.length ≤ first) :
    (region.write start bytes).load first width = region.load first width := by
  rw [load, load, read_write_disjoint region start bytes first width apart]

theorem load_store_disjoint (region : Region size) (start width value first firstWidth : Nat)
    (apart : first + firstWidth ≤ start ∨ start + width ≤ first) :
    (region.store start width value).load first firstWidth = region.load first firstWidth :=
  load_write_disjoint region start _ first firstWidth (by rwa [leBytes_length])

theorem read_store_disjoint (region : Region size) (start width value first length : Nat)
    (apart : first + length ≤ start ∨ start + width ≤ first) :
    (region.store start width value).read first length = region.read first length :=
  read_write_disjoint region start _ first length (by rwa [leBytes_length])

end Region

end RelationalDb
