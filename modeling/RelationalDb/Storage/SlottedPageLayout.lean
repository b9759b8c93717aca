import RelationalDb.Storage.SlottedPage

set_option autoImplicit false

namespace RelationalDb.SlottedPage

theorem pageSize_eq : pageSize = 8192 := rfl

def directoryEnd (page : Page) (base : Nat) : Nat := base + 4 + 4 * numSlots page base

/-- The directory grows up to `freeSpaceOffset`, the records lie above it and do
not overlap. -/
structure Layout (page : Page) (base : Nat) : Prop where
  directory : directoryEnd page base ≤ freeSpaceOffset page base
  bounded : freeSpaceOffset page base ≤ pageSize
  extent : ∀ slot < numSlots page base, freeSpaceOffset page base ≤ slotOffset page base slot ∧
    slotOffset page base slot + slotLength page base slot ≤ pageSize
  apart : ∀ first < numSlots page base, ∀ second < numSlots page base, first ≠ second →
    0 < slotLength page base first → 0 < slotLength page base second →
    slotOffset page base first + slotLength page base first ≤ slotOffset page base second ∨
      slotOffset page base second + slotLength page base second ≤ slotOffset page base first

/-- The bytes `Get` gives for a slot. -/
def record (page : Page) (base slotId : Nat) : Option (List UInt8) :=
  (get page base slotId).map fun span => page.read span.1 span.2

/-- A byte string as `Get` shows it: an empty one reads as deleted. -/
def visible (data : List UInt8) : Option (List UInt8) := if data = [] then none else some data

theorem record_eq (page : Page) (base slotId : Nat) (inside : slotId < numSlots page base) :
    record page base slotId =
      visible (page.read (slotOffset page base slotId) (slotLength page base slotId)) := by
  have present : ¬ numSlots page base ≤ slotId := by omega
  by_cases empty : slotLength page base slotId = 0
  · simp [record, get, visible, present, empty]
  · have nonempty :
        page.read (slotOffset page base slotId) (slotLength page base slotId) ≠ [] := by
      intro nil
      have length := congrArg List.length nil
      rw [Region.read_length] at length
      exact empty length
    simp [record, get, visible, present, empty, nonempty]

theorem record_none (page : Page) (base slotId : Nat) (outside : numSlots page base ≤ slotId) :
    record page base slotId = none := by
  simp [record, get, outside]

theorem record_isSome (page : Page) (base slotId : Nat) :
    (record page base slotId).isSome = (get page base slotId).isSome := by
  simp [record]

theorem freeSpace_eq (page : Page) (base : Nat) (layout : Layout page base) :
    freeSpace page base = freeSpaceOffset page base - directoryEnd page base := by
  have directory := layout.directory
  have bounded := layout.bounded
  have size := pageSize_eq
  unfold directoryEnd at directory ⊢
  simp only [freeSpace, pageHeaderSize, slotSize]
  omega

theorem init_numSlots (page : Page) (base : Nat) (fits : base + 4 ≤ pageSize) :
    numSlots (init page base) base = 0 := by
  unfold numSlots init
  rw [Region.load_store_disjoint _ _ _ _ _ _ (by omega)]
  exact (Region.load_store_self _ _ _ _ (by omega)).trans (Nat.zero_mod _)

theorem init_freeSpaceOffset (page : Page) (base : Nat) (fits : base + 4 ≤ pageSize) :
    freeSpaceOffset (init page base) base = pageSize := by
  unfold freeSpaceOffset init
  rw [Region.load_store_self _ _ _ _ (by omega)]
  rfl

theorem init_layout (page : Page) (base : Nat) (fits : base + 4 ≤ pageSize) :
    Layout (init page base) base := by
  have empty := init_numSlots page base fits
  have free := init_freeSpaceOffset page base fits
  refine ⟨?_, Nat.le_of_eq free, ?_, ?_⟩
  · rw [directoryEnd, empty, free]
    omega
  · intro slot inside
    omega
  · intro first inside
    omega

/-- A page after a record was put at `start` and a slot was appended. -/
structure Appended (page page' : Page) (base : Nat) (data : List UInt8) : Prop where
  numSlots_eq : numSlots page' base = numSlots page base + 1
  freeSpaceOffset_eq : freeSpaceOffset page' base = freeSpaceOffset page base - data.length
  newOffset : slotOffset page' base (numSlots page base) = freeSpaceOffset page base - data.length
  newLength : slotLength page' base (numSlots page base) = data.length
  newData : page'.read (freeSpaceOffset page base - data.length) data.length = data
  oldOffset : ∀ slot < numSlots page base, slotOffset page' base slot = slotOffset page base slot
  oldLength : ∀ slot < numSlots page base, slotLength page' base slot = slotLength page base slot
  oldData : ∀ start length, freeSpaceOffset page base ≤ start →
    page'.read start length = page.read start length
  below : ∀ start length, start + length ≤ base →
    page'.read start length = page.read start length

theorem takeSpace_load (page : Page) (base length start width : Nat)
    (apart : start + width ≤ base + 2 ∨ base + 4 ≤ start) :
    (takeSpace page base length).load start width = page.load start width :=
  Region.load_store_disjoint page _ _ _ _ _ (by omega)

theorem takeSpace_read (page : Page) (base length start width : Nat)
    (apart : start + width ≤ base + 2 ∨ base + 4 ≤ start) :
    (takeSpace page base length).read start width = page.read start width :=
  Region.read_store_disjoint page _ _ _ _ _ (by omega)

theorem takeSpace_freeSpaceOffset (page : Page) (base length : Nat)
    (room : length ≤ freeSpaceOffset page base) (fits : base + 4 ≤ pageSize) :
    freeSpaceOffset (takeSpace page base length) base = freeSpaceOffset page base - length := by
  have small : freeSpaceOffset page base < 256 ^ 2 := Region.load_lt page _ 2
  unfold freeSpaceOffset takeSpace at *
  rw [Region.load_store_self _ _ _ _ (by omega)]
  unfold freeSpaceOffset
  omega

theorem takeSpace_numSlots (page : Page) (base length : Nat) :
    numSlots (takeSpace page base length) base = numSlots page base :=
  takeSpace_load page base length base 2 (by omega)

def withRecord (page : Page) (base : Nat) (data : List UInt8) : Page :=
  (takeSpace page base data.length).write (freeSpaceOffset page base - data.length) data

/-- The slot of the record behind the others. -/
def withSlot (page : Page) (base : Nat) (data : List UInt8) : Page :=
  (withRecord page base data).write (slotAddress base (numSlots page base))
    (leBytes 2 (freeSpaceOffset page base - data.length) ++ leBytes 2 data.length)

/-- The page `Insert` leaves. -/
def appended (page : Page) (base : Nat) (data : List UInt8) : Page :=
  (withSlot page base data).store base 2 (numSlots page base + 1)

section Insert

variable {page : Page} {base : Nat} {data : List UInt8} {first width : Nat}

theorem withRecord_read (apart : first + width ≤ freeSpaceOffset page base - data.length ∨
    freeSpaceOffset page base - data.length + data.length ≤ first) :
    (withRecord page base data).read first width =
      (takeSpace page base data.length).read first width :=
  Region.read_write_disjoint _ _ _ _ _ apart

theorem withSlot_read (apart : first + width ≤ slotAddress base (numSlots page base) ∨
    slotAddress base (numSlots page base) + 4 ≤ first) :
    (withSlot page base data).read first width = (withRecord page base data).read first width := by
  apply Region.read_write_disjoint
  rw [List.length_append, leBytes_length, leBytes_length]
  exact apart

theorem appended_read (apart : base + 2 ≤ first ∨ first + width ≤ base) :
    (appended page base data).read first width = (withSlot page base data).read first width :=
  Region.read_store_disjoint _ _ _ _ _ _ (by omega)

variable (layout : Layout page base) (room : data.length + 4 ≤ freeSpace page base)

include layout room

/-- The new slot ends in front of the record, which ends where the free space does. -/
theorem room_bytes : slotAddress base (numSlots page base) = base + 4 + numSlots page base * 4 ∧
    slotAddress base (numSlots page base) + 4 + data.length ≤ freeSpaceOffset page base ∧
    freeSpaceOffset page base ≤ 8192 := by
  have directory := layout.directory
  have bounded := layout.bounded
  have size := pageSize_eq
  rw [freeSpace_eq page base layout] at room
  unfold directoryEnd at directory room
  refine ⟨rfl, ?_, by omega⟩
  simp only [slotAddress, pageHeaderSize, slotSize]
  omega

theorem appended_untouched (header : first + width ≤ base ∨ base + 4 ≤ first)
    (slot : first + width ≤ slotAddress base (numSlots page base) ∨
      slotAddress base (numSlots page base) + 4 ≤ first)
    (records : first + width ≤ freeSpaceOffset page base - data.length ∨
      freeSpaceOffset page base ≤ first) :
    (appended page base data).read first width = page.read first width := by
  obtain ⟨_, inside, _⟩ := room_bytes layout room
  rw [appended_read (by omega), withSlot_read slot, withRecord_read (by omega),
    takeSpace_read page base _ first width (by omega)]

theorem appended_slot : (appended page base data).read (slotAddress base (numSlots page base)) 4 =
    leBytes 2 (freeSpaceOffset page base - data.length) ++ leBytes 2 data.length := by
  obtain ⟨address, inside, bounded⟩ := room_bytes layout room
  have size := pageSize_eq
  rw [appended_read (by omega)]
  have whole := Region.read_write_self (withRecord page base data)
    (slotAddress base (numSlots page base))
    (leBytes 2 (freeSpaceOffset page base - data.length) ++ leBytes 2 data.length)
  rw [List.length_append, leBytes_length, leBytes_length] at whole
  exact whole (by omega)

theorem appended_record :
    (appended page base data).read (freeSpaceOffset page base - data.length) data.length = data := by
  obtain ⟨address, inside, bounded⟩ := room_bytes layout room
  have size := pageSize_eq
  rw [appended_read (by omega), withSlot_read (by omega)]
  exact Region.read_write_self _ _ data (by omega)

theorem withRecord_freeSpaceOffset : freeSpaceOffset (withRecord page base data) base =
    freeSpaceOffset page base - data.length := by
  obtain ⟨address, inside, bounded⟩ := room_bytes layout room
  have size := pageSize_eq
  have kept := @withRecord_read page base data (base + 2) 2 (by omega)
  exact (congrArg leNat kept).trans (takeSpace_freeSpaceOffset page base _ (by omega) (by omega))

theorem withRecord_numSlots : numSlots (withRecord page base data) base = numSlots page base := by
  obtain ⟨address, inside, bounded⟩ := room_bytes layout room
  have kept := @withRecord_read page base data base 2 (by omega)
  exact (congrArg leNat kept).trans (takeSpace_numSlots page base data.length)

theorem withSlot_numSlots : numSlots (withSlot page base data) base = numSlots page base := by
  obtain ⟨address, inside, bounded⟩ := room_bytes layout room
  have kept := @withSlot_read page base data base 2 (by omega)
  exact (congrArg leNat kept).trans (withRecord_numSlots layout room)

theorem insert_eq :
    insert page base data = (some (numSlots page base), appended page base data) := by
  obtain ⟨address, inside, bounded⟩ := room_bytes layout room
  have size := pageSize_eq
  have enough : ¬ freeSpace page base < (data.length + slotSize) % 2 ^ 64 := by
    rw [freeSpace_eq page base layout] at room ⊢
    rw [slotSize]
    omega
  have small : slotAddress base (numSlots page base) % 2 ^ 16 =
      slotAddress base (numSlots page base) := Nat.mod_eq_of_lt (by omega)
  have taken := takeSpace_freeSpaceOffset page base data.length (by omega) (by omega)
  have offset := withRecord_freeSpaceOffset layout room
  have slots := withRecord_numSlots layout room
  have slots' := withSlot_numSlots layout room
  unfold withSlot at slots'
  unfold withRecord at offset slots slots'
  simp only [insert, enough, ↓reduceIte, taken, slots, small, offset, slots', appended, withSlot,
    withRecord]

end Insert

/-- `Insert` on a page with room for the record and one more slot. -/
theorem insert_of_room (page : Page) (base : Nat) (data : List UInt8) (layout : Layout page base)
    (room : data.length + 4 ≤ freeSpace page base) :
    ∃ page', insert page base data = (some (numSlots page base), page') ∧
      Appended page page' base data := by
  obtain ⟨address, inside, bounded⟩ := room_bytes layout room
  have size := pageSize_eq
  refine ⟨_, insert_eq layout room, ?_, ?_, ?_, ?_, ?_, ?_, ?_, ?_, ?_⟩
  · change (appended page base data).load base 2 = _
    rw [appended, Region.load_store_self _ _ _ _ (by omega)]
    omega
  · change leNat ((appended page base data).read (base + 2) 2) = _
    rw [appended_read (by omega), withSlot_read (by omega)]
    exact withRecord_freeSpaceOffset layout room
  · have whole := appended_slot layout room
    rw [show 4 = 2 + 2 by rfl, Region.read_append] at whole
    have first := (List.append_inj whole (by simp)).1
    rw [slotOffset, Region.load, first, leNat_leBytes_of_lt (by omega)]
  · have whole := appended_slot layout room
    rw [show 4 = 2 + 2 by rfl, Region.read_append] at whole
    have second := (List.append_inj whole (by simp)).2
    rw [slotLength, Region.load, second, leNat_leBytes_of_lt (by omega)]
  · exact appended_record layout room
  · intro index old
    apply congrArg leNat
    apply appended_untouched layout room <;> simp only [slotAddress, pageHeaderSize, slotSize] <;> omega
  · intro index old
    apply congrArg leNat
    apply appended_untouched layout room <;> simp only [slotAddress, pageHeaderSize, slotSize] <;> omega
  · intro first width above
    apply appended_untouched layout room <;> omega
  · intro first width under
    apply appended_untouched layout room <;> omega

theorem Appended.layout {page page' : Page} {base : Nat} {data : List UInt8}
    (appended : Appended page page' base data) (layout : Layout page base)
    (room : data.length + 4 ≤ freeSpace page base) : Layout page' base := by
  rw [freeSpace_eq page base layout] at room
  have directory := layout.directory
  have bounded := layout.bounded
  have free := appended.freeSpaceOffset_eq
  have count := appended.numSlots_eq
  unfold directoryEnd at directory room
  have extent : ∀ slot < numSlots page base,
      freeSpaceOffset page base ≤ slotOffset page' base slot ∧
        slotOffset page' base slot + slotLength page' base slot ≤ pageSize := by
    intro slot old
    rw [appended.oldOffset slot old, appended.oldLength slot old]
    exact layout.extent slot old
  refine ⟨?_, by omega, ?_, ?_⟩
  · rw [directoryEnd, count, free]
    omega
  · intro slot inside
    rw [count] at inside
    by_cases old : slot < numSlots page base
    · have bound := extent slot old
      omega
    · have same : slot = numSlots page base := by omega
      rw [same, appended.newOffset, appended.newLength, free]
      omega
  · intro first firstInside second secondInside different firstNonempty secondNonempty
    rw [count] at firstInside secondInside
    by_cases firstOld : first < numSlots page base
    · by_cases secondOld : second < numSlots page base
      · rw [appended.oldLength first firstOld] at firstNonempty ⊢
        rw [appended.oldLength second secondOld] at secondNonempty ⊢
        rw [appended.oldOffset first firstOld, appended.oldOffset second secondOld]
        exact layout.apart first firstOld second secondOld different firstNonempty secondNonempty
      · have same : second = numSlots page base := by omega
        have bound := extent first firstOld
        rw [same, appended.newOffset, appended.newLength]
        omega
    · have firstSame : first = numSlots page base := by omega
      have secondOld : second < numSlots page base := by omega
      have bound := extent second secondOld
      rw [firstSame, appended.newOffset, appended.newLength]
      omega

theorem Appended.record_old {page page' : Page} {base : Nat} {data : List UInt8}
    (appended : Appended page page' base data) (layout : Layout page base)
    (slot : Nat) (old : slot < numSlots page base) :
    record page' base slot = record page base slot := by
  have count := appended.numSlots_eq
  rw [record_eq page' base slot (by omega), record_eq page base slot old,
    appended.oldOffset slot old, appended.oldLength slot old,
    appended.oldData _ _ (layout.extent slot old).1]

theorem Appended.record_new {page page' : Page} {base : Nat} {data : List UInt8}
    (appended : Appended page page' base data) :
    record page' base (numSlots page base) = visible data := by
  have count := appended.numSlots_eq
  rw [record_eq page' base _ (by omega), appended.newOffset, appended.newLength, appended.newData]

theorem Appended.get_new {page page' : Page} {base : Nat} {data : List UInt8}
    (appended : Appended page page' base data) (nonempty : data ≠ []) :
    get page' base (numSlots page base) =
      some (freeSpaceOffset page base - data.length, data.length) := by
  have length := List.length_pos_iff.mpr nonempty
  rw [get, appended.numSlots_eq, appended.newLength, appended.newOffset, if_neg (by omega),
    if_neg (by omega)]

theorem Appended.freeSpace {page page' : Page} {base : Nat} {data : List UInt8}
    (appended : Appended page page' base data) (layout : Layout page base)
    (room : data.length + 4 ≤ freeSpace page base) :
    SlottedPage.freeSpace page' base = SlottedPage.freeSpace page base - (data.length + 4) := by
  rw [freeSpace_eq page' base (appended.layout layout room), freeSpace_eq page base layout,
    directoryEnd, directoryEnd, appended.numSlots_eq, appended.freeSpaceOffset_eq]
  omega

theorem insert_of_no_room (page : Page) (base : Nat) (data : List UInt8)
    (bounded : data.length < 2 ^ 63) (full : freeSpace page base < data.length + 4) :
    insert page base data = (none, page) := by
  have refused : freeSpace page base < (data.length + slotSize) % 2 ^ 64 := by
    rw [slotSize]
    omega
  simp only [insert, refused, ↓reduceIte]

/-- A page after one slot was pointed at new bytes. -/
structure Edited (page page' : Page) (base slotId start : Nat) (data : List UInt8) : Prop where
  numSlots_eq : numSlots page' base = numSlots page base
  offset_eq : slotOffset page' base slotId = start
  length_eq : slotLength page' base slotId = data.length
  newData : page'.read start data.length = data
  otherOffset : ∀ slot < numSlots page base, slot ≠ slotId →
    slotOffset page' base slot = slotOffset page base slot
  otherLength : ∀ slot < numSlots page base, slot ≠ slotId →
    slotLength page' base slot = slotLength page base slot
  otherData : ∀ slot < numSlots page base, slot ≠ slotId →
    page'.read (slotOffset page base slot) (slotLength page base slot) =
      page.read (slotOffset page base slot) (slotLength page base slot)
  below : ∀ first width, first + width ≤ base → page'.read first width = page.read first width

/-- What an edit of one slot does to the records. -/
structure Rewritten (page page' : Page) (base slotId : Nat) (data : List UInt8) : Prop where
  numSlots_eq : numSlots page' base = numSlots page base
  layout : Layout page' base
  record_same : record page' base slotId = visible data
  record_other : ∀ slot, slot ≠ slotId → record page' base slot = record page base slot
  below : ∀ first width, first + width ≤ base → page'.read first width = page.read first width

/-- The new bytes lie in the record area and clear of every other record. -/
theorem Edited.rewritten {page page' : Page} {base slotId start : Nat} {data : List UInt8}
    (edited : Edited page page' base slotId start data) (layout : Layout page base)
    (inside : slotId < numSlots page base)
    (directory : directoryEnd page base ≤ freeSpaceOffset page' base)
    (shrinks : freeSpaceOffset page' base ≤ freeSpaceOffset page base)
    (lower : freeSpaceOffset page' base ≤ start) (upper : start + data.length ≤ pageSize)
    (clear : ∀ slot < numSlots page base, slot ≠ slotId → 0 < slotLength page base slot →
      0 < data.length → slotOffset page base slot + slotLength page base slot ≤ start ∨
        start + data.length ≤ slotOffset page base slot) :
    Rewritten page page' base slotId data := by
  have bounded := layout.bounded
  refine ⟨edited.numSlots_eq, ⟨?_, by omega, ?_, ?_⟩, ?_, ?_, edited.below⟩
  · rw [directoryEnd, edited.numSlots_eq]
    exact directory
  · intro slot slotInside
    rw [edited.numSlots_eq] at slotInside
    by_cases same : slot = slotId
    · rw [same, edited.offset_eq, edited.length_eq]
      exact ⟨lower, upper⟩
    · have bound := layout.extent slot slotInside
      rw [edited.otherOffset slot slotInside same, edited.otherLength slot slotInside same]
      omega
  · intro first firstInside second secondInside different firstNonempty secondNonempty
    rw [edited.numSlots_eq] at firstInside secondInside
    by_cases firstSame : first = slotId
    · have secondOther : second ≠ slotId := fun same => different (firstSame.trans same.symm)
      rw [firstSame, edited.length_eq] at firstNonempty
      rw [edited.otherLength second secondInside secondOther] at secondNonempty ⊢
      rw [edited.otherOffset second secondInside secondOther, firstSame, edited.offset_eq,
        edited.length_eq]
      have separated := clear second secondInside secondOther secondNonempty firstNonempty
      omega
    · rw [edited.otherLength first firstInside firstSame] at firstNonempty ⊢
      rw [edited.otherOffset first firstInside firstSame]
      by_cases secondSame : second = slotId
      · rw [secondSame, edited.length_eq] at secondNonempty
        rw [secondSame, edited.offset_eq, edited.length_eq]
        exact clear first firstInside firstSame firstNonempty secondNonempty
      · rw [edited.otherLength second secondInside secondSame] at secondNonempty ⊢
        rw [edited.otherOffset second secondInside secondSame]
        exact layout.apart first firstInside second secondInside different firstNonempty
          secondNonempty
  · rw [record_eq page' base slotId (by rw [edited.numSlots_eq]; exact inside), edited.offset_eq,
      edited.length_eq, edited.newData]
  · intro slot other
    by_cases slotInside : slot < numSlots page base
    · rw [record_eq page' base slot (by rw [edited.numSlots_eq]; exact slotInside),
        record_eq page base slot slotInside, edited.otherOffset slot slotInside other,
        edited.otherLength slot slotInside other, edited.otherData slot slotInside other]
    · rw [record_none page' base slot (by rw [edited.numSlots_eq]; omega),
        record_none page base slot (by omega)]

theorem storeLength_read (page : Page) (base slotId length first width : Nat)
    (apart : first + width ≤ slotAddress base slotId + 2 ∨ slotAddress base slotId + 4 ≤ first) :
    (page.store (slotAddress base slotId + 2) 2 length).read first width =
      page.read first width :=
  Region.read_store_disjoint page _ _ _ _ _ (by omega)

theorem storeLength_load (page : Page) (base slotId length first width : Nat)
    (apart : first + width ≤ slotAddress base slotId + 2 ∨ slotAddress base slotId + 4 ≤ first) :
    (page.store (slotAddress base slotId + 2) 2 length).load first width =
      page.load first width :=
  congrArg leNat (storeLength_read page base slotId length first width apart)

theorem slotAddress_bound (page : Page) (base slotId : Nat) (layout : Layout page base)
    (inside : slotId < numSlots page base) :
    base + 4 ≤ slotAddress base slotId ∧
      slotAddress base slotId + 4 ≤ freeSpaceOffset page base := by
  have directory := layout.directory
  unfold directoryEnd at directory
  simp only [slotAddress, pageHeaderSize, slotSize]
  omega

theorem slotAddress_apart (base first second : Nat) (different : first ≠ second) :
    slotAddress base first + 4 ≤ slotAddress base second ∨
      slotAddress base second + 4 ≤ slotAddress base first := by
  simp only [slotAddress, pageHeaderSize, slotSize]
  omega

/-- A page on which a slot keeps its place and gets at most its old length. -/
def overwrite (page : Page) (base slotId : Nat) (data : List UInt8) : Page :=
  (page.write (slotOffset page base slotId) data).store (slotAddress base slotId + 2) 2 data.length

theorem overwrite_freeSpaceOffset (page : Page) (base slotId : Nat) (data : List UInt8)
    (layout : Layout page base) (inside : slotId < numSlots page base) :
    freeSpaceOffset (overwrite page base slotId data) base = freeSpaceOffset page base := by
  have address := slotAddress_bound page base slotId layout inside
  have extent := layout.extent slotId inside
  unfold freeSpaceOffset overwrite
  rw [storeLength_load _ _ _ _ _ _ (by omega), Region.load_write_disjoint _ _ _ _ _ (by omega)]

theorem overwrite_rewritten (page : Page) (base slotId : Nat) (data : List UInt8)
    (layout : Layout page base) (inside : slotId < numSlots page base)
    (shorter : data.length ≤ slotLength page base slotId) :
    Rewritten page (overwrite page base slotId data) base slotId data := by
  have address := slotAddress_bound page base slotId layout inside
  have extent := layout.extent slotId inside
  have bounded := layout.bounded
  have size := pageSize_eq
  have free := overwrite_freeSpaceOffset page base slotId data layout inside
  have copiedRead : ∀ first width, first + width ≤ slotOffset page base slotId ∨
      slotOffset page base slotId + data.length ≤ first →
      (page.write (slotOffset page base slotId) data).read first width = page.read first width :=
    fun first width apart => Region.read_write_disjoint _ _ _ _ _ apart
  have header : ∀ first width, first + width ≤ slotAddress base slotId + 2 ∨
      slotAddress base slotId + 4 ≤ first ∧ first + width ≤ slotOffset page base slotId →
      (overwrite page base slotId data).read first width = page.read first width := by
    intro first width apart
    unfold overwrite
    rw [storeLength_read _ _ _ _ _ _ (by omega), copiedRead _ _ (by omega)]
  have clear : ∀ slot < numSlots page base, slot ≠ slotId → 0 < slotLength page base slot →
      0 < data.length →
      slotOffset page base slot + slotLength page base slot ≤ slotOffset page base slotId ∨
        slotOffset page base slotId + data.length ≤ slotOffset page base slot := by
    intro slot slotInside other nonempty dataNonempty
    have apart := layout.apart slot slotInside slotId inside other nonempty (by omega)
    omega
  have otherHeader : ∀ slot < numSlots page base, slot ≠ slotId → ∀ field, field ≤ 2 →
      (overwrite page base slotId data).read (slotAddress base slot + field) 2 =
        page.read (slotAddress base slot + field) 2 := by
    intro slot slotInside other field small
    have slotBound := slotAddress_bound page base slot layout slotInside
    have separated := slotAddress_apart base slot slotId other
    exact header _ _ (by omega)
  have edited : Edited page (overwrite page base slotId data) base slotId
      (slotOffset page base slotId) data := by
    refine ⟨?_, ?_, ?_, ?_, ?_, ?_, ?_, ?_⟩
    · exact congrArg leNat (header _ _ (by omega))
    · exact congrArg leNat (header _ _ (by omega))
    · rw [slotLength, overwrite, Region.load_store_self _ _ _ _ (by omega)]
      omega
    · rw [overwrite, storeLength_read _ _ _ _ _ _ (by omega)]
      exact Region.read_write_self _ _ _ (by omega)
    · intro slot slotInside other
      exact congrArg leNat (otherHeader slot slotInside other 0 (by omega))
    · intro slot slotInside other
      exact congrArg leNat (otherHeader slot slotInside other 2 (by omega))
    · intro slot slotInside other
      have slotExtent := layout.extent slot slotInside
      by_cases empty : slotLength page base slot = 0
      · rw [empty, Region.read_zero, Region.read_zero]
      · by_cases dataEmpty : data.length = 0
        · rw [overwrite, storeLength_read _ _ _ _ _ _ (by omega),
            List.eq_nil_of_length_eq_zero dataEmpty, Region.write_nil]
        · have separated := clear slot slotInside other (by omega) (by omega)
          rw [overwrite, storeLength_read _ _ _ _ _ _ (by omega), copiedRead _ _ (by omega)]
    · intro first width under
      exact header _ _ (by omega)
  refine edited.rewritten layout inside ?_ ?_ ?_ ?_ clear
  · rw [free]
    exact layout.directory
  · exact Nat.le_of_eq free
  · rw [free]
    exact extent.1
  · omega

/-- A page on which a slot was moved to new bytes below the record area. -/
def relocate (page : Page) (base slotId : Nat) (data : List UInt8) : Page :=
  let page := takeSpace page base data.length
  let page := page.store (slotAddress base slotId) 2 (freeSpaceOffset page base)
  let page := page.store (slotAddress base slotId + 2) 2 data.length
  page.write (freeSpaceOffset page base) data

/-- The four steps of a relocation, with the offset they all work with. -/
theorem relocate_eq (page : Page) (base slotId : Nat) (data : List UInt8)
    (layout : Layout page base) (inside : slotId < numSlots page base)
    (room : data.length ≤ freeSpace page base) :
    relocate page base slotId data =
      ((((takeSpace page base data.length).store (slotAddress base slotId) 2
        (freeSpaceOffset page base - data.length)).store (slotAddress base slotId + 2) 2
          data.length).write (freeSpaceOffset page base - data.length) data) := by
  have address := slotAddress_bound page base slotId layout inside
  have bounded := layout.bounded
  have size := pageSize_eq
  rw [freeSpace_eq page base layout, directoryEnd] at room
  have taken := takeSpace_freeSpaceOffset page base data.length (by omega) (by omega)
  have kept : freeSpaceOffset (((takeSpace page base data.length).store (slotAddress base slotId) 2
      (freeSpaceOffset page base - data.length)).store (slotAddress base slotId + 2) 2
        data.length) base = freeSpaceOffset page base - data.length := by
    rw [← taken]
    unfold freeSpaceOffset
    rw [storeLength_load _ _ _ _ _ _ (by omega), Region.load_store_disjoint _ _ _ _ _ _ (by omega)]
  unfold relocate
  dsimp only
  rw [taken, kept]

theorem relocate_freeSpaceOffset (page : Page) (base slotId : Nat) (data : List UInt8)
    (layout : Layout page base) (inside : slotId < numSlots page base)
    (room : data.length ≤ freeSpace page base) :
    freeSpaceOffset (relocate page base slotId data) base =
      freeSpaceOffset page base - data.length := by
  have address := slotAddress_bound page base slotId layout inside
  have bounded := layout.bounded
  have size := pageSize_eq
  rw [relocate_eq page base slotId data layout inside room]
  rw [freeSpace_eq page base layout, directoryEnd] at room
  have taken := takeSpace_freeSpaceOffset page base data.length (by omega) (by omega)
  have slotInside : slotAddress base slotId + 4 ≤ base + 4 + 4 * numSlots page base := by
    simp only [slotAddress, pageHeaderSize, slotSize]
    omega
  rw [freeSpaceOffset, Region.load_write_disjoint _ _ _ _ _ (by omega),
    storeLength_load _ _ _ _ _ _ (by omega), Region.load_store_disjoint _ _ _ _ _ _ (by omega)]
  exact taken

theorem relocate_rewritten (page : Page) (base slotId : Nat) (data : List UInt8)
    (layout : Layout page base) (inside : slotId < numSlots page base)
    (room : data.length ≤ freeSpace page base) :
    Rewritten page (relocate page base slotId data) base slotId data := by
  have address := slotAddress_bound page base slotId layout inside
  have bounded := layout.bounded
  have directory := layout.directory
  have size := pageSize_eq
  have free := relocate_freeSpaceOffset page base slotId data layout inside room
  have steps := relocate_eq page base slotId data layout inside room
  rw [freeSpace_eq page base layout, directoryEnd] at room
  rw [directoryEnd] at directory
  have slotInside : slotAddress base slotId + 4 ≤ base + 4 + 4 * numSlots page base := by
    simp only [slotAddress, pageHeaderSize, slotSize]
    omega
  have untouched : ∀ first width, (first + width ≤ base + 2 ∨ base + 4 ≤ first) →
      (first + width ≤ slotAddress base slotId ∨ slotAddress base slotId + 4 ≤ first) →
      (first + width ≤ freeSpaceOffset page base - data.length ∨
        freeSpaceOffset page base ≤ first) →
      (relocate page base slotId data).read first width = page.read first width := by
    intro first width header slot records
    rw [steps, Region.read_write_disjoint _ _ _ _ _ (by omega),
      storeLength_read _ _ _ _ _ _ (by omega), Region.read_store_disjoint _ _ _ _ _ _ (by omega),
      takeSpace_read page base _ first width header]
  have otherHeader : ∀ slot < numSlots page base, slot ≠ slotId → ∀ field, field ≤ 2 →
      (relocate page base slotId data).read (slotAddress base slot + field) 2 =
        page.read (slotAddress base slot + field) 2 := by
    intro slot below other field small
    have slotBound := slotAddress_bound page base slot layout below
    have separated := slotAddress_apart base slot slotId other
    have slotBelow : slotAddress base slot + 4 ≤ base + 4 + 4 * numSlots page base := by
      simp only [slotAddress, pageHeaderSize, slotSize]
      omega
    exact untouched _ _ (by omega) (by omega) (by omega)
  have edited : Edited page (relocate page base slotId data) base slotId
      (freeSpaceOffset page base - data.length) data := by
    refine ⟨?_, ?_, ?_, ?_, ?_, ?_, ?_, ?_⟩
    · exact congrArg leNat (untouched _ _ (by omega) (by omega) (by omega))
    · rw [slotOffset, steps, Region.load_write_disjoint _ _ _ _ _ (by omega),
        storeLength_load _ _ _ _ _ _ (by omega), Region.load_store_self _ _ _ _ (by omega)]
      omega
    · rw [slotLength, steps, Region.load_write_disjoint _ _ _ _ _ (by omega),
        Region.load_store_self _ _ _ _ (by omega)]
      omega
    · rw [steps]
      exact Region.read_write_self _ _ _ (by omega)
    · intro slot below other
      exact congrArg leNat (otherHeader slot below other 0 (by omega))
    · intro slot below other
      exact congrArg leNat (otherHeader slot below other 2 (by omega))
    · intro slot below other
      have slotExtent := layout.extent slot below
      exact untouched _ _ (by omega) (by omega) (by omega)
    · intro first width under
      exact untouched _ _ (by omega) (by omega) (by omega)
  refine edited.rewritten layout inside ?_ ?_ ?_ ?_ ?_
  · rw [free, directoryEnd]
    omega
  · omega
  · omega
  · omega
  · intro slot below other _ _
    have slotExtent := layout.extent slot below
    omega

/-- `Update` of a slot in the directory: refused without room, otherwise the
record is replaced. -/
theorem update_cases (page : Page) (base slotId : Nat) (data : List UInt8)
    (layout : Layout page base) :
    (update page base slotId data = (false, page)) ∨
      (slotId < numSlots page base ∧
        (data.length ≤ slotLength page base slotId ∨ data.length ≤ freeSpace page base) ∧
        ∃ page', update page base slotId data = (true, page') ∧
          Rewritten page page' base slotId data) := by
  by_cases outside : numSlots page base ≤ slotId
  · left
    simp only [update, outside, ↓reduceIte]
  · have inside : slotId < numSlots page base := by omega
    by_cases shorter : data.length ≤ slotLength page base slotId
    · right
      refine ⟨inside, Or.inl shorter, overwrite page base slotId data, ?_,
        overwrite_rewritten page base slotId data layout inside shorter⟩
      simp only [update, outside, shorter, ↓reduceIte, overwrite]
    · by_cases full : freeSpace page base < data.length
      · left
        simp only [update, outside, shorter, full, ↓reduceIte]
      · have room : data.length ≤ freeSpace page base := by omega
        right
        refine ⟨inside, Or.inr room, relocate page base slotId data, ?_,
          relocate_rewritten page base slotId data layout inside room⟩
        simp only [update, outside, shorter, full, ↓reduceIte, relocate]

theorem delete_rewritten (page : Page) (base slotId : Nat) (layout : Layout page base)
    (inside : slotId < numSlots page base) :
    ∃ page', delete page base slotId = (true, page') ∧ Rewritten page page' base slotId [] := by
  have present : ¬ numSlots page base ≤ slotId := by omega
  refine ⟨overwrite page base slotId [], ?_,
    overwrite_rewritten page base slotId [] layout inside (Nat.zero_le _)⟩
  simp only [delete, present, ↓reduceIte, overwrite, Region.write_nil, List.length_nil]

end RelationalDb.SlottedPage
