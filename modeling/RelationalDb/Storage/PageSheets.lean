import RelationalDb.Storage.SlotRecords

set_option autoImplicit false

namespace RelationalDb.SlottedPage

/-- A page without its bytes: how many are free, and what is in each slot. -/
@[ext] structure Sheet where
  free : Nat
  entries : List Entry

namespace Sheet

def empty (free : Nat) : Sheet := ⟨free, []⟩

def insert (sheet : Sheet) (data : List UInt8) : Option Nat × Sheet :=
  if data.length + 4 ≤ sheet.free then
    (some sheet.entries.length,
      ⟨sheet.free - (data.length + 4), sheet.entries ++ [Entry.ofBytes data]⟩)
  else (none, sheet)

def get (sheet : Sheet) (slotId : Nat) : Option (List UInt8) :=
  (sheet.entries[slotId]?).bind Entry.bytes

/-- The length that `Slot` has of an entry. -/
def entryLength (entry : Entry) : Nat := (entry.bytes.getD []).length

/-- A record that is no longer than the old one takes its place; a longer one takes new space. -/
def update (sheet : Sheet) (slotId : Nat) (newData : List UInt8) : Bool × Sheet :=
  match sheet.entries[slotId]? with
  | none => (false, sheet)
  | some entry =>
      if newData.length ≤ entryLength entry then
        (true, ⟨sheet.free, sheet.entries.set slotId (Entry.ofBytes newData)⟩)
      else if newData.length ≤ sheet.free then
        (true, ⟨sheet.free - newData.length, sheet.entries.set slotId (Entry.ofBytes newData)⟩)
      else (false, sheet)

def delete (sheet : Sheet) (slotId : Nat) : Bool × Sheet :=
  if slotId < sheet.entries.length then
    (true, ⟨sheet.free, sheet.entries.set slotId none⟩)
  else (false, sheet)

end Sheet

def sheet (page : Page) (base : Nat) : Sheet := ⟨freeSpace page base, entries page base⟩

@[simp] theorem sheet_free (page : Page) (base : Nat) :
    (sheet page base).free = freeSpace page base := rfl

@[simp] theorem sheet_entries (page : Page) (base : Nat) :
    (sheet page base).entries = entries page base := rfl

variable {page page' : Page} {base slotId : Nat} {data : List UInt8}

theorem sheet_get (page : Page) (base slotId : Nat) :
    (sheet page base).get slotId = record page base slotId :=
  (record_entries page base slotId).symm

theorem Appended.sheet (appended : Appended page page' base data) (layout : Layout page base)
    (fits : data.length + 4 ≤ SlottedPage.freeSpace page base) :
    (SlottedPage.sheet page base).insert data =
      (some (numSlots page base), SlottedPage.sheet page' base) := by
  rw [Sheet.insert, sheet_free, if_pos fits, sheet_entries, entries_length,
    SlottedPage.sheet, appended.freeSpace layout fits, appended.entries layout]

theorem sheet_insert_full (full : freeSpace page base < data.length + 4) :
    (sheet page base).insert data = (none, sheet page base) := by
  rw [Sheet.insert, sheet_free, if_neg (Nat.not_le.mpr full)]

theorem visible_length (data : List UInt8) : ((visible data).getD []).length = data.length := by
  unfold visible
  split
  · rename_i empty
    rw [empty]
    rfl
  · rfl

theorem entryLength_eq (inside : slotId < numSlots page base) :
    Sheet.entryLength (entry page base slotId) = slotLength page base slotId := by
  rw [Sheet.entryLength, entry_bytes, record_eq page base slotId inside, visible_length,
    Region.read_length]

/-- How much of the free space an edit of one slot has taken. -/
theorem Rewritten.sheet (rewritten : Rewritten page page' base slotId data) {taken : Nat}
    (layout : Layout page base)
    (free : freeSpaceOffset page' base = freeSpaceOffset page base - taken) :
    SlottedPage.sheet page' base = ⟨SlottedPage.freeSpace page base - taken,
      (SlottedPage.entries page base).set slotId (Entry.ofBytes data)⟩ := by
  have free' : SlottedPage.freeSpace page' base = SlottedPage.freeSpace page base - taken := by
    rw [freeSpace_eq page base layout, freeSpace_eq page' base rewritten.layout, free,
      directoryEnd, rewritten.numSlots_eq, directoryEnd]
    omega
  rw [SlottedPage.sheet, free', rewritten.entries]

theorem overwrite_sheet (layout : Layout page base) (inside : slotId < numSlots page base)
    (shorter : data.length ≤ slotLength page base slotId) :
    sheet (overwrite page base slotId data) base =
      ⟨freeSpace page base, (entries page base).set slotId (Entry.ofBytes data)⟩ := by
  have rewritten := overwrite_rewritten page base slotId data layout inside shorter
  have free := overwrite_freeSpaceOffset page base slotId data layout inside
  rw [← Nat.sub_zero (freeSpaceOffset page base)] at free
  rw [rewritten.sheet layout free, Nat.sub_zero]

theorem sheet_update (page : Page) (base slotId : Nat) (data : List UInt8)
    (layout : Layout page base) :
    (sheet page base).update slotId data =
      ((update page base slotId data).1, sheet (update page base slotId data).2 base) := by
  by_cases outside : numSlots page base ≤ slotId
  · have missing : (sheet page base).entries[slotId]? = none := by
      rw [sheet_entries, List.getElem?_eq_none_iff, entries_length]
      exact outside
    have refused : update page base slotId data = (false, page) := by
      simp only [update, outside, ↓reduceIte]
    rw [refused, Sheet.update, missing]
  · have inside : slotId < numSlots page base := by omega
    have present : (sheet page base).entries[slotId]? = some (entry page base slotId) := by
      rw [sheet_entries, entries_getElem? inside]
    rw [Sheet.update, present]
    simp only [entryLength_eq inside, sheet_free, sheet_entries]
    by_cases shorter : data.length ≤ slotLength page base slotId
    · have done : update page base slotId data = (true, overwrite page base slotId data) := by
        simp only [update, outside, shorter, ↓reduceIte, overwrite]
      rw [done, if_pos shorter, overwrite_sheet layout inside shorter]
    · by_cases full : freeSpace page base < data.length
      · have refused : update page base slotId data = (false, page) := by
          simp only [update, outside, shorter, full, ↓reduceIte]
        rw [refused]
        simp only [shorter, Nat.not_le.mpr full, ↓reduceIte]
      · have room : data.length ≤ freeSpace page base := by omega
        have done : update page base slotId data = (true, relocate page base slotId data) := by
          simp only [update, outside, shorter, full, ↓reduceIte, relocate]
        rw [done, (relocate_rewritten page base slotId data layout inside room).sheet layout
          (relocate_freeSpaceOffset page base slotId data layout inside room)]
        simp only [shorter, room, ↓reduceIte]

theorem sheet_delete (page : Page) (base slotId : Nat) (layout : Layout page base) :
    (sheet page base).delete slotId =
      ((delete page base slotId).1, sheet (delete page base slotId).2 base) := by
  rw [Sheet.delete, sheet_entries, entries_length, sheet_free]
  by_cases outside : numSlots page base ≤ slotId
  · have refused : delete page base slotId = (false, page) := by
      simp only [delete, outside, ↓reduceIte]
    rw [refused, if_neg (Nat.not_lt.mpr outside)]
  · have inside : slotId < numSlots page base := by omega
    have done : delete page base slotId = (true, overwrite page base slotId []) := by
      simp only [delete, outside, ↓reduceIte, overwrite, Region.write_nil, List.length_nil]
    have nothing : Entry.ofBytes [] = none := rfl
    rw [done, if_pos inside, overwrite_sheet layout inside (Nat.zero_le _), nothing]

end RelationalDb.SlottedPage
