import RelationalDb.Config

set_option autoImplicit false

namespace RelationalDb.SlottedPage

/-- `sizeof(Slot)`: two `uint16_t`, offset and length. -/
def slotSize : Nat := 4

/-- `sizeof(PageHeader)`: two `uint16_t`, `num_slots` and `free_space_offset`. -/
def pageHeaderSize : Nat := 4

/-- `GetNumSlots`. -/
def numSlots (page : Page) (base : Nat) : Nat := page.load base 2

def freeSpaceOffset (page : Page) (base : Nat) : Nat := page.load (base + 2) 2

/-- `GetSlot`: the address of a slot of the directory. -/
def slotAddress (base slotId : Nat) : Nat := base + pageHeaderSize + slotId * slotSize

def slotOffset (page : Page) (base slotId : Nat) : Nat := page.load (slotAddress base slotId) 2

def slotLength (page : Page) (base slotId : Nat) : Nat := page.load (slotAddress base slotId + 2) 2

/-- `FreeSpace`: a `size_t` subtraction. -/
def freeSpace (page : Page) (base : Nat) : Nat :=
  let slotDirEnd := base + pageHeaderSize + numSlots page base * slotSize
  (freeSpaceOffset page base + 2 ^ 64 - slotDirEnd) % 2 ^ 64

def init (page : Page) (base : Nat) : Page :=
  (page.store base 2 0).store (base + 2) 2 pageSize

/-- `header->free_space_offset -= len`, computed in `size_t` and truncated by the store. -/
def takeSpace (page : Page) (base length : Nat) : Page :=
  page.store (base + 2) 2 (freeSpaceOffset page base + 2 ^ 64 - length)

def insert (page : Page) (base : Nat) (data : List UInt8) : Option Nat × Page :=
  if freeSpace page base < (data.length + slotSize) % 2 ^ 64 then (none, page)
  else
    -- 1. write data to start_offset + len
    let page := takeSpace page base data.length
    let page := page.write (freeSpaceOffset page base) data
    -- 2. create new slot; its address is a uint16_t
    let address := slotAddress base (numSlots page base) % 2 ^ 16
    let page := page.write address
      (leBytes 2 (freeSpaceOffset page base) ++ leBytes 2 data.length)
    let slotId := numSlots page base
    (some slotId, page.store base 2 (slotId + 1))

/-- `Get`: where a record starts and how long it is. -/
def get (page : Page) (base slotId : Nat) : Option (Nat × Nat) :=
  if numSlots page base ≤ slotId then none
  else if slotLength page base slotId = 0 then none
  else some (slotOffset page base slotId, slotLength page base slotId)

def update (page : Page) (base slotId : Nat) (newData : List UInt8) : Bool × Page :=
  if numSlots page base ≤ slotId then (false, page)
  else if newData.length ≤ slotLength page base slotId then
    -- case 1: the old place is large enough
    let page := page.write (slotOffset page base slotId) newData
    (true, page.store (slotAddress base slotId + 2) 2 newData.length)
  else if freeSpace page base < newData.length then (false, page)
  else
    -- case 2: need to bring to new offset
    let page := takeSpace page base newData.length
    let page := page.store (slotAddress base slotId) 2 (freeSpaceOffset page base)
    let page := page.store (slotAddress base slotId + 2) 2 newData.length
    (true, page.write (freeSpaceOffset page base) newData)

/-- `Delete`: length 0 marks a deleted slot. -/
def delete (page : Page) (base slotId : Nat) : Bool × Page :=
  if numSlots page base ≤ slotId then (false, page)
  else (true, page.store (slotAddress base slotId + 2) 2 0)

end RelationalDb.SlottedPage
