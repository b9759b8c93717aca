import RelationalDb.Config

set_option autoImplicit false

namespace RelationalDb

/-- `IDiskManager`. `readPage` is given the buffer it reads into, since a read
need not fill it. -/
class IDiskManager (D : Type) where
  readPage : D → Int → Page → Page
  writePage : D → Int → Page → D
  allocatePage : D → Int × D
  deallocatePage : D → Int → D

export IDiskManager (readPage writePage allocatePage deallocatePage)

/-- A disk that gives back what was last written. `stored` is the content of the
pages the disk can read in full; a write may bring more pages into being. -/
class LawfulDisk (D : Type) [IDiskManager D] where
  stored : D → Int → Option Page
  readPage_of_stored : ∀ (disk : D) (pageId : Int) (buffer page : Page), 0 ≤ pageId →
    stored disk pageId = some page → readPage disk pageId buffer = page
  stored_writePage : ∀ (disk : D) (pageId : Int) (page : Page), 0 ≤ pageId →
    stored (writePage disk pageId page) pageId = some page
  stored_writePage_other : ∀ (disk : D) (pageId other : Int) (page kept : Page), 0 ≤ pageId →
    other ≠ pageId → stored disk other = some kept →
    stored (writePage disk pageId page) other = some kept

export LawfulDisk (stored readPage_of_stored stored_writePage stored_writePage_other)

/-- The database file: `size` bytes. -/
structure File where
  size : Nat
  byte : Nat → UInt8

def File.empty : File := ⟨0, fun _ => 0⟩

structure DiskManager where
  dbIo : File
  freeList : List Int
  nextPageId : Int

namespace DiskManager

/-- `GetNumPages`. -/
def getNumPages (file : File) : Int := toInt32 (file.size / pageSize : Nat)

def openFile (file : File) : DiskManager :=
  { dbIo := file, freeList := [], nextPageId := getNumPages file }

/-- `ReadPage`. Bytes past the end of the file are not stored, and a negative id
is an offset the stream does not seek to: the buffer keeps what it held. -/
def readPage (disk : DiskManager) (pageId : Int) (buffer : Page) : Page := fun index =>
  if 0 ≤ pageId ∧ pageId.toNat * pageSize + index.val < disk.dbIo.size then
    disk.dbIo.byte (pageId.toNat * pageSize + index.val)
  else buffer index

/-- `WritePage`. A write past the end fills the gap with zeros. -/
def writePage (disk : DiskManager) (pageId : Int) (page : Page) : DiskManager :=
  if 0 ≤ pageId then
    let offset := pageId.toNat * pageSize
    { disk with dbIo :=
      { size := max disk.dbIo.size (offset + pageSize)
        byte := fun index =>
          if offset ≤ index ∧ index < offset + pageSize then page.get (index - offset)
          else if index < disk.dbIo.size then disk.dbIo.byte index
          else 0 } }
  else disk

/-- `AllocatePage`. -/
def allocatePage (disk : DiskManager) : Int × DiskManager :=
  match disk.freeList.getLast? with
  | some pageId => (pageId, { disk with freeList := disk.freeList.dropLast })
  | none => (disk.nextPageId, { disk with nextPageId := toInt32 (disk.nextPageId + 1) })

/-- `DeallocatePage`. -/
def deallocatePage (disk : DiskManager) (pageId : Int) : DiskManager :=
  { disk with freeList := disk.freeList ++ [pageId] }

instance : IDiskManager DiskManager := ⟨readPage, writePage, allocatePage, deallocatePage⟩

/-- The pages that lie in the file as a whole. -/
def storedPage (disk : DiskManager) (pageId : Int) : Option Page :=
  if 0 ≤ pageId ∧ (pageId.toNat + 1) * pageSize ≤ disk.dbIo.size then
    some fun index => disk.dbIo.byte (pageId.toNat * pageSize + index.val)
  else none

theorem writePage_size (disk : DiskManager) (pageId : Int) (page : Page) (valid : 0 ≤ pageId) :
    (disk.writePage pageId page).dbIo.size =
      max disk.dbIo.size ((pageId.toNat + 1) * pageSize) := by
  simp only [writePage, valid, ↓reduceIte, Nat.add_mul, Nat.one_mul]

@[simp] theorem writePage_nextPageId (disk : DiskManager) (pageId : Int) (page : Page) :
    (disk.writePage pageId page).nextPageId = disk.nextPageId := by
  unfold writePage
  split <;> rfl

@[simp] theorem writePage_freeList (disk : DiskManager) (pageId : Int) (page : Page) :
    (disk.writePage pageId page).freeList = disk.freeList := by
  unfold writePage
  split <;> rfl

instance : LawfulDisk DiskManager where
  stored := storedPage
  readPage_of_stored := by
    intro disk pageId buffer page valid present
    unfold storedPage at present
    split at present
    · rename_i inside
      cases present
      funext index
      have bound := index.isLt
      have position : pageId.toNat * pageSize + index.val < disk.dbIo.size := by
        have whole := inside.2
        rw [Nat.add_mul, Nat.one_mul] at whole
        omega
      simp only [RelationalDb.readPage, readPage, valid, position, and_self, ↓reduceIte]
    · cases present
  stored_writePage := by
    intro disk pageId page valid
    have size := writePage_size disk pageId page valid
    have fits : (pageId.toNat + 1) * pageSize ≤ (disk.writePage pageId page).dbIo.size := by
      rw [size]
      exact Nat.le_max_right _ _
    simp only [storedPage, RelationalDb.writePage, valid, fits, and_self, ↓reduceIte,
      Option.some.injEq]
    funext index
    have bound := index.isLt
    have inside : pageId.toNat * pageSize ≤ pageId.toNat * pageSize + index.val ∧
        pageId.toNat * pageSize + index.val < pageId.toNat * pageSize + pageSize := by omega
    simp only [writePage, valid, ↓reduceIte, inside, and_self, Nat.add_sub_cancel_left,
      Region.get, bound, ↓reduceDIte]
  stored_writePage_other := by
    intro disk pageId other page kept valid different present
    unfold storedPage at present
    split at present
    · rename_i inside
      cases present
      have size := writePage_size disk pageId page valid
      have fits : (other.toNat + 1) * pageSize ≤ (disk.writePage pageId page).dbIo.size := by
        rw [size]
        exact Nat.le_trans inside.2 (Nat.le_max_left _ _)
      simp only [storedPage, RelationalDb.writePage, inside.1, fits, and_self, ↓reduceIte,
        Option.some.injEq]
      funext index
      have bound := index.isLt
      have whole := inside.2
      have apart : pageId.toNat + 1 ≤ other.toNat ∨ other.toNat + 1 ≤ pageId.toNat := by omega
      have pages : (pageId.toNat + 1) * pageSize ≤ other.toNat * pageSize ∨
          (other.toNat + 1) * pageSize ≤ pageId.toNat * pageSize := by
        cases apart with
        | inl below => exact Or.inl (Nat.mul_le_mul_right _ below)
        | inr above => exact Or.inr (Nat.mul_le_mul_right _ above)
      rw [Nat.add_mul, Nat.one_mul] at whole pages
      rw [Nat.add_mul, Nat.one_mul] at pages
      have outside : ¬ (pageId.toNat * pageSize ≤ other.toNat * pageSize + index.val ∧
          other.toNat * pageSize + index.val < pageId.toNat * pageSize + pageSize) := by omega
      have old : other.toNat * pageSize + index.val < disk.dbIo.size := by omega
      simp only [writePage, valid, ↓reduceIte, outside, old]
    · cases present

theorem stored_eq (disk : DiskManager) (pageId : Int) :
    stored disk pageId = storedPage disk pageId := rfl

end DiskManager

/-- The test suite's disk: every page that was never written reads as zeros. -/
structure MockDiskManager where
  store : Int → Page
  next : Int

namespace MockDiskManager

instance : IDiskManager MockDiskManager where
  readPage disk pageId _ := disk.store pageId
  writePage disk pageId page :=
    { disk with store := fun other => if other = pageId then page else disk.store other }
  allocatePage disk := (disk.next, { disk with next := toInt32 (disk.next + 1) })
  deallocatePage disk _ := disk

instance : LawfulDisk MockDiskManager where
  stored disk pageId := some (disk.store pageId)
  readPage_of_stored := by
    intro disk pageId buffer page _ present
    exact Option.some.inj present
  stored_writePage := by
    intro disk pageId page _
    simp only [writePage, ↓reduceIte]
  stored_writePage_other := by
    intro disk pageId other page kept _ different present
    simpa only [writePage, different, ↓reduceIte] using present

def empty : MockDiskManager := ⟨fun _ _ => 0, 0⟩

end MockDiskManager

end RelationalDb
