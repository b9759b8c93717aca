import RelationalDb.Catalog.CatalogInit

set_option autoImplicit false

namespace RelationalDb

open HeapFile

namespace HeapState

variable {s : HeapState} {file : File}

def InFile (s : HeapState) (file : File) : Prop :=
  ∀ pageId page, s.view pageId = some page → stored (DiskManager.openFile file) pageId = some page

/-- The heaps on the pages of a file that was opened again. -/
def reopened (s : HeapState) (file : File) : HeapState :=
  { s with
    view := stored (DiskManager.openFile file)
    pages := (file.size / pageSize : Nat) }

/-- A stored page lies below the pages that the file is counted to have. -/
theorem stored_inside {pageId : Int} {page : Page}
    (present : stored (DiskManager.openFile file) pageId = some page) :
    pageId < (file.size / pageSize : Nat) := by
  rw [DiskManager.stored_eq, DiskManager.storedPage] at present
  split at present
  · rename_i within
    have whole : pageId.toNat + 1 ≤ file.size / pageSize :=
      (Nat.le_div_iff_mul_le (by decide)).mpr within.2
    omega
  · cases present

theorem InFile.chain_view (inFile : InFile s file) (sound : Sound s) {i : Nat} {pageId : Int}
    (member : pageId ∈ s.chain i) : (s.reopened file).view pageId = s.view pageId := by
  obtain ⟨_, _, page, present, _⟩ := sound.page member
  rw [present]
  exact inFile pageId page present

theorem InFile.sound (inFile : InFile s file) (sound : Sound s)
    (small : file.size / pageSize < 2 ^ 31) : Sound (s.reopened file) := by
  refine ⟨?_, sound.beyond, sound.nodup, sound.apart, ?_, Int.natCast_nonneg _, ?_⟩
  · intro i heap found
    exact (sound.linked i heap found).congr fun _ member => inFile.chain_view sound member
  · intro i pageId member
    obtain ⟨_, _, page, present, _⟩ := sound.page member
    exact stored_inside (inFile pageId page present)
  · exact Int.ofNat_lt.mpr small

theorem InFile.known (inFile : InFile s file) {i : Nat} {rid : Rid} (known : s.Known i rid) :
    (s.reopened file).Known i rid := by
  obtain ⟨member, page, present, inside⟩ := known
  exact ⟨member, page, inFile _ page present, inside⟩

theorem InFile.sameRows (inFile : InFile s file) (sound : Sound s) :
    SameRows s (s.reopened file) :=
  fun _ => bins_congr fun _ member => inFile.chain_view sound member

theorem InFile.catalogued (inFile : InFile s file) (sound : Sound s) {names : List (List UInt8)}
    {ids : List Uuid} (catalogued : Catalogued s names ids) :
    Catalogued (s.reopened file) names ids := by
  have header := inFile _ _ catalogued.header
  refine ⟨header, catalogued.headerFree, stored_inside header, catalogued.present, ?_, ?_⟩
  · intro bytes member
    rw [rows, inFile.sameRows sound] at member
    obtain ⟨row, same, fits, leads⟩ := catalogued.tables bytes member
    exact ⟨row, same, fits, leads.lower, leads.upper, leads.named, leads.known, leads.place⟩
  · intro bytes member
    rw [rows, inFile.sameRows sound] at member
    exact catalogued.columns bytes member

end HeapState

namespace Catalog

variable {N : Nat} {s : HeapState} {file : File}

theorem headerPage_magic : headerPage.load 0 4 = dbMagic :=
  Region.load_store_self (fun _ => 0) 0 4 dbMagic (by decide)

theorem isInitialised_reopened [NeZero N] (raw : Fin N → Page) (buf : Page) (heaps : List HeapFile)
    (header : stored (DiskManager.openFile file) rootPageId = some headerPage)
    (small : file.size / pageSize < 2 ^ 31) :
    (isInitialised buf).Returns (fresh raw file heaps) true (fresh raw file heaps) := by
  have positive : (0 : Int) < (file.size / pageSize : Nat) := HeapState.stored_inside header
  have pages : DiskManager.getNumPages file = (file.size / pageSize : Nat) :=
    toInt32_of_bounds (Int.le_trans (by decide) (Int.le_of_lt positive)) (Int.ofNat_lt.mpr small)
  have more : ¬ DiskManager.getNumPages (fresh raw file heaps).world.bm.disk.dbIo ≤ 0 := by
    show ¬ DiskManager.getNumPages file ≤ 0
    rw [pages]
    exact Int.not_le.mpr positive
  have page : DiskManager.readPage (fresh raw file heaps).world.bm.disk rootPageId buf = headerPage :=
    readPage_of_stored (DiskManager.openFile file) rootPageId buf headerPage (by decide) header
  apply (Program.get_returns _).bind
  simp only [more, ↓reduceIte, page, headerPage_magic, beq_self_eq_true]
  exact Program.pure_returns _ _

theorem init_opens [NeZero N] (raw : Fin N → Page) (buf : Page) (heaps : List HeapFile)
    (header : stored (DiskManager.openFile file) rootPageId = some headerPage)
    (small : file.size / pageSize < 2 ^ 31) :
    (init buf).Returns (fresh raw file heaps) ⟨⟩
      { fresh raw file heaps with relations := fun table => some table.heapFile } :=
  Program.Returns.bind (isInitialised_reopened raw buf heaps header small)
    (loadCatalogs_returns (fresh raw file heaps))

theorem init_reopened [NeZero N] (raw : Fin N → Page) (buf : Page) {heaps : List HeapFile}
    (sound : s.Sound) (inFile : s.InFile file) (same : s.heaps = systemHeaps ++ heaps)
    (header : s.view rootPageId = some headerPage) (small : file.size / pageSize < 2 ^ 31) :
    ∃ catalog', (init buf).Returns (fresh raw file heaps) ⟨⟩ catalog' ∧
      Holds catalog' (s.reopened file) ∧ catalog'.world.heaps = heaps ∧
      catalog'.world.bm.disk = DiskManager.openFile file := by
  have opened := (World.start_shows raw file small).steady
  exact ⟨_, init_opens raw buf heaps (inFile _ _ header) small,
    ⟨⟨opened, same.symm, inFile.sound sound small⟩, fun _ => rfl⟩, rfl, rfl⟩

/-- `Init` on a file that holds the pages of `db_tables` and `db_attributes` reads
their rows. -/
theorem init_reads [NeZero N] (raw : Fin N → Page) (buf : Page) (heaps : List HeapFile)
    (sound : s.Sound) (present : ∀ table : CatalogTable, s.heaps[table.index]? = some table.heapFile)
    (header : stored (DiskManager.openFile file) rootPageId = some headerPage)
    (inFile : ∀ table : CatalogTable, table ≠ .types → ∀ pageId ∈ s.chain table.index,
      stored (DiskManager.openFile file) pageId = s.view pageId)
    (small : file.size / pageSize < 2 ^ 31) :
    ∃ catalog' pages, (init buf).Returns (fresh raw file heaps) ⟨⟩ catalog' ∧
      Reads catalog' (stored (DiskManager.openFile file)) pages s.rows := by
  have opened := (World.start_shows raw file small).steady
  refine ⟨_, _, init_opens raw buf heaps header small, opened, fun _ => rfl, ?_⟩
  intro table followed
  refine ⟨s.chain table.index, ?_, ?_⟩
  · exact (sound.linked _ _ (present table)).congr (inFile table followed)
  · exact congrArg FirstFit.contents (HeapState.bins_congr (inFile table followed))

end Catalog

end RelationalDb
