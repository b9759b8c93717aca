import RelationalDb.Access.HeapCalls
import RelationalDb.Storage.PoolCalls

set_option autoImplicit false

namespace RelationalDb

open HeapFile (headerSize nextPageId)
open SlottedPage (Layout)
open Program (Ensures Ends)

/-- The pages of heaps and the page each leads to. -/
structure Links where
  owned : Int → Prop
  next : Int → Int
  pages : Int
  given : ∀ pageId, owned pageId → 0 ≤ pageId ∧ pageId < pages
  room : pages < 2 ^ 31

namespace Links

/-- A heap page that leads nowhere yet or where it should. -/
structure Fits (links : Links) (pageId : Int) (page : Page) : Prop where
  owned : links.owned pageId
  layout : Layout page headerSize
  link : nextPageId page = invalidPageId ∨ nextPageId page = links.next pageId

end Links

/-- Pages are added, and last pages are linked. -/
structure Links.Grows (links links' : Links) : Prop where
  owned : ∀ pageId, links.owned pageId → links'.owned pageId
  new : ∀ pageId, links'.owned pageId → links.owned pageId ∨ links.pages ≤ pageId
  next : ∀ pageId, links.owned pageId →
    links.next pageId = invalidPageId ∨ links.next pageId = links'.next pageId
  pages : links.pages ≤ links'.pages

/-- The heap pages in a file are initialised and lead to pages in the file. -/
structure InFile (links : Links) (file : File) : Prop where
  upper : DiskManager.getNumPages file ≤ links.pages
  bounded : file.size / pageSize < 2 ^ 31
  page : ∀ pageId, links.owned pageId → pageId < DiskManager.getNumPages file →
    ∃ page, stored (DiskManager.openFile file) pageId = some page ∧ links.Fits pageId page ∧
      nextPageId page < DiskManager.getNumPages file

variable {N : Nat}

/-- A write-back that leaves no gap in the file and no link to a page that is not in it.
`INVALID_PAGE_ID` is below every page of the file. -/
def InOrder (moment : Moment (poolCalls N)) : Prop :=
  ∀ frame, moment.call = .flush frame →
    (moment.before.pool frame).pageId ≤ DiskManager.getNumPages moment.before.disk.dbIo ∧
      nextPageId (moment.before.pool frame).data < DiskManager.getNumPages moment.before.disk.dbIo

/-- The file is as it should be, and so is what the frames may still write. -/
structure Orderly (links : Links) (bm : BufferManager N DiskManager) : Prop where
  inFile : InFile links bm.disk.dbIo
  dirty : ∀ frame, (bm.pool frame).dirty = true →
    links.Fits (bm.pool frame).pageId (bm.pool frame).data

/-- Every moment of the program has the file as it should be, as long as the write-backs
come in order. -/
abbrev Ordered {σ α : Type} {part : σ → BufferManager N DiskManager} {program : Program σ Error α}
    (links : Links) (pre : σ → Prop) (code : PoolCode part program)
    (post : Except Error α → σ → Prop) : Prop :=
  Ensures InOrder (fun moment : Moment (poolCalls N) => InFile links moment.before.disk.dbIo)
    pre code post

namespace Links.Grows

variable {first second third : Links}

theorem refl (links : Links) : links.Grows links :=
  ⟨fun _ owned => owned, fun _ owned => Or.inl owned, fun _ _ => Or.inr rfl, Int.le_refl _⟩

theorem trans (before : first.Grows second) (after : second.Grows third) : first.Grows third := by
  have pages := before.pages
  refine ⟨fun pageId owned => after.owned pageId (before.owned pageId owned), ?_, ?_,
    Int.le_trans pages after.pages⟩
  · intro pageId owned
    rcases after.new pageId owned with middle | new
    · exact before.new pageId middle
    · exact Or.inr (by omega)
  · intro pageId owned
    rcases before.next pageId owned with last | same
    · exact Or.inl last
    · rw [same]
      exact after.next pageId (before.owned pageId owned)

theorem fits (grows : first.Grows second) {pageId : Int} {page : Page}
    (fits : first.Fits pageId page) : second.Fits pageId page := by
  refine ⟨grows.owned pageId fits.owned, fits.layout, ?_⟩
  rcases fits.link with last | same
  · exact Or.inl last
  · rcases grows.next pageId fits.owned with last | leads
    · exact Or.inl (same.trans last)
    · exact Or.inr (same.trans leads)

/-- New pages are not in the file yet. -/
theorem inFile (grows : first.Grows second) {file : File} (inFile : InFile first file) :
    InFile second file := by
  have upper := inFile.upper
  refine ⟨Int.le_trans upper grows.pages, inFile.bounded, ?_⟩
  intro pageId owned below
  rcases grows.new pageId owned with old | new
  · obtain ⟨page, present, fits, linked⟩ := inFile.page pageId old below
    exact ⟨page, present, grows.fits fits, linked⟩
  · omega

theorem orderly (grows : first.Grows second) {bm : BufferManager N DiskManager}
    (orderly : Orderly first bm) : Orderly second bm :=
  ⟨grows.inFile orderly.inFile, fun frame dirty => grows.fits (orderly.dirty frame dirty)⟩

end Links.Grows

theorem getNumPages_eq {file : File} (bounded : file.size / pageSize < 2 ^ 31) :
    DiskManager.getNumPages file = (file.size / pageSize : Nat) :=
  toInt32_of_bounds (Int.le_trans (by decide) (Int.natCast_nonneg _)) (Int.ofNat_lt.mpr bounded)

theorem stored_openFile (disk : DiskManager) (pageId : Int) :
    stored (DiskManager.openFile disk.dbIo) pageId = stored disk pageId := rfl

variable {links : Links} {bm bm' : BufferManager N DiskManager}

theorem size_writePage {disk : DiskManager} {pageId : Int} (given : 0 ≤ pageId) (page : Page) :
    (writePage disk pageId page).dbIo.size / pageSize =
      max (disk.dbIo.size / pageSize) (pageId.toNat + 1) := by
  have size : (writePage disk pageId page).dbIo.size = _ :=
    DiskManager.writePage_size disk pageId page given
  have whole : (pageId.toNat + 1) * pageSize / pageSize = pageId.toNat + 1 :=
    Nat.mul_div_cancel _ (by decide)
  rw [size]
  rcases Nat.le_total disk.dbIo.size ((pageId.toNat + 1) * pageSize) with grows | stays
  · have below := Nat.div_le_div_right (c := pageSize) grows
    rw [whole] at below
    rw [Nat.max_eq_right grows, whole, Nat.max_eq_right below]
  · have above := Nat.div_le_div_right (c := pageSize) stays
    rw [whole] at above
    rw [Nat.max_eq_left stays, Nat.max_eq_left above]

theorem InFile.writePage {disk : DiskManager} (inFile : InFile links disk.dbIo) {pageId : Int}
    {page : Page} (fits : links.Fits pageId page)
    (next : pageId ≤ DiskManager.getNumPages disk.dbIo)
    (linked : nextPageId page < DiskManager.getNumPages disk.dbIo) :
    InFile links (RelationalDb.writePage disk pageId page).dbIo := by
  obtain ⟨given, inside⟩ := links.given pageId fits.owned
  have room := links.room
  have size := @size_writePage disk pageId given page
  have bounded := inFile.bounded
  have bounded' : (RelationalDb.writePage disk pageId page).dbIo.size / pageSize < 2 ^ 31 := by
    omega
  have old := getNumPages_eq bounded
  have new := getNumPages_eq bounded'
  have upper := inFile.upper
  refine ⟨by omega, bounded', ?_⟩
  intro other owned below
  rw [stored_openFile]
  by_cases same : other = pageId
  · subst same
    exact ⟨page, stored_writePage _ _ _ given, fits, by omega⟩
  · obtain ⟨kept, present, fitsOther, leads⟩ := inFile.page other owned (by omega)
    rw [stored_openFile] at present
    exact ⟨kept, stored_writePage_other _ _ _ _ _ given same present, fitsOther, by omega⟩

theorem Orderly.congr (orderly : Orderly links bm) (file : bm'.disk.dbIo = bm.disk.dbIo)
    (frames : ∀ frame, (bm'.pool frame).dirty = true → (bm.pool frame).dirty = true ∧
      (bm'.pool frame).pageId = (bm.pool frame).pageId ∧
      (bm'.pool frame).data = (bm.pool frame).data) : Orderly links bm' := by
  refine ⟨by rw [file]; exact orderly.inFile, ?_⟩
  intro frame dirty
  obtain ⟨old, name, data⟩ := frames frame dirty
  rw [name, data]
  exact orderly.dirty frame old

theorem Orderly.setFrame (orderly : Orderly links bm) (frame : Fin N) (change : Frame → Frame)
    (fits : (change (bm.pool frame)).dirty = true →
      links.Fits (change (bm.pool frame)).pageId (change (bm.pool frame)).data) :
    Orderly links (bm.setFrame frame change) := by
  refine ⟨orderly.inFile, ?_⟩
  intro other dirty
  rw [BufferManager.pool_setFrame] at dirty ⊢
  split
  · rename_i here
    rw [if_pos here] at dirty
    exact fits dirty
  · rename_i apart
    rw [if_neg apart] at dirty
    exact orderly.dirty other dirty

namespace PoolCall

/-- The calls that change what is or will be on the disk. -/
def stores : PoolCall N → Bool
  | markDirty _ => true
  | modifyData _ _ => true
  | flush _ => true
  | writePage _ _ => true
  | _ => false

/-- The other calls leave the file and the dirty frames alone. -/
theorem run_orderly {call : PoolCall N} (plain : call.stores = false) (orderly : Orderly links bm) :
    ∃ value bm', call.run.Returns bm value bm' ∧ Orderly links bm' := by
  cases call with
  | pin frame =>
      have kept := orderly.setFrame frame (fun f => { f with pinCount := toInt32 (f.pinCount + 1) })
        (orderly.dirty frame)
      exact ⟨⟨⟩, _, rfl, kept⟩
  | unpin frame =>
      have kept := orderly.setFrame frame (fun f => { f with pinCount := toInt32 (f.pinCount - 1) })
        (orderly.dirty frame)
      exact ⟨⟨⟩, _, rfl, kept⟩
  | markDirty frame => cases plain
  | modifyData frame change => cases plain
  | tellPolicy change => exact ⟨⟨⟩, _, rfl, orderly.inFile, orderly.dirty⟩
  | takeFree => exact ⟨_, _, rfl, orderly.inFile, orderly.dirty⟩
  | chooseVictim => exact ⟨_, _, rfl, orderly.inFile, orderly.dirty⟩
  | flush frame => cases plain
  | erase pageId => exact ⟨⟨⟩, _, rfl, orderly.inFile, orderly.dirty⟩
  | reset frame =>
      have kept := orderly.setFrame frame
        (fun f => { f with pageId := invalidPageId, dirty := false }) (fun dirty => by cases dirty)
      exact ⟨⟨⟩, _, rfl, kept⟩
  | read pageId frame =>
      have mapped : Orderly links (bm.mapPage pageId (some frame)) :=
        ⟨orderly.inFile, orderly.dirty⟩
      have kept := mapped.setFrame frame (fun f => { f with
        data := readPage bm.disk pageId (bm.pool frame).data, pageId := pageId, dirty := false })
        (fun dirty => by cases dirty)
      exact ⟨⟨⟩, _, rfl, kept⟩
  | allocatePage =>
      refine ⟨_, _, rfl, orderly.congr ?_ fun frame dirty => ⟨dirty, rfl, rfl⟩⟩
      show (DiskManager.allocatePage bm.disk).2.dbIo = bm.disk.dbIo
      unfold DiskManager.allocatePage
      split <;> rfl
  | writePage pageId page => cases plain

end PoolCall

/-- A program that keeps the file as it should be, however it ends. -/
def Stays {α : Type} {program : Heap N α} (links : Links) (code : PoolCode id program) : Prop :=
  Ordered links (fun bm => Orderly links bm) code fun _ bm => Orderly links bm

namespace Stays

variable {α β : Type}

theorem pure (value : α) : Stays links (.pure value : PoolCode (N := N) id _) :=
  Ensures.pure fun _ begins => begins

theorem throw (reason : Error) :
    Stays links (.throw reason : PoolCode (N := N) id (Program.throw reason : Heap N α)) :=
  Ensures.throw fun _ begins => begins

theorem look {next : BufferManager N DiskManager → Heap N α} {rest : ∀ bm, PoolCode id (next bm)}
    (stays : ∀ bm, Stays links (rest bm)) : Stays links (Program.Code.get.bind rest) :=
  Ensures.look fun bm => (stays bm).strengthen fun _ begins => begins.2

theorem bind {first : Heap N β} {next : β → Heap N α} {begin : PoolCode id first}
    {rest : ∀ value, PoolCode id (next value)} (begins : Stays links begin)
    (goesOn : ∀ value, Stays links (rest value)) : Stays links (begin.bind rest) :=
  Ensures.bind begins goesOn fun _ _ ends => ends

theorem branch {condition : Prop} [Decidable condition] {yes no : Heap N α}
    {taken : PoolCode id yes} {other : PoolCode id no} (holding : Stays links taken)
    (failing : Stays links other) :
    Stays links (.branch taken other : PoolCode id (if condition then yes else no)) :=
  Ensures.branch (fun _ => holding) fun _ => failing

theorem call (call : PoolCall N) (plain : call.stores = false) : Stays links call.code := by
  show Ordered links (fun bm => Orderly links bm) call.code fun _ bm => Orderly links bm
  refine Ensures.call (fun bm begins => begins.inFile) ?_
  intro bm outcome bm' begins _ ended
  obtain ⟨value, after, returned, orderly⟩ := PoolCall.run_orderly plain begins
  rw [show (poolCalls N).run call bm = some (.ok value, after) from returned] at ended
  cases ended
  exact orderly

end Stays

namespace BufferManager

/-- A dirty frame is written back in order. -/
theorem flush_ordered (frame : Fin N) :
    Ordered links (fun bm => (bm.pool frame).dirty = true ∧ Orderly links bm)
      (PoolCall.flush frame).code fun _ bm => Orderly links bm := by
  refine Ensures.call (fun bm begins => begins.2.inFile) ?_
  rintro bm outcome bm' ⟨dirty, orderly⟩ inOrder ended
  cases ended
  obtain ⟨next, linked⟩ := inOrder frame rfl
  have cleaned := orderly.setFrame frame (fun f => { f with dirty := false })
    (fun dirty => by cases dirty)
  exact ⟨orderly.inFile.writePage (orderly.dirty frame dirty) next linked, cleaned.dirty⟩

theorem readData_stays (frame : Fin N) : Stays links (readDataCode frame) :=
  .look fun _ => .pure _

theorem emptyFrame_stays (frame : Fin N) : Stays links (emptyFrameCode frame) :=
  (Stays.call (.reset frame) rfl).bind fun _ => .pure frame

theorem forgetPage_stays (frame : Fin N) : Stays links (forgetPageCode frame) :=
  .look fun bm => .branch
    ((Stays.call (.erase (bm.pool frame).pageId) rfl).bind fun _ => emptyFrame_stays frame)
    (emptyFrame_stays frame)

theorem evictFrame_stays (frame : Fin N) : Stays links (evictFrameCode frame) := by
  refine .look fun _ => .branch (.throw _) ?_
  refine Ensures.look fun bm => Ensures.branch (fun dirty => ?_) fun _ => ?_
  · have flushed : Ordered links (fun state => state = bm ∧ Orderly links state)
        (PoolCall.flush frame).code fun _ state => Orderly links state :=
      (flush_ordered frame).strengthen fun _ begins => ⟨by rw [begins.1]; exact dirty, begins.2⟩
    exact flushed.bind (fun _ => forgetPage_stays frame) fun _ _ ends => ends
  · exact (forgetPage_stays frame).strengthen fun _ begins => begins.2

theorem obtainFrame_stays : Stays links (obtainFrameCode (N := N)) := by
  refine (Stays.call .takeFree rfl).bind fun free => ?_
  cases free with
  | some frame => exact .pure frame
  | none =>
      refine (Stays.call .chooseVictim rfl).bind fun victim => ?_
      cases victim with
      | none => exact .throw _
      | some frame => exact evictFrame_stays frame

theorem request_stays (pageId : Int) : Stays links (requestCode (N := N) pageId) := by
  refine .look fun bm => ?_
  cases bm.pageTable pageId with
  | some frame =>
      refine (Stays.call (.pin frame) rfl).bind fun _ => ?_
      exact (Stays.call (.tellPolicy fun policy => policy.recordAccess frame) rfl).bind fun _ => .pure _
  | none =>
      refine obtainFrame_stays.bind fun frame => (Stays.call (.pin frame) rfl).bind fun _ => ?_
      refine (Stays.call (.read pageId frame) rfl).bind fun _ => ?_
      exact (Stays.call (.tellPolicy fun policy => policy.recordLoad frame) rfl).bind fun _ => .pure _

theorem release_stays (pageId : Int) : Stays links (releaseCode (N := N) pageId) := by
  refine .look fun bm => ?_
  cases bm.pageTable pageId with
  | none => exact .throw _
  | some frame =>
      refine .look fun bm => .branch (.throw _) ?_
      refine (Stays.call (.unpin frame) rfl).bind fun _ => .look fun bm => .branch ?_ (.pure _)
      exact Stays.call (.tellPolicy fun policy => policy.recordUnpin frame) rfl

end BufferManager

end RelationalDb
