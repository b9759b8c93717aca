import Mathlib.Data.List.Nodup
import RelationalDb.Storage.DiskRuns

set_option autoImplicit false

namespace RelationalDb

def idsBelow (bound : Nat) : List Int := (List.range bound).map Int.ofNat

@[simp] theorem length_idsBelow (bound : Nat) : (idsBelow bound).length = bound := by
  simp only [idsBelow, List.length_map, List.length_range]

theorem idsBelow_succ (bound : Nat) : idsBelow (bound + 1) = idsBelow bound ++ [(bound : Int)] := by
  simp only [idsBelow, List.range_succ, List.map_append, List.map_cons, List.map_nil,
    Int.ofNat_eq_natCast]

theorem nodup_idsBelow (bound : Nat) : (idsBelow bound).Nodup := by
  apply List.Nodup.map _ List.nodup_range
  intro first second same
  exact Int.ofNat.inj same

theorem mem_idsBelow {bound : Nat} {pageId : Int} :
    pageId ∈ idsBelow bound ↔ 0 ≤ pageId ∧ pageId < bound := by
  simp only [idsBelow, List.mem_map, List.mem_range]
  constructor
  · rintro ⟨index, below, rfl⟩
    exact ⟨Int.natCast_nonneg _, Int.ofNat_lt.mpr below⟩
  · rintro ⟨lower, upper⟩
    exact ⟨pageId.toNat, by omega, Int.toNat_of_nonneg lower⟩

/-- What one call does to the page ids in use. -/
def DiskEvent.uses (event : DiskEvent) (used : List Int) : List Int :=
  match event.op with
  | .allocatePage => event.allocated.toList ++ used
  | .deallocatePage pageId => used.erase pageId
  | .writePage _ _ => used

/-- The page ids in use: those of the file, and those that were returned and not
given back since. -/
def usedIds (pages : Nat) : List DiskEvent → List Int
  | [] => idsBelow pages
  | event :: log => event.uses (usedIds pages log)

/-- The most page ids that were ever in use. -/
def mostUsed (pages : Nat) : List DiskEvent → Nat
  | [] => pages
  | event :: log => max (usedIds pages (event :: log)).length (mostUsed pages log)

/-- Only page ids in use are given back, and the page ids do not wrap round. -/
def ownStep (pages : Nat) (log : List DiskEvent) (disk : DiskManager) (event : DiskEvent)
    (disk' : DiskManager) : Prop :=
  event.op.run disk = (event.allocated, disk') ∧
    (∀ pageId, event.op = .deallocatePage pageId → pageId ∈ usedIds pages log) ∧
    0 ≤ disk'.nextPageId

abbrev OwnRun (file : File) : List DiskEvent → DiskManager → Prop :=
  Run (ownStep (file.size / pageSize)) (DiskManager.openFile file)

namespace DiskManager

/-- The pages in use and the free ones are the pages below `next_page_id`, which
is as large as the most pages that were in use. -/
structure Shared (pages : Nat) (log : List DiskEvent) (disk : DiskManager) : Prop where
  lower : 0 ≤ disk.nextPageId
  upper : disk.nextPageId < 2 ^ 31
  split : (usedIds pages log ++ disk.freeList).Perm (idsBelow disk.nextPageId.toNat)
  most : disk.nextPageId.toNat = mostUsed pages log

variable {pages : Nat} {log : List DiskEvent} {disk disk' : DiskManager} {pageId : Int}

theorem Shared.count (shared : Shared pages log disk) :
    (usedIds pages log).length + disk.freeList.length = disk.nextPageId.toNat := by
  have same := shared.split.length_eq
  rwa [List.length_append, length_idsBelow] at same

theorem Shared.nodup (shared : Shared pages log disk) :
    (usedIds pages log ++ disk.freeList).Nodup :=
  shared.split.nodup_iff.mpr (nodup_idsBelow _)

theorem Shared.mem_iff (shared : Shared pages log disk) :
    pageId ∈ usedIds pages log ∨ pageId ∈ disk.freeList ↔
      0 ≤ pageId ∧ pageId < disk.nextPageId := by
  have lower := shared.lower
  rw [← List.mem_append, shared.split.mem_iff, mem_idsBelow]
  omega

/-- A free page goes to the client: the pages below `next_page_id` stay the same. -/
theorem Shared.reuse (shared : Shared pages log disk)
    (last : disk.freeList.getLast? = some pageId) :
    Shared pages (⟨.allocatePage, some pageId⟩ :: log)
      { disk with freeList := disk.freeList.dropLast } := by
  have whole := List.dropLast_append_getLast? pageId last
  have count := shared.count
  have most := shared.most
  have nonempty := congrArg List.length whole
  simp only [List.length_append, List.length_cons, List.length_nil] at nonempty
  refine ⟨shared.lower, shared.upper, ?_, ?_⟩
  · have moved : (pageId :: (usedIds pages log ++ disk.freeList.dropLast)).Perm
        (usedIds pages log ++ disk.freeList) := by
      rw [← whole, List.dropLast_concat, ← List.append_assoc]
      exact (List.perm_append_singleton _ _).symm
    exact moved.trans shared.split
  · simp only [mostUsed, usedIds, DiskEvent.uses, Option.toList_some, List.length_append,
      List.length_cons, List.length_nil]
    omega

theorem Shared.extend (shared : Shared pages log disk) (none : disk.freeList = [])
    (room : disk.nextPageId + 1 < 2 ^ 31) :
    Shared pages (⟨.allocatePage, some disk.nextPageId⟩ :: log)
      { disk with nextPageId := disk.nextPageId + 1 } := by
  have lower := shared.lower
  have count := shared.count
  have most := shared.most
  have split := shared.split
  have next : (disk.nextPageId + 1).toNat = disk.nextPageId.toNat + 1 := by omega
  rw [none, List.append_nil] at split
  rw [none, List.length_nil] at count
  refine ⟨Int.add_nonneg lower (by decide), room, ?_, ?_⟩
  · simp only [usedIds, DiskEvent.uses, Option.toList_some, none, List.append_nil, next,
      idsBelow_succ, Int.toNat_of_nonneg lower, List.singleton_append]
    exact (split.cons _).trans (List.perm_append_singleton _ _).symm
  · simp only [mostUsed, usedIds, DiskEvent.uses, Option.toList_some, List.length_append,
      List.length_cons, List.length_nil, next]
    omega

theorem Shared.giveBack (shared : Shared pages log disk) (own : pageId ∈ usedIds pages log) :
    Shared pages (⟨.deallocatePage pageId, none⟩ :: log) (disk.deallocatePage pageId) := by
  have count := shared.count
  have most := shared.most
  refine ⟨shared.lower, shared.upper, ?_, ?_⟩
  · have moved : ((usedIds pages log).erase pageId ++ (disk.freeList ++ [pageId])).Perm
        (usedIds pages log ++ disk.freeList) := by
      rw [← List.append_assoc]
      refine (List.perm_append_singleton _ _).trans ?_
      exact (List.perm_cons_erase own).symm.append_right _
    exact moved.trans shared.split
  · have shrunk : ((usedIds pages log).erase pageId).length ≤ (usedIds pages log).length :=
      List.length_erase_le
    simp only [mostUsed, usedIds, DiskEvent.uses, deallocatePage]
    omega

theorem Shared.write (shared : Shared pages log disk) (page : Page) :
    Shared pages (⟨.writePage pageId page, none⟩ :: log) (disk.writePage pageId page) := by
  have count := shared.count
  have most := shared.most
  refine ⟨?_, ?_, ?_, ?_⟩
  · rw [writePage_nextPageId]
    exact shared.lower
  · rw [writePage_nextPageId]
    exact shared.upper
  · rw [writePage_nextPageId, writePage_freeList]
    exact shared.split
  · simp only [writePage_nextPageId, mostUsed, usedIds, DiskEvent.uses]
    omega

theorem Shared.step (shared : Shared pages log disk) {event : DiskEvent}
    (taken : ownStep pages log disk event disk') : Shared pages (event :: log) disk' := by
  obtain ⟨op, allocated⟩ := event
  obtain ⟨ran, own, unwrapped⟩ := taken
  cases op with
  | allocatePage =>
      simp only [DiskOp.run, allocatePage] at ran
      cases last : disk.freeList.getLast? with
      | some pageId =>
          rw [last] at ran
          cases ran
          exact shared.reuse last
      | none =>
          rw [last] at ran
          have lower := shared.lower
          have upper := shared.upper
          cases ran
          have room : disk.nextPageId + 1 < 2 ^ 31 := by
            simp only [toInt32] at unwrapped
            omega
          have next : toInt32 (disk.nextPageId + 1) = disk.nextPageId + 1 :=
            toInt32_of_bounds (by omega) room
          rw [next]
          exact shared.extend (List.getLast?_eq_none_iff.mp last) room
  | deallocatePage pageId =>
      cases ran
      exact shared.giveBack (own pageId rfl)
  | writePage pageId page =>
      cases ran
      exact shared.write page

theorem shared_all {file : File} (small : file.size / pageSize < 2 ^ 31)
    (run : OwnRun file log disk) : Shared (file.size / pageSize) log disk := by
  have next : (openFile file).nextPageId = (file.size / pageSize : Nat) :=
    toInt32_of_bounds (Int.le_trans (by decide) (Int.natCast_nonneg _)) (Int.ofNat_lt.mpr small)
  apply run.invariant (Shared (file.size / pageSize))
  · refine ⟨?_, ?_, ?_, ?_⟩
    · rw [next]
      exact Int.natCast_nonneg _
    · rw [next]
      exact Int.ofNat_lt.mpr small
    · rw [next, Int.toNat_natCast]
      simp only [usedIds, openFile, List.append_nil]
      exact List.Perm.refl _
    · rw [next, Int.toNat_natCast]
      rfl
  · exact fun _ _ _ _ _ shared taken => shared.step taken

/-- The page ids below `next_page_id` are split between the client and the free
list; none is lost and none is given out twice. A new one is only made when
there were never so many in use before. -/
theorem pageIds_split {file : File} (small : file.size / pageSize < 2 ^ 31)
    (run : OwnRun file log disk) :
    (usedIds (file.size / pageSize) log ++ disk.freeList).Nodup ∧
      (∀ pageId, pageId ∈ usedIds (file.size / pageSize) log ∨ pageId ∈ disk.freeList ↔
        0 ≤ pageId ∧ pageId < disk.nextPageId) ∧
      disk.nextPageId = mostUsed (file.size / pageSize) log ∧
      disk.allocatePage.1 ∉ usedIds (file.size / pageSize) log := by
  have shared := shared_all small run
  have lower := shared.lower
  have most := shared.most
  refine ⟨shared.nodup, fun _ => shared.mem_iff, by omega, ?_⟩
  intro member
  unfold allocatePage at member
  cases last : disk.freeList.getLast? with
  | some pageId =>
      rw [last] at member
      have apart := (List.nodup_append.mp shared.nodup).2.2
      exact apart _ member _ (List.mem_of_getLast? last) rfl
  | none =>
      rw [last] at member
      exact absurd (shared.mem_iff.mp (Or.inl member)).2 (Int.lt_irrefl _)

/-- Two pages are asked for, the first is given back and a page is asked for again. -/
def reusedLog : List DiskEvent :=
  [⟨.allocatePage, some 0⟩, ⟨.deallocatePage 0, none⟩, ⟨.allocatePage, some 1⟩,
    ⟨.allocatePage, some 0⟩]

theorem reusedLog_run : OwnRun .empty reusedLog ⟨.empty, [], 2⟩ := by
  have start : openFile .empty = ⟨.empty, [], 0⟩ := by
    simp only [openFile, getNumPages, File.empty, Nat.zero_div]
    rfl
  have first : OwnRun .empty [⟨.allocatePage, some 0⟩] ⟨.empty, [], 1⟩ := by
    apply Run.nil.cons
    rw [start]
    exact ⟨rfl, (by simp), by decide⟩
  have second : OwnRun .empty [⟨.allocatePage, some 1⟩, ⟨.allocatePage, some 0⟩]
      ⟨.empty, [], 2⟩ := first.cons ⟨rfl, (by simp), by decide⟩
  have third : OwnRun .empty
      [⟨.deallocatePage 0, none⟩, ⟨.allocatePage, some 1⟩, ⟨.allocatePage, some 0⟩]
      ⟨.empty, [0], 2⟩ := by
    apply second.cons
    refine ⟨rfl, ?_, by decide⟩
    intro pageId given
    cases given
    simp [usedIds, DiskEvent.uses]
  exact third.cons ⟨rfl, (by simp), by decide⟩

theorem pageIds_split_reused :
    (usedIds 0 reusedLog ++ []).Nodup ∧
      (∀ pageId, pageId ∈ usedIds 0 reusedLog ∨ pageId ∈ ([] : List Int) ↔
        0 ≤ pageId ∧ pageId < 2) ∧
      (2 : Int) = mostUsed 0 reusedLog ∧ (2 : Int) ∉ usedIds 0 reusedLog :=
  pageIds_split (by decide) reusedLog_run

end DiskManager

end RelationalDb
