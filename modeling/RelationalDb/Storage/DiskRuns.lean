import RelationalDb.Run
import RelationalDb.Storage.DiskManager

set_option autoImplicit false

namespace RelationalDb

/-- The calls that change a disk manager. -/
inductive DiskOp where
  | allocatePage
  | deallocatePage (pageId : Int)
  | writePage (pageId : Int) (page : Page)

/-- A call, and the page id it returned if it was `AllocatePage`. -/
structure DiskEvent where
  op : DiskOp
  allocated : Option Int

def DiskOp.run (disk : DiskManager) : DiskOp → Option Int × DiskManager
  | allocatePage =>
      let (pageId, disk) := disk.allocatePage
      (some pageId, disk)
  | deallocatePage pageId => (none, disk.deallocatePage pageId)
  | writePage pageId page => (none, disk.writePage pageId page)

/-- The page ids `AllocatePage` returned. -/
def allocatedIds (log : List DiskEvent) : List Int := log.filterMap DiskEvent.allocated

/-- Only page ids that were returned are given back, and the page ids do not wrap round. -/
def diskStep (log : List DiskEvent) (disk : DiskManager) (event : DiskEvent)
    (disk' : DiskManager) : Prop :=
  event.op.run disk = (event.allocated, disk') ∧
    (∀ pageId, event.op = .deallocatePage pageId → pageId ∈ allocatedIds log) ∧
    0 ≤ disk'.nextPageId

abbrev DiskRun (start : DiskManager) : List DiskEvent → DiskManager → Prop := Run diskStep start

namespace DiskManager

/-- No page below `pages` is free, nor was it returned. -/
structure Above (pages : Int) (log : List DiskEvent) (disk : DiskManager) : Prop where
  next : pages ≤ disk.nextPageId
  upper : disk.nextPageId < 2 ^ 31
  free : ∀ pageId ∈ disk.freeList, pages ≤ pageId
  returned : ∀ pageId ∈ allocatedIds log, pages ≤ pageId

variable {pages : Int} {log : List DiskEvent} {disk disk' : DiskManager}

theorem Above.allocatePage (above : Above pages log disk)
    (unwrapped : 0 ≤ disk.allocatePage.2.nextPageId) :
    Above pages (⟨.allocatePage, some disk.allocatePage.1⟩ :: log) disk.allocatePage.2 := by
  have next := above.next
  have upper := above.upper
  have given : pages ≤ disk.allocatePage.1 ∧ pages ≤ disk.allocatePage.2.nextPageId ∧
      disk.allocatePage.2.nextPageId < 2 ^ 31 ∧
      ∀ pageId ∈ disk.allocatePage.2.freeList, pages ≤ pageId := by
    unfold DiskManager.allocatePage at unwrapped ⊢
    cases last : disk.freeList.getLast? with
    | some pageId =>
        refine ⟨above.free pageId (List.mem_of_getLast? last), next, upper, ?_⟩
        intro other member
        exact above.free other (List.dropLast_subset _ member)
    | none =>
        rw [last] at unwrapped
        simp only [toInt32] at unwrapped ⊢
        exact ⟨next, by omega, by omega, above.free⟩
  obtain ⟨returned, next', upper', free'⟩ := given
  refine ⟨next', upper', free', ?_⟩
  intro pageId member
  rcases List.mem_cons.mp member with rfl | earlier
  · exact returned
  · exact above.returned pageId earlier

theorem Above.step (above : Above pages log disk) {event : DiskEvent}
    (taken : diskStep log disk event disk') : Above pages (event :: log) disk' := by
  obtain ⟨op, allocated⟩ := event
  obtain ⟨ran, own, unwrapped⟩ := taken
  cases op with
  | allocatePage =>
      cases ran
      exact above.allocatePage unwrapped
  | deallocatePage pageId =>
      cases ran
      refine ⟨above.next, above.upper, ?_, above.returned⟩
      intro other member
      rcases List.mem_append.mp member with old | new
      · exact above.free other old
      · rw [List.mem_singleton.mp new]
        exact above.returned pageId (own pageId rfl)
  | writePage pageId page =>
      cases ran
      refine ⟨?_, ?_, ?_, above.returned⟩
      · rw [writePage_nextPageId]
        exact above.next
      · rw [writePage_nextPageId]
        exact above.upper
      · rw [writePage_freeList]
        exact above.free

/-- A file that was just opened gives out no page id that lies in it. -/
theorem allocated_above {file : File} (small : file.size / pageSize < 2 ^ 31)
    (run : DiskRun (openFile file) log disk) :
    ∀ pageId ∈ allocatedIds log, ((file.size / pageSize : Nat) : Int) ≤ pageId := by
  have pages : getNumPages file = (file.size / pageSize : Nat) :=
    toInt32_of_bounds (Int.le_trans (by decide) (Int.natCast_nonneg _)) (Int.ofNat_lt.mpr small)
  have above : Above (file.size / pageSize : Nat) log disk := by
    apply run.invariant (Above (file.size / pageSize : Nat))
    · refine ⟨Int.le_of_eq pages.symm, ?_, ?_, ?_⟩
      · rw [show (openFile file).nextPageId = (file.size / pageSize : Nat) from pages]
        exact Int.ofNat_lt.mpr small
      · intro pageId member
        cases member
      · intro pageId member
        cases member
    · exact fun _ _ _ _ _ above taken => above.step taken
  exact above.returned

end DiskManager

end RelationalDb
