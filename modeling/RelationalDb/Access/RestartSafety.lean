import RelationalDb.Access.HeapFill
import RelationalDb.Access.HeapLinks
import RelationalDb.Storage.DiskRuns

set_option autoImplicit false

namespace RelationalDb

open HeapFile
open Program (Kept)

/-- The links from a first page that is in the file lead only to initialised pages of that heap
in the file, and a disk manager that opens the file gives out none of them. -/
def RestartSafe (s : HeapState) (file : File) : Prop :=
  ∀ i heap, s.heaps[i]? = some heap → 0 ≤ heap.firstPageId →
    heap.firstPageId < DiskManager.getNumPages file →
    ∃ pages, Chain (stored (DiskManager.openFile file)) heap.firstPageId pages ∧
      ∀ pageId ∈ pages, pageId ∈ s.chain i ∧ pageId < DiskManager.getNumPages file ∧
        ∀ log disk, DiskRun (DiskManager.openFile file) log disk → pageId ∉ allocatedIds log

namespace InFile

variable {s : HeapState} {sound : s.Sound} {file : File}

/-- The links of the file lead along the chain of the heap. -/
theorem chain (inFile : InFile (s.links sound) file) {i : Nat} {first : Int} {pages : List Int}
    (linked : Chain s.view first pages) (among : ∀ pageId ∈ pages, pageId ∈ s.chain i)
    (inside : first < DiskManager.getNumPages file) :
    ∃ stays, Chain (stored (DiskManager.openFile file)) first stays ∧
      ∀ pageId ∈ stays, pageId ∈ s.chain i ∧ pageId < DiskManager.getNumPages file := by
  induction linked with
  | nil => exact ⟨[], .nil, fun _ member => absurd member List.not_mem_nil⟩
  | @cons pageId page rest given present layout linked ih =>
      have here := among pageId List.mem_cons_self
      obtain ⟨kept, found, fits, leads⟩ := inFile.page pageId ⟨i, here⟩ inside
      have only : ∀ other ∈ [pageId], other ∈ s.chain i ∧ other < DiskManager.getNumPages file := by
        intro other member
        rw [List.mem_singleton.mp member]
        exact ⟨here, inside⟩
      rcases fits.link with last | next
      · refine ⟨[pageId], .cons given found fits.layout ?_, only⟩
        rw [last]
        exact .nil
      · rw [HeapState.links_next sound present] at next
        rw [next] at leads
        obtain ⟨stays, chained, all⟩ :=
          ih (fun other member => among other (List.mem_cons_of_mem _ member)) leads
        refine ⟨pageId :: stays, .cons given found fits.layout (by rw [next]; exact chained), ?_⟩
        intro other member
        rcases List.mem_cons.mp member with rfl | later
        · exact only _ List.mem_cons_self
        · exact all other later

theorem restartSafe (inFile : InFile (s.links sound) file) : RestartSafe s file := by
  intro i heap present _ inside
  obtain ⟨pages, linked, all⟩ :=
    inFile.chain (sound.linked i heap present) (fun _ member => member) inside
  refine ⟨pages, linked, fun pageId member => ?_⟩
  obtain ⟨among, below⟩ := all pageId member
  refine ⟨among, below, fun log disk run given => ?_⟩
  have above := DiskManager.allocated_above inFile.bounded run pageId given
  rw [getNumPages_eq inFile.bounded] at below
  omega

end InFile

/-- A run and the single calls of the pool it consists of, as the code makes them. -/
inductive HeapTrace {N : Nat} (start : World N) :
    List HeapEvent → List (Moment (poolCalls N)) → World N → Prop
  | nil : HeapTrace start [] [] start
  | cons {log : List HeapEvent} {moments later : List (Moment (poolCalls N))} {w w' : World N}
      {event : HeapEvent} (previous : HeapTrace start log moments w)
      (taken : heapStep GivenRids log w event w')
      (recorded : event.op.code.recorded (w, moments) = some (event.outcome, (w', later))) :
      HeapTrace start (event :: log) later w'

/-- The calls of a run are fixed by its operations. -/
theorem HeapTrace.unique {N : Nat} {start w w' : World N} {log : List HeapEvent}
    {moments later : List (Moment (poolCalls N))} (first : HeapTrace start log moments w)
    (second : HeapTrace start log later w') : moments = later ∧ w = w' := by
  induction first generalizing later w' with
  | nil =>
      cases second
      exact ⟨rfl, rfl⟩
  | cons previous taken recorded ih =>
      cases second with
      | cons previous' taken' recorded' =>
          obtain ⟨rfl, rfl⟩ := ih previous'
          rw [recorded, Option.some.injEq, Prod.mk.injEq, Prod.mk.injEq] at recorded'
          exact ⟨recorded'.2.2, recorded'.2.1⟩

namespace World

variable {N : Nat} {s : HeapState} {log : List HeapEvent} {w : World N}

/-- A run up to here, its moments, and what is known of the file. -/
structure Traced (start : World N) (log : List HeapEvent) (moments : List (Moment (poolCalls N)))
    (w : World N) (s : HeapState) : Prop where
  trace : HeapTrace start log moments w
  state : RunState log w s
  kept : Kept InOrder (fun moment =>
    InFile (s.links state.1.sound) moment.before.disk.dbIo) moments
  ends : (∀ moment ∈ moments, InOrder moment) → Orderly (s.links state.1.sound) w.bm

theorem Traced.step [NeZero N] {start w' : World N} {moments : List (Moment (poolCalls N))}
    {event : HeapEvent} (traced : Traced start log moments w s)
    (taken : heapStep GivenRids log w event w') :
    ∃ later s', Traced start (event :: log) (moments ++ later) w' s' := by
  obtain ⟨answer, s', outcome, effect, state'⟩ := traced.state.step taken
  have shows := traced.state.1
  have sound' := state'.1.sound
  have grows := effect.grows shows.sound sound'
  have allowed := GivenRids.allowed taken.2.1 traced.state.2
  have ordered := @run_ordered N s s' (fun _ => 0) _ _ _ allowed effect shows.sound sound'
  obtain ⟨later, goes⟩ := event.op.code.goes_of_ended taken.1
  have earlier := traced.kept.mono fun _ inFile => grows.inFile inFile
  have kept := fun orderly => ordered.goes ⟨shows, grows.orderly orderly⟩ taken.1 goes
  refine ⟨later, s', traced.trace.cons taken (goes moments), state', ?_, fun all => ?_⟩
  · exact earlier.append fun all => (kept (traced.ends all)).1
  · have before := traced.ends fun moment member => all moment (List.mem_append_left _ member)
    exact (kept before).2 fun moment member => all moment (List.mem_append_right _ member)

theorem start_orderly [NeZero N] (raw : Fin N → Page) {file : File}
    (small : file.size / pageSize < 2 ^ 31) :
    Orderly ((startState file).links (start_shows raw file small).sound) (start raw file).bm := by
  refine ⟨⟨Int.le_of_eq (getNumPages_eq small), small, ?_⟩, fun frame dirty => by cases dirty⟩
  rintro pageId ⟨i, member⟩
  exact absurd member List.not_mem_nil

theorem traced [NeZero N] {raw : Fin N → Page} {file : File} (small : file.size / pageSize < 2 ^ 31)
    (run : HeapRun GivenRids (start raw file) log w) :
    ∃ moments s, Traced (start raw file) log moments w s := by
  apply run.invariant fun log w => ∃ moments s, Traced (start raw file) log moments w s
  · have state : RunState [] (start raw file) (startState file) :=
      ⟨start_shows raw file small, fun _ member => absurd member List.not_mem_nil⟩
    exact ⟨[], startState file, .nil, state, trivial, fun _ => start_orderly raw small⟩
  · rintro log w event w' _ ⟨moments, s, traced⟩ taken
    obtain ⟨later, s', traced'⟩ := traced.step taken
    exact ⟨moments ++ later, s', traced'⟩

/-- The access layer is restart-safe at each moment of a run whose write-backs up to then
came in order. The moments of a run are the calls the code makes. -/
theorem restart_safe [NeZero N] {raw : Fin N → Page} {file : File}
    (small : file.size / pageSize < 2 ^ 31) (run : HeapRun GivenRids (start raw file) log w) :
    ∃ moments s, HeapTrace (start raw file) log moments w ∧
      (∀ others, HeapTrace (start raw file) log others w → others = moments) ∧
      RunState log w s ∧
      (∀ before moment after, moments = before ++ moment :: after →
        (∀ earlier ∈ before, InOrder earlier) → RestartSafe s moment.before.disk.dbIo) ∧
      ((∀ moment ∈ moments, InOrder moment) → RestartSafe s w.bm.disk.dbIo) := by
  obtain ⟨moments, s, traced⟩ := traced small run
  refine ⟨moments, s, traced.trace, fun others trace => (trace.unique traced.trace).1, traced.state,
    ?_, fun all => (traced.ends all).inFile.restartSafe⟩
  rintro before moment after rfl all
  exact (traced.kept.at all).restartSafe

/-- One heap with one record, in a pool of one frame over an empty file. -/
theorem restart_safe_oneRecord : ∃ (w : World 1) (moments : List (Moment (poolCalls 1)))
    (s : HeapState), HeapTrace (start (fun _ _ => 0) File.empty) oneRecord moments w ∧
      RunState oneRecord w s ∧
      ∀ before moment after, moments = before ++ moment :: after →
        (∀ earlier ∈ before, InOrder earlier) → RestartSafe s moment.before.disk.dbIo := by
  obtain ⟨w, _, run, _⟩ := oneRecord_run GivenRids trivial (by decide : [7].length < 2 ^ 63)
  obtain ⟨moments, s, trace, _, state, safe, _⟩ := restart_safe (by decide) run
  exact ⟨w, moments, s, trace, state, safe⟩

theorem dangling_unsafe {s : HeapState} {i pageId : Nat} {heap : HeapFile} {disk : DiskManager}
    {page : Page} (present : s.heaps[i]? = some heap) (first : heap.firstPageId = pageId)
    (empty : disk.dbIo = File.empty) (room : pageId + 1 < 2 ^ 31)
    (leads : nextPageId page = pageId + 1) : ¬ RestartSafe s (writePage disk pageId page).dbIo := by
  intro safe
  have size := @size_writePage disk pageId (Int.natCast_nonneg pageId) page
  rw [empty, show File.empty.size / pageSize = 0 by decide, Nat.zero_max, Int.toNat_natCast] at size
  have bounded : (writePage disk pageId page).dbIo.size / pageSize < 2 ^ 31 := by omega
  have inFile : DiskManager.getNumPages (writePage disk pageId page).dbIo = pageId + 1 := by
    rw [getNumPages_eq bounded, size, Int.natCast_add]
    rfl
  obtain ⟨pages, linked, all⟩ := safe i heap present (by omega) (by omega)
  have kept : stored (DiskManager.openFile (writePage disk pageId page).dbIo) pageId = some page :=
    stored_writePage disk pageId page (Int.natCast_nonneg pageId)
  rw [first] at linked
  have valid : (pageId : Int) ≠ invalidPageId := by
    rw [show invalidPageId = -1 from rfl]
    omega
  have next := linked.next (linked.first_mem valid) kept
  rw [leads, show invalidPageId = -1 from rfl] at next
  rcases next with last | among
  · omega
  · have inside := (all _ among).2.1
    omega

/-- A hundred heaps and one record that is too long for a page: the write-back of page 99,
which leads to page 100, comes before any other. -/
theorem restart_unsafe : ∃ (w : World bufferPoolSize) (s : HeapState),
    HeapRun GivenRids (start (fun _ _ => 0) File.empty)
      (⟨.insert 99 (List.replicate 9000 0), .ok (.placed none)⟩ :: creates bufferPoolSize) w ∧
    RunState (⟨.insert 99 (List.replicate 9000 0), .ok (.placed none)⟩ :: creates bufferPoolSize)
      w s ∧ ¬ RestartSafe s w.bm.disk.dbIo := by
  have length : (List.replicate 9000 (0 : UInt8)).length = 9000 := List.length_replicate
  obtain ⟨w, disk, page, run, present, empty, written⟩ :=
    @long_run bufferPoolSize _ (fun _ _ => 0) (by decide) (List.replicate 9000 0)
      (by rw [length]; decide) (by rw [length]; decide)
  obtain ⟨s, state⟩ := runState (by decide) run
  refine ⟨w, s, run, state, ?_⟩
  rw [written]
  rw [state.1.heaps] at present
  exact dangling_unsafe present rfl empty (by decide)
    (nextPageId_setNextPageId page 100 (by decide) (by decide))

end World

end RelationalDb
