import RelationalDb.Executor.ScanExact
import RelationalDb.Storage.PoolVisits

set_option autoImplicit false

namespace RelationalDb

open HeapFile
open BufferManager (Seat Steady comesTo occupant visits)

variable {N : Nat} {bm : BufferManager N DiskManager} {view : Int → Option Page}
  {pins : Int → Int} {pages first : Int} {chain : List Int} {rid : Rid} {data : List UInt8}
  {seat : Fin N}

/-- The page that is in the frame of a record when the record is decoded: the last one that came
to the frame while the iterator went on. -/
def pageBehind (bm : BufferManager N DiskManager) (seat : Fin N) (chain : List Int) (rid : Rid)
    (next : Option Rid) : Int :=
  occupant bm seat chain ((pagesTo chain next).drop (pagesTo chain (some rid)).length)
    (comesTo bm seat chain rid.pageId) rid.pageId

/-- The bytes a page has at the place of a record. -/
def bytesAt (view : Int → Option Page) (rid : Rid) (other : Int) : Option (List UInt8) :=
  (view rid.pageId).bind fun page =>
    (SlottedPage.get page headerSize rid.slotId).bind fun span =>
      (view other).map fun behind => behind.read span.1 span.2

theorem bytesAt_self : bytesAt view rid rid.pageId = storedRecord view rid := by
  rw [bytesAt, storedRecord]
  cases known : view rid.pageId with
  | none => rfl
  | some page =>
      rw [Option.bind_some, Option.bind_some, SlottedPage.record]
      cases SlottedPage.get page headerSize rid.slotId with
      | none => rfl
      | some span => rfl

theorem bytesAt_congr {view' : Int → Option Page} {other : Int}
    (here : view rid.pageId = view' rid.pageId) (there : view other = view' other) :
    bytesAt view rid other = bytesAt view' rid other := by
  rw [bytesAt, bytesAt, here, there]

theorem bytesAt_eq {page behind : Page} {span : Nat × Nat} {other : Int}
    (known : view rid.pageId = some page)
    (place : SlottedPage.get page headerSize rid.slotId = some span)
    (present : view other = some behind) :
    bytesAt view rid other = some (behind.read span.1 span.2) := by
  rw [bytesAt, known, Option.bind_some, place, Option.bind_some, present, Option.map_some]

/-- The records before and behind one of them. -/
theorem recordsFrom_split {later : List Int} {slot : Nat} {before after : List (Rid × List UInt8)}
    (records : recordsFrom view later slot = before ++ (rid, data) :: after) :
    ∃ front back, later = front ++ rid.pageId :: back ∧ storedRecord view rid = some data ∧
      after = recordsFrom view (rid.pageId :: back) (rid.slotId + 1) := by
  induction before generalizing later slot with
  | nil =>
      have next := @recordsFrom_nextRecord view later slot
      split at next
      · obtain ⟨front, back, bytes, split, stored, rest⟩ := next
        rw [rest, List.nil_append, List.cons.injEq, Prod.mk.injEq] at records
        obtain ⟨⟨rfl, rfl⟩, rfl⟩ := records
        exact ⟨front, back, split, stored, rfl⟩
      · rw [next] at records
        cases records
  | cons head before ih =>
      have next := @recordsFrom_nextRecord view later slot
      split at next
      · obtain ⟨front, back, bytes, split, _, rest⟩ := next
        rw [rest, List.cons_append, List.cons.injEq] at records
        obtain ⟨front', back', split', stored, behind⟩ := ih records.2
        refine ⟨front ++ front', back', ?_, stored, behind⟩
        rw [split, split', List.append_assoc]
      · rw [next] at records
        cases records

theorem pagesTo_prefix {list : List Int} {position : Option Rid}
    (inside : ∀ rid, position = some rid → rid.pageId ∈ list) : pagesTo list position <+: list := by
  cases position with
  | none => exact List.prefix_rfl
  | some rid =>
      obtain ⟨front, back, split, apart⟩ := List.eq_append_cons_of_mem (inside rid rfl)
      refine ⟨back, ?_⟩
      rw [split, pagesTo_append fun other same => by cases same; exact apart, pagesTo_head,
        List.append_assoc]
      rfl

theorem pageBehind_mem (seat : Fin N) {next : Option Rid} (member : rid.pageId ∈ chain)
    (inside : ∀ other, next = some other → other.pageId ∈ chain) :
    pageBehind bm seat chain rid next ∈ chain := by
  rcases List.mem_cons.mp (BufferManager.occupant_mem bm seat (comesTo bm seat chain rid.pageId)
    chain ((pagesTo chain next).drop (pagesTo chain (some rid)).length) rid.pageId) with here | later
  · rw [pageBehind, here]
    exact member
  · exact pagesTo_subset inside _ (List.mem_of_mem_drop later)

/-- The pool on a record of a chain and on the next one, with the page that is in the frame of the
first record by then. -/
theorem visits_pageBehind {front back : List Int} (steady : Steady bm view pins pages)
    (distinct : (front ++ rid.pageId :: back).Nodup)
    (given : ∀ pageId ∈ front ++ rid.pageId :: back, 0 ≤ pageId)
    (seated : Seat bm (front ++ rid.pageId :: back) seat) {next : Option Rid}
    (later : ∀ other, next = some other → other.pageId ∈ rid.pageId :: back) :
    ∃ onIt behind frame,
      (visits (pagesTo (front ++ rid.pageId :: back) (some rid))).Returns bm ⟨⟩ onIt ∧
      (visits (pagesTo (front ++ rid.pageId :: back) next)).Returns bm ⟨⟩ behind ∧
      Steady onIt view pins pages ∧ Steady behind view pins pages ∧
      onIt.pageTable rid.pageId = some frame ∧
      behind.pageTable (pageBehind bm seat (front ++ rid.pageId :: back) rid next) = some frame := by
  obtain ⟨more, tail, whole⟩ := pagesTo_further distinct later
  obtain ⟨rest, split⟩ := pagesTo_prefix later
  rw [tail, List.cons_append, List.cons.injEq] at split
  obtain ⟨-, rfl⟩ := split
  obtain ⟨onIt, behind, visited, onward, steady₁, steady₂, cached, occupied⟩ :=
    steady.occupied distinct given seated rfl
  rw [← pagesTo_split distinct] at visited
  rw [← whole] at onward
  refine ⟨onIt, behind, _, visited, onward, steady₁, steady₂, cached, ?_⟩
  have list : (pagesTo (front ++ rid.pageId :: (more ++ rest)) next).drop
      (pagesTo (front ++ rid.pageId :: (more ++ rest)) (some rid)).length = more := by
    rw [whole, pagesTo_split distinct, List.append_cons front _ more]
    exact List.drop_left
  rwa [pageBehind, list]

/-- What is in the frame of a record when it is decoded. -/
theorem spared_iff {front back : List Int} (decode : List UInt8 → Option Tuple)
    (steady : Steady bm view pins pages) (linked : Chain view first (front ++ rid.pageId :: back))
    (distinct : (front ++ rid.pageId :: back).Nodup)
    (seated : Seat bm (front ++ rid.pageId :: back) seat)
    (stored : storedRecord view rid = some data) {next : Option Rid}
    (later : ∀ other, next = some other → other.pageId ∈ rid.pageId :: back) :
    Spared decode (front ++ rid.pageId :: back) bm rid data next ↔
      (bytesAt view rid (pageBehind bm seat (front ++ rid.pageId :: back) rid next)).map decode =
        some (decode data) := by
  have here := List.mem_append_right front (List.mem_cons_self (a := rid.pageId) (l := back))
  obtain ⟨onIt, behind, _, visited, onward, steady₁, steady₂, cached, occupied⟩ :=
    visits_pageBehind steady distinct (fun _ member => (linked.page member).1) seated later
  have member : pageBehind bm seat (front ++ rid.pageId :: back) rid next ∈
      front ++ rid.pageId :: back :=
    pageBehind_mem seat here fun other same => List.mem_append_right front (later other same)
  generalize pageBehind bm seat _ rid next = other at occupied member
  obtain ⟨_, page, known, _⟩ := linked.page here
  obtain ⟨_, page', known', _⟩ := linked.page member
  have own := stored
  rw [storedRecord_eq known, SlottedPage.record, Option.map_eq_some_iff] at own
  obtain ⟨span, place, read⟩ := own
  have held := steady₁.data _ _ _ cached known
  have held' := steady₂.data _ _ _ occupied known'
  constructor
  · intro spared
    rcases spared onIt behind _ span.1 span.2 visited onward cached (by rw [held]; exact place) with
      still | alike
    · obtain rfl : other = rid.pageId :=
        (steady₂.mapped _ _ occupied).symm.trans (steady₂.mapped _ _ still)
      rw [bytesAt_self, stored, Option.map_some]
    · rw [held'] at alike
      rw [bytesAt_eq known place known', Option.map_some, alike]
  · intro alike onIt' behind' frame offset size visited' onward' cached' place'
    obtain ⟨_, rfl⟩ := visited.value_eq visited'
    obtain ⟨_, rfl⟩ := onward.value_eq onward'
    rw [cached, Option.some.injEq] at cached'
    subst cached'
    rw [held, place, Option.some.injEq] at place'
    rw [bytesAt_eq known place known', Option.map_some, Option.some.injEq, place'] at alike
    right
    rw [held']
    exact alike

/-- No record is lost exactly when, for each of them, the page that is in its frame by the time it
is decoded has there the bytes of the same tuple. -/
theorem undisturbed_iff (decode : List UInt8 → Option Tuple) (steady : Steady bm view pins pages)
    (linked : Chain view first chain) (distinct : chain.Nodup) (seated : Seat bm chain seat) :
    Undisturbed decode view chain bm ↔
      ∀ before rid data after, heapRecords view chain = before ++ (rid, data) :: after →
        (bytesAt view rid (pageBehind bm seat chain rid (after.head?.map Prod.fst))).map decode =
          some (decode data) := by
  refine forall_congr' fun before => forall_congr' fun rid => forall_congr' fun data =>
    forall_congr' fun after => forall_congr' fun records => ?_
  obtain ⟨front, back, rfl, stored, rest⟩ := recordsFrom_split records
  refine spared_iff decode steady linked distinct seated stored ?_
  intro other next
  obtain ⟨record, head, rfl⟩ := Option.map_eq_some_iff.mp next
  have member := List.mem_of_head? head
  rw [rest] at member
  exact recordsFrom_mem member

end RelationalDb
