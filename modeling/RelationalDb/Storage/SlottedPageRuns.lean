import RelationalDb.Run
import RelationalDb.Storage.SlottedPageLayout

set_option autoImplicit false

namespace RelationalDb.SlottedPage

/-- A call that changes a page. -/
inductive PageOp where
  | insert (data : List UInt8)
  | update (slotId : Nat) (newData : List UInt8)
  | delete (slotId : Nat)

inductive PageAnswer where
  | slot (slotId : Option Nat)
  | done (success : Bool)

structure PageEvent where
  op : PageOp
  answer : PageAnswer

def PageOp.run (base : Nat) : PageOp → Page → PageAnswer × Page
  | insert data, page =>
      (.slot (SlottedPage.insert page base data).1, (SlottedPage.insert page base data).2)
  | update slotId newData, page =>
      (.done (SlottedPage.update page base slotId newData).1,
        (SlottedPage.update page base slotId newData).2)
  | delete slotId, page =>
      (.done (SlottedPage.delete page base slotId).1, (SlottedPage.delete page base slotId).2)

/-- The byte string of a call is shorter than 2^63. -/
def Bounded : PageOp → Prop
  | .insert data => data.length < 2 ^ 63
  | .update _ newData => newData.length < 2 ^ 63
  | .delete _ => True

def pageStep (base : Nat) (_ : List PageEvent) (page : Page) (event : PageEvent) (page' : Page) :
    Prop :=
  event.op.run base page = (event.answer, page') ∧ Bounded event.op

/-- The runs on a page that `Init` has set up. -/
abbrev PageRun (base : Nat) (raw : Page) : List PageEvent → Page → Prop :=
  Run (pageStep base) (init raw base)

/-- What a call takes from `FreeSpace`. -/
def spent (page : Page) (base : Nat) : PageOp → PageAnswer → Nat
  | .insert data, .slot (some _) => data.length + 4
  | .update slotId newData, .done true =>
      if slotLength page base slotId < newData.length then newData.length else 0
  | _, _ => 0

/-- A subtraction in `size_t`. -/
def sizeSub (a b : Nat) : Nat := (a + 2 ^ 64 - b) % 2 ^ 64

/-- The numbers that `Init` stores to `uint16_t` fields. -/
def initStores : List Nat := [0, pageSize]

/-- The page after a call, from the numbers that the call stores. -/
def storing (page : Page) (base : Nat) : PageOp → List Nat → Page
  | .insert data, [offset, address, length, slots] =>
      let page := (page.store (base + 2) 2 offset).write offset data
      (page.write address (leBytes 2 offset ++ leBytes 2 length)).store base 2 slots
  | .update slotId newData, [length] =>
      (page.write (slotOffset page base slotId) newData).store (slotAddress base slotId + 2) 2 length
  | .update slotId newData, [offset, length] =>
      let page := (page.store (base + 2) 2 offset).store (slotAddress base slotId) 2 offset
      (page.store (slotAddress base slotId + 2) 2 length).write offset newData
  | .delete slotId, [length] => page.store (slotAddress base slotId + 2) 2 length
  | _, _ => page

/-- The numbers that a call stores to `uint16_t` fields and variables, as they are before
the store. -/
def stores (page : Page) (base : Nat) : PageOp → List Nat
  | .insert data =>
      if freeSpace page base < (data.length + slotSize) % 2 ^ 64 then []
      else [sizeSub (freeSpaceOffset page base) data.length, slotAddress base (numSlots page base),
        data.length, numSlots page base + 1]
  | .update slotId newData =>
      if numSlots page base ≤ slotId then []
      else if newData.length ≤ slotLength page base slotId then [newData.length]
      else if freeSpace page base < newData.length then []
      else [sizeSub (freeSpaceOffset page base) newData.length, newData.length]
  | .delete slotId => if numSlots page base ≤ slotId then [] else [0]

/-- What one call keeps. -/
structure StepSafe (base : Nat) (page : Page) (event : PageEvent) (page' : Page) : Prop where
  slots : numSlots page base ≤ numSlots page' base
  offset : freeSpaceOffset page' base ≤ freeSpaceOffset page base
  space : freeSpace page' base + spent page base event.op event.answer = freeSpace page base
  exact : ∀ number ∈ stores page base event.op, number < 2 ^ 16
  whole : page' = storing page base event.op (stores page base event.op)

variable {base : Nat} {page page' : Page}

theorem storing_nil (page : Page) (base : Nat) (op : PageOp) : storing page base op [] = page := by
  cases op <;> rfl

/-- A call that stores nothing leaves the page as it is. -/
theorem StepSafe.refused {event : PageEvent} (none : stores page base event.op = [])
    (free : spent page base event.op event.answer = 0) : StepSafe base page event page := by
  refine ⟨Nat.le_refl _, Nat.le_refl _, by rw [free, Nat.add_zero], ?_, ?_⟩
  · rw [none]
    exact fun number member => by cases member
  · rw [none, storing_nil]

theorem sizeSub_eq {a b : Nat} (small : a < 2 ^ 64) (room : b ≤ a) : sizeSub a b = a - b := by
  rw [sizeSub]
  omega

theorem takeSpace_eq (page : Page) {base length : Nat} (room : length ≤ freeSpaceOffset page base) :
    takeSpace page base length = page.store (base + 2) 2 (freeSpaceOffset page base - length) := by
  have small : freeSpaceOffset page base < 256 ^ 2 := Region.load_lt page _ 2
  have same : leBytes 2 (freeSpaceOffset page base + 2 ^ 64 - length) =
      leBytes 2 (freeSpaceOffset page base - length) := by
    rw [← leBytes_mod, ← leBytes_mod 2 (freeSpaceOffset page base - length)]
    congr 1
    omega
  rw [takeSpace, Region.store, Region.store, same]

theorem insert_safe (layout : Layout page base) {data : List UInt8} (bounded : data.length < 2 ^ 63) :
    Layout (insert page base data).2 base ∧
      StepSafe base page ⟨.insert data, .slot (insert page base data).1⟩ (insert page base data).2 := by
  have directory := layout.directory
  have upper := layout.bounded
  have size := pageSize_eq
  have space := freeSpace_eq page base layout
  have sum : (data.length + slotSize) % 2 ^ 64 = data.length + 4 := Nat.mod_eq_of_lt (by
    rw [slotSize]
    omega)
  rw [directoryEnd] at directory space
  by_cases full : freeSpace page base < data.length + 4
  · rw [insert_of_no_room page base data bounded full]
    have none : stores page base (.insert data) = [] := by
      rw [stores, sum, if_pos full]
    exact ⟨layout, .refused none rfl⟩
  · obtain ⟨page', inserted, appended⟩ := insert_of_room page base data layout (by omega)
    have left := appended.freeSpace layout (by omega)
    have free := appended.freeSpaceOffset_eq
    have count := appended.numSlots_eq
    rw [inserted]
    refine ⟨appended.layout layout (by omega), ?_, ?_, ?_, ?_, ?_⟩
    · show numSlots page base ≤ numSlots page' base
      omega
    · show freeSpaceOffset page' base ≤ freeSpaceOffset page base
      omega
    · show freeSpace page' base + (data.length + 4) = freeSpace page base
      omega
    · rw [stores, sum, if_neg full]
      simp only [List.forall_mem_cons, sizeSub, slotAddress, pageHeaderSize, slotSize]
      refine ⟨by omega, by omega, by omega, by omega, fun _ member => by cases member⟩
    · have isPage : page' = SlottedPage.appended page base data :=
        (Prod.mk.inj (inserted.symm.trans (insert_eq layout (by omega)))).2
      rw [stores, sum, if_neg full, sizeSub_eq (by omega) (by omega), isPage,
        SlottedPage.appended, withSlot, withRecord, takeSpace_eq page (by omega)]
      rfl

/-- An edited page has the space it had, less what its records moved down. -/
theorem Rewritten.freeSpace {slotId : Nat} {data : List UInt8}
    (rewritten : Rewritten page page' base slotId data) :
    SlottedPage.freeSpace page' base = freeSpaceOffset page' base - directoryEnd page base := by
  rw [freeSpace_eq page' base rewritten.layout, directoryEnd, directoryEnd, rewritten.numSlots_eq]

theorem update_safe (layout : Layout page base) (slotId : Nat) {data : List UInt8} :
    Layout (update page base slotId data).2 base ∧
      StepSafe base page ⟨.update slotId data, .done (update page base slotId data).1⟩
        (update page base slotId data).2 := by
  have directory := layout.directory
  have upper := layout.bounded
  have size := pageSize_eq
  have space := freeSpace_eq page base layout
  by_cases outside : numSlots page base ≤ slotId
  · simp only [update, outside, ↓reduceIte]
    exact ⟨layout, .refused (by simp only [stores, outside, ↓reduceIte]) rfl⟩
  · have inside : slotId < numSlots page base := by omega
    by_cases shorter : data.length ≤ slotLength page base slotId
    · have rewritten := overwrite_rewritten page base slotId data layout inside shorter
      have free := overwrite_freeSpaceOffset page base slotId data layout inside
      have left := rewritten.freeSpace
      have small : slotLength page base slotId < 65536 := Region.load_lt page _ 2
      have updated : update page base slotId data = (true, overwrite page base slotId data) := by
        simp only [update, outside, shorter, ↓reduceIte, overwrite]
      rw [updated]
      refine ⟨rewritten.layout, Nat.le_of_eq rewritten.numSlots_eq.symm, Nat.le_of_eq free, ?_, ?_,
        ?_⟩
      · have kept : ¬ slotLength page base slotId < data.length := by omega
        simp only [spent, kept, ↓reduceIte]
        omega
      · simp only [stores, outside, shorter, ↓reduceIte, List.forall_mem_cons]
        exact ⟨by omega, fun _ member => by cases member⟩
      · simp only [stores, outside, shorter, ↓reduceIte]
        rfl
    · by_cases full : SlottedPage.freeSpace page base < data.length
      · simp only [update, outside, shorter, full, ↓reduceIte]
        exact ⟨layout, .refused (by simp only [stores, outside, shorter, full, ↓reduceIte]) rfl⟩
      · have room : data.length ≤ SlottedPage.freeSpace page base := by omega
        have rewritten := relocate_rewritten page base slotId data layout inside room
        have free := relocate_freeSpaceOffset page base slotId data layout inside room
        have left := rewritten.freeSpace
        have updated : update page base slotId data = (true, relocate page base slotId data) := by
          simp only [update, outside, shorter, full, ↓reduceIte, relocate]
        rw [updated]
        refine ⟨rewritten.layout, Nat.le_of_eq rewritten.numSlots_eq.symm, ?_, ?_, ?_, ?_⟩
        · show freeSpaceOffset (relocate page base slotId data) base ≤ _
          omega
        · have moved : slotLength page base slotId < data.length := by omega
          simp only [spent, moved, ↓reduceIte]
          omega
        · simp only [stores, outside, shorter, full, ↓reduceIte, List.forall_mem_cons, sizeSub]
          exact ⟨by omega, by omega, fun _ member => by cases member⟩
        · have moved : storing page base (.update slotId data)
              [sizeSub (freeSpaceOffset page base) data.length, data.length] =
              relocate page base slotId data := by
            rw [relocate_eq page base slotId data layout inside room,
              takeSpace_eq page (by omega), sizeSub_eq (by omega) (by omega)]
            rfl
          simp only [stores, outside, shorter, full, ↓reduceIte, moved]

theorem delete_safe (layout : Layout page base) (slotId : Nat) :
    Layout (delete page base slotId).2 base ∧
      StepSafe base page ⟨.delete slotId, .done (delete page base slotId).1⟩
        (delete page base slotId).2 := by
  have space := freeSpace_eq page base layout
  by_cases outside : numSlots page base ≤ slotId
  · simp only [delete, outside, ↓reduceIte]
    exact ⟨layout, .refused (by simp only [stores, outside, ↓reduceIte]) rfl⟩
  · have inside : slotId < numSlots page base := by omega
    have rewritten := overwrite_rewritten page base slotId [] layout inside (Nat.zero_le _)
    have free := overwrite_freeSpaceOffset page base slotId [] layout inside
    have left := rewritten.freeSpace
    have deleted : delete page base slotId = (true, overwrite page base slotId []) := by
      simp only [delete, outside, ↓reduceIte, overwrite, Region.write_nil, List.length_nil]
    rw [deleted]
    refine ⟨rewritten.layout, Nat.le_of_eq rewritten.numSlots_eq.symm, Nat.le_of_eq free, ?_, ?_,
      ?_⟩
    · simp only [spent]
      omega
    · simp [stores, outside]
    · simp only [stores, outside, ↓reduceIte, overwrite, Region.write_nil, List.length_nil]
      rfl

theorem delete_freeSpace (layout : Layout page base) (slotId : Nat) :
    SlottedPage.freeSpace (delete page base slotId).2 base = SlottedPage.freeSpace page base :=
  (Nat.add_zero _).symm.trans (delete_safe layout slotId).2.space

theorem step_safe (layout : Layout page base) {log : List PageEvent} {event : PageEvent}
    (taken : pageStep base log page event page') :
    Layout page' base ∧ StepSafe base page event page' := by
  obtain ⟨op, answer⟩ := event
  obtain ⟨ran, bounded⟩ := taken
  cases op with
  | insert data =>
      simp only [PageOp.run, Prod.mk.injEq] at ran
      rw [← ran.1, ← ran.2]
      exact insert_safe layout bounded
  | update slotId newData =>
      simp only [PageOp.run, Prod.mk.injEq] at ran
      rw [← ran.1, ← ran.2]
      exact update_safe layout slotId
  | delete slotId =>
      simp only [PageOp.run, Prod.mk.injEq] at ran
      rw [← ran.1, ← ran.2]
      exact delete_safe layout slotId

theorem run_layout (fits : base + 4 ≤ pageSize) {raw : Page} {log : List PageEvent}
    (run : PageRun base raw log page) : Layout page base := by
  apply run.invariant fun _ page => Layout page base
  · exact init_layout raw base fits
  · intro _ page event page' _ layout taken
    exact (step_safe layout taken).1

/-- The layout holds in every state of a run on a page, and each call keeps what it should. -/
theorem page_layout (base : Nat) (fits : base + 4 ≤ pageSize) (raw : Page) (log : List PageEvent)
    (page : Page) (run : PageRun base raw log page) :
    Layout page base ∧ freeSpace page base = freeSpaceOffset page base - directoryEnd page base ∧
      (∀ number ∈ initStores, number < 2 ^ 16) ∧
      ∀ event page', pageStep base log page event page' → StepSafe base page event page' := by
  have layout := run_layout fits run
  exact ⟨layout, freeSpace_eq page base layout, by decide, fun event page' taken =>
    (step_safe layout taken).2⟩

/-- A record on a page with the header of a heap page. -/
theorem page_layout_insert : ∃ (page : Page) (answer : PageAnswer),
    PageRun 8 (fun _ => 0) [⟨.insert [1, 2, 3], answer⟩] page ∧ Layout page 8 := by
  have run : PageRun 8 (fun _ => 0)
      [⟨.insert [1, 2, 3], ((PageOp.insert [1, 2, 3]).run 8 (init (fun _ => 0) 8)).1⟩]
      ((PageOp.insert [1, 2, 3]).run 8 (init (fun _ => 0) 8)).2 :=
    Run.nil.cons ⟨rfl, show 3 < 2 ^ 63 by decide⟩
  exact ⟨_, _, run, (page_layout 8 (by decide) (fun _ => 0) _ _ run).1⟩

end RelationalDb.SlottedPage
