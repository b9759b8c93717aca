import RelationalDb.Model.DynamicCodec
import RelationalDb.Storage.SlotRecords

set_option autoImplicit false

namespace RelationalDb.SlottedPage

/-- The bytes of the last `Insert` or `Update` of a slot that reported success. -/
def written (slotId : Nat) : List PageEvent → Option (List UInt8)
  | [] => none
  | event :: log =>
      match event.op, event.answer with
      | .insert data, .slot (some new) => if new = slotId then some data else written slotId log
      | .update target newData, .done true =>
          if target = slotId then some newData else written slotId log
      | _, _ => written slotId log

/-- `Insert` returned the slot id. -/
def Inserted (log : List PageEvent) (slotId : Nat) : Prop :=
  ∃ data, ⟨.insert data, .slot (some slotId)⟩ ∈ log

/-- `Delete` was never called on the slot id. -/
def Undeleted (log : List PageEvent) (slotId : Nat) : Prop :=
  ∀ event ∈ log, event.op ≠ .delete slotId

/-- `Get` returns the bytes of the last `Insert` or `Update` that reported success. -/
def Readable (base : Nat) (log : List PageEvent) (page : Page) (slotId : Nat) : Prop :=
  ∃ data, written slotId log = some data ∧ record page base slotId = some data

variable {base slotId : Nat} {page page' : Page} {log : List PageEvent}

theorem written_refused {op : PageOp} {answer : PageAnswer} (isRefused : answer.refused = true) :
    written slotId (⟨op, answer⟩ :: log) = written slotId log := by
  cases op <;> rcases answer with (_ | _) | (_ | _) <;> first | rfl | cases isRefused

theorem Inserted.written (inserted : Inserted log slotId) :
    ∃ data, SlottedPage.written slotId log = some data := by
  obtain ⟨data, member⟩ := inserted
  induction log with
  | nil => cases member
  | cons event log ih =>
      obtain ⟨op, answer⟩ := event
      rcases List.mem_cons.mp member with here | earlier
      · cases here
        exact ⟨data, by simp [SlottedPage.written]⟩
      · obtain ⟨old, found⟩ := ih earlier
        cases op <;> rcases answer with (_ | _) | (_ | _) <;>
          simp only [SlottedPage.written, found] <;> first | exact ⟨_, rfl⟩ | skip
        · split <;> exact ⟨_, rfl⟩
        · split <;> exact ⟨_, rfl⟩

/-- A call on a page carries the record of a slot that is not deleted along. -/
theorem Effect.written {op : PageOp} {answer : PageAnswer}
    (effect : Effect base page op answer page') (layout : Layout page base)
    (undeleted : op ≠ .delete slotId) {data : List UInt8}
    (last : SlottedPage.written slotId (⟨op, answer⟩ :: log) = some data)
    (kept : ∀ old, SlottedPage.written slotId log = some old →
      record page base slotId = visible old) :
    record page' base slotId = visible data := by
  cases effect with
  | refused isRefused =>
      rw [written_refused isRefused] at last
      exact kept data last
  | @appended _ added appends =>
      by_cases new : numSlots page base = slotId
      · simp only [SlottedPage.written, new, ↓reduceIte, Option.some.injEq] at last
        rw [← new, ← last]
        exact appends.record_new
      · simp only [SlottedPage.written, new, ↓reduceIte] at last
        have same := (Effect.appended appends).others layout fun equal => new equal.symm
        rw [same]
        exact kept data last
  | @updated _ target newData inside rewrites =>
      by_cases own : target = slotId
      · simp only [SlottedPage.written, own, ↓reduceIte, Option.some.injEq] at last
        rw [← own, ← last]
        exact rewrites.record_same
      · simp only [SlottedPage.written, own, ↓reduceIte] at last
        rw [rewrites.record_other slotId fun equal => own equal.symm]
        exact kept data last
  | @deleted _ target inside rewrites =>
      have other : slotId ≠ target := by
        intro equal
        rw [equal] at undeleted
        exact undeleted rfl
      rw [rewrites.record_other slotId other]
      exact kept data last

theorem run_written (fits : base + 4 ≤ pageSize) {raw : Page} (run : PageRun base raw log page)
    (undeleted : Undeleted log slotId) {data : List UInt8} (last : written slotId log = some data) :
    record page base slotId = visible data := by
  induction run generalizing data with
  | nil => cases last
  | @cons log page page' event previous taken ih =>
      have layout := run_layout fits previous
      have earlier : Undeleted log slotId := fun other member =>
        undeleted other (List.mem_cons_of_mem _ member)
      exact (step_effect layout taken).written layout (undeleted event List.mem_cons_self) last
        fun old found => ih earlier found

/-- A slot that was never deleted can be read unless nothing was last written to it. -/
theorem undeleted_readable_iff (base : Nat) (fits : base + 4 ≤ pageSize) (raw : Page)
    (log : List PageEvent) (page : Page) (run : PageRun base raw log page) (slotId : Nat)
    (inserted : Inserted log slotId) (undeleted : Undeleted log slotId) :
    Readable base log page slotId ↔ written slotId log ≠ some [] := by
  obtain ⟨data, last⟩ := inserted.written
  have held := run_written fits run undeleted last
  by_cases empty : data = []
  · subst empty
    refine iff_of_false ?_ (not_not_intro last)
    rintro ⟨other, found, read⟩
    rw [held] at read
    cases read
  · rw [visible, if_neg empty] at held
    refine iff_of_true ⟨data, last, held⟩ ?_
    rw [last]
    exact fun same => empty (Option.some.inj same)

theorem first_insert {base : Nat} (fits : base + 4 ≤ pageSize) (raw : Page) {data : List UInt8}
    (room : base + 8 + data.length ≤ pageSize) :
    ∃ page, PageRun base raw [⟨.insert data, .slot (some 0)⟩] page := by
  have layout := init_layout raw base fits
  have count := init_numSlots raw base fits
  have size := pageSize_eq
  have space := freeSpace_eq (init raw base) base layout
  rw [init_freeSpaceOffset raw base fits, directoryEnd, count] at space
  obtain ⟨page, inserted, _⟩ := insert_of_room (init raw base) base data layout (by omega)
  rw [count] at inserted
  have ran : (PageOp.insert data).run base (init raw base) = (.slot (some 0), page) := by
    rw [PageOp.run, inserted]
  exact ⟨page, Run.nil.cons ⟨ran, show data.length < 2 ^ 63 by omega⟩⟩

/-- A record of three bytes can be read. -/
theorem undeleted_readable_insert : ∃ page : Page,
    PageRun 8 (fun _ => 0) [⟨.insert [1, 2, 3], .slot (some 0)⟩] page ∧
      Readable 8 [⟨.insert [1, 2, 3], .slot (some 0)⟩] page 0 := by
  obtain ⟨page, run⟩ := first_insert (by decide) (fun _ => 0)
    (show 8 + 8 + [(1 : UInt8), 2, 3].length ≤ pageSize by decide)
  have inserted : Inserted [⟨.insert [1, 2, 3], .slot (some 0)⟩] 0 := ⟨_, List.mem_cons_self⟩
  have undeleted : Undeleted [⟨.insert [1, 2, 3], .slot (some 0)⟩] 0 := by
    intro event member same
    rw [List.mem_singleton.mp member] at same
    cases same
  refine ⟨page, run, ?_⟩
  apply (undeleted_readable_iff 8 (by decide) (fun _ => 0) _ page run 0 inserted undeleted).mpr
  simp [written]

/-- The row of a table without columns is stored in a slot that reads as deleted. -/
theorem emptyRow_unreadable : ∃ (row : List UInt8) (page : Page),
    DynamicCodec.encode [] [] = some row ∧
      PageRun 8 (fun _ => 0) [⟨.insert row, .slot (some 0)⟩] page ∧
      Inserted [⟨.insert row, .slot (some 0)⟩] 0 ∧ Undeleted [⟨.insert row, .slot (some 0)⟩] 0 ∧
      record page 8 0 = none ∧ ¬ Readable 8 [⟨.insert row, .slot (some 0)⟩] page 0 := by
  obtain ⟨page, run⟩ := first_insert (by decide) (fun _ => 0)
    (show 8 + 8 + ([] : List UInt8).length ≤ pageSize by decide)
  have undeleted : Undeleted [⟨.insert [], .slot (some 0)⟩] 0 := by
    intro event member same
    rw [List.mem_singleton.mp member] at same
    cases same
  have last : written 0 [⟨.insert [], .slot (some 0)⟩] = some [] := by simp [written]
  have held : record page 8 0 = none := run_written (by decide) run undeleted last
  refine ⟨[], page, rfl, run, ⟨_, List.mem_cons_self⟩, undeleted, held, ?_⟩
  rintro ⟨data, _, read⟩
  rw [held] at read
  cases read

end RelationalDb.SlottedPage
