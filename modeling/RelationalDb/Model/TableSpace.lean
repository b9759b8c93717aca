import RelationalDb.Model.TableRows

set_option autoImplicit false

namespace RelationalDb.TableManager

open HeapFile

variable {N : Nat}

def storedSize (schema : Schema) (rows : List (List Value)) : Nat :=
  (((encodedRows schema rows).filter (·.length ≤ 8176)).map rowSize).sum

def oversized (schema : Schema) (rows : List (List Value)) : Nat :=
  (encodedRows schema rows).countP (8176 < ·.length)

/-- The pages of a table hold the rows that were inserted, and less than half of them is empty,
the last page and one page for every row that was refused apart. -/
theorem tablePages_bounded [NeZero N] (start : TableManager N) (initialised : Initialised start)
    (log : List (Event N)) (manager : TableManager N) (run : DatabaseRun start log manager)
    (distinct : (createdIds log).Nodup) (name : List UInt8) (table : UserTable)
    (manager' : TableManager N) (own : name ∉ systemNames)
    (opened : (openTable name).Returns manager table manager') (columns : table.schema ≠ [])
    (owns : OwnHeap manager log table) :
    ∃ chain, Chain manager'.pages table.hf.firstPageId chain ∧
      storedSize table.schema (offeredRows name log) ≤ 8180 * chain.length ∧
      8181 * chain.length ≤ 2 * storedSize table.schema (offeredRows name log) +
        8181 * (oversized table.schema (offeredRows name log) + 1) := by
  obtain ⟨s, holds, shelved⟩ := tableState initialised run
  have stands := holds.state.stands
  have loaded := holds.opened distinct opened
  obtain ⟨_, i, present, behind⟩ := loaded.place stands.catalogued
  have rows := (shelved distinct).rows name table i loaded present (behind own) columns
    (stands.untouched present owns)
  have pages := congrArg List.length rows
  rw [HeapState.bins, List.length_map] at pages
  have stored : storedSize table.schema (offeredRows name log) =
      (((encodedRows table.schema (offeredRows name log)).filter (rowSize · ≤ 8180)).map
        rowSize).sum := by
    simp only [rowSize_le]
    rfl
  have refused : oversized table.schema (offeredRows name log) =
      (encodedRows table.schema (offeredRows name log)).countP (8180 < rowSize ·) := by
    refine List.countP_congr fun bytes _ => ?_
    show decide (8176 < bytes.length) = true ↔ decide (8180 < bytes.length + 4) = true
    rw [decide_eq_true_iff, decide_eq_true_iff]
    omega
  have offered := @FirstFit.offered_all _ 8180 rowSize
    (encodedRows table.schema (offeredRows name log))
  refine ⟨s.chain i, linked_of_holds (stands.opened opened).2.holds present, ?_, ?_⟩
  · rw [pages, stored]
    have whole := offered.packed.total_le
    rwa [FirstFit.total_offerAll] at whole
  · rw [pages, stored, refused]
    exact FirstFit.length_offerAll_le _

/-- One page for one row of four bytes. -/
theorem tablePages_bounded_seven : ∃ (manager' : TableManager bufferPoolSize) (table : UserTable)
    (chain : List Int), Chain manager'.pages table.hf.firstPageId chain ∧ chain.length = 1 := by
  obtain ⟨start, manager, log, table, manager', first⟩ := numbersIn_exists [7] (by decide)
  obtain ⟨chain, linked, lower, upper⟩ := tablePages_bounded start first.initialised log manager
    first.run first.distinct (ascii "t") table manager' (by decide) first.opened first.columns
    first.owns
  refine ⟨manager', table, chain, linked, ?_⟩
  have bytes : encodedRows table.schema (offeredRows (ascii "t") log) = [[7, 0, 0, 0]] := by
    rw [first.encoded]
    rfl
  rw [storedSize, bytes] at lower upper
  rw [oversized, bytes] at upper
  have eight : ([[7, 0, 0, 0]].filter fun bytes : List UInt8 => bytes.length ≤ 8176).map rowSize =
      [8] := by decide
  have none : ([[7, 0, 0, 0]] : List (List UInt8)).countP (8176 < ·.length) = 0 := by decide
  rw [eight] at lower upper
  rw [none] at upper
  simp only [List.sum_cons, List.sum_nil] at lower upper
  omega

end RelationalDb.TableManager
