import Mathlib.Data.List.Basic
import Mathlib.Data.Prod.Lex
import RelationalDb.Access.HeapCalls

set_option autoImplicit false

namespace RelationalDb

open HeapFile
open BufferManager
open SlottedPage (Layout)

namespace HeapIterator

theorem seek_some {page : Page} {left slot found : Nat} (seeks : seek page left slot = some found) :
    slot ≤ found ∧ found < slot + left ∧ (SlottedPage.get page headerSize found).isSome = true ∧
      ∀ other, slot ≤ other → other < found → SlottedPage.get page headerSize other = none := by
  induction left generalizing slot with
  | zero => cases seeks
  | succ left ih =>
      unfold seek at seeks
      split at seeks
      · rename_i held
        cases seeks
        refine ⟨Nat.le_refl _, by omega, held, ?_⟩
        intro other above below
        omega
      · rename_i absent
        obtain ⟨lower, upper, held, skipped⟩ := ih seeks
        refine ⟨by omega, by omega, held, ?_⟩
        intro other above below
        by_cases here : other = slot
        · rw [here]
          simpa using absent
        · exact skipped other (by omega) below

theorem seek_none {page : Page} {left slot : Nat} (seeks : seek page left slot = none) :
    ∀ other, slot ≤ other → other < slot + left → SlottedPage.get page headerSize other = none := by
  induction left generalizing slot with
  | zero =>
      intro other above below
      omega
  | succ left ih =>
      unfold seek at seeks
      split at seeks
      · cases seeks
      · rename_i absent
        intro other above below
        by_cases here : other = slot
        · rw [here]
          simpa using absent
        · exact ih seeks other (by omega) (by omega)

/-- The slots of a page from `slot` on, as `Advance` goes through them. -/
def seekPage (page : Page) (slot : Nat) : Option Nat :=
  seek page (SlottedPage.numSlots page headerSize - slot) slot

theorem seekPage_some {page : Page} {slot found : Nat} (seeks : seekPage page slot = some found) :
    slot ≤ found ∧ (SlottedPage.get page headerSize found).isSome = true ∧
      ∀ other, slot ≤ other → other < found → SlottedPage.get page headerSize other = none := by
  obtain ⟨lower, _, held, skipped⟩ := seek_some seeks
  exact ⟨lower, held, skipped⟩

theorem seekPage_none {page : Page} {slot : Nat} (seeks : seekPage page slot = none) (other : Nat)
    (above : slot ≤ other) : SlottedPage.get page headerSize other = none := by
  by_cases inside : other < SlottedPage.numSlots page headerSize
  · exact seek_none seeks other above (by omega)
  · simp only [SlottedPage.get, Nat.le_of_not_lt inside, ↓reduceIte]

end HeapIterator

namespace HeapFile

variable {view : Int → Option Page}

def place (chain : List Int) (rid : Rid) : ℕ ×ₗ ℕ := toLex (chain.idxOf rid.pageId, rid.slotId)

def Present (view : Int → Option Page) (chain : List Int) (rid : Rid) : Prop :=
  rid.pageId ∈ chain ∧ (storedRecord view rid).isSome = true

theorem place_inj {chain : List Int} {rid other : Rid} (member : rid.pageId ∈ chain)
    (same : place chain rid = place chain other) : rid = other := by
  have parts := Prod.mk.inj (toLex_inj.mp same)
  have pages : rid.pageId = other.pageId := (List.idxOf_inj member).mp parts.1
  cases rid
  cases other
  exact congr (congrArg Rid.mk pages) parts.2

/-- Pages that are linked behind a chain move nothing. -/
theorem place_append {chain : List Int} {rid : Rid} (member : rid.pageId ∈ chain)
    (more : List Int) : place (chain ++ more) rid = place chain rid := by
  rw [place, place, List.idxOf_append_of_mem member]

theorem idxOf_split {before after : List Int} {pageId : Int}
    (distinct : (before ++ pageId :: after).Nodup) :
    (before ++ pageId :: after).idxOf pageId = before.length := by
  have new := List.disjoint_of_nodup_append distinct
  rw [List.idxOf_append_of_notMem (fun old => new old List.mem_cons_self), List.idxOf_cons_self,
    Nat.add_zero]

theorem isSome_storedRecord {rid : Rid} {page : Page} (present : view rid.pageId = some page) :
    (storedRecord view rid).isSome = (SlottedPage.get page headerSize rid.slotId).isSome := by
  rw [storedRecord_eq present, SlottedPage.record_isSome]

/-- The first record id from a slot of the first page of a chain on. -/
def nextRecord (view : Int → Option Page) : List Int → Nat → Option Rid
  | [], _ => none
  | pageId :: rest, slot =>
      match (view pageId).bind fun page => HeapIterator.seekPage page slot with
      | some found => some ⟨pageId, found⟩
      | none => nextRecord view rest 0

theorem nextRecord_mem {chain : List Int} {slot : Nat} {rid : Rid}
    (found : nextRecord view chain slot = some rid) : rid.pageId ∈ chain := by
  induction chain generalizing slot with
  | nil => cases found
  | cons pageId rest ih =>
      unfold nextRecord at found
      split at found
      · cases found
        exact List.mem_cons_self
      · exact List.mem_cons_of_mem _ (ih found)

/-- `nextRecord` finds the first record of a chain at or after a place, or there
is none. -/
theorem nextRecord_least {chain before later : List Int} {slot : Nat}
    (split : chain = before ++ later) (distinct : chain.Nodup)
    (pages : ∀ pageId ∈ chain, ∃ page, view pageId = some page) :
    match nextRecord view later slot with
    | some found => Present view chain found ∧
        toLex (before.length, slot) ≤ place chain found ∧
        ∀ rid, Present view chain rid → toLex (before.length, slot) ≤ place chain rid →
          place chain found ≤ place chain rid
    | none => ∀ rid, Present view chain rid → place chain rid < toLex (before.length, slot) := by
  induction later generalizing before slot with
  | nil =>
      intro rid present
      apply Prod.Lex.toLex_lt_toLex.mpr
      left
      rw [split, List.append_nil] at present ⊢
      exact List.idxOf_lt_length_of_mem present.1
  | cons pageId rest ih =>
      have member : pageId ∈ chain := by
        rw [split]
        exact List.mem_append_right before List.mem_cons_self
      obtain ⟨page, known⟩ := pages pageId member
      have here : chain.idxOf pageId = before.length := by
        rw [split] at distinct ⊢
        exact idxOf_split distinct
      have onPage : ∀ rid : Rid, rid.pageId ∈ chain → chain.idxOf rid.pageId = before.length →
          rid.pageId = pageId := fun rid inside same => (List.idxOf_inj inside).mp (same.trans here.symm)
      unfold nextRecord
      rw [known, Option.bind_some]
      cases sought : HeapIterator.seekPage page slot with
      | some found =>
          obtain ⟨lower, held, skipped⟩ := HeapIterator.seekPage_some sought
          refine ⟨⟨member, ?_⟩, ?_, ?_⟩
          · rwa [isSome_storedRecord known]
          · apply Prod.Lex.toLex_le_toLex.mpr
            exact Or.inr ⟨here.symm, lower⟩
          · intro rid present after
            apply Prod.Lex.toLex_le_toLex.mpr
            rw [here]
            rcases Prod.Lex.toLex_le_toLex.mp after with further | ⟨same, above⟩
            · exact Or.inl further
            · right
              refine ⟨same, ?_⟩
              show found ≤ rid.slotId
              by_contra before
              have stored := present.2
              rw [isSome_storedRecord (by rw [onPage rid present.1 same.symm, known]),
                skipped rid.slotId above (by omega)] at stored
              cases stored
      | none =>
          have further : ∀ rid, Present view chain rid →
              toLex (before.length, slot) ≤ place chain rid →
              toLex (before.length + 1, 0) ≤ place chain rid := by
            intro rid present after
            apply Prod.Lex.toLex_le_toLex.mpr
            rcases Prod.Lex.toLex_le_toLex.mp after with later | ⟨same, above⟩
            · rcases Nat.eq_or_lt_of_le later with next | beyond
              · exact Or.inr ⟨next, Nat.zero_le _⟩
              · exact Or.inl beyond
            · have stored := present.2
              rw [isSome_storedRecord (by rw [onPage rid present.1 same.symm, known]),
                HeapIterator.seekPage_none sought rid.slotId above] at stored
              cases stored
          have rest := @ih (before ++ [pageId]) 0 (by rw [split, List.append_assoc]; rfl)
          rw [List.length_append, List.length_singleton] at rest
          split at rest
          · rename_i found next
            simp only [next]
            obtain ⟨present, lower, least⟩ := rest
            refine ⟨present, ?_, fun rid held after => least rid held (further rid held after)⟩
            apply le_trans _ lower
            exact Prod.Lex.toLex_le_toLex.mpr (Or.inl (Nat.lt_succ_self _))
          · rename_i next
            simp only [next]
            intro rid present
            by_contra after
            exact absurd (rest rid present) (not_lt.mpr (further rid present (not_lt.mp after)))

theorem Chain.suffix {first pageId : Int} {before after : List Int}
    (chain : Chain view first (before ++ pageId :: after)) :
    Chain view pageId (pageId :: after) := by
  induction before generalizing first with
  | nil =>
      cases chain with
      | cons given present layout linked => exact .cons given present layout linked
  | cons current before ih =>
      cases chain with
      | cons given present layout linked => exact ih linked

end HeapFile

namespace HeapIterator

variable {N : Nat} {bm : BufferManager N DiskManager} {view : Int → Option Page}
  {pins : Int → Int} {pages : Int}

/-- An iterator after `Advance` on the rest of its chain. -/
def settled (it : HeapIterator) (view : Int → Option Page) : List Int → HeapIterator
  | [] => { it with hasNext := false }
  | pageId :: rest =>
      match nextRecord view (pageId :: rest) it.currSlot with
      | some rid => { it with currPage := rid.pageId, currSlot := rid.slotId, hasNext := true }
      | none => { it with currPage := invalidPageId, currSlot := 0, hasNext := false }

theorem settled_found {it : HeapIterator} {page : Page} {rest : List Int} {slot : Nat}
    (present : view it.currPage = some page) (found : seekPage page it.currSlot = some slot) :
    it.settled view (it.currPage :: rest) = { it with currSlot := slot, hasNext := true } := by
  simp only [settled, nextRecord, present, Option.bind_some, found]

/-- A page without a further record hands over to the next one. -/
theorem settled_again {it : HeapIterator} {page : Page} {rest : List Int}
    (present : view it.currPage = some page) (missing : seekPage page it.currSlot = none)
    (linked : Chain view (nextPageId page) rest) :
    it.settled view (it.currPage :: rest) =
      HeapIterator.settled { it with currPage := nextPageId page, currSlot := 0 } view rest := by
  have first := linked.first_eq
  cases rest with
  | nil => simp only [settled, nextRecord, present, Option.bind_some, missing, first, List.head?_nil,
      Option.getD_none]
  | cons next rest => simp only [settled, nextRecord, present, Option.bind_some, missing]

theorem settled_place (it : HeapIterator) {chain : List Int}
    (linked : Chain view it.currPage chain) :
    (it.settled view chain).currPage ∈ chain ∨ (it.settled view chain).currPage = invalidPageId := by
  cases chain with
  | nil => exact Or.inr linked.first_eq
  | cons pageId rest =>
      simp only [settled]
      cases found : nextRecord view (pageId :: rest) it.currSlot with
      | some rid => exact Or.inl (nextRecord_mem found)
      | none => exact Or.inr rfl

theorem settled_hasNext (it : HeapIterator) (hasNext : Bool) (chain : List Int) :
    HeapIterator.settled { it with hasNext } view chain = it.settled view chain := by
  cases chain <;> rfl

/-- The pages of a chain that `Advance` goes through from a slot of the first one on. -/
def passed (view : Int → Option Page) : List Int → Nat → List Int
  | [], _ => []
  | pageId :: rest, slot =>
      match (view pageId).bind fun page => seekPage page slot with
      | some _ => [pageId]
      | none => pageId :: passed view rest 0

/-- The loop of `Advance` visits these pages, each once. -/
theorem advanceLoop_visits {chain : List Int} (it : HeapIterator) (unset : it.hasNext = false)
    (linked : Chain view it.currPage chain) (steady : Steady bm view pins pages) :
    ∃ bm', Program.Returns (Program.loop advanceStep it) bm (it.settled view chain) bm' ∧
      Steady bm' view pins pages ∧ (visits (passed view chain it.currSlot)).Returns bm ⟨⟩ bm' ∧
      ∀ rid, nextRecord view chain it.currSlot = some rid →
        ∃ frame, Rested bm' rid.pageId frame := by
  generalize firstEq : it.currPage = first at linked
  induction linked generalizing bm it with
  | nil =>
      refine ⟨bm, Program.Returns.loop_exit ?_, steady,
        Program.pure_returns _ _, fun rid none => by cases none⟩
      simp only [advanceStep, firstEq, ↓reduceIte]
      apply (Program.returns_pure _ _ _ _).mpr
      simp only [settled, ← unset, and_self]
  | @cons pageId page rest given present layout linked ih =>
      subst firstEq
      have valid : it.currPage ≠ invalidPageId := by
        intro same
        rw [same] at given
        exact absurd given (by decide)
      obtain ⟨frame, bm₁, bm₂, requested, opened, released, steady₂, rested⟩ := steady.visit given
      have held : (bm₁.pool frame).data = page := opened.data_eq present
      cases found : seekPage page it.currSlot with
      | some slot =>
          have stops : passed view (it.currPage :: rest) it.currSlot = [it.currPage] := by
            rw [passed, present, Option.bind_some, found]
          refine ⟨bm₂, Program.Returns.loop_exit ?_, steady₂, ?_, ?_⟩
          · rw [settled_found present found]
            simp only [seekPage] at found
            simp only [advanceStep, valid, ↓reduceIte]
            apply requested.bind
            apply (readData_returns bm₁ frame).bind
            rw [held, found]
            exact released.bind (Program.pure_returns _ _)
          · rw [stops]
            exact requested.bind (released.bind (Program.pure_returns _ _))
          · rw [nextRecord, present, Option.bind_some, found]
            intro rid same
            cases same
            exact ⟨frame, rested⟩
      | none =>
          have goesOn : passed view (it.currPage :: rest) it.currSlot =
              it.currPage :: passed view rest 0 := by
            rw [passed, present, Option.bind_some, found]
          obtain ⟨bm', ended, steady', visited, rests⟩ :=
            ih { it with currPage := nextPageId page, currSlot := 0 } unset steady₂ rfl
          refine ⟨bm', ?_, steady', ?_, ?_⟩
          · rw [settled_again present found linked]
            refine Program.Returns.loop_again ?_ ended
            simp only [seekPage] at found
            simp only [advanceStep, valid, ↓reduceIte]
            apply requested.bind
            apply (readData_returns bm₁ frame).bind
            rw [held, found]
            exact released.bind (Program.pure_returns _ _)
          · rw [goesOn]
            exact requested.bind (released.bind visited)
          · rw [nextRecord, present, Option.bind_some, found]
            exact rests

theorem advance_visits {chain : List Int} {it : HeapIterator}
    (linked : Chain view it.currPage chain) (steady : Steady bm view pins pages) :
    ∃ bm', it.advance.Returns bm (it.settled view chain) bm' ∧ Steady bm' view pins pages ∧
      (visits (passed view chain it.currSlot)).Returns bm ⟨⟩ bm' ∧
      ∀ rid, nextRecord view chain it.currSlot = some rid →
        ∃ frame, Rested bm' rid.pageId frame := by
  obtain ⟨bm', ended, rest⟩ := advanceLoop_visits { it with hasNext := false } rfl linked steady
  rw [settled_hasNext] at ended
  exact ⟨bm', ended, rest⟩

theorem advance_returns {chain : List Int} {it : HeapIterator}
    (linked : Chain view it.currPage chain) (steady : Steady bm view pins pages) :
    ∃ bm', it.advance.Returns bm (it.settled view chain) bm' ∧ Steady bm' view pins pages := by
  obtain ⟨bm', ended, steady', _⟩ := advance_visits linked steady
  exact ⟨bm', ended, steady'⟩

end HeapIterator

end RelationalDb
