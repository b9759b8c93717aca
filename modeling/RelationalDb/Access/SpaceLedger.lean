import RelationalDb.Access.SheetRuns

set_option autoImplicit false

namespace RelationalDb

open HeapFile
open SlottedPage (Entry Sheet)

namespace SlottedPage.Sheet

variable {sheet filled : Sheet} {slotId : Nat} {data : List UInt8}

/-- How many bytes of new space an update takes. -/
def moved (sheet : Sheet) (slotId : Nat) (newData : List UInt8) : Nat :=
  match sheet.entries[slotId]? with
  | none => 0
  | some entry =>
      if newData.length ≤ entryLength entry then 0
      else if newData.length ≤ sheet.free then newData.length
      else 0

theorem insert_free (inserted : sheet.insert data = (some slotId, filled)) :
    filled.free + (data.length + 4) = sheet.free := by
  unfold insert at inserted
  split at inserted
  · rename_i fits
    cases inserted
    exact Nat.sub_add_cancel fits
  · cases inserted

theorem insert_refused (refused : sheet.insert data = (none, filled)) : filled = sheet := by
  unfold insert at refused
  split at refused
  · cases refused
  · cases refused
    rfl

theorem update_free (sheet : Sheet) (slotId : Nat) (newData : List UInt8) :
    (sheet.update slotId newData).2.free + sheet.moved slotId newData = sheet.free := by
  cases found : sheet.entries[slotId]? with
  | none =>
      rw [update, moved, found]
      rfl
  | some entry =>
      simp only [update, moved, found]
      by_cases shorter : newData.length ≤ entryLength entry
      · simp only [shorter, ↓reduceIte, Nat.add_zero]
      · by_cases fits : newData.length ≤ sheet.free
        · simp only [shorter, fits, ↓reduceIte, Nat.sub_add_cancel fits]
        · simp only [shorter, fits, ↓reduceIte, Nat.add_zero]

theorem delete_free (sheet : Sheet) (slotId : Nat) :
    (sheet.delete slotId).2.free = sheet.free := by
  unfold delete
  split
  · rfl
  · rfl

end SlottedPage.Sheet

namespace SheetStore

variable {store : SheetStore} {sheets sheets' : List (Int × Sheet)} {i j : Nat} {rid : Rid}
  {data : List UInt8}

def freeSpace (sheets : List (Int × Sheet)) : Nat := (sheets.map fun entry => entry.2.free).sum

theorem freeSpace_cons (entry : Int × Sheet) (sheets : List (Int × Sheet)) :
    freeSpace (entry :: sheets) = entry.2.free + freeSpace sheets := by
  rw [freeSpace, List.map_cons, List.sum_cons, freeSpace]

/-- What a call takes of the free space of heap `i`: a record that was inserted, with its slot, and
a record that was moved. -/
def cost (store : SheetStore) (i : Nat) : HeapOp → Nat
  | .insert j data =>
      if j = i ∧ ((store.withFirst j).insertInto j data).1.isSome = true then data.length + 4
      else 0
  | .update j rid data =>
      if j = i then ((store.sheetAt j rid.pageId).map (·.moved rid.slotId data)).getD 0 else 0
  | _ => 0

/-- What the calls of a run have taken in all. -/
def spent (pages : Int) (i : Nat) : List HeapOp → Nat
  | [] => 0
  | op :: ops => spent pages i ops + (after pages ops).cost i op

theorem placeIn_ledger (placed : placeIn data sheets = some (rid, sheets')) :
    freeSpace sheets' + (data.length + 4) = freeSpace sheets ∧
      sheets'.length = sheets.length := by
  induction sheets generalizing sheets' rid with
  | nil => cases placed
  | cons entry rest ih =>
      obtain ⟨pageId, sheet⟩ := entry
      cases inserted : sheet.insert data with
      | mk slotId filled =>
          cases slotId with
          | some slotId =>
              rw [placeIn_here rest inserted, Option.some.injEq, Prod.mk.injEq] at placed
              obtain ⟨_, rfl⟩ := placed
              have taken := Sheet.insert_free inserted
              rw [freeSpace_cons, freeSpace_cons]
              refine ⟨?_, rfl⟩
              show filled.free + freeSpace rest + (data.length + 4) = sheet.free + freeSpace rest
              omega
          | none =>
              rw [placeIn_later rest inserted, Option.map_eq_some_iff] at placed
              obtain ⟨placed', further, same⟩ := placed
              cases same
              obtain ⟨balance, length⟩ := ih further
              rw [freeSpace_cons, freeSpace_cons, List.length_cons, List.length_cons, length]
              exact ⟨by omega, rfl⟩

theorem alter_ledger {change : Sheet → Bool × Sheet} {lost : Sheet → Nat}
    (balance : ∀ sheet, (change sheet).2.free + lost sheet = sheet.free) (pageId : Int)
    (sheets : List (Int × Sheet)) :
    freeSpace (alter pageId change sheets).2 +
        (((sheets.find? (·.1 = pageId)).map Prod.snd).map lost).getD 0 = freeSpace sheets ∧
      (alter pageId change sheets).2.length = sheets.length := by
  induction sheets with
  | nil => exact ⟨rfl, rfl⟩
  | cons entry rest ih =>
      obtain ⟨other, sheet⟩ := entry
      rw [alter]
      by_cases here : other = pageId
      · have own := balance sheet
        rw [if_pos here, freeSpace_cons, freeSpace_cons,
          List.find?_cons_of_pos (by simpa using here)]
        refine ⟨?_, rfl⟩
        show (change sheet).2.free + freeSpace rest + lost sheet = sheet.free + freeSpace rest
        omega
      · obtain ⟨later, length⟩ := ih
        rw [if_neg here, freeSpace_cons, freeSpace_cons,
          List.find?_cons_of_neg (by simpa using here)]
        refine ⟨?_, ?_⟩
        · show sheet.free + freeSpace (alter pageId change rest).2 + _ = sheet.free + _
          omega
        · rw [List.length_cons, List.length_cons, length]

theorem sheets_setSheets (inside : j < store.heaps.length) (sheets : List (Int × Sheet)) :
    (store.setSheets j sheets).sheets j = sheets := by
  rw [SheetStore.sheets, setSheets, List.getElem?_set_self inside]
  rfl

theorem sheets_setSheets_of_ne (apart : j ≠ i) (sheets : List (Int × Sheet)) :
    (store.setSheets j sheets).sheets i = store.sheets i := by
  rw [SheetStore.sheets, setSheets, List.getElem?_set_ne apart, SheetStore.sheets]

/-- The free space of heap `i` and what was taken of it make up its pages. -/
def Balanced (before after : SheetStore) (i taken : Nat) : Prop :=
  freeSpace (after.sheets i) + taken + 8180 * (before.sheets i).length =
    freeSpace (before.sheets i) + 8180 * (after.sheets i).length

theorem Balanced.refl (store : SheetStore) (i : Nat) : Balanced store store i 0 := rfl

theorem Balanced.trans {first second third : SheetStore} {taken taken' : Nat}
    (before : Balanced first second i taken) (after : Balanced second third i taken') :
    Balanced first third i (taken + taken') := by
  unfold Balanced at *
  omega

theorem setSheets_balanced (inside : j < store.heaps.length) {taken : Nat}
    (balance : freeSpace sheets + taken + 8180 * (store.sheets j).length =
      freeSpace (store.sheets j) + 8180 * sheets.length) (pages : Int) (i : Nat) :
    Balanced store { store.setSheets j sheets with pages := pages } i
      (if j = i then taken else 0) := by
  show freeSpace ((store.setSheets j sheets).sheets i) + _ + _ =
    _ + 8180 * ((store.setSheets j sheets).sheets i).length
  by_cases same : j = i
  · subst same
    rw [sheets_setSheets inside, if_pos rfl]
    exact balance
  · rw [sheets_setSheets_of_ne same, if_neg same]
    rfl

theorem withFirst_balanced (inside : j < store.heaps.length) (i : Nat) :
    Balanced store (store.withFirst j) i 0 := by
  unfold withFirst
  split
  · rename_i none
    have balanced := @setSheets_balanced store [(store.pages, newSheet)] j inside 0
      (by rw [none]; rfl) (store.pages + 1) i
    rw [ite_self] at balanced
    exact balanced
  · exact .refl store i

theorem withFirst_count (store : SheetStore) (j : Nat) :
    (store.withFirst j).heaps.length = store.heaps.length := by
  unfold withFirst
  split
  · exact List.length_set
  · rfl

theorem freeSpace_append (sheets : List (Int × Sheet)) (entry : Int × Sheet) :
    freeSpace (sheets ++ [entry]) = freeSpace sheets + entry.2.free := by
  rw [freeSpace, List.map_append, List.sum_append, List.map_singleton, List.sum_singleton,
    freeSpace]

theorem insertInto_balanced (inside : j < store.heaps.length) (data : List UInt8) (i : Nat) :
    Balanced store (store.insertInto j data).2 i
      (if j = i ∧ (store.insertInto j data).1.isSome = true then data.length + 4 else 0) := by
  cases placed : placeIn data (store.sheets j) with
  | some found =>
      obtain ⟨balance, length⟩ := @placeIn_ledger _ found.2 found.1 data placed
      have balanced := @setSheets_balanced store found.2 j inside (data.length + 4)
        (by rw [length, balance]) store.pages i
      rw [insertInto, placed]
      simp only [Option.isSome_some, and_true]
      exact balanced
  | none =>
      rw [insertInto, placed]
      cases inserted : newSheet.insert data with
      | mk slotId filled =>
          have all : newSheet.free = 8180 := rfl
          cases slotId with
          | some slotId =>
              have taken := Sheet.insert_free inserted
              have balanced := @setSheets_balanced store
                (store.sheets j ++ [(store.pages, filled)]) j inside (data.length + 4) (by
                  rw [freeSpace_append, List.length_append, List.length_singleton]
                  show _ + filled.free + _ + _ = _
                  omega) (store.pages + 1) i
              simp only [Option.map_some, Option.isSome_some, and_true]
              exact balanced
          | none =>
              have same := Sheet.insert_refused inserted
              have balanced := @setSheets_balanced store
                (store.sheets j ++ [(store.pages, filled)]) j inside 0 (by
                  rw [freeSpace_append, List.length_append, List.length_singleton, same]
                  show _ + newSheet.free + _ + _ = _
                  omega) (store.pages + 1) i
              simp only [Option.map_none, Option.isSome_none, Bool.false_eq_true, and_false,
                ↓reduceIte]
              rw [ite_self] at balanced
              exact balanced

theorem edit_balanced {change : Sheet → Bool × Sheet} {lost : Sheet → Nat}
    (balance : ∀ sheet, (change sheet).2.free + lost sheet = sheet.free) (pageId : Int) (i : Nat) :
    Balanced store (store.edit j pageId change).2 i
      (if j = i then ((store.sheetAt j pageId).map lost).getD 0 else 0) := by
  obtain ⟨free, length⟩ := alter_ledger balance pageId (store.sheets j)
  by_cases inside : j < store.heaps.length
  · exact @setSheets_balanced store (alter pageId change (store.sheets j)).2 j inside _
      (by rw [length, ← free]; rfl) store.pages i
  · have none : store.sheets j = [] := by
      rw [SheetStore.sheets, List.getElem?_eq_none (Nat.le_of_not_lt inside)]
      rfl
    have nothing : store.sheetAt j pageId = Option.none := by
      rw [sheetAt, none]
      rfl
    have same : (store.edit j pageId change).2 = store := by
      rw [edit, none]
      show { store with heaps := store.heaps.set j [] } = store
      rw [List.set_eq_of_length_le (Nat.le_of_not_lt inside)]
    rw [same, nothing]
    simp only [Option.map_none, Option.getD_none, ite_self]
    exact .refl store i

/-- A new heap behind the others. -/
theorem append_balanced {pages : Int} (balance : freeSpace sheets = 8180 * sheets.length)
    (i : Nat) : Balanced store ⟨pages, store.heaps ++ [sheets]⟩ i 0 := by
  unfold Balanced SheetStore.sheets
  simp only
  by_cases old : i < store.heaps.length
  · rw [List.getElem?_append_left old]
    omega
  · rw [List.getElem?_append_right (Nat.le_of_not_lt old),
      List.getElem?_eq_none (Nat.le_of_not_lt old), List.getElem?_singleton]
    split
    · have none : freeSpace [] = 0 := rfl
      simp only [Option.getD_some, Option.getD_none, List.length_nil, balance, none]
      omega
    · rfl

theorem step_balanced {op : HeapOp} (made : ∀ j data, op = .insert j data → j < store.heaps.length)
    (i : Nat) : Balanced store (store.step op).2 i (store.cost i op) := by
  cases op with
  | create fileId => exact append_balanced rfl i
  | openEmpty fileId => exact append_balanced rfl i
  | insert j data =>
      have inside := made j data rfl
      have placed := @insertInto_balanced (store.withFirst j) j
        (by rw [withFirst_count]; exact inside) data i
      have both := (withFirst_balanced inside i).trans placed
      rw [Nat.zero_add] at both
      exact both
  | get j rid => exact .refl store i
  | update j rid data =>
      exact edit_balanced (fun sheet => Sheet.update_free sheet rid.slotId data) rid.pageId i
  | delete j rid =>
      have balanced := @edit_balanced store j (·.delete rid.slotId) (fun _ => 0)
        (fun sheet => Sheet.delete_free sheet rid.slotId) rid.pageId i
      have nothing : ∀ found : Option Sheet, (found.map fun _ => 0).getD 0 = 0 := by
        intro found
        cases found <;> rfl
      rw [nothing, ite_self] at balanced
      exact balanced

end SheetStore

namespace World

variable {N : Nat}

/-- `FreeSpace` of a page. -/
def freeBytes (view : Int → Option Page) (pageId : Int) : Nat :=
  ((view pageId).map (SlottedPage.freeSpace · headerSize)).getD 0

theorem freeSpace_sheetsOf {view : Int → Option Page} {first : Int} {chain : List Int}
    (linked : Chain view first chain) :
    SheetStore.freeSpace (sheetsOf view chain) = (chain.map (freeBytes view)).sum := by
  rw [SheetStore.freeSpace, sheetsOf, List.map_map]
  congr 1
  apply List.map_congr_left
  intro pageId member
  obtain ⟨_, page, present, _⟩ := linked.page member
  rw [Function.comp_apply, sheetOf_eq present, freeBytes, present, Option.map_some,
    Option.getD_some]
  exact SlottedPage.sheet_free page headerSize

/-- There is no insertion into a heap file that was never made. -/
theorem insert_made {i : Nat} {data : List UInt8} {w w' : World N}
    {outcome : Except Error HeapAnswer}
    (ended : (HeapOp.insert i data).run w = some (outcome, w')) : i < w.heaps.length := by
  by_contra outside
  have missing : (heapAt i : Program (World N) Error HeapFile) w = none := by
    rw [heapAt, List.getElem?_eq_none (Nat.le_of_not_lt outside)]
    rfl
  simp only [HeapOp.run, bind, missing] at ended
  cases ended

theorem ledger [NeZero N] {raw : Fin N → Page} {file : File}
    (small : file.size / pageSize < 2 ^ 31) {log : List HeapEvent} {w : World N}
    (run : HeapRun GivenRids (start raw file) log w) :
    (∃ s, SheetState (file.size / pageSize : Nat) log w s) ∧
      ∀ i, SheetStore.Balanced ⟨(file.size / pageSize : Nat), []⟩
        (SheetStore.after (file.size / pageSize : Nat) (log.map HeapEvent.op)) i
        (SheetStore.spent (file.size / pageSize : Nat) i (log.map HeapEvent.op)) := by
  refine ⟨sheetState small run, ?_⟩
  apply run.invariant fun log _ => ∀ i, SheetStore.Balanced ⟨(file.size / pageSize : Nat), []⟩
    (SheetStore.after (file.size / pageSize : Nat) (log.map HeapEvent.op)) i
    (SheetStore.spent (file.size / pageSize : Nat) i (log.map HeapEvent.op))
  · exact fun i => .refl _ i
  · intro log w event w' reached balanced taken i
    obtain ⟨op, outcome⟩ := event
    obtain ⟨ended, _⟩ : op.run w = some (outcome, w') ∧ _ := taken
    obtain ⟨s, holds⟩ := sheetState small reached
    apply (balanced i).trans
    apply SheetStore.step_balanced
    intro j data same
    cases same
    rw [holds.abstracts.count, ← holds.state.1.heaps]
    exact insert_made ended

/-- Where the bytes of the pages of a heap are: what is free and what insertions and moves of
records have taken make up its pages. What a deletion or a move leaves behind is never free again.
-/
theorem space_ledger [NeZero N] (raw : Fin N → Page) (file : File)
    (small : file.size / pageSize < 2 ^ 31) (log : List HeapEvent) (w : World N)
    (run : HeapRun GivenRids (start raw file) log w) (i : Nat) (heap : HeapFile)
    (present : w.heaps[i]? = some heap) :
    ∃ chain, Chain w.bm.contents heap.firstPageId chain ∧
      (chain.map (freeBytes w.bm.contents)).sum +
          SheetStore.spent (file.size / pageSize : Nat) i (log.map HeapEvent.op) =
        8180 * chain.length := by
  obtain ⟨⟨s, holds⟩, balanced⟩ := ledger small run
  obtain ⟨chain, linked, _, same⟩ := holds.chain present
  have whole := balanced i
  unfold SheetStore.Balanced SheetStore.sheets at whole
  rw [same] at whole
  refine ⟨chain, linked, ?_⟩
  rw [← freeSpace_sheetsOf linked]
  have length : (sheetsOf w.bm.contents chain).length = chain.length := List.length_map _
  simp only [Option.getD_some, length] at whole
  rw [List.getElem?_nil] at whole
  have none : SheetStore.freeSpace [] = 0 := rfl
  simp only [Option.getD_none, List.length_nil, none] at whole
  omega

/-- One byte and its slot. -/
theorem space_ledger_oneRecord : ∃ (w : World 1) (chain : List Int),
    HeapRun GivenRids (start (fun _ _ => 0) File.empty) oneRecord w ∧
      (chain.map (freeBytes w.bm.contents)).sum + 5 = 8180 * chain.length := by
  obtain ⟨w, s, run, holds, _⟩ := oneRecord_run GivenRids trivial (by decide : [7].length < 2 ^ 63)
  obtain ⟨⟨_, sheets⟩, _⟩ := ledger (by decide) run
  have count := sheets.abstracts.count
  rw [← sheets.state.1.heaps,
    show (SheetStore.after _ (oneRecord.map HeapEvent.op)).heaps.length = 1 from rfl] at count
  obtain ⟨chain, _, balance⟩ := space_ledger _ _ (by decide) _ w run 0 w.heaps[0]
    (List.getElem?_eq_getElem (by omega))
  exact ⟨w, chain, run, balance⟩

end World

end RelationalDb
