import RelationalDb.Access.HeapRuns
import RelationalDb.Storage.PageSheets

set_option autoImplicit false

namespace RelationalDb

open HeapFile
open SlottedPage (Appended Layout Sheet)

/-- The id of the next page, and the pages of each heap file with their ids. -/
structure SheetStore where
  pages : Int
  heaps : List (List (Int × Sheet))

namespace SheetStore

def newSheet : Sheet := .empty 8180

/-- First fit. -/
def placeIn (data : List UInt8) : List (Int × Sheet) → Option (Rid × List (Int × Sheet))
  | [] => none
  | (pageId, sheet) :: rest =>
      match sheet.insert data with
      | (some slotId, filled) => some (⟨pageId, slotId⟩, (pageId, filled) :: rest)
      | (none, _) => (placeIn data rest).map fun placed => (placed.1, (pageId, sheet) :: placed.2)

def sheets (store : SheetStore) (i : Nat) : List (Int × Sheet) := store.heaps[i]?.getD []

def setSheets (store : SheetStore) (i : Nat) (sheets : List (Int × Sheet)) : SheetStore :=
  { store with heaps := store.heaps.set i sheets }

/-- The first page of a heap file that was opened without one. -/
def withFirst (store : SheetStore) (i : Nat) : SheetStore :=
  if store.sheets i = [] then
    { store.setSheets i [(store.pages, newSheet)] with pages := store.pages + 1 }
  else store

/-- Where no page has room the heap gets a new one, whether the record fits it or not. -/
def insertInto (store : SheetStore) (i : Nat) (data : List UInt8) : Option Rid × SheetStore :=
  match placeIn data (store.sheets i) with
  | some (rid, sheets) => (some rid, store.setSheets i sheets)
  | none =>
      let (slotId, filled) := newSheet.insert data
      (slotId.map fun slotId => ⟨store.pages, slotId⟩,
        { store.setSheets i (store.sheets i ++ [(store.pages, filled)]) with
          pages := store.pages + 1 })

def sheetAt (store : SheetStore) (i : Nat) (pageId : Int) : Option Sheet :=
  ((store.sheets i).find? (·.1 = pageId)).map Prod.snd

/-- A change of the page with this id. -/
def alter (pageId : Int) (change : Sheet → Bool × Sheet) :
    List (Int × Sheet) → Bool × List (Int × Sheet)
  | [] => (false, [])
  | (other, sheet) :: rest =>
      if other = pageId then ((change sheet).1, (other, (change sheet).2) :: rest)
      else ((alter pageId change rest).1, (other, sheet) :: (alter pageId change rest).2)

def edit (store : SheetStore) (i : Nat) (pageId : Int) (change : Sheet → Bool × Sheet) :
    Bool × SheetStore :=
  let (done, sheets) := alter pageId change (store.sheets i)
  (done, store.setSheets i sheets)

def step (store : SheetStore) : HeapOp → HeapAnswer × SheetStore
  | .create _ => (.made store.heaps.length,
      ⟨store.pages + 1, store.heaps ++ [[(store.pages, newSheet)]]⟩)
  | .openEmpty _ => (.made store.heaps.length, { store with heaps := store.heaps ++ [[]] })
  | .insert i data =>
      let (rid, store) := (store.withFirst i).insertInto i data
      (.placed rid, store)
  | .get i rid => (.found ((store.sheetAt i rid.pageId).bind (·.get rid.slotId)), store)
  | .update i rid data =>
      let (done, store) := store.edit i rid.pageId (·.update rid.slotId data)
      (.done done, store)
  | .delete i rid =>
      let (done, store) := store.edit i rid.pageId (·.delete rid.slotId)
      (.done done, store)

/-- The store after some calls, the latest first, on a file with so many pages. -/
def after (pages : Int) : List HeapOp → SheetStore
  | [] => ⟨pages, []⟩
  | op :: ops => ((after pages ops).step op).2

def answers (pages : Int) : List HeapOp → List HeapAnswer
  | [] => []
  | op :: ops => ((after pages ops).step op).1 :: answers pages ops

end SheetStore

open SheetStore (newSheet placeIn)

def sheetOf (view : Int → Option Page) (pageId : Int) : Int × Sheet :=
  (pageId, ((view pageId).map (SlottedPage.sheet · headerSize)).getD newSheet)

def sheetsOf (view : Int → Option Page) (chain : List Int) : List (Int × Sheet) :=
  chain.map (sheetOf view)

variable {view view' : Int → Option Page} {chain : List Int} {pageId : Int} {page page' : Page}
  {data : List UInt8}

theorem sheetsOf_cons (view : Int → Option Page) (pageId : Int) (rest : List Int) :
    sheetsOf view (pageId :: rest) = sheetOf view pageId :: sheetsOf view rest := rfl

theorem sheetOf_eq (present : view pageId = some page) :
    sheetOf view pageId = (pageId, SlottedPage.sheet page headerSize) := by
  rw [sheetOf, present]
  rfl

theorem sheetsOf_congr (same : ∀ pageId ∈ chain, view' pageId = view pageId) :
    sheetsOf view' chain = sheetsOf view chain := by
  apply List.map_congr_left
  intro pageId member
  rw [sheetOf, sheetOf, same pageId member]

theorem initHeapPage_sheet (raw : Page) :
    SlottedPage.sheet (initHeapPage raw) headerSize = newSheet := by
  have none : SlottedPage.entries (initHeapPage raw) headerSize = [] := by
    apply List.eq_nil_of_length_eq_zero
    rw [SlottedPage.entries_length, initHeapPage_numSlots]
  rw [SlottedPage.sheet, initHeapPage_freeSpace, none]
  rfl

/-- A link to a new page leaves the slots alone. -/
theorem setNextPageId_sheet (page : Page) (next : Int) (layout : Layout page headerSize) :
    SlottedPage.sheet (setNextPageId page next) headerSize =
      SlottedPage.sheet page headerSize := by
  have directory : SlottedPage.freeSpace (setNextPageId page next) headerSize =
      SlottedPage.freeSpace page headerSize := by
    rw [SlottedPage.freeSpace_eq _ _ (setNextPageId_layout page next layout),
      SlottedPage.freeSpace_eq _ _ layout, setNextPageId_freeSpaceOffset,
      SlottedPage.directoryEnd, setNextPageId_numSlots, SlottedPage.directoryEnd]
  have slots : SlottedPage.entries (setNextPageId page next) headerSize =
      SlottedPage.entries page headerSize := by
    rw [SlottedPage.entries, SlottedPage.entries, setNextPageId_numSlots]
    exact List.map_congr_left fun slotId _ =>
      SlottedPage.entry_eq (setNextPageId_record page next slotId layout)
  rw [SlottedPage.sheet, directory, slots, SlottedPage.sheet]

theorem fresh_sheet {result : Option Rid} (fresh : FreshPage data pageId result page) :
    newSheet.insert data = (result.map Rid.slotId, SlottedPage.sheet page headerSize) ∧
      result = (newSheet.insert data).1.map fun slotId => ⟨pageId, slotId⟩ := by
  cases fresh with
  | @placed raw page fits appended =>
      have room : data.length + 4 ≤ SlottedPage.freeSpace (initHeapPage raw) headerSize := by
        rw [initHeapPage_freeSpace]
        omega
      have filled := appended.sheet (initHeapPage_layout raw) room
      rw [initHeapPage_sheet, initHeapPage_numSlots] at filled
      rw [filled]
      exact ⟨rfl, rfl⟩
  | @tooLong raw long =>
      have full : SlottedPage.freeSpace (initHeapPage raw) headerSize < data.length + 4 := by
        rw [initHeapPage_freeSpace]
        omega
      have refused := SlottedPage.sheet_insert_full full
      rw [initHeapPage_sheet] at refused
      rw [refused, initHeapPage_sheet]
      exact ⟨rfl, rfl⟩

theorem sheetsOf_update (absent : pageId ∉ chain) (value : Option Page) :
    sheetsOf (Function.update view pageId value) chain = sheetsOf view chain := by
  apply sheetsOf_congr
  intro other member
  apply Function.update_of_ne
  rintro rfl
  exact absent member

theorem sheetOf_update {other : Int} (apart : other ≠ pageId) (value : Option Page) :
    sheetOf (Function.update view pageId value) other = sheetOf view other := by
  rw [sheetOf, Function.update_of_ne apart, sheetOf]

theorem alter_sheetsOf (distinct : chain.Nodup) (member : pageId ∈ chain)
    (present : view pageId = some page) {done : Bool} {change : Sheet → Bool × Sheet}
    (same : change (SlottedPage.sheet page headerSize) =
      (done, SlottedPage.sheet page' headerSize)) :
    SheetStore.alter pageId change (sheetsOf view chain) =
      (done, sheetsOf (Function.update view pageId (some page')) chain) := by
  induction chain with
  | nil => cases member
  | cons first rest ih =>
      rw [List.nodup_cons] at distinct
      rw [sheetsOf_cons, sheetsOf_cons]
      by_cases here : first = pageId
      · subst here
        rw [sheetOf_eq present, sheetOf_eq (Function.update_self _ _ _),
          sheetsOf_update distinct.1, SheetStore.alter, if_pos rfl, same]
      · have later := ih distinct.2 ((List.mem_cons.mp member).resolve_left (Ne.symm here))
        rw [sheetOf_update here, sheetOf, SheetStore.alter, if_neg here, later]

theorem sheetsOf_find (present : view pageId = some page) (member : pageId ∈ chain) :
    (sheetsOf view chain).find? (·.1 = pageId) =
      some (pageId, SlottedPage.sheet page headerSize) := by
  induction chain with
  | nil => cases member
  | cons first rest ih =>
      rw [sheetsOf_cons]
      by_cases same : first = pageId
      · subst same
        rw [sheetOf_eq present]
        exact List.find?_cons_of_pos (decide_eq_true rfl)
      · have later := (List.mem_cons.mp member).resolve_left (Ne.symm same)
        refine (List.find?_cons_of_neg ?_).trans (ih later)
        rw [decide_eq_true_eq]
        exact same

theorem placeIn_here {sheet filled : Sheet} {slotId : Nat} (rest : List (Int × Sheet))
    (fits : sheet.insert data = (some slotId, filled)) :
    placeIn data ((pageId, sheet) :: rest) = some (⟨pageId, slotId⟩, (pageId, filled) :: rest) := by
  rw [placeIn, fits]

theorem placeIn_later {sheet same : Sheet} (rest : List (Int × Sheet))
    (full : sheet.insert data = (none, same)) : placeIn data ((pageId, sheet) :: rest) =
      (placeIn data rest).map fun placed => (placed.1, (pageId, sheet) :: placed.2) := by
  rw [placeIn, full]

theorem placeIn_full (known : ∀ pageId ∈ chain, ∃ page, view pageId = some page)
    (full : chain.find? (HeapFile.room view data) = none) :
    placeIn data (sheetsOf view chain) = none := by
  induction chain with
  | nil => rfl
  | cons first rest ih =>
      obtain ⟨page, present⟩ := known first List.mem_cons_self
      rw [List.find?_eq_none] at full
      have noRoom := full first List.mem_cons_self
      rw [room_iff present, Nat.not_le] at noRoom
      have later := ih (fun pageId member => known pageId (List.mem_cons_of_mem _ member))
        (List.find?_eq_none.mpr fun pageId member => full pageId (List.mem_cons_of_mem _ member))
      rw [sheetsOf_cons, sheetOf_eq present,
        placeIn_later _ (SlottedPage.sheet_insert_full noRoom), later, Option.map_none]

theorem placeIn_found
    (known : ∀ pageId ∈ chain, ∃ page, view pageId = some page ∧ Layout page headerSize)
    (distinct : chain.Nodup) (found : chain.find? (HeapFile.room view data) = some pageId)
    (present : view pageId = some page) (appended : Appended page page' headerSize data) :
    placeIn data (sheetsOf view chain) = some (⟨pageId, SlottedPage.numSlots page headerSize⟩,
      sheetsOf (Function.update view pageId (some page')) chain) := by
  induction chain with
  | nil => cases found
  | cons first rest ih =>
      obtain ⟨page₁, present₁, layout⟩ := known first List.mem_cons_self
      rw [List.nodup_cons] at distinct
      by_cases fits : HeapFile.room view data first = true
      · rw [List.find?_cons_of_pos fits, Option.some.injEq] at found
        subst found
        rw [present, Option.some.injEq] at present₁
        subst present₁
        rw [sheetsOf_cons, sheetOf_eq present, sheetsOf_cons,
          sheetOf_eq (Function.update_self _ _ _),
          placeIn_here _ (appended.sheet layout ((room_iff present).mp fits)),
          sheetsOf_update distinct.1]
      · rw [List.find?_cons_of_neg fits] at found
        have later := ih (fun pageId member => known pageId (List.mem_cons_of_mem _ member))
          distinct.2 found
        have apart : first ≠ pageId := by
          rintro rfl
          exact distinct.1 (List.mem_of_find?_eq_some found)
        rw [room_iff present₁, Nat.not_le] at fits
        rw [sheetsOf_cons, sheetsOf_cons, sheetOf_update apart, sheetOf_eq present₁,
          placeIn_later _ (SlottedPage.sheet_insert_full fits), later, Option.map_some]

end RelationalDb
