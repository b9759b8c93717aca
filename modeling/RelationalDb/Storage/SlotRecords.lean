import RelationalDb.Storage.SlottedPageRuns

set_option autoImplicit false

namespace RelationalDb.SlottedPage

abbrev Entry : Type := Option {data : List UInt8 // data ≠ []}

def Entry.ofBytes (data : List UInt8) : Entry :=
  if nonempty : data ≠ [] then some ⟨data, nonempty⟩ else none

def Entry.bytes (entry : Entry) : Option (List UInt8) := entry.map Subtype.val

@[simp] theorem Entry.bytes_ofBytes (data : List UInt8) :
    (Entry.ofBytes data).bytes = visible data := by
  by_cases empty : data = [] <;> simp [Entry.ofBytes, Entry.bytes, visible, empty]

theorem Entry.bytes_injective {first second : Entry} (same : first.bytes = second.bytes) :
    first = second :=
  Option.map_injective (fun _ _ => Subtype.ext) same

namespace PageOp

/-- A call on entries that are named by their places. -/
def onEntries (op : PageOp) (answer : PageAnswer) (entries : List Entry) : List Entry :=
  match op, answer with
  | insert data, .slot (some _) => entries ++ [Entry.ofBytes data]
  | update slotId newData, .done true => entries.set slotId (Entry.ofBytes newData)
  | delete slotId, .done true => entries.set slotId none
  | _, _ => entries

/-- The slot a call is about. -/
def slot (page : Page) (base : Nat) : PageOp → Nat
  | insert _ => numSlots page base
  | update slotId _ => slotId
  | delete slotId => slotId

end PageOp

/-- The entries after some calls, with the answers they got. -/
def replay : List PageEvent → List Entry
  | [] => []
  | event :: log => event.op.onEntries event.answer (replay log)

/-- `nullopt` or `false`. -/
def PageAnswer.refused : PageAnswer → Bool
  | slot slotId => slotId.isNone
  | done success => !success

variable {base : Nat} {page page' : Page}

/-- The entry that `Get` shows of a slot. -/
def entry (page : Page) (base slotId : Nat) : Entry :=
  (record page base slotId).bind Entry.ofBytes

def entries (page : Page) (base : Nat) : List Entry :=
  (List.range (numSlots page base)).map (entry page base)

theorem record_inside {slotId : Nat} {data : List UInt8}
    (found : record page base slotId = some data) : slotId < numSlots page base := by
  apply Nat.lt_of_not_le
  intro outside
  rw [record_none page base slotId outside] at found
  cases found

theorem record_nonempty {slotId : Nat} {data : List UInt8}
    (found : record page base slotId = some data) : data ≠ [] := by
  rw [record_eq page base slotId (record_inside found), visible] at found
  split at found
  · cases found
  · rename_i nonempty
    cases found
    exact nonempty

@[simp] theorem entry_bytes (page : Page) (base slotId : Nat) :
    (entry page base slotId).bytes = record page base slotId := by
  cases found : record page base slotId with
  | none => rw [entry, found]; rfl
  | some data =>
      have nonempty := record_nonempty found
      rw [entry, found, Option.bind_some, Entry.bytes_ofBytes, visible, if_neg nonempty]

@[simp] theorem entries_length (page : Page) (base : Nat) :
    (entries page base).length = numSlots page base := by
  simp [entries]

theorem entries_getElem? {slotId : Nat} (inside : slotId < numSlots page base) :
    (entries page base)[slotId]? = some (entry page base slotId) := by
  simp [entries, inside]

/-- `Get` of a slot id is the entry at its place. -/
theorem record_entries (page : Page) (base slotId : Nat) :
    record page base slotId = ((entries page base)[slotId]?).bind Entry.bytes := by
  by_cases inside : slotId < numSlots page base
  · rw [entries_getElem? inside, Option.bind_some, entry_bytes]
  · have outside : (entries page base)[slotId]? = none := by
      rw [List.getElem?_eq_none_iff, entries_length]
      omega
    rw [outside, record_none page base slotId (by omega)]
    rfl

theorem entry_eq {slotId slotId' : Nat} (same : record page' base slotId' = record page base slotId) :
    entry page' base slotId' = entry page base slotId := by
  rw [entry, entry, same]

theorem entry_visible {slotId : Nat} {data : List UInt8}
    (found : record page base slotId = visible data) : entry page base slotId = Entry.ofBytes data := by
  apply Entry.bytes_injective
  rw [entry_bytes, found, Entry.bytes_ofBytes]

theorem Appended.entries {data : List UInt8} (appended : Appended page page' base data)
    (layout : Layout page base) :
    SlottedPage.entries page' base = SlottedPage.entries page base ++ [Entry.ofBytes data] := by
  have old : ∀ slotId ∈ List.range (numSlots page base),
      entry page' base slotId = entry page base slotId := by
    intro slotId member
    exact entry_eq (appended.record_old layout slotId (List.mem_range.mp member))
  rw [SlottedPage.entries, appended.numSlots_eq, List.range_succ, List.map_append, List.map_singleton,
    List.map_congr_left old, entry_visible appended.record_new]
  rfl

/-- One entry is replaced. -/
theorem Rewritten.entries {slotId : Nat} {data : List UInt8}
    (rewritten : Rewritten page page' base slotId data) :
    SlottedPage.entries page' base =
      (SlottedPage.entries page base).set slotId (Entry.ofBytes data) := by
  apply List.ext_getElem?
  intro index
  rw [List.getElem?_set, entries_length]
  by_cases inside : index < numSlots page base
  · have inside' : index < numSlots page' base := by
      rw [rewritten.numSlots_eq]
      exact inside
    rw [entries_getElem? inside']
    by_cases same : slotId = index
    · subst same
      rw [entry_visible rewritten.record_same]
      simp [inside]
    · rw [entry_eq (rewritten.record_other index fun equal => same equal.symm),
        entries_getElem? inside]
      simp [same]
  · have outside : (SlottedPage.entries page' base)[index]? = none := by
      rw [List.getElem?_eq_none_iff, entries_length, rewritten.numSlots_eq]
      omega
    have outside' : (SlottedPage.entries page base)[index]? = none := by
      rw [List.getElem?_eq_none_iff, entries_length]
      omega
    rw [outside, outside']
    split
    · rename_i same
      rw [if_neg (by omega)]
    · rfl

/-- What a page does as a list of entries. -/
structure Refines (base : Nat) (log : List PageEvent) (page : Page) : Prop where
  get : ∀ slotId, record page base slotId = ((entries page base)[slotId]?).bind Entry.bytes
  insert : ∀ data, data ≠ [] → data.length < 2 ^ 63 →
    (SlottedPage.insert page base data).1 =
      if data.length + 4 ≤ freeSpace page base then some (numSlots page base) else none
  update : ∀ slotId old newData, record page base slotId = some old → newData ≠ [] →
    ((SlottedPage.update page base slotId newData).1 = true ↔
      newData.length ≤ old.length ∨ newData.length ≤ freeSpace page base)
  delete : ∀ slotId < numSlots page base, (SlottedPage.delete page base slotId).1 = true
  step : ∀ event page', pageStep base log page event page' →
    entries page' base = event.op.onEntries event.answer (entries page base)
  refused : ∀ event page', pageStep base log page event page' → event.answer.refused = true →
    page' = page
  others : ∀ event page', pageStep base log page event page' → ∀ slotId,
    slotId ≠ event.op.slot page base → record page' base slotId = record page base slotId

/-- How a call ends: refused, with a record appended or with one rewritten. -/
inductive Effect (base : Nat) (page : Page) : PageOp → PageAnswer → Page → Prop
  | refused {op : PageOp} {answer : PageAnswer} (isRefused : answer.refused = true) :
      Effect base page op answer page
  | appended {page' : Page} {data : List UInt8} (appends : Appended page page' base data) :
      Effect base page (.insert data) (.slot (some (numSlots page base))) page'
  | updated {page' : Page} {slotId : Nat} {newData : List UInt8}
      (inside : slotId < numSlots page base)
      (rewrites : Rewritten page page' base slotId newData) :
      Effect base page (.update slotId newData) (.done true) page'
  | deleted {page' : Page} {slotId : Nat} (inside : slotId < numSlots page base)
      (rewrites : Rewritten page page' base slotId []) :
      Effect base page (.delete slotId) (.done true) page'

theorem step_effect (layout : Layout page base) {log : List PageEvent} {event : PageEvent}
    (taken : pageStep base log page event page') :
    Effect base page event.op event.answer page' := by
  obtain ⟨op, answer⟩ := event
  obtain ⟨ran, bounded⟩ := taken
  cases op with
  | insert data =>
      by_cases fits : data.length + 4 ≤ freeSpace page base
      · obtain ⟨after, inserted, appends⟩ := insert_of_room page base data layout fits
        simp only [PageOp.run, inserted, Prod.mk.injEq] at ran
        rw [← ran.1, ← ran.2]
        exact .appended appends
      · have refused := insert_of_no_room page base data bounded (by omega)
        simp only [PageOp.run, refused, Prod.mk.injEq] at ran
        rw [← ran.1, ← ran.2]
        exact .refused rfl
  | update slotId newData =>
      rcases update_cases page base slotId newData layout with
        refused | ⟨inside, _, after, updated, rewrites⟩
      · simp only [PageOp.run, refused, Prod.mk.injEq] at ran
        rw [← ran.1, ← ran.2]
        exact .refused rfl
      · simp only [PageOp.run, updated, Prod.mk.injEq] at ran
        rw [← ran.1, ← ran.2]
        exact .updated inside rewrites
  | delete slotId =>
      by_cases inside : slotId < numSlots page base
      · obtain ⟨after, deleted, rewrites⟩ := delete_rewritten page base slotId layout inside
        simp only [PageOp.run, deleted, Prod.mk.injEq] at ran
        rw [← ran.1, ← ran.2]
        exact .deleted inside rewrites
      · have refused : delete page base slotId = (false, page) := by
          simp only [delete, Nat.le_of_not_lt inside, ↓reduceIte]
        simp only [PageOp.run, refused, Prod.mk.injEq] at ran
        rw [← ran.1, ← ran.2]
        exact .refused rfl

namespace Effect

variable {op : PageOp} {answer : PageAnswer}

theorem entries (effect : Effect base page op answer page') (layout : Layout page base) :
    SlottedPage.entries page' base = op.onEntries answer (SlottedPage.entries page base) := by
  cases effect with
  | refused isRefused =>
      cases op <;> rcases answer with (_ | _) | (_ | _) <;> first | rfl | cases isRefused
  | appended appends => exact appends.entries layout
  | updated inside rewrites => exact rewrites.entries
  | deleted inside rewrites => exact rewrites.entries

theorem unchanged (effect : Effect base page op answer page') (isRefused : answer.refused = true) :
    page' = page := by
  cases effect with
  | refused => rfl
  | appended => cases isRefused
  | updated => cases isRefused
  | deleted => cases isRefused

theorem others (effect : Effect base page op answer page') (layout : Layout page base)
    {slotId : Nat} (other : slotId ≠ op.slot page base) :
    record page' base slotId = record page base slotId := by
  cases effect with
  | refused => rfl
  | appended appends =>
      have count := appends.numSlots_eq
      have apart : slotId ≠ numSlots page base := other
      by_cases inside : slotId < numSlots page base
      · exact appends.record_old layout slotId inside
      · rw [record_none page' base slotId (by omega), record_none page base slotId (by omega)]
  | updated inside rewrites => exact rewrites.record_other slotId other
  | deleted inside rewrites => exact rewrites.record_other slotId other

end Effect

theorem insert_answer (layout : Layout page base) {data : List UInt8} (bounded : data.length < 2 ^ 63) :
    (insert page base data).1 =
      if data.length + 4 ≤ freeSpace page base then some (numSlots page base) else none := by
  by_cases fits : data.length + 4 ≤ freeSpace page base
  · obtain ⟨after, inserted, _⟩ := insert_of_room page base data layout fits
    rw [inserted, if_pos fits]
  · rw [insert_of_no_room page base data bounded (by omega), if_neg fits]

theorem update_answer {slotId : Nat} (inside : slotId < numSlots page base) (newData : List UInt8) :
    (update page base slotId newData).1 = true ↔
      newData.length ≤ slotLength page base slotId ∨ newData.length ≤ freeSpace page base := by
  have present : ¬ numSlots page base ≤ slotId := by omega
  by_cases shorter : newData.length ≤ slotLength page base slotId
  · simp [update, present, shorter]
  · by_cases full : freeSpace page base < newData.length
    · simp [update, present, shorter, full]
    · simp [update, present, shorter, full]
      omega

theorem delete_answer {slotId : Nat} (inside : slotId < numSlots page base) :
    (delete page base slotId).1 = true := by
  have present : ¬ numSlots page base ≤ slotId := by omega
  simp [delete, present]

/-- A slot with a record is in the directory, with the length of its record. -/
theorem record_length {slotId : Nat} {data : List UInt8}
    (found : record page base slotId = some data) :
    slotId < numSlots page base ∧ slotLength page base slotId = data.length := by
  have inside := record_inside found
  rw [record_eq page base slotId inside, visible] at found
  split at found
  · cases found
  · cases found
    exact ⟨inside, (Region.read_length _ _ _).symm⟩

theorem run_entries (fits : base + 4 ≤ pageSize) {raw : Page} {log : List PageEvent}
    (run : PageRun base raw log page) : entries page base = replay log := by
  apply run.invariant fun log page => entries page base = replay log
  · rw [entries, init_numSlots raw base fits]
    rfl
  · intro log page event page' reached replayed taken
    rw [(step_effect (run_layout fits reached) taken).entries (run_layout fits reached), replayed]
    rfl

/-- In every state of a run a page is the list of entries that its calls make. -/
theorem page_refines (base : Nat) (fits : base + 4 ≤ pageSize) (raw : Page) (log : List PageEvent)
    (page : Page) (run : PageRun base raw log page) :
    entries page base = replay log ∧ Refines base log page := by
  have layout := run_layout fits run
  refine ⟨run_entries fits run, ?_⟩
  constructor
  case get => exact record_entries page base
  case insert => exact fun data _ bounded => insert_answer layout bounded
  case update =>
    intro slotId old newData found _
    obtain ⟨inside, length⟩ := record_length found
    rw [← length]
    exact update_answer inside newData
  case delete => exact fun slotId inside => delete_answer inside
  case step => exact fun event page' taken => (step_effect layout taken).entries layout
  case refused => exact fun event page' taken => (step_effect layout taken).unchanged
  case others =>
    intro event page' taken slotId other
    exact (step_effect layout taken).others layout other

/-- A record on a page with the header of a heap page. -/
theorem page_refines_insert : ∃ (page : Page) (log : List PageEvent),
    PageRun 8 (fun _ => 0) log page ∧ log.length = 1 ∧ entries page 8 = replay log ∧
      Refines 8 log page := by
  have run : PageRun 8 (fun _ => 0)
      [⟨.insert [1, 2, 3], ((PageOp.insert [1, 2, 3]).run 8 (init (fun _ => 0) 8)).1⟩]
      ((PageOp.insert [1, 2, 3]).run 8 (init (fun _ => 0) 8)).2 :=
    Run.nil.cons ⟨rfl, show 3 < 2 ^ 63 by decide⟩
  exact ⟨_, _, run, rfl, page_refines 8 (by decide) (fun _ => 0) _ _ run⟩

end RelationalDb.SlottedPage
