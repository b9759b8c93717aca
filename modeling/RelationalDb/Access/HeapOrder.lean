import RelationalDb.Access.HeapCode
import RelationalDb.Access.HeapWriteBacks

set_option autoImplicit false

namespace RelationalDb

open HeapFile (headerSize nextPageId setNextPageId initHeapPage)
open SlottedPage (Layout Appended Rewritten)
open Program (Ensures Ends)
open BufferManager (Steady Opened)

variable {N : Nat} {links : Links} {view : Int → Option Page} {pins : Int → Int} {pages : Int}

namespace Links.Fits

variable {pageId : Int} {page page' : Page}

theorem edit (fits : links.Fits pageId page) (layout : Layout page' headerSize)
    (below : ∀ start length, start + length ≤ headerSize →
      page'.read start length = page.read start length) : links.Fits pageId page' := by
  refine ⟨fits.owned, layout, ?_⟩
  rw [HeapFile.nextPageId_of_below below]
  exact fits.link

/-- A record is put into a page, or the page stays as it is. -/
theorem insert (fits : links.Fits pageId page) {data : List UInt8} (bounded : data.length < 2 ^ 63) :
    links.Fits pageId (SlottedPage.insert page headerSize data).2 := by
  by_cases room : data.length + 4 ≤ SlottedPage.freeSpace page headerSize
  · obtain ⟨page', inserted, appended⟩ :=
      SlottedPage.insert_of_room page headerSize data fits.layout room
    rw [inserted]
    exact fits.edit (appended.layout fits.layout room) appended.below
  · rw [SlottedPage.insert_of_no_room page headerSize data bounded (by omega)]
    exact fits

theorem initHeapPage (owned : links.owned pageId) (page : Page) :
    links.Fits pageId (initHeapPage page) :=
  ⟨owned, HeapFile.initHeapPage_layout page, Or.inl (HeapFile.initHeapPage_nextPageId page)⟩

theorem setNext (fits : links.Fits pageId page) {next : Int} (leads : links.next pageId = next)
    (given : 0 ≤ next) (below : next < 2 ^ 31) : links.Fits pageId (setNextPageId page next) := by
  refine ⟨fits.owned, HeapFile.setNextPageId_layout page next fits.layout, Or.inr ?_⟩
  rw [leads]
  exact HeapFile.nextPageId_setNextPageId page next (by omega) below

end Links.Fits

/-- The pool and the page open in a frame are as they should be. -/
structure Fitting (links : Links) (frame : Fin N) (bm : BufferManager N DiskManager) : Prop where
  orderly : Orderly links bm
  fits : links.Fits (bm.pool frame).pageId (bm.pool frame).data

namespace BufferManager

theorem modifyData_fitting (frame : Fin N) (change : Page → Page) :
    Ordered links (fun bm => Orderly links bm ∧
        links.Fits (bm.pool frame).pageId (change (bm.pool frame).data))
      (PoolCall.modifyData frame change).code (Ends fun _ bm => Fitting links frame bm) := by
  refine Ensures.call (fun bm begins => begins.1.inFile) ?_
  rintro bm outcome bm' ⟨orderly, fits⟩ _ ended
  cases ended
  refine ⟨orderly.setFrame frame (fun f => { f with data := change f.data }) fun _ => fits, ?_⟩
  simpa [setFrame] using fits

theorem markDirty_fitting (frame : Fin N) :
    Ordered links (Fitting links frame) (PoolCall.markDirty frame).code
      (Ends fun _ bm => Fitting links frame bm) := by
  refine Ensures.call (fun bm begins => begins.orderly.inFile) ?_
  rintro bm outcome bm' ⟨orderly, fits⟩ _ ended
  cases ended
  refine ⟨orderly.setFrame frame (fun f => { f with dirty := true }) fun _ => fits, ?_⟩
  simpa [setFrame] using fits

/-- What a client stores depends on the page it read. -/
theorem readData_fitting {α : Type} {frame : Fin N} {next : Page → Heap N α}
    {rest : ∀ page, PoolCode id (next page)}
    {post : Except Error α → BufferManager N DiskManager → Prop}
    (goesOn : ∀ page, Ordered links
      (fun bm => (bm.pool frame).data = page ∧ Fitting links frame bm) (rest page) post) :
    Ordered links (Fitting links frame) ((readDataCode frame).bind rest) post := by
  have read : Ordered links (Fitting links frame) (readDataCode frame)
      (Ends fun page bm => (bm.pool frame).data = page ∧ Fitting links frame bm) := by
    refine Ensures.look fun bm => Ensures.pure ?_
    rintro state ⟨rfl, begins⟩
    exact ⟨rfl, begins⟩
  exact read.andThen goesOn

theorem request_named {pageId : Int} (given : 0 ≤ pageId) :
    Ordered links (fun bm => Steady bm view pins pages ∧ Orderly links bm)
      (requestCode (N := N) pageId)
      (Ends fun frame bm => Opened bm view pins pages pageId frame ∧ Orderly links bm) :=
  ((request_stays pageId).strengthen fun _ begins => begins.2).knowing _ fun _ begins =>
    begins.1.request given

theorem request_fitting {pageId : Int} {page : Page} (given : 0 ≤ pageId)
    (present : view pageId = some page) (fits : links.Fits pageId page) :
    Ordered links (fun bm => Steady bm view pins pages ∧ Orderly links bm)
      (requestCode (N := N) pageId) (Ends fun frame bm => Fitting links frame bm) := by
  refine (request_named given).weaken (fun _ begins => begins) ?_
  intro outcome bm ends
  cases outcome with
  | ok frame =>
      obtain ⟨opened, orderly⟩ := ends
      refine ⟨orderly, ?_⟩
      rw [opened.mapped pageId frame opened.cached, opened.data_eq present]
      exact fits
  | error reason => exact ends.elim

/-- A store into the open page that is marked dirty. -/
theorem store_ordered {α : Type} {pageId : Int} {frame : Fin N} {page : Page} {change : Page → Page}
    {next : Unit → Heap N α} {rest : ∀ value, PoolCode id (next value)}
    {post : Except Error α → BufferManager N DiskManager → Prop}
    (inside : pageId < pages) (fits : links.Fits pageId (change page))
    (goesOn : Ordered links (fun bm => Opened bm
        (Function.update view pageId (some (change page))) pins pages pageId frame ∧ Orderly links bm)
      (rest ()) post) :
    Ordered links (fun bm => Opened bm view pins pages pageId frame ∧
        (bm.pool frame).data = page ∧ Orderly links bm)
      ((PoolCall.modifyData frame change).code.bind fun _ => (PoolCall.markDirty frame).code.bind rest)
      post := by
  let scribbled : BufferManager N DiskManager → Prop := fun bm =>
    ∃ before, Opened before view pins pages pageId frame ∧ (before.pool frame).data = page ∧
      bm = before.scribbled frame change
  have stored : Ordered links (fun bm => Opened bm view pins pages pageId frame ∧
        (bm.pool frame).data = page ∧ Orderly links bm) (PoolCall.modifyData frame change).code
      (Ends fun _ bm => scribbled bm ∧ Fitting links frame bm) := by
    refine ((modifyData_fitting frame change).strengthen ?_).knowing (fun _ => scribbled) ?_
    · rintro bm ⟨opened, held, orderly⟩
      refine ⟨orderly, ?_⟩
      rw [opened.mapped pageId frame opened.cached, held]
      exact fits
    · rintro bm ⟨opened, held, orderly⟩
      exact ⟨_, _, modifyData_returns bm frame change, bm, opened, held, rfl⟩
  have marked := ((markDirty_fitting frame).strengthen
    fun bm (begins : scribbled bm ∧ Fitting links frame bm) => begins.2).knowing
    (fun _ bm => Opened bm (Function.update view pageId (some (change page))) pins pages pageId frame)
    (by
      rintro bm ⟨⟨before, opened, held, rfl⟩, _⟩
      refine ⟨_, _, markDirty_returns before frame change, ?_⟩
      rw [held]
      exact opened.write inside (change page))
  refine stored.andThen fun _ => marked.andThen fun _ => ?_
  exact goesOn.strengthen fun _ ends => ⟨ends.1, ends.2.orderly⟩

theorem release_ordered {pageId : Int} {frame : Fin N} :
    Ordered links (fun bm => Opened bm view pins pages pageId frame ∧ Orderly links bm)
      (releaseCode (N := N) pageId) (Ends fun _ bm => Steady bm view pins pages ∧ Orderly links bm) := by
  refine ((release_stays pageId).strengthen fun _ begins => begins.2).knowing
    (fun _ bm => Steady bm view pins pages) fun bm begins => ?_
  obtain ⟨bm', released, steady, _⟩ := begins.1.release
  exact ⟨_, bm', released, steady⟩

end BufferManager

namespace HeapFile

open BufferManager

theorem allocatePage_ordered (more : pages + 1 < 2 ^ 31) :
    Ordered links (fun bm => Steady bm view pins pages ∧ Orderly links bm)
      (allocatePageCode (N := N))
      (Ends fun pageId bm => pageId = pages ∧ Steady bm view pins (pages + 1) ∧ Orderly links bm) := by
  have stays : Stays links (allocatePageCode (N := N)) := Stays.call .allocatePage rfl
  refine ((stays.strengthen fun _ begins => begins.2).knowing
    (fun pageId bm => pageId = pages ∧ Steady bm view pins (pages + 1)) fun bm begins => ?_).weaken
    (fun _ begins => begins) ?_
  · obtain ⟨bm', returned, steady⟩ := allocatePage_returns begins.1 more
    exact ⟨_, bm', returned, rfl, steady⟩
  · intro outcome bm ends
    cases outcome with
    | ok value => exact ⟨ends.1.1, ends.1.2, ends.2⟩
    | error reason => exact ends.elim

theorem insertInto_fitting {frame : Fin N} {data : List UInt8} (bounded : data.length < 2 ^ 63) :
    Ordered links (Fitting links frame) (insertIntoCode frame data)
      (Ends fun _ bm => Fitting links frame bm) := by
  refine readData_fitting fun page => ?_
  cases result : SlottedPage.insert page headerSize data with
  | mk slotId page' =>
      have stored : Ordered links (fun bm => (bm.pool frame).data = page ∧ Fitting links frame bm)
          (PoolCall.modifyData frame fun _ => page').code
          (Ends fun _ bm => Fitting links frame bm) := by
        refine (modifyData_fitting frame fun _ => page').strengthen ?_
        rintro bm ⟨rfl, fitting⟩
        have fits := fitting.fits.insert bounded
        rw [result] at fits
        exact ⟨fitting.orderly, fits⟩
      exact stored.andThen fun _ => Ensures.pure fun _ begins => begins

theorem initPage_ordered {pageId : Int} (given : 0 ≤ pageId) (owned : links.owned pageId) :
    Ordered links (fun bm => Steady bm view pins pages ∧ Orderly links bm)
      (initPageCode (N := N) pageId) fun _ bm => Orderly links bm := by
  refine (request_named given).andThen fun frame => ?_
  refine ((modifyData_fitting frame initHeapPage).strengthen ?_).andThen fun _ => ?_
  · rintro bm ⟨opened, orderly⟩
    refine ⟨orderly, ?_⟩
    rw [opened.mapped pageId frame opened.cached]
    exact Links.Fits.initHeapPage owned _
  · refine (markDirty_fitting frame).andThen fun _ => ?_
    exact (release_stays pageId).strengthen fun _ begins => begins.orderly

theorem create_ordered [NeZero N] (more : pages + 1 < 2 ^ 31) (given : 0 ≤ pages)
    (owned : links.owned pages) (fileId : Uuid) :
    Ordered links (fun bm => Steady bm view pins pages ∧ Orderly links bm)
      (createCode (N := N) fileId) fun _ bm => Orderly links bm := by
  refine (allocatePage_ordered more).andThenAt ?_
  exact (initPage_ordered given owned).bind (fun _ => Stays.pure _) fun _ _ ends => ends

theorem get_stays (rid : Rid) : Stays links (getCode (N := N) rid) := by
  refine (request_stays rid.pageId).bind fun frame => (readData_stays frame).bind fun page => ?_
  refine (release_stays rid.pageId).bind fun _ => ?_
  cases SlottedPage.get page headerSize rid.slotId with
  | some found => exact .pure _
  | none => exact .pure _

/-- An update or a deletion. -/
theorem edit_ordered {pageId : Int} {page : Page} {change : Page → Bool × Page} (given : 0 ≤ pageId)
    (present : view pageId = some page) (changed : links.Fits pageId (change page).2) :
    Ordered links (fun bm => Steady bm view pins pages ∧ Orderly links bm)
      (editCode (N := N) pageId change) fun _ bm => Orderly links bm := by
  refine (request_named given).andThen fun frame => ?_
  have read : Ordered links (fun bm => Opened bm view pins pages pageId frame ∧ Orderly links bm)
      (readDataCode frame) (Ends fun found bm => found = page ∧
        Opened bm view pins pages pageId frame ∧ Orderly links bm) := by
    refine Ensures.look fun bm => Ensures.pure ?_
    rintro state ⟨rfl, begins⟩
    exact ⟨begins.1.data_eq present, begins⟩
  refine read.andThenAt ?_
  cases result : change page with
  | mk done page' =>
      have stored : Ordered links
          (fun bm => Opened bm view pins pages pageId frame ∧ Orderly links bm)
          (PoolCall.modifyData frame fun _ => page').code
          (Ends fun _ bm => Fitting links frame bm) := by
        refine (modifyData_fitting frame fun _ => page').strengthen ?_
        rintro bm ⟨opened, orderly⟩
        rw [result] at changed
        rw [opened.mapped pageId frame opened.cached]
        exact ⟨orderly, changed⟩
      have last : Ordered links (Fitting links frame)
          ((releaseCode (N := N) pageId).bind fun _ => .pure done) fun _ bm => Orderly links bm :=
        ((release_stays pageId).bind fun _ => .pure done).strengthen fun _ begins => begins.orderly
      refine stored.andThen fun _ => Ensures.branch (fun _ => ?_) fun _ => last
      exact (markDirty_fitting frame).andThen fun _ => last

section Insert

variable {data : List UInt8} (bounded : data.length < 2 ^ 63)

include bounded

theorem insertStep_ordered {pageId : Int} {page : Page} (given : 0 ≤ pageId)
    (present : view pageId = some page) (fits : links.Fits pageId page) (last : Int) :
    Ordered links (fun bm => Steady bm view pins pages ∧ Orderly links bm)
      (insertStepCode (N := N) data (pageId, last)) fun _ bm => Orderly links bm := by
  refine Ensures.branch (fun _ => Ensures.pure fun _ begins => begins.2) fun _ => ?_
  refine (request_fitting given present fits).andThen fun frame => ?_
  refine (insertInto_fitting bounded).andThen fun slotId => ?_
  cases slotId with
  | some slotId =>
      refine (markDirty_fitting frame).andThen fun _ => ?_
      exact ((release_stays pageId).bind fun _ => .pure _).strengthen fun _ begins => begins.orderly
  | none =>
      exact ((release_stays pageId).bind fun _ => (readData_stays frame).bind fun _ =>
        .pure _).strengthen fun _ begins => begins.orderly

/-- All turns of the page loop. -/
theorem insertLoop_ordered [NeZero N] {first : Int} {chain : List Int}
    (linked : Chain view first chain) (inside : ∀ pageId ∈ chain, pageId < pages)
    (fits : ∀ pageId ∈ chain, ∀ page, view pageId = some page → links.Fits pageId page) :
    Ordered links (fun bm => Steady bm view pins pages ∧ Orderly links bm)
      (.loop (insertStepCode data) (first, invalidPageId) : PoolCode (N := N) id _)
      fun _ bm => Orderly links bm := by
  let invariant : Int × Int → BufferManager N DiskManager → Prop := fun current bm =>
    (current.1 = invalidPageId ∨ current.1 ∈ chain) ∧ Steady bm view pins pages ∧ Orderly links bm
  have start : first = invalidPageId ∨ first ∈ chain := by
    by_cases invalid : first = invalidPageId
    · exact Or.inl invalid
    · exact Or.inr (linked.first_mem invalid)
  refine (Ensures.loop invariant ?_ (first, invalidPageId)).strengthen
    fun _ begins => ⟨start, begins⟩
  rintro ⟨pageId, last⟩
  by_cases invalid : pageId = invalidPageId
  · refine Ensures.branch (fun _ => Ensures.pure fun _ begins => begins.2.2) fun valid => ?_
    exact (valid invalid).elim
  · by_cases member : pageId ∈ chain
    · obtain ⟨given, page, present, layout⟩ := linked.page member
      have next := linked.next member present
      have step : Ordered links (fun bm => Steady bm view pins pages ∧ Orderly links bm)
          (insertStepCode (N := N) data (pageId, last)) fun _ bm => Orderly links bm :=
        insertStep_ordered bounded given present (fits pageId member page present) last
      have turn := step.knowing
        (fun turn bm => ∀ next, turn = .inl next →
          next.1 = nextPageId page ∧ Steady bm view pins pages) (by
          rintro bm ⟨steady, _⟩
          rcases insertStep_returns bounded steady given (inside pageId member) present layout last with
            ⟨_, page', bm', _, returned, _⟩ | ⟨_, bm', returned, steady'⟩
          · exact ⟨_, bm', returned, fun _ impossible => by cases impossible⟩
          · refine ⟨_, bm', returned, fun next same => ?_⟩
            rw [← Sum.inl.inj same]
            exact ⟨rfl, steady'⟩)
      refine turn.weaken (fun _ begins => begins.2) ?_
      intro outcome bm ends
      cases outcome with
      | error reason => exact ends.elim
      | ok value =>
          cases value with
          | inl again =>
              obtain ⟨same, steady⟩ := ends.1 again rfl
              exact ⟨by rw [same]; exact next, steady, ends.2⟩
          | inr left => exact ends.2
    · apply Ensures.absurd
      rintro bm ⟨place, _⟩
      exact place.elim invalid member

theorem fillNewPage_ordered {pageId : Int} (given : 0 ≤ pageId) (owned : links.owned pageId) :
    Ordered links (fun bm => Steady bm view pins pages ∧ Orderly links bm)
      (fillNewPageCode (N := N) data pageId) fun _ bm => Orderly links bm := by
  refine (request_named given).andThen fun frame => ?_
  refine ((modifyData_fitting frame initHeapPage).strengthen ?_).andThen fun _ => ?_
  · rintro bm ⟨opened, orderly⟩
    refine ⟨orderly, ?_⟩
    rw [opened.mapped pageId frame opened.cached]
    exact Links.Fits.initHeapPage owned _
  · refine (markDirty_fitting frame).andThen fun _ => (insertInto_fitting bounded).andThen fun slotId => ?_
    cases slotId with
    | some slotId =>
        exact ((release_stays pageId).bind fun _ => .pure _).strengthen fun _ begins => begins.orderly
    | none =>
        exact ((release_stays pageId).bind fun _ => .pure _).strengthen fun _ begins => begins.orderly

theorem linkNewPage_ordered {last new : Int} {lastPage : Page} (given : 0 ≤ last)
    (inside : last < pages) (present : view last = some lastPage) (fits : links.Fits last lastPage)
    (leads : links.next last = new) (owned : links.owned new) :
    Ordered links (fun bm => Steady bm view pins pages ∧ Orderly links bm)
      (linkNewPageCode (N := N) data last new) fun _ bm => Orderly links bm := by
  have room := links.room
  obtain ⟨newGiven, newInside⟩ := links.given new owned
  refine (request_named given).andThen fun frame => ?_
  refine (store_ordered inside (fits.setNext leads newGiven (by omega)) ?_).strengthen
    fun bm begins => ⟨begins.1, begins.1.data_eq present, begins.2⟩
  exact release_ordered.andThen fun _ => fillNewPage_ordered bounded newGiven owned

theorem insertInNewPage_ordered {last : Int} {lastPage : Page} (given : 0 ≤ last)
    (inside : last < pages) (present : view last = some lastPage) (fits : links.Fits last lastPage)
    (leads : links.next last = pages) (owned : links.owned pages) (more : pages + 1 < 2 ^ 31) :
    Ordered links (fun bm => Steady bm view pins pages ∧ Orderly links bm)
      (insertInNewPageCode (N := N) data last) fun _ bm => Orderly links bm := by
  refine (allocatePage_ordered more).andThenAt ?_
  exact linkNewPage_ordered bounded given (by omega) present fits leads owned

/-- `Insert` into a heap with a chain. If no page has room, the new page is the one the last
page leads to. -/
theorem insertRecord_ordered [NeZero N] {heap : HeapFile} {chain : List Int}
    (linked : Chain view heap.firstPageId chain) (valid : heap.firstPageId ≠ invalidPageId)
    (inside : ∀ pageId ∈ chain, pageId < pages)
    (fits : ∀ pageId ∈ chain, ∀ page, view pageId = some page → links.Fits pageId page)
    (grows : chain.find? (room view data) = none → pages + 1 < 2 ^ 31 ∧ links.owned pages ∧
      ∀ last, chain.getLast? = some last → links.next last = pages) :
    Ordered links (fun bm => Steady bm view pins pages ∧ Orderly links bm)
      (insertRecordCode (N := N) heap data) fun _ bm => Orderly links bm := by
  have looped : Ordered links (fun bm => Steady bm view pins pages ∧ Orderly links bm)
      (.loop (insertStepCode data) (heap.firstPageId, invalidPageId) : PoolCode (N := N) id _)
      fun _ bm => Orderly links bm := insertLoop_ordered bounded linked inside fits
  cases found : chain.find? (room view data) with
  | some pageId =>
      obtain ⟨page, present⟩ : ∃ page, view pageId = some page := by
        obtain ⟨_, page, present, _⟩ := linked.page (List.mem_of_find?_eq_some found)
        exact ⟨page, present⟩
      refine (looped.knowing (fun placed _ =>
        placed = .inl ⟨pageId, SlottedPage.numSlots page headerSize⟩) ?_).andThenAt ?_
      · rintro bm ⟨steady, _⟩
        have ended := insertLoop_returns bounded linked inside steady invalidPageId
        rw [found] at ended
        obtain ⟨other, _, bm', known, _, returned, _⟩ := ended
        rw [present] at known
        cases known
        exact ⟨_, bm', returned, rfl⟩
      · exact Ensures.pure fun _ begins => begins
  | none =>
      obtain ⟨more, owned, leads⟩ := grows found
      have member := linked.first_mem valid
      cases isLast : chain.getLast? with
      | none =>
          rw [List.getLast?_eq_none_iff.mp isLast] at member
          cases member
      | some last =>
          have among := List.mem_of_getLast? isLast
          obtain ⟨given, lastPage, present, _⟩ := linked.page among
          refine (looped.knowing (fun placed bm => placed = .inr last ∧
            Steady bm view pins pages) ?_).andThen fun placed => ?_
          · rintro bm ⟨steady, _⟩
            have ended := insertLoop_returns bounded linked inside steady invalidPageId
            rw [found, isLast] at ended
            obtain ⟨bm', returned, steady'⟩ := ended
            exact ⟨_, bm', returned, rfl, steady'⟩
          · by_cases same : placed = .inr last
            · subst same
              exact (insertInNewPage_ordered bounded given (inside last among) present
                (fits last among lastPage present) (leads last isLast) owned more).strengthen
                fun _ begins => ⟨begins.1.2, begins.2⟩
            · exact Ensures.absurd fun _ begins => same begins.1.1

end Insert

end HeapFile

end RelationalDb
