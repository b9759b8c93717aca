import RelationalDb.Access.HeapCursor
import RelationalDb.Access.HeapRuns

set_option autoImplicit false

namespace RelationalDb.World

open HeapFile
open BufferManager (Steady Backed)

variable {N : Nat}

/-- `chain i` are the pages of heap `i`, as the bytes of the pages have them now. -/
structure Chained (w : World N) (chain : Nat → List Int) : Prop where
  linked : ∀ (i : Nat) (heap : HeapFile), w.heaps[i]? = some heap →
    Chain w.bm.contents heap.firstPageId (chain i)
  nodup : ∀ i, (chain i).Nodup
  apart : ∀ i j pageId, pageId ∈ chain i → pageId ∈ chain j → i = j

/-- The page loop of `Insert` ends for every heap and every byte string. -/
def InsertEnds (w : World N) : Prop :=
  ∀ (i : Nat) (heap : HeapFile) (data : List UInt8), w.heaps[i]? = some heap →
    data.length < 2 ^ 63 → ∃ left bm', Program.Returns
      (Program.loop (insertStep data) (heap.firstPageId, invalidPageId)) w.bm left bm'

/-- `Advance` ends for every iterator on a chain or behind it, and stays there. -/
def AdvanceEnds (w : World N) (chain : Nat → List Int) : Prop :=
  ∀ (i : Nat) (it : HeapIterator), i < w.heaps.length →
    it.currPage ∈ chain i ∨ it.currPage = invalidPageId →
    ∃ it' bm', it.advance.Returns w.bm it' bm' ∧
      (it'.currPage ∈ chain i ∨ it'.currPage = invalidPageId)

/-- A call that a client may make ends, without an exception. -/
def CallsEnd (log : List HeapEvent) (w : World N) : Prop :=
  ∀ op, GivenRids log op → (∀ i data, op = .insert i data → i < w.heaps.length) →
    nextAllocated w.bm + 2 < 2 ^ 31 →
    ∃ answer w', heapStep GivenRids log w ⟨op, .ok answer⟩ w'

variable {w : World N} {s : HeapState} {pins : Int → Int}

theorem Shows.chained (shows : Shows w s pins) : Chained w s.chain := by
  refine ⟨?_, shows.sound.nodup, shows.sound.apart⟩
  intro i heap found
  have linked := shows.sound.linked i heap (by rw [← shows.heaps, found])
  exact linked.congr fun _ member => linked.contents_eq shows.steady.toBacked member

theorem Shows.insertEnds (shows : Shows w s pins) : InsertEnds w := by
  intro i heap data found bounded
  have present : s.heaps[i]? = some heap := by rw [← shows.heaps, found]
  have looped := insertLoop_returns bounded (shows.sound.linked i heap present)
    (shows.sound.inside i) shows.steady invalidPageId
  split at looped
  · obtain ⟨_, _, bm', _, _, ended, _⟩ := looped
    exact ⟨_, bm', ended⟩
  · obtain ⟨bm', ended, _⟩ := looped
    exact ⟨_, bm', ended⟩

theorem Shows.advanceEnds (shows : Shows w s pins) : AdvanceEnds w s.chain := by
  intro i it bound place
  have rest : ∃ later, Chain s.view it.currPage later ∧ ∀ pageId ∈ later, pageId ∈ s.chain i := by
    rcases place with member | behind
    · obtain ⟨before, after, split⟩ := List.append_of_mem member
      rw [shows.heaps] at bound
      have linked := shows.sound.linked i _ (List.getElem?_eq_getElem bound)
      rw [split] at linked ⊢
      exact ⟨_, linked.suffix, fun _ later => List.mem_append_right before later⟩
    · rw [behind]
      exact ⟨[], .nil, fun _ later => absurd later List.not_mem_nil⟩
  obtain ⟨later, linked, inside⟩ := rest
  obtain ⟨bm', ended, _⟩ := HeapIterator.advance_returns linked shows.steady
  refine ⟨_, bm', ended, ?_⟩
  rcases it.settled_place linked with member | behind
  · exact Or.inl (inside _ member)
  · exact Or.inr behind

theorem RunState.callsEnd {log : List HeapEvent} (holds : RunState log w s) : CallsEnd log w := by
  intro op given made room
  obtain ⟨answer, w', _, taken, _⟩ := holds.extend op given made room
  exact ⟨answer, w', taken⟩

/-- Whatever clients call in whatever order, each heap keeps a chain of its own
of distinct, well-formed pages that ends, and so every loop along it ends. -/
theorem chains_end [NeZero N] (raw : Fin N → Page) (file : File)
    (small : file.size / pageSize < 2 ^ 31) (log : List HeapEvent) (w : World N)
    (run : HeapRun GivenRids (start raw file) log w) :
    (∃ chain, Chained w chain ∧ AdvanceEnds w chain) ∧ InsertEnds w ∧ CallsEnd log w := by
  obtain ⟨s, holds⟩ := runState small run
  exact ⟨⟨s.chain, holds.1.chained, holds.1.advanceEnds⟩, holds.1.insertEnds, holds.callsEnd⟩

/-- One heap and one record in a pool of one frame over an empty file. -/
theorem chains_end_insert : ∃ w : World 1,
    HeapRun GivenRids (start (fun _ _ => 0) File.empty) oneRecord w ∧
      (∃ chain, Chained w chain ∧ AdvanceEnds w chain) ∧ InsertEnds w ∧ CallsEnd oneRecord w := by
  obtain ⟨w, _, run, _⟩ := oneRecord_run GivenRids trivial (by decide : [7].length < 2 ^ 63)
  exact ⟨w, run, chains_end _ _ (by decide) _ _ run⟩

end RelationalDb.World
