import Mathlib.Algebra.Order.BigOperators.Group.List
import Mathlib.Algebra.Order.Group.Nat
import Mathlib.Algebra.Order.Ring.Int
import Mathlib.Data.List.Induction
import Mathlib.Data.List.Nodup

set_option autoImplicit false

namespace RelationalDb.FirstFit

/-- A bin: the space that is left, and what was put in, in order. -/
@[ext] structure Bin (α : Type) where
  space : Nat
  items : List α

variable {α : Type}

/-- An item goes to the first bin that has room for it, or to a new last bin. -/
def insert (capacity size : Nat) (item : α) : List (Bin α) → List (Bin α)
  | [] => [⟨capacity - size, [item]⟩]
  | bin :: rest =>
      if size ≤ bin.space then ⟨bin.space - size, bin.items ++ [item]⟩ :: rest
      else bin :: insert capacity size item rest

def insertAll (capacity : Nat) (size : α → Nat) (bins : List (Bin α)) (items : List α) :
    List (Bin α) :=
  items.foldl (fun bins item => insert capacity (size item) item bins) bins

def contents (bins : List (Bin α)) : List α := bins.flatMap (·.items)

/-- Once an item is too large for a bin, so is every later one. `spaces` is what the
bins have left and `sizes` what is to go in. -/
def Ordered (capacity : Nat) : List Nat → List Nat → Prop
  | _, [] => True
  | spaces, size :: sizes =>
      (∀ space ∈ spaces.takeWhile (· < size), ∀ later ∈ sizes, space < later) ∧
        Ordered capacity
          (match spaces.dropWhile (· < size) with
            | [] => [capacity - size]
            | space :: rest => (space - size) :: rest) sizes

instance decidableOrdered (capacity : Nat) :
    ∀ spaces sizes : List Nat, Decidable (Ordered capacity spaces sizes)
  | _, [] => isTrue trivial
  | _, _ :: sizes => @instDecidableAnd _ _ _ (decidableOrdered capacity _ sizes)

variable {capacity : Nat} {size : α → Nat}

theorem contents_append (front back : List (Bin α)) :
    contents (front ++ back) = contents front ++ contents back :=
  List.flatMap_append

theorem contents_cons (bin : Bin α) (rest : List (Bin α)) :
    contents (bin :: rest) = bin.items ++ contents rest :=
  List.flatMap_cons

/-- Nothing is lost, and nothing but the item is new. -/
theorem contents_insert_perm (capacity size : Nat) (item : α) (bins : List (Bin α)) :
    (contents (insert capacity size item bins)).Perm (contents bins ++ [item]) := by
  induction bins with
  | nil => exact .refl _
  | cons bin rest ih =>
      unfold insert
      split
      · rw [contents_cons, contents_cons, List.append_assoc, List.append_assoc]
        exact (List.perm_append_comm).append_left bin.items
      · rw [contents_cons, contents_cons, List.append_assoc]
        exact ih.append_left bin.items

theorem mem_contents_insert {bins : List (Bin α)} {size : Nat} {item other : α} :
    other ∈ contents (insert capacity size item bins) ↔ other ∈ contents bins ∨ other = item := by
  rw [(contents_insert_perm capacity size item bins).mem_iff, List.mem_append, List.mem_singleton]

/-- A list with one more item somewhere among the others. -/
def OneMore (old : List α) (item : α) (new : List α) : Prop :=
  ∃ before after, old = before ++ after ∧ new = before ++ item :: after

theorem contents_insert_oneMore (capacity size : Nat) (item : α) (bins : List (Bin α)) :
    OneMore (contents bins) item (contents (insert capacity size item bins)) := by
  induction bins with
  | nil => exact ⟨[], [], rfl, rfl⟩
  | cons bin rest ih =>
      unfold insert
      split
      · refine ⟨bin.items, contents rest, contents_cons bin rest, ?_⟩
        rw [contents_cons, List.append_assoc]
        rfl
      · obtain ⟨before, after, old, new⟩ := ih
        refine ⟨bin.items ++ before, after, ?_, ?_⟩
        · rw [contents_cons, old, List.append_assoc]
        · rw [contents_cons, new, List.append_assoc]

section OneMore

variable {β : Type} {old new : List α} {item : α}

theorem OneMore.perm (more : OneMore old item new) : new.Perm (item :: old) := by
  obtain ⟨before, after, rfl, rfl⟩ := more
  exact List.perm_middle

theorem OneMore.filterMap (more : OneMore old item new) {read : α → Option β} {value : β}
    (isSome : read item = some value) :
    OneMore (old.filterMap read) value (new.filterMap read) := by
  obtain ⟨before, after, rfl, rfl⟩ := more
  refine ⟨before.filterMap read, after.filterMap read, List.filterMap_append, ?_⟩
  rw [List.filterMap_append, List.filterMap_cons_some isSome]

/-- The others are found as before. -/
theorem OneMore.find?_other (more : OneMore old item new) {kind : α → Bool}
    (other : ¬ kind item = true) : new.find? kind = old.find? kind := by
  obtain ⟨before, after, rfl, rfl⟩ := more
  rw [List.find?_append, List.find?_append, List.find?_cons_of_neg other]

theorem OneMore.find?_self (more : OneMore old item new) {kind : α → Bool}
    (own : kind item = true) (free : old.find? kind = none) : new.find? kind = some item := by
  obtain ⟨before, after, rfl, rfl⟩ := more
  rw [List.find?_append, Option.or_eq_none_iff] at free
  rw [List.find?_append, free.1, List.find?_cons_of_pos own, Option.none_or]

theorem OneMore.filter_other (more : OneMore old item new) {kind : α → Bool}
    (other : ¬ kind item = true) : new.filter kind = old.filter kind := by
  obtain ⟨before, after, rfl, rfl⟩ := more
  rw [List.filter_append, List.filter_append, List.filter_cons_of_neg other]

end OneMore

theorem insert_skip {front back : List (Bin α)} {size : Nat} {item : α}
    (large : ∀ bin ∈ front, bin.space < size) :
    insert capacity size item (front ++ back) = front ++ insert capacity size item back := by
  induction front with
  | nil => rfl
  | cons bin front ih =>
      have tooLarge : ¬ size ≤ bin.space := Nat.not_le.mpr (large bin List.mem_cons_self)
      rw [List.cons_append, insert, if_neg tooLarge,
        ih fun other member => large other (List.mem_cons_of_mem _ member), List.cons_append]

theorem insertAll_skip {front back : List (Bin α)} {items : List α}
    (large : ∀ bin ∈ front, ∀ item ∈ items, bin.space < size item) :
    insertAll capacity size (front ++ back) items = front ++ insertAll capacity size back items := by
  induction items generalizing back with
  | nil => rfl
  | cons item items ih =>
      have first := @insert_skip α capacity front back (size item) item
        fun bin member => large bin member item List.mem_cons_self
      unfold insertAll at ih ⊢
      rw [List.foldl_cons, List.foldl_cons, first]
      exact ih fun bin member later inside => large bin member later (List.mem_cons_of_mem _ inside)

theorem insertAll_first {bin : Bin α} {rest : List (Bin α)} {items : List α}
    (fits : (items.map size).sum ≤ bin.space) :
    contents (insertAll capacity size (bin :: rest) items) =
      bin.items ++ items ++ contents rest := by
  induction items generalizing bin with
  | nil => rw [List.append_nil, insertAll, List.foldl_nil, contents_cons]
  | cons item items ih =>
      rw [List.map_cons, List.sum_cons] at fits
      have first : insert capacity (size item) item (bin :: rest) =
          ⟨bin.space - size item, bin.items ++ [item]⟩ :: rest := by
        rw [insert, if_pos (by omega)]
      have further := @ih ⟨bin.space - size item, bin.items ++ [item]⟩ (Nat.le_sub_of_add_le (by omega))
      unfold insertAll at further ⊢
      rw [List.foldl_cons, first, further, List.append_assoc bin.items]
      rfl

theorem insert_front {front back : List (Bin α)} {size : Nat} {item : α}
    (fits : ∃ bin ∈ front, size ≤ bin.space) :
    insert capacity size item (front ++ back) = insert capacity size item front ++ back := by
  induction front with
  | nil =>
      obtain ⟨bin, member, _⟩ := fits
      cases member
  | cons bin front ih =>
      rw [List.cons_append, insert, insert]
      split
      · rfl
      · rename_i tooLarge
        rw [ih, List.cons_append]
        obtain ⟨other, member, room⟩ := fits
        rcases List.mem_cons.mp member with rfl | later
        · exact absurd room tooLarge
        · exact ⟨other, later, room⟩

/-- The bins in front keep their items, and get one more if one of the new items
fits into one of them. -/
theorem insertAll_split (front back : List (Bin α)) (items : List α) :
    ∃ front' back', insertAll capacity size (front ++ back) items = front' ++ back' ∧
      contents front ⊆ contents front' ∧ contents back ⊆ contents back' ∧
      ((∃ bin ∈ front, ∃ item ∈ items, size item ≤ bin.space) →
        ∃ item ∈ items, item ∈ contents front') := by
  induction items generalizing front back with
  | nil =>
      refine ⟨front, back, rfl, List.Subset.refl _, List.Subset.refl _, ?_⟩
      intro fits
      obtain ⟨_, _, _, member, _⟩ := fits
      cases member
  | cons item items ih =>
      by_cases fits : ∃ bin ∈ front, size item ≤ bin.space
      · obtain ⟨front', back', split, kept, keptBack, _⟩ :=
          ih (insert capacity (size item) item front) back
        refine ⟨front', back', ?_, ?_, keptBack, ?_⟩
        · rw [← split, insertAll, List.foldl_cons, insert_front fits]
          rfl
        · intro other member
          exact kept (mem_contents_insert.mpr (Or.inl member))
        · intro _
          exact ⟨item, List.mem_cons_self, kept (mem_contents_insert.mpr (Or.inr rfl))⟩
      · have large : ∀ bin ∈ front, bin.space < size item := by
          intro bin member
          by_contra room
          exact fits ⟨bin, member, Nat.not_lt.mp room⟩
        obtain ⟨front', back', split, kept, keptBack, gains⟩ :=
          ih front (insert capacity (size item) item back)
        refine ⟨front', back', ?_, kept, ?_, ?_⟩
        · rw [← split, insertAll, List.foldl_cons, insert_skip large]
          rfl
        · intro other member
          exact keptBack (mem_contents_insert.mpr (Or.inl member))
        · intro later
          obtain ⟨bin, member, other, inside, room⟩ := later
          rcases List.mem_cons.mp inside with rfl | inside
          · exact absurd room (Nat.not_le.mpr (large bin member))
          · obtain ⟨found, among, inFront⟩ := gains ⟨bin, member, other, inside, room⟩
            exact ⟨found, List.mem_cons_of_mem _ among, inFront⟩

/-- Where an item goes when the bins in front of `bins` are too full for it. -/
def landed (capacity size : Nat) (item : α) : List (Bin α) → List (Bin α)
  | [] => [⟨capacity - size, [item]⟩]
  | bin :: rest => ⟨bin.space - size, bin.items ++ [item]⟩ :: rest

theorem insert_eq (capacity size : Nat) (item : α) (bins : List (Bin α)) :
    insert capacity size item bins = bins.takeWhile (·.space < size) ++
      landed capacity size item (bins.dropWhile (·.space < size)) := by
  induction bins with
  | nil => rfl
  | cons bin rest ih =>
      by_cases large : bin.space < size
      · rw [insert, if_neg (Nat.not_le.mpr large), List.takeWhile_cons_of_pos (by simpa using large),
          List.dropWhile_cons_of_pos (by simpa using large), ih, List.cons_append]
      · rw [insert, if_pos (Nat.not_lt.mp large), List.takeWhile_cons_of_neg (by simpa using large),
          List.dropWhile_cons_of_neg (by simpa using large), landed, List.nil_append]

def Frontier (bins : List (Bin α)) : Prop := ∀ bin ∈ bins.tail, bin.items = []

theorem Frontier.after {bins : List (Bin α)} (frontier : Frontier bins) (size : Nat) (item : α) :
    Frontier (landed capacity size item bins) := by
  cases bins with
  | nil =>
      intro bin member
      cases member
  | cons first rest => exact frontier

theorem Frontier.contents_landed {bins : List (Bin α)} (frontier : Frontier bins) (size : Nat)
    (item : α) : contents (landed capacity size item bins) = contents bins ++ [item] := by
  cases bins with
  | nil => rfl
  | cons first rest =>
      have none : contents rest = [] := by
        apply List.flatMap_eq_nil_iff.mpr
        exact frontier
      rw [landed, contents_cons, contents_cons, none, List.append_nil, List.append_nil]

theorem Frontier.suffix {front bins : List (Bin α)} (frontier : Frontier (front ++ bins)) :
    Frontier bins := by
  intro bin member
  apply frontier bin
  cases front with
  | nil => exact member
  | cons first front => exact List.mem_append_right front (List.mem_of_mem_tail member)

theorem landed_spaces (capacity size : Nat) (item : α) (bins : List (Bin α)) :
    (landed capacity size item bins).map (·.space) =
      match bins.map (·.space) with
        | [] => [capacity - size]
        | space :: rest => (space - size) :: rest := by
  cases bins <;> rfl

/-- Items in front of one that came before them spoil the order. -/
theorem order_spoiled {old new front back : List α} {item later : α}
    (distinct : (old ++ item :: new).Nodup) (among : later ∈ new) (inFront : later ∈ front)
    (inBack : item ∈ back) : front ++ back ≠ old ++ item :: new := by
  intro same
  have apart := List.disjoint_of_nodup_append distinct
  have once := (List.nodup_cons.mp (List.nodup_append.mp distinct).2.1).1
  rcases List.append_eq_append_iff.mp same with ⟨middle, oldEq, _⟩ | ⟨middle, frontEq, rest⟩
  · have inOld : later ∈ old := by
      rw [oldEq]
      exact List.mem_append_left _ inFront
    exact apart inOld (List.mem_cons_of_mem _ among)
  · rw [frontEq, List.mem_append] at inFront
    cases middle with
    | nil =>
        rcases inFront with inOld | impossible
        · exact apart inOld (List.mem_cons_of_mem _ among)
        · cases impossible
    | cons first middle =>
        rw [List.cons_append, List.cons.injEq] at rest
        apply once
        rw [rest.2]
        exact List.mem_append_right _ inBack

/-- From bins of which only the first has items, first fit adds new items in their
order exactly if the sizes are ordered. -/
theorem Frontier.contents_insertAll_iff {bins : List (Bin α)} {items : List α}
    (frontier : Frontier bins) (distinct : (contents bins ++ items).Nodup) :
    contents (insertAll capacity size bins items) = contents bins ++ items ↔
      Ordered capacity (bins.map (·.space)) (items.map size) := by
  induction items generalizing bins with
  | nil => exact iff_of_true (List.append_nil _).symm trivial
  | cons item items ih =>
      obtain ⟨front, frontEq⟩ : ∃ front, bins.takeWhile (·.space < size item) = front := ⟨_, rfl⟩
      obtain ⟨back, backEq⟩ : ∃ back, bins.dropWhile (·.space < size item) = back := ⟨_, rfl⟩
      have whole : bins = front ++ back := by
        rw [← frontEq, ← backEq, List.takeWhile_append_dropWhile]
      have backFrontier : Frontier back := by
        rw [whole] at frontier
        exact frontier.suffix
      have inserted : insertAll capacity size bins (item :: items) =
          insertAll capacity size (front ++ landed capacity (size item) item back) items := by
        rw [insertAll, List.foldl_cons, insert_eq, frontEq, backEq]
        rfl
      have spaces : (bins.map (·.space)).takeWhile (· < size item) = front.map (·.space) := by
        rw [List.takeWhile_map, ← frontEq]
        rfl
      have rest : (bins.map (·.space)).dropWhile (· < size item) = back.map (·.space) := by
        rw [List.dropWhile_map, ← backEq]
        rfl
      have grown : contents front ++ contents (landed capacity (size item) item back) =
          contents bins ++ [item] := by
        rw [backFrontier.contents_landed, whole, contents_append, List.append_assoc]
      rw [List.map_cons, Ordered, spaces, rest, ← landed_spaces capacity (size item) item back,
        inserted]
      by_cases large : ∀ bin ∈ front, ∀ later ∈ items, bin.space < size later
      · have ordered : ∀ space ∈ front.map (·.space), ∀ later ∈ items.map size, space < later := by
          intro space member later inside
          obtain ⟨bin, among, rfl⟩ := List.mem_map.mp member
          obtain ⟨other, amongItems, rfl⟩ := List.mem_map.mp inside
          exact large bin among other amongItems
        have apart : (contents (landed capacity (size item) item back) ++ items).Nodup := by
          have all : (contents front ++
              (contents (landed capacity (size item) item back) ++ items)).Nodup := by
            rw [← List.append_assoc, grown, List.append_assoc]
            exact distinct
          exact (List.nodup_append.mp all).2.1
        rw [insertAll_skip large, contents_append, and_iff_right ordered,
          ← ih (backFrontier.after (size item) item) apart]
        have shape : contents bins ++ item :: items =
            contents front ++ (contents (landed capacity (size item) item back) ++ items) := by
          rw [← List.append_assoc, grown, List.append_assoc]
          rfl
        rw [shape]
        exact List.append_right_inj _
      · obtain ⟨front', back', split, _, kept, gains⟩ :=
          @insertAll_split α capacity size front (landed capacity (size item) item back) items
        have small : ∃ bin ∈ front, ∃ later ∈ items, size later ≤ bin.space := by
          by_contra none
          apply large
          intro bin member later inside
          by_contra room
          exact none ⟨bin, member, later, inside, Nat.not_lt.mp room⟩
        apply iff_of_false
        · obtain ⟨later, among, inFront⟩ := gains small
          rw [split, contents_append]
          apply order_spoiled distinct among inFront
          apply kept
          rw [backFrontier.contents_landed]
          exact List.mem_append_right _ List.mem_cons_self
        · intro ordered
          obtain ⟨bin, member, later, inside, room⟩ := small
          have less := ordered.1 bin.space (List.mem_map_of_mem member) (size later)
            (List.mem_map_of_mem inside)
          omega

/-- The bins as one sees them who looks at some of the items only. -/
def only (keep : α → Bool) (bins : List (Bin α)) : List (Bin α) :=
  bins.map fun bin => ⟨bin.space, bin.items.filter keep⟩

theorem contents_only (keep : α → Bool) (bins : List (Bin α)) :
    contents (only keep bins) = (contents bins).filter keep := by
  induction bins with
  | nil => rfl
  | cons bin rest ih =>
      rw [contents_cons, List.filter_append, ← ih]
      rfl

theorem only_insert {keep : α → Bool} {item : α} (kept : keep item = true) (size : Nat)
    (bins : List (Bin α)) :
    only keep (insert capacity size item bins) = insert capacity size item (only keep bins) := by
  induction bins with
  | nil => simp only [insert, only, List.map_cons, List.map_nil, List.filter_cons, kept,
      ↓reduceIte, List.filter_nil]
  | cons bin rest ih =>
      have here : only keep (bin :: rest) = ⟨bin.space, bin.items.filter keep⟩ :: only keep rest :=
        rfl
      rw [here, insert, insert]
      split
      · simp only [only, List.map_cons, List.filter_append, List.filter_cons, kept, ↓reduceIte,
          List.filter_nil]
      · rw [← ih]
        rfl

theorem only_insertAll {keep : α → Bool} {items : List α} (kept : ∀ item ∈ items, keep item = true)
    (bins : List (Bin α)) :
    only keep (insertAll capacity size bins items) =
      insertAll capacity size (only keep bins) items := by
  induction items generalizing bins with
  | nil => rfl
  | cons item items ih =>
      have first := @only_insert α capacity keep item (kept item List.mem_cons_self) (size item) bins
      unfold insertAll at ih ⊢
      rw [List.foldl_cons, List.foldl_cons, ← first]
      exact ih (fun later member => kept later (List.mem_cons_of_mem _ member)) _

/-- First fit keeps the order of new items among older ones exactly if their sizes
are ordered. -/
theorem filter_contents_insertAll_iff {keep : α → Bool} {bins : List (Bin α)} {items : List α}
    (old : ∀ item ∈ contents bins, keep item = false) (new : ∀ item ∈ items, keep item = true)
    (distinct : items.Nodup) :
    (contents (insertAll capacity size bins items)).filter keep = items ↔
      Ordered capacity (bins.map (·.space)) (items.map size) := by
  have none : contents (only keep bins) = [] := by
    rw [contents_only]
    apply List.filter_eq_nil_iff.mpr
    intro item member
    rw [old item member]
    exact Bool.false_ne_true
  have frontier : Frontier (only keep bins) := fun bin member =>
    List.flatMap_eq_nil_iff.mp none bin (List.mem_of_mem_tail member)
  have spaces : (only keep bins).map (·.space) = bins.map (·.space) := by
    rw [only, List.map_map]
    rfl
  have ordered := @Frontier.contents_insertAll_iff α capacity size _ items frontier
    (by rw [none]; exact distinct)
  rw [none, List.nil_append, spaces, ← only_insertAll new, contents_only] at ordered
  exact ordered

/-- The bins in front of the first item of a kind are too full for items of size `size`. -/
def Settled (kind : α → Bool) (size : Nat) : List (Bin α) → Prop
  | [] => True
  | bin :: rest => bin.items.any kind = true ∨
      ((∃ item ∈ contents rest, kind item = true) → bin.space < size) ∧ Settled kind size rest

theorem settled_single {kind : α → Bool} {size : Nat} (bin : Bin α) : Settled kind size [bin] := by
  refine Or.inr ⟨?_, trivial⟩
  intro later
  obtain ⟨_, member, _⟩ := later
  cases member

/-- Items that all have the size of their kind keep it settled. -/
theorem Settled.insert {kind : α → Bool} {kindSize size : Nat} {item : α} {bins : List (Bin α)}
    (settled : Settled kind kindSize bins) (sized : kind item = true → size = kindSize) :
    Settled kind kindSize (insert capacity size item bins) := by
  induction bins with
  | nil => exact settled_single _
  | cons bin rest ih =>
      unfold FirstFit.insert
      split
      · rename_i fits
        rcases settled with here | ⟨front, back⟩
        · left
          rw [List.any_append, here, Bool.true_or]
        · by_cases own : kind item = true
          · left
            rw [List.any_append, List.any_cons, own, Bool.true_or, Bool.or_true]
          · right
            refine ⟨?_, back⟩
            intro later
            exact Nat.lt_of_le_of_lt (Nat.sub_le _ _) (front later)
      · rename_i full
        rcases settled with here | ⟨front, back⟩
        · exact Or.inl here
        · right
          refine ⟨?_, ih back⟩
          intro later
          obtain ⟨other, member, isKind⟩ := later
          rcases mem_contents_insert.mp member with old | rfl
          · exact front ⟨other, old, isKind⟩
          · rw [← sized isKind]
            exact Nat.not_le.mp full

theorem Settled.more {kind : α → Bool} {size space : Nat} {bins : List (Bin α)}
    (settled : Settled kind size bins) : Settled kind size (bins ++ [⟨space, []⟩]) := by
  induction bins with
  | nil => exact settled_single _
  | cons bin rest ih =>
      rcases settled with here | ⟨front, back⟩
      · exact Or.inl here
      · right
        refine ⟨?_, ih back⟩
        intro later
        obtain ⟨other, member, isKind⟩ := later
        rw [List.append_eq, contents_append] at member
        rcases List.mem_append.mp member with old | impossible
        · exact front ⟨other, old, isKind⟩
        · cases impossible

/-- The first item of a settled kind stays the first. -/
theorem Settled.find?_insert {kind : α → Bool} {kindSize size : Nat} {item first : α}
    {bins : List (Bin α)} (settled : Settled kind kindSize bins)
    (sized : kind item = true → size = kindSize) (found : (contents bins).find? kind = some first) :
    (contents (FirstFit.insert capacity size item bins)).find? kind = some first := by
  induction bins with
  | nil => cases found
  | cons bin rest ih =>
      rw [contents_cons, List.find?_append] at found
      unfold FirstFit.insert
      split
      · rename_i fits
        rw [contents_cons, List.append_assoc, List.find?_append]
        cases here : bin.items.find? kind with
        | some other =>
            rw [here] at found
            exact found
        | none =>
            rw [here, Option.none_or] at found
            have later : ∃ item ∈ contents rest, kind item = true :=
              ⟨first, List.mem_of_find?_eq_some found, List.find?_some found⟩
            have own : ¬ kind item = true := by
              intro isKind
              rcases settled with inBin | ⟨front, _⟩
              · obtain ⟨other, member, otherKind⟩ := List.any_eq_true.mp inBin
                exact absurd otherKind (List.find?_eq_none.mp here other member)
              · have room := front later
                rw [← sized isKind] at room
                exact absurd fits (Nat.not_le.mpr room)
            rw [Option.none_or, List.singleton_append, List.find?_cons_of_neg own]
            exact found
      · rw [contents_cons, List.find?_append]
        cases here : bin.items.find? kind with
        | some other =>
            rw [here] at found
            exact found
        | none =>
            rw [here, Option.none_or] at found
            rw [Option.none_or]
            rcases settled with inBin | ⟨_, back⟩
            · obtain ⟨other, member, otherKind⟩ := List.any_eq_true.mp inBin
              exact absurd otherKind (List.find?_eq_none.mp here other member)
            · exact ih back found

/-- Like `insert`, but an item that is larger than a bin leaves an empty one behind. -/
def offer (capacity size : Nat) (item : α) (bins : List (Bin α)) : List (Bin α) :=
  if size ≤ capacity then insert capacity size item bins else bins ++ [⟨capacity, []⟩]

def offerAll (capacity : Nat) (size : α → Nat) (bins : List (Bin α)) (items : List α) :
    List (Bin α) :=
  items.foldl (fun bins item => offer capacity (size item) item bins) bins

theorem offerAll_concat (bins : List (Bin α)) (items : List α) (item : α) :
    offerAll capacity size bins (items ++ [item]) =
      offer capacity (size item) item (offerAll capacity size bins items) :=
  List.foldl_concat _ _ _ _

theorem contents_more (bins : List (Bin α)) (space : Nat) :
    contents (bins ++ [⟨space, []⟩]) = contents bins := by
  rw [contents_append]
  exact List.append_nil _

/-- What is in the bins are the items that fit one, in some order. -/
theorem contents_offerAll_perm (bins : List (Bin α)) (items : List α) :
    (contents (offerAll capacity size bins items)).Perm
      (contents bins ++ items.filter (size · ≤ capacity)) := by
  induction items generalizing bins with
  | nil =>
      rw [List.filter_nil, List.append_nil]
      exact .refl _
  | cons item items ih =>
      apply (ih (offer capacity (size item) item bins)).trans
      unfold offer
      split
      · rename_i fits
        rw [List.filter_cons_of_pos (by simpa using fits)]
        apply ((contents_insert_perm capacity (size item) item bins).append_right _).trans
        rw [List.append_assoc]
        exact .refl _
      · rename_i large
        rw [List.filter_cons_of_neg (by simpa using large), contents_more]

/-- Behind a bin with space for an item of the kind lies no such item. -/
def Queued (kind : α → Bool) (size : Nat) : List (Bin α) → Prop
  | [] => True
  | bin :: rest =>
      (size ≤ bin.space → ∀ item ∈ contents rest, kind item = false) ∧ Queued kind size rest

theorem Queued.insert_own {kind : α → Bool} {size : Nat} {item : α} {bins : List (Bin α)}
    (queued : Queued kind size bins) (own : kind item = true) :
    Queued kind size (FirstFit.insert capacity size item bins) ∧
      (contents (FirstFit.insert capacity size item bins)).filter kind =
        (contents bins).filter kind ++ [item] := by
  induction bins with
  | nil =>
      refine ⟨⟨fun _ other member => absurd member List.not_mem_nil, trivial⟩, ?_⟩
      exact List.filter_cons_of_pos own
  | cons bin rest ih =>
      obtain ⟨front, back⟩ := queued
      unfold FirstFit.insert
      split
      · rename_i fits
        have clean := front fits
        have none : (contents rest).filter kind = [] := by
          apply List.filter_eq_nil_iff.mpr
          intro other member
          rw [clean other member]
          exact Bool.false_ne_true
        refine ⟨⟨fun _ => clean, back⟩, ?_⟩
        rw [contents_cons, contents_cons, List.filter_append, List.filter_append,
          List.filter_append, none, List.filter_cons_of_pos own, List.append_nil, List.append_nil]
        rfl
      · rename_i full
        obtain ⟨back', same⟩ := ih back
        refine ⟨⟨fun fits => absurd fits full, back'⟩, ?_⟩
        rw [contents_cons, contents_cons, List.filter_append, List.filter_append, same,
          List.append_assoc]

/-- An item of another kind goes where it likes. -/
theorem Queued.insert_other {kind : α → Bool} {kindSize size : Nat} {item : α}
    {bins : List (Bin α)} (queued : Queued kind kindSize bins) (other : kind item = false) :
    Queued kind kindSize (FirstFit.insert capacity size item bins) := by
  induction bins with
  | nil => exact ⟨fun _ other member => absurd member List.not_mem_nil, trivial⟩
  | cons bin rest ih =>
      obtain ⟨front, back⟩ := queued
      unfold FirstFit.insert
      split
      · exact ⟨fun fits => front (Nat.le_trans fits (Nat.sub_le _ _)), back⟩
      · refine ⟨fun fits => ?_, ih back⟩
        intro later member
        rcases mem_contents_insert.mp member with old | rfl
        · exact front fits later old
        · exact other

theorem Queued.more {kind : α → Bool} {size space : Nat} {bins : List (Bin α)}
    (queued : Queued kind size bins) : Queued kind size (bins ++ [⟨space, []⟩]) := by
  induction bins with
  | nil => exact ⟨fun _ other member => absurd member List.not_mem_nil, trivial⟩
  | cons bin rest ih =>
      refine ⟨fun fits => ?_, ih queued.2⟩
      rw [List.append_eq, contents_more]
      exact queued.1 fits

theorem Queued.offerAll {kind : α → Bool} {kindSize : Nat} {bins : List (Bin α)} {items : List α}
    (queued : Queued kind kindSize bins) (sized : ∀ item, kind item = true ↔ size item = kindSize)
    (fits : kindSize ≤ capacity) :
    (contents (FirstFit.offerAll capacity size bins items)).filter kind =
      (contents bins).filter kind ++ items.filter kind := by
  induction items generalizing bins with
  | nil =>
      rw [List.filter_nil, List.append_nil]
      rfl
  | cons item items ih =>
      have further : ∀ bins', Queued kind kindSize bins' →
          FirstFit.offer capacity (size item) item bins = bins' →
          (contents (FirstFit.offerAll capacity size bins (item :: items))).filter kind =
            (contents bins').filter kind ++ items.filter kind := by
        rintro _ queued' rfl
        exact ih queued'
      by_cases own : kind item = true
      · have same := (sized item).mp own
        have placed := @Queued.insert_own α capacity kind kindSize item bins queued own
        rw [further _ placed.1 (by rw [offer, same, if_pos fits]), placed.2,
          List.filter_cons_of_pos own, List.append_assoc]
        rfl
      · have none : kind item = false := Bool.eq_false_iff.mpr own
        rw [List.filter_cons_of_neg own]
        by_cases large : size item ≤ capacity
        · rw [further _ (queued.insert_other none) (by rw [offer, if_pos large]),
            (contents_insert_oneMore _ _ _ _).filter_other own]
        · rw [further _ queued.more (by rw [offer, if_neg large]), contents_more]

theorem filter_size_offerAll (items : List α) (kindSize : Nat) (fits : kindSize ≤ capacity)
    (space : Nat) :
    (contents (offerAll capacity size [⟨space, []⟩] items)).filter (size · = kindSize) =
      items.filter (size · = kindSize) := by
  have start : Queued (fun item => decide (size item = kindSize)) kindSize
      [(⟨space, []⟩ : Bin α)] :=
    ⟨fun _ other member => absurd member List.not_mem_nil, trivial⟩
  exact start.offerAll (fun item => decide_eq_true_iff) fits

theorem contents_offerAll_sameSize {items : List α} (kindSize : Nat)
    (sized : ∀ item ∈ items, size item = kindSize) (fits : kindSize ≤ capacity) (space : Nat) :
    contents (offerAll capacity size [⟨space, []⟩] items) = items := by
  have all : ∀ item ∈ items, decide (size item = kindSize) = true :=
    fun item member => decide_eq_true (sized item member)
  have whole : ∀ item ∈ contents (offerAll capacity size [⟨space, []⟩] items),
      decide (size item = kindSize) = true := by
    intro item member
    rcases List.mem_append.mp ((contents_offerAll_perm _ items).mem_iff.mp member) with old | new
    · exact absurd old List.not_mem_nil
    · exact all item (List.mem_of_mem_filter new)
  rw [← List.filter_eq_self.mpr whole, filter_size_offerAll items kindSize fits,
    List.filter_eq_self.mpr all]

/-- What a bin holds. -/
def load (size : α → Nat) (bin : Bin α) : Nat := (bin.items.map size).sum

def total (size : α → Nat) (bins : List (Bin α)) : Nat := ((contents bins).map size).sum

def used (bins : List (Bin α)) : Nat := bins.countP fun bin => !bin.items.isEmpty

def spare (bins : List (Bin α)) : Nat := bins.countP fun bin => bin.items.isEmpty

/-- No item lies behind a bin that has room for it, and no bin holds more than it can. -/
def Packed (capacity : Nat) (size : α → Nat) : List (Bin α) → Prop
  | [] => True
  | bin :: rest =>
      bin.space + load size bin = capacity ∧ (∀ item ∈ contents rest, bin.space < size item) ∧
        Packed capacity size rest

theorem total_cons (bin : Bin α) (rest : List (Bin α)) :
    total size (bin :: rest) = load size bin + total size rest := by
  rw [total, contents_cons, List.map_append, List.sum_append]
  rfl

theorem used_add_spare (bins : List (Bin α)) : used bins + spare bins = bins.length := by
  have both := @List.length_eq_countP_add_countP _ (fun bin : Bin α => bin.items.isEmpty) bins
  simp only [used, spare, Bool.not_eq_true, Bool.decide_eq_false] at both ⊢
  omega

theorem packed_single : Packed capacity size [(⟨capacity, []⟩ : Bin α)] :=
  ⟨rfl, fun _ member => absurd member List.not_mem_nil, trivial⟩

theorem Packed.insert {bins : List (Bin α)} {item : α} (packed : Packed capacity size bins)
    (fits : size item ≤ capacity) :
    Packed capacity size (FirstFit.insert capacity (size item) item bins) := by
  induction bins with
  | nil =>
      refine ⟨?_, fun _ member => absurd member List.not_mem_nil, trivial⟩
      show capacity - size item + (size item + 0) = capacity
      omega
  | cons bin rest ih =>
      obtain ⟨whole, tight, back⟩ := packed
      unfold FirstFit.insert
      split
      · rename_i room
        refine ⟨?_, fun other member => ?_, back⟩
        · rw [load, List.map_append, List.sum_append] at *
          show bin.space - size item + (_ + (size item + 0)) = capacity
          omega
        · exact Nat.lt_of_le_of_lt (Nat.sub_le _ _) (tight other member)
      · rename_i full
        refine ⟨whole, fun other member => ?_, ih back⟩
        rcases mem_contents_insert.mp member with old | rfl
        · exact tight other old
        · exact Nat.not_le.mp full

theorem Packed.more {bins : List (Bin α)} (packed : Packed capacity size bins) :
    Packed capacity size (bins ++ [⟨capacity, []⟩]) := by
  induction bins with
  | nil => exact packed_single
  | cons bin rest ih =>
      refine ⟨packed.1, ?_, ih packed.2.2⟩
      rw [List.append_eq, contents_more]
      exact packed.2.1

/-- Two bins in use hold more together than one can: at most one is less than half full. -/
theorem Packed.half_full {bins : List (Bin α)} (packed : Packed capacity size bins) :
    used bins = 0 ∨ ∃ first ∈ bins, first.items ≠ [] ∧
      used bins * (capacity + 1) + load size first ≤ 2 * total size bins + (capacity + 1) := by
  induction bins with
  | nil => exact Or.inl rfl
  | cons bin rest ih =>
      obtain ⟨whole, tight, back⟩ := packed
      rw [total_cons]
      by_cases empty : bin.items = []
      · have same : used (bin :: rest) = used rest := by
          simp only [used, List.countP_cons, empty, List.isEmpty_nil, Bool.not_true,
            Bool.false_eq_true, ↓reduceIte, Nat.add_zero]
        have none : load size bin = 0 := by rw [load, empty, List.map_nil, List.sum_nil]
        rw [same, none, Nat.zero_add]
        rcases ih back with unused | ⟨first, member, nonempty, bound⟩
        · exact Or.inl unused
        · exact Or.inr ⟨first, List.mem_cons_of_mem _ member, nonempty, bound⟩
      · have more : used (bin :: rest) = used rest + 1 := by
          have nonempty : bin.items.isEmpty = false := by simpa using empty
          simp only [used, List.countP_cons, nonempty, Bool.not_false, ↓reduceIte]
        right
        refine ⟨bin, List.mem_cons_self, empty, ?_⟩
        rw [more, Nat.add_mul, Nat.one_mul]
        rcases ih back with unused | ⟨first, member, nonempty, bound⟩
        · rw [unused]
          omega
        · obtain ⟨item, inFirst⟩ := List.exists_mem_of_ne_nil _ nonempty
          have behind := tight item (List.mem_flatMap.mpr ⟨first, member, inFirst⟩)
          have within : size item ≤ load size first :=
            List.le_sum_of_mem (List.mem_map_of_mem inFirst)
          omega

theorem Packed.total_le {bins : List (Bin α)} (packed : Packed capacity size bins) :
    total size bins ≤ capacity * bins.length := by
  induction bins with
  | nil => exact Nat.zero_le _
  | cons bin rest ih =>
      have rest := ih packed.2.2
      have whole := packed.1
      rw [total_cons, List.length_cons, Nat.mul_add, Nat.mul_one]
      omega

theorem spare_insert (capacity size : Nat) (item : α) (bins : List (Bin α)) :
    spare (insert capacity size item bins) ≤ spare bins := by
  induction bins with
  | nil => exact Nat.le_refl 0
  | cons bin rest ih =>
      unfold insert
      split
      · simp [spare, List.countP_cons]
      · simp only [spare, List.countP_cons] at ih ⊢
        omega

theorem spare_insert_first {bins : List (Bin α)} {item : α} (packed : Packed capacity size bins)
    (fits : size item ≤ capacity) (unused : used bins = 0) (some : bins ≠ []) :
    spare (FirstFit.insert capacity (size item) item bins) + 1 = spare bins := by
  cases bins with
  | nil => exact absurd rfl some
  | cons bin rest =>
      have empty : bin.items = [] := by
        by_contra nonempty
        have positive : 0 < used (bin :: rest) := by
          apply List.countP_pos_iff.mpr
          exact ⟨bin, List.mem_cons_self, by simpa using nonempty⟩
        omega
      have whole := packed.1
      rw [load, empty, List.map_nil, List.sum_nil, Nat.add_zero] at whole
      rw [FirstFit.insert, if_pos (by omega)]
      simp [spare, empty]

/-- The bins of items that were offered to one empty bin. -/
structure Offered (capacity : Nat) (size : α → Nat) (items : List α) (bins : List (Bin α)) :
    Prop where
  packed : Packed capacity size bins
  some : bins ≠ []
  spares : spare bins ≤ items.countP (capacity < size ·) + 1
  spared : used bins ≠ 0 → spare bins ≤ items.countP (capacity < size ·)

theorem insert_ne_nil (capacity size : Nat) (item : α) (bins : List (Bin α)) :
    insert capacity size item bins ≠ [] := by
  cases bins with
  | nil => exact List.cons_ne_nil _ _
  | cons bin rest =>
      unfold insert
      split <;> exact List.cons_ne_nil _ _

theorem Offered.step {items : List α} {bins : List (Bin α)}
    (offered : Offered capacity size items bins) (item : α) :
    Offered capacity size (items ++ [item]) (offer capacity (size item) item bins) := by
  have count : (items ++ [item]).countP (capacity < size ·) =
      items.countP (capacity < size ·) + if capacity < size item then 1 else 0 := by
    rw [List.countP_append, List.countP_singleton]
    simp only [decide_eq_true_eq]
  by_cases fits : size item ≤ capacity
  · rw [if_neg (by omega), Nat.add_zero] at count
    rw [offer, if_pos fits]
    have fewer := spare_insert capacity (size item) item bins
    refine ⟨offered.packed.insert fits, insert_ne_nil _ _ _ _, ?_, fun _ => ?_⟩
    · have before := offered.spares
      omega
    · rw [count]
      by_cases unused : used bins = 0
      · have first := spare_insert_first offered.packed fits unused offered.some
        have before := offered.spares
        omega
      · have before := offered.spared unused
        omega
  · rw [if_pos (by omega)] at count
    rw [offer, if_neg fits]
    have one : spare (bins ++ [⟨capacity, []⟩]) = spare bins + 1 := by
      rw [spare, List.countP_append]
      rfl
    have same : used (bins ++ [⟨capacity, []⟩]) = used bins := by
      rw [used, List.countP_append]
      rfl
    refine ⟨offered.packed.more, by simp, ?_, fun inUse => ?_⟩
    · have before := offered.spares
      omega
    · rw [same] at inUse
      have before := offered.spared inUse
      omega

theorem offered_all (items : List α) :
    Offered capacity size items (offerAll capacity size [⟨capacity, []⟩] items) := by
  induction items using List.reverseRecOn with
  | nil => exact ⟨packed_single, List.cons_ne_nil _ _, Nat.le_refl 1, fun inUse => absurd rfl inUse⟩
  | append_singleton items item ih =>
      rw [offerAll_concat]
      exact ih.step item

theorem total_offerAll (items : List α) :
    total size (offerAll capacity size [⟨capacity, []⟩] items) =
      ((items.filter (size · ≤ capacity)).map size).sum :=
  ((contents_offerAll_perm _ items).map size).sum_eq

/-- First fit wastes less than half of the bins, those apart that an item which fits none has
left behind. -/
theorem length_offerAll_le (items : List α) :
    (capacity + 1) * (offerAll capacity size [⟨capacity, []⟩] items).length ≤
      2 * ((items.filter (size · ≤ capacity)).map size).sum +
        (capacity + 1) * (items.countP (capacity < size ·) + 1) := by
  have offered := @offered_all α capacity size items
  rw [← total_offerAll, ← used_add_spare, Nat.mul_add]
  by_cases unused : used (offerAll capacity size [⟨capacity, []⟩] items) = 0
  · rw [unused, Nat.mul_zero, Nat.zero_add]
    have spares := Nat.mul_le_mul_left (capacity + 1) offered.spares
    omega
  · have spares := Nat.mul_le_mul_left (capacity + 1) (offered.spared unused)
    obtain ⟨first, _, _, bound⟩ := offered.packed.half_full.resolve_left unused
    rw [Nat.mul_add, Nat.mul_one, Nat.mul_comm (capacity + 1) (used _)]
    omega

end RelationalDb.FirstFit
