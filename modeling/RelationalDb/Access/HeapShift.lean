import RelationalDb.Access.HeapRuns

set_option autoImplicit false

namespace RelationalDb

/-- A call where `count` other heap files stand in front. -/
def HeapOp.shift (count : Nat) : HeapOp → HeapOp
  | create fileId => .create fileId
  | openEmpty fileId => .openEmpty fileId
  | insert i data => .insert (count + i) data
  | get i rid => .get (count + i) rid
  | update i rid data => .update (count + i) rid data
  | delete i rid => .delete (count + i) rid

def HeapAnswer.shift (count : Nat) : HeapAnswer → HeapAnswer
  | made i => .made (count + i)
  | placed rid => .placed rid
  | found data => .found data
  | done success => .done success

namespace World

variable {N : Nat} {α β γ δ : Type} {front : List HeapFile}

def behind (front : List HeapFile) (w : World N) : World N := ⟨w.bm, front ++ w.heaps⟩

/-- A program that does in the larger world what another one does in the smaller. -/
def Shifts (front : List HeapFile) (answer : α → β) (larger : Program (World N) Error β)
    (smaller : Program (World N) Error α) : Prop :=
  ∀ w, larger (behind front w) =
    (smaller w).map fun ended => (ended.1.map answer, behind front ended.2)

theorem Shifts.bind {answer : α → β} {last : γ → δ} {larger : Program (World N) Error β}
    {smaller : Program (World N) Error α} {next : β → Program (World N) Error δ}
    {next' : α → Program (World N) Error γ} (first : Shifts front answer larger smaller)
    (rest : ∀ value, Shifts front last (next (answer value)) (next' value)) :
    Shifts front last (larger >>= next) (smaller >>= next') := by
  intro w
  simp only [Bind.bind, first w]
  cases smaller w with
  | none => rfl
  | some ended =>
      obtain ⟨outcome, w'⟩ := ended
      cases outcome with
      | error reason => rfl
      | ok value => exact rest value w'

theorem shifts_pure (value : α) (answer : α → β) :
    Shifts front answer (Pure.pure (answer value) : Program (World N) Error β) (Pure.pure value) :=
  fun _ => rfl

theorem shifts_onPool (program : Heap N α) : Shifts front id (onPool program) (onPool program) := by
  intro w
  simp only [onPool, behind, Option.map_map]
  cases program w.bm with
  | none => rfl
  | some ended =>
      obtain ⟨outcome, bm'⟩ := ended
      cases outcome <;> rfl

theorem shifts_heapAt (i : Nat) :
    Shifts front id (heapAt (front.length + i) : Program (World N) Error HeapFile) (heapAt i) := by
  intro w
  simp only [heapAt, behind]
  rw [List.getElem?_append_right (Nat.le_add_right _ _), Nat.add_sub_cancel_left]
  cases w.heaps[i]? <;> rfl

theorem shifts_setHeap (i : Nat) (heap : HeapFile) :
    Shifts front id (setHeap (front.length + i) heap : Program (World N) Error Unit)
      (setHeap i heap) := by
  intro w
  have same : (front ++ w.heaps).set (front.length + i) heap = front ++ w.heaps.set i heap := by
    rw [List.set_append_right _ _ (Nat.le_add_right _ _), Nat.add_sub_cancel_left]
  simp only [setHeap, modify, modifyGet, MonadStateOf.modifyGet, behind, same]
  rfl

theorem shifts_firstPage (i : Nat) (heap : HeapFile) :
    Shifts front id (firstPage (front.length + i) heap : Program (World N) Error HeapFile)
      (firstPage i heap) := by
  unfold firstPage
  split
  · apply (shifts_onPool _).bind
    intro pageId
    apply (shifts_setHeap i _).bind
    intro _
    exact (shifts_onPool _).bind fun _ => shifts_pure { heap with firstPageId := pageId } id
  · exact shifts_pure heap id

theorem shifts_addHeap (heap : HeapFile) :
    Shifts front (HeapAnswer.shift front.length) (addHeap heap : Program (World N) Error HeapAnswer)
      (addHeap heap) := by
  intro w
  simp only [addHeap, behind, List.length_append, List.append_assoc]
  rfl

theorem shifts_get : Shifts front (behind front) (MonadState.get : Program (World N) Error (World N))
    MonadState.get := fun _ => rfl

/-- A call does the same where other heap files stand in front. -/
theorem shifts_run (op : HeapOp) :
    Shifts front (HeapAnswer.shift front.length)
      ((op.shift front.length).run : Program (World N) Error HeapAnswer) op.run := by
  cases op with
  | create fileId => exact (shifts_onPool _).bind fun heap => shifts_addHeap heap
  | openEmpty fileId => exact shifts_addHeap _
  | insert i data =>
      apply (shifts_heapAt i).bind
      intro heap
      apply (shifts_firstPage i heap).bind
      intro heap'
      exact (shifts_onPool _).bind fun rid => shifts_pure (HeapAnswer.placed rid) _
  | get i rid =>
      apply (shifts_heapAt i).bind
      intro _
      apply (shifts_onPool _).bind
      intro record
      exact shifts_get.bind fun w => shifts_pure (HeapAnswer.found (record.map (·.bytes w.bm))) _
  | update i rid data =>
      apply (shifts_heapAt i).bind
      intro _
      exact (shifts_onPool _).bind fun success => shifts_pure (HeapAnswer.done success) _
  | delete i rid =>
      apply (shifts_heapAt i).bind
      intro _
      exact (shifts_onPool _).bind fun success => shifts_pure (HeapAnswer.done success) _

end World

end RelationalDb
