/-
Priority queues.

`PriorityQueue α cmp` is what a binary heap over a comparison is documented to
do: its contents are a vector in an arbitrary order, a peek finds one of the
greatest, and a pop takes it out.  `PriorityQueue.sorted` is one, for every
lawful comparison.

`swapRemove` takes one element out of a vector and puts the last one in its place.
-/
import Mathlib.Algebra.Order.Ring.Nat
import Mathlib.Data.List.Perm.Basic
import Mathlib.Data.List.Sort

structure PriorityQueue (α : Type) (cmp : α → α → Ordering) where
  Heap : Type
  new : Heap
  push : Heap → α → Heap
  peek : Heap → Option α
  pop : Heap → Option (α × Heap)
  intoVec : Heap → List α
  fromVec : List α → Heap
  new_vec : intoVec new = []
  push_vec : ∀ heap x, (intoVec (push heap x)).Perm (x :: intoVec heap)
  fromVec_vec : ∀ l, (intoVec (fromVec l)).Perm l
  peek_eq_none : ∀ {heap}, peek heap = none ↔ intoVec heap = []
  peek_mem : ∀ {heap x}, peek heap = some x → x ∈ intoVec heap
  peek_greatest : ∀ {heap x y}, peek heap = some x → y ∈ intoVec heap → (cmp y x).isLE
  pop_peek : ∀ heap, (pop heap).map Prod.fst = peek heap
  pop_vec : ∀ {heap x heap'}, pop heap = some (x, heap') →
    (intoVec heap).Perm (x :: intoVec heap')

namespace PriorityQueue

variable {α : Type} {cmp : α → α → Ordering}

/-- `x` may stand before `y` in a vector kept from the greatest to the least. -/
def Before (cmp : α → α → Ordering) (x y : α) : Prop := (cmp y x).isLE

instance : DecidableRel (Before cmp) := fun x y => inferInstanceAs (Decidable ((cmp y x).isLE = true))

variable [Std.TransCmp cmp]

instance : IsTrans α (Before cmp) := ⟨fun _ _ _ hxy hyz => Std.TransCmp.isLE_trans hyz hxy⟩

instance : Std.Total (Before cmp) := by
  refine ⟨fun x y => ?_⟩
  have hswap : cmp y x = (cmp x y).swap := Std.OrientedCmp.eq_swap
  rw [Before, Before, hswap]
  cases cmp x y with
  | lt => exact .inr rfl
  | eq => exact .inl rfl
  | gt => exact .inl rfl

/-- Vectors kept from the greatest to the least. -/
def sorted (α : Type) (cmp : α → α → Ordering) [Std.TransCmp cmp] : PriorityQueue α cmp where
  Heap := { l : List α // l.Pairwise (Before cmp) }
  new := ⟨[], .nil⟩
  push heap x := ⟨heap.val.orderedInsert (Before cmp) x, heap.property.orderedInsert x _⟩
  peek heap := heap.val.head?
  pop heap := match heap with
    | ⟨[], _⟩ => none
    | ⟨x :: rest, h⟩ => some (x, ⟨rest, h.of_cons⟩)
  intoVec heap := heap.val
  fromVec l := ⟨l.insertionSort (Before cmp), List.pairwise_insertionSort _ l⟩
  new_vec := rfl
  push_vec heap x := List.perm_orderedInsert _ x heap.val
  fromVec_vec l := List.perm_insertionSort _ l
  peek_eq_none := List.head?_eq_none_iff
  peek_mem := List.mem_of_head?
  peek_greatest := by
    intro heap x y hpeek hy
    obtain ⟨rest, hrest⟩ := List.head?_eq_some_iff.mp hpeek
    have hsorted := heap.property
    rw [hrest] at hsorted hy
    rcases List.mem_cons.mp hy with rfl | hy
    · exact Std.ReflCmp.isLE_rfl
    · exact (List.pairwise_cons.mp hsorted).1 y hy
  pop_peek := by
    rintro ⟨_ | ⟨x, rest⟩, h⟩ <;> rfl
  pop_vec := by
    rintro ⟨_ | ⟨x, rest⟩, h⟩ y heap' hpop
    · cases hpop
    · cases hpop
      exact .refl _

end PriorityQueue

/-! ### Taking one element out of a vector -/

section

variable {α : Type}

/-- `Vec::swap_remove`. -/
def swapRemove (l : List α) (i : Fin l.length) : α × List α :=
  (l[i], (l.set i (l.getLast (List.ne_nil_of_length_pos i.pos))).dropLast)

theorem swapRemove_perm (l : List α) (i : Fin l.length) :
    l.Perm ((swapRemove l i).1 :: (swapRemove l i).2) := by
  have hne : l ≠ [] := List.ne_nil_of_length_pos i.pos
  have hset : (l.set i (l.getLast hne)).Perm (l.getLast hne :: l.eraseIdx i) :=
    List.set_perm_cons_eraseIdx i.isLt _
  have hset_ne : l.set i (l.getLast hne) ≠ [] := by simpa using hne
  -- the last element is still the last one after the assignment
  have hlast : (l.set i (l.getLast hne)).getLast hset_ne = l.getLast hne := by
    rw [List.getLast_eq_getElem, List.getElem_set]
    split_ifs with hi
    · rfl
    · simp [List.getLast_eq_getElem]
  have hdrop : (l.set i (l.getLast hne)).dropLast.Perm (l.eraseIdx i) := by
    have hsplit := List.dropLast_append_getLast hset_ne
    rw [hlast] at hsplit
    refine List.Perm.cons_inv (a := l.getLast hne) ?_
    refine (List.perm_append_singleton _ _).symm.trans ?_
    rw [hsplit]
    exact hset
  exact ((hdrop.cons _).trans (List.getElem_cons_eraseIdx_perm i.isLt)).symm

end
