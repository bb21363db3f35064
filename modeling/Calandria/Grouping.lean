/-
Folding a collection in any grouping.

A `Grouping` is one way to combine the values of a finite collection two at a
time, some of the parts possibly empty.  Under an associative and commutative
operation with an identity its fold depends on the values alone
(`fold_eq_leaves`), so neither their order nor the grouping matters
(`fold_congr`).  Under `min`, from an upper bound of the values, the fold of
some values is the least of them (`isLeast_fold_min`).
-/
import Mathlib.Algebra.Order.Ring.Nat
import Mathlib.Data.Multiset.Fold
import Mathlib.Order.Bounds.Basic

inductive Grouping (α : Type)
  | empty
  | single (value : α)
  | join (left right : Grouping α)

namespace Grouping

variable {α β : Type}

/-- The values, each as often as it occurs. -/
def leaves : Grouping α → Multiset α
  | empty => 0
  | single value => {value}
  | join left right => left.leaves + right.leaves

/-- Combines the values the way they are grouped. -/
def fold (op : α → α → α) (unit : α) : Grouping α → α
  | empty => unit
  | single value => value
  | join left right => op (left.fold op unit) (right.fold op unit)

variable (op : α → α → α) [Std.Commutative op] [Std.Associative op] (unit : α)
  [Std.LawfulIdentity op unit]

theorem fold_eq_leaves (g : Grouping α) : g.fold op unit = g.leaves.fold op unit := by
  induction g with
  | empty => rfl
  | single value =>
    rw [fold, leaves, Multiset.fold_singleton]
    exact (Std.LawfulRightIdentity.right_id value).symm
  | join left right hleft hright =>
    have hunit : op unit unit = unit := Std.LawfulLeftIdentity.left_id unit
    have hadd := Multiset.fold_add op unit unit left.leaves right.leaves
    rw [hunit] at hadd
    rw [fold, leaves, hleft, hright, hadd]

theorem fold_congr {g g' : Grouping α} (h : g.leaves = g'.leaves) :
    g.fold op unit = g'.fold op unit := by
  rw [fold_eq_leaves, fold_eq_leaves, h]

end Grouping

theorem Multiset.isLeast_fold_min {α : Type} [LinearOrder α] {bound : α} {s : Multiset α}
    (hbound : ∀ a ∈ s, a ≤ bound) (hs : s ≠ 0) : IsLeast {a | a ∈ s} (s.fold min bound) := by
  induction s using Multiset.induction_on with
  | empty => exact absurd rfl hs
  | cons head rest ih =>
    rw [fold_cons_left]
    by_cases hrest : rest = 0
    · subst hrest
      have hhead := hbound head (mem_cons_self head 0)
      rw [fold_zero, min_eq_left hhead]
      exact ⟨mem_cons_self head 0, fun a ha => (mem_singleton.mp ha).ge⟩
    · obtain ⟨hmem, hlower⟩ := ih (fun a ha => hbound a (mem_cons_of_mem ha)) hrest
      constructor
      · rcases min_choice head (rest.fold min bound) with hmin | hmin <;> rw [hmin]
        · exact mem_cons_self head rest
        · exact mem_cons_of_mem hmem
      · intro a ha
        rcases mem_cons.mp ha with rfl | ha
        · exact min_le_left _ _
        · exact (min_le_right _ _).trans (hlower ha)
