/-
The longest prefix of a list that is met in order in another.

`List.SublistForall₂ r xs zs` says that the members of `xs` are met, in their
order, among those of `zs`.  Taking each match as soon as it comes loses nothing:

* `matched` — how many members of `xs` are met that way;
* `take_matched` — so many of them are met;
* `le_matched` — and no longer prefix is.
-/
import Mathlib.Algebra.Order.Ring.Nat
import Mathlib.Data.List.Forall2

namespace Matching

variable {α β : Type} {r : α → β → Prop}

theorem tail_met {x : α} {xs : List α} {ys : List β} (h : List.SublistForall₂ r (x :: xs) ys) :
    List.SublistForall₂ r xs ys := by
  induction ys with
  | nil => cases h
  | cons y ys ih =>
    cases h with
    | cons _ hrest => exact .cons_right hrest
    | cons_right hrest => exact .cons_right (ih hrest)

variable (r) [DecidableRel r]

/-- How many members of the first list are met when each waits for the one before. -/
def matched : List α → List β → ℕ
  | [], _ => 0
  | _ :: _, [] => 0
  | x :: xs, y :: ys => if r x y then matched xs ys + 1 else matched (x :: xs) ys

variable {r}

theorem matched_le (xs : List α) (ys : List β) : matched r xs ys ≤ xs.length := by
  induction ys generalizing xs with
  | nil => cases xs <;> simp [matched]
  | cons y ys ih =>
    cases xs with
    | nil => simp [matched]
    | cons x xs =>
      rw [matched]
      split_ifs
      · exact Nat.succ_le_succ (ih xs)
      · exact ih (x :: xs)

theorem take_matched (xs : List α) (ys : List β) :
    List.SublistForall₂ r (xs.take (matched r xs ys)) ys := by
  induction ys generalizing xs with
  | nil => cases xs <;> exact .nil
  | cons y ys ih =>
    cases xs with
    | nil => exact .nil
    | cons x xs =>
      rw [matched]
      split_ifs with hxy
      · rw [List.take_succ_cons]
        exact .cons hxy (ih xs)
      · exact .cons_right (ih (x :: xs))

/-- A longer prefix is not met. -/
theorem le_matched {xs : List α} {ys : List β} {k : ℕ} (hk : k ≤ xs.length)
    (h : List.SublistForall₂ r (xs.take k) ys) : k ≤ matched r xs ys := by
  induction ys generalizing xs k with
  | nil =>
    rcases k with _ | k
    · exact Nat.zero_le _
    · cases xs with
      | nil => exact hk
      | cons x xs => cases h
  | cons y ys ih =>
    rcases k with _ | k
    · exact Nat.zero_le _
    · cases xs with
      | nil => exact absurd hk (by simp)
      | cons x xs =>
        have hk' : k ≤ xs.length := Nat.le_of_succ_le_succ hk
        rw [List.take_succ_cons] at h
        rw [matched]
        split_ifs with hxy
        · -- a match taken now leaves at least as many places for the rest
          have hrest : List.SublistForall₂ r (xs.take k) ys := by
            cases h with
            | cons _ hrest => exact hrest
            | cons_right hrest => exact tail_met hrest
          exact Nat.succ_le_succ (ih hk' hrest)
        · cases h with
          | cons hxy' _ => exact absurd hxy' hxy
          | cons_right hrest => exact ih hk hrest

end Matching
