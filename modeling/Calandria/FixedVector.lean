/-
Vectors of a fixed length, as functions on the positions below it.

* `sum_update` — a sum over the entries, after an update;
* `tally` counts the entries that pass a test;
* `findSome?_finRange` — a search through the positions in order finds the lowest.
-/
import Mathlib.Algebra.Order.Ring.Nat
import Mathlib.Algebra.BigOperators.Group.Finset.Basic
import Mathlib.Data.Fintype.BigOperators
import Mathlib.Data.List.FinRange
import Mathlib.Data.Set.Card

variable {n : ℕ} {α : Type}

/-! ### Counting -/

/-- How many entries of a vector satisfy the test. -/
def tally (p : α → Bool) (f : Fin n → α) : ℕ := ∑ k, if p (f k) then 1 else 0

/-- What an update does to a sum over the entries. -/
theorem sum_update (g : α → ℕ) (f : Fin n → α) (k : Fin n) (x : α) :
    ∑ j, g (Function.update f k x j) + g (f k) = ∑ j, g (f j) + g x := by
  have hcomp : (fun j => g (Function.update f k x j))
      = Function.update (fun j => g (f j)) k (g x) := by
    funext j
    by_cases hj : j = k
    · subst hj
      simp
    · simp [hj]
  rw [hcomp, Finset.sum_update_of_mem (Finset.mem_univ k),
    ← Finset.add_sum_erase _ _ (Finset.mem_univ k), Finset.sdiff_singleton_eq_erase]
  omega

theorem tally_update (p : α → Bool) (f : Fin n → α) (k : Fin n) (x : α) :
    tally p (Function.update f k x) + (if p (f k) then 1 else 0)
      = tally p f + if p x then 1 else 0 :=
  sum_update (fun x => if p x then 1 else 0) f k x

theorem tally_const (p : α → Bool) (x : α) :
    tally p (fun _ : Fin n => x) = if p x then n else 0 := by
  rw [tally]
  split_ifs <;> simp

/-- Tests of which exactly one succeeds share out the vector. -/
theorem tally_add (p q r : α → Bool)
    (h : ∀ x, (if p x then 1 else 0) + (if q x then 1 else 0) + (if r x then 1 else 0) = 1)
    (f : Fin n → α) : tally p f + tally q f + tally r f = n := by
  rw [tally, tally, tally, ← Finset.sum_add_distrib, ← Finset.sum_add_distrib,
    Finset.sum_congr rfl fun k _ => h (f k)]
  simp

theorem tally_eq_card (p : α → Bool) (f : Fin n → α) :
    tally p f = (Finset.univ.filter fun k => p (f k) = true).card := by
  rw [tally, Finset.card_filter]

theorem tally_eq_ncard (p : α → Bool) (f : Fin n → α) :
    tally p f = {k | p (f k) = true}.ncard := by
  rw [tally_eq_card, Set.ncard_eq_toFinset_card', Set.toFinset_ofPred]

theorem tally_le (p : α → Bool) (f : Fin n → α) : tally p f ≤ n := by
  have hle := Finset.card_filter_le (Finset.univ : Finset (Fin n)) fun k => p (f k) = true
  rw [Finset.card_univ, Fintype.card_fin] at hle
  rwa [tally_eq_card]

theorem tally_eq_iff (p : α → Bool) (f : Fin n → α) : tally p f = n ↔ ∀ k, p (f k) = true := by
  have hiff := Finset.card_filter_eq_iff (s := (Finset.univ : Finset (Fin n)))
    (p := fun k => p (f k) = true)
  rw [Finset.card_univ, Fintype.card_fin] at hiff
  rw [tally_eq_card, hiff]
  simp

/-! ### Searching -/

theorem findSome?_finRange {f : Fin n → Option α} {x : α}
    (h : (List.finRange n).findSome? f = some x) :
    ∃ k, f k = some x ∧ ∀ j < k, f j = none := by
  obtain ⟨before, k, after, hsplit, hk, hbefore⟩ := List.findSome?_eq_some_iff.mp h
  refine ⟨k, hk, fun j hj => hbefore j ?_⟩
  have hsorted := hsplit ▸ List.pairwise_lt_finRange n
  have hmem := hsplit ▸ List.mem_finRange j
  rcases List.mem_append.mp hmem with hin | hin
  · exact hin
  -- a position after `k` is not below it
  · rcases List.mem_cons.mp hin with rfl | hin
    · exact absurd hj (lt_irrefl _)
    · have hkj := (List.pairwise_cons.mp (List.pairwise_append.mp hsorted).2.1).1 j hin
      exact absurd hkj (lt_asymm hj)

theorem findSome?_finRange_eq_none {f : Fin n → Option α} :
    (List.finRange n).findSome? f = none ↔ ∀ k, f k = none := by
  simp

/-! ### The first positions -/

theorem take_finRange_succ (k : Fin n) :
    (List.finRange n).take (k.val + 1) = (List.finRange n).take k.val ++ [k] := by
  rw [List.take_add_one, List.getElem?_eq_getElem (by simp), List.getElem_finRange]
  rfl

theorem mem_take_finRange {i : ℕ} {k : Fin n} : k ∈ (List.finRange n).take i ↔ k.val < i := by
  rw [List.mem_take_iff_getElem]
  constructor
  · rintro ⟨j, hj, rfl⟩
    simp only [List.getElem_finRange, Fin.val_cast]
    omega
  · intro hk
    have hlt := k.isLt
    exact ⟨k.val, by rw [List.length_finRange]; omega, by simp⟩
