/-
Scaling a range down.

`x ↦ x * n / m` takes the `m` numbers below `m` to the `n` numbers below `n`.

* `scale_lt`, `scale_mono` — it stays in range and in order;
* `hits` — what it takes to one place: an interval between two rounded multiples;
* `ncard_hits` — its length is `m / n`, rounded down or up.
-/
import Mathlib.Algebra.Order.Ring.Nat
import Mathlib.Algebra.Order.Floor.Div
import Mathlib.Data.Set.Card
import Mathlib.Order.Interval.Finset.Nat

namespace Scaling

variable {m n j x y : ℕ}

def scale (m n x : ℕ) : ℕ := x * n / m

theorem scale_lt (hx : x < m) (hn : 0 < n) : scale m n x < n := by
  rw [scale, Nat.div_lt_iff_lt_mul (Nat.zero_lt_of_lt hx), Nat.mul_comm]
  exact Nat.mul_lt_mul_of_pos_left hx hn

theorem scale_mono (m n : ℕ) (h : x ≤ y) : scale m n x ≤ scale m n y :=
  Nat.div_le_div_right (Nat.mul_le_mul_right n h)

/-! ### What is taken to one place -/

/-- The first number that is taken to `j` or beyond. -/
def first (m n j : ℕ) : ℕ := (j * m) ⌈/⌉ n

theorem first_le_iff (hn : 0 < n) (hm : 0 < m) : first m n j ≤ x ↔ j ≤ scale m n x := by
  rw [first, ceilDiv_le_iff_le_mul hn, scale, Nat.le_div_iff_mul_le hm, Nat.mul_comm n]

theorem scale_eq_iff (hn : 0 < n) (hm : 0 < m) :
    scale m n x = j ↔ first m n j ≤ x ∧ x < first m n (j + 1) := by
  rw [← not_le, first_le_iff hn hm, first_le_iff hn hm]
  omega

theorem first_top (hn : 0 < n) : first m n n = m := by
  rw [first]
  exact smul_ceilDiv hn m

theorem first_mono (hn : 0 < n) {j j' : ℕ} (h : j ≤ j') : first m n j ≤ first m n j' :=
  (gc_mul_ceilDiv hn).monotone_l (Nat.mul_le_mul_right m h)

/-- A rounded multiple lies less than one above the multiple itself. -/
theorem first_bounds (hn : 0 < n) (j : ℕ) :
    j * m ≤ n * first m n j ∧ n * first m n j < j * m + n := by
  have hmul : j * m ≤ n * first m n j := (ceilDiv_le_iff_le_mul hn).mp le_rfl
  refine ⟨hmul, ?_⟩
  by_contra hge
  have hpred : first m n j ≤ first m n j - 1 := by
    rw [first, ceilDiv_le_iff_le_mul hn, ← first, Nat.mul_sub]
    omega
  have hpos : first m n j ≠ 0 := by
    intro hzero
    rw [hzero] at hge
    omega
  omega

/-- The next place begins `m / n` further on, rounded down or up. -/
theorem first_succ (hn : 0 < n) :
    first m n j + m / n ≤ first m n (j + 1) ∧ first m n (j + 1) ≤ first m n j + m ⌈/⌉ n := by
  obtain ⟨hlow, hhigh⟩ := first_bounds (m := m) hn j
  obtain ⟨hlow', hhigh'⟩ := first_bounds (m := m) hn (j + 1)
  have hfloor : n * (m / n) ≤ m := Nat.mul_div_le m n
  have hceil : m ≤ n * (m ⌈/⌉ n) := (ceilDiv_le_iff_le_mul hn).mp le_rfl
  rw [Nat.succ_mul] at hlow' hhigh'
  constructor
  · have hstep : n * (first m n j + m / n) < n * (first m n (j + 1) + 1) := by
      rw [Nat.mul_add, Nat.mul_add]
      omega
    have := Nat.lt_of_mul_lt_mul_left hstep
    omega
  · rw [first, ceilDiv_le_iff_le_mul hn, Nat.succ_mul, Nat.mul_add]
    omega

/-- The numbers that are taken to `j`. -/
def hits (m n j : ℕ) : Set (Fin m) := {x | scale m n x.val = j}

theorem ncard_hits (hm : 0 < m) (hj : j < n) :
    (hits m n j).ncard = first m n (j + 1) - first m n j := by
  have hn : 0 < n := Nat.zero_lt_of_lt hj
  have htop : first m n (j + 1) ≤ m := by
    calc first m n (j + 1) ≤ first m n n := first_mono hn hj
      _ = m := first_top hn
  have himage : Fin.val '' hits m n j = ↑(Finset.Ico (first m n j) (first m n (j + 1))) := by
    ext x
    rw [Set.mem_image, Finset.coe_Ico, Set.mem_Ico, ← scale_eq_iff hn hm]
    constructor
    · rintro ⟨y, hy, rfl⟩
      exact hy
    · intro hx
      have hlt : x < m := lt_of_lt_of_le ((scale_eq_iff hn hm).mp hx).2 htop
      exact ⟨⟨x, hlt⟩, hx, rfl⟩
  rw [← Set.ncard_image_of_injective _ Fin.val_injective, himage, Set.ncard_coe_finset,
    Nat.card_Ico]

theorem ratio_le_ceil (m n : ℕ) : m / n ≤ m ⌈/⌉ n := by
  rw [← Nat.floorDiv_eq_div]
  exact floorDiv_le_ceilDiv

theorem ceil_le_ratio_succ (m : ℕ) (hn : 0 < n) : m ⌈/⌉ n ≤ m / n + 1 := by
  rw [ceilDiv_le_iff_le_mul hn]
  exact (Nat.lt_mul_div_succ m hn).le

/-- Every place is met `m / n` times, rounded down or up. -/
theorem ncard_hits_eq (hm : 0 < m) (hj : j < n) :
    (hits m n j).ncard = m / n ∨ (hits m n j).ncard = m ⌈/⌉ n := by
  have hn : 0 < n := Nat.zero_lt_of_lt hj
  obtain ⟨hlow, hhigh⟩ := first_succ (m := m) (j := j) hn
  have hclose := ceil_le_ratio_succ m hn
  rw [ncard_hits hm hj]
  omega

/-- Two places are met equally often, up to one. -/
theorem ncard_hits_le_succ (hm : 0 < m) {i : ℕ} (hi : i < n) (hj : j < n) :
    (hits m n i).ncard ≤ (hits m n j).ncard + 1 := by
  have hn : 0 < n := Nat.zero_lt_of_lt hj
  have hclose := ceil_le_ratio_succ m hn
  have hfloor := ratio_le_ceil m n
  rcases ncard_hits_eq hm hi with h | h <;> rcases ncard_hits_eq hm hj with h' | h' <;> omega

/-- No place is missed, if there are no more places than numbers. -/
theorem hits_nonempty (hm : 0 < m) (hj : j < n) (hnm : n ≤ m) : (hits m n j).Nonempty := by
  have hpos : 0 < m / n := Nat.div_pos hnm (Nat.zero_lt_of_lt hj)
  have hfloor := ratio_le_ceil m n
  refine (Set.ncard_pos).mp ?_
  rcases ncard_hits_eq hm hj with h | h <;> omega

end Scaling
