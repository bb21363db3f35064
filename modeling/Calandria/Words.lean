/-
Bijective operations on words.

Over any width, and for the additive orbit over any modulus:

* `xorShiftRight_bijective` — a word combined with a shift of itself;
* `mul_bijective` — multiplication by a number prime to the modulus;
* `orbit_injOn`, `orbit_bijOn` — adding such a number over and over meets every
  word exactly once in each window as long as the modulus;
* `orbit_eq_iff` — and returns only after a multiple of it.
-/
import Mathlib.Algebra.Order.Ring.Nat
import Mathlib.Data.Nat.Bitwise
import Mathlib.Data.Nat.ModEq
import Mathlib.Data.Fintype.Card
import Mathlib.Data.Fin.Basic
import Mathlib.Algebra.Group.Fin.Basic
import Mathlib.Order.Interval.Finset.Nat

namespace Words

/-! ### Shifts -/

/-- The bits of a number are determined from the top down. -/
theorem xorShiftRight_injective {k : ℕ} (hk : 0 < k) :
    Function.Injective fun x : ℕ => x ^^^ (x >>> k) := by
  intro x y hxy
  have hbits : ∀ i, (x.testBit i ^^ x.testBit (k + i)) = (y.testBit i ^^ y.testBit (k + i)) := by
    intro i
    have hbit := congrArg (Nat.testBit · i) hxy
    simpa only [Nat.testBit_xor, Nat.testBit_shiftRight] using hbit
  -- above both numbers all bits are zero; each further one is fixed by a higher one
  have hsame : ∀ n i, max x y ≤ i + n → x.testBit i = y.testBit i := by
    intro n
    induction n with
    | zero =>
      intro i hi
      have hlt := Nat.lt_two_pow_self (n := i)
      rw [Nat.testBit_lt_two_pow (by omega), Nat.testBit_lt_two_pow (by omega)]
    | succ n ih =>
      intro i hi
      have hbit := hbits i
      rw [ih (k + i) (by omega)] at hbit
      exact Bool.xor_left_inj.mp hbit
  exact Nat.eq_of_testBit_eq fun i => hsame (max x y) i (Nat.le_add_left ..)

theorem xorShiftRight_bijective {w : ℕ} {k : Fin (2 ^ w)} (hk : 0 < k.val) :
    Function.Bijective fun x : Fin (2 ^ w) => x ^^^ (x >>> k) := by
  refine Finite.injective_iff_bijective.mp fun x y hxy => ?_
  have hval := congrArg Fin.val hxy
  simp only [Fin.xor_val_of_two_pow, Fin.shiftRight_val] at hval
  exact Fin.ext (xorShiftRight_injective hk hval)

theorem xor_right_injective {w : ℕ} (y : Fin (2 ^ w)) :
    Function.Injective fun x : Fin (2 ^ w) => x ^^^ y := by
  intro x x' hxx
  have hval := congrArg Fin.val hxx
  simp only [Fin.xor_val_of_two_pow] at hval
  exact Fin.ext (Nat.xor_left_injective hval)

theorem xor_left_injective {w : ℕ} (x : Fin (2 ^ w)) :
    Function.Injective fun y : Fin (2 ^ w) => x ^^^ y := by
  intro y y' hyy
  have hval := congrArg Fin.val hyy
  simp only [Fin.xor_val_of_two_pow] at hval
  exact Fin.ext (Nat.xor_right_injective hval)

/-! ### Products -/

variable {n : ℕ} {c : Fin n}

theorem mul_bijective (hc : Nat.Coprime n c.val) : Function.Bijective fun x : Fin n => x * c := by
  refine Finite.injective_iff_bijective.mp fun x y hxy => ?_
  have hval := congrArg Fin.val hxy
  simp only [Fin.val_mul] at hval
  have hmod : x.val ≡ y.val [MOD n] := Nat.ModEq.cancel_right_of_coprime hc hval
  exact Fin.ext (hmod.eq_of_lt_of_lt x.isLt y.isLt)

/-! ### The additive orbit -/

theorem val_iterate_add (s : Fin n) (i : ℕ) :
    ((· + c)^[i] s).val = (s.val + i * c.val) % n := by
  induction i with
  | zero => rw [Function.iterate_zero_apply, Nat.zero_mul, Nat.add_zero, Nat.mod_eq_of_lt s.isLt]
  | succ i ih =>
    rw [Function.iterate_succ_apply', Fin.val_add, ih, Nat.mod_add_mod, Nat.add_assoc,
      Nat.succ_mul]

/-- Two places of the orbit agree if their distance is a multiple of the modulus. -/
theorem orbit_eq_iff (hc : Nat.Coprime n c.val) (s : Fin n) (i j : ℕ) :
    (· + c)^[i] s = (· + c)^[j] s ↔ i ≡ j [MOD n] := by
  rw [Fin.ext_iff, val_iterate_add, val_iterate_add]
  constructor
  · intro hij
    exact Nat.ModEq.cancel_right_of_coprime hc (Nat.ModEq.add_left_cancel' s.val hij)
  · intro hij
    exact (hij.mul_right c.val).add_left s.val

theorem orbit_injOn (hc : Nat.Coprime n c.val) (s : Fin n) (k : ℕ) :
    Set.InjOn (fun i => (· + c)^[i] s) (Set.Ico k (k + n)) := by
  rintro i ⟨hki, hin⟩ j ⟨hkj, hjn⟩ hij
  have hmod := (orbit_eq_iff hc s i j).mp hij
  -- both lie in one window as long as the modulus
  obtain hle | hle := Nat.le_total i j
  · have hdvd := (Nat.modEq_iff_dvd' hle).mp hmod
    have hzero := Nat.eq_zero_of_dvd_of_lt hdvd (by omega)
    omega
  · have hdvd := (Nat.modEq_iff_dvd' hle).mp hmod.symm
    have hzero := Nat.eq_zero_of_dvd_of_lt hdvd (by omega)
    omega

theorem orbit_bijOn (hc : Nat.Coprime n c.val) (s : Fin n) (k : ℕ) :
    Set.BijOn (fun i => (· + c)^[i] s) (Set.Ico k (k + n)) Set.univ := by
  have hinj : Set.InjOn (fun i => (· + c)^[i] s) (Finset.Ico k (k + n) : Set ℕ) := by
    rw [Finset.coe_Ico]
    exact orbit_injOn hc s k
  have hcard : (Finset.univ : Finset (Fin n)).card ≤ (Finset.Ico k (k + n)).card := by
    rw [Finset.card_univ, Fintype.card_fin, Nat.card_Ico, Nat.add_sub_cancel_left]
  have hsurj := Finset.surjOn_of_injOn_of_card_le _ (fun i _ => Finset.mem_univ _) hinj hcard
  rw [Finset.coe_Ico, Finset.coe_univ] at hsurj
  exact ⟨Set.mapsTo_univ _ _, orbit_injOn hc s k, hsurj⟩

end Words
