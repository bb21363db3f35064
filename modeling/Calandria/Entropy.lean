/-
The streams of `SplitMix64` are bijective.

`mix` is three xor-shifts with two odd multiplications between them, each of
which is a bijection on 64-bit words; the state moves by an odd increment, so it
meets every word once in 2^64 steps before it returns.

* `SplitMix64.mix_bijective` — the output function;
* `SplitMix64.advance`, `SplitMix64.draw` — the state after some draws, and the
  value of one of them;
* `SplitMix64.streams_bijective` — what this says of seeds, streams and draws.
-/
import Calandria.Seeded
import Calandria.Words
import Mathlib.Data.Nat.Prime.Basic

namespace Calandria

namespace SplitMix64

/-- An odd constant is prime to the modulus. -/
theorem coprime_of_odd {c : U64} (h : c.val % 2 = 1) : Nat.Coprime (2 ^ 64) c.val :=
  (Nat.odd_iff.mpr h).coprime_two_left.pow_left 64

theorem gamma_coprime : Nat.Coprime (2 ^ 64) gamma.val := coprime_of_odd (by decide)

theorem mix_bijective : Function.Bijective mix := by
  have hfirst := (Words.mul_bijective (coprime_of_odd (c := 0xbf58476d1ce4e5b9) (by decide))).comp
    (Words.xorShiftRight_bijective (w := 64) (k := 30) (by decide))
  have hsecond := (Words.mul_bijective (coprime_of_odd (c := 0x94d049bb133111eb) (by decide))).comp
    (Words.xorShiftRight_bijective (w := 64) (k := 27) (by decide))
  have hthird := Words.xorShiftRight_bijective (w := 64) (k := 31) (by decide)
  exact (hthird.comp hsecond).comp hfirst

/-! ### Draws -/

/-- The generator after some draws. -/
def advance (self : SplitMix64) : ℕ → SplitMix64
  | 0 => self
  | n + 1 => (self.advance n).nextU64.1

/-- The value of the next draw after some others. -/
def draw (self : SplitMix64) (n : ℕ) : U64 := (self.advance n).nextU64.2

theorem advance_state (self : SplitMix64) (n : ℕ) :
    (self.advance n).state = (· + gamma)^[n] self.state := by
  induction n with
  | zero => rfl
  | succ n ih =>
    rw [Function.iterate_succ_apply', ← ih]
    rfl

theorem draw_eq (self : SplitMix64) (n : ℕ) :
    self.draw n = mix ((· + gamma)^[n + 1] self.state) := by
  rw [← advance_state]
  rfl

/-- Generators in different states stay in different states. -/
theorem advance_injective {self other : SplitMix64} (n : ℕ)
    (h : (self.advance n).state = (other.advance n).state) : self.state = other.state := by
  rw [advance_state, advance_state] at h
  exact (add_left_injective gamma).iterate n h

/-- **The streams of `SplitMix64`**: `mix` is a bijection of the 64-bit words; so
distinct streams of one seed, and distinct seeds of one stream, start in distinct
states; generators in different states never draw the same value at the same time;
any 2^64 consecutive draws return every value exactly once; and the state comes
back after every 2^64 draws and not before. -/
theorem streams_bijective :
    Function.Bijective mix ∧
    (∀ seed, Function.Injective fun stream => (new seed stream).state) ∧
    (∀ stream, Function.Injective fun seed => (new seed stream).state) ∧
    (∀ self other : SplitMix64, self.state ≠ other.state → ∀ n, self.draw n ≠ other.draw n) ∧
    (∀ (self : SplitMix64) k, Set.BijOn self.draw (Set.Ico k (k + 2 ^ 64)) Set.univ) ∧
    ∀ (self : SplitMix64) n, (self.advance n).state = self.state ↔ 2 ^ 64 ∣ n := by
  refine ⟨mix_bijective, fun seed stream stream' h => ?_, fun stream seed seed' h => ?_,
    fun self other hne n hdraw => hne ?_, fun self k => ?_, fun self n => ?_⟩
  · have hmix := mix_bijective.injective (Words.xor_left_injective (w := 64) seed h)
    exact add_left_injective streamDomain hmix
  · exact Words.xor_right_injective (w := 64) _ h
  · exact advance_injective (n + 1) (mix_bijective.injective hdraw)
  · -- the draws are the outputs of the states one step further on
    have hshift : (fun i => (· + gamma)^[i + 1] self.state)
        = fun i => (· + gamma)^[i] (self.state + gamma) := by
      funext i
      rw [Function.iterate_succ_apply]
    have horbit := Words.orbit_bijOn gamma_coprime (self.state + gamma) k
    rw [← hshift] at horbit
    have hdraw : self.draw = mix ∘ fun i => (· + gamma)^[i + 1] self.state :=
      funext self.draw_eq
    rw [hdraw]
    exact (Set.bijOn_univ.mpr mix_bijective).comp horbit
  · rw [advance_state]
    have hreturns := Words.orbit_eq_iff gamma_coprime self.state n 0
    rw [Function.iterate_zero_apply] at hreturns
    rw [hreturns, Nat.modEq_zero_iff_dvd]

end SplitMix64

end Calandria
