/-
Seeded selection is in range and balanced.

The position of a draw `x` among `n` is `x * n / 2^64`, so the draws that fall on
one position are an interval of 2^64 / n of them, rounded down or up.

* `Seeded.Balanced` — how all 2^64 draws fall on `n` positions;
* `Seeded.Advances` — one draw and one selection more;
* `Seeded.choose_eq` — what one choice from a ready set is;
* `Seeded.choice_balanced` — the two together, for every ready set.
-/
import Calandria.Entropy
import Calandria.Scaling

namespace Calandria

namespace Seeded

/-! ### Positions -/

/-- The draws that fall on one position. -/
def draws (actions index : ℕ) : Set U64 := {draw | scaled draw actions = index}

/-- How the draws fall on so many positions. -/
structure Balanced (actions : ℕ) : Prop where
  /-- The `u128` product does not wrap. -/
  widened : ∀ draw : U64, draw.val * actions < 2 ^ 128
  floor : ∀ draw, scaled draw actions = draw.val * actions / 2 ^ 64
  inRange : ∀ draw, scaled draw actions < actions
  inOrder : Monotone fun draw => scaled draw actions
  /-- Every position is met 2^64 / n times, rounded down or up. -/
  frequency : ∀ index < actions, (draws actions index).ncard = 2 ^ 64 / actions ∨
    (draws actions index).ncard = 2 ^ 64 ⌈/⌉ actions
  even : ∀ index < actions, ∀ other < actions,
    (draws actions index).ncard ≤ (draws actions other).ncard + 1
  reachable : ∀ index < actions, (draws actions index).Nonempty

theorem scaled_eq (draw : U64) (actions : ℕ) :
    scaled draw actions = Scaling.scale (2 ^ 64) actions draw.val :=
  Nat.shiftRight_eq_div_pow _ 64

theorem draws_eq (actions index : ℕ) :
    draws actions index = Scaling.hits (2 ^ 64) actions index := by
  ext draw
  show scaled draw actions = index ↔ Scaling.scale (2 ^ 64) actions draw.val = index
  rw [scaled_eq]

theorem balanced {actions : ℕ} (hpos : 0 < actions) (hlt : actions < 2 ^ 64) :
    Balanced actions := by
  have hwords : 0 < 2 ^ 64 := Nat.two_pow_pos 64
  constructor
  · intro draw
    calc draw.val * actions < 2 ^ 64 * actions := Nat.mul_lt_mul_of_pos_right draw.isLt hpos
      _ ≤ 2 ^ 64 * 2 ^ 64 := Nat.mul_le_mul_left _ hlt.le
  · exact fun draw => scaled_eq draw actions
  · exact fun draw => scaled_lt draw (Nat.ne_of_gt hpos)
  · intro draw other hle
    simp only [scaled_eq]
    exact Scaling.scale_mono _ _ hle
  · intro index hindex
    rw [draws_eq]
    exact Scaling.ncard_hits_eq hwords hindex
  · intro index hindex other hother
    rw [draws_eq, draws_eq]
    exact Scaling.ncard_hits_le_succ hwords hindex hother
  · intro index hindex
    rw [draws_eq]
    exact Scaling.hits_nonempty hwords hindex hlt.le

/-! ### Choices -/

/-- One draw and one selection more. -/
def Advances (self after : Seeded) : Prop :=
  after.entropy = self.entropy.nextU64.1 ∧ after.selections.val = self.selections.val + 1

/-- What a choice does to the scheduler: a successful one advances it, any other
leaves it as it was. -/
def Accounted (self : Seeded) : Seeded × Returned ActionKey SeededError → Prop
  | (after, .ok _) => Advances self after
  | (after, _) => after = self

/-- A choice is refused once the counter is used up, and is otherwise the action
at the position of the next draw. -/
theorem choose_eq (self : Seeded) (now : Moment) {ready : ReadySet} (hne : ready ≠ [])
    (hlen : ready.length < 2 ^ 64) :
    (self.selections = U64.max ∧
      Scheduler.choose self now ready = (self, .err .selectionsExhausted)) ∨
    (self.selections ≠ U64.max ∧ ∃ after key, Advances self after ∧
      ready[scaled self.entropy.nextU64.2 ready.length]? = some key ∧
      Scheduler.choose self now ready = (after, .ok key)) := by
  have hzero : ready.length ≠ 0 := fun h => hne (List.length_eq_zero_iff.mp h)
  have hmax : U64.max.val = 2 ^ 64 - 1 := rfl
  have hselections := self.selections.isLt
  cases hnext : self.selections.checkedAdd 1 with
  | none =>
    have hover := U64.checkedAdd_eq_none.mp hnext
    refine Or.inl ⟨Fin.ext ?_, by simp only [Scheduler.choose, hnext]⟩
    change 2 ^ 64 ≤ self.selections.val + 1 at hover
    omega
  | some nextSelections =>
    have hval : nextSelections.val = self.selections.val + 1 := U64.checkedAdd_eq_some.mp hnext
    have hlt := scaled_lt self.entropy.nextU64.2 hzero
    refine Or.inr ⟨?_, ⟨self.entropy.nextU64.1, nextSelections⟩, _, ⟨rfl, hval⟩,
      List.getElem?_eq_getElem hlt, ?_⟩
    · intro heq
      have hbound := nextSelections.isLt
      rw [hval, heq, hmax] at hbound
      omega
    · simp only [Scheduler.choose, hnext, if_neg (not_le.mpr hlen), if_neg hzero,
        List.getElem?_eq_getElem hlt]

/-- Every choice accounts for itself, whatever the ready set. -/
theorem choose_accounted (self : Seeded) (now : Moment) (ready : ReadySet) :
    Accounted self (Scheduler.choose self now ready) := by
  by_cases hlen : ready.length < 2 ^ 64
  · by_cases hne : ready = []
    · cases hnext : self.selections.checkedAdd 1 <;>
        simp [Scheduler.choose, hnext, hne, Accounted]
    · rcases choose_eq self now hne hlen with ⟨-, h⟩ | ⟨-, after, key, hadv, -, h⟩
      · rw [h]
        rfl
      · rw [h]
        exact hadv
  · cases hnext : self.selections.checkedAdd 1 <;>
      simp only [Scheduler.choose, hnext, if_pos (not_lt.mp hlen), Accounted]

/-- Some state of the generator chooses a given action, as `mix` is onto. -/
theorem exists_choice {ready : ReadySet} (hlen : ready.length < 2 ^ 64) {key : ActionKey}
    (hkey : key ∈ ready) (seed stream : U64) {selections : U64} (hmax : selections ≠ U64.max)
    (now : Moment) :
    ∃ state, (Scheduler.choose (⟨⟨seed, stream, state⟩, selections⟩ : Seeded) now ready).2
      = .ok key := by
  obtain ⟨index, hindex, hget⟩ := List.mem_iff_getElem.mp hkey
  have hne : ready ≠ [] := List.ne_nil_of_mem hkey
  obtain ⟨draw, hdraw⟩ :=
    (balanced (List.length_pos_iff.mpr hne) hlen).reachable index hindex
  obtain ⟨mixed, hmixed⟩ := SplitMix64.mix_bijective.surjective draw
  -- the state that the increment takes to the preimage of the draw
  refine ⟨mixed - SplitMix64.gamma, ?_⟩
  rcases choose_eq ⟨⟨seed, stream, mixed - SplitMix64.gamma⟩, selections⟩ now hne hlen with
    ⟨heq, -⟩ | ⟨-, after, found, -, hfound, h⟩
  · exact absurd heq hmax
  · have hnext : SplitMix64.mix (mixed - SplitMix64.gamma + SplitMix64.gamma) = draw := by
      rw [sub_add_cancel, hmixed]
    rw [h]
    change ready[scaled (SplitMix64.mix (mixed - SplitMix64.gamma + SplitMix64.gamma))
      ready.length]? = some found at hfound
    rw [hnext, show scaled draw ready.length = index from hdraw,
      List.getElem?_eq_getElem hindex, hget] at hfound
    rw [Option.some_inj.mp hfound]

/-- **Seeded selection is in range and balanced**: over all draws, the positions of
a nonempty ready set are met in order and equally often up to one draw; one choice
is the action at the position of the next draw and advances the stream and the
counter by one, unless the counter is used up; every action is chosen from some
state of the stream; and no choice that fails, from any ready set, changes the
scheduler. -/
theorem choice_balanced (ready : ReadySet) (hne : ready ≠ []) (hlen : ready.length < 2 ^ 64) :
    Balanced ready.length ∧
    (∀ (self : Seeded) now,
      (self.selections = U64.max ∧
        Scheduler.choose self now ready = (self, .err .selectionsExhausted)) ∨
      (self.selections ≠ U64.max ∧ ∃ after key, Advances self after ∧
        ready[scaled self.entropy.nextU64.2 ready.length]? = some key ∧
        Scheduler.choose self now ready = (after, .ok key))) ∧
    (∀ key ∈ ready, ∀ seed stream selections now, selections ≠ U64.max →
      ∃ state, (Scheduler.choose (⟨⟨seed, stream, state⟩, selections⟩ : Seeded) now ready).2
        = .ok key) ∧
    ∀ (self : Seeded) now (other : ReadySet),
      Accounted self (Scheduler.choose self now other) := by
  refine ⟨balanced (List.length_pos_iff.mpr hne) hlen, ?_, ?_, choose_accounted⟩
  · intro self now
    exact choose_eq self now hne hlen
  · intro key hkey seed stream selections now hmax
    exact exists_choice hlen hkey seed stream hmax now

/-- Three turns, and a scheduler about to use up its counter. -/
theorem choice_balanced_three :
    Balanced 3 ∧
    Scheduler.choose (⟨.new 0 0, U64.max⟩ : Seeded) 0 [.turn 1, .turn 2, .turn 3]
      = (⟨.new 0 0, U64.max⟩, .err .selectionsExhausted) := by
  obtain ⟨hbalanced, hchoose, -, -⟩ :=
    choice_balanced [.turn 1, .turn 2, .turn 3] (by decide) (by decide)
  refine ⟨hbalanced, ?_⟩
  rcases hchoose ⟨.new 0 0, U64.max⟩ 0 with ⟨-, h⟩ | ⟨hmax, -⟩
  · exact h
  · exact absurd rfl hmax

end Seeded

end Calandria
