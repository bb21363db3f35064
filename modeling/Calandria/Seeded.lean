/-
The seeded scheduler.

`SplitMix64` is the source's portable generator over wrapping 64-bit arithmetic;
`Seeded` scales each draw down to a position in the ready set.
-/
import Calandria.Scaling
import Calandria.Simulation

namespace Calandria

/-- `SplitMix64` version 1 with explicit seed and stream derivation. -/
structure SplitMix64 where
  seed : U64
  stream : U64
  state : U64
  deriving DecidableEq

namespace SplitMix64

def gamma : U64 := 0x9e3779b97f4a7c15

def streamDomain : U64 := 0xd1b54a32d192ed03

def mix (value : U64) : U64 :=
  let value := (value ^^^ (value >>> 30)) * 0xbf58476d1ce4e5b9
  let value := (value ^^^ (value >>> 27)) * 0x94d049bb133111eb
  value ^^^ (value >>> 31)

/-- Derives one independent stream without consuming another stream. -/
def new (seed stream : U64) : SplitMix64 := ⟨seed, stream, seed ^^^ mix (stream + streamDomain)⟩

/-- Advances this stream exactly once and returns the next portable value. -/
def nextU64 (self : SplitMix64) : SplitMix64 × U64 :=
  let state := self.state + gamma
  ({ self with state }, mix state)

end SplitMix64

/-- The first two of the source's golden vectors. -/
example :
    let (entropy, first) := (SplitMix64.new 0 0).nextU64
    (first, entropy.nextU64.2) = (0x1df5df97578d90c0, 0xbb0e8eb991d7d0f7) := by decide +kernel

/-- Failure to perform one bounded seeded selection. -/
inductive SeededError
  | readySetTooLarge (actions : ℕ)
  | selectionsExhausted
  deriving DecidableEq

/-- Bounded deterministic scheduler driven by `SplitMix64` version 1. -/
structure Seeded where
  entropy : SplitMix64
  selections : U64
  deriving DecidableEq

namespace Seeded

def new (seed stream : U64) : Seeded := ⟨.new seed stream, 0⟩

/-- The draw scaled to one of `actions` positions. -/
def scaled (draw : U64) (actions : ℕ) : ℕ := (draw.val * actions) >>> 64

theorem scaled_lt (draw : U64) {actions : ℕ} (h : actions ≠ 0) : scaled draw actions < actions := by
  rw [scaled, Nat.shiftRight_eq_div_pow]
  exact Scaling.scale_lt draw.isLt (Nat.pos_of_ne_zero h)

end Seeded

instance : Scheduler Seeded SeededError where
  choose self _ ready :=
    match self.selections.checkedAdd 1 with
    | none => (self, .err .selectionsExhausted)
    | some nextSelections =>
      if 2 ^ 64 ≤ ready.length then (self, .err (.readySetTooLarge ready.length))
      else if ready.length = 0 then (self, .panicked)
      else
        let (entropy, draw) := self.entropy.nextU64
        let index := Seeded.scaled draw ready.length
        let self := { self with entropy, selections := nextSelections }
        match ready[index]? with
        | none => (self, .panicked)
        | some action => (self, .ok action)

/-- A draw always falls on one of the ready actions, unless the counter is used up. -/
theorem Seeded.chooses {self : Seeded} {nextSelections : U64}
    (hnext : self.selections.checkedAdd 1 = some nextSelections) (now : Moment) {ready : ReadySet}
    (hne : ready ≠ []) (hlen : ready.length < 2 ^ 64) :
    ∃ key ∈ ready, Scheduler.choose self now ready
      = (⟨self.entropy.nextU64.1, nextSelections⟩, .ok key) := by
  have hzero : ready.length ≠ 0 := fun h => hne (List.length_eq_zero_iff.mp h)
  have hlt := scaled_lt self.entropy.nextU64.2 hzero
  refine ⟨ready[scaled self.entropy.nextU64.2 ready.length], List.getElem_mem _, ?_⟩
  simp only [Scheduler.choose, hnext, if_neg (not_le.mpr hlen), if_neg hzero,
    List.getElem?_eq_getElem hlt]

end Calandria
