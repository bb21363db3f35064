/-
Fixed-width time, retained bytes and scheduling interest.

The `u64` newtypes of the source (`Moment`, `Span`, `RetainedBytes`, the
identities) are the numbers below `2 ^ 64`; their arithmetic is checked, never
wrapping, exactly where the source calls `checked_add`, `checked_sub` and
`saturating_add`.  `usize` is taken at 64 bits.

A `Panic` is a point at which the code itself gives up: a failed `assert!`, an
`unwrap_or_else(|| panic!(..))`, an arithmetic overflow.  Code that contains
such a point returns `Except Panic`.
-/
import Mathlib.Algebra.Order.Ring.Nat
import Mathlib.Data.Fin.Basic
import Mathlib.Order.Fin.Basic

namespace Calandria

/-- `u64`. -/
abbrev U64 := Fin (2 ^ 64)

instance U64.neZero : NeZero (2 ^ 64) := ⟨by decide⟩

theorem U64.one_ne_zero : (1 : U64) ≠ 0 := by decide

theorem U64.two_ne_zero : (2 : U64) ≠ 0 := by decide

theorem U64.eight_ne_zero : (8 : U64) ≠ 0 := by decide

/-- `NonZeroU64`. -/
structure NonZeroU64 where
  get : U64
  ne_zero : get ≠ 0
  deriving DecidableEq

/-- `NonZeroUsize`. -/
abbrev NonZeroUsize := NonZeroU64

/-- The internal panic sites of the deterministic kernel. -/
inductive Panic
  /-- `attempt to add with overflow` -/
  | addOverflow
  /-- "timeline retained-byte accounting invariant violated" -/
  | timelineRetainedAccounting
  /-- "timeline event identity collision" -/
  | timelineIdentityCollision
  /-- "timeline ordering invariant violated" -/
  | timelineOrdering
  /-- "timeline cannot move backward" -/
  | timelineMovesBackward
  /-- "restored event must belong to timeline" -/
  | restoreForeignTimeline
  /-- "restored event cannot be in the past" -/
  | restoreInPast
  /-- "restored event must fit its previously owned count" -/
  | restoreCount
  /-- "restored event accounting overflowed" -/
  | restoreAccounting
  /-- "restored event must fit its previously owned bytes" -/
  | restoreBytes
  /-- "restored event identity must be vacant" -/
  | restoreOccupied
  /-- "inserted event must remain pending" -/
  | insertedEventLost
  /-- "inserted effect accounting must be exact" -/
  | insertedAccounting
  /-- "validated pending event must be removable" -/
  | validatedEventLost
  /-- "transactional insertion must roll back" -/
  | rollbackInsertionLost
  /-- "enumerated event must remain pending" -/
  | enumeratedEventLost
  /-- "selected duty must belong to topology" -/
  | selectedDutyUnknown
  /-- "validated simulation ready capacity must fit" -/
  | readyCapacity
  deriving DecidableEq

namespace U64

/-- `u64::MAX`. -/
def max : U64 := Fin.last _

/-- `u64::checked_add`. -/
def checkedAdd (a b : U64) : Option U64 :=
  if h : a.val + b.val < 2 ^ 64 then some ⟨a.val + b.val, h⟩ else none

/-- `u64::checked_sub`. -/
def checkedSub (a b : U64) : Option U64 :=
  if b ≤ a then some ⟨a.val - b.val, by omega⟩ else none

/-- `u64::saturating_add`. -/
def saturatingAdd (a b : U64) : U64 := (a.checkedAdd b).getD max

/-- `a += 1`, which panics on overflow. -/
def increment (a : U64) : Except Panic U64 :=
  match a.checkedAdd 1 with
  | some b => .ok b
  | none => .error .addOverflow

theorem checkedAdd_eq_some {a b c : U64} :
    a.checkedAdd b = some c ↔ c.val = a.val + b.val := by
  have hc := c.isLt
  rw [checkedAdd]
  split_ifs with h
  · rw [Option.some_inj, Fin.ext_iff, eq_comm]
  · exact iff_of_false (by simp) (by omega)

theorem checkedAdd_eq_none {a b : U64} :
    a.checkedAdd b = none ↔ 2 ^ 64 ≤ a.val + b.val := by
  rw [checkedAdd]
  split_ifs with h
  · exact iff_of_false (by simp) (by omega)
  · exact iff_of_true rfl (by omega)

theorem checkedSub_eq_some {a b c : U64} :
    a.checkedSub b = some c ↔ a.val = b.val + c.val := by
  rw [checkedSub]
  split_ifs with h
  · rw [Fin.le_def] at h
    rw [Option.some_inj, Fin.ext_iff]
    simp only
    omega
  · rw [Fin.le_def] at h
    exact iff_of_false (by simp) (by omega)

theorem exists_checkedAdd {a b : U64} (h : a.val + b.val < 2 ^ 64) :
    ∃ c, a.checkedAdd b = some c ∧ c.val = a.val + b.val :=
  ⟨⟨_, h⟩, checkedAdd_eq_some.mpr rfl, rfl⟩

theorem exists_checkedSub {a b : U64} (h : b.val ≤ a.val) :
    ∃ c, a.checkedSub b = some c ∧ a.val = b.val + c.val := by
  have hc : a.val - b.val < 2 ^ 64 := by omega
  have ha : a.val = b.val + (⟨a.val - b.val, hc⟩ : U64).val := by
    simp only
    omega
  exact ⟨_, checkedSub_eq_some.mpr ha, ha⟩

theorem increment_ok {a b : U64} (h : a < b) :
    ∃ c, a.increment = .ok c ∧ c.val = a.val + 1 := by
  have hb := b.isLt
  rw [Fin.lt_def] at h
  have hadd : a.checkedAdd 1 = some ⟨a.val + 1, by omega⟩ := checkedAdd_eq_some.mpr rfl
  exact ⟨_, by rw [increment, hadd], rfl⟩

end U64

/-- Nanoseconds elapsed from one owner-defined monotonic origin. -/
abbrev Moment := U64

/-- A nonnegative duration in nanoseconds. -/
abbrev Span := U64

/-- An absolute moment by which an owner must receive another turn. -/
abbrev Deadline := Moment

/-- `Deadline::is_elapsed_at`. -/
def Deadline.isElapsedAt (deadline : Deadline) (now : Moment) : Bool := deadline ≤ now

/-- Variable memory retained by one value. -/
abbrev RetainedBytes := U64

/-- Values whose retained memory is measured before admission; the measurement
depends on the value alone. -/
class Retained (α : Type) where
  retainedBytes : α → RetainedBytes

instance : Retained Unit := ⟨fun _ => 0⟩

/-- Saturating count of work completed during a turn. -/
abbrev WorkCount := U64

/-- When an owner requires another scheduling opportunity. -/
inductive Next
  | now
  | wake
  | wakeOr (deadline : Deadline)
  | stop
  deriving DecidableEq

/-- Work and complete scheduling interest from one bounded turn. -/
structure Turn where
  work : WorkCount
  next : Next
  deriving DecidableEq

/-- What a call into consumer code hands back: a value, a typed failure, or an
unwinding panic. -/
inductive Returned (α ε : Type)
  | ok (value : α)
  | err (source : ε)
  | panicked
  deriving DecidableEq

end Calandria
