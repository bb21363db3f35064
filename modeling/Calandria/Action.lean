/-
Canonical action identity, order and readiness.

`ActionKey.cmp` is the source's total order: due deliveries in timeline order
before owner turns in duty order.  It is the comparison of a linear order
(`cmp_eq_lt`, `cmp_eq_eq`), so sorting the enabled actions and dropping
repetitions lists each of them once, increasingly (`canonical_perm`,
`canonical_sorted`).
-/
import Calandria.BinarySearch
import Calandria.Timeline
import Mathlib.Data.List.Destutter
import Mathlib.Data.List.Sort
import Mathlib.Data.Sum.Order

namespace Calandria

/-- Stable identity for one simulated duty. -/
abbrev DutyId := Fin (2 ^ 32)

instance DutyId.neZero : NeZero (2 ^ 32) := ⟨by decide⟩

instance DutyId.lawfulBEq : LawfulBEq DutyId := inferInstance

/-- Monotonic identity for one attempted model action. -/
abbrev ActionId := U64

/-- One enabled operation for a duty at current virtual time. -/
inductive ActionKind
  | delivery (token : EventToken)
  | turn
  deriving DecidableEq

/-- Canonical scheduler key for one enabled action. -/
structure ActionKey where
  duty : DutyId
  kind : ActionKind
  deriving DecidableEq

namespace ActionKey

def delivery (duty : DutyId) (token : EventToken) : ActionKey := ⟨duty, .delivery token⟩

def turn (duty : DutyId) : ActionKey := ⟨duty, .turn⟩

/-- `Ord for ActionKey`. -/
def cmp (self other : ActionKey) : Ordering :=
  match self.kind, other.kind with
  | .delivery left, .delivery right =>
    (((compare left.moment right.moment).then (compare left.timeline right.timeline)).then
      (compare left.id right.id)).then (compare self.duty other.duty)
  | .delivery _, .turn => .lt
  | .turn, .delivery _ => .gt
  | .turn, .turn => compare self.duty other.duty

/-- The position of a key in the canonical order. -/
def rank (key : ActionKey) : (Moment ×ₗ TimelineId ×ₗ EventId ×ₗ DutyId) ⊕ₗ DutyId :=
  match key.kind with
  | .delivery token =>
    toLex (.inl (toLex (token.moment, toLex (token.timeline, toLex (token.id, key.duty)))))
  | .turn => toLex (.inr key.duty)

theorem rank_injective : Function.Injective rank := by
  rintro ⟨d, k⟩ ⟨d', k'⟩ h
  cases k <;> cases k' <;> simp_all [rank]
  rename_i token token'
  cases token
  cases token'
  simp_all

instance : LinearOrder ActionKey := LinearOrder.lift' rank rank_injective

theorem lt_def {a b : ActionKey} : a < b ↔ a.rank < b.rank := Iff.rfl

theorem cmp_eq_lt {a b : ActionKey} : a.cmp b = .lt ↔ a < b := by
  obtain ⟨d, k⟩ := a
  obtain ⟨d', k'⟩ := b
  rw [lt_def]
  cases k <;> cases k' <;>
    simp [cmp, rank, Ordering.then_eq_lt, Prod.Lex.toLex_lt_toLex, compare_lt_iff_lt]
  tauto

theorem cmp_eq_eq {a b : ActionKey} : a.cmp b = .eq ↔ a = b := by
  obtain ⟨d, k⟩ := a
  obtain ⟨d', k'⟩ := b
  cases k <;> cases k' <;> simp [cmp, Ordering.then_eq_eq]
  rename_i token token'
  cases token
  cases token'
  simp only [EventToken.mk.injEq]
  tauto

theorem cmp_eq_gt {a b : ActionKey} : a.cmp b = .gt ↔ b < a := by
  have hlt := cmp_eq_lt (a := a) (b := b)
  have heq := cmp_eq_eq (a := a) (b := b)
  rw [lt_iff_not_ge, le_iff_lt_or_eq, ← hlt, ← heq]
  cases a.cmp b <;> simp

theorem cmp_ne_gt {a b : ActionKey} : a.cmp b ≠ .gt ↔ a ≤ b := by
  rw [ne_eq, cmp_eq_gt, not_lt]

/-- `sort_unstable` followed by `dedup`. -/
def canonical (keys : List ActionKey) : List ActionKey :=
  (keys.insertionSort fun a b => a.cmp b ≠ .gt).destutter (· ≠ ·)

theorem insertionSort_eq (keys : List ActionKey) :
    keys.insertionSort (fun a b => a.cmp b ≠ .gt) = keys.insertionSort (· ≤ ·) := by
  congr 1
  funext a b
  exact propext cmp_ne_gt

theorem canonical_eq {keys : List ActionKey} (h : keys.Nodup) :
    canonical keys = keys.insertionSort (· ≤ ·) := by
  rw [canonical, insertionSort_eq]
  refine List.destutter_of_isChain _ _ (List.Pairwise.isChain ?_)
  exact (List.perm_insertionSort _ keys).nodup_iff.mpr h

theorem canonical_perm {keys : List ActionKey} (h : keys.Nodup) : (canonical keys).Perm keys := by
  rw [canonical_eq h]
  exact List.perm_insertionSort _ keys

theorem canonical_sorted {keys : List ActionKey} (h : keys.Nodup) :
    (canonical keys).Pairwise (· < ·) := by
  have hle : (canonical keys).Pairwise (· ≤ ·) := by
    rw [canonical_eq h]
    exact List.pairwise_insertionSort _ keys
  have hne : (canonical keys).Pairwise (· ≠ ·) := (canonical_perm h).nodup_iff.mpr h
  exact hle.imp₂ (fun _ _ => lt_of_le_of_ne) hne

end ActionKey

/-- Canonically ordered actions available to a scheduler. -/
abbrev ReadySet := List ActionKey

/-- `ReadySet::contains`. -/
def ReadySet.contains (ready : ReadySet) (action : ActionKey) : Bool :=
  (binarySearch (fun key => key.cmp action) ready).isSome

theorem ReadySet.mem_of_contains {ready : ReadySet} {action : ActionKey}
    (h : ready.contains action = true) : action ∈ ready := by
  obtain ⟨i, hi⟩ := Option.isSome_iff_exists.mp h
  obtain ⟨key, hkey, heq⟩ := binarySearch_sound hi
  rw [← ActionKey.cmp_eq_eq.mp heq]
  exact List.mem_of_getElem? hkey

/-- The search finds every action of a canonically ordered set. -/
theorem ReadySet.contains_iff {ready : ReadySet} (h : ready.Pairwise (· < ·)) {action : ActionKey} :
    ready.contains action = true ↔ action ∈ ready := by
  refine ⟨mem_of_contains, fun hmem => ?_⟩
  refine binarySearch_complete (h.imp fun {a b} hab => ⟨fun ha => ?_, fun hb => ?_⟩) hmem
    (ActionKey.cmp_eq_eq.mpr rfl)
  · exact ActionKey.cmp_eq_gt.mpr ((ActionKey.cmp_eq_gt.mp ha).trans hab)
  · exact ActionKey.cmp_eq_lt.mpr (hab.trans (ActionKey.cmp_eq_lt.mp hb))

/-- Copyable identity and causality for one attempted action; `moment` is the
source's `at`. -/
structure ActionMeta where
  id : ActionId
  key : ActionKey
  moment : Moment
  cause : Option ActionId
  deriving DecidableEq

/-- One successfully committed model action. -/
structure ActionRecord (O : Type) where
  metadata : ActionMeta
  turn : Turn
  observations : List O

end Calandria
