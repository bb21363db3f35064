/-
Scheduling interest of several owners.

A host that aggregates owners merges their turns and plans one wait.  By
urgency (`Next.rank`) an interest is immediate work, then a deadline, the
earlier the more urgent, then a wake, then `Stop`; `Next.merge` takes the more
urgent of two (`Next.merge_eq_min`).  Every law of the merge is one of the
minimum, and the wait of a merged interest is the least of the waits.

* `Turn.merge` — the merge of the source;
* `Next.boundedWait_merge` — waiting respects it;
* `HostAction.forNext_eq` — the two wait planners agree;
* `interest_merges` — all of it, over any collection of owners.
-/
import Calandria.Grouping
import Calandria.Host
import Mathlib.Order.WithBot

namespace Calandria

namespace Next

/-- Combines scheduling interest from independent owners. -/
def merge (self other : Next) : Next :=
  match self, other with
  | .now, _ | _, .now => .now
  | .wakeOr left, .wakeOr right => if left ≤ right then .wakeOr left else .wakeOr right
  | .wakeOr deadline, .wake | .wakeOr deadline, .stop | .wake, .wakeOr deadline
  | .stop, .wakeOr deadline => .wakeOr deadline
  | .wake, .wake | .wake, .stop | .stop, .wake => .wake
  | .stop, .stop => .stop

/-- A bounded host wait for this scheduling interest. -/
def boundedWait (next : Next) (now : Moment) (ceiling : Span) : Span :=
  match next with
  | .now => 0
  | .wake | .stop => ceiling
  | .wakeOr deadline => min (Deadline.remainingAt deadline now) ceiling

end Next

namespace Turn

/-- Combines results from independent owners or mechanisms. -/
def merge (self other : Turn) : Turn :=
  ⟨self.work.saturatingAdd other.work, self.next.merge other.next⟩

end Turn

/-! ### Saturating counts -/

theorem U64.saturatingAdd_val (a b : U64) :
    (a.saturatingAdd b).val = min (a.val + b.val) (2 ^ 64 - 1) := by
  rw [saturatingAdd]
  cases hadd : a.checkedAdd b with
  | none =>
    have hover := checkedAdd_eq_none.mp hadd
    show 2 ^ 64 - 1 = _
    omega
  | some c =>
    have hc := c.isLt
    have hval := checkedAdd_eq_some.mp hadd
    show c.val = _
    omega

theorem U64.saturatingAdd_comm (a b : U64) : a.saturatingAdd b = b.saturatingAdd a := by
  refine Fin.ext ?_
  rw [saturatingAdd_val, saturatingAdd_val, Nat.add_comm]

theorem U64.saturatingAdd_assoc (a b c : U64) :
    (a.saturatingAdd b).saturatingAdd c = a.saturatingAdd (b.saturatingAdd c) := by
  refine Fin.ext ?_
  simp only [saturatingAdd_val]
  omega

theorem U64.zero_saturatingAdd (a : U64) : U64.saturatingAdd 0 a = a := by
  have ha := a.isLt
  refine Fin.ext ?_
  rw [saturatingAdd_val]
  show min (0 + a.val) _ = _
  omega

/-! ### Urgency -/

namespace Next

/-- The less, the more urgent. -/
def rank : Next → WithTop (WithTop (WithBot Deadline))
  | .now => ((⊥ : WithBot Deadline) : WithTop (WithBot Deadline))
  | .wakeOr deadline => ((deadline : WithBot Deadline) : WithTop (WithBot Deadline))
  | .wake => (⊤ : WithTop (WithBot Deadline))
  | .stop => ⊤

theorem rank_injective : Function.Injective rank := by
  intro a b h
  cases a <;> cases b <;> simp_all [rank]

instance : LinearOrder Next := LinearOrder.lift' rank rank_injective

theorem le_def {a b : Next} : a ≤ b ↔ a.rank ≤ b.rank := Iff.rfl

theorem le_stop (next : Next) : next ≤ .stop := le_top (a := next.rank)

theorem now_le (next : Next) : .now ≤ next := by
  rw [le_def]
  cases next <;> simp [rank]

theorem wakeOr_le_wakeOr {a b : Deadline} : wakeOr a ≤ .wakeOr b ↔ a ≤ b := by
  simp [le_def, rank]

theorem wakeOr_le_wake (deadline : Deadline) : wakeOr deadline ≤ .wake := by
  simp [le_def, rank]

/-- The merge takes the more urgent interest. -/
theorem merge_eq_min (a b : Next) : a.merge b = min a b := by
  have hleft : ∀ {a b : Next}, a ≤ b → a = min a b := fun h => (min_eq_left h).symm
  have hright : ∀ {a b : Next}, b ≤ a → b = min a b := fun h => (min_eq_right h).symm
  cases a with
  | now => exact hleft (now_le b)
  | wakeOr left =>
    cases b with
    | now => exact hright (now_le _)
    | wakeOr right =>
      rw [merge]
      split_ifs with hle
      · exact hleft (wakeOr_le_wakeOr.mpr hle)
      · exact hright (wakeOr_le_wakeOr.mpr (not_le.mp hle).le)
    | wake => exact hleft (wakeOr_le_wake left)
    | stop => exact hleft (le_stop _)
  | wake =>
    cases b with
    | now => exact hright (now_le _)
    | wakeOr right => exact hright (wakeOr_le_wake right)
    | wake => exact hleft le_rfl
    | stop => exact hleft (le_stop _)
  | stop => cases b <;> exact hright (le_stop _)

/-! ### Waiting -/

theorem boundedWait_le (next : Next) (now : Moment) (ceiling : Span) :
    next.boundedWait now ceiling ≤ ceiling := by
  cases next with
  | now => exact Fin.zero_le _
  | wakeOr deadline => exact min_le_right _ _
  | wake | stop => exact le_rfl

end Next

theorem Deadline.remainingAt_val (deadline : Deadline) (now : Moment) :
    (Deadline.remainingAt deadline now).val = deadline.val - now.val := by
  rw [remainingAt]
  cases hsub : U64.checkedSub deadline now with
  | none =>
    have hlt : deadline.val < now.val := by
      by_contra hle
      obtain ⟨c, hc, -⟩ := U64.exists_checkedSub (a := deadline) (not_lt.mp hle)
      rw [hsub] at hc
      cases hc
    show 0 = _
    omega
  | some c =>
    have hval := U64.checkedSub_eq_some.mp hsub
    show c.val = _
    omega

namespace Next

/-- The more urgent, the shorter the wait. -/
theorem boundedWait_mono {a b : Next} (h : a ≤ b) (now : Moment) (ceiling : Span) :
    a.boundedWait now ceiling ≤ b.boundedWait now ceiling := by
  cases b with
  | now =>
    rw [le_antisymm h (now_le a)]
  | wakeOr right =>
    cases a with
    | now => exact Fin.zero_le _
    | wakeOr left =>
      have hle := Fin.le_def.mp (wakeOr_le_wakeOr.mp h)
      refine min_le_min_right _ ?_
      rw [Fin.le_def, Deadline.remainingAt_val, Deadline.remainingAt_val]
      omega
    | wake => simp [le_def, rank] at h
    | stop => simp [le_def, rank] at h
  | wake | stop => exact boundedWait_le a now ceiling

/-- **The wait of a merged interest** is the lesser of the two waits. -/
theorem boundedWait_merge (a b : Next) (now : Moment) (ceiling : Span) :
    (a.merge b).boundedWait now ceiling
      = min (a.boundedWait now ceiling) (b.boundedWait now ceiling) := by
  rw [merge_eq_min]
  rcases le_total a b with hle | hle
  · rw [min_eq_left hle, min_eq_left (boundedWait_mono hle now ceiling)]
  · rw [min_eq_right hle, min_eq_right (boundedWait_mono hle now ceiling)]

end Next

/-- The planner of the host selects the bounded wait, unless there is none. -/
theorem HostAction.forNext_eq {next : Next} (h : next ≠ .stop) (now : Moment)
    (config : HostConfig) :
    forNext next now config
      = if next.boundedWait now config.waitCeiling = 0 then .continue
        else .wait (next.boundedWait now config.waitCeiling) := by
  cases next with
  | now => rfl
  | wakeOr deadline => rfl
  | wake => rfl
  | stop => exact absurd rfl h

/-- No wait for a deadline goes beyond it. -/
theorem Next.boundedWait_wakeOr (deadline : Deadline) (now : Moment) (ceiling : Span) :
    now.val + (boundedWait (.wakeOr deadline) now ceiling).val ≤ max now.val deadline.val := by
  have hle : (boundedWait (.wakeOr deadline) now ceiling).val ≤ deadline.val - now.val := by
    rw [← Deadline.remainingAt_val]
    exact Fin.le_def.mp (min_le_left _ _)
  omega

/-- A selected wait for a deadline ends by the deadline. -/
theorem HostAction.forNext_wakeOr {deadline : Deadline} {now : Moment} {config : HostConfig}
    {wait : Span} (h : forNext (.wakeOr deadline) now config = .wait wait) :
    ∃ ends, now.checkedAdd wait = some ends ∧ ends ≤ deadline ∧ wait ≤ config.waitCeiling := by
  rw [forNext_eq (by simp)] at h
  split_ifs at h with hzero
  obtain rfl := HostAction.wait.inj h
  have hne : (Next.boundedWait (.wakeOr deadline) now config.waitCeiling).val ≠ 0 :=
    fun h0 => hzero (Fin.ext h0)
  have hle := Next.boundedWait_wakeOr deadline now config.waitCeiling
  have hdeadline := deadline.isLt
  obtain ⟨ends, hends, hval⟩ := U64.exists_checkedAdd (a := now)
    (b := Next.boundedWait (.wakeOr deadline) now config.waitCeiling) (by omega)
  refine ⟨ends, hends, ?_, Next.boundedWait_le _ _ _⟩
  rw [Fin.le_def]
  omega

/-! ### Collections of owners -/

namespace Turn

instance : Std.Commutative merge :=
  ⟨fun a b => by rw [merge, merge, U64.saturatingAdd_comm, Next.merge_eq_min, Next.merge_eq_min,
    min_comm]⟩

instance : Std.Associative merge := by
  refine ⟨fun a b c => ?_⟩
  simp only [merge, Next.merge_eq_min, U64.saturatingAdd_assoc, min_assoc]

instance : Std.LawfulIdentity merge ⟨0, .stop⟩ where
  left_id a := by
    rw [merge, U64.zero_saturatingAdd, Next.merge_eq_min, min_eq_right (Next.le_stop _)]
  right_id a := by
    rw [merge, U64.saturatingAdd_comm, U64.zero_saturatingAdd, Next.merge_eq_min,
      min_eq_left (Next.le_stop _)]

/-- The merge of a collection of turns, grouped in some way. -/
def mergeAll (turns : Grouping Turn) : Turn := turns.fold merge ⟨0, .stop⟩

theorem mergeAll_boundedWait (turns : Grouping Turn) (now : Moment) (ceiling : Span) :
    (mergeAll turns).next.boundedWait now ceiling
      = (turns.leaves.map fun turn => turn.next.boundedWait now ceiling).fold min ceiling := by
  rw [mergeAll, Grouping.fold_eq_leaves]
  have hhom : ∀ a b : Turn, (a.merge b).next.boundedWait now ceiling
      = min (a.next.boundedWait now ceiling) (b.next.boundedWait now ceiling) :=
    fun a b => Next.boundedWait_merge a.next b.next now ceiling
  exact (Multiset.fold_hom (m := fun turn : Turn => turn.next.boundedWait now ceiling) merge hhom
    _ _).symm

/-- The wait of no owner at all is the ceiling. -/
theorem mergeAll_boundedWait_empty {turns : Grouping Turn} (h : turns.leaves = 0) (now : Moment)
    (ceiling : Span) : (mergeAll turns).next.boundedWait now ceiling = ceiling := by
  rw [mergeAll_boundedWait, h]
  rfl

/-- The wait of some owners is the least of theirs. -/
theorem mergeAll_boundedWait_isLeast {turns : Grouping Turn} (h : turns.leaves ≠ 0) (now : Moment)
    (ceiling : Span) :
    IsLeast {wait | ∃ turn ∈ turns.leaves, turn.next.boundedWait now ceiling = wait}
      ((mergeAll turns).next.boundedWait now ceiling) := by
  have hbound : ∀ wait ∈ turns.leaves.map fun turn => turn.next.boundedWait now ceiling,
      wait ≤ ceiling := by
    intro wait hwait
    obtain ⟨turn, -, rfl⟩ := Multiset.mem_map.mp hwait
    exact Next.boundedWait_le _ _ _
  have hleast := Multiset.isLeast_fold_min hbound fun h0 => h (Multiset.map_eq_zero.mp h0)
  rw [← mergeAll_boundedWait] at hleast
  simpa only [Multiset.mem_map] using hleast

end Turn

/-- **Interest merges** in every order and grouping, and waiting respects the merge. -/
theorem interest_merges :
    (∀ a b c : Turn, (a.merge b).merge c = a.merge (b.merge c)) ∧
    (∀ a b : Turn, a.merge b = b.merge a) ∧
    (∀ a : Turn, Turn.merge ⟨0, .stop⟩ a = a ∧ a.merge ⟨0, .stop⟩ = a) ∧
    (∀ next : Next, next.merge next = next ∧ Next.now.merge next = .now ∧
      next.merge .now = .now) ∧
    (∀ turns turns' : Grouping Turn, turns.leaves = turns'.leaves →
      Turn.mergeAll turns = Turn.mergeAll turns') ∧
    (∀ (turns : Grouping Turn) (now : Moment) (ceiling : Span),
      (turns.leaves = 0 → (Turn.mergeAll turns).next.boundedWait now ceiling = ceiling) ∧
      (turns.leaves ≠ 0 →
        IsLeast {wait | ∃ turn ∈ turns.leaves, turn.next.boundedWait now ceiling = wait}
          ((Turn.mergeAll turns).next.boundedWait now ceiling))) ∧
    (∀ (next : Next) (now : Moment) (config : HostConfig), next ≠ .stop →
      HostAction.forNext next now config
        = if next.boundedWait now config.waitCeiling = 0 then .continue
          else .wait (next.boundedWait now config.waitCeiling)) ∧
    (∀ (deadline : Deadline) (now : Moment) (ceiling : Span),
      now.val + (Next.boundedWait (.wakeOr deadline) now ceiling).val
          ≤ max now.val deadline.val ∧
      Next.boundedWait (.wakeOr deadline) now ceiling ≤ ceiling) ∧
    (∀ (deadline : Deadline) (now : Moment) (config : HostConfig) (wait : Span),
      HostAction.forNext (.wakeOr deadline) now config = .wait wait →
      ∃ ends, now.checkedAdd wait = some ends ∧ ends ≤ deadline ∧
        wait ≤ config.waitCeiling) := by
  refine ⟨Std.Associative.assoc, Std.Commutative.comm, fun a =>
    ⟨Std.LawfulLeftIdentity.left_id a, Std.LawfulRightIdentity.right_id a⟩, fun next => ?_,
    fun turns turns' h => Grouping.fold_congr Turn.merge ⟨0, .stop⟩ h,
    fun turns now ceiling => ⟨fun h => Turn.mergeAll_boundedWait_empty h now ceiling,
      fun h => Turn.mergeAll_boundedWait_isLeast h now ceiling⟩,
    fun next now config h => HostAction.forNext_eq h now config,
    fun deadline now ceiling => ⟨Next.boundedWait_wakeOr deadline now ceiling,
      Next.boundedWait_le _ now ceiling⟩,
    fun deadline now config wait h => HostAction.forNext_wakeOr h⟩
  rw [Next.merge_eq_min, Next.merge_eq_min, Next.merge_eq_min]
  exact ⟨min_self next, min_eq_left (Next.now_le next), min_eq_right (Next.now_le next)⟩

end Calandria
