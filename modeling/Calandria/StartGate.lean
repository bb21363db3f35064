/-
A gate that opens once.

`StartGate` is a decision behind a mutex, with a condition variable.  `wait` holds
the lock while it looks at the decision and gives it up while it is blocked;
`start` and `abort` set the decision if there is none, and wake everybody who is
blocked.  A blocked call may also wake for no reason.

* `Step` — calls of `wait`, `start` and `abort`, at the grain of the lock;
* `Inv` — who holds the lock, and what a call has seen;
* `Step.decision` — the decision never changes;
* `Inv.progress`, `Step.measured` — no call is left blocked, and the calls end after
  boundedly many steps beside those that wake for no reason.
-/
import Calandria.TransitionSystem
import Mathlib.Algebra.BigOperators.Group.Finset.Basic
import Mathlib.Algebra.Order.BigOperators.Group.Finset

namespace Calandria

inductive StartDecision
  | start
  | abort
  deriving DecidableEq

namespace StartGate

/-! ### The calls -/

inductive Call
  | wait
  /-- `start` or `abort`. -/
  | decide (selected : StartDecision)
  deriving DecidableEq

/-- Where a call is. -/
inductive CallPc
  /-- Waits for the lock. -/
  | acquiring (call : Call)
  /-- At the head of the loop, with the lock. -/
  | checking
  /-- Waits on the condition variable, without the lock. -/
  | blocked (notified : Bool)
  /-- Past the loop, with the lock. -/
  | unwrapping
  | deciding (selected : StartDecision)
  /-- Is about to release the lock; a wait returns a decision. -/
  | releasing (result : Option StartDecision)
  | returned (result : Option StartDecision)
  /-- "reactor group start decision disappeared" -/
  | panicked
  deriving DecidableEq

namespace CallPc

/-- The call has the lock. -/
def holds : CallPc → Bool
  | .checking | .unwrapping | .deciding _ | .releasing _ => true
  | _ => false

/-- This is a call of `wait`. -/
def waits : CallPc → Bool
  | .acquiring .wait | .checking | .blocked _ | .unwrapping | .panicked => true
  | .releasing result | .returned result => result.isSome
  | .acquiring (.decide _) | .deciding _ => false

/-- What a call with the lock does first. -/
def enter : Call → CallPc
  | .wait => .checking
  | .decide selected => .deciding selected

/-- `notify_all`, for one call. -/
def notified : CallPc → CallPc
  | .blocked _ => .blocked true
  | pc => pc

end CallPc

/-- The mutex, the decision, and the calls by who makes them. -/
structure State (π : Type) where
  holder : Option π
  decision : Option StartDecision
  calls : π → Option CallPc

inductive Event
  | call (call : Call)
  | acquire
  | check
  | unwrap
  | wake (notified : Bool)
  | decide (selected : StartDecision)
  | release
  deriving DecidableEq

/-- A call wakes that nobody has notified. -/
def Event.spurious : Event → Bool
  | .wake notified => !notified
  | _ => false

variable {π : Type}

def State.new : State π := ⟨none, none, fun _ => none⟩

/-! ### What a call has seen -/

/-- What a call's place says of the decision. -/
def Fits (decision : Option StartDecision) : CallPc → Prop
  | .blocked notified => notified = true ↔ decision ≠ none
  | .unwrapping => decision ≠ none
  | .releasing (some selected) | .returned (some selected) => decision = some selected
  | .releasing none | .returned none => decision ≠ none
  | .panicked => False
  | .acquiring _ | .checking | .deciding _ => True

structure Inv (s : State π) : Prop where
  holder : ∀ {p}, s.holder = some p ↔ (s.calls p).any CallPc.holds = true
  fits : ∀ {p pc}, s.calls p = some pc → Fits s.decision pc

theorem new_inv : Inv (State.new : State π) :=
  ⟨iff_of_false nofun nofun, nofun⟩

theorem notified_holds (pc : CallPc) : pc.notified.holds = pc.holds := by
  cases pc <;> rfl

theorem notified_waits (pc : CallPc) : pc.notified.waits = pc.waits := by
  cases pc <;> rfl

/-- A notified call fits the decision that has just been made. -/
theorem Fits.notified {pc : CallPc} (h : Fits none pc) (selected : StartDecision) :
    Fits (some selected) pc.notified := by
  cases pc with
  | blocked b => exact iff_of_true rfl nofun
  | unwrapping => exact absurd rfl h
  | releasing result | returned result =>
    cases result with
    | none => exact nofun
    | some d => cases h
  | panicked => exact h
  | acquiring | checking | deciding => trivial

variable {s s' : State π}

/-- What a step does beside its own call: nothing, or it makes the decision and
notifies the other calls. -/
inductive Effect (s : State π) (p : π) (s' : State π) : Prop
  | keeps : s'.decision = s.decision → (∀ q, q ≠ p → s'.calls q = s.calls q) → Effect s p s'
  | decides {selected} : s.decision = none → s.calls p = some (.deciding selected) →
      s'.decision = some selected → s'.calls p = some (.releasing none) →
      (∀ q, q ≠ p → s'.calls q = (s.calls q).map CallPc.notified) → Effect s p s'

/-- Another call is where it was, or has been notified. -/
theorem Effect.other {p q : π} (h : Effect s p s') (hq : q ≠ p) :
    s'.calls q = s.calls q ∨ s'.calls q = (s.calls q).map CallPc.notified := by
  cases h with
  | keeps _ hothers => exact .inl (hothers q hq)
  | decides _ _ _ _ hothers => exact .inr (hothers q hq)

/-- The other calls hold what they held. -/
theorem Effect.holds {p q : π} (h : Effect s p s') (hq : q ≠ p) :
    (s'.calls q).any CallPc.holds = (s.calls q).any CallPc.holds := by
  cases h with
  | keeps _ hothers => rw [hothers q hq]
  | decides _ _ _ _ hothers =>
    rw [hothers q hq]
    cases s.calls q with
    | none => rfl
    | some pc => exact notified_holds pc

/-- How many steps a call still takes; a wait that looks before the decision is made
goes round once more. -/
def rank (decision : Option StartDecision) : Option CallPc → ℕ
  | none => 9
  | some (.acquiring .wait) => if decision = none then 8 else 4
  | some .checking => if decision = none then 7 else 3
  | some (.blocked _) => if decision = none then 6 else 5
  | some (.acquiring (.decide _)) => 3
  | some .unwrapping | some (.deciding _) => 2
  | some (.releasing _) => 1
  | some (.returned _) | some .panicked => 0

theorem rank_notified (selected : StartDecision) (pc : Option CallPc) :
    rank (some selected) (pc.map CallPc.notified) ≤ rank none pc := by
  cases pc with
  | none => exact Nat.le_refl _
  | some pc =>
    cases pc with
    | acquiring call => cases call <;> simp [rank, CallPc.notified]
    | _ => simp [rank, CallPc.notified]

theorem Effect.rank_le {p q : π} (h : Effect s p s') (hq : q ≠ p) :
    rank s'.decision (s'.calls q) ≤ rank s.decision (s.calls q) := by
  cases h with
  | keeps hsame hothers => rw [hsame, hothers q hq]
  | decides hnone _ hdecided _ hothers =>
    rw [hnone, hdecided, hothers q hq]
    exact rank_notified _ _

/-! ### The steps -/

variable [DecidableEq π]

namespace State

def setCall (s : State π) (p : π) (pc : CallPc) : State π :=
  { s with calls := Function.update s.calls p (some pc) }

/-- `decide`, with the lock. -/
def decide (s : State π) (selected : StartDecision) : State π :=
  match s.decision with
  | none => { s with
      decision := some selected
      calls := fun p => (s.calls p).map CallPc.notified }
  | some _ => s

end State

/-- One step of one call. -/
inductive Step (s : State π) : π × Event → State π → Prop
  | call {p} (call : Call) : s.calls p = none →
      Step s (p, .call call) (s.setCall p (.acquiring call))
  | acquire {p call} : s.calls p = some (.acquiring call) → s.holder = none →
      Step s (p, .acquire) ({ s with holder := some p }.setCall p (.enter call))
  /-- `Condvar::wait` gives the lock up as it blocks. -/
  | block {p} : s.calls p = some .checking → s.decision = none →
      Step s (p, .check) ({ s with holder := none }.setCall p (.blocked false))
  | pass {p selected} : s.calls p = some .checking → s.decision = some selected →
      Step s (p, .check) (s.setCall p .unwrapping)
  | wake {p notified} : s.calls p = some (.blocked notified) →
      Step s (p, .wake notified) (s.setCall p (.acquiring .wait))
  | unwrap {p selected} : s.calls p = some .unwrapping → s.decision = some selected →
      Step s (p, .unwrap) (s.setCall p (.releasing (some selected)))
  | disappeared {p} : s.calls p = some .unwrapping → s.decision = none →
      Step s (p, .unwrap) ({ s with holder := none }.setCall p .panicked)
  | decide {p selected} : s.calls p = some (.deciding selected) →
      Step s (p, .decide selected) ((s.decide selected).setCall p (.releasing none))
  | release {p result} : s.calls p = some (.releasing result) →
      Step s (p, .release) ({ s with holder := none }.setCall p (.returned result))

variable {p q : π} {e : Event}

@[simp] theorem setCall_self (s : State π) (p : π) (pc : CallPc) :
    (s.setCall p pc).calls p = some pc :=
  Function.update_self ..

theorem setCall_of_ne (s : State π) {p q : π} (hq : q ≠ p) (pc : CallPc) :
    (s.setCall p pc).calls q = s.calls q :=
  Function.update_of_ne hq ..

@[simp] theorem setCall_decision (s : State π) (p : π) (pc : CallPc) :
    (s.setCall p pc).decision = s.decision := rfl

theorem Step.effect (h : Step s (p, e) s') : Effect s p s' := by
  cases h with
  | @decide _ selected hpc =>
    cases hdecision : s.decision with
    | none =>
      refine .decides hdecision hpc ?_ (Function.update_self ..) (fun q hq => ?_)
      · simp only [State.setCall, State.decide, hdecision]
      · simp only [State.setCall, State.decide, hdecision, Function.update_of_ne hq]
    | some d =>
      refine .keeps ?_ (fun q hq => ?_)
      · simp only [State.setCall, State.decide, hdecision]
      · simp only [State.setCall, State.decide, hdecision, Function.update_of_ne hq]
  | _ => exact .keeps rfl (fun q hq => Function.update_of_ne hq ..)

/-- **The decision never changes**: once it is made, it stays. -/
theorem Step.decision (h : Step s (p, e) s') {d : StartDecision} (hd : s.decision = some d) :
    s'.decision = some d := by
  cases h.effect with
  | keeps hsame => rw [hsame, hd]
  | decides hnone =>
    rw [hd] at hnone
    cases hnone

/-- The own call of a step fits what the step leaves. -/
theorem Step.own (h : Step s (p, e) s') (hinv : Inv s) :
    ∃ pc, s'.calls p = some pc ∧ Fits s'.decision pc := by
  cases h with
  | call call => exact ⟨_, Function.update_self .., trivial⟩
  | @acquire _ call => exact ⟨_, Function.update_self .., by cases call <;> trivial⟩
  | block _ hnone => exact ⟨_, Function.update_self .., iff_of_false nofun (fun hne => hne hnone)⟩
  | pass _ hsome =>
    refine ⟨_, Function.update_self .., fun hnone => ?_⟩
    rw [show s.decision = none from hnone] at hsome
    cases hsome
  | wake => exact ⟨_, Function.update_self .., trivial⟩
  | unwrap _ hsome => exact ⟨_, Function.update_self .., hsome⟩
  | disappeared hpc hnone => exact absurd hnone (hinv.fits hpc)
  | @decide _ selected hpc =>
    refine ⟨_, Function.update_self .., ?_⟩
    cases hdecision : s.decision with
    | none => simp [Fits, State.setCall, State.decide, hdecision]
    | some d => simp [Fits, State.setCall, State.decide, hdecision]
  | @release _ result hpc =>
    refine ⟨_, Function.update_self .., ?_⟩
    have hfits := hinv.fits hpc
    cases result <;> exact hfits

theorem Step.fits (h : Step s (p, e) s') (hinv : Inv s) {pc : CallPc}
    (hpc : s'.calls q = some pc) : Fits s'.decision pc := by
  by_cases hq : q = p
  · subst hq
    obtain ⟨pc', hpc', hfits⟩ := h.own hinv
    rw [hpc'] at hpc
    cases hpc
    exact hfits
  · cases h.effect with
    | keeps hsame hothers =>
      rw [hothers q hq] at hpc
      rw [hsame]
      exact hinv.fits hpc
    | decides hnone _ hdecided _ hothers =>
      rw [hothers q hq, Option.map_eq_some_iff] at hpc
      obtain ⟨old, hold, rfl⟩ := hpc
      have hfits := hinv.fits hold
      rw [hnone] at hfits
      rw [hdecided]
      exact hfits.notified _

/-- A step takes the lock when it is free, gives it up, or leaves it alone. -/
theorem Step.lock (h : Step s (p, e) s') :
    (s.holder = none ∧ s'.holder = some p ∧ (s'.calls p).any CallPc.holds = true) ∨
    ((s.calls p).any CallPc.holds = true ∧ s'.holder = none ∧
      (s'.calls p).any CallPc.holds = false) ∨
    (s'.holder = s.holder ∧ (s'.calls p).any CallPc.holds = (s.calls p).any CallPc.holds) := by
  cases h with
  | @acquire _ call hpc hfree =>
    exact .inl ⟨hfree, rfl, by cases call <;> simp [State.setCall, CallPc.enter, CallPc.holds]⟩
  | block hpc | disappeared hpc | release hpc =>
    exact .inr (.inl ⟨by simp [hpc, CallPc.holds], rfl, by simp [State.setCall, CallPc.holds]⟩)
  | @decide _ selected hpc =>
    refine .inr (.inr ⟨?_, by simp [State.setCall, hpc, CallPc.holds]⟩)
    cases hdecision : s.decision <;> simp [State.setCall, State.decide, hdecision]
  | call _ hpc | pass hpc | wake hpc | unwrap hpc =>
    exact .inr (.inr ⟨rfl, by simp [State.setCall, hpc, CallPc.holds]⟩)

theorem Step.holder (h : Step s (p, e) s') (hinv : Inv s) :
    s'.holder = some q ↔ (s'.calls q).any CallPc.holds = true := by
  have hold := hinv.holder (p := q)
  by_cases hq : q = p
  · subst hq
    rcases h.lock with ⟨-, hholder, hholds⟩ | ⟨-, hholder, hholds⟩ | ⟨hholder, hholds⟩
    · exact iff_of_true hholder hholds
    · rw [hholder, hholds]
      exact iff_of_false nofun nofun
    · rwa [hholder, hholds]
  · rw [h.effect.holds hq, ← hold]
    rcases h.lock with ⟨hfree, hholder, -⟩ | ⟨hholds, hholder, -⟩ | ⟨hholder, -⟩
    · rw [hfree, hholder]
      exact iff_of_false (fun heq => hq (Option.some_inj.mp heq).symm) nofun
    · rw [hholder, hinv.holder.mpr hholds]
      exact iff_of_false nofun (fun heq => hq (Option.some_inj.mp heq).symm)
    · rw [hholder]

theorem Inv.next (h : Inv s) (hstep : Step s (p, e) s') : Inv s' :=
  ⟨hstep.holder h, hstep.fits h⟩

/-! ### Waiting and deciding calls -/

theorem Step.called {call : Call} (h : Step s (p, .call call) s') :
    s.calls p = none ∧ s' = s.setCall p (.acquiring call) := by
  cases h with
  | call _ hpc => exact ⟨hpc, rfl⟩

/-- Any other step is one of a call that has not returned. -/
theorem Step.active (h : Step s (p, e) s') (he : ∀ call, e ≠ .call call) :
    ∃ pc, s.calls p = some pc ∧ ∀ result, pc ≠ .returned result := by
  cases h with
  | call call => exact absurd rfl (he call)
  | acquire hpc | block hpc | pass hpc | wake hpc | unwrap hpc | disappeared hpc | decide hpc
  | release hpc => exact ⟨_, hpc, nofun⟩

/-- A call that has begun is not forgotten. -/
theorem Step.stays (h : Step s (p, e) s') {pc : CallPc} (hpc : s.calls q = some pc) :
    s'.calls q ≠ none := by
  by_cases hq : q = p
  · subst hq
    cases h <;> exact fun hnone => nomatch (setCall_self ..).symm.trans hnone
  · rcases h.effect.other hq with hsame | hnotified
    · rw [hsame, hpc]
      exact nofun
    · rw [hnotified, hpc]
      exact nofun

/-- A call of `wait` stays one, and decides nothing. -/
theorem Step.waits (h : Step s (p, e) s') {pc : CallPc} (hpc : s.calls p = some pc)
    (hwaits : pc.waits = true) :
    s'.decision = s.decision ∧ (∀ q, q ≠ p → s'.calls q = s.calls q) ∧
      ∃ pc', s'.calls p = some pc' ∧ pc'.waits = true := by
  have hothers : ∀ (t : State π) (pc' : CallPc), t.calls = s.calls →
      ∀ q, q ≠ p → (t.setCall p pc').calls q = s.calls q := by
    intro t pc' ht q hq
    rw [← ht]
    exact Function.update_of_ne hq ..
  cases h with
  | call _ hnone =>
    rw [hnone] at hpc
    cases hpc
  | @acquire _ call hpc' =>
    rw [hpc'] at hpc
    cases hpc
    cases call with
    | wait => exact ⟨rfl, hothers _ _ rfl, _, Function.update_self .., rfl⟩
    | decide selected => cases hwaits
  | decide hpc' =>
    rw [hpc'] at hpc
    cases hpc
    cases hwaits
  | release hpc' =>
    rw [hpc'] at hpc
    cases hpc
    exact ⟨rfl, hothers _ _ rfl, _, Function.update_self .., hwaits⟩
  | _ => exact ⟨rfl, hothers _ _ rfl, _, Function.update_self .., rfl⟩

/-- Where a call of `decide` is, if no other call decides. -/
def Decides (selected : StartDecision) (decision : Option StartDecision) : CallPc → Prop
  | .acquiring (.decide d) | .deciding d => d = selected ∧ decision = none
  | .releasing none | .returned none => decision = some selected
  | _ => False

/-- A call of `decide` that has returned has left its decision. -/
theorem Decides.returned {selected : StartDecision} {decision : Option StartDecision}
    {result : Option StartDecision} (h : Decides selected decision (.returned result)) :
    decision = some selected := by
  cases result with
  | none => exact h
  | some d => cases h

theorem Step.decides (h : Step s (p, e) s') {pc : CallPc} (hpc : s.calls p = some pc)
    {selected : StartDecision} (hdecides : Decides selected s.decision pc) :
    ∃ pc', s'.calls p = some pc' ∧ Decides selected s'.decision pc' := by
  cases h with
  | call _ hnone =>
    rw [hnone] at hpc
    cases hpc
  | @acquire _ call hpc' =>
    rw [hpc'] at hpc
    cases hpc
    cases call with
    | wait => cases hdecides
    | decide d => exact ⟨_, Function.update_self .., hdecides⟩
  | decide hpc' =>
    rw [hpc'] at hpc
    cases hpc
    obtain ⟨rfl, hnone⟩ := hdecides
    refine ⟨_, Function.update_self .., ?_⟩
    simp [Decides, State.setCall, State.decide, hnone]
  | @release _ result hpc' =>
    rw [hpc'] at hpc
    cases hpc
    cases result with
    | none => exact ⟨_, Function.update_self .., hdecides⟩
    | some d => cases hdecides
  | block hpc' | pass hpc' | wake hpc' | unwrap hpc' | disappeared hpc' =>
    rw [hpc'] at hpc
    cases hpc
    cases hdecides

/-! ### Progress -/

/-- What a step costs, and what one gains that wakes for no reason. -/
def Event.cost (e : Event) : ℕ := if e.spurious then 0 else 1

def Event.gain (e : Event) : ℕ := if e.spurious then 2 else 0

theorem Step.rank_own (h : Step s (p, e) s') (hinv : Inv s) :
    e.cost + rank s'.decision (s'.calls p) ≤ rank s.decision (s.calls p) + e.gain := by
  cases h with
  | call call hpc =>
    rw [hpc, setCall_self, setCall_decision]
    cases call with
    | wait =>
      simp only [rank]
      split_ifs <;> exact Nat.le_of_ble_eq_true rfl
    | decide => exact Nat.le_of_ble_eq_true rfl
  | @acquire _ call hpc =>
    rw [hpc, setCall_self, setCall_decision]
    cases call with
    | wait =>
      simp only [rank, CallPc.enter]
      split_ifs <;> exact Nat.le_of_ble_eq_true rfl
    | decide => exact Nat.le_of_ble_eq_true rfl
  | block hpc hnone =>
    rw [hpc, setCall_self, setCall_decision]
    simp [rank, hnone, Event.cost, Event.gain, Event.spurious]
  | pass hpc hsome =>
    rw [hpc, setCall_self, setCall_decision]
    simp [rank, hsome, Event.cost, Event.gain, Event.spurious]
  | @wake _ notified hpc =>
    have hfits : notified = true ↔ s.decision ≠ none := hinv.fits hpc
    rw [hpc, setCall_self, setCall_decision]
    cases notified with
    | true => simp [rank, hfits.mp rfl, Event.cost, Event.gain, Event.spurious]
    | false =>
      have hnone : s.decision = none := by
        by_contra hne
        cases hfits.mpr hne
      simp [rank, hnone, Event.cost, Event.gain, Event.spurious]
  | unwrap hpc | decide hpc | release hpc =>
    rw [hpc, setCall_self]
    exact Nat.le_of_ble_eq_true rfl
  | disappeared hpc hnone => exact absurd hnone (hinv.fits hpc)

section

variable [Fintype π]

/-- How many steps the calls still take. -/
def measure (s : State π) : ℕ := ∑ p, rank s.decision (s.calls p)

/-- Every step lowers the measure, but for the calls that wake for no reason. -/
theorem Step.measured (h : Step s (p, e) s') (hinv : Inv s) :
    e.cost + measure s' ≤ measure s + e.gain := by
  have hown := h.rank_own hinv
  have hothers : ∑ q ∈ Finset.univ.erase p, rank s'.decision (s'.calls q)
      ≤ ∑ q ∈ Finset.univ.erase p, rank s.decision (s.calls q) :=
    Finset.sum_le_sum fun q hq => h.effect.rank_le (Finset.ne_of_mem_erase hq)
  rw [measure, measure, ← Finset.add_sum_erase _ _ (Finset.mem_univ p),
    ← Finset.add_sum_erase _ (fun q => rank s.decision (s.calls q)) (Finset.mem_univ p)]
  omega

end

/-- The call can take a step that is not a spurious wake, or waits for the lock. -/
theorem Inv.can_step (h : Inv s) {pc : CallPc} (hpc : s.calls p = some pc)
    (hreturned : ∀ result, pc ≠ .returned result) (hblocked : pc ≠ .blocked false)
    (hfree : pc.holds = true ∨ s.holder = none) :
    ∃ e s', Step s (p, e) s' ∧ e.spurious = false ∧ ∀ call, e ≠ .call call := by
  cases pc with
  | acquiring call =>
    rcases hfree with hholds | hfree
    · cases hholds
    · exact ⟨_, _, .acquire hpc hfree, rfl, nofun⟩
  | checking =>
    cases hdecision : s.decision with
    | none => exact ⟨_, _, .block hpc hdecision, rfl, nofun⟩
    | some d => exact ⟨_, _, .pass hpc hdecision, rfl, nofun⟩
  | blocked notified =>
    cases notified with
    | false => exact absurd rfl hblocked
    | true => exact ⟨_, _, .wake hpc, rfl, nofun⟩
  | unwrapping =>
    cases hdecision : s.decision with
    | none => exact absurd hdecision (h.fits hpc)
    | some d => exact ⟨_, _, .unwrap hpc hdecision, rfl, nofun⟩
  | deciding selected => exact ⟨_, _, .decide hpc, rfl, nofun⟩
  | releasing result => exact ⟨_, _, .release hpc, rfl, nofun⟩
  | returned result => exact absurd rfl (hreturned result)
  | panicked => exact absurd (h.fits hpc) id

/-- **No call is left behind**: while one has not returned, and is not blocked before
the decision, some call can take a step that is not a spurious wake. -/
theorem Inv.progress (h : Inv s) {pc : CallPc} (hpc : s.calls p = some pc)
    (hreturned : ∀ result, pc ≠ .returned result)
    (hdecided : pc = .blocked false → s.decision ≠ none) :
    ∃ q e s', Step s (q, e) s' ∧ e.spurious = false ∧ ∀ call, e ≠ .call call := by
  have hblocked : pc ≠ .blocked false := by
    rintro rfl
    exact absurd ((h.fits hpc).mpr (hdecided rfl)) nofun
  cases hholder : s.holder with
  | none => exact ⟨p, h.can_step hpc hreturned hblocked (.inr hholder)⟩
  | some q =>
    -- whoever holds the lock goes on
    have hany := h.holder.mp hholder
    cases hq : s.calls q with
    | none =>
      rw [hq] at hany
      cases hany
    | some pc' =>
      rw [hq] at hany
      have hholds : pc'.holds = true := hany
      refine ⟨q, h.can_step hq ?_ ?_ (.inl hholds)⟩
      · rintro result rfl
        cases hholds
      · rintro rfl
        cases hholds

end StartGate

end Calandria
