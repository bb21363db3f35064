/-
The embedded host: one bounded duty turn at a time.

`EmbeddedHost::step` runs consumer code three times, the clock, the duty and
the clock again.  It is given here as the three pieces that the calls cut it
into, each with the result of its call as an argument, so that a thread can be
interrupted between them.

* `HostAction.forTurn` — what a host does after a turn;
* `EmbeddedHost.start`, `turned`, `complete` — the three pieces of `step`;
* `EmbeddedHost.Follows`, `complete_phase` — the phase after each of them.
-/
import Calandria.Time

namespace Calandria

/-- The remaining span, clamped to zero once elapsed. -/
def Deadline.remainingAt (deadline : Deadline) (now : Moment) : Span :=
  (U64.checkedSub deadline now).getD 0

/-- Host policy that does not belong to a concrete duty. -/
structure HostConfig where
  waitCeiling : Span
  deriving DecidableEq

namespace HostConfig

/-- Default maximum wait between owner observations: 100 milliseconds. -/
def defaultWaitCeiling : Span := 100000000

/-- `HostConfig::default`. -/
def default : HostConfig := ⟨defaultWaitCeiling⟩

end HostConfig

/-- Action selected after one bounded duty turn. -/
inductive HostAction
  | continue
  | wait (maximum : Span)
  | stop
  deriving DecidableEq

namespace HostAction

def fromWait (wait : Span) : HostAction := if wait = 0 then .continue else .wait wait

/-- Plans the next host action from scheduling interest. -/
def forNext (next : Next) (now : Moment) (config : HostConfig) : HostAction :=
  match next with
  | .now => .continue
  | .wake => fromWait config.waitCeiling
  | .wakeOr deadline => fromWait (min (Deadline.remainingAt deadline now) config.waitCeiling)
  | .stop => .stop

/-- Plans the next host action from a complete turn result. -/
def forTurn (turn : Turn) (now : Moment) (config : HostConfig) : HostAction :=
  forNext turn.next now config

/-- A host waits no longer than its ceiling, and never for an empty span. -/
theorem forTurn_wait {turn : Turn} {now : Moment} {config : HostConfig} {maximum : Span}
    (h : forTurn turn now config = .wait maximum) : maximum ≠ 0 ∧ maximum ≤ config.waitCeiling := by
  have hwait : ∀ {wait : Span}, wait ≤ config.waitCeiling → fromWait wait = .wait maximum →
      maximum ≠ 0 ∧ maximum ≤ config.waitCeiling := by
    intro wait hle hfrom
    rw [fromWait] at hfrom
    split_ifs at hfrom with hzero
    cases hfrom
    exact ⟨hzero, hle⟩
  obtain ⟨work, next⟩ := turn
  cases next with
  | now | stop => cases h
  | wake => exact hwait le_rfl h
  | wakeOr deadline => exact hwait (min_le_right _ _) h

theorem forTurn_eq_stop {turn : Turn} {now : Moment} {config : HostConfig} :
    forTurn turn now config = .stop ↔ turn.next = .stop := by
  have hwait : ∀ wait, fromWait wait ≠ .stop := by
    intro wait
    rw [fromWait]
    split_ifs <;> simp
  obtain ⟨work, next⟩ := turn
  cases next with
  | now => exact iff_of_false nofun nofun
  | wake | wakeOr deadline => exact iff_of_false (hwait _) nofun
  | stop => exact iff_of_true rfl rfl

end HostAction

/-- Result of one bounded wait attempt. -/
inductive WaitOutcome
  | notified
  | idle
  deriving DecidableEq

/-- Lifecycle phase of one bounded host. -/
inductive HostPhase
  | running
  | stopped
  | terminated
  | failed
  deriving DecidableEq

/-- Observation produced by one successful embedded host step. -/
structure HostStep where
  startedAt : Moment
  completedAt : Moment
  turn : Turn
  action : HostAction
  deriving DecidableEq

/-- Point-in-time execution observations for one host. -/
structure HostSnapshot where
  phase : HostPhase
  turns : U64
  work : WorkCount
  lastMoment : Option Moment
  lastTurn : Option Turn
  lastAction : Option HostAction
  deriving DecidableEq

namespace HostSnapshot

def new : HostSnapshot := ⟨.running, 0, 0, none, none, none⟩

def observe (snapshot : HostSnapshot) (moment : Moment) : HostSnapshot :=
  { snapshot with lastMoment := some moment }

def record (snapshot : HostSnapshot) (turn : Turn) (action : HostAction) : HostSnapshot :=
  { snapshot with
    turns := snapshot.turns.saturatingAdd 1
    work := snapshot.work.saturatingAdd turn.work
    lastTurn := some turn
    lastAction := some action }

def stop (snapshot : HostSnapshot) : HostSnapshot := { snapshot with phase := .stopped }

def terminate (snapshot : HostSnapshot) : HostSnapshot := { snapshot with phase := .terminated }

def fail (snapshot : HostSnapshot) : HostSnapshot := { snapshot with phase := .failed }

end HostSnapshot

/-- Failure to execute one bounded host step; `D` and `C` are the errors of the
duty and the clock. -/
inductive HostError (D C : Type)
  | notRunning (phase : HostPhase)
  | clock (source : C)
  | clockRegressed (previous observed : Moment)
  | duty (source : D)
  deriving DecidableEq

/-- The host, but for the duty and the clock that it calls. -/
structure EmbeddedHost where
  config : HostConfig
  snapshot : HostSnapshot
  deriving DecidableEq

namespace EmbeddedHost

variable {D C : Type}

def new (config : HostConfig) : EmbeddedHost := ⟨config, .new⟩

def phase (host : EmbeddedHost) : HostPhase := host.snapshot.phase

def fail (host : EmbeddedHost) : EmbeddedHost := { host with snapshot := host.snapshot.fail }

def terminate (host : EmbeddedHost) : EmbeddedHost :=
  { host with snapshot := host.snapshot.terminate }

@[simp] theorem phase_fail (host : EmbeddedHost) : host.fail.phase = .failed := rfl

@[simp] theorem phase_terminate (host : EmbeddedHost) : host.terminate.phase = .terminated := rfl

/-- `observe_now`, given what the clock returned. -/
def observeNow (host : EmbeddedHost) :
    Except C Moment → EmbeddedHost × Except (HostError D C) Moment
  | .error source => (host.fail, .error (.clock source))
  | .ok observed =>
    match host.snapshot.lastMoment with
    | some previous =>
      if observed < previous then (host.fail, .error (.clockRegressed previous observed))
      else ({ host with snapshot := host.snapshot.observe observed }, .ok observed)
    | none => ({ host with snapshot := host.snapshot.observe observed }, .ok observed)

/-- `step` up to the call of the duty. -/
def start (host : EmbeddedHost) (observed : Except C Moment) :
    EmbeddedHost × Except (HostError D C) Moment :=
  if host.phase ≠ .running then (host, .error (.notRunning host.phase))
  else host.observeNow observed

/-- `step` from the return of the duty to the second look at the clock. -/
def turned (host : EmbeddedHost) :
    Except D Turn → EmbeddedHost × Except (HostError D C) Turn
  | .ok turn => (host, .ok turn)
  | .error source => (host.fail, .error (.duty source))

/-- The rest of `step`. -/
def complete (host : EmbeddedHost) (startedAt : Moment) (turn : Turn)
    (observed : Except C Moment) : EmbeddedHost × Except (HostError D C) HostStep :=
  match host.observeNow observed with
  | (host, .error error) => (host, .error error)
  | (host, .ok completedAt) =>
    let action := HostAction.forTurn turn completedAt host.config
    let snapshot := host.snapshot.record turn action
    let snapshot := if action = .stop then snapshot.stop else snapshot
    ({ host with snapshot }, .ok ⟨startedAt, completedAt, turn, action⟩)

/-! ### The phase after each piece -/

/-- Success leaves the phase alone, and failure makes it `Failed`. -/
def Follows {α : Type} (host : EmbeddedHost) :
    EmbeddedHost × Except (HostError D C) α → Prop
  | (host', .ok _) => host'.phase = host.phase
  | (host', .error _) => host'.phase = .failed

theorem observeNow_follows (host : EmbeddedHost) (observed : Except C Moment) :
    host.Follows (host.observeNow observed : _ × Except (HostError D C) Moment) := by
  cases observed with
  | error source => exact host.phase_fail
  | ok observed =>
    rw [observeNow]
    split
    · split_ifs
      · exact host.phase_fail
      · exact rfl
    · exact rfl

theorem start_follows {host host' : EmbeddedHost} (h : host.phase = .running)
    {observed : Except C Moment} {result : Except (HostError D C) Moment}
    (hstart : host.start observed = (host', result)) : host.Follows (host', result) := by
  rw [start, if_neg (not_not_intro h)] at hstart
  rw [← hstart]
  exact host.observeNow_follows observed

theorem turned_follows {host host' : EmbeddedHost} {returned : Except D Turn}
    {result : Except (HostError D C) Turn} (hturned : host.turned returned = (host', result)) :
    host.Follows (host', result) := by
  rw [← hturned]
  cases returned with
  | ok turn => exact rfl
  | error source => exact host.phase_fail

/-- A completed step leaves the host stopped exactly if it selects to stop. -/
theorem complete_phase {host host' : EmbeddedHost} (h : host.phase = .running)
    {startedAt : Moment} {turn : Turn} {observed : Except C Moment} {step : HostStep}
    (hcomplete : host.complete (D := D) startedAt turn observed = (host', .ok step)) :
    host'.phase = if step.action = .stop then .stopped else .running := by
  have hfollows := host.observeNow_follows (D := D) observed
  rw [complete] at hcomplete
  split at hcomplete
  · cases hcomplete
  · next observed' completedAt hobserve =>
    rw [hobserve] at hfollows
    cases hcomplete
    by_cases hstop : HostAction.forTurn turn completedAt observed'.config = .stop
    · simp only [hstop, if_true]
      rfl
    · simp only [hstop, if_false]
      exact hfollows.trans h

theorem complete_failed {host host' : EmbeddedHost} {startedAt : Moment} {turn : Turn}
    {observed : Except C Moment} {error : HostError D C}
    (hcomplete : host.complete startedAt turn observed = (host', .error error)) :
    host'.phase = .failed := by
  have hfollows := host.observeNow_follows (D := D) observed
  rw [complete] at hcomplete
  split at hcomplete
  · next hobserve =>
    rw [hobserve] at hfollows
    cases hcomplete
    exact hfollows
  · cases hcomplete

end EmbeddedHost

end Calandria
