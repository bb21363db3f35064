/-
The life of an embedded host.

The duty and the clock are arbitrary machines: a call hands back the new state of
the machine with a value, a typed error or a panic.  Whoever embeds the host may
step it again at any time, and may alter both machines in between.

* `OwnedHost.step` — the pieces of `EmbeddedHost` put together around the calls;
* `OwnedHost.Exit`, `step_exit` — the ways in which a step can end;
* `host_lifecycle` — time, accounts and phase, for every sequence of steps.
-/
import Calandria.Interest
import Calandria.TransitionSystem

namespace Calandria

/-- A source of moments. -/
class Clock (K : Type) (C : outParam Type) where
  now : K → K × Returned Moment C

/-- Bounded work that a host runs. -/
class Duty (Y : Type) (D : outParam Type) where
  turn : Y → Moment → Y × Returned Turn D

/-- What came back, unless the call unwound. -/
def Returned.caught {α ε : Type} : Returned α ε → Option (Except ε α)
  | .ok value => some (.ok value)
  | .err source => some (.error source)
  | .panicked => none

/-- A call of consumer code, with what it returned. -/
inductive HostCall (D C : Type)
  | now (observed : Returned Moment C)
  | turn (startedAt : Moment) (result : Returned Turn D)

/-- The moment passed to the duty. -/
def HostCall.startedAt? {D C : Type} : HostCall D C → Option Moment
  | .now _ => none
  | .turn startedAt _ => some startedAt

/-- A host with the duty and the clock that it owns. -/
structure OwnedHost (Y K : Type) where
  host : EmbeddedHost
  duty : Y
  clock : K

namespace OwnedHost

variable {Y K D C α : Type} [Duty Y D] [Clock K C]

/-- The host afterwards, the calls in order, and the result. -/
abbrev Exec (Y K D C α : Type) : Type :=
  OwnedHost Y K × List (HostCall D C) × Returned α (HostError D C)

/-- The `?` of the source. -/
def Exec.andThen {β : Type} : Exec Y K D C α → (OwnedHost Y K → α → Exec Y K D C β) →
    Exec Y K D C β
  | (owned, calls, .ok value), next =>
    let (owned, calls', result) := next owned value
    (owned, calls ++ calls', result)
  | (owned, calls, .err error), _ => (owned, calls, .err error)
  | (owned, calls, .panicked), _ => (owned, calls, .panicked)

/-- A piece of the step has decided on what a call returned. -/
def settle (owned : OwnedHost Y K) (call : HostCall D C) :
    EmbeddedHost × Except (HostError D C) α → Exec Y K D C α
  | (host, .ok value) => ({ owned with host }, [call], .ok value)
  | (host, .error error) => ({ owned with host }, [call], .err error)

/-- Asks the clock, and goes on with one piece of the step. -/
def askClock (owned : OwnedHost Y K)
    (piece : Except C Moment → EmbeddedHost × Except (HostError D C) α) : Exec Y K D C α :=
  let (clock, observed) := Clock.now owned.clock
  match observed.caught with
  | none => ({ owned with clock }, [.now observed], .panicked)
  | some returned => settle { owned with clock } (.now observed) (piece returned)

/-- Runs the duty. -/
def runDuty (owned : OwnedHost Y K) (startedAt : Moment) : Exec Y K D C Turn :=
  let (duty, result) := Duty.turn owned.duty startedAt
  match result.caught with
  | none => ({ owned with duty }, [.turn startedAt result], .panicked)
  | some returned => settle { owned with duty } (.turn startedAt result) (owned.host.turned returned)

/-- Executes exactly one bounded duty turn and selects the next action. -/
def step (owned : OwnedHost Y K) : Exec Y K D C HostStep :=
  if owned.host.phase ≠ .running then (owned, [], .err (.notRunning owned.host.phase))
  else
    (owned.askClock owned.host.start).andThen fun owned startedAt =>
      (owned.runDuty startedAt).andThen fun owned turn =>
        owned.askClock (owned.host.complete startedAt turn)

end OwnedHost

/-! ### Looking at the clock -/

namespace EmbeddedHost

variable {D C : Type}

/-- The latest accepted observation. -/
def seen (host : EmbeddedHost) : WithBot Moment := host.snapshot.lastMoment

def observe (host : EmbeddedHost) (moment : Moment) : EmbeddedHost :=
  { host with snapshot := host.snapshot.observe moment }

@[simp] theorem seen_observe (host : EmbeddedHost) (moment : Moment) :
    (host.observe moment).seen = moment := rfl

@[simp] theorem seen_fail (host : EmbeddedHost) : host.fail.seen = host.seen := rfl

/-- The clock failed or went back. -/
inductive Refuses (host : EmbeddedHost) : Except C Moment → HostError D C → Prop
  | failed (source : C) : Refuses host (.error source) (.clock source)
  | regressed {previous observed : Moment} : host.snapshot.lastMoment = some previous →
      observed < previous → Refuses host (.ok observed) (.clockRegressed previous observed)

theorem observeNow_cases (host : EmbeddedHost) (observed : Except C Moment) :
    (∃ error : HostError D C, host.Refuses observed error ∧
      host.observeNow observed = (host.fail, .error error)) ∨
    ∃ moment, observed = .ok moment ∧ host.seen ≤ moment ∧
      host.observeNow observed = (host.observe moment, (.ok moment : Except (HostError D C) _)) := by
  cases observed with
  | error source => exact .inl ⟨.clock source, .failed source, rfl⟩
  | ok moment =>
    rw [observeNow, seen]
    cases hlast : host.snapshot.lastMoment with
    | none => exact .inr ⟨moment, rfl, bot_le, rfl⟩
    | some previous =>
      by_cases hlt : moment < previous
      · exact .inl ⟨.clockRegressed previous moment, .regressed hlast hlt, if_pos hlt⟩
      · exact .inr ⟨moment, rfl, WithBot.coe_le_coe.mpr (not_lt.mp hlt), if_neg hlt⟩

/-- The host after a turn that it has recorded. -/
def completed (host : EmbeddedHost) (turn : Turn) (completedAt : Moment) : EmbeddedHost where
  config := host.config
  snapshot :=
    { phase := if turn.next = .stop then .stopped else host.phase
      turns := host.snapshot.turns.saturatingAdd 1
      work := host.snapshot.work.saturatingAdd turn.work
      lastMoment := some completedAt
      lastTurn := some turn
      lastAction := some (HostAction.forTurn turn completedAt host.config) }

theorem complete_cases (host : EmbeddedHost) (startedAt : Moment) (turn : Turn)
    (observed : Except C Moment) :
    (∃ error : HostError D C, host.Refuses observed error ∧
      host.complete startedAt turn observed = (host.fail, .error error)) ∨
    ∃ moment, observed = .ok moment ∧ host.seen ≤ moment ∧
      host.complete startedAt turn observed
        = (host.completed turn moment, (.ok ⟨startedAt, moment, turn,
            HostAction.forTurn turn moment host.config⟩ : Except (HostError D C) _)) := by
  rcases host.observeNow_cases (D := D) observed with
    ⟨error, hrefuses, hobserve⟩ | ⟨moment, rfl, hseen, hobserve⟩
  · refine .inl ⟨error, hrefuses, ?_⟩
    rw [complete, hobserve]
  · refine .inr ⟨moment, rfl, hseen, ?_⟩
    rw [complete, hobserve, completed]
    by_cases hstop : turn.next = .stop
    · rw [if_pos hstop]
      simp only [HostAction.forTurn_eq_stop.mpr hstop, observe, if_true]
      rfl
    · have haction : HostAction.forTurn turn moment (host.observe moment).config ≠ .stop :=
        fun heq => hstop (HostAction.forTurn_eq_stop.mp heq)
      rw [if_neg hstop]
      simp only [haction, if_false]
      rfl

end EmbeddedHost

/-! ### The exits of a step -/

namespace OwnedHost

variable {Y K D C α : Type} [Duty Y D] [Clock K C]

/-- The first look at the clock has been accepted. -/
structure Started (owned : OwnedHost Y K) (clock : K) (startedAt : Moment) : Prop where
  running : owned.host.phase = .running
  asked : Clock.now owned.clock = (clock, (.ok startedAt : Returned Moment C))
  seen : owned.host.seen ≤ startedAt

/-- The ways in which a step ends. -/
inductive Exit (owned : OwnedHost Y K) : Exec Y K D C HostStep → Prop
  | notRunning : owned.host.phase ≠ .running →
      Exit owned (owned, [], .err (.notRunning owned.host.phase))
  | clockPanics {clock : K} : owned.host.phase = .running →
      Clock.now owned.clock = (clock, (.panicked : Returned Moment C)) →
      Exit owned ({ owned with clock }, [.now .panicked], .panicked)
  | refused {clock : K} {observed : Returned Moment C} {returned error} :
      owned.host.phase = .running → Clock.now owned.clock = (clock, observed) →
      observed.caught = some returned → owned.host.Refuses returned error →
      Exit owned ({ owned with host := owned.host.fail, clock }, [.now observed], .err error)
  | dutyPanics {clock startedAt duty} : owned.Started clock startedAt →
      Duty.turn owned.duty startedAt = (duty, (.panicked : Returned Turn D)) →
      Exit owned (⟨owned.host.observe startedAt, duty, clock⟩,
        [.now (.ok startedAt), .turn startedAt .panicked], .panicked)
  | dutyFails {clock startedAt duty source} : owned.Started clock startedAt →
      Duty.turn owned.duty startedAt = (duty, (.err source : Returned Turn D)) →
      Exit owned (⟨(owned.host.observe startedAt).fail, duty, clock⟩,
        [.now (.ok startedAt), .turn startedAt (.err source)], .err (.duty source))
  | clockPanicsAfter {clock startedAt duty turn clock'} : owned.Started clock startedAt →
      Duty.turn owned.duty startedAt = (duty, (.ok turn : Returned Turn D)) →
      Clock.now clock = (clock', (.panicked : Returned Moment C)) →
      Exit owned (⟨owned.host.observe startedAt, duty, clock'⟩,
        [.now (.ok startedAt), .turn startedAt (.ok turn), .now .panicked], .panicked)
  | refusedAfter {clock startedAt duty turn clock'} {observed : Returned Moment C}
      {returned error} : owned.Started clock startedAt →
      Duty.turn owned.duty startedAt = (duty, (.ok turn : Returned Turn D)) →
      Clock.now clock = (clock', observed) → observed.caught = some returned →
      (owned.host.observe startedAt).Refuses returned error →
      Exit owned (⟨(owned.host.observe startedAt).fail, duty, clock'⟩,
        [.now (.ok startedAt), .turn startedAt (.ok turn), .now observed], .err error)
  | completed {clock startedAt duty turn clock' completedAt} : owned.Started clock startedAt →
      Duty.turn owned.duty startedAt = (duty, (.ok turn : Returned Turn D)) →
      Clock.now clock = (clock', (.ok completedAt : Returned Moment C)) →
      startedAt ≤ completedAt →
      Exit owned (⟨(owned.host.observe startedAt).completed turn completedAt, duty, clock'⟩,
        [.now (.ok startedAt), .turn startedAt (.ok turn), .now (.ok completedAt)],
        .ok ⟨startedAt, completedAt, turn,
          HostAction.forTurn turn completedAt owned.host.config⟩)

theorem caught_eq_ok {α ε : Type} {returned : Returned α ε} {value : α}
    (h : returned.caught = some (.ok value)) : returned = .ok value := by
  cases returned <;> cases h
  rfl

omit [Duty Y D] in
theorem askClock_of {owned : OwnedHost Y K} {clock : K} {observed : Returned Moment C}
    (hnow : Clock.now owned.clock = (clock, observed))
    (piece : Except C Moment → EmbeddedHost × Except (HostError D C) α) :
    owned.askClock piece = match observed.caught with
      | none => ({ owned with clock }, [.now observed], .panicked)
      | some returned => settle { owned with clock } (.now observed) (piece returned) := by
  rw [askClock, hnow]

omit [Clock K C] in
theorem runDuty_of {owned : OwnedHost Y K} {startedAt : Moment} {duty : Y}
    {result : Returned Turn D} (hturn : Duty.turn owned.duty startedAt = (duty, result)) :
    owned.runDuty (C := C) startedAt = match result.caught with
      | none => ({ owned with duty }, [.turn startedAt result], .panicked)
      | some returned =>
        settle { owned with duty } (.turn startedAt result) (owned.host.turned returned) := by
  rw [runDuty, hturn]

/-- Once the first look at the clock is accepted, the duty runs. -/
theorem exit_of_started {owned : OwnedHost Y K} {clock : K} {startedAt : Moment}
    (h : owned.Started clock startedAt) :
    owned.Exit (Exec.andThen
      (⟨owned.host.observe startedAt, owned.duty, clock⟩, [.now (.ok startedAt)], .ok startedAt)
      fun owned startedAt => (owned.runDuty startedAt).andThen fun owned turn =>
        owned.askClock (owned.host.complete startedAt turn)) := by
  rcases hturn : Duty.turn owned.duty startedAt with ⟨duty, result⟩
  have hrun : (⟨owned.host.observe startedAt, owned.duty, clock⟩ : OwnedHost Y K).runDuty (C := C)
      startedAt = _ := runDuty_of hturn
  rw [Exec.andThen, hrun]
  cases result with
  | panicked => exact .dutyPanics h hturn
  | err source => exact .dutyFails h hturn
  | ok turn =>
    rcases hnow : Clock.now clock with ⟨clock', observed⟩
    have hask : (⟨owned.host.observe startedAt, duty, clock⟩ : OwnedHost Y K).askClock
        ((owned.host.observe startedAt).complete (D := D) startedAt turn) = _ := askClock_of hnow _
    cases hcaught : observed.caught with
    | none =>
      cases observed with
      | ok | err => cases hcaught
      | panicked =>
        simp only [Returned.caught, EmbeddedHost.turned, settle, Exec.andThen, hask]
        exact .clockPanicsAfter h hturn hnow
    | some returned =>
      rw [hcaught] at hask
      rcases (owned.host.observe startedAt).complete_cases (D := D) startedAt turn returned with
        ⟨error, hrefuses, hcomplete⟩ | ⟨completedAt, rfl, hseen, hcomplete⟩
      · simp only [hcomplete, settle] at hask
        simp only [Returned.caught, EmbeddedHost.turned, settle, Exec.andThen, hask]
        exact .refusedAfter h hturn hnow hcaught hrefuses
      · obtain rfl := caught_eq_ok hcaught
        simp only [hcomplete, settle] at hask
        simp only [Returned.caught, EmbeddedHost.turned, settle, Exec.andThen, hask]
        exact .completed h hturn hnow (WithBot.coe_le_coe.mp hseen)

/-- Every step ends in one of these ways. -/
theorem step_exit (owned : OwnedHost Y K) : owned.Exit owned.step := by
  rw [step]
  split_ifs with hphase
  · exact .notRunning hphase
  have hrunning := not_not.mp hphase
  rcases hnow : Clock.now owned.clock with ⟨clock, observed⟩
  rw [askClock_of hnow]
  cases hcaught : observed.caught with
  | none =>
    cases observed with
    | ok | err => cases hcaught
    | panicked => exact .clockPanics hrunning hnow
  | some returned =>
    have hstart : owned.host.start (D := D) returned = owned.host.observeNow returned := by
      rw [EmbeddedHost.start, if_neg hphase]
    rcases owned.host.observeNow_cases (D := D) returned with
      ⟨error, hrefuses, hobserve⟩ | ⟨startedAt, rfl, hseen, hobserve⟩
    · simp only [hstart, hobserve, settle]
      exact .refused hrunning hnow hcaught hrefuses
    · obtain rfl := caught_eq_ok hcaught
      simp only [hstart, hobserve, settle]
      exact exit_of_started ⟨hrunning, hnow, hseen⟩

/-! ### What a step does -/

/-- What one step makes of a host with the given policy. -/
structure Lawful (config : HostConfig) (owned owned' : OwnedHost Y K)
    (calls : List (HostCall D C)) (result : Returned HostStep (HostError D C)) : Prop where
  /-- A step that succeeds runs the duty once and accounts for the turn. -/
  ok : ∀ step, result = .ok step →
    calls.filterMap HostCall.startedAt? = [step.startedAt] ∧
    HostCall.turn step.startedAt (.ok step.turn) ∈ calls ∧
    owned'.host.snapshot =
      { phase := if step.action = .stop then .stopped else .running
        turns := owned.host.snapshot.turns.saturatingAdd 1
        work := owned.host.snapshot.work.saturatingAdd step.turn.work
        lastMoment := some step.completedAt
        lastTurn := some step.turn
        lastAction := some step.action }
  /-- A first look at the clock that is refused keeps the duty from running. -/
  before : ∀ observed rest returned error, calls = .now observed :: rest →
    observed.caught = some returned → owned.host.Refuses (D := D) returned error →
    rest = [] ∧ result = .err error ∧ owned'.duty = owned.duty ∧
      owned'.host.snapshot = { owned.host.snapshot with phase := .failed }
  /-- A second look that is refused leaves the turn unrecorded. -/
  after : ∀ first startedAt turn observed returned error,
    calls = [.now first, .turn startedAt (.ok turn), .now observed] →
    observed.caught = some returned →
    (owned.host.observe startedAt).Refuses (D := D) returned error →
    result = .err error ∧ owned'.host.snapshot =
      { owned.host.snapshot with phase := .failed, lastMoment := some startedAt }
  /-- A host that is not running says so, and nothing happens. -/
  terminal : owned.host.phase ≠ .running →
    calls = [] ∧ result = .err (.notRunning owned.host.phase) ∧ owned' = owned
  wait : ∀ step wait, result = .ok step → step.action = .wait wait →
    0 < wait ∧ wait ≤ config.waitCeiling ∧
    ∀ deadline, step.turn.next = .wakeOr deadline →
      ∃ ends, step.completedAt.checkedAdd wait = some ends ∧ ends ≤ deadline

end OwnedHost

theorem EmbeddedHost.Refuses.not_seen {D C : Type} {host : EmbeddedHost} {moment : Moment}
    {error : HostError D C} (h : host.Refuses (.ok moment) error) : ¬host.seen ≤ moment := by
  cases h with
  | regressed hlast hlt =>
    rw [seen, hlast]
    exact not_le.mpr (WithBot.coe_lt_coe.mpr hlt)

theorem EmbeddedHost.Refuses.unique {D C : Type} {host : EmbeddedHost}
    {returned : Except C Moment} {error error' : HostError D C} (h : host.Refuses returned error)
    (h' : host.Refuses returned error') : error = error' := by
  cases h with
  | failed =>
    cases h'
    rfl
  | regressed hlast =>
    cases h' with
    | regressed hlast' =>
      rw [Option.some_inj.mp (hlast.symm.trans hlast')]

/-- A wait that a host selects ends by the deadline and is no longer than the ceiling. -/
theorem HostAction.forTurn_until {turn : Turn} {now : Moment} {config : HostConfig} {wait : Span}
    (h : forTurn turn now config = .wait wait) :
    0 < wait ∧ wait ≤ config.waitCeiling ∧
    ∀ deadline, turn.next = .wakeOr deadline →
      ∃ ends, now.checkedAdd wait = some ends ∧ ends ≤ deadline := by
  obtain ⟨hne, hle⟩ := forTurn_wait h
  refine ⟨Fin.pos_of_ne_zero hne, hle, fun deadline hnext => ?_⟩
  rw [forTurn, hnext] at h
  obtain ⟨ends, hends, hby, -⟩ := forNext_wakeOr h
  exact ⟨ends, hends, hby⟩

namespace OwnedHost

variable {Y K D C : Type} [Duty Y D] [Clock K C]

omit [Duty Y D] in
/-- The first look at the clock was not refused. -/
theorem Started.accepted {owned : OwnedHost Y K} {clock : K} {startedAt : Moment}
    (h : owned.Started clock startedAt) {observed : Returned Moment C} {returned : Except C Moment}
    {error : HostError D C} {rest rest' : List (HostCall D C)}
    (hcalls : HostCall.now (.ok startedAt) :: rest = .now observed :: rest')
    (hcaught : observed.caught = some returned) : ¬owned.host.Refuses returned error := by
  cases hcalls
  cases hcaught
  exact fun hrefuses => hrefuses.not_seen h.seen

omit [Duty Y D] [Clock K C] in
/-- A step that does not return normally has only its refusals to answer for. -/
theorem Lawful.unfinished {config : HostConfig} {owned owned' : OwnedHost Y K}
    {calls : List (HostCall D C)} {result : Returned HostStep (HostError D C)}
    (hresult : ∀ step, result ≠ .ok step)
    (hbefore : ∀ observed rest returned error, calls = .now observed :: rest →
      observed.caught = some returned → owned.host.Refuses (D := D) returned error →
      rest = [] ∧ result = .err error ∧ owned'.duty = owned.duty ∧
        owned'.host.snapshot = { owned.host.snapshot with phase := .failed })
    (hafter : ∀ first startedAt turn observed returned error,
      calls = [.now first, .turn startedAt (.ok turn), .now observed] →
      observed.caught = some returned →
      (owned.host.observe startedAt).Refuses (D := D) returned error →
      result = .err error ∧ owned'.host.snapshot =
        { owned.host.snapshot with phase := .failed, lastMoment := some startedAt })
    (hterminal : owned.host.phase ≠ .running →
      calls = [] ∧ result = .err (.notRunning owned.host.phase) ∧ owned' = owned) :
    owned.Lawful config owned' calls result :=
  ⟨fun step hok => absurd hok (hresult step), hbefore, hafter, hterminal,
    fun step _ hok => absurd hok (hresult step)⟩

theorem Exit.lawful {owned owned' : OwnedHost Y K} {calls : List (HostCall D C)}
    {result : Returned HostStep (HostError D C)} (h : owned.Exit (owned', calls, result)) :
    owned.Lawful owned.host.config owned' calls result := by
  -- one case per way out of `step`; only the last one completes a turn
  cases h with
  | notRunning hphase =>
    refine .unfinished nofun ?_ ?_ fun _ => ⟨rfl, rfl, rfl⟩
    · intro _ _ _ _ hcalls
      cases hcalls
    · intro _ _ _ _ _ _ hcalls
      cases hcalls
  | clockPanics hrunning hnow =>
    refine .unfinished nofun ?_ ?_ fun hphase => absurd hrunning hphase
    · intro observed rest returned error hcalls hcaught
      cases hcalls
      cases hcaught
    · intro _ _ _ _ _ _ hcalls
      cases hcalls
  | refused hrunning hnow hcaught hrefuses =>
    refine .unfinished nofun ?_ ?_ fun hphase => absurd hrunning hphase
    · intro observed rest returned error hcalls hcaught' hrefuses'
      cases hcalls
      cases hcaught.symm.trans hcaught'
      rw [hrefuses.unique hrefuses']
      exact ⟨rfl, rfl, rfl, rfl⟩
    · intro _ _ _ _ _ _ hcalls
      cases hcalls
  | dutyPanics hstarted hturn | dutyFails hstarted hturn =>
    refine .unfinished nofun ?_ ?_ fun hphase => absurd hstarted.running hphase
    · intro _ _ _ _ hcalls hcaught hrefuses
      exact absurd hrefuses (hstarted.accepted hcalls hcaught)
    · intro _ _ _ _ _ _ hcalls
      cases hcalls
  | clockPanicsAfter hstarted hturn hnow =>
    refine .unfinished nofun ?_ ?_ fun hphase => absurd hstarted.running hphase
    · intro _ _ _ _ hcalls hcaught hrefuses
      exact absurd hrefuses (hstarted.accepted hcalls hcaught)
    · intro first startedAt turn observed returned error hcalls hcaught
      cases hcalls
      cases hcaught
  | refusedAfter hstarted hturn hnow hcaught hrefuses =>
    refine .unfinished nofun ?_ ?_ fun hphase => absurd hstarted.running hphase
    · intro _ _ _ _ hcalls hcaught hrefuses
      exact absurd hrefuses (hstarted.accepted hcalls hcaught)
    · intro first startedAt turn observed returned error hcalls hcaught' hrefuses'
      cases hcalls
      cases hcaught.symm.trans hcaught'
      rw [hrefuses.unique hrefuses']
      exact ⟨rfl, rfl⟩
  | @completed _ startedAt _ _ _ _ hstarted hturn hnow hle =>
    refine ⟨?_, ?_, ?_, fun hphase => absurd hstarted.running hphase, ?_⟩
    · rintro step hstep
      cases hstep
      refine ⟨rfl, by simp, ?_⟩
      have hrunning : (owned.host.observe startedAt).phase = .running := hstarted.running
      simp only [EmbeddedHost.completed, HostAction.forTurn_eq_stop, hrunning]
      rfl
    · intro _ _ _ _ hcalls hcaught hrefuses
      exact absurd hrefuses (hstarted.accepted hcalls hcaught)
    · intro first startedAt turn observed returned error hcalls hcaught hrefuses
      cases hcalls
      cases hcaught
      -- the second reading was taken, so nothing refuses it
      exact absurd (WithBot.coe_le_coe.mpr hle) hrefuses.not_seen
    · intro step wait hstep hwait
      cases hstep
      exact HostAction.forTurn_until hwait

/-! ### Sequences of steps -/

/-- What the embedding caller does, and what comes of it. -/
inductive HostOp (D C : Type)
  | step (calls : List (HostCall D C)) (result : Returned HostStep (HostError D C))
  | dutyMut
  | clockMut

/-- The moments passed to the duty, then the moment at which the step was completed. -/
def HostOp.moments : HostOp D C → List Moment
  | .step calls (.ok done) => calls.filterMap HostCall.startedAt? ++ [done.completedAt]
  | .step calls _ => calls.filterMap HostCall.startedAt?
  | .dutyMut | .clockMut => []

/-- The phase in which an error or a selected stop leaves the host. -/
def HostOp.ending : HostOp D C → Option HostPhase
  | .step _ (.ok done) => if done.action = .stop then some .stopped else none
  | .step _ (.err _) => some .failed
  | .step _ .panicked | .dutyMut | .clockMut => none

inductive Next (owned : OwnedHost Y K) : HostOp D C → OwnedHost Y K → Prop
  | step : Next owned (.step owned.step.2.1 owned.step.2.2) owned.step.1
  | dutyMut (duty : Y) : Next owned .dutyMut { owned with duty }
  | clockMut (clock : K) : Next owned .clockMut { owned with clock }

/-- A host in the hands of its caller. -/
def system (Y K D C : Type) [Duty Y D] [Clock K C] (config : HostConfig) :
    TransitionSystem (OwnedHost Y K) (HostOp D C) where
  init owned := owned.host = .new config
  step := Next

omit [Duty Y D] [Clock K C] in
theorem HostOp.ending_ne_running (op : HostOp D C) : op.ending ≠ some .running := by
  rcases op with ⟨calls, done | error | _⟩ | _ | _
  · rw [ending]
    split_ifs <;> simp
  all_goals simp [ending]

theorem Exit.config {owned owned' : OwnedHost Y K} {calls : List (HostCall D C)}
    {result : Returned HostStep (HostError D C)} (h : owned.Exit (owned', calls, result)) :
    owned'.host.config = owned.host.config := by
  cases h <;> rfl

/-- The phase changes only from `Running`, and only by an ending. -/
theorem Exit.phase {owned owned' : OwnedHost Y K} {calls : List (HostCall D C)}
    {result : Returned HostStep (HostError D C)} (h : owned.Exit (owned', calls, result)) :
    owned'.host.phase = if owned.host.phase = .running
      then (HostOp.ending (.step calls result)).getD .running else owned.host.phase := by
  cases h with
  | notRunning hphase => rw [if_neg hphase]
  | clockPanics hrunning =>
    rw [if_pos hrunning]
    exact hrunning
  | refused hrunning =>
    rw [if_pos hrunning]
    rfl
  | dutyPanics hstarted | clockPanicsAfter hstarted =>
    rw [if_pos hstarted.running]
    exact hstarted.running
  | dutyFails hstarted | refusedAfter hstarted =>
    rw [if_pos hstarted.running]
    rfl
  | completed hstarted =>
    have hrunning := hstarted.running
    rw [if_pos hrunning]
    simp only [HostOp.ending, HostAction.forTurn_eq_stop]
    show (if _ then _ else owned.host.phase) = _
    split_ifs
    · rfl
    · exact hrunning

/-- The moments of a step go up, from the latest observation to the next one. -/
theorem Exit.moments {owned owned' : OwnedHost Y K} {calls : List (HostCall D C)}
    {result : Returned HostStep (HostError D C)} (h : owned.Exit (owned', calls, result)) :
    (HostOp.moments (.step calls result)).Pairwise (· ≤ ·) ∧
    (∀ moment ∈ HostOp.moments (.step calls result),
      owned.host.seen ≤ moment ∧ (moment : WithBot Moment) ≤ owned'.host.seen) ∧
    owned.host.seen ≤ owned'.host.seen := by
  cases h with
  | notRunning | clockPanics | refused => exact ⟨.nil, nofun, le_rfl⟩
  | @dutyPanics _ startedAt _ hstarted | @dutyFails _ startedAt _ _ hstarted
  | @clockPanicsAfter _ startedAt _ _ _ hstarted | @refusedAfter _ startedAt _ _ _ _ _ _ hstarted =>
    refine ⟨List.pairwise_singleton _ _, fun moment hmoment => ?_, hstarted.seen⟩
    obtain rfl : moment = startedAt := List.mem_singleton.mp hmoment
    exact ⟨hstarted.seen, le_rfl⟩
  | @completed _ startedAt _ _ _ completedAt hstarted _ _ hle =>
    have hcompleted : (startedAt : WithBot Moment) ≤ completedAt := WithBot.coe_le_coe.mpr hle
    refine ⟨List.pairwise_pair.mpr hle, fun moment hmoment => ?_, hstarted.seen.trans hcompleted⟩
    rcases List.mem_pair.mp hmoment with rfl | rfl
    · exact ⟨hstarted.seen, hcompleted⟩
    · exact ⟨hstarted.seen.trans hcompleted, le_rfl⟩

section

variable {config : HostConfig} {tr : List (HostOp D C)} {owned : OwnedHost Y K}

/-- Time has gone up, and has not passed the latest observation. -/
theorem run_moments (h : (system Y K D C config).Run tr owned) :
    (tr.flatMap HostOp.moments).Pairwise (· ≤ ·) ∧
    ∀ moment ∈ tr.flatMap HostOp.moments, (moment : WithBot Moment) ≤ owned.host.seen := by
  refine h.invariant (I := fun tr owned => (tr.flatMap HostOp.moments).Pairwise (· ≤ ·) ∧
    ∀ moment ∈ tr.flatMap HostOp.moments, (moment : WithBot Moment) ≤ owned.host.seen)
    (fun _ => ⟨.nil, nofun⟩) ?_
  intro tr owned op owned' _ ih hnext
  rw [List.flatMap_append, List.flatMap_singleton]
  cases hnext with
  | dutyMut | clockMut =>
    rw [HostOp.moments, List.append_nil]
    exact ih
  | step =>
    obtain ⟨hordered, hbetween, hseen⟩ := owned.step_exit.moments
    refine ⟨List.pairwise_append.mpr ⟨ih.1, hordered, fun earlier hearlier moment hmoment => ?_⟩,
      fun moment hmoment => ?_⟩
    · exact WithBot.coe_le_coe.mp ((ih.2 earlier hearlier).trans (hbetween moment hmoment).1)
    · rcases List.mem_append.mp hmoment with hearlier | hmoment
      · exact (ih.2 moment hearlier).trans hseen
      · exact (hbetween moment hmoment).2

/-- The phase is that of the first ending. -/
theorem run_phase (h : (system Y K D C config).Run tr owned) :
    owned.host.config = config ∧
    owned.host.phase = (tr.findSome? HostOp.ending).getD .running := by
  refine h.invariant (I := fun tr owned => owned.host.config = config ∧
    owned.host.phase = (tr.findSome? HostOp.ending).getD .running) ?_ ?_
  · intro owned hinit
    have hnew : owned.host = .new config := hinit
    rw [hnew]
    exact ⟨rfl, rfl⟩
  · rintro tr owned op owned' - ⟨hconfig, hphase⟩ hnext
    rw [List.findSome?_append, List.findSome?_singleton]
    cases hnext with
    | dutyMut | clockMut =>
      rw [HostOp.ending, Option.or_none]
      exact ⟨hconfig, hphase⟩
    | step =>
      refine ⟨owned.step_exit.config.trans hconfig, owned.step_exit.phase.trans ?_⟩
      cases hfirst : tr.findSome? HostOp.ending with
      | none =>
        rw [hfirst] at hphase
        exact if_pos hphase
      | some phase =>
        rw [hfirst] at hphase
        obtain ⟨op, -, hop⟩ := List.exists_of_findSome?_eq_some hfirst
        have hphase_ne : phase ≠ .running := fun heq => op.ending_ne_running (heq ▸ hop)
        rw [hphase]
        exact if_neg hphase_ne

/-- **The life of an embedded host**, for every duty, every clock and every sequence
of steps: time goes up, the host ends at the first error or selected stop and at
nothing else, and the next step is lawful. -/
theorem host_lifecycle (h : (system Y K D C config).Run tr owned) :
    (tr.flatMap HostOp.moments).Pairwise (· ≤ ·) ∧
    owned.host.phase = (tr.findSome? HostOp.ending).getD .running ∧
    owned.Lawful config owned.step.1 owned.step.2.1 owned.step.2.2 := by
  obtain ⟨rfl, hphase⟩ := run_phase h
  exact ⟨(run_moments h).1, hphase, owned.step_exit.lawful⟩

end

/-- A clock that reads off a script and fails at its end. -/
instance scriptClock : Clock (List Moment) Unit where
  now
    | [] => ([], .err ())
    | moment :: rest => (rest, .ok moment)

/-- A duty that waits until moment 9. -/
instance waitingDuty : Duty Unit Unit where
  turn duty _ := (duty, .ok ⟨2, .wakeOr 9⟩)

/-- The first step waits; in the second the clock goes back behind the turn. -/
theorem host_lifecycle_regressed :
    ∃ owned : OwnedHost Unit (List Moment),
      (HostOp.moments (D := Unit) (C := Unit) (.step
        [.now (.ok 3), .turn 3 (.ok ⟨2, .wakeOr 9⟩), .now (.ok 5)]
        (.ok ⟨3, 5, ⟨2, .wakeOr 9⟩, .wait 4⟩)) ++ [6]).Pairwise (· ≤ ·) ∧
      owned.host.phase = .failed ∧ owned.host.snapshot.turns = 1 ∧
      owned.step.2.1 = [] ∧ owned.step.2.2 = .err (.notRunning .failed) := by
  let config : HostConfig := ⟨7⟩
  let waited : EmbeddedHost :=
    ⟨config, ⟨.running, 1, 2, some 5, some ⟨2, .wakeOr 9⟩, some (.wait 4)⟩⟩
  let failed : EmbeddedHost :=
    ⟨config, ⟨.failed, 1, 2, some 6, some ⟨2, .wakeOr 9⟩, some (.wait 4)⟩⟩
  let s₀ : OwnedHost Unit (List Moment) := ⟨.new config, (), [3, 5, 6, 4]⟩
  let s₁ : OwnedHost Unit (List Moment) := ⟨waited, (), [6, 4]⟩
  let s₂ : OwnedHost Unit (List Moment) := ⟨failed, (), []⟩
  have h1 : s₀.Next (.step [.now (.ok 3), .turn 3 (.ok ⟨2, .wakeOr 9⟩), .now (.ok 5)]
      (.ok ⟨3, 5, ⟨2, .wakeOr 9⟩, .wait 4⟩)) s₁ := .step
  have h2 : s₁.Next (.step [.now (.ok 6), .turn 6 (.ok ⟨2, .wakeOr 9⟩), .now (.ok 4)]
      (.err (.clockRegressed 6 4))) s₂ := .step
  have hrun : (system Unit (List Moment) Unit Unit config).Run _ s₂ :=
    ((TransitionSystem.Run.start (show s₀.host = .new config from rfl)).next h1).next h2
  obtain ⟨hmoments, hphase, hlawful⟩ := host_lifecycle hrun
  obtain ⟨hcalls, hresult, -⟩ := hlawful.terminal (by rw [hphase]; decide)
  exact ⟨s₂, hmoments, hphase, rfl, hcalls, hresult⟩

end OwnedHost

end Calandria
