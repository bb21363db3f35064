/-
The reactor: the bounded run loop of one owner, and the requests that end it.

A step of the owner is one look at the control phase, one call into the clock,
the duty or the waiter, or one exit.  What those calls return is arbitrary, and
each of them may unwind; then the owner's half of the control is dropped, which
finishes it.  A request publishes under the control's lock and wakes afterwards.

* `Member` — one owner: its control phase, host, diagnostics and place;
* `Member.Tracked`, `Member.WF` — what the place says of the control phase, and of
  the host;
* `Step.spends` — after a publication at most one bounded operation begins;
* `Reactor.termination_linearized` — what this says of every interleaving.
-/
import Calandria.Host
import Calandria.TransitionSystem

namespace Calandria

/-- Failure that terminally ended one reactor loop; `W` is the waiter's error. -/
inductive ReactorFailure (D C W : Type)
  | host (source : HostError D C)
  | wait (source : W)
  deriving DecidableEq

/-- Terminal reason published by one reactor owner. -/
inductive ReactorOutcome (D C W : Type)
  | stopped
  | terminated
  | failed (failure : ReactorFailure D C W)
  deriving DecidableEq

/-- Lifecycle state observed by one termination request. -/
inductive ReactorTerminationStatus
  | requested
  | alreadyRequested
  | exited
  deriving DecidableEq

/-- Result of one reactor termination request; `E` is the wake's error. -/
structure ReactorTermination (E : Type) where
  status : ReactorTerminationStatus
  wakeError : Option E

/-- Saturating observations for one reactor's waiting loop. -/
structure ReactorSnapshot where
  waits : U64
  notifications : U64
  idleReturns : U64
  deriving DecidableEq

namespace ReactorSnapshot

def default : ReactorSnapshot := ⟨0, 0, 0⟩

def record (snapshot : ReactorSnapshot) (outcome : WaitOutcome) : ReactorSnapshot :=
  let snapshot := { snapshot with waits := snapshot.waits.saturatingAdd 1 }
  match outcome with
  | .notified => { snapshot with notifications := snapshot.notifications.saturatingAdd 1 }
  | .idle => { snapshot with idleReturns := snapshot.idleReturns.saturatingAdd 1 }

end ReactorSnapshot

namespace Reactor

/-! ### The control phase -/

inductive Phase
  | running
  | terminationRequested
  | exited
  deriving DecidableEq

/-- What a request publishes, and whether it carries the wake handle. -/
structure PublishedTermination where
  status : ReactorTerminationStatus
  wake : Bool
  deriving DecidableEq

def publishTermination : Phase → Phase × PublishedTermination
  | .running => (.terminationRequested, ⟨.requested, true⟩)
  | .terminationRequested => (.terminationRequested, ⟨.alreadyRequested, false⟩)
  | .exited => (.exited, ⟨.exited, false⟩)

/-- `complete`, given what the wake would return. -/
def PublishedTermination.complete {E : Type} (published : PublishedTermination)
    (woken : Except E Unit) : ReactorTermination E :=
  ⟨published.status,
    match published.wake, woken with
    | true, .error source => some source
    | _, _ => none⟩

def terminationRequested (phase : Phase) : Bool := phase = .terminationRequested

/-- The phase after `finish`, and whether termination had been requested. -/
def finish (phase : Phase) : Phase × Bool := (.exited, terminationRequested phase)

@[simp] theorem finish_fst (phase : Phase) : (finish phase).1 = .exited := rfl

theorem publishTermination_ne_running (phase : Phase) :
    (publishTermination phase).1 ≠ .running := by
  cases phase <;> exact nofun

/-! ### The owner -/

variable {D C W E : Type}

/-- Where the owner is. -/
inductive OwnerPc (D C W : Type)
  /-- At the head of the loop. -/
  | checking
  /-- Has seen a request at the head of the loop. -/
  | terminating
  | stepping
  /-- About to call the duty. -/
  | turning (startedAt : Moment)
  | inTurn (startedAt : Moment)
  | completing (startedAt : Moment) (turn : Turn)
  /-- The step has selected to stop. -/
  | stopping
  /-- The step has selected to wait. -/
  | rechecking (maximum : Span)
  | waiting (maximum : Span)
  | inWait
  | failing (failure : ReactorFailure D C W)
  /-- The loop has returned; `ReactorControlOwner` is about to be dropped. -/
  | exited (outcome : ReactorOutcome D C W)
  | unwinding
  /-- The thread is done with its reactor; it has no outcome if it unwound. -/
  | dropped (outcome : Option (ReactorOutcome D C W))
  deriving DecidableEq

namespace OwnerPc

/-- Where a completed step leads. -/
def select : HostAction → OwnerPc D C W
  | .continue => .checking
  | .stop => .stopping
  | .wait maximum => .rechecking maximum

/-- Consumer code runs here, and may unwind. -/
def calling : OwnerPc D C W → Bool
  | .stepping | .inTurn _ | .completing _ _ | .inWait => true
  | _ => false

/-- The loop has returned, or its control has been dropped. -/
def finished : OwnerPc D C W → Bool
  | .exited _ | .dropped _ => true
  | _ => false

/-- The outcome with which the loop has returned. -/
def outcome : OwnerPc D C W → Option (ReactorOutcome D C W)
  | .exited outcome => some outcome
  | .dropped outcome => outcome
  | _ => none

end OwnerPc

theorem OwnerPc.finished_of_outcome {pc : OwnerPc D C W} {outcome : ReactorOutcome D C W}
    (h : pc.outcome = some outcome) : pc.finished = true := by
  cases pc with
  | exited | dropped => rfl
  | _ => cases h

/-- One owner, and the control that it shares. -/
structure Member (D C W : Type) where
  control : Phase
  host : EmbeddedHost
  snapshot : ReactorSnapshot
  pc : OwnerPc D C W

/-- What a step of the owner shows. -/
inductive Event (D C W : Type)
  | check (requested : Bool)
  | start (observed : Except C Moment)
  | beginTurn (startedAt : Moment)
  | endTurn (result : Except D Turn)
  | complete (observed : Except C Moment)
  | beginWait (maximum : Span)
  | endWait (result : Except W WaitOutcome)
  | panic
  | finish
  | drop

/-- A bounded operation begins: a duty turn or a wait. -/
def Event.begins : Event D C W → Bool
  | .beginTurn _ | .beginWait _ => true
  | _ => false

namespace Member

/-- The reactor as it is run. -/
def new (host : EmbeddedHost) : Member D C W := ⟨.running, host, .default, .checking⟩

/-- The owner's half of the control is dropped. -/
def drop (m : Member D C W) (outcome : Option (ReactorOutcome D C W)) : Member D C W :=
  { m with control := (finish m.control).1, pc := .dropped outcome }

/-- One step of the run loop. -/
inductive Step (m : Member D C W) : Event D C W → Member D C W → Prop
  | check : m.pc = .checking →
      Step m (.check (terminationRequested m.control))
        { m with pc := if terminationRequested m.control then .terminating else .stepping }
  | terminate : m.pc = .terminating →
      Step m .finish { m with
        control := (finish m.control).1
        host := m.host.terminate
        pc := .exited .terminated }
  | start {observed host startedAt} : m.pc = .stepping →
      m.host.start (D := D) observed = (host, .ok startedAt) →
      Step m (.start observed) { m with host, pc := .turning startedAt }
  | startFails {observed host error} : m.pc = .stepping →
      m.host.start observed = (host, .error error) →
      Step m (.start observed) { m with host, pc := .failing (.host error) }
  | beginTurn {startedAt} : m.pc = .turning startedAt →
      Step m (.beginTurn startedAt) { m with pc := .inTurn startedAt }
  | endTurn {startedAt result host turn} : m.pc = .inTurn startedAt →
      m.host.turned (C := C) result = (host, .ok turn) →
      Step m (.endTurn result) { m with host, pc := .completing startedAt turn }
  | turnFails {startedAt result host error} : m.pc = .inTurn startedAt →
      m.host.turned result = (host, .error error) →
      Step m (.endTurn result) { m with host, pc := .failing (.host error) }
  | complete {startedAt turn observed host step} : m.pc = .completing startedAt turn →
      m.host.complete (D := D) startedAt turn observed = (host, .ok step) →
      Step m (.complete observed) { m with host, pc := .select step.action }
  | completeFails {startedAt turn observed host error} : m.pc = .completing startedAt turn →
      m.host.complete startedAt turn observed = (host, .error error) →
      Step m (.complete observed) { m with host, pc := .failing (.host error) }
  /-- A request that has come in by now overrides the stop. -/
  | stop : m.pc = .stopping →
      Step m .finish { m with
        control := (finish m.control).1
        host := if (finish m.control).2 then m.host.terminate else m.host
        pc := .exited (if (finish m.control).2 then .terminated else .stopped) }
  | recheck {maximum} : m.pc = .rechecking maximum →
      Step m (.check (terminationRequested m.control))
        { m with pc := if terminationRequested m.control then .checking else .waiting maximum }
  | beginWait {maximum} : m.pc = .waiting maximum →
      Step m (.beginWait maximum) { m with pc := .inWait }
  | endWait {outcome} : m.pc = .inWait →
      Step m (.endWait (.ok outcome))
        { m with snapshot := m.snapshot.record outcome, pc := .checking }
  | waitFails {source} : m.pc = .inWait →
      Step m (.endWait (.error source))
        { m with host := m.host.fail, pc := .failing (.wait source) }
  | fail {failure} : m.pc = .failing failure →
      Step m .finish { m with control := (finish m.control).1, pc := .exited (.failed failure) }
  | panic : m.pc.calling = true → Step m .panic { m with pc := .unwinding }
  | drop {outcome} : m.pc = .exited outcome → Step m .drop (m.drop (some outcome))
  | dropUnwound : m.pc = .unwinding → Step m .drop (m.drop none)

/-- A request publishes. -/
def publish (m : Member D C W) : Member D C W :=
  { m with control := (publishTermination m.control).1 }

end Member

/-! ### What the owner's place says -/

/-- The host's phase that goes with an outcome. -/
def outcomePhase : ReactorOutcome D C W → HostPhase
  | .stopped => .stopped
  | .terminated => .terminated
  | .failed _ => .failed

/-- The phase that the host has at each place; after a panic it may be any. -/
def OwnerPc.hostPhase : OwnerPc D C W → Option HostPhase
  | .stopping => some .stopped
  | .failing _ => some .failed
  | .exited outcome => some (outcomePhase outcome)
  | .dropped outcome => outcome.map outcomePhase
  | .unwinding => none
  | _ => some .running

/-- The owner finishes its control when the loop returns and not before. -/
structure Member.Tracked (m : Member D C W) : Prop where
  finished : m.pc.finished = true ↔ m.control = .exited
  terminating : m.pc = .terminating → m.control = .terminationRequested

/-- Moreover the host is in the phase that the owner's place asks for. -/
structure Member.WF (m : Member D C W) : Prop extends m.Tracked where
  phase : ∀ phase, m.pc.hostPhase = some phase → m.host.phase = phase

theorem OwnerPc.not_finished_of_calling {pc : OwnerPc D C W} (h : pc.calling = true) :
    pc.finished = false := by
  cases pc with
  | exited | dropped => cases h
  | _ => rfl

namespace Member

variable {m m' : Member D C W} {event : Event D C W}

theorem new_tracked (host : EmbeddedHost) : (new host : Member D C W).Tracked :=
  ⟨⟨nofun, nofun⟩, nofun⟩

theorem new_wf {host : EmbeddedHost} (h : host.phase = .running) :
    (new host : Member D C W).WF :=
  ⟨new_tracked host, fun _ hphase => h.trans (Option.some_inj.mp hphase)⟩

theorem Tracked.publish (h : m.Tracked) : m.publish.Tracked := by
  refine ⟨h.finished.trans ?_, fun hpc => ?_⟩
  · show _ ↔ (publishTermination m.control).1 = _
    cases m.control <;> simp [publishTermination]
  · show (publishTermination m.control).1 = _
    rw [h.terminating hpc]
    rfl

/-- A step inside the loop that leaves the control alone. -/
theorem Tracked.move (h : m.Tracked) {host : EmbeddedHost} {snapshot : ReactorSnapshot}
    {pc : OwnerPc D C W} (hpc : m.pc.finished = false) (hpc' : pc.finished = false)
    (hterm : pc = .terminating → m.control = .terminationRequested) :
    Tracked ⟨m.control, host, snapshot, pc⟩ := by
  refine ⟨?_, hterm⟩
  show pc.finished = true ↔ m.control = .exited
  rw [← h.finished, hpc, hpc']

theorem Tracked.next (h : m.Tracked) (hstep : Step m event m') : m'.Tracked := by
  cases hstep with
  | check hpc =>
    split_ifs with hrequested
    · exact h.move (by rw [hpc]; rfl) rfl fun _ => of_decide_eq_true hrequested
    · exact h.move (by rw [hpc]; rfl) rfl nofun
  | recheck hpc =>
    split_ifs <;> exact h.move (by rw [hpc]; rfl) rfl nofun
  | @complete _ _ _ _ step hpc =>
    cases haction : step.action <;> exact h.move (by rw [hpc]; rfl) rfl nofun
  | panic hcalling => exact h.move (OwnerPc.not_finished_of_calling hcalling) rfl nofun
  | terminate | stop | fail | drop | dropUnwound =>
    exact ⟨⟨fun _ => rfl, fun _ => rfl⟩, nofun⟩
  | start hpc | startFails hpc | beginTurn hpc | endTurn hpc | turnFails hpc | completeFails hpc
  | beginWait hpc | endWait hpc | waitFails hpc =>
    exact h.move (by rw [hpc]; rfl) rfl nofun

/-- At its two looks at the flag the owner sees a publication. -/
theorem Tracked.sees (h : m.Tracked) (hpc : m.pc.finished = false)
    (hpublished : m.control ≠ .running) : terminationRequested m.control = true := by
  cases hcontrol : m.control with
  | running => exact absurd hcontrol hpublished
  | terminationRequested => rfl
  | exited =>
    rw [h.finished.mpr hcontrol] at hpc
    cases hpc

/-- The host has the phase of its place after a step as well. -/
theorem WF.phase_next (h : m.WF) (hstep : Step m event m') {phase : HostPhase}
    (hphase : m'.pc.hostPhase = some phase) : m'.host.phase = phase := by
  have hrunning : m.pc.hostPhase = some .running → m.host.phase = .running := h.phase _
  -- each program counter knows the phase of the host, which its next call keeps or ends
  cases hstep with
  | check hpc | recheck hpc =>
    rw [hpc] at hrunning
    split_ifs at hphase <;> exact (hrunning rfl).trans (Option.some_inj.mp hphase)
  | terminate | waitFails => exact Option.some_inj.mp hphase
  | start hpc hstart =>
    rw [hpc] at hrunning
    have hsame : _ = m.host.phase := EmbeddedHost.start_follows (hrunning rfl) hstart
    exact (hsame.trans (hrunning rfl)).trans (Option.some_inj.mp hphase)
  | startFails hpc hstart =>
    rw [hpc] at hrunning
    have hfailed : _ = HostPhase.failed := EmbeddedHost.start_follows (hrunning rfl) hstart
    exact hfailed.trans (Option.some_inj.mp hphase)
  | endTurn hpc hturned =>
    rw [hpc] at hrunning
    have hsame : _ = m.host.phase := EmbeddedHost.turned_follows hturned
    exact (hsame.trans (hrunning rfl)).trans (Option.some_inj.mp hphase)
  | turnFails hpc hturned =>
    have hfailed : _ = HostPhase.failed := EmbeddedHost.turned_follows hturned
    exact hfailed.trans (Option.some_inj.mp hphase)
  | @complete _ _ _ _ step hpc hcomplete =>
    rw [hpc] at hrunning
    have hafter := EmbeddedHost.complete_phase (hrunning rfl) hcomplete
    cases haction : step.action with
    | «continue» | wait maximum | stop =>
      rw [haction] at hafter hphase
      exact hafter.trans (Option.some_inj.mp hphase)
  | completeFails hpc hcomplete =>
    exact (EmbeddedHost.complete_failed hcomplete).trans (Option.some_inj.mp hphase)
  | stop hpc =>
    have hstopped := h.phase .stopped (by rw [hpc]; rfl)
    split_ifs at hphase ⊢
    · exact Option.some_inj.mp hphase
    · exact hstopped.trans (Option.some_inj.mp hphase)
  | fail hpc => exact (h.phase .failed (by rw [hpc]; rfl)).trans (Option.some_inj.mp hphase)
  | panic | dropUnwound => cases hphase
  | drop hpc =>
    refine h.phase _ ?_
    rw [hpc]
    exact hphase
  | beginTurn hpc | beginWait hpc | endWait hpc =>
    rw [hpc] at hrunning
    exact (hrunning rfl).trans (Option.some_inj.mp hphase)

theorem WF.next (h : m.WF) (hstep : Step m event m') : m'.WF :=
  ⟨h.toTracked.next hstep, fun _ => h.phase_next hstep⟩

/-! ### What one step can do -/

/-- The owner only ever finishes the control. -/
theorem Step.control (hstep : Step m event m') :
    m'.control = m.control ∨ m'.control = .exited := by
  cases hstep with
  | terminate | stop | fail | drop | dropUnwound => exact .inr rfl
  | _ => exact .inl rfl

/-- How a step gives the run its outcome. -/
inductive Concludes (m m' : Member D C W) : Prop
  | same : m'.pc.outcome = m.pc.outcome → Concludes m m'
  | stopped : m.control = .running → m'.pc.outcome = some .stopped → Concludes m m'
  | terminated : m.control = .terminationRequested → m'.pc.outcome = some .terminated →
      Concludes m m'
  | failed {failure} : m'.pc.outcome = some (.failed failure) → Concludes m m'

theorem Step.concludes (hstep : Step m event m') (htracked : m.Tracked) : Concludes m m' := by
  cases hstep with
  | terminate hpc => exact .terminated (htracked.terminating hpc) rfl
  | fail => exact .failed rfl
  | stop hpc =>
    by_cases hrunning : m.control = .running
    · refine .stopped hrunning ?_
      rw [hrunning]
      rfl
    · have hseen := htracked.sees (by rw [hpc]; rfl) hrunning
      refine .terminated (of_decide_eq_true hseen) ?_
      rw [show (finish m.control).2 = true from hseen]
      rfl
  | check hpc | recheck hpc =>
    refine .same ?_
    rw [hpc]
    split_ifs <;> rfl
  | @complete _ _ _ _ step hpc =>
    refine .same ?_
    rw [hpc]
    cases haction : step.action <;> rfl
  | panic hcalling =>
    refine .same ?_
    have hfinished := OwnerPc.not_finished_of_calling hcalling
    cases houtcome : m.pc.outcome with
    | none => rfl
    | some outcome =>
      rw [OwnerPc.finished_of_outcome houtcome] at hfinished
      cases hfinished
  | start hpc | startFails hpc | beginTurn hpc | endTurn hpc | turnFails hpc | completeFails hpc
  | beginWait hpc | endWait hpc | waitFails hpc | drop hpc | dropUnwound hpc =>
    refine .same ?_
    rw [hpc]
    rfl

end Member

/-! ### What may still begin -/

/-- The operations that may still begin once termination has been requested. -/
def OwnerPc.allowance : OwnerPc D C W → ℕ
  | .stepping | .turning _ | .waiting _ => 1
  | _ => 0

theorem OwnerPc.allowance_le_one (pc : OwnerPc D C W) : pc.allowance ≤ 1 := by
  cases pc <;> simp [allowance]

/-- One for the begin of a bounded operation. -/
def Event.cost (event : Event D C W) : ℕ := if event.begins then 1 else 0

/-- **After a publication at most one bounded operation begins.** -/
theorem Member.Step.spends {m m' : Member D C W} {event : Event D C W}
    (hstep : Member.Step m event m') (htracked : m.Tracked) (hpublished : m.control ≠ .running) :
    event.cost + m'.pc.allowance ≤ m.pc.allowance := by
  cases hstep with
  | check hpc | recheck hpc =>
    rw [if_pos (htracked.sees (by rw [hpc]; rfl) hpublished), hpc]
    exact Nat.le_refl _
  | @complete _ _ _ _ step hpc =>
    rw [hpc]
    cases haction : step.action <;> exact Nat.le_refl _
  | panic hcalling => exact Nat.zero_le _
  | start hpc | startFails hpc | beginTurn hpc | endTurn hpc | turnFails hpc | completeFails hpc
  | beginWait hpc | endWait hpc | waitFails hpc | drop hpc | dropUnwound hpc | terminate hpc
  | stop hpc | fail hpc =>
    rw [hpc]
    simp [Event.cost, Event.begins, OwnerPc.allowance, Member.drop]

/-! ### Requests -/

/-- Where a call of `request_termination` is. -/
inductive RequestPc (E : Type)
  | published (publication : PublishedTermination)
  | returned (termination : ReactorTermination E)
  /-- The wake has panicked. -/
  | panicked (status : ReactorTerminationStatus)

/-- The status that a call reports. -/
def RequestPc.status : RequestPc E → ReactorTerminationStatus
  | .published publication => publication.status
  | .returned termination => termination.status
  | .panicked status => status

/-- One reactor, and the calls by their numbers. -/
structure State (D C W E : Type) where
  member : Member D C W
  requests : ℕ → Option (RequestPc E)

inductive RequestEvent (E : Type)
  | publish (publication : PublishedTermination)
  | complete (termination : ReactorTermination E)
  | panic

inductive Label (D C W E : Type)
  | owner (event : Event D C W)
  | request (request : ℕ) (event : RequestEvent E)

/-- What the step of a label begins. -/
def Label.cost : Label D C W E → ℕ
  | .owner event => event.cost
  | .request _ _ => 0

namespace State

def status (s : State D C W E) (i : ℕ) : Option ReactorTerminationStatus :=
  (s.requests i).map RequestPc.status

def move (s : State D C W E) (i : ℕ) (pc : RequestPc E) : State D C W E :=
  { s with requests := Function.update s.requests i (some pc) }

end State

/-- One step of the owner or of a call. -/
inductive Step (s : State D C W E) : Label D C W E → State D C W E → Prop
  | owner {event member} : Member.Step s.member event member →
      Step s (.owner event) { s with member }
  | publish {i} : s.requests i = none →
      Step s (.request i (.publish (publishTermination s.member.control).2))
        ({ s with member := s.member.publish }.move i
          (.published (publishTermination s.member.control).2))
  | complete {i publication} (woken : Except E Unit) :
      s.requests i = some (.published publication) →
      Step s (.request i (.complete (publication.complete woken)))
        (s.move i (.returned (publication.complete woken)))
  | panic {i publication} : s.requests i = some (.published publication) →
      publication.wake = true →
      Step s (.request i .panic) (s.move i (.panicked publication.status))

/-- A reactor whose host starts out running. -/
def system (D C W E : Type) : TransitionSystem (State D C W E) (Label D C W E) where
  init s := ∃ host : EmbeddedHost, host.phase = .running ∧ s = ⟨.new host, fun _ => none⟩
  step := Step

/-- What the calls report goes with the phase and with the outcome. -/
structure Inv (s : State D C W E) : Prop where
  wf : s.member.WF
  untouched : s.member.control = .running → ∀ i, s.status i = none
  unique : ∀ {i j}, s.status i = some .requested → s.status j = some .requested → i = j
  first : s.member.control = .terminationRequested → ∃ i, s.status i = some .requested
  exited : ∀ {i}, s.status i = some .exited → s.member.control = .exited
  stopped : s.member.pc.outcome = some .stopped → ∀ {i status}, s.status i = some status →
    status = .exited
  terminated : s.member.pc.outcome = some .terminated → ∃ i, s.status i = some .requested

theorem status_move (s : State D C W E) (i : ℕ) (pc : RequestPc E) :
    (s.move i pc).status = Function.update s.status i (some pc.status) := by
  funext j
  by_cases hji : j = i
  · subst hji
    simp [State.status, State.move]
  · simp [State.status, State.move, hji]

/-- A step of a call that has published. -/
theorem Inv.move {s : State D C W E} (h : Inv s) {i : ℕ} {pc : RequestPc E}
    (hstatus : s.status i = some pc.status) : Inv (s.move i pc) := by
  have hsame : (s.move i pc).status = s.status := by
    rw [status_move, ← hstatus, Function.update_eq_self]
  refine ⟨h.wf, ?_, ?_, ?_, ?_, ?_, ?_⟩ <;> rw [hsame]
  exacts [h.untouched, h.unique, h.first, h.exited, h.stopped, h.terminated]

theorem Inv.owner {s : State D C W E} (h : Inv s) {event : Event D C W} {m : Member D C W}
    (hstep : Member.Step s.member event m) : Inv { s with member := m } := by
  have hcontrol := hstep.control
  refine ⟨h.wf.next hstep, fun hrunning => ?_, h.unique, fun hrequested => ?_, fun hi => ?_,
    fun houtcome i status hi => ?_, fun houtcome => ?_⟩
  · rcases hcontrol with hsame | hexited
    · exact h.untouched (hsame ▸ hrunning)
    · exact absurd (hrunning.symm.trans hexited) nofun
  · rcases hcontrol with hsame | hexited
    · exact h.first (hsame ▸ hrequested)
    · exact absurd (hrequested.symm.trans hexited) nofun
  · rcases hcontrol with hsame | hexited
    · exact hsame.trans (h.exited hi)
    · exact hexited
  · cases hstep.concludes h.wf.toTracked with
    | same hsame => exact h.stopped (hsame ▸ houtcome) hi
    | stopped hrunning => exact absurd (hi.symm.trans (h.untouched hrunning i)) nofun
    | terminated _ hterminated => exact absurd (houtcome.symm.trans hterminated) nofun
    | failed hfailed => exact absurd (houtcome.symm.trans hfailed) nofun
  · cases hstep.concludes h.wf.toTracked with
    | same hsame => exact h.terminated (hsame ▸ houtcome)
    | stopped _ hstopped => exact absurd (houtcome.symm.trans hstopped) nofun
    | terminated hrequested => exact h.first hrequested
    | failed hfailed => exact absurd (houtcome.symm.trans hfailed) nofun

theorem Inv.publish {s : State D C W E} (h : Inv s) {i : ℕ} (hi : s.requests i = none) :
    Inv ({ s with member := s.member.publish }.move i
      (.published (publishTermination s.member.control).2)) := by
  set published := publishTermination s.member.control with hpublished
  have hfree : s.status i = none := by
    rw [State.status, hi]
    rfl
  -- a status afterwards is the one of this call or an old one
  have hnew : ∀ {j status}, Function.update s.status i (some published.2.status) j = some status →
      (j = i ∧ published.2.status = status) ∨ s.status j = some status := by
    intro j status hj
    rcases update_eq_some.mp hj with ⟨hji, hstatus⟩ | ⟨-, hj⟩
    · exact .inl ⟨hji, Option.some_inj.mp hstatus⟩
    · exact .inr hj
  have hkept : ∀ {j status}, s.status j = some status →
      Function.update s.status i (some published.2.status) j = some status := by
    intro j status hj
    refine update_eq_some.mpr (.inr ⟨fun hji => ?_, hj⟩)
    rw [hji, hfree] at hj
    cases hj
  -- only the first call reports `Requested`
  have hfirst : published.2.status = .requested → ∀ j, s.status j = none := by
    intro hstatus
    refine h.untouched ?_
    cases hcontrol : s.member.control with
    | running => rfl
    | _ => rw [hpublished, hcontrol] at hstatus; cases hstatus
  refine ⟨⟨h.wf.toTracked.publish, h.wf.phase⟩, fun hrunning => ?_, ?_, ?_, ?_, ?_, ?_⟩
  · exact absurd hrunning (publishTermination_ne_running _)
  all_goals rw [status_move]
  · intro j k hj hk
    rcases hnew hj with ⟨hji, hstatus⟩ | hj'
    · rcases hnew hk with ⟨hki, -⟩ | hk'
      · rw [hji, hki]
      · exact absurd (hk'.symm.trans (hfirst hstatus k)) nofun
    · rcases hnew hk with ⟨-, hstatus⟩ | hk'
      · exact absurd (hj'.symm.trans (hfirst hstatus j)) nofun
      · exact h.unique hj' hk'
  · intro hrequested
    cases hcontrol : s.member.control with
    | running =>
      refine ⟨i, ?_⟩
      rw [Function.update_self, hpublished, hcontrol]
      rfl
    | terminationRequested =>
      obtain ⟨j, hj⟩ := h.first hcontrol
      exact ⟨j, hkept hj⟩
    | exited =>
      have hexited : published.1 = .terminationRequested := hrequested
      rw [hpublished, hcontrol] at hexited
      cases hexited
  · intro j hj
    have hexited : s.member.control = .exited := by
      rcases hnew hj with ⟨-, hstatus⟩ | hj'
      · cases hcontrol : s.member.control with
        | exited => rfl
        | _ => rw [hpublished, hcontrol] at hstatus; cases hstatus
      · exact h.exited hj'
    show published.1 = .exited
    rw [hpublished, hexited]
    rfl
  · intro houtcome j status hj
    rcases hnew hj with ⟨-, hstatus⟩ | hj'
    · have hexited := h.wf.finished.mp (OwnerPc.finished_of_outcome houtcome)
      rw [← hstatus, hpublished, hexited]
      rfl
    · exact h.stopped houtcome hj'
  · intro houtcome
    obtain ⟨j, hj⟩ := h.terminated houtcome
    exact ⟨j, hkept hj⟩

theorem Inv.next {s s' : State D C W E} {label : Label D C W E} (h : Inv s)
    (hstep : Step s label s') : Inv s' := by
  cases hstep with
  | owner hstep => exact h.owner hstep
  | publish hi => exact h.publish hi
  | complete woken hi | panic hi =>
    refine h.move ?_
    rw [State.status, hi]
    rfl

theorem reachable_inv {s : State D C W E} (h : (system D C W E).Reachable s) : Inv s := by
  refine h.invariant ?_ Inv.next
  rintro s ⟨host, hrunning, rfl⟩
  exact ⟨Member.new_wf hrunning, fun _ _ => rfl, nofun, nofun, nofun, nofun, nofun⟩

/-- However the host starts out, the owner keeps track of the control. -/
theorem Step.tracked {s s' : State D C W E} {label : Label D C W E} (hstep : Step s label s')
    (h : s.member.Tracked) : s'.member.Tracked := by
  cases hstep with
  | owner hstep => exact h.next hstep
  | publish => exact h.publish
  | complete | panic => exact h

/-- Once it has published, a request stays published. -/
theorem Step.published {s s' : State D C W E} {label : Label D C W E} (hstep : Step s label s')
    (hpublished : s.member.control ≠ .running) : s'.member.control ≠ .running := by
  cases hstep with
  | owner hstep =>
    rcases hstep.control with hsame | hexited
    · exact fun hrunning => hpublished (hsame ▸ hrunning)
    · exact fun hrunning => absurd (hrunning.symm.trans hexited) nofun
  | publish => exact publishTermination_ne_running _
  | complete | panic => exact hpublished

/-- What a run begins after a publication. -/
theorem Inv.spends {s s' : State D C W E} {tr : List (Label D C W E)} (h : Inv s)
    (hpublished : s.member.control ≠ .running) (hrun : Steps Step s tr s') :
    (tr.map Label.cost).sum + s'.member.pc.allowance ≤ s.member.pc.allowance := by
  refine hrun.spent (P := fun s => Inv s ∧ s.member.control ≠ .running) Label.cost
    (fun s => s.member.pc.allowance) ?_ ⟨h, hpublished⟩
  rintro u label v ⟨hu, hne⟩ hstep
  refine ⟨⟨hu.next hstep, hstep.published hne⟩, ?_⟩
  cases hstep with
  | owner hstep => exact hstep.spends hu.wf.toTracked hne
  | publish | complete | panic => exact (Nat.zero_add _).le

/-- **Termination is linearized.**  In every interleaving of the run loop with
any number of requests at most one of them reports `Requested`, none reports
`Exited` before the owner has finished, the outcome agrees with what they report
and with the final phase of the host, and a publication lets at most one
bounded operation begin. -/
theorem termination_linearized {tr : List (Label D C W E)} {s : State D C W E}
    (h : (system D C W E).Run tr s) :
    (∀ i j, s.status i = some .requested → s.status j = some .requested → i = j) ∧
    (∀ i, s.status i = some .exited → s.member.pc.finished = true) ∧
    (s.member.pc.outcome = some .stopped →
      ∀ i, s.status i ≠ some .requested ∧ s.status i ≠ some .alreadyRequested) ∧
    (∀ i outcome, s.status i = some .requested → s.member.pc.outcome = some outcome →
      outcome = .terminated ∨ ∃ failure, outcome = .failed failure) ∧
    (s.member.pc.outcome = some .terminated → ∃ i, s.status i = some .requested) ∧
    (∀ outcome, s.member.pc.outcome = some outcome →
      s.member.host.phase = outcomePhase outcome) ∧
    ∀ before i publication after,
      tr = before ++ .request i (.publish publication) :: after →
      (after.map Label.cost).sum ≤ 1 := by
  have hinv := reachable_inv h.reachable
  have hstopped : s.member.pc.outcome = some .stopped →
      ∀ i, s.status i ≠ some .requested ∧ s.status i ≠ some .alreadyRequested := by
    intro houtcome i
    exact ⟨fun hi => (nomatch hinv.stopped houtcome hi), fun hi => (nomatch hinv.stopped houtcome hi)⟩
  refine ⟨fun i j => hinv.unique, fun i hi => hinv.wf.finished.mpr (hinv.exited hi), hstopped,
    fun i outcome hi houtcome => ?_, hinv.terminated, fun outcome houtcome => ?_, ?_⟩
  · cases outcome with
    | stopped => exact absurd hi (hstopped houtcome i).1
    | terminated => exact .inl rfl
    | failed failure => exact .inr ⟨failure, rfl⟩
  · refine hinv.wf.phase _ ?_
    cases hpc : s.member.pc with
    | exited | dropped => rw [hpc] at houtcome; cases houtcome; rfl
    | _ => rw [hpc] at houtcome; cases houtcome
  -- once a request is published the member spends what its counter allows: one turn
  · intro before i publication after htr
    obtain ⟨s₀, hinit, hrun⟩ := h
    rw [htr, List.append_cons] at hrun
    obtain ⟨u, hbefore, hafter⟩ := hrun.split
    obtain ⟨v, hv, hstep⟩ := hbefore.of_snoc
    have hu := reachable_inv (TransitionSystem.Run.reachable ⟨s₀, hinit, hbefore⟩)
    have hpublished : u.member.control ≠ .running := by
      generalize hl : (Label.request i (.publish publication) : Label D C W E) = l at hstep
      cases hstep with
      | publish => exact publishTermination_ne_running _
      | _ => cases hl
    have hle := hu.spends hpublished hafter
    have := u.member.pc.allowance_le_one
    omega

/-- A request that comes in before the first turn lets that turn run, and then
overrides its stop. -/
theorem termination_linearized_overridden :
    ∃ s : State Unit Unit Unit Unit,
      (system Unit Unit Unit Unit).Run
        ([.owner (.check false)] ++ .request 0 (.publish ⟨.requested, true⟩) ::
          [.owner (.start (.ok 5)), .owner (.beginTurn 5), .owner (.endTurn (.ok ⟨1, .stop⟩)),
            .request 0 (.complete ⟨.requested, some ()⟩), .owner (.complete (.ok 6)),
            .owner .finish]) s ∧
      s.member.pc.outcome = some .terminated ∧ s.member.host.phase = .terminated ∧
      s.status 0 = some .requested := by
  have hinit : (system Unit Unit Unit Unit).init ⟨.new (.new .default), fun _ => none⟩ :=
    ⟨_, rfl, rfl⟩
  have hcheck : Step (⟨.new (.new .default), fun _ => none⟩ : State Unit Unit Unit Unit)
      (.owner (.check false))
      ⟨⟨.running, .new .default, .default, .stepping⟩, fun _ => none⟩ :=
    .owner (.check rfl)
  have hpublish : Step
      (⟨⟨.running, .new .default, .default, .stepping⟩, fun _ => none⟩ : State Unit Unit Unit Unit)
      (.request 0 (.publish ⟨.requested, true⟩))
      (State.move ⟨⟨.terminationRequested, .new .default, .default, .stepping⟩, fun _ => none⟩ 0
        (.published ⟨.requested, true⟩)) :=
    .publish rfl
  have hobserved : (EmbeddedHost.new .default).start (D := Unit) (C := Unit) (.ok 5)
      = (⟨.default, ⟨.running, 0, 0, some 5, none, none⟩⟩, .ok 5) := rfl
  have hturned : ∀ host : EmbeddedHost, host.turned (D := Unit) (C := Unit) (.ok ⟨1, .stop⟩)
      = (host, .ok ⟨1, .stop⟩) := fun _ => rfl
  have hcompleted : EmbeddedHost.complete (D := Unit) (C := Unit)
      ⟨.default, ⟨.running, 0, 0, some 5, none, none⟩⟩ 5 ⟨1, .stop⟩ (.ok 6)
      = (⟨.default, ⟨.stopped, 1, 1, some 6, some ⟨1, .stop⟩, some .stop⟩⟩,
        .ok ⟨5, 6, ⟨1, .stop⟩, .stop⟩) := by decide +kernel
  have hturn := (((TransitionSystem.Run.start hinit).next hcheck).next hpublish).next
    (.owner (.start rfl hobserved))
  have hended := ((hturn.next (.owner (.beginTurn rfl))).next
    (.owner (.endTurn rfl (hturned _)))).next (.complete (i := 0) (.error ()) rfl)
  have hrun := (hended.next (.owner (.complete rfl hcompleted))).next (.owner (.stop rfl))
  have hlinear := termination_linearized hrun
  exact ⟨_, hrun, rfl, hlinear.2.2.2.2.2.1 _ rfl, rfl⟩

end Reactor

end Calandria
