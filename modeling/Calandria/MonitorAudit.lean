/-
Monitors only watch.

A monitor sees each committed action and can fail the step that committed it, but it
has no way to change what is simulated.  So a monitored simulation is the bare one,
the same simulation under the monitor that accepts everything, with an audit after
each committed action:

* `step_audited` — a step is the bare step and then the audit;
* `audit_after` — until the first objection a monitored run is the bare run, and the
  objection ends it;
* `Trace.audit` — a trace objects exactly when it is full, or its inner monitor does.
-/
import Calandria.CausalTrace
import Calandria.Finality
import Calandria.ReplayCompleteness

namespace Calandria

variable {E O ME NE NE' SE : Type}

/-- Applies a function to the error of the monitor. -/
def StepError.mapMonitor (f : NE → NE') : StepError ME NE SE → StepError ME NE' SE
  | .model action source => .model action source
  | .monitor action source => .monitor action (f source)
  | .scheduler source => .scheduler source
  | .invalidSelection action => .invalidSelection action
  | .kernel failure => .kernel failure
  | .limit failure => .limit failure
  | .poisoned => .poisoned
  | .inactive phase => .inactive phase

def StepReturn.mapMonitor (f : NE → NE') : StepReturn O ME NE SE → StepReturn O ME NE' SE
  | .ok step => .ok step
  | .err error => .err (error.mapMonitor f)
  | .unwound boundary => .unwound boundary

def Reply.mapMonitor (f : NE → NE') : Reply E O ME NE SE → Reply E O ME NE' SE
  | .stepped result => .stepped (result.mapMonitor f)
  | .injected result => .injected result

theorem Reply.mapMonitor_elim (f : NE → NE') (reply : Reply E O ME Empty SE) :
    (reply.mapMonitor (Empty.elim : Empty → NE)).mapMonitor f = reply.mapMonitor Empty.elim := by
  cases reply with
  | injected => rfl
  | stepped result =>
    cases result with
    | ok | unwound => rfl
    | err error =>
      cases error with
      | monitor action source => exact source.elim
      | model | scheduler | invalidSelection | kernel | limit | poisoned | inactive => rfl

/-- A call and its reply, as a run under another monitor reports them. -/
def relabel (f : NE → NE') (l : Call E × Reply E O ME NE SE) : Call E × Reply E O ME NE' SE :=
  (l.1, l.2.mapMonitor f)

namespace Simulation

variable {M S N P : Type}

/-- The simulation under the monitor that accepts everything. -/
def bare (sim : Simulation M S N E) : Simulation M S NoopMonitor E := sim.withMonitor .mk

/-- What the monitor makes of what the bare step did. -/
def audited [Monitor N M O NE] (monitor : N)
    (o : Simulation M S NoopMonitor E × StepReturn O ME Empty SE) :
    Simulation M S N E × StepReturn O ME NE SE :=
  match o with
  | (bare, .ok (.action record)) =>
    match Monitor.afterAction monitor bare.view record with
    | (monitor, .panicked) =>
      ({ bare.withMonitor monitor with poisoned := true }, .unwound .monitor)
    | (monitor, .err source) =>
      ((bare.withMonitor monitor).fail, .err (.monitor record.metadata source))
    | (monitor, .ok ()) => (bare.withMonitor monitor, .ok (.action record))
  | (bare, result) => (bare.withMonitor monitor, result.mapMonitor Empty.elim)

theorem audited_other [Monitor N M O NE] {monitor : N} {bare : Simulation M S NoopMonitor E}
    {result : StepReturn O ME Empty SE} (h : ∀ record, result ≠ .ok (.action record)) :
    audited monitor (bare, result) = (bare.withMonitor monitor, result.mapMonitor Empty.elim) := by
  cases result with
  | ok step =>
    cases step with
    | action record => exact absurd rfl (h record)
    | timeAdvanced | quiescent | completed => rfl
  | err | unwound => rfl

/-! ### One step -/

theorem pushDeliveries_withMonitor (sim : Simulation M S N E) (monitor : P)
    (tokens : List EventToken) (ready : ReadySet) :
    (sim.withMonitor monitor).pushDeliveries tokens ready = sim.pushDeliveries tokens ready := by
  induction tokens generalizing ready with
  | nil => rfl
  | cons token rest ih =>
    rw [pushDeliveries, pushDeliveries]
    simp only [ih]
    rfl

theorem buildReady_bare (sim : Simulation M S N E) :
    sim.buildReady = sim.bare.buildReady.map fun o => (o.1.withMonitor sim.monitor, o.2) := by
  rw [buildReady, buildReady, bare, pushDeliveries_withMonitor]
  show (sim.pushDeliveries (sim.timeline.tokensAt sim.now) [] >>= _)
    = Except.map _ (sim.pushDeliveries (sim.timeline.tokensAt sim.now) [] >>= _)
  cases sim.pushDeliveries (sim.timeline.tokensAt sim.now) [] with
  | error => rfl
  | ok o =>
    obtain ⟨ready, built⟩ := o
    cases built <;> rfl

theorem enforceActionLimits_bare (sim : Simulation M S N E) :
    (sim.enforceActionLimits : Except (StepError ME NE SE) Unit)
      = sim.bare.enforceActionLimits.mapError (StepError.mapMonitor Empty.elim) := by
  rw [enforceActionLimits, enforceActionLimits, show sim.bare.limits = sim.limits from rfl,
    show sim.bare.actions = sim.actions from rfl,
    show sim.bare.actionsAtMoment = sim.actionsAtMoment from rfl]
  split_ifs <;> rfl

section

variable [Scheduler S SE] [Monitor N M O NE]

theorem advanceOrFinish_bare (sim : Simulation M S N E) :
    (sim.advanceOrFinish : Except Panic (Simulation M S N E × StepReturn O ME NE SE))
      = sim.bare.advanceOrFinish.map (audited sim.monitor) := by
  rw [advanceOrFinish, advanceOrFinish]
  rw [show sim.bare.stopped = sim.stopped from rfl, show sim.bare.topology = sim.topology from rfl,
    show sim.bare.timeline = sim.timeline from rfl, show sim.bare.now = sim.now from rfl,
    show sim.bare.limits = sim.limits from rfl,
    show sim.bare.nextDeadline = sim.nextDeadline from rfl]
  by_cases hall : sim.stopped.card = sim.topology.len
  · rw [if_pos hall, if_pos hall]
    cases sim.timeline.pending.head? with
    | some entry => rfl
    | none =>
      simp only [validateSchedulerFinish, show sim.bare.scheduler = sim.scheduler from rfl]
      cases Scheduler.finished sim.scheduler with
      | mk scheduler verdict => cases verdict <;> rfl
  · rw [if_neg hall, if_neg hall]
    cases earliest sim.timeline.nextAt sim.nextDeadline with
    | none => rfl
    | some next =>
      simp only
      split_ifs
      · rfl
      · rfl
      · cases sim.timeline.advanceTo next <;> rfl

omit [Monitor N M O NE] in
theorem selectAction_bare (sim : Simulation M S N E) :
    (sim.selectAction : Except Panic (Simulation M S N E ×
        (StepReturn O ME NE SE ⊕ ActionKey × ActionId)))
      = sim.bare.selectAction.map fun o =>
        (o.1.withMonitor sim.monitor, o.2.map (StepReturn.mapMonitor Empty.elim) id) := by
  rw [selectAction, selectAction, show sim.bare.scheduler = sim.scheduler from rfl,
    show sim.bare.now = sim.now from rfl, show sim.bare.ready = sim.ready from rfl]
  cases Scheduler.choose sim.scheduler sim.now sim.ready with
  | mk scheduler verdict =>
    cases verdict with
    | panicked | err => rfl
    | ok selected =>
      simp only
      by_cases hready : ReadySet.contains sim.ready selected
      · simp only [hready, allocateAction, show sim.bare.nextAction = sim.nextAction from rfl,
          show sim.bare.actions = sim.actions from rfl,
          show sim.bare.actionsAtMoment = sim.actionsAtMoment from rfl]
        cases sim.nextAction with
        | none => rfl
        | some raw =>
          simp only
          cases sim.actions.increment with
          | error => rfl
          | ok actions => cases sim.actionsAtMoment.increment <;> rfl
      · simp only [hready]
        rfl

omit [Monitor N M O NE] in
/-- A step that selects no action commits none. -/
theorem selectAction_refused {sim selected : Simulation M S N E} {result : StepReturn O ME NE SE}
    (h : sim.selectAction = .ok (selected, .inl result)) (record : ActionRecord O) :
    result ≠ .ok (.action record) := by
  rintro rfl
  rw [selectAction] at h
  split at h
  · cases h
  · cases h
  · simp only at h
    split_ifs at h
    · cases h
    · split at h
      · cases h
      · next allocated id _ =>
        simp only [bind, Except.bind] at h
        cases hactions : allocated.actions.increment with
        | error => simp [hactions] at h
        | ok =>
          cases hmoment : allocated.actionsAtMoment.increment <;> simp [hactions, hmoment] at h

theorem finishAction_bare (sim : Simulation M S N E) (metadata : ActionMeta) (turn : Turn)
    (observations : List O) :
    (sim.finishAction metadata turn observations : _ × StepReturn O ME NE SE)
      = audited sim.monitor (sim.bare.finishAction metadata turn observations) := by
  rw [finishAction, finishAction, show sim.bare.scheduler = sim.scheduler from rfl]
  cases Scheduler.committed sim.scheduler metadata turn with
  | mk scheduler verdict =>
    cases verdict with
    | panicked | err => rfl
    | ok =>
      have hview : ({ sim with scheduler } : Simulation M S N E).view = sim.view := rfl
      have hbare : ({ sim.bare with scheduler } : Simulation M S NoopMonitor E).view = sim.view :=
        rfl
      show _ = audited sim.monitor ({ sim.bare with scheduler }, _)
      simp only [audited, hview, hbare]
      cases Monitor.afterAction sim.monitor sim.view
          (⟨metadata, turn, observations⟩ : ActionRecord O) with
      | mk monitor verdict => cases verdict <;> rfl

omit [Scheduler S SE] [Monitor N M O NE] in
theorem updateOwner_bare (sim : Simulation M S N E) (duty : DutyId) (turn : Turn)
    (delivery : Bool) :
    sim.updateOwner duty turn delivery
      = (sim.bare.updateOwner duty turn delivery).map (·.withMonitor sim.monitor) := by
  rw [updateOwner, updateOwner, show sim.bare.states = sim.states from rfl]
  cases sim.states.get? duty <;> rfl

variable [Retained E] [Retained O] [Model M E O ME]

omit [Model M E O ME] in
theorem runCallback_bare (sim : Simulation M S N E) (callback : Callback M E O ME) :
    (sim.runCallback callback : Except Panic (Simulation M S N E × StepReturn O ME NE SE))
      = (sim.bare.runCallback callback).map (audited sim.monitor) := by
  rw [runCallback, runCallback,
    show (sim.bare.context callback.metadata : ActionContext E O)
      = sim.context callback.metadata from rfl]
  cases callback.program.run (sim.context callback.metadata) with
  | error => rfl
  | ok o =>
    obtain ⟨context, log, model, result⟩ := o
    simp only [bind, Except.bind]
    cases result with
    | panicked | err => cases context.drop <;> rfl
    | ok turn =>
      simp only
      cases commitContext callback.metadata.key.duty turn context with
      | error => rfl
      | ok committed =>
        obtain ⟨timeline, result⟩ := committed
        cases result with
        | error => rfl
        | ok observations =>
          simp only
          rw [updateOwner_bare]
          show (Except.map _ (({ sim.bare with model, timeline }).updateOwner _ _ _)).bind _
            = Except.map _ ((({ sim.bare with model, timeline }).updateOwner _ _ _).bind _)
          cases ({ sim.bare with model, timeline }).updateOwner callback.metadata.key.duty turn
              callback.delivered.isSome with
          | error => rfl
          | ok updated => exact congrArg Except.ok (finishAction_bare ..)

theorem executeSelected_bare (sim : Simulation M S N E) (key : ActionKey) (id : ActionId) :
    (sim.executeSelected key id : Except Panic (Simulation M S N E × StepReturn O ME NE SE))
      = (sim.bare.executeSelected key id).map (audited sim.monitor) := by
  obtain ⟨duty, kind⟩ := key
  cases kind with
  | turn => exact sim.runCallback_bare (sim.turnCallback ⟨duty, .turn⟩ id)
  | delivery token =>
    simp only [executeSelected, executeDelivery, deliveryCallback,
      show sim.bare.timeline = sim.timeline from rfl]
    cases sim.timeline.cancel token with
    | error => rfl
    | ok o =>
      obtain ⟨timeline, removed⟩ := o
      cases removed with
      | none => rfl
      | some routed =>
        simp only [bind, Except.bind]
        by_cases htarget : routed.target ≠ duty
        · rw [if_pos htarget, if_pos htarget]
          rfl
        · rw [if_neg htarget, if_neg htarget]
          exact runCallback_bare ..

/-- **A step is the bare step and then the audit.** -/
theorem step_audited (sim : Simulation M S N E) :
    (sim.step : Except Panic (Simulation M S N E × StepReturn O ME NE SE))
      = sim.bare.step.map (audited sim.monitor) := by
  rw [step, step, show sim.bare.poisoned = sim.poisoned from rfl,
    show sim.bare.phase = sim.phase from rfl, buildReady_bare]
  split_ifs
  · rfl
  · rfl
  · cases sim.bare.buildReady with
    | error => rfl
    | ok o =>
      obtain ⟨built, result⟩ := o
      cases result with
      | error => rfl
      | ok =>
        simp only [Except.map, bind, Except.bind]
        show (if built.ready.isEmpty then _ else _) = _
        by_cases hempty : built.ready.isEmpty
        · rw [if_pos hempty, if_pos hempty]
          exact (built.withMonitor sim.monitor).advanceOrFinish_bare
        · rw [if_neg hempty, if_neg hempty,
            (built.withMonitor sim.monitor).enforceActionLimits_bare]
          rw [show (built.withMonitor sim.monitor).bare = built from rfl]
          cases (built.enforceActionLimits : Except (StepError ME Empty SE) Unit) with
          | error => rfl
          | ok =>
            simp only [Except.mapError]
            rw [(built.withMonitor sim.monitor).selectAction_bare,
              show (built.withMonitor sim.monitor).bare = built from rfl]
            cases hselect : (built.selectAction : Except Panic (Simulation M S NoopMonitor E ×
                (StepReturn O ME Empty SE ⊕ ActionKey × ActionId))) with
            | error => rfl
            | ok o =>
              obtain ⟨selected, choice⟩ := o
              cases choice with
              | inl result =>
                exact congrArg Except.ok (audited_other (selectAction_refused hselect)).symm
              | inr chosen => exact (selected.withMonitor sim.monitor).executeSelected_bare ..

end

/-! ### Calls -/

section

theorem injectAt_bare (sim : Simulation M S N E) (target : DutyId) (moment : Moment) (event : E) :
    sim.injectAt target moment event = (sim.bare.injectAt target moment event).map fun o =>
      (o.1.withMonitor sim.monitor, o.2) := by
  rw [injectAt, injectAt, show sim.bare.poisoned = sim.poisoned from rfl,
    show sim.bare.phase = sim.phase from rfl, show sim.bare.topology = sim.topology from rfl,
    show sim.bare.stopped = sim.stopped from rfl, show sim.bare.limits = sim.limits from rfl,
    show sim.bare.timeline = sim.timeline from rfl]
  split_ifs
  any_goals rfl
  cases sim.timeline.scheduleAt moment ⟨target, none, event⟩ with
  | error => rfl
  | ok o =>
    obtain ⟨timeline, result⟩ := o
    cases result <;> rfl

variable [Retained E] [Retained O] [Model M E O ME] [Scheduler S SE] [Monitor N M O NE]

/-- What the monitor makes of a bare call. -/
def auditedCall (monitor : N) :
    Simulation M S NoopMonitor E × Reply E O ME Empty SE →
      Simulation M S N E × Reply E O ME NE SE
  | (bare, .stepped result) =>
    ((audited monitor (bare, result)).1, .stepped (audited monitor (bare, result)).2)
  | (bare, .injected result) => (bare.withMonitor monitor, .injected result)

theorem exec_audited (sim : Simulation M S N E) (call : Call E) :
    (sim.exec call : Except Panic (Simulation M S N E × Reply E O ME NE SE))
      = (sim.bare.exec call).map (auditedCall sim.monitor) := by
  cases call with
  | step =>
    rw [exec, exec, step_audited]
    cases (sim.bare.step : Except Panic (_ × StepReturn O ME Empty SE)) <;> rfl
  | inject target event =>
    rw [exec, exec, inject, inject, injectAt_bare, show sim.bare.now = sim.now from rfl]
    cases sim.bare.injectAt target sim.now event <;> rfl
  | injectAfter target delay event =>
    rw [exec, exec, injectAfter, injectAfter, show sim.bare.now = sim.now from rfl]
    cases sim.now.checkedAdd delay with
    | none => rfl
    | some moment =>
      simp only [injectAt_bare sim]
      cases sim.bare.injectAt target moment event <;> rfl
  | injectAt target moment event =>
    rw [exec, exec, injectAt_bare]
    cases sim.bare.injectAt target moment event <;> rfl

/-! ### Whole runs -/

/-- The results that only a monitor can bring about. -/
inductive Objection (metadata : ActionMeta) : StepReturn O ME NE SE → Prop
  | failed {source} : Objection metadata (.err (.monitor metadata source))
  | unwound : Objection metadata (.unwound .monitor)

/-- A monitored run is the bare one, up to an objection that ends it. -/
inductive Watches (start sim : Simulation M S N E) (tr : List (Call E × Reply E O ME NE SE)) :
    Prop
  | agrees {played} : tr = played.map (relabel Empty.elim) →
      Steps (system M S NoopMonitor E O ME SE Empty).step start.bare played sim.bare →
      Watches start sim tr
  | objects {played rest record result before bare} :
      tr = played.map (relabel Empty.elim) ++ (.step, .stepped result) :: rest →
      Steps (system M S N E O ME SE NE).step start (played.map (relabel Empty.elim)) before →
      Steps (system M S NoopMonitor E O ME SE Empty).step start.bare
        (played ++ [(.step, .stepped (.ok (.action record)))]) bare →
      audited before.monitor (bare, .ok (.action record)) = (sim, result) →
      Objection record.metadata result → (∀ l ∈ rest, l.2 = sim.finalReply l.1) →
      Watches start sim tr

omit [Retained E] [Retained O] [Model M E O ME] [Scheduler S SE] in
theorem Objection.not_live {monitor : N} {bare : Simulation M S NoopMonitor E}
    {sim : Simulation M S N E} {record : ActionRecord O} {result : StepReturn O ME NE SE}
    (h : Objection record.metadata result)
    (haudit : audited monitor (bare, .ok (.action record)) = (sim, result)) : ¬ sim.Live := by
  rw [audited] at haudit
  intro hlive
  cases hverdict : Monitor.afterAction monitor bare.view record with
  | mk monitor verdict =>
    cases verdict with
    | panicked =>
      rw [hverdict] at haudit
      cases haudit
      cases hlive.unpoisoned
    | err =>
      rw [hverdict] at haudit
      cases haudit
      cases hlive.active
    | ok =>
      rw [hverdict] at haudit
      cases haudit
      cases h

/-- What the monitor makes of one call: it lets it pass, or it objects to an action. -/
theorem exec_watched {sim sim' : Simulation M S N E} {call : Call E} {reply : Reply E O ME NE SE}
    (h : sim.exec call = .ok (sim', reply)) :
    ∃ bare, ∃ played : Reply E O ME Empty SE, sim.bare.exec call = .ok (bare, played) ∧
      ((reply = played.mapMonitor Empty.elim ∧ sim'.bare = bare) ∨
        ∃ record result, call = .step ∧ played = .stepped (.ok (.action record)) ∧
          reply = .stepped result ∧
          audited sim.monitor (bare, .ok (.action record)) = (sim', result) ∧
          Objection record.metadata result) := by
  rw [exec_audited] at h
  cases hbare : (sim.bare.exec call : Except Panic (_ × Reply E O ME Empty SE)) with
  | error => simp [hbare, Except.map] at h
  | ok o =>
    obtain ⟨bare, played⟩ := o
    rw [hbare] at h
    replace h := Except.ok.inj h
    refine ⟨bare, played, rfl, ?_⟩
    cases played with
    | injected result =>
      cases h
      exact .inl ⟨rfl, rfl⟩
    | stepped result =>
      by_cases haction : ∃ record, result = .ok (.action record)
      · obtain ⟨record, rfl⟩ := haction
        have hcall : call = .step := by
          by_contra hcall
          obtain ⟨_, hreply, -⟩ := exec_hostedBy hbare hcall sim.bare.scheduler sim.bare.monitor
          cases hreply
        rw [auditedCall, audited] at h
        cases hverdict : Monitor.afterAction sim.monitor bare.view record with
        | mk monitor verdict =>
          rw [hverdict] at h
          cases verdict with
          | ok =>
            cases h
            exact .inl ⟨rfl, rfl⟩
          | err source =>
            cases h
            refine .inr ⟨record, _, hcall, rfl, rfl, ?_, .failed⟩
            rw [audited, hverdict]
          | panicked =>
            cases h
            refine .inr ⟨record, _, hcall, rfl, rfl, ?_, .unwound⟩
            rw [audited, hverdict]
      · have hother : ∀ record, result ≠ .ok (.action record) := fun record he =>
          haction ⟨record, he⟩
        rw [auditedCall, audited_other hother] at h
        cases h
        exact .inl ⟨rfl, rfl⟩

/-- **Monitors only watch.**  Every run of a monitored simulation is, call for call and reply
for reply, the run of the same simulation under the monitor that accepts everything, and leaves
the same simulation, up to the first committed action to which the monitor objects.  There it
is the bare simulation that committed the action that fails or is poisoned, and every later call
is refused. -/
theorem monitor_watches {start sim : Simulation M S N E}
    {tr : List (Call E × Reply E O ME NE SE)}
    (hrun : Steps (system M S N E O ME SE NE).step start tr sim) : Watches start sim tr := by
  refine hrun.invariant (I := fun tr sim => Watches start sim tr) (.agrees rfl .refl) ?_
  rintro tr u ⟨call, reply⟩ v hprefix ih hstep
  have hexec : u.exec call = .ok (v, reply) := hstep
  cases ih with
  | @agrees played htr hplayed =>
    obtain ⟨bare, next, hbare, hcases⟩ := exec_watched hexec
    have hnext := hplayed.snoc (l := (call, next)) hbare
    rcases hcases with ⟨hreply, hsame⟩ | ⟨record, result, hcall, rfl, hreply, haudit, hobjects⟩
    · rw [← hsame] at hnext
      refine .agrees ?_ hnext
      rw [htr, List.map_append, hreply]
      rfl
    · subst hcall hreply
      exact .objects (by rw [htr]) (htr ▸ hprefix) hnext haudit hobjects (by simp)
  | @objects played rest record result before bare htr hbefore hplayed haudit hobjects hrest =>
    -- the objection ended the run, so the call changes nothing
    have hanswer : u.exec call = .ok (u, (u.finalReply call : Reply E O ME NE SE)) :=
      (final_of_not_live (hobjects.not_live haudit)).answers call
    obtain ⟨rfl, rfl⟩ := Prod.mk.inj (Except.ok.inj (hexec.symm.trans hanswer))
    have hgrown : tr ++ [(call, v.finalReply call)] = played.map (relabel Empty.elim)
        ++ (.step, .stepped result) :: (rest ++ [(call, v.finalReply call)]) := by
      rw [htr, List.append_assoc, List.cons_append]
    refine .objects hgrown hbefore hplayed haudit hobjects fun l hl => ?_
    rcases List.mem_append.mp hl with hl | hl
    · exact hrest l hl
    · rw [List.mem_singleton.mp hl]

/-- A trace of one entry objects to the second action. -/
theorem monitor_watches_full :
    let start : Simulation (Playback Unit Unit Empty) Fifo (Trace NoopMonitor) Unit :=
      Playback.world [.done (.ok ⟨1, .now⟩)] Fifo.mk
        (.withMonitor ⟨⟨1, U64.one_ne_zero⟩, 0⟩ NoopMonitor.mk)
    (start.history [.step, .step, .step]).map (fun l => l.2.2.failed) = [false, true, true] ∧
    Watches start (start.after [.step, .step, .step])
      ((start.history [.step, .step, .step]).map Prod.snd) :=
  ⟨by decide +kernel, monitor_watches (steps_after _ _)⟩

end

end Simulation

/-! ### Tracing -/

/-- Whether a reply comes from an action that the monitor was shown. -/
def Reply.shows : Reply E O ME NE SE → ℕ
  | .stepped (.ok (.action _)) => 1
  | .stepped (.err (.monitor _ _)) => 1
  | .stepped (.unwound .monitor) => 1
  | _ => 0

/-- A trace with room records the action and leaves the verdict to its inner monitor. -/
theorem Trace.Records.composes {N M : Type} [Monitor N M O NE] {trace : Trace N}
    {limits : TraceLimits} {entries : List TraceEntry} (h : trace.Records limits entries)
    (hroom : entries.length < limits.entries.get.val) (view : SimulationView M)
    (action : ActionRecord O) :
    ∃ batch, Monitor.afterAction trace view action
      = (⟨trace.limits, batch, (Monitor.afterAction trace.monitor view action).1⟩,
        match (Monitor.afterAction trace.monitor view action).2 with
        | .ok () => .ok ()
        | .err source => .err (.monitor source)
        | .panicked => .panicked) := by
  have hevents : trace.entries.events.length < trace.entries.limits.events.get.val := by
    have hlength : trace.entries.iter.length = trace.entries.events.length := List.length_map _
    rw [← hlength, h.kept, List.length_take, h.batch]
    exact (min_le_right _ _).trans_lt hroom
  obtain ⟨batch, hpush, -⟩ : ∃ batch,
      trace.entries.tryPush (TraceEntry.fromRecord action) = .ok batch ∧
        batch.measure = trace.entries.measure ∧ batch.retained = 0 :=
    EventBatch.tryPush_free (by rw [h.measure]; rfl) h.retained hevents
  refine ⟨batch, ?_⟩
  simp only [Monitor.afterAction, hpush]
  cases Monitor.afterAction trace.monitor view action with
  | mk monitor verdict => cases verdict <;> rfl

namespace Simulation

variable {M S N : Type} [Monitor N M O NE]

/-- What the bare call shows to the monitor. -/
def shown : Reply E O ME Empty SE → List TraceEntry
  | .stepped (.ok (.action record)) => [.fromRecord record]
  | _ => []

theorem auditedCall_other {monitor : N} {bare : Simulation M S NoopMonitor E}
    {reply : Reply E O ME Empty SE} (h : ∀ record, reply ≠ .stepped (.ok (.action record))) :
    auditedCall monitor (bare, reply)
      = (bare.withMonitor monitor, reply.mapMonitor Empty.elim) := by
  cases reply with
  | injected => rfl
  | stepped result =>
    have hresult : ∀ record, result ≠ .ok (.action record) := by
      rintro record rfl
      exact h record rfl
    rw [auditedCall, audited_other hresult]
    rfl

/-- **The step lemma**: with a trace that has room around it, a monitor makes the same of a
bare call, and the trace records what was shown. -/
theorem auditedCall_trace {trace : Trace N} {limits : TraceLimits} {entries : List TraceEntry}
    (h : trace.Records limits entries) (bare : Simulation M S NoopMonitor E)
    (reply : Reply E O ME Empty SE)
    (hroom : (entries ++ shown reply).length ≤ limits.entries.get.val) :
    ∃ trace' : Trace N, trace'.monitor = (auditedCall trace.monitor (bare, reply)).1.monitor ∧
      trace'.Records limits (entries ++ shown reply) ∧
      auditedCall trace (bare, reply)
        = ((auditedCall trace.monitor (bare, reply)).1.withMonitor trace',
          (auditedCall trace.monitor (bare, reply)).2.mapMonitor TraceError.monitor) := by
  by_cases haction : ∃ record, reply = .stepped (.ok (.action record))
  · obtain ⟨record, rfl⟩ := haction
    have hlt : entries.length < limits.entries.get.val := by
      rwa [shown, List.length_append] at hroom
    obtain ⟨batch, hafter⟩ := h.composes hlt bare.view record
    have hrecords := h.afterAction bare.view record
    rw [hafter] at hrecords
    refine ⟨⟨trace.limits, batch, (Monitor.afterAction trace.monitor bare.view record).1⟩, ?_,
      hrecords, ?_⟩
    · simp only [auditedCall, audited]
      cases Monitor.afterAction trace.monitor bare.view record with
      | mk monitor verdict => cases verdict <;> rfl
    · simp only [auditedCall, audited, hafter]
      cases Monitor.afterAction trace.monitor bare.view record with
      | mk monitor verdict => cases verdict <;> rfl
  · have hreply : ∀ record, reply ≠ .stepped (.ok (.action record)) := fun record he =>
      haction ⟨record, he⟩
    have hnone : shown reply = [] := by
      rw [shown]
      exact hreply
    refine ⟨trace, ?_, ?_, ?_⟩
    · rw [auditedCall_other hreply]
      rfl
    · rwa [hnone, List.append_nil]
    · rw [auditedCall_other hreply, auditedCall_other hreply, Reply.mapMonitor_elim]
      rfl

theorem shown_length {monitor : N} {bare : Simulation M S NoopMonitor E}
    {played : Reply E O ME Empty SE} {sim : Simulation M S N E} {reply : Reply E O ME NE SE}
    (h : auditedCall monitor (bare, played) = (sim, reply))
    (hmonitor : played ≠ .stepped (.unwound .monitor)) : (shown played).length = reply.shows := by
  by_cases haction : ∃ record, played = .stepped (.ok (.action record))
  · obtain ⟨record, rfl⟩ := haction
    rw [auditedCall, audited] at h
    cases hverdict : Monitor.afterAction monitor bare.view record with
    | mk monitor verdict => cases verdict <;> rw [hverdict] at h <;> cases h <;> rfl
  · have hplayed : ∀ record, played ≠ .stepped (.ok (.action record)) := fun record he =>
      haction ⟨record, he⟩
    rw [auditedCall_other hplayed] at h
    cases h
    rcases played with ((_ | _ | _ | _) | error | boundary) | _
    · exact absurd rfl (hplayed _)
    · rfl
    · rfl
    · rfl
    · cases error with
      | monitor action source => exact source.elim
      | model | scheduler | invalidSelection | kernel | limit | poisoned | inactive => rfl
    · cases boundary with
      | monitor => exact absurd rfl hmonitor
      | choose | model | committed | finished => rfl
    · rfl

/-- What a simulation that stays live was shown is what it committed. -/
theorem shown_committed {monitor : N} {bare : Simulation M S NoopMonitor E}
    {played : Reply E O ME Empty SE} {sim : Simulation M S N E} {reply : Reply E O ME NE SE}
    (call : Call E) (h : auditedCall monitor (bare, played) = (sim, reply)) (hlive : sim.Live) :
    committedEntries [(call, reply)] = shown played := by
  by_cases haction : ∃ record, played = .stepped (.ok (.action record))
  · obtain ⟨record, rfl⟩ := haction
    rw [auditedCall, audited] at h
    cases hverdict : Monitor.afterAction monitor bare.view record with
    | mk monitor verdict =>
      rw [hverdict] at h
      cases verdict with
      | ok =>
        cases h
        rfl
      | err =>
        cases h
        cases hlive.active
      | panicked =>
        cases h
        cases hlive.unpoisoned
  · have hplayed : ∀ record, played ≠ .stepped (.ok (.action record)) := fun record he =>
      haction ⟨record, he⟩
    rw [auditedCall_other hplayed] at h
    cases h
    rcases played with ((_ | _ | _ | _) | error | boundary) | _
    · exact absurd rfl (hplayed _)
    all_goals rfl

variable [Retained E] [Retained O] [Model M E O ME] [Scheduler S SE]

/-- The monitor that accepts everything does not panic. -/
theorem bare_exec {sim sim' : Simulation M S NoopMonitor E} (hs : sim.Sound) {call : Call E}
    {reply : Reply E O ME Empty SE} (hexec : sim.exec call = .ok (sim', reply)) :
    reply ≠ .stepped (.unwound .monitor) := by
  rintro rfl
  cases executes_of_exec hs hexec with
  | stepped ht =>
    cases ht with
    | refused _ _ _ _ hrefusal => cases hrefusal
    | rolledBack _ _ _ habort => cases habort
    | committed _ _ _ _ hfinishes =>
      cases hfinishes with
      | monitorUnwound _ hafter => cases hafter
    | finishRefused _ _ _ _ _ hrefusal => cases hrefusal

/-- **Tracing is transparent.**  Put a fresh trace around the monitor of any simulation.  Every
run of the simulation whose monitor was shown no more actions than the trace can hold is, call
for call and reply for reply, a run of the traced simulation too, which ends in the same
simulation with the same inner monitor; while that is live, the trace holds exactly the
committed actions. -/
theorem trace_transparent {start sim : Simulation M S N E}
    {tr : List (Call E × Reply E O ME NE SE)} (limits : TraceLimits) (hs : start.Sound)
    (hrun : Steps (system M S N E O ME SE NE).step start tr sim)
    (hroom : (tr.map fun l => l.2.shows).sum ≤ limits.entries.get.val) :
    ∃ trace : Trace N, Steps (system M S (Trace N) E O ME SE (TraceError NE)).step
        (start.withMonitor (.withMonitor limits start.monitor))
        (tr.map (relabel TraceError.monitor)) (sim.withMonitor trace) ∧
      trace.monitor = sim.monitor ∧
      (sim.Live → trace.entries.iter = committedEntries tr) := by
  suffices ∃ (trace : Trace N) (entries : List TraceEntry),
      Steps (system M S (Trace N) E O ME SE (TraceError NE)).step
        (start.withMonitor (.withMonitor limits start.monitor))
        (tr.map (relabel TraceError.monitor)) (sim.withMonitor trace) ∧
      trace.monitor = sim.monitor ∧ trace.Records limits entries ∧
      entries.length = (tr.map fun l => l.2.shows).sum ∧
      (sim.Live → entries = committedEntries tr) by
    obtain ⟨trace, entries, htraced, hmonitor, hrecords, hlength, hentries⟩ := this
    refine ⟨trace, htraced, hmonitor, fun hlive => ?_⟩
    rw [hrecords.kept, List.take_of_length_le (hlength.trans_le hroom), hentries hlive]
  revert hroom
  refine hrun.invariant (I := fun tr sim => (tr.map fun l => l.2.shows).sum
      ≤ limits.entries.get.val → ∃ (trace : Trace N) (entries : List TraceEntry),
      Steps (system M S (Trace N) E O ME SE (TraceError NE)).step
        (start.withMonitor (.withMonitor limits start.monitor))
        (tr.map (relabel TraceError.monitor)) (sim.withMonitor trace) ∧
      trace.monitor = sim.monitor ∧ trace.Records limits entries ∧
      entries.length = (tr.map fun l => l.2.shows).sum ∧
      (sim.Live → entries = committedEntries tr)) ?_ ?_
  · intro _
    exact ⟨_, [], .refl, rfl, Trace.withMonitor_records limits start.monitor, rfl, fun _ => rfl⟩
  · rintro tr u ⟨call, reply⟩ v hprefix ih hstep hroom
    have hu : u.Sound := hprefix.preserves (fun hs hstep => (executes_of_exec hs hstep).sound hs) hs
    have hexec : u.exec call = .ok (v, reply) := hstep
    simp only [List.map_append, List.sum_append, List.map_singleton, List.sum_singleton] at hroom
    obtain ⟨trace, entries, htraced, hmonitor, hrecords, hlength, hentries⟩ := ih (by omega)
    rw [exec_audited] at hexec
    cases hbare : (u.bare.exec call : Except Panic (_ × Reply E O ME Empty SE)) with
    | error => simp [hbare, Except.map] at hexec
    | ok o =>
      obtain ⟨bare, played⟩ := o
      rw [hbare] at hexec
      replace hexec := Except.ok.inj hexec
      have hshows : (shown played).length = reply.shows :=
        shown_length hexec (bare_exec (hu.hostedBy u.scheduler NoopMonitor.mk) hbare)
      obtain ⟨trace', hmonitor', hrecords', haudited⟩ :=
        auditedCall_trace hrecords bare played
          (by rw [List.length_append, hlength, hshows]; exact hroom)
      rw [hmonitor, hexec] at hmonitor' haudited
      refine ⟨trace', entries ++ shown played, ?_, hmonitor', hrecords', ?_, ?_⟩
      · rw [List.map_append]
        refine htraced.snoc (l := relabel TraceError.monitor (call, reply)) ?_
        show (u.withMonitor trace).exec call = _
        rw [exec_audited]
        show (u.bare.exec call).map _ = _
        rw [hbare]
        exact congrArg Except.ok haudited
      · simp only [List.length_append, List.map_append, List.sum_append, List.map_singleton,
          List.sum_singleton, hlength, hshows]
      · intro hlive
        have hbefore : u.Live := by
          by_contra hnot
          have hanswer : u.exec call = .ok (u, (u.finalReply call : Reply E O ME NE SE)) :=
            (final_of_not_live hnot).answers call
          rw [hstep] at hanswer
          exact hnot ((Prod.mk.inj (Except.ok.inj hanswer)).1 ▸ hlive)
        rw [committedEntries_append, hentries hbefore, shown_committed call hexec hlive]

/-- A trace of two entries around the two actions of a short run. -/
theorem trace_transparent_short :
    let start : Simulation (Playback Unit Unit Empty) Fifo NoopMonitor Unit :=
      Playback.world [.done (.ok ⟨1, .now⟩)] Fifo.mk NoopMonitor.mk
    let tr := (start.history [.step, .step]).map Prod.snd
    (committedEntries tr).length = 2 ∧
    ∃ trace : Trace NoopMonitor,
      Steps (system (Playback Unit Unit Empty) Fifo (Trace NoopMonitor) Unit Unit Empty Empty
          (TraceError Empty)).step
        (start.withMonitor (.withMonitor ⟨⟨2, U64.two_ne_zero⟩, 0⟩ NoopMonitor.mk))
        (tr.map (relabel TraceError.monitor))
        ((start.after [.step, .step]).withMonitor trace) := by
  intro start tr
  have hs : start.Sound := withParts_sound (Playback.world_built _ Fifo.mk NoopMonitor.mk)
  obtain ⟨trace, hsteps, -⟩ := trace_transparent ⟨⟨2, U64.two_ne_zero⟩, 0⟩ hs
    (steps_after start [.step, .step]) (by decide +kernel)
  exact ⟨by decide +kernel, trace, hsteps⟩

end Simulation

end Calandria
