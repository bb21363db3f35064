/-
Transactional atomicity of actions.

`Simulation.attempt` is the callback the next step invokes, with the
simulation it starts from: the step is the run of that callback
(`step_attempt`).  What a begun action is, is determined by the simulation
(`attempt_iff`), so the transitions of `Calandria.Kernel` can name it.

`rollback_exact`: whatever context calls the callback makes, if it then fails,
panics, or stops its duty while deliveries for it are pending, the step takes
everything back but the id counter.
-/
import Calandria.Kernel

namespace Calandria

namespace Simulation

variable {M S N E O ME SE NE : Type} [Model M E O ME] [Scheduler S SE]

/-- The callback that the next step invokes, and the simulation it starts from. -/
def attempt (sim : Simulation M S N E) : Option (Simulation M S N E × Callback M E O ME) :=
  if sim.poisoned then none
  else if sim.phase ≠ .active then none
  else
    match sim.buildReady with
    | .ok (sim, .ok ()) =>
      if sim.ready.isEmpty then none
      else
        match (sim.enforceActionLimits : Except (StepError ME Empty SE) Unit) with
        | .error _ => none
        | .ok () =>
          match (sim.selectAction : Except Panic (_ × (StepReturn O ME Empty SE ⊕ _))) with
          | .ok (sim, .inr (selected, id)) =>
            match sim.setUp selected id with
            | .ok (sim, .ok callback) => some (sim, callback)
            | _ => none
          | _ => none
    | _ => none

/-! ### The begun action is unique -/

omit [Model M E O ME] in
theorem Selects.unique {sim selected selected' : Simulation M S N E} {key key' : ActionKey}
    (h : sim.Selects key selected) (h' : sim.Selects key' selected') :
    key = key' ∧ selected = selected' := by
  have hchoice := h.choice.symm.trans h'.choice
  obtain ⟨hscheduler, hkey⟩ := Prod.mk.inj hchoice
  have hactions : selected.actions = selected'.actions :=
    Fin.ext (h.actions.trans h'.actions.symm)
  have hmoment : selected.actionsAtMoment = selected'.actionsAtMoment :=
    Fin.ext (h.actionsAtMoment.trans h'.actionsAtMoment.symm)
  refine ⟨by simpa using hkey, ?_⟩
  rw [h.result, h'.result, hscheduler, hactions, hmoment]

theorem removes_unique {t t₁ t₂ : Timeline E} {token : EventToken} {entry entry' : Entry E}
    (h : t.Removes token entry t₁) (h' : t.Removes token entry' t₂) : entry = entry' ∧ t₁ = t₂ := by
  obtain rfl : entry = entry' := Option.some_inj.mp (h.pending.symm.trans h'.pending)
  have hretained : t₁.retained = t₂.retained := by
    have h1 := h.retained
    have h2 := h'.retained
    exact Fin.ext (by omega)
  refine ⟨rfl, ?_⟩
  rw [h.result, h'.result, hretained]

omit [Scheduler S SE] in
theorem Starts.unique {selected started started' : Simulation M S N E} {id : ActionId}
    {key : ActionKey} {callback callback' : Callback M E O ME}
    (h : Starts selected id key started callback)
    (h' : Starts selected id key started' callback') : started = started' ∧ callback = callback' := by
  generalize hkey : key = key' at h'
  cases h with
  | turn =>
    cases h' with
    | turn =>
      cases hkey
      exact ⟨rfl, rfl⟩
    | delivery => simp [ActionKey.turn, ActionKey.delivery] at hkey
  | @delivery token entry timeline hr _ =>
    cases h' with
    | turn => simp [ActionKey.turn, ActionKey.delivery] at hkey
    | @delivery token' entry' timeline' hr' _ =>
      simp only [ActionKey.delivery, ActionKey.mk.injEq, ActionKind.delivery.injEq] at hkey
      obtain rfl := hkey.2
      obtain ⟨rfl, rfl⟩ := removes_unique hr hr'
      exact ⟨rfl, rfl⟩

variable [Retained E]

/-- The attempt of a sound simulation is its begun action. -/
theorem attempt_iff {sim started : Simulation M S N E} {callback : Callback M E O ME}
    (hs : sim.Sound) :
    sim.attempt = some (started, callback) ↔ sim.Live ∧ sim.Begins started callback := by
  -- each check of the source against the guard of `Begins` it stands for
  by_cases hlive : sim.Live
  swap
  · refine iff_of_false (fun h => hlive ?_) fun h => hlive h.1
    rw [attempt] at h
    split_ifs at h with hpoisoned hactive
    exact ⟨by simpa using hpoisoned, not_not.mp hactive⟩
  rw [attempt, if_neg (by simp [hlive.unpoisoned]), if_neg (not_not.mpr hlive.active)]
  simp only [buildReady_eq hs, hlive, true_and]
  by_cases hempty : sim.enabled = []
  · rw [if_pos (show sim.built.ready.isEmpty = true by simp [built, hempty])]
    refine iff_of_false (by simp) ?_
    rintro ⟨key, selected, hsel, _⟩
    simpa [hempty] using hsel.enabled
  rw [if_neg (show ¬ sim.built.ready.isEmpty = true by simp [built, hempty])]
  rcases enforceActionLimits_cases ME Empty SE sim with
    ⟨hw, hok⟩ | ⟨hw, failure, herror⟩
  swap
  · rw [show sim.built.enforceActionLimits = _ from herror]
    refine iff_of_false (by simp) ?_
    rintro ⟨key, selected, hsel, _⟩
    exact hw hsel.within
  rw [show sim.built.enforceActionLimits = _ from hok]
  rcases selectAction_cases O ME Empty hs hw with
    ⟨scheduler, choice, r, hselect, hchoose, hrefused⟩ | ⟨key, selected, hselect, hsel⟩
  · simp only [hselect]
    refine iff_of_false (by simp) ?_
    rintro ⟨key, selected, hsel, _⟩
    obtain ⟨-, rfl⟩ := Prod.mk.inj (hchoose.symm.trans hsel.choice)
    cases hrefused with
    | invalid hmem => exact hmem hsel.enabled
  · obtain ⟨started', callback', hstarts, hsetUp⟩ := setUp_cases hs hsel
    simp only [hselect, hsetUp, Option.some_inj, Prod.mk.injEq]
    constructor
    · rintro ⟨rfl, rfl⟩
      exact ⟨key, selected, hsel, hstarts⟩
    · rintro ⟨key', selected', hsel', hstarts'⟩
      obtain ⟨rfl, rfl⟩ := hsel.unique hsel'
      exact hstarts.unique hstarts'

variable [Retained O] [Monitor N M O NE]

/-- A step with an attempt is the run of its callback. -/
theorem step_attempt {sim started : Simulation M S N E} {callback : Callback M E O ME}
    (hs : sim.Sound) (h : sim.attempt = some (started, callback)) :
    (sim.step : Except Panic (_ × StepReturn O ME NE SE)) = started.runCallback callback := by
  obtain ⟨hlive, key, selected, hsel, hstarts⟩ := (attempt_iff hs).mp h
  have hnonempty : sim.enabled ≠ [] := List.ne_nil_of_mem hsel.enabled
  rw [step, if_neg (by simp [hlive.unpoisoned]), if_neg (not_not.mpr hlive.active)]
  simp only [buildReady_eq hs, bind, Except.bind]
  rw [if_neg (show ¬ sim.built.ready.isEmpty = true by simp [built, hnonempty])]
  rcases enforceActionLimits_cases ME NE SE sim with
    ⟨hw, hok⟩ | ⟨hw, _⟩
  swap
  · exact absurd hsel.within hw
  rw [show sim.built.enforceActionLimits = _ from hok]
  rcases selectAction_cases O ME NE hs hw with
    ⟨scheduler, choice, r, _, hchoose, hrefused⟩ | ⟨key', selected', hselect, hsel'⟩
  · obtain ⟨-, rfl⟩ := Prod.mk.inj (hchoose.symm.trans hsel.choice)
    cases hrefused with
    | invalid hmem => exact absurd hsel.enabled hmem
  · obtain ⟨rfl, rfl⟩ := hsel.unique hsel'
    obtain ⟨started', callback', hstarts', hsetUp⟩ := setUp_cases hs hsel
    obtain ⟨rfl, rfl⟩ := hstarts.unique hstarts'
    simp only [hselect]
    exact executeSelected_eq hsetUp

omit [Retained O] [Monitor N M O NE] in
theorem attempt_eq_none {sim : Simulation M S N E} (hs : sim.Sound)
    (h : ∀ started (callback : Callback M E O ME), ¬ (sim.Live ∧ sim.Begins started callback)) :
    sim.attempt = none := by
  cases hattempt : sim.attempt with
  | none => rfl
  | some a => exact absurd ((attempt_iff hs).mp hattempt) (h _ _)

/-- The transitions of a simulation with an attempt roll it back or commit it;
those of a simulation without one leave the pending events, the stopped duties and
the monitor alone. -/
theorem Transition.attempted {sim sim' : Simulation M S N E} {r : StepReturn O ME NE SE}
    (h : sim.Transition r sim') (hs : sim.Sound) :
    (sim.attempt = none ∧ sim'.timeline.pending = sim.timeline.pending ∧
      sim'.timeline.nextId = sim.timeline.nextId ∧ sim'.stopped = sim.stopped ∧
      sim'.monitor = sim.monitor) ∨
    (∃ started callback ctx log model result timeline, sim.attempt = some (started, callback) ∧
      Runs started callback ctx log model result ∧ Abort callback.metadata ctx result r ∧
      started.timeline.RolledBack timeline ∧ sim' = ({ started with model, timeline }).halt r) ∨
    ∃ started callback ctx log model turn updated, sim.attempt = some (started, callback) ∧
      Runs started callback ctx log model (.ok turn) ∧
      Commits started callback ctx model turn updated ∧
      Finishes updated callback.metadata turn ctx.observations r sim' := by
  -- with nothing ready nothing is attempted
  have hempty : sim.enabled = [] → sim.attempt = none :=
    fun hnil => attempt_eq_none hs fun _ _ hb => hb.2.ready hnil
  cases h with
  | poisoned hp =>
    exact .inl ⟨attempt_eq_none hs fun _ _ hb => by simp [hb.1.unpoisoned] at hp, rfl, rfl,
      rfl, rfl⟩
  | inactive _ hi =>
    exact .inl ⟨attempt_eq_none hs fun _ _ hb => hi hb.1.active, rfl, rfl, rfl, rfl⟩
  | limited _ _ hw =>
    refine .inl ⟨attempt_eq_none hs ?_, rfl, rfl, rfl, rfl⟩
    rintro started callback ⟨_, key, selected, hsel, _⟩
    exact hw hsel.within
  | refused _ _ _ hchoose href =>
    refine .inl ⟨attempt_eq_none hs ?_, by rw [halt_timeline]; rfl, by rw [halt_timeline]; rfl,
      halt_stopped _ _, halt_monitor _ _⟩
    rintro started callback ⟨_, key, selected, hsel, _⟩
    obtain ⟨-, rfl⟩ := Prod.mk.inj (hchoose.symm.trans hsel.choice)
    cases href with
    | invalid hmem => exact hmem hsel.enabled
  | rolledBack hlive hb hruns ha hr _ =>
    exact .inr (.inl ⟨_, _, _, _, _, _, _, (attempt_iff hs).mpr ⟨hlive, hb⟩, hruns, ha, hr, rfl⟩)
  | committed hlive hb hruns hc hf =>
    exact .inr (.inr ⟨_, _, _, _, _, _, _, (attempt_iff hs).mpr ⟨hlive, hb⟩, hruns, hc, hf⟩)
  | completed _ hnil => exact .inl ⟨hempty hnil, rfl, rfl, rfl, rfl⟩
  | finishRefused _ hnil =>
    exact .inl ⟨hempty hnil, by rw [halt_timeline]; rfl, by rw [halt_timeline]; rfl,
      halt_stopped _ _, halt_monitor _ _⟩
  | quiescent _ hnil => exact .inl ⟨hempty hnil, rfl, rfl, rfl, rfl⟩
  | timeLimited _ hnil => exact .inl ⟨hempty hnil, rfl, rfl, rfl, rfl⟩
  | advanced _ hnil => exact .inl ⟨hempty hnil, rfl, rfl, rfl, rfl⟩

/-! ### Rollback -/

omit [Retained O] [Monitor N M O NE] in
/-- Where the callback starts: nothing is gone but the event it is handed. -/
theorem Begins.timeline {sim started : Simulation M S N E} {callback : Callback M E O ME}
    (h : sim.Begins started callback) (hs : sim.Sound) :
    (callback.delivered = none ∧ started.timeline = sim.timeline) ∨
    ∃ token routed, callback.delivered = some (token, routed) ∧
      sim.timeline.cancel token = .ok (started.timeline, some routed) := by
  obtain ⟨key, selected, hsel, hstarts⟩ := h
  have htimeline : selected.timeline = sim.timeline := by rw [hsel.result]
  cases hstarts with
  | turn => exact .inl ⟨rfl, htimeline⟩
  | @delivery token entry timeline hr _ =>
    rw [htimeline] at hr
    rcases Timeline.cancel_cases hs.wf token with ⟨hnone, _⟩ | ⟨entry', t, hcancel, hr'⟩
    · simp [hr.pending] at hnone
    · obtain ⟨rfl, rfl⟩ := removes_unique hr hr'
      exact .inr ⟨token, entry.event, rfl, hcancel⟩

/-- **Transactional atomicity**: in any reachable simulation about to run a
callback, the callback reaches its result without a panic of the kernel; and if
that result aborts the action, the step reports it and leaves the timeline as
it was when the callback started, but for the id counter, with no commit seen
by the scheduler and no call of the monitor. -/
theorem rollback_exact {sim started : Simulation M S N E} {callback : Callback M E O ME}
    (hreach : (system M S N E O ME SE NE).Reachable sim)
    (hattempt : sim.attempt = some (started, callback)) :
    ((callback.delivered = none ∧ started.timeline = sim.timeline) ∨
      ∃ token routed, callback.delivered = some (token, routed) ∧
        sim.timeline.cancel token = .ok (started.timeline, some routed)) ∧
    ∃ ctx log model result,
      callback.program.run (started.context callback.metadata) = .ok (ctx, log, model, result) ∧
      ∀ r : StepReturn O ME NE SE,
        ((result = .panicked ∧ r = .unwound .model) ∨
          (∃ source, result = .err source ∧ r = .err (.model callback.metadata source)) ∨
          ∃ turn pending, result = .ok turn ∧ turn.next = .stop ∧ pending ≠ 0 ∧
            ctx.pendingFor callback.metadata.key.duty = pending ∧
            r = .err (.kernel (.stoppedWithPending callback.metadata.key.duty pending))) →
        ∃ sim', sim.step = .ok (sim', r) ∧
          sim'.timeline = { started.timeline with nextId := sim'.timeline.nextId } ∧
          (∀ id, started.timeline.Issued id → sim'.timeline.Issued id) ∧
          sim'.monitor = sim.monitor ∧ sim'.states = sim.states ∧ sim'.stopped = sim.stopped ∧
          Scheduler.choose sim.scheduler sim.now sim.enabled
            = (sim'.scheduler, .ok callback.metadata.key) := by
  have hs := reachable_sound hreach
  obtain ⟨hlive, hb⟩ := (attempt_iff hs).mp hattempt
  obtain ⟨ctx, log, model, result, hruns⟩ := hb.runs hs
  have hmonitor : started.monitor = sim.monitor := by rw [hb.frame]
  have hstates : started.states = sim.states := by rw [hb.frame]
  have hstopped : started.stopped = sim.stopped := by rw [hb.frame]
  refine ⟨hb.timeline hs, ctx, log, model, result, hruns.run, fun r hr => ?_⟩
  -- the three results that abort
  have ha : Abort callback.metadata ctx result r := by
    rcases hr with ⟨rfl, rfl⟩ | ⟨source, rfl, rfl⟩ | ⟨turn, _, rfl, hstop, hpending, rfl, rfl⟩
    · exact .unwound
    · exact .failed
    · exact .stopRejected hstop hpending
  obtain ⟨timeline, hrun, hrolled, _⟩ := runCallback_abort hruns ha
  refine ⟨_, (step_attempt hs hattempt).trans hrun, ?_⟩
  rw [halt_timeline, halt_monitor, halt_states, halt_stopped, halt_scheduler]
  exact ⟨hrolled.result, fun id hid => hrolled.issued hid, hmonitor, hstates, hstopped, hb.choice⟩

/-- A callback that sends, cancels what it sent and what was pending, and fails. -/
def failingCallback : Program Unit Unit (Returned Turn Unit) :=
  .call (.send 1 ()) fun _ => .call (.cancel ⟨7, 1, 0⟩) fun _ => .call (.send 1 ()) fun _ =>
    .call (.cancel ⟨7, 0, 5⟩) fun _ => .call (.observe ()) fun _ => .done (.err ())

/-- A simulation with one event pending, about to run the failing callback. -/
def failingWorld : Simulation (Playback Unit Unit Unit) Fifo NoopMonitor Unit :=
  (Playback.world [failingCallback] ⟨⟩ ⟨⟩).after [.injectAfter 1 5 ()]

theorem rollback_exact_failing :
    failingWorld.timeline.pending.length = 1 ∧ ∃ sim', ∃ r : StepReturn Unit Unit Empty Empty,
      failingWorld.step = .ok (sim', r) ∧
        sim'.timeline = { failingWorld.timeline with nextId := sim'.timeline.nextId } := by
  have hrun := Playback.recorded_world [failingCallback] Fifo.mk NoopMonitor.mk [.injectAfter 1 5 ()]
  obtain ⟨⟨started, callback⟩, hattempt⟩ := Option.isSome_iff_exists.mp
    (by decide +kernel : failingWorld.attempt.isSome = true)
  have hresult : (failingWorld.attempt.bind fun a =>
      (a.2.program.run (a.1.context a.2.metadata)).toOption.map fun o => o.2.2.2)
        = some (.err ()) := by decide +kernel
  have hturn : (failingWorld.attempt.map fun a => (a.1.timeline.pending.length, a.2.delivered.isNone))
      = some (1, true) := by decide +kernel
  obtain ⟨hbefore, ctx, log, model, result, hprogram, habort⟩ :=
    rollback_exact hrun.ofRecording.reachable hattempt
  simp only [hattempt, Option.bind_some, hprogram, Except.toOption, Option.map_some,
    Option.some_inj, Prod.mk.injEq] at hresult hturn
  obtain ⟨sim', hstep, htimeline, _⟩ := habort _ (.inr (.inl ⟨(), hresult, rfl⟩))
  rcases hbefore with ⟨_, hsame⟩ | ⟨_, _, hdelivered, _⟩
  · exact ⟨by decide +kernel, sim', _, hstep, hsame ▸ htimeline⟩
  · simp [hdelivered] at hturn

end Simulation

end Calandria
