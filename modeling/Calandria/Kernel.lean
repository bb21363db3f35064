/-
What one step of the kernel does.

`Simulation.Sound` is the invariant of the kernel: where pending events may
point and when they are due, which duties are stopped, and how the counters
move.  For a sound simulation `step_cases` says everything a step can do
(`Transition`), and that it does not panic; `Transition.sound` and
`injectAt_cases` keep the invariant, so it holds in every reachable state
(`Reachable.sound`).  Every result about runs starts from these.
-/
import Calandria.Simulation
import Calandria.Transaction

namespace Calandria

namespace Simulation

variable {M S N E O ME SE NE : Type}

/-! ### The ready set -/

/-- The deliveries due now. -/
def dueDeliveries (sim : Simulation M S N E) : ReadySet :=
  (sim.timeline.tokensAt sim.now).filterMap fun token =>
    (sim.timeline.event token).map fun routed => .delivery routed.target token

/-- The ready set that `build_ready` computes in a sound simulation. -/
def enabled (sim : Simulation M S N E) : ReadySet :=
  ActionKey.canonical (sim.dueDeliveries ++ sim.runnableTurns)

theorem mem_dueDeliveries {sim : Simulation M S N E} {key : ActionKey} :
    key ∈ sim.dueDeliveries ↔ ∃ token entry, sim.timeline.lookup token = some entry ∧
      token.moment = sim.now ∧ key = .delivery entry.event.target token := by
  simp only [dueDeliveries, List.mem_filterMap, Timeline.mem_tokensAt, Option.map_eq_some_iff,
    Timeline.event]
  constructor
  · rintro ⟨token, ⟨hmoment, _⟩, routed, ⟨entry, hentry, rfl⟩, rfl⟩
    exact ⟨token, entry, hentry, hmoment, rfl⟩
  · rintro ⟨token, entry, hentry, hmoment, rfl⟩
    exact ⟨token, ⟨hmoment, entry, hentry⟩, entry.event, ⟨entry, hentry, rfl⟩, rfl⟩

theorem mem_runnableTurns {sim : Simulation M S N E} {key : ActionKey} :
    key ∈ sim.runnableTurns ↔ ∃ duty state, sim.states.get? duty = some state ∧
      runnable sim.now state = true ∧ key = .turn duty := by
  simp only [runnableTurns, List.mem_map, List.mem_filter, Prod.exists, OrderedMap.mem_entries]
  constructor
  · rintro ⟨duty, state, ⟨hstate, hrun⟩, rfl⟩
    exact ⟨duty, state, hstate, hrun, rfl⟩
  · rintro ⟨duty, state, hstate, hrun, rfl⟩
    exact ⟨duty, state, ⟨hstate, hrun⟩, rfl⟩

theorem keys_nodup (sim : Simulation M S N E) :
    (sim.dueDeliveries ++ sim.runnableTurns).Nodup := by
  refine List.nodup_append.mpr ⟨?_, ?_, ?_⟩
  · refine (sim.timeline.tokensAt_nodup sim.now).filterMap fun a b key ha hb => ?_
    obtain ⟨_, _, rfl⟩ := Option.map_eq_some_iff.mp ha
    obtain ⟨_, _, hkey⟩ := Option.map_eq_some_iff.mp hb
    simp only [ActionKey.delivery, ActionKey.mk.injEq, ActionKind.delivery.injEq] at hkey
    exact hkey.2.symm
  · have hkeys : (sim.states.entries.filter fun e => runnable sim.now e.2).Pairwise
        fun a b => a.1 < b.1 := sim.states.sorted.filter _
    refine List.pairwise_map.mpr (hkeys.imp fun {a b} hab he => hab.ne ?_)
    simpa [ActionKey.turn] using he
  · intro a ha b hb he
    obtain ⟨_, _, _, _, rfl⟩ := mem_dueDeliveries.mp ha
    obtain ⟨_, _, _, _, rfl⟩ := mem_runnableTurns.mp hb
    simp [ActionKey.delivery, ActionKey.turn] at he

theorem mem_enabled {sim : Simulation M S N E} {key : ActionKey} :
    key ∈ sim.enabled ↔ key ∈ sim.dueDeliveries ∨ key ∈ sim.runnableTurns := by
  rw [enabled, (ActionKey.canonical_perm sim.keys_nodup).mem_iff, List.mem_append]

theorem enabled_sorted (sim : Simulation M S N E) : sim.enabled.Pairwise (· < ·) :=
  ActionKey.canonical_sorted sim.keys_nodup

/-- Nothing is ready exactly when no delivery is due and no duty is runnable. -/
theorem enabled_eq_nil {sim : Simulation M S N E} :
    sim.enabled = [] ↔
      (∀ token entry, sim.timeline.lookup token = some entry → token.moment ≠ sim.now) ∧
      ∀ duty state, sim.states.get? duty = some state → runnable sim.now state = false := by
  rw [List.eq_nil_iff_forall_not_mem]
  simp only [mem_enabled, not_or, mem_dueDeliveries, mem_runnableTurns]
  constructor
  · intro h
    refine ⟨fun token entry hentry hmoment => ?_, fun duty state hstate => ?_⟩
    · exact (h _).1 ⟨token, entry, hentry, hmoment, rfl⟩
    · by_contra hrun
      exact (h _).2 ⟨duty, state, hstate, by simpa using hrun, rfl⟩
  · rintro ⟨hdue, hrun⟩ key
    refine ⟨?_, ?_⟩
    · rintro ⟨token, entry, hentry, hmoment, rfl⟩
      exact hdue token entry hentry hmoment
    · rintro ⟨duty, state, hstate, hrunnable, rfl⟩
      simp [hrun duty state hstate] at hrunnable

/-! ### Deadlines -/

theorem mem_deadlines {sim : Simulation M S N E} {moment : Moment} :
    moment ∈ sim.deadlines ↔
      ∃ duty state, sim.states.get? duty = some state ∧ state.next = .wakeOr moment := by
  simp only [deadlines, List.mem_filterMap, OrderedMap.mem_values]
  constructor
  · rintro ⟨state, ⟨duty, hstate⟩, hnext⟩
    refine ⟨duty, state, hstate, ?_⟩
    cases hn : state.next <;> simp_all
  · rintro ⟨duty, state, hstate, hnext⟩
    exact ⟨state, ⟨duty, hstate⟩, by simp [hnext]⟩

theorem nextDeadline_eq_none {sim : Simulation M S N E} :
    sim.nextDeadline = none ↔ ∀ moment, moment ∉ sim.deadlines := by
  rw [nextDeadline, List.min?_eq_none_iff, List.eq_nil_iff_forall_not_mem]

theorem nextDeadline_spec {sim : Simulation M S N E} {moment : Moment}
    (h : sim.nextDeadline = some moment) :
    moment ∈ sim.deadlines ∧ ∀ deadline ∈ sim.deadlines, moment ≤ deadline :=
  List.min?_eq_some_iff.mp h

/-- The moments at which something is to happen. -/
def Upcoming (sim : Simulation M S N E) (moment : Moment) : Prop :=
  (∃ token entry, sim.timeline.lookup token = some entry ∧ token.moment = moment) ∨
    moment ∈ sim.deadlines

theorem earliest_eq_none {sim : Simulation M S N E} :
    earliest sim.timeline.nextAt sim.nextDeadline = none ↔ ∀ moment, ¬ sim.Upcoming moment := by
  have hiff : earliest sim.timeline.nextAt sim.nextDeadline = none ↔
      sim.timeline.nextAt = none ∧ sim.nextDeadline = none := by
    cases sim.timeline.nextAt <;> cases sim.nextDeadline <;> simp [earliest]
  rw [hiff, Timeline.nextAt_eq_none, nextDeadline_eq_none]
  constructor
  · rintro ⟨hnone, hdead⟩ moment (⟨token, entry, hentry, _⟩ | hmem)
    · simp [hnone] at hentry
    · exact hdead moment hmem
  · intro h
    refine ⟨fun token => ?_, fun moment hmem => h moment (.inr hmem)⟩
    by_contra hne
    obtain ⟨entry, hentry⟩ := Option.ne_none_iff_exists'.mp hne
    exact h token.moment (.inl ⟨token, entry, hentry, rfl⟩)

/-- `earliest` computes the least upcoming moment. -/
theorem earliest_spec {sim : Simulation M S N E} {moment : Moment}
    (h : earliest sim.timeline.nextAt sim.nextDeadline = some moment) :
    sim.Upcoming moment ∧ ∀ other, sim.Upcoming other → moment ≤ other := by
  have hpending : ∀ {left}, sim.timeline.nextAt = some left → sim.Upcoming left ∧
      ∀ token entry, sim.timeline.lookup token = some entry → left ≤ token.moment :=
    fun hleft => ⟨.inl (Timeline.nextAt_spec hleft).1, (Timeline.nextAt_spec hleft).2⟩
  cases hleft : sim.timeline.nextAt with
  | none =>
    have hnone := Timeline.nextAt_eq_none.mp hleft
    cases hright : sim.nextDeadline with
    | none => simp [hleft, hright, earliest] at h
    | some right =>
      obtain rfl : right = moment := by simpa [hleft, hright, earliest] using h
      refine ⟨.inr (nextDeadline_spec hright).1, ?_⟩
      rintro other (⟨token, entry, hentry, _⟩ | hmem)
      · simp [hnone] at hentry
      · exact (nextDeadline_spec hright).2 other hmem
  | some left =>
    cases hright : sim.nextDeadline with
    | none =>
      obtain rfl : left = moment := by simpa [hleft, hright, earliest] using h
      refine ⟨(hpending hleft).1, ?_⟩
      rintro other (⟨token, entry, hentry, rfl⟩ | hmem)
      · exact (hpending hleft).2 token entry hentry
      · exact absurd hmem (nextDeadline_eq_none.mp hright other)
    | some right =>
      obtain rfl : min left right = moment := by simpa [hleft, hright, earliest] using h
      refine ⟨?_, ?_⟩
      · rcases min_choice left right with hmin | hmin
        · rw [hmin]
          exact (hpending hleft).1
        · rw [hmin]
          exact .inr (nextDeadline_spec hright).1
      · rintro other (⟨token, entry, hentry, rfl⟩ | hmem)
        · exact (min_le_left _ _).trans ((hpending hleft).2 token entry hentry)
        · exact (min_le_right _ _).trans ((nextDeadline_spec hright).2 other hmem)

/-! ### The kernel invariant -/

/-- The invariant of every reachable simulation. -/
structure Sound [Retained E] (sim : Simulation M S N E) : Prop where
  wf : sim.timeline.WF
  measure : sim.timeline.measure = Retained.retainedBytes
  pending : ∀ {token entry}, sim.timeline.lookup token = some entry →
    sim.topology.contains entry.event.target = true ∧ entry.event.target ∉ sim.stopped ∧
      token.moment ≤ sim.limits.maxVirtualTime
  stopped : ∀ {duty}, duty ∈ sim.stopped ↔
    ∃ state, sim.states.get? duty = some state ∧ state.next = .stop
  keys : ∀ {duty}, (∃ state, sim.states.get? duty = some state) ↔ duty ∈ sim.topology.duties
  clock : sim.now ≤ sim.limits.maxVirtualTime
  counter : sim.nextAction = some sim.actions
  total : sim.actions ≤ sim.limits.totalActions.get
  atMoment : sim.actionsAtMoment ≤ sim.limits.actionsPerMoment.get

/-- The owner may still make progress. -/
structure Live (sim : Simulation M S N E) : Prop where
  unpoisoned : sim.poisoned = false
  active : sim.phase = .active

/-- Another action fits the action limits. -/
structure WithinLimits (sim : Simulation M S N E) : Prop where
  total : sim.actions < sim.limits.totalActions.get
  atMoment : sim.actionsAtMoment < sim.limits.actionsPerMoment.get

/-- Every duty has stopped for good. -/
def AllStopped (sim : Simulation M S N E) : Prop := ∀ duty ∈ sim.topology.duties, duty ∈ sim.stopped

/-- A step ends in failure or with the poison flag raised. -/
def halt (sim : Simulation M S N E) : StepReturn O ME NE SE → Simulation M S N E
  | .ok _ => sim
  | .err _ => sim.fail
  | .unwound _ => { sim with poisoned := true }

section

variable (sim : Simulation M S N E) (r : StepReturn O ME NE SE)

@[simp] theorem halt_timeline : (sim.halt r).timeline = sim.timeline := by cases r <;> rfl

@[simp] theorem halt_scheduler : (sim.halt r).scheduler = sim.scheduler := by cases r <;> rfl

@[simp] theorem halt_monitor : (sim.halt r).monitor = sim.monitor := by cases r <;> rfl

@[simp] theorem halt_states : (sim.halt r).states = sim.states := by cases r <;> rfl

@[simp] theorem halt_stopped : (sim.halt r).stopped = sim.stopped := by cases r <;> rfl

end

/-- The simulation with its ready buffer filled. -/
def built (sim : Simulation M S N E) : Simulation M S N E := { sim with ready := sim.enabled }

/-! ### What a step can do -/

/-- The scheduler's choice that fails a step, and the failure. -/
inductive Refusal (ready : ReadySet) : Returned ActionKey SE → StepReturn O ME NE SE → Prop
  | unwound : Refusal ready .panicked (.unwound .choose)
  | failed {source} : Refusal ready (.err source) (.err (.scheduler source))
  | invalid {key} : key ∉ ready → Refusal ready (.ok key) (.err (.invalidSelection key))

/-- The scheduler's verdict that fails a completion, and the failure. -/
inductive FinishRefusal : Returned Unit SE → StepReturn O ME NE SE → Prop
  | unwound : FinishRefusal .panicked (.unwound .finished)
  | failed {source} : FinishRefusal (.err source) (.err (.scheduler source))

/-- The callback results that roll the action back, and the failure. -/
inductive Abort (metadata : ActionMeta) (ctx : ActionContext E O) :
    Returned Turn ME → StepReturn O ME NE SE → Prop
  | unwound : Abort metadata ctx .panicked (.unwound .model)
  | failed {source} : Abort metadata ctx (.err source) (.err (.model metadata source))
  | stopRejected {turn} : turn.next = .stop → ctx.pendingFor metadata.key.duty ≠ 0 →
      Abort metadata ctx (.ok turn) (.err (.kernel
        (.stoppedWithPending metadata.key.duty (ctx.pendingFor metadata.key.duty))))

/-- `selected` is `sim` with `key` chosen and the action counted. -/
structure Selects [Scheduler S SE] (sim : Simulation M S N E) (key : ActionKey)
    (selected : Simulation M S N E) : Prop where
  enabled : key ∈ sim.enabled
  within : sim.WithinLimits
  choice : Scheduler.choose sim.scheduler sim.now sim.enabled = (selected.scheduler, .ok key)
  actions : selected.actions.val = sim.actions.val + 1
  actionsAtMoment : selected.actionsAtMoment.val = sim.actionsAtMoment.val + 1
  result : selected = { sim with
    ready := sim.enabled
    scheduler := selected.scheduler
    nextAction := some selected.actions
    actions := selected.actions
    actionsAtMoment := selected.actionsAtMoment }

/-- `started` is `selected` once the callback of the chosen action is set up. -/
inductive Starts [Model M E O ME] (selected : Simulation M S N E) (id : ActionId) :
    ActionKey → Simulation M S N E → Callback M E O ME → Prop
  | turn {duty} : Starts selected id (.turn duty) selected (selected.turnCallback (.turn duty) id)
  | delivery {token entry timeline} : selected.timeline.Removes token entry timeline →
      token.moment = selected.now →
      Starts selected id (.delivery entry.event.target token) { selected with timeline } {
        metadata := ⟨id, .delivery entry.event.target token, selected.now, entry.event.cause⟩
        delivered := some (token, entry.event)
        program := Model.deliver selected.model entry.event.target ⟨token, entry.event.event⟩
          selected.now id }

/-- `sim` selects an action whose callback is `callback`, from `started` on. -/
def Begins [Model M E O ME] [Scheduler S SE] (sim started : Simulation M S N E)
    (callback : Callback M E O ME) : Prop :=
  ∃ key selected, sim.Selects key selected ∧ Starts selected sim.actions key started callback

/-- The callback runs to its result inside a sound transaction. -/
structure Runs [Retained E] [Retained O] (started : Simulation M S N E)
    (callback : Callback M E O ME) (ctx : ActionContext E O)
    (log : List (ContextCall E O × ContextReply E O)) (model : M) (result : Returned Turn ME) :
    Prop where
  run : callback.program.run (started.context callback.metadata) = .ok (ctx, log, model, result)
  transaction : Transaction (started.context callback.metadata) ctx
  steps : Steps ContextStep (started.context callback.metadata) log ctx

/-- `updated` is `started` after its callback committed with `turn`. -/
structure Commits (started : Simulation M S N E) (callback : Callback M E O ME)
    (ctx : ActionContext E O) (model : M) (turn : Turn) (updated : Simulation M S N E) : Prop where
  unneeded : turn.next = .stop → ctx.pendingFor callback.metadata.key.duty = 0
  result : ∃ state, started.states.get? callback.metadata.key.duty = some state ∧
    updated = { started with
      model
      timeline := ctx.timeline
      states := started.states.insert callback.metadata.key.duty
        (state.update turn callback.delivered.isSome)
      stopped := if turn.next = .stop then insert callback.metadata.key.duty started.stopped
        else started.stopped }

section

variable [Scheduler S SE] [Monitor N M O NE]

/-- Everything the hooks can make of a committed action. -/
inductive Finishes (updated : Simulation M S N E) (metadata : ActionMeta) (turn : Turn)
    (observations : List O) : StepReturn O ME NE SE → Simulation M S N E → Prop
  | commitUnwound {scheduler} :
      Scheduler.committed updated.scheduler metadata turn = (scheduler, .panicked) →
      Finishes updated metadata turn observations (.unwound .committed)
        ({ updated with scheduler, poisoned := true })
  | commitFailed {scheduler source} :
      Scheduler.committed updated.scheduler metadata turn = (scheduler, .err source) →
      Finishes updated metadata turn observations (.err (.scheduler source))
        ({ updated with scheduler }.fail)
  | monitorUnwound {scheduler monitor} :
      Scheduler.committed updated.scheduler metadata turn = (scheduler, .ok ()) →
      Monitor.afterAction updated.monitor updated.view ⟨metadata, turn, observations⟩
        = (monitor, .panicked) →
      Finishes updated metadata turn observations (.unwound .monitor)
        { updated with scheduler, monitor, poisoned := true }
  | monitorFailed {scheduler monitor source} :
      Scheduler.committed updated.scheduler metadata turn = (scheduler, .ok ()) →
      Monitor.afterAction updated.monitor updated.view ⟨metadata, turn, observations⟩
        = (monitor, .err source) →
      Finishes updated metadata turn observations (.err (.monitor metadata source))
        ({ updated with scheduler, monitor }.fail)
  | accepted {scheduler monitor} :
      Scheduler.committed updated.scheduler metadata turn = (scheduler, .ok ()) →
      Monitor.afterAction updated.monitor updated.view ⟨metadata, turn, observations⟩
        = (monitor, .ok ()) →
      Finishes updated metadata turn observations (.ok (.action ⟨metadata, turn, observations⟩))
        { updated with scheduler, monitor }

theorem finishAction_cases (updated : Simulation M S N E) (metadata : ActionMeta) (turn : Turn)
    (observations : List O) :
    ∃ sim', ∃ r : StepReturn O ME NE SE,
      updated.finishAction metadata turn observations = (sim', r) ∧
        Finishes updated metadata turn observations r sim' := by
  rw [finishAction]
  cases hcommitted : Scheduler.committed updated.scheduler metadata turn with
  | mk scheduler verdict =>
    cases verdict with
    | panicked => exact ⟨_, _, rfl, .commitUnwound hcommitted⟩
    | err source => exact ⟨_, _, rfl, .commitFailed hcommitted⟩
    | ok =>
      have hview : ({ updated with scheduler } : Simulation M S N E).view = updated.view := rfl
      simp only [hview]
      cases hafter : Monitor.afterAction updated.monitor updated.view
          ⟨metadata, turn, observations⟩ with
      | mk monitor verdict =>
        cases verdict with
        | panicked => exact ⟨_, _, rfl, .monitorUnwound hcommitted hafter⟩
        | err source => exact ⟨_, _, rfl, .monitorFailed hcommitted hafter⟩
        | ok => exact ⟨_, _, rfl, .accepted hcommitted hafter⟩

/-- The hooks leave everything but themselves and the lifecycle alone. -/
theorem Finishes.frame {updated sim' : Simulation M S N E} {metadata : ActionMeta} {turn : Turn}
    {observations : List O} {r : StepReturn O ME NE SE}
    (h : Finishes updated metadata turn observations r sim') :
    sim' = { updated with
      scheduler := sim'.scheduler, monitor := sim'.monitor, phase := sim'.phase
      poisoned := sim'.poisoned } := by
  cases h <;> rfl

/-- An action that the scheduler refuses fails the step before the monitor sees it. -/
theorem Finishes.of_err {updated sim' : Simulation M S N E} {metadata : ActionMeta} {turn : Turn}
    {observations : List O} {r : StepReturn O ME NE SE} {scheduler : S} {source : SE}
    (h : Finishes updated metadata turn observations r sim')
    (hv : Scheduler.committed updated.scheduler metadata turn = (scheduler, .err source)) :
    r = .err (.scheduler source) ∧ sim' = ({ updated with scheduler } : Simulation M S N E).fail := by
  cases h with
  | commitFailed hv' =>
    cases hv'.symm.trans hv
    exact ⟨rfl, rfl⟩
  | commitUnwound hv' | monitorUnwound hv' | monitorFailed hv' | accepted hv' =>
    cases hv'.symm.trans hv

/-- Once the scheduler has accepted the action, only the monitor can fail the step. -/
theorem Finishes.of_ok {updated sim' : Simulation M S N E} {metadata : ActionMeta} {turn : Turn}
    {observations : List O} {r : StepReturn O ME NE SE} {scheduler : S}
    (h : Finishes updated metadata turn observations r sim')
    (hv : Scheduler.committed updated.scheduler metadata turn = (scheduler, .ok ())) :
    sim'.scheduler = scheduler ∧ (r = .ok (.action ⟨metadata, turn, observations⟩) ∨
      (r = .unwound .monitor ∨ ∃ source, r = .err (.monitor metadata source)) ∧ ¬ sim'.Live) := by
  cases h with
  | commitUnwound hv' | commitFailed hv' => cases hv'.symm.trans hv
  | monitorUnwound hv' =>
    cases hv'.symm.trans hv
    exact ⟨rfl, .inr ⟨.inl rfl, fun hlive => by cases hlive.unpoisoned⟩⟩
  | monitorFailed hv' =>
    cases hv'.symm.trans hv
    exact ⟨rfl, .inr ⟨.inr ⟨_, rfl⟩, fun hlive => by cases hlive.active⟩⟩
  | accepted hv' =>
    cases hv'.symm.trans hv
    exact ⟨rfl, .inl rfl⟩

end

/-- What a commit may change. -/
theorem Commits.frame {started updated : Simulation M S N E} {callback : Callback M E O ME}
    {ctx : ActionContext E O} {model : M} {turn : Turn}
    (h : Commits started callback ctx model turn updated) :
    updated = { started with
      model, timeline := ctx.timeline, states := updated.states, stopped := updated.stopped } := by
  obtain ⟨state, _, hupdated⟩ := h.result
  rw [hupdated]

variable [Retained E] [Retained O] [Model M E O ME] [Scheduler S SE] [Monitor N M O NE]

/-- Everything one step can do. -/
inductive Transition (sim : Simulation M S N E) :
    StepReturn O ME NE SE → Simulation M S N E → Prop
  | poisoned : sim.poisoned = true → Transition sim (.err .poisoned) sim
  | inactive : sim.poisoned = false → sim.phase ≠ .active →
      Transition sim (.err (.inactive sim.phase)) sim
  | limited {failure} : sim.Live → sim.enabled ≠ [] → ¬ sim.WithinLimits →
      Transition sim (.err (.limit failure)) sim.built.fail
  | refused {choice scheduler r} : sim.Live → sim.enabled ≠ [] → sim.WithinLimits →
      Scheduler.choose sim.scheduler sim.now sim.enabled = (scheduler, choice) →
      Refusal sim.enabled choice r →
      Transition sim r ({ sim.built with scheduler }.halt r)
  | rolledBack {started callback ctx log model result timeline r} : sim.Live →
      sim.Begins started callback → Runs started callback ctx log model result →
      Abort callback.metadata ctx result r → started.timeline.RolledBack timeline → timeline.WF →
      Transition sim r ({ started with model, timeline }.halt r)
  | committed {started callback ctx log model turn updated r sim'} : sim.Live →
      sim.Begins started callback → Runs started callback ctx log model (.ok turn) →
      Commits started callback ctx model turn updated →
      Finishes updated callback.metadata turn ctx.observations r sim' →
      Transition sim r sim'
  | completed {scheduler} : sim.Live → sim.enabled = [] → sim.AllStopped →
      sim.timeline.pending = [] → Scheduler.finished sim.scheduler = (scheduler, .ok ()) →
      Transition sim (.ok (.completed { sim.built with scheduler, phase := .completed }.snapshot))
        { sim.built with scheduler, phase := .completed }
  | finishRefused {verdict scheduler r} : sim.Live → sim.enabled = [] → sim.AllStopped →
      sim.timeline.pending = [] → Scheduler.finished sim.scheduler = (scheduler, verdict) →
      FinishRefusal verdict r → Transition sim r ({ sim.built with scheduler }.halt r)
  | quiescent : sim.Live → sim.enabled = [] → ¬ sim.AllStopped →
      (∀ moment, ¬ sim.Upcoming moment) →
      Transition sim (.ok (.quiescent sim.snapshot)) sim.built
  | timeLimited {next} : sim.Live → sim.enabled = [] → ¬ sim.AllStopped → sim.Upcoming next →
      (∀ other, sim.Upcoming other → next ≤ other) → sim.limits.maxVirtualTime < next →
      Transition sim (.err (.limit (.virtualTime next sim.limits.maxVirtualTime))) sim.built.fail
  | advanced {next} : sim.Live → sim.enabled = [] → ¬ sim.AllStopped → sim.Upcoming next →
      (∀ other, sim.Upcoming other → next ≤ other) → sim.now < next →
      next ≤ sim.limits.maxVirtualTime →
      Transition sim (.ok (.timeAdvanced sim.now next))
        { sim.built with timeline := { sim.timeline with clock := ⟨next⟩ }, actionsAtMoment := 0 }

/-! ### The phases of a step -/

omit [Retained O] [Model M E O ME] [Scheduler S SE] [Monitor N M O NE]

theorem pushDeliveries_eq {sim : Simulation M S N E} (h : sim.Sound) {tokens : List EventToken}
    (hpending : ∀ token ∈ tokens, ∃ entry, sim.timeline.lookup token = some entry)
    (ready : ReadySet) :
    sim.pushDeliveries tokens ready = .ok (ready ++ tokens.filterMap (fun token =>
      (sim.timeline.event token).map fun routed => .delivery routed.target token), .ok ()) := by
  induction tokens generalizing ready with
  | nil => simp [pushDeliveries]
  | cons token rest ih =>
    obtain ⟨entry, hentry⟩ := hpending token List.mem_cons_self
    obtain ⟨hknown, hlive, _⟩ := h.pending hentry
    have hevent : sim.timeline.event token = some entry.event := by
      rw [Timeline.event, hentry]
      rfl
    simp only [pushDeliveries, hevent, hknown, Bool.not_true, Bool.false_eq_true, if_false,
      if_neg hlive, List.filterMap_cons, Option.map_some]
    rw [ih fun token' hmem => hpending token' (List.mem_cons_of_mem _ hmem), List.append_assoc]
    rfl

/-- `build_ready` neither fails nor panics, and computes `enabled`. -/
theorem buildReady_eq {sim : Simulation M S N E} (h : sim.Sound) :
    sim.buildReady = .ok (sim.built, .ok ()) := by
  have hpending : ∀ token ∈ sim.timeline.tokensAt sim.now,
      ∃ entry, sim.timeline.lookup token = some entry :=
    fun token hmem => (Timeline.mem_tokensAt.mp hmem).2
  have hpush := pushDeliveries_eq h hpending []
  simp only [buildReady, hpush]
  rfl

theorem stopped_card {sim : Simulation M S N E} (h : sim.Sound) :
    sim.stopped.card = sim.topology.len ↔ sim.AllStopped := by
  have hnodup : sim.topology.duties.Nodup := sim.topology.sorted.imp fun hab => hab.ne
  have hlen : sim.topology.duties.toFinset.card = sim.topology.len :=
    List.toFinset_card_of_nodup hnodup
  have hsub : sim.stopped ⊆ sim.topology.duties.toFinset := by
    intro duty hmem
    obtain ⟨state, hstate, _⟩ := h.stopped.mp hmem
    exact List.mem_toFinset.mpr (h.keys.mp ⟨state, hstate⟩)
  rw [← hlen]
  constructor
  · intro hcard duty hmem
    rw [Finset.eq_of_subset_of_card_le hsub hcard.ge]
    exact List.mem_toFinset.mpr hmem
  · intro hall
    exact congrArg _ (hsub.antisymm fun duty hmem => hall duty (List.mem_toFinset.mp hmem))

/-- Once every duty is stopped nothing is pending. -/
theorem pending_eq_nil {sim : Simulation M S N E} (h : sim.Sound) (hall : sim.AllStopped) :
    sim.timeline.pending = [] := by
  refine List.eq_nil_iff_forall_not_mem.mpr fun ⟨token, routed⟩ hmem => ?_
  obtain ⟨entry, hentry, rfl⟩ := Timeline.mem_pending.mp hmem
  obtain ⟨hknown, hlive, _⟩ := h.pending hentry
  exact hlive (hall _ (by simpa [Topology.contains] using hknown))

/-- With nothing ready, everything upcoming lies in the future. -/
theorem now_lt_upcoming {sim : Simulation M S N E} (h : sim.Sound) (hempty : sim.enabled = [])
    {moment : Moment} (hup : sim.Upcoming moment) : sim.now < moment := by
  obtain ⟨hdue, hrun⟩ := enabled_eq_nil.mp hempty
  rcases hup with ⟨token, entry, hentry, rfl⟩ | hmem
  · exact lt_of_le_of_ne (h.wf.future hentry) (Ne.symm (hdue token entry hentry))
  · obtain ⟨duty, state, hstate, hnext⟩ := mem_deadlines.mp hmem
    have hfalse := hrun duty state hstate
    rw [runnable, hnext] at hfalse
    simpa [Deadline.isElapsedAt] using hfalse

/-! ### Soundness of the parts -/

theorem Sound.halt {sim : Simulation M S N E} (h : sim.Sound) (r : StepReturn O ME NE SE) :
    (sim.halt r).Sound := by
  cases r <;> exact ⟨h.wf, h.measure, h.pending, h.stopped, h.keys, h.clock, h.counter, h.total,
    h.atMoment⟩

/-- Only the timeline has to be looked at when nothing else that matters changed. -/
theorem Sound.withTimeline {sim : Simulation M S N E} {t : Timeline (Routed E)} (h : sim.Sound)
    (hwf : t.WF) (hmeasure : t.measure = Retained.retainedBytes)
    (hclock : t.now ≤ sim.limits.maxVirtualTime)
    (hpending : ∀ {token entry}, t.lookup token = some entry →
      sim.topology.contains entry.event.target = true ∧ entry.event.target ∉ sim.stopped ∧
        token.moment ≤ sim.limits.maxVirtualTime) :
    ({ sim with timeline := t } : Simulation M S N E).Sound :=
  ⟨hwf, hmeasure, hpending, h.stopped, h.keys, hclock, h.counter, h.total, h.atMoment⟩

theorem Sound.removes {sim : Simulation M S N E} {token : EventToken} {entry : Entry (Routed E)}
    {t : Timeline (Routed E)} (h : sim.Sound) (hr : sim.timeline.Removes token entry t) :
    ({ sim with timeline := t } : Simulation M S N E).Sound := by
  refine h.withTimeline (hr.wf h.wf) (hr.frame.measure.trans h.measure) ?_ ?_
  · rw [Timeline.now, hr.frame.clock]
    exact h.clock
  · intro token' entry' hlook
    rw [hr.lookup] at hlook
    split_ifs at hlook
    exact h.pending hlook

theorem Sound.rolledBack {sim : Simulation M S N E} {t : Timeline (Routed E)} (h : sim.Sound)
    (hr : sim.timeline.RolledBack t) (hwf : t.WF) :
    ({ sim with timeline := t } : Simulation M S N E).Sound := by
  have hlookup : ∀ token, t.lookup token = sim.timeline.lookup token := by
    intro token
    rw [hr.result]
    rfl
  refine h.withTimeline hwf ?_ ?_ fun {token entry} hlook => h.pending (hlookup token ▸ hlook)
  · rw [hr.result]
    exact h.measure
  · rw [hr.result]
    exact h.clock

theorem Selects.sound [Scheduler S SE] {sim selected : Simulation M S N E} {key : ActionKey}
    (h : sim.Selects key selected) (hs : sim.Sound) : selected.Sound := by
  have hactions := h.actions
  have hmoment := h.actionsAtMoment
  have htotal := h.within.total
  have hat := h.within.atMoment
  have hcount : selected.actions ≤ sim.limits.totalActions.get := by
    rw [Fin.lt_def] at htotal
    rw [Fin.le_def]
    omega
  have hcount' : selected.actionsAtMoment ≤ sim.limits.actionsPerMoment.get := by
    rw [Fin.lt_def] at hat
    rw [Fin.le_def]
    omega
  rw [h.result]
  exact ⟨hs.wf, hs.measure, hs.pending, hs.stopped, hs.keys, hs.clock, rfl, hcount, hcount'⟩

theorem Starts.sound [Model M E O ME] {selected started : Simulation M S N E} {id : ActionId}
    {key : ActionKey} {callback : Callback M E O ME} (h : Starts selected id key started callback)
    (hs : selected.Sound) : started.Sound := by
  cases h with
  | turn => exact hs
  | delivery hr _ => exact hs.removes hr

theorem Begins.sound [Model M E O ME] [Scheduler S SE] {sim started : Simulation M S N E}
    {callback : Callback M E O ME} (h : sim.Begins started callback) (hs : sim.Sound) :
    started.Sound := by
  obtain ⟨key, selected, hsel, hstart⟩ := h
  exact hstart.sound (hsel.sound hs)

omit [Retained E] in
/-- Only enabled actions begin. -/
theorem Begins.enabled [Model M E O ME] [Scheduler S SE] {sim started : Simulation M S N E}
    {callback : Callback M E O ME} (h : sim.Begins started callback) :
    callback.metadata.key ∈ sim.enabled := by
  obtain ⟨key, selected, hsel, hstart⟩ := h
  cases hstart with
  | turn => exact hsel.enabled
  | delivery => exact hsel.enabled

omit [Retained E] in
/-- What the set-up of an action may change. -/
theorem Begins.frame [Model M E O ME] [Scheduler S SE] {sim started : Simulation M S N E}
    {callback : Callback M E O ME} (h : sim.Begins started callback) :
    started = { sim with
      ready := started.ready, scheduler := started.scheduler, timeline := started.timeline
      nextAction := started.nextAction, actions := started.actions
      actionsAtMoment := started.actionsAtMoment } := by
  obtain ⟨key, selected, hsel, hstart⟩ := h
  cases hstart <;> rw [hsel.result]

omit [Retained E] in
/-- The action was the scheduler's choice. -/
theorem Begins.choice [Model M E O ME] [Scheduler S SE] {sim started : Simulation M S N E}
    {callback : Callback M E O ME} (h : sim.Begins started callback) :
    Scheduler.choose sim.scheduler sim.now sim.enabled
      = (started.scheduler, .ok callback.metadata.key) := by
  obtain ⟨key, selected, hsel, hstart⟩ := h
  cases hstart with
  | turn => exact hsel.choice
  | delivery => exact hsel.choice

omit [Retained E] in
theorem Begins.ready [Model M E O ME] [Scheduler S SE] {sim started : Simulation M S N E}
    {callback : Callback M E O ME} (h : sim.Begins started callback) : sim.enabled ≠ [] :=
  List.ne_nil_of_mem h.enabled

/-- No action of a stopped duty is ready. -/
theorem Sound.not_mem_enabled {sim : Simulation M S N E} (hs : sim.Sound) {duty : DutyId}
    (h : duty ∈ sim.stopped) {key : ActionKey} (hmem : key ∈ sim.enabled) : key.duty ≠ duty := by
  rintro rfl
  rcases mem_enabled.mp hmem with hdue | hrun
  · obtain ⟨token, entry, hentry, _, rfl⟩ := mem_dueDeliveries.mp hdue
    exact (hs.pending hentry).2.1 h
  · obtain ⟨duty, state, hstate, hrunnable, rfl⟩ := mem_runnableTurns.mp hrun
    obtain ⟨state', hstate', hstop⟩ := hs.stopped.mp h
    obtain rfl : state = state' := Option.some_inj.mp (hstate.symm.trans hstate')
    simp [runnable, hstop] at hrunnable

/-- The duty of the chosen action belongs to the topology and is not stopped. -/
theorem Begins.duty [Model M E O ME] [Scheduler S SE] {sim started : Simulation M S N E}
    {callback : Callback M E O ME} (h : sim.Begins started callback) (hs : sim.Sound) :
    (∃ state, started.states.get? callback.metadata.key.duty = some state) ∧
      callback.metadata.key.duty ∉ started.stopped := by
  have hstates : started.states = sim.states := by rw [h.frame]
  have hstopped : started.stopped = sim.stopped := by rw [h.frame]
  rw [hstates, hstopped, hs.keys]
  refine ⟨?_, fun hmem => hs.not_mem_enabled hmem h.enabled rfl⟩
  rcases mem_enabled.mp h.enabled with hmem | hmem
  · obtain ⟨token, entry, hentry, _, hkey⟩ := mem_dueDeliveries.mp hmem
    rw [hkey]
    simpa [Topology.contains, ActionKey.delivery] using (hs.pending hentry).1
  · obtain ⟨duty, state, hstate, _, hkey⟩ := mem_runnableTurns.mp hmem
    rw [hkey]
    exact hs.keys.mp ⟨state, hstate⟩

/-- What a callback may leave pending. -/
def EffectsSound (ctx : ActionContext E O) : Prop :=
  ∀ token entry, ctx.timeline.lookup token = some entry →
    ctx.topology.contains entry.event.target = true ∧ entry.event.target ∉ ctx.stopped ∧
      token.moment ≤ ctx.limits.maxTime

theorem Inserts.effectsSound {ctx ctx' : ActionContext E O} {target : DutyId} {moment : Moment}
    {event : E} {token : EventToken} (h : ctx.Inserts target moment event token ctx')
    (hs : EffectsSound ctx) : EffectsSound ctx' := by
  intro token' entry hlook
  rw [h.admits.lookup] at hlook
  rw [h.result]
  split_ifs at hlook with heq
  · obtain rfl := Option.some_inj.mp hlook
    exact ⟨h.known, h.live, heq ▸ h.admits.moment.le.trans h.bounded⟩
  · exact hs _ _ hlook

omit [Retained E] in
theorem Removes.effectsSound {ctx ctx' : ActionContext E O} {token : EventToken}
    {entry : Entry (Routed E)} (h : ctx.timeline.Removes token entry ctx'.timeline)
    (hframe : ctx'.SameFrame ctx) (hs : EffectsSound ctx) : EffectsSound ctx' := by
  intro token' entry' hlook
  rw [h.lookup] at hlook
  split_ifs at hlook
  rw [hframe.topology, hframe.stopped, hframe.limits]
  exact hs _ _ hlook

theorem Performs.effectsSound {ctx ctx' : ActionContext E O} {request : ContextCall E O}
    {reply : ContextReply E O} (h : Performs ctx request reply ctx') (hs : EffectsSound ctx) :
    EffectsSound ctx' := by
  have hframe := h.frame
  cases h with
  | unsent => exact hs
  | sent _ hi => exact Inserts.effectsSound hi hs
  | uncancelled => exact hs
  | cancelledOwn hc => exact Removes.effectsSound hc.removes hframe hs
  | cancelledOld hc => exact Removes.effectsSound hc.removes hframe hs
  | observed => exact hs

theorem Runs.effectsSound [Retained O] {started : Simulation M S N E}
    {callback : Callback M E O ME} {ctx : ActionContext E O}
    {log : List (ContextCall E O × ContextReply E O)} {model : M} {result : Returned Turn ME}
    (h : Runs started callback ctx log model result) (hs : started.Sound) : EffectsSound ctx :=
  h.steps.preserves (P := EffectsSound) (fun hu hp => Performs.effectsSound hp hu)
    fun _ _ hlook => hs.pending hlook

omit [Retained E] in
theorem pendingFor_eq_zero {ctx : ActionContext E O} {duty : DutyId}
    (h : ctx.pendingFor duty = 0) {token : EventToken} {entry : Entry (Routed E)}
    (hlook : ctx.timeline.lookup token = some entry) : entry.event.target ≠ duty := by
  intro heq
  have hmem := Timeline.mem_pending.mpr ⟨entry, hlook, rfl⟩
  have hnil := List.length_eq_zero_iff.mp h
  exact List.filter_eq_nil_iff.mp hnil _ hmem (by simpa using heq)

theorem Commits.sound [Retained O] {started updated : Simulation M S N E}
    {callback : Callback M E O ME} {ctx : ActionContext E O}
    {log : List (ContextCall E O × ContextReply E O)} {model : M} {turn : Turn}
    (h : Commits started callback ctx model turn updated)
    (hr : Runs started callback ctx log model (.ok turn)) (hs : started.Sound)
    (hduty : callback.metadata.key.duty ∉ started.stopped) : updated.Sound := by
  obtain ⟨state, hstate, hupdated⟩ := h.result
  have hframe := hr.transaction.frame
  have heffects := hr.effectsSound hs
  have hnext : ∀ delivery, (state.update turn delivery).next = turn.next := by
    intro delivery
    cases delivery <;> rfl
  rw [hupdated]
  refine ⟨hr.transaction.wf, hframe.timeline.measure.trans hs.measure, fun {token entry} hlook => ?_,
    fun {duty} => ?_, fun {duty} => ?_, ?_, hs.counter, hs.total, hs.atMoment⟩
  · obtain ⟨hknown, hlive, hbound⟩ := heffects _ _ hlook
    rw [hframe.topology] at hknown
    rw [hframe.stopped] at hlive
    rw [hframe.limits] at hbound
    refine ⟨hknown, ?_, hbound⟩
    simp only
    split_ifs with hstop
    · rw [Finset.mem_insert, not_or]
      exact ⟨pendingFor_eq_zero (h.unneeded hstop) hlook, hlive⟩
    · exact hlive
  -- only the entry of the duty that ran is rewritten
  · simp only [OrderedMap.get?_insert]
    by_cases heq : duty = callback.metadata.key.duty
    · subst heq
      simp only [if_true, Option.some_inj, exists_eq_left', hnext]
      split_ifs with hstop
      · exact iff_of_true (Finset.mem_insert_self _ _) hstop
      · exact iff_of_false hduty hstop
    · simp only [if_neg heq]
      split_ifs with hstop
      · rw [Finset.mem_insert, or_iff_right heq]
        exact hs.stopped
      · exact hs.stopped
  · simp only [OrderedMap.get?_insert]
    rw [← hs.keys]
    split_ifs with hduty
    · subst hduty
      exact iff_of_true ⟨_, rfl⟩ ⟨state, hstate⟩
    · exact Iff.rfl
  · have hclock : ctx.timeline.now = started.now := congrArg VirtualClock.now hframe.timeline.clock
    exact hclock.le.trans hs.clock

/-! ### Every step -/

omit [Retained E] in
theorem advance_wf {t : Timeline E} {next : Moment} (h : t.WF)
    (hmin : ∀ token entry, t.lookup token = some entry → next ≤ token.moment) :
    ({ t with clock := ⟨next⟩ } : Timeline E).WF :=
  ⟨h.issued, h.measured, fun hlook => hmin _ _ hlook, h.retained, h.bytes, h.count⟩

section

variable [Retained O] [Model M E O ME] [Scheduler S SE] [Monitor N M O NE]

omit [Retained O] [Model M E O ME] in
theorem Finishes.sound {updated sim' : Simulation M S N E} {metadata : ActionMeta}
    {turn : Turn} {observations : List O} {r : StepReturn O ME NE SE}
    (h : Finishes updated metadata turn observations r sim') (hs : updated.Sound) :
    sim'.Sound := by
  rw [h.frame]
  exact ⟨hs.wf, hs.measure, hs.pending, hs.stopped, hs.keys, hs.clock, hs.counter, hs.total,
    hs.atMoment⟩

/-- **The step lemma**: every transition keeps the kernel invariant. -/
theorem Transition.sound {sim sim' : Simulation M S N E} {r : StepReturn O ME NE SE}
    (h : sim.Transition r sim') (hs : sim.Sound) : sim'.Sound := by
  have hbuilt : ∀ scheduler phase,
      ({ sim.built with scheduler, phase } : Simulation M S N E).Sound := fun _ _ =>
    ⟨hs.wf, hs.measure, hs.pending, hs.stopped, hs.keys, hs.clock, hs.counter, hs.total,
      hs.atMoment⟩
  cases h with
  | poisoned => exact hs
  | inactive => exact hs
  | limited => exact hbuilt _ _
  | refused => exact (hbuilt _ _).halt _
  | @rolledBack started callback ctx log model result timeline r _ hb _ _ hr hwf =>
    have := (hb.sound hs).rolledBack hr hwf
    refine Sound.halt ?_ r
    exact ⟨this.wf, this.measure, this.pending, this.stopped, this.keys, this.clock, this.counter,
      this.total, this.atMoment⟩
  | committed _ hb hr hc hf =>
    exact hf.sound (hc.sound hr (hb.sound hs) (hb.duty hs).2)
  | completed => exact hbuilt _ _
  | finishRefused => exact (hbuilt _ _).halt _
  | quiescent => exact hbuilt _ _
  | timeLimited => exact hbuilt _ _
  | @advanced next _ _ _ _ hmin _ hlimit =>
    have hpending : ∀ token entry, sim.timeline.lookup token = some entry → next ≤ token.moment :=
      fun token entry hlook => hmin _ (.inl ⟨token, entry, hlook, rfl⟩)
    exact ⟨advance_wf hs.wf hpending, hs.measure, hs.pending, hs.stopped, hs.keys, hlimit,
      hs.counter, hs.total, Fin.zero_le _⟩

omit [Monitor N M O NE] in
/-- The callback of a begun action runs to a result, inside a transaction. -/
theorem Begins.runs {sim started : Simulation M S N E} {callback : Callback M E O ME}
    (hb : sim.Begins started callback) (hs : sim.Sound) :
    ∃ ctx log model result, Runs started callback ctx log model result := by
  have hstart := hb.sound hs
  have hbegin : Transaction (E := E) (O := O) (started.context callback.metadata)
      (started.context callback.metadata) :=
    .begin hstart.wf hstart.measure rfl rfl rfl
  obtain ⟨ctx, log, ⟨model, result⟩, hrun, hsteps⟩ := callback.program.run_cases hbegin
  exact ⟨ctx, log, model, result, hrun, hbegin.steps hsteps, hsteps⟩

omit [Model M E O ME] in
/-- A callback that aborts is rolled back. -/
theorem runCallback_abort {started : Simulation M S N E} {callback : Callback M E O ME}
    {ctx : ActionContext E O} {log : List (ContextCall E O × ContextReply E O)} {model : M}
    {result : Returned Turn ME} {r : StepReturn O ME NE SE}
    (hruns : Runs started callback ctx log model result)
    (ha : Abort callback.metadata ctx result r) :
    ∃ timeline, started.runCallback callback = .ok ({ started with model, timeline }.halt r, r) ∧
      started.timeline.RolledBack timeline ∧ timeline.WF := by
  obtain ⟨timeline, hdrop, hrolled, hwf⟩ := hruns.transaction.drop hruns.transaction.frame.committed
  refine ⟨timeline, ?_, hrolled, hwf⟩
  rw [runCallback]
  simp only [hruns.run, bind, Except.bind]
  cases ha with
  | unwound =>
    simp only [hdrop]
    rfl
  | failed =>
    simp only [hdrop]
    rfl
  | stopRejected hstop hpending =>
    simp only [commitContext, if_pos (And.intro hstop hpending), hdrop, bind, Except.bind]
    rfl

omit [Model M E O ME] in
/-- A callback that commits is handed to the hooks. -/
theorem runCallback_commit {started updated : Simulation M S N E} {callback : Callback M E O ME}
    {ctx : ActionContext E O} {log : List (ContextCall E O × ContextReply E O)} {model : M}
    {turn : Turn} (hruns : Runs started callback ctx log model (.ok turn))
    (hc : Commits started callback ctx model turn updated) :
    started.runCallback callback = .ok (updated.finishAction callback.metadata turn ctx.observations :
      _ × StepReturn O ME NE SE) := by
  obtain ⟨state, hstate, hupdated⟩ := hc.result
  have hstop : ¬ (turn.next = .stop ∧ ctx.pendingFor callback.metadata.key.duty ≠ 0) :=
    fun hn => hn.2 (hc.unneeded hn.1)
  rw [runCallback, hupdated]
  simp only [hruns.run, bind, Except.bind, commitContext, if_neg hstop, ActionContext.commit,
    ActionContext.drop, if_true, updateOwner, hstate]

theorem runCallback_cases {sim started : Simulation M S N E} {callback : Callback M E O ME}
    (hs : sim.Sound) (hlive : sim.Live) (hb : sim.Begins started callback) :
    ∃ sim' r, started.runCallback callback = .ok (sim', r) ∧ sim.Transition r sim' := by
  obtain ⟨ctx, log, model, result, hruns⟩ := hb.runs hs
  have habort : ∀ {r : StepReturn O ME NE SE}, Abort callback.metadata ctx result r →
      ∃ sim' r, started.runCallback callback = .ok (sim', r) ∧ sim.Transition r sim' := by
    intro r ha
    obtain ⟨timeline, hrun, hrolled, hwf⟩ := runCallback_abort hruns ha
    exact ⟨_, r, hrun, .rolledBack hlive hb hruns ha hrolled hwf⟩
  cases result with
  | panicked => exact habort .unwound
  | err source => exact habort .failed
  | ok turn =>
    by_cases hstop : turn.next = .stop ∧ ctx.pendingFor callback.metadata.key.duty ≠ 0
    · exact habort (.stopRejected hstop.1 hstop.2)
    · obtain ⟨state, hstate⟩ := (hb.duty hs).1
      -- the stop check passed, so a turn that stops left nothing pending
      obtain ⟨updated, hc⟩ : ∃ updated, Commits started callback ctx model turn updated := by
        refine ⟨_, fun hn => ?_, state, hstate, rfl⟩
        by_contra hne
        exact hstop ⟨hn, hne⟩
      rw [runCallback_commit hruns hc]
      obtain ⟨sim', r, hfinish, hf⟩ := finishAction_cases updated
        callback.metadata turn ctx.observations
      exact ⟨sim', r, congrArg Except.ok hfinish, .committed hlive hb hruns hc hf⟩

omit [Retained O] [Monitor N M O NE] in
theorem setUp_cases {sim selected : Simulation M S N E} {key : ActionKey}
    (hs : sim.Sound) (hsel : sim.Selects key selected) :
    ∃ started callback, Starts selected sim.actions key started callback ∧
      selected.setUp key sim.actions = .ok (started, .ok callback) := by
  have hsound := hsel.sound hs
  have htimeline : selected.timeline = sim.timeline := by rw [hsel.result]
  -- an enabled action is a delivery whose event is still pending, or a turn
  rcases mem_enabled.mp hsel.enabled with hmem | hmem
  · obtain ⟨token, entry, hentry, hmoment, rfl⟩ := mem_dueDeliveries.mp hmem
    rw [← htimeline] at hentry
    rcases Timeline.cancel_cases hsound.wf token with ⟨hnone, _⟩ | ⟨entry', t, hcancel, hremoves⟩
    · simp [hnone] at hentry
    obtain rfl : entry = entry' := Option.some_inj.mp (hentry.symm.trans hremoves.pending)
    have hnow : ({ selected with timeline := t } : Simulation M S N E).now = selected.now :=
      congrArg VirtualClock.now hremoves.frame.clock
    refine ⟨_, _, .delivery hremoves (by rw [hmoment, now, now, htimeline]), ?_⟩
    simp only [setUp, ActionKey.delivery, deliveryCallback, hcancel, bind, Except.bind, ne_eq,
      not_true_eq_false, if_false, hnow]
  · obtain ⟨duty, state, hstate, hrun, rfl⟩ := mem_runnableTurns.mp hmem
    exact ⟨_, _, .turn, rfl⟩

theorem executeSelected_eq {selected started : Simulation M S N E} {key : ActionKey}
    {id : ActionId} {callback : Callback M E O ME}
    (h : selected.setUp key id = .ok (started, .ok callback)) :
    (selected.executeSelected key id : Except Panic (_ × StepReturn O ME NE SE))
      = started.runCallback callback := by
  rw [setUp] at h
  rw [executeSelected]
  cases hkind : key.kind with
  | turn =>
    simp only [hkind] at h
    cases h
    rfl
  | delivery token =>
    simp only [hkind] at h
    simp only [executeDelivery, h, bind, Except.bind]

omit [Retained O] [Model M E O ME] [Monitor N M O NE] in
theorem selectAction_cases (O ME NE : Type) {sim : Simulation M S N E} (hs : sim.Sound)
    (hw : sim.WithinLimits) :
    (∃ scheduler choice, ∃ r : StepReturn O ME NE SE,
      sim.built.selectAction = .ok ({ sim.built with scheduler }.halt r, .inl r) ∧
      Scheduler.choose sim.scheduler sim.now sim.enabled = (scheduler, choice) ∧
      Refusal sim.enabled choice r) ∨
    ∃ key selected, (sim.built.selectAction : Except Panic (_ × (StepReturn O ME NE SE ⊕ _)))
        = .ok (selected, .inr (key, sim.actions)) ∧ sim.Selects key selected := by
  -- in the order of the source: the scheduler, then the check of its choice,
  -- then the counters, which the limits keep from overflowing
  rw [selectAction]
  simp only [show sim.built.scheduler = sim.scheduler from rfl,
    show sim.built.now = sim.now from rfl, show sim.built.ready = sim.enabled from rfl]
  cases hchoose : Scheduler.choose sim.scheduler sim.now sim.enabled with
  | mk scheduler choice =>
    cases choice with
    | panicked => exact .inl ⟨scheduler, _, _, rfl, rfl, .unwound⟩
    | err source => exact .inl ⟨scheduler, _, _, rfl, rfl, .failed⟩
    | ok key =>
      by_cases hmem : key ∈ sim.enabled
      · right
        obtain ⟨actions, hinc, hactions⟩ := U64.increment_ok hw.total
        obtain ⟨atMoment, hinc', hmoment⟩ := U64.increment_ok hw.atMoment
        have hnext : sim.actions.checkedAdd 1 = some actions :=
          U64.checkedAdd_eq_some.mpr hactions
        have hcontains : ReadySet.contains sim.enabled key = true :=
          (ReadySet.contains_iff sim.enabled_sorted).mpr hmem
        refine ⟨key, { sim with
          ready := sim.enabled, scheduler, nextAction := some actions, actions
          actionsAtMoment := atMoment }, ?_, hmem, hw, hchoose, hactions, hmoment, rfl⟩
        simp only [hcontains, Bool.not_true, Bool.false_eq_true, if_false, allocateAction, built,
          hs.counter, hinc, hinc', bind, Except.bind, hnext]
      · left
        have hcontains : ReadySet.contains sim.enabled key = false := by
          rw [Bool.eq_false_iff]
          exact fun hc => hmem (ReadySet.mem_of_contains hc)
        refine ⟨scheduler, _, .err (.invalidSelection key), ?_, rfl, .invalid hmem⟩
        simp only [hcontains, Bool.not_false, if_true]
        rfl

omit [Retained E] [Retained O] [Model M E O ME] [Scheduler S SE] [Monitor N M O NE] in
theorem enforceActionLimits_cases (ME NE SE : Type) (sim : Simulation M S N E) :
    (sim.WithinLimits ∧ (sim.enforceActionLimits : Except (StepError ME NE SE) Unit) = .ok ()) ∨
    (¬ sim.WithinLimits ∧ ∃ failure,
      (sim.enforceActionLimits : Except (StepError ME NE SE) Unit) = .error (.limit failure)) := by
  rw [enforceActionLimits]
  by_cases htotal : sim.limits.totalActions.get ≤ sim.actions
  · exact .inr ⟨fun hw => not_le.mpr hw.total htotal, _, if_pos htotal⟩
  by_cases hat : sim.limits.actionsPerMoment.get ≤ sim.actionsAtMoment
  · rw [if_neg htotal]
    exact .inr ⟨fun hw => not_le.mpr hw.atMoment hat, _, if_pos hat⟩
  · rw [if_neg htotal, if_neg hat]
    exact .inl ⟨⟨not_le.mp htotal, not_le.mp hat⟩, rfl⟩

theorem advanceOrFinish_cases {sim : Simulation M S N E} (hs : sim.Sound) (hlive : sim.Live)
    (hempty : sim.enabled = []) :
    ∃ sim', ∃ r : StepReturn O ME NE SE,
      sim.built.advanceOrFinish = .ok (sim', r) ∧ sim.Transition r sim' := by
  rw [advanceOrFinish]
  -- all duties stopped: nothing is pending, and the scheduler has the last word
  by_cases hall : sim.AllStopped
  · have hcard : sim.built.stopped.card = sim.built.topology.len := (stopped_card hs).mpr hall
    have hnil := pending_eq_nil hs hall
    rw [if_pos hcard]
    simp only [show sim.built.timeline = sim.timeline from rfl, hnil, List.head?_nil,
      validateSchedulerFinish, show sim.built.scheduler = sim.scheduler from rfl]
    cases hfinished : Scheduler.finished sim.scheduler with
    | mk scheduler verdict =>
      cases verdict with
      | ok => exact ⟨_, _, rfl, .completed hlive hempty hall hnil hfinished⟩
      | err source => exact ⟨_, _, rfl, .finishRefused hlive hempty hall hnil hfinished .failed⟩
      | panicked => exact ⟨_, _, rfl, .finishRefused hlive hempty hall hnil hfinished .unwound⟩
  · have hcard : ¬ sim.built.stopped.card = sim.built.topology.len :=
      fun hc => hall ((stopped_card hs).mp hc)
    rw [if_neg hcard]
    simp only [show sim.built.timeline = sim.timeline from rfl,
      show sim.built.nextDeadline = sim.nextDeadline from rfl,
      show sim.built.now = sim.now from rfl]
    -- otherwise time moves to what is earliest, if there is anything
    cases hearliest : earliest sim.timeline.nextAt sim.nextDeadline with
    | none => exact ⟨_, _, rfl, .quiescent hlive hempty hall (earliest_eq_none.mp hearliest)⟩
    | some next =>
      obtain ⟨hup, hmin⟩ := earliest_spec hearliest
      have hfuture := now_lt_upcoming hs hempty hup
      simp only [if_neg (not_le.mpr hfuture)]
      by_cases hlimit : sim.limits.maxVirtualTime < next
      · rw [if_pos (show sim.built.limits.maxVirtualTime < next from hlimit)]
        exact ⟨_, _, rfl, .timeLimited hlive hempty hall hup hmin hlimit⟩
      · rw [if_neg (show ¬ sim.built.limits.maxVirtualTime < next from hlimit)]
        have hforward : ¬ next < sim.timeline.clock.now := not_lt.mpr hfuture.le
        simp only [Timeline.advanceTo, VirtualClock.advanceTo, if_neg hforward, bind, Except.bind]
        exact ⟨_, _, rfl, .advanced hlive hempty hall hup hmin hfuture (not_lt.mp hlimit)⟩

/-- **The step of a sound simulation** does not panic, and is one of the
transitions. -/
theorem step_cases {sim : Simulation M S N E} (hs : sim.Sound) :
    ∃ sim', ∃ r : StepReturn O ME NE SE, sim.step = .ok (sim', r) ∧ sim.Transition r sim' := by
  rw [step]
  by_cases hpoisoned : sim.poisoned = true
  · exact ⟨_, _, if_pos hpoisoned, .poisoned hpoisoned⟩
  rw [if_neg hpoisoned]
  rw [Bool.not_eq_true] at hpoisoned
  by_cases hactive : sim.phase = .active
  swap
  · exact ⟨_, _, if_pos hactive, .inactive hpoisoned hactive⟩
  have hlive : sim.Live := ⟨hpoisoned, hactive⟩
  rw [if_neg (not_not.mpr hactive)]
  simp only [buildReady_eq hs, bind, Except.bind]
  by_cases hempty : sim.enabled = []
  · rw [if_pos (show sim.built.ready.isEmpty = true by simp [built, hempty])]
    exact advanceOrFinish_cases hs hlive hempty
  rw [if_neg (show ¬ sim.built.ready.isEmpty = true by simp [built, hempty])]
  rcases enforceActionLimits_cases ME NE SE sim with
    ⟨hw, hok⟩ | ⟨hw, failure, herror⟩
  swap
  · rw [show sim.built.enforceActionLimits = _ from herror]
    exact ⟨_, _, rfl, .limited hlive hempty hw⟩
  rw [show sim.built.enforceActionLimits = _ from hok]
  rcases selectAction_cases O ME NE hs hw with
    ⟨scheduler, choice, r, hselect, hchoose, hrefused⟩ | ⟨key, selected, hselect, hsel⟩
  · simp only [hselect]
    exact ⟨_, _, rfl, .refused hlive hempty hw hchoose hrefused⟩
  · simp only [hselect]
    obtain ⟨started, callback, hstarts, hsetUp⟩ := setUp_cases hs hsel
    rw [executeSelected_eq hsetUp]
    exact runCallback_cases hs hlive ⟨key, selected, hsel, hstarts⟩

end

end Simulation

/-! ### Whole runs -/

/-- The target and the event of an injection. -/
def Call.injects {E : Type} : Call E → Option (DutyId × E)
  | .step => none
  | .inject target event => some (target, event)
  | .injectAfter target _ event => some (target, event)
  | .injectAt target _ event => some (target, event)

namespace Simulation

variable {M S N E O ME SE NE : Type} [Retained E]

/-- What an injection can do. -/
inductive Injection (sim : Simulation M S N E) (target : DutyId) (event : E) :
    Except (InjectionError E) EventToken → Simulation M S N E → Prop
  | rejected {failure} : Injection sim target event (.error ⟨event, failure⟩) sim
  | admitted {moment token timeline} : sim.Live → sim.topology.contains target = true →
      target ∉ sim.stopped → moment ≤ sim.limits.maxVirtualTime → sim.now ≤ moment →
      sim.timeline.Admits moment ⟨target, none, event⟩ token timeline →
      Injection sim target event (.ok token) { sim with timeline }

theorem injectAt_cases {sim : Simulation M S N E} (hs : sim.Sound) (target : DutyId)
    (moment : Moment) (event : E) :
    ∃ sim' result, sim.injectAt target moment event = .ok (sim', result) ∧
      sim.Injection target event result sim' := by
  rw [injectAt]
  by_cases hpoisoned : sim.poisoned = true
  · exact ⟨_, _, if_pos hpoisoned, .rejected⟩
  rw [if_neg hpoisoned]
  by_cases hactive : sim.phase = .active
  swap
  · exact ⟨_, _, if_pos hactive, .rejected⟩
  rw [if_neg (not_not.mpr hactive)]
  by_cases hknown : sim.topology.contains target = true
  swap
  · exact ⟨_, _, if_pos (by simpa using hknown), .rejected⟩
  rw [if_neg (by simpa using hknown)]
  by_cases hstopped : target ∈ sim.stopped
  · exact ⟨_, _, if_pos hstopped, .rejected⟩
  rw [if_neg hstopped]
  by_cases hlimit : sim.limits.maxVirtualTime < moment
  · exact ⟨_, _, if_pos hlimit, .rejected⟩
  rw [if_neg hlimit]
  rcases Timeline.scheduleAt_cases hs.wf moment ⟨target, none, event⟩ with
    ⟨failure, -, hfail⟩ | ⟨token, timeline, -, hok, hadmits, hfuture⟩
  · rw [hfail]
    exact ⟨_, _, rfl, .rejected⟩
  · rw [hok]
    exact ⟨_, _, rfl, .admitted ⟨by simpa using hpoisoned, hactive⟩ hknown hstopped
      (not_lt.mp hlimit) hfuture hadmits⟩

theorem Injection.sound {sim sim' : Simulation M S N E} {target : DutyId} {event : E}
    {result : Except (InjectionError E) EventToken} (h : sim.Injection target event result sim')
    (hs : sim.Sound) : sim'.Sound := by
  cases h with
  | rejected => exact hs
  | admitted _ hknown hlive hbound hfuture hadmits =>
    have hframe := hadmits.frame
    refine hs.withTimeline (hadmits.wf hs.wf hfuture) (hframe.measure.trans hs.measure) ?_ ?_
    · exact (congrArg VirtualClock.now hframe.clock).le.trans hs.clock
    · intro token' entry hlook
      rw [hadmits.lookup] at hlook
      split_ifs at hlook with heq
      · obtain rfl := Option.some_inj.mp hlook
        exact ⟨hknown, hlive, heq ▸ hadmits.moment.le.trans hbound⟩
      · exact hs.pending hlook

variable [Retained O] [Model M E O ME] [Scheduler S SE] [Monitor N M O NE]

/-- What a call can do. -/
inductive Executes (sim : Simulation M S N E) :
    Call E → Reply E O ME NE SE → Simulation M S N E → Prop
  | stepped {r sim'} : sim.Transition r sim' → Executes sim .step (.stepped r) sim'
  | injected {call target event result sim'} : call.injects = some (target, event) →
      sim.Injection target event result sim' → Executes sim call (.injected result) sim'

theorem exec_cases {sim : Simulation M S N E} (hs : sim.Sound) (call : Call E) :
    ∃ sim', ∃ reply : Reply E O ME NE SE,
      sim.exec call = .ok (sim', reply) ∧ sim.Executes call reply sim' := by
  have hinject : ∀ (call : Call E) {target event} (moment : Moment),
      call.injects = some (target, event) → ∃ sim' result,
        sim.injectAt target moment event = .ok (sim', result) ∧
          sim.Executes call (.injected result : Reply E O ME NE SE) sim' := by
    intro call target event moment hcall
    obtain ⟨sim', result, hrun, hi⟩ := injectAt_cases hs target moment event
    exact ⟨sim', result, hrun, .injected hcall hi⟩
  cases call with
  | step =>
    obtain ⟨sim', r, hrun, ht⟩ := step_cases hs
    exact ⟨sim', .stepped r, by rw [exec, hrun]; rfl, .stepped ht⟩
  | inject target event =>
    obtain ⟨sim', result, hrun, he⟩ := hinject (.inject target event) sim.now rfl
    exact ⟨sim', .injected result, by rw [exec, inject, hrun]; rfl, he⟩
  | injectAfter target delay event =>
    cases hadd : sim.now.checkedAdd delay with
    | none =>
      refine ⟨sim, .injected (.error ⟨event, .timeOverflow sim.now delay⟩), ?_,
        .injected rfl .rejected⟩
      simp only [exec, injectAfter, hadd, bind, Except.bind]
    | some moment =>
      obtain ⟨sim', result, hrun, he⟩ :=
        hinject (.injectAfter target delay event) moment rfl
      exact ⟨sim', .injected result, by simp only [exec, injectAfter, hadd, hrun]; rfl, he⟩
  | injectAt target moment event =>
    obtain ⟨sim', result, hrun, he⟩ :=
      hinject (.injectAt target moment event) moment rfl
    exact ⟨sim', .injected result, by rw [exec, hrun]; rfl, he⟩

theorem executes_of_exec {sim sim' : Simulation M S N E} {call : Call E}
    {reply : Reply E O ME NE SE} (hs : sim.Sound) (h : sim.exec call = .ok (sim', reply)) :
    sim.Executes call reply sim' := by
  obtain ⟨sim₁, reply₁, hrun, he⟩ :=
    exec_cases hs call
  rw [h] at hrun
  obtain ⟨rfl, rfl⟩ := Prod.mk.inj (Except.ok.inj hrun)
  exact he

theorem Executes.sound {sim sim' : Simulation M S N E} {call : Call E}
    {reply : Reply E O ME NE SE} (h : sim.Executes call reply sim') (hs : sim.Sound) :
    sim'.Sound := by
  cases h with
  | stepped ht => exact ht.sound hs
  | injected _ hi => exact hi.sound hs

omit [Retained O] [Model M E O ME] [Scheduler S SE] [Monitor N M O NE] in
/-- What `with_parts` builds, if it builds anything. -/
theorem withParts_eq {id : TimelineId} {now : Moment} {model : M} {topology : Topology}
    {limits : SimulationLimits} {scheduler : S} {monitor : N} {sim : Simulation M S N E}
    (h : withParts id now model topology limits scheduler monitor = .ok (.ok sim)) :
    sim = {
      model, topology, limits, scheduler, monitor
      states := initialStates topology
      stopped := ∅
      timeline := .atWithMeasure id now limits.timeline Retained.retainedBytes
      phase := .active
      poisoned := false
      nextAction := some 0
      actions := 0
      actionsAtMoment := 0
      ready := [] } := by
  simp only [withParts] at h
  split at h
  · cases h
  split at h
  · cases h
  exact (Except.ok.inj (Except.ok.inj h)).symm

omit [Retained O] [Model M E O ME] [Scheduler S SE] [Monitor N M O NE] in
theorem withParts_sound {id : TimelineId} {now : Moment} {model : M} {topology : Topology}
    {limits : SimulationLimits} {scheduler : S} {monitor : N} {sim : Simulation M S N E}
    (h : withParts id now model topology limits scheduler monitor = .ok (.ok sim)) :
    sim.Sound := by
  simp only [withParts] at h
  split at h
  · cases h
  rename_i hfailure
  split at h
  · cases h
  obtain rfl := Except.ok.inj (Except.ok.inj h)
  -- the start was checked against the limit
  have hclock : now ≤ limits.maxVirtualTime := by
    by_contra hlt
    rw [if_pos (not_le.mp hlt)] at hfailure
    split_ifs at hfailure
  have hnone : ∀ token, (Timeline.atWithMeasure (E := Routed E) id now limits.timeline
      Retained.retainedBytes).lookup token = none := by
    intro token
    rw [Timeline.lookup]
    exact ite_self _
  have hstates : ∀ {duty state}, (initialStates topology).get? duty = some state ↔
      duty ∈ topology.duties ∧ state = DutyState.initial := by
    intro duty state
    rw [← OrderedMap.mem_entries]
    simp only [initialStates, List.mem_map, Prod.mk.injEq]
    constructor
    · rintro ⟨_, hmem, rfl, rfl⟩
      exact ⟨hmem, rfl⟩
    · rintro ⟨hmem, rfl⟩
      exact ⟨duty, hmem, rfl, rfl⟩
  refine ⟨Timeline.atWithMeasure_wf .., rfl, fun {token entry} hlook => ?_, fun {duty} => ?_,
    fun {duty} => ?_, hclock, rfl, Fin.zero_le _, Fin.zero_le _⟩
  · simp [hnone] at hlook
  · refine iff_of_false (by simp) ?_
    rintro ⟨state, hstate, hstop⟩
    rw [(hstates.mp hstate).2] at hstop
    cases hstop
  · constructor
    · rintro ⟨state, hstate⟩
      exact (hstates.mp hstate).1
    · intro hmem
      exact ⟨_, hstates.mpr ⟨hmem, rfl⟩⟩

/-- The simulation after a list of calls; a call that panics leaves it alone. -/
def after (sim : Simulation M S N E) : List (Call E) → Simulation M S N E
  | [] => sim
  | call :: rest =>
    match sim.exec call with
    | .ok (sim, _) => sim.after rest
    | .error _ => sim.after rest

/-- The calls of a list that did not panic, each with the simulation it leaves
and its reply. -/
def history (sim : Simulation M S N E) :
    List (Call E) → List (Simulation M S N E × Call E × Reply E O ME NE SE)
  | [] => []
  | call :: rest =>
    match sim.exec call with
    | .ok (sim', reply) => (sim, call, reply) :: sim'.history rest
    | .error _ => sim.history rest

theorem steps_after (sim : Simulation M S N E) (calls : List (Call E)) :
    Steps (system M S N E O ME SE NE).step sim ((sim.history calls).map Prod.snd)
      (sim.after calls) := by
  induction calls generalizing sim with
  | nil => exact .refl
  | cons call rest ih =>
    rw [history, after]
    cases hexec : sim.exec call with
    | error => exact ih sim
    | ok outcome =>
      obtain ⟨sim', reply⟩ := outcome
      exact (Steps.single (l := (call, reply)) hexec).trans (ih sim')

theorem recording_after (sim : Simulation M S N E) (calls : List (Call E)) :
    Steps (system M S N E O ME SE NE).recording.step sim (sim.history calls) (sim.after calls) := by
  induction calls generalizing sim with
  | nil => exact .refl
  | cons call rest ih =>
    rw [history, after]
    cases hexec : sim.exec call with
    | error => exact ih sim
    | ok outcome =>
      obtain ⟨sim', reply⟩ := outcome
      exact (Steps.single (l := (sim, call, reply)) ⟨rfl, hexec⟩).trans (ih sim')

theorem recorded_after {sim : Simulation M S N E}
    {tr : List (Simulation M S N E × Call E × Reply E O ME NE SE)}
    (h : (system M S N E O ME SE NE).recording.Run tr sim) (calls : List (Call E)) :
    (system M S N E O ME SE NE).recording.Run (tr ++ sim.history calls) (sim.after calls) := by
  obtain ⟨start, hinit, hsteps⟩ := h
  exact ⟨start, hinit, hsteps.trans (recording_after sim calls)⟩

/-- Every reachable simulation is sound. -/
theorem reachable_sound {sim : Simulation M S N E}
    (h : (system M S N E O ME SE NE).Reachable sim) : sim.Sound := by
  refine h.invariant (P := Sound) (fun hinit => ?_)
    fun hs hstep => (executes_of_exec hs hstep).sound hs
  obtain ⟨_, _, _, _, _, _, _, hbuild⟩ := hinit
  exact withParts_sound hbuild

end Simulation

/-- The recorded runs of a playback. -/
theorem Playback.recorded_world {E O ME S SE N NE : Type} [Retained E] [Retained O]
    [Scheduler S SE] [Monitor N (Playback E O ME) O NE]
    (callbacks : List (Program E O (Returned Turn ME))) (scheduler : S) (monitor : N)
    (calls : List (Call E)) :
    (Simulation.system (Playback E O ME) S N E O ME SE NE).recording.Run
      ((world callbacks scheduler monitor).history calls)
      ((world callbacks scheduler monitor).after calls) :=
  Simulation.recorded_after
    (.start ⟨_, _, _, _, _, _, _, world_built callbacks scheduler monitor⟩) calls

end Calandria
