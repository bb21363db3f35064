/-
Replay completeness.

`Simulation.hostedBy` exchanges the scheduler and the monitor of a simulation
and nothing else.  The world of a simulation, its ready set and its callbacks
included, does not depend on either, so a replay of a trace can follow the run
that recorded it:

* `exec_hostedBy` — an injection does the same under any host;
* `Transition.follows` — a successful step of the recorded run is matched, with
  the same result, by a step of the replay that stands at the same entry;
* `run_follows` — the same for whole runs, by going back from the final trace
  to the trace at each earlier call (`Extends`).
-/
import Calandria.ReplaySoundness

namespace Calandria

/-- What a reply shows, apart from the errors of hooks. -/
def Reply.outcome {E O ME NE SE : Type} :
    Reply E O ME NE SE → Option (Step O) ⊕ Except (InjectionError E) EventToken
  | .stepped (.ok step) => .inl (some step)
  | .stepped _ => .inl none
  | .injected result => .inr result

/-- The calls of a run and their outcomes. -/
def seen {E O ME NE SE : Type} (tr : List (Call E × Reply E O ME NE SE)) :
    List (Call E × (Option (Step O) ⊕ Except (InjectionError E) EventToken)) :=
  tr.map fun l => (l.1, l.2.outcome)

theorem seen_append {E O ME NE SE : Type} (tr tr' : List (Call E × Reply E O ME NE SE)) :
    seen (tr ++ tr') = seen tr ++ seen tr' :=
  List.map_append

theorem seen_calls {E O ME NE SE : Type} (tr : List (Call E × Reply E O ME NE SE)) :
    (seen tr).map Prod.fst = tr.map Prod.fst :=
  List.map_map

/-- Whether the reply reports a step that failed. -/
def Reply.failed {E O ME NE SE : Type} : Reply E O ME NE SE → Bool
  | .stepped (.ok _) => false
  | .stepped _ => true
  | .injected _ => false

theorem Reply.ok_of_failed {E O ME NE SE : Type} {result : StepReturn O ME NE SE}
    (h : (Reply.stepped result : Reply E O ME NE SE).failed = false) :
    ∃ step, result = .ok step := by
  cases result with
  | ok step => exact ⟨step, rfl⟩
  | err | unwound => cases h

/-- No step of the run failed. -/
def Succeeds {E O ME NE SE : Type} (tr : List (Call E × Reply E O ME NE SE)) : Prop :=
  ∀ l ∈ tr, l.2.failed = false

instance {E O ME NE SE : Type} (tr : List (Call E × Reply E O ME NE SE)) :
    Decidable (Succeeds tr) :=
  inferInstanceAs (Decidable (∀ l ∈ tr, l.2.failed = false))

namespace Simulation

variable {M S N E O ME SE NE S' N' SE' NE' : Type}

/-- The same world under another scheduler and another monitor. -/
def hostedBy (sim : Simulation M S N E) (scheduler : S') (monitor : N') :
    Simulation M S' N' E :=
  { sim with scheduler, monitor }

variable [Retained E]

theorem Sound.hostedBy {sim : Simulation M S N E} (h : sim.Sound) (scheduler : S') (monitor : N') :
    (sim.hostedBy scheduler monitor).Sound :=
  ⟨h.wf, h.measure, h.pending, h.stopped, h.keys, h.clock, h.counter, h.total, h.atMoment⟩

theorem withParts_hostedBy {id : TimelineId} {now : Moment} {model : M} {topology : Topology}
    {limits : SimulationLimits} {scheduler : S} {monitor : N} {start : Simulation M S N E}
    (h : withParts id now model topology limits scheduler monitor = .ok (.ok start))
    (scheduler' : S') (monitor' : N') :
    withParts id now model topology limits scheduler' monitor'
      = .ok (.ok (start.hostedBy scheduler' monitor')) := by
  simp only [withParts] at h ⊢
  split at h
  · cases h
  split at h
  · cases h
  obtain rfl := Except.ok.inj (Except.ok.inj h)
  rfl

/-! ### Injections -/

omit [Retained E] in
theorem injectAt_hostedBy (sim : Simulation M S N E) (scheduler : S') (monitor : N')
    (target : DutyId) (moment : Moment) (event : E) :
    (sim.hostedBy scheduler monitor).injectAt target moment event
      = (sim.injectAt target moment event).map fun o => (o.1.hostedBy scheduler monitor, o.2) := by
  simp only [injectAt, show (sim.hostedBy scheduler monitor).poisoned = sim.poisoned from rfl,
    show (sim.hostedBy scheduler monitor).phase = sim.phase from rfl,
    show (sim.hostedBy scheduler monitor).topology = sim.topology from rfl,
    show (sim.hostedBy scheduler monitor).stopped = sim.stopped from rfl,
    show (sim.hostedBy scheduler monitor).limits = sim.limits from rfl,
    show (sim.hostedBy scheduler monitor).timeline = sim.timeline from rfl]
  split_ifs
  any_goals rfl
  cases sim.timeline.scheduleAt moment ⟨target, none, event⟩ with
  | error => rfl
  | ok outcome =>
    obtain ⟨timeline, result⟩ := outcome
    cases result <;> rfl

omit [Retained E] in
/-- An injection leaves the scheduler and the monitor alone. -/
theorem injectAt_host (sim : Simulation M S N E) (target : DutyId) (moment : Moment) (event : E) :
    sim.injectAt target moment event = (sim.injectAt target moment event).map fun o =>
      (o.1.hostedBy sim.scheduler sim.monitor, o.2) :=
  injectAt_hostedBy sim sim.scheduler sim.monitor target moment event

variable [Retained O] [Model M E O ME] [Scheduler S SE] [Monitor N M O NE]
  [Scheduler S' SE'] [Monitor N' M O NE']

theorem exec_hostedBy {sim sim' : Simulation M S N E} {call : Call E}
    {reply : Reply E O ME NE SE} (h : sim.exec call = .ok (sim', reply)) (hcall : call ≠ .step)
    (scheduler : S') (monitor : N') :
    ∃ result, reply = .injected result ∧ sim'.scheduler = sim.scheduler ∧
      sim'.monitor = sim.monitor ∧ (sim.hostedBy scheduler monitor).exec call
        = .ok (sim'.hostedBy scheduler monitor, (.injected result : Reply E O ME NE' SE')) := by
  -- injecting reads neither the scheduler nor the monitor
  have hinject : ∀ {target moment event},
      (sim.injectAt target moment event).bind (fun o => .ok (o.1, .injected o.2))
        = (.ok (sim', reply) : Except Panic _) →
      ∃ result, reply = .injected result ∧ sim'.scheduler = sim.scheduler ∧
        sim'.monitor = sim.monitor ∧
        ((sim.hostedBy scheduler monitor).injectAt target moment event).bind
            (fun o => .ok (o.1, (.injected o.2 : Reply E O ME NE' SE')))
          = .ok (sim'.hostedBy scheduler monitor, .injected result) := by
    intro target moment event hok
    have hhost := injectAt_host sim target moment event
    rw [injectAt_hostedBy]
    cases hrun : sim.injectAt target moment event with
    | error => simp [hrun, Except.bind] at hok
    | ok outcome =>
      rw [hrun] at hok hhost
      cases hok
      obtain ⟨hsim', -⟩ := Prod.mk.inj (Except.ok.inj hhost)
      exact ⟨_, rfl, by rw [hsim']; rfl, by rw [hsim']; rfl, rfl⟩
  cases call with
  | step => exact absurd rfl hcall
  | inject target event => exact hinject h
  | injectAfter target delay event =>
    simp only [exec, injectAfter] at h ⊢
    rw [show (sim.hostedBy scheduler monitor).now = sim.now from rfl]
    cases hadd : sim.now.checkedAdd delay with
    | none =>
      rw [hadd] at h
      cases h
      exact ⟨_, rfl, rfl, rfl, rfl⟩
    | some moment =>
      rw [hadd] at h
      exact hinject h
  | injectAt target moment event => exact hinject h

/-! ### Steps -/

omit [Retained E] [Retained O] [Monitor N M O NE] [Monitor N' M O NE'] in
/-- The action that another scheduler chooses too begins alike. -/
theorem Begins.hostedBy {sim started : Simulation M S N E} {callback : Callback M E O ME}
    (h : sim.Begins started callback) {scheduler scheduler' : S'} (monitor : N')
    (hchoose : Scheduler.choose scheduler sim.now sim.enabled
      = (scheduler', .ok callback.metadata.key)) :
    (sim.hostedBy scheduler monitor).Begins (started.hostedBy scheduler' monitor) callback := by
  obtain ⟨key, selected, hsel, hstarts⟩ := h
  have hkey : callback.metadata.key = key := by cases hstarts <;> rfl
  rw [hkey] at hchoose
  refine ⟨key, selected.hostedBy scheduler' monitor, ⟨hsel.enabled, ⟨hsel.within.total,
    hsel.within.atMoment⟩, hchoose, hsel.actions, hsel.actionsAtMoment, ?_⟩, ?_⟩
  · exact congrArg (Simulation.hostedBy · scheduler' monitor) hsel.result
  · cases hstarts with
    | turn => exact .turn
    | delivery hremoves hmoment =>
      have hremoves' : (selected.hostedBy scheduler' monitor).timeline.Removes _ _ _ := hremoves
      exact Starts.delivery hremoves' hmoment

/-- The trace grows by the entry of the committed action. -/
theorem Transition.traced {sim sim' : Simulation M S (Trace N) E}
    {step : Step O} (h : sim.Transition (.ok step : StepReturn O ME (TraceError NE) SE) sim') :
    (∃ record, step = .action record ∧
      sim'.monitor.entries.iter = sim.monitor.entries.iter ++ [.fromRecord record]) ∨
    (∀ record, step ≠ .action record) ∧ sim'.monitor = sim.monitor := by
  cases step with
  | action record =>
    obtain ⟨_, started, callback, ctx, log, model, updated, hb, _, hc, hf, hrecord⟩ := h.action
    have hmonitor : updated.monitor = sim.monitor := by rw [hc.frame, hb.frame]
    obtain ⟨metadata, turn, observations⟩ := record
    refine .inl ⟨_, rfl, ?_⟩
    cases hrecord
    cases hf with
    | accepted _ hafter => exact (Trace.afterAction_ok hafter).trans (by rw [hmonitor])
  | timeAdvanced start stop =>
    obtain ⟨_, _, _, _, _, _, hsim'⟩ := h.advances
    exact .inr ⟨by simp, by rw [hsim']; rfl⟩
  | quiescent snapshot => exact .inr ⟨by simp, by rw [h.quiesces.2.2.2]; rfl⟩
  | completed snapshot => exact .inr ⟨by simp, by rw [h.completes.2.2.2.2]; rfl⟩

/-- The replay takes the same step, and keeps up with the trace. -/
def Follows (sim sim' : Simulation M S (Trace N) E) (step : Step O) (replay : Replay) : Prop :=
  ∃ replay', (sim.hostedBy replay NoopMonitor.mk).step = .ok (sim'.hostedBy replay' NoopMonitor.mk,
      (.ok step : StepReturn O ME Empty ReplayDivergence)) ∧
    replay'.entries = replay.entries ∧ replay'.Aligned sim'.monitor.entries.iter.length

omit [Retained E] [Retained O] [Model M E O ME] [Scheduler S SE] [Monitor N M O NE]
  [Scheduler S' SE'] [Monitor N' M O NE'] in
theorem Live.hostedBy {sim : Simulation M S N E} (h : sim.Live) (scheduler : S') (monitor : N') :
    (sim.hostedBy scheduler monitor).Live :=
  ⟨h.unpoisoned, h.active⟩

/-- The replay chooses the recorded action, which begins, runs and commits alike. -/
theorem Transition.follows_action {sim sim' : Simulation M S (Trace N) E}
    {record : ActionRecord O} {replay : Replay}
    (h : sim.Transition (.ok (.action record) : StepReturn O ME (TraceError NE) SE) sim')
    (hs : sim.Sound) (ha : replay.Aligned sim.monitor.entries.iter.length)
    (hrecorded : sim'.monitor.entries.iter <+: replay.entries) :
    Follows sim sim' (.action record) replay := by
  have hs' := hs.hostedBy replay NoopMonitor.mk
  obtain ⟨hlive, started, callback, ctx, log, model, updated, hb, hruns, hc, hf, hrecord⟩ := h.action
  obtain ⟨_, hcase, hgrown⟩ | ⟨hother, _⟩ := h.traced
  swap
  · exact absurd rfl (hother record)
  cases hcase
  obtain ⟨metadata, turn, observations⟩ := record
  cases hrecord
  -- the entry at the replay's cursor is the one this step adds to the trace
  obtain ⟨rest, hrest⟩ := hrecorded
  have hentry : replay.entries[sim.monitor.entries.iter.length]?
      = some ⟨callback.metadata, turn⟩ := by
    rw [← hrest, hgrown]
    simp [TraceEntry.fromRecord]
  have hmoment : callback.metadata.moment = sim.now := hb.now.2
  have hkey : callback.metadata.key ∈ sim.enabled := hb.enabled
  have hchoose := ha.choose_ok hentry ((ReadySet.contains_iff sim.enabled_sorted).mpr hkey)
  rw [show (⟨callback.metadata, turn⟩ : TraceEntry).metadata.moment = sim.now from hmoment] at hchoose
  have hb' := hb.hostedBy NoopMonitor.mk hchoose
  have hruns' : Runs (started.hostedBy { replay with awaitingCommit := true } NoopMonitor.mk)
      callback ctx log model (.ok turn) := ⟨hruns.run, hruns.transaction, hruns.steps⟩
  have hc' : Commits (started.hostedBy { replay with awaitingCommit := true } NoopMonitor.mk)
      callback ctx model turn
      (updated.hostedBy { replay with awaitingCommit := true } NoopMonitor.mk) := by
    obtain ⟨state, hstate, hupdated⟩ := hc.result
    exact ⟨hc.unneeded, state, hstate,
      congrArg (Simulation.hostedBy · { replay with awaitingCommit := true } NoopMonitor.mk)
        hupdated⟩
  obtain ⟨replay', hcommit, haligned, hentries⟩ := ha.committed_ok hentry
  have hrun := (step_attempt hs' ((attempt_iff hs').mpr ⟨hlive.hostedBy .., hb'⟩)).trans
    (runCallback_commit hruns' hc')
  refine ⟨replay', hrun.trans ?_, hentries, ?_⟩
  · cases hf with
    | accepted => simp only [finishAction, Simulation.hostedBy, hcommit, Monitor.afterAction]
  · rw [hgrown, List.length_append, List.length_singleton]
    exact haligned

/-- The replay completes with the run, its trace used up. -/
theorem Transition.follows_completed {sim sim' : Simulation M S (Trace N) E}
    {snapshot : SimulationSnapshot} {replay : Replay}
    (h : sim.Transition (.ok (.completed snapshot) : StepReturn O ME (TraceError NE) SE) sim')
    (hs : sim.Sound) (ha : replay.Aligned sim.monitor.entries.iter.length)
    (hend : ¬ sim'.Live → sim'.monitor.entries.iter = replay.entries) :
    Follows sim sim' (.completed snapshot : Step O) replay := by
  have hs' := hs.hostedBy replay NoopMonitor.mk
  obtain ⟨other, r, hstep, ht⟩ := step_cases hs'
  obtain ⟨hall, _, _, hsnapshot, hsim'⟩ := h.completes
  have hmonitor : sim'.monitor = sim.monitor := by
    rw [hsim']
    rfl
  have hdone : sim.monitor.entries.iter = replay.entries := by
    rw [← hmonitor]
    refine hend fun hn => ?_
    have hactive := hn.active
    rw [hsim'] at hactive
    cases hactive
  have hfinished := Replay.Aligned.finished_ok (hdone ▸ ha)
  obtain ⟨scheduler, verdict, hverdict, ⟨rfl, snapshot', rfl⟩ | ⟨href, _⟩⟩ :=
    ht.finishes hs' (h.live.hostedBy ..) hall
  · obtain ⟨_, hother, _, rfl, hsim⟩ := ht.completes
    have hscheduler : other.scheduler = replay := (Prod.mk.inj (hother.symm.trans hfinished)).1
    have hsame : other = sim'.hostedBy replay NoopMonitor.mk := by
      rw [hsim, hscheduler, hsim']
      rfl
    refine ⟨replay, ?_, rfl, hmonitor ▸ ha⟩
    rw [hstep, hsnapshot, hsame]
    rfl
  · obtain ⟨rfl, rfl⟩ := Prod.mk.inj (hverdict.symm.trans hfinished)
    cases href

/-- A successful step of the recorded run is matched by the replay of any trace
that goes on like it. -/
theorem Transition.follows {sim sim' : Simulation M S (Trace N) E}
    {step : Step O} {replay : Replay}
    (h : sim.Transition (.ok step : StepReturn O ME (TraceError NE) SE) sim') (hs : sim.Sound)
    (ha : replay.Aligned sim.monitor.entries.iter.length)
    (hrecorded : sim'.monitor.entries.iter <+: replay.entries)
    (hend : ¬ sim'.Live → sim'.monitor.entries.iter = replay.entries) :
    Follows sim sim' step replay := by
  have hlive := h.live
  have hlive' : (sim.hostedBy replay NoopMonitor.mk).Live := hlive.hostedBy ..
  obtain ⟨other, r, hstep, ht⟩ := step_cases (hs.hostedBy replay NoopMonitor.mk)
  cases step with
  | action record => exact h.follows_action hs ha hrecorded
  | timeAdvanced start stop =>
    -- time moves to the least upcoming moment, which no scheduler can change
    obtain ⟨_, hempty, rfl, hleast, _, hlimit, hsim'⟩ := h.advances
    have hall : ¬ sim.AllStopped := by
      intro hall
      obtain ⟨_, _, _, ⟨_, _, hr⟩ | ⟨href, _⟩⟩ := h.finishes hs hlive hall
      · cases hr
      · cases href
    obtain rfl := ht.advanced_of hlive' hempty hall hleast hlimit
    obtain ⟨_, _, _, _, _, _, rfl⟩ := ht.advances
    refine ⟨replay, ?_, rfl, ?_⟩
    · rw [hstep, hsim']
      rfl
    · rw [hsim']
      exact ha
  | quiescent snapshot =>
    obtain ⟨hempty, hall, hnone, hsim'⟩ := h.quiesces
    have hsnapshot := h.quiescent_of hlive hempty hall hnone
    obtain rfl := ht.quiescent_of hlive' hempty hall hnone
    obtain ⟨_, _, _, rfl⟩ := ht.quiesces
    cases hsnapshot
    refine ⟨replay, ?_, rfl, ?_⟩
    · rw [hstep, hsim']
      rfl
    · rw [hsim']
      exact ha
  | completed snapshot => exact h.follows_completed hs ha hend

/-! ### Runs -/

/-- The trace of the simulation can still become `entries`, and has if the
simulation can commit nothing more. -/
structure Extends (entries : List TraceEntry) (sim : Simulation M S (Trace N) E) : Prop where
  recorded : sim.monitor.entries.iter <+: entries
  ended : ¬ sim.Live → sim.monitor.entries.iter = entries

/-- Going back one call. -/
theorem Executes.extends {sim sim' : Simulation M S (Trace N) E} {call : Call E}
    {reply : Reply E O ME (TraceError NE) SE} {entries : List TraceEntry}
    (h : sim.Executes call reply sim')
    (hok : reply.failed = false)
    (hext : Extends entries sim') : Extends entries sim := by
  cases h with
  | injected _ hi =>
    cases hi with
    | rejected => exact hext
    | admitted hlive => exact ⟨hext.recorded, fun hn => absurd hlive hn⟩
  | stepped ht =>
    obtain ⟨step, rfl⟩ := Reply.ok_of_failed hok
    refine ⟨?_, fun hn => absurd ht.live hn⟩
    obtain ⟨record, _, hgrown⟩ | ⟨_, hsame⟩ := ht.traced
    · exact (List.prefix_append _ _).trans (hgrown ▸ hext.recorded)
    · exact hsame ▸ hext.recorded

theorem run_extends {sim sim' : Simulation M S (Trace N) E}
    {tr : List (Call E × Reply E O ME (TraceError NE) SE)} {entries : List TraceEntry}
    (hs : sim.Sound) (h : Steps (system M S (Trace N) E O ME SE (TraceError NE)).step sim tr sim')
    (hok : Succeeds tr) (hext : Extends entries sim') : sim'.Sound ∧ Extends entries sim := by
  induction h with
  | refl => exact ⟨hs, hext⟩
  | @snoc tr u v l hsteps hstep ih =>
    have hu : u.Sound := hsteps.preserves
      (fun hp hstep => (executes_of_exec hp hstep).sound hp) hs
    have he := executes_of_exec hu hstep
    have hback := he.extends (hok l (by simp)) hext
    exact ⟨he.sound hu, (ih (fun l' hl' => hok l' (by simp [hl'])) hback).2⟩

/-- **The replay follows the run** that recorded a part of its trace. -/
theorem run_follows {original sim : Simulation M S (Trace N) E} {replay : Replay}
    {tr : List (Call E × Reply E O ME (TraceError NE) SE)} (hs : original.Sound)
    (h : Steps (system M S (Trace N) E O ME SE (TraceError NE)).step original tr sim)
    (hok : Succeeds tr) (hext : Extends replay.entries sim)
    (ha : replay.Aligned original.monitor.entries.iter.length) :
    ∃ tr' replay', Steps (system M Replay NoopMonitor E O ME ReplayDivergence Empty).step
        (original.hostedBy replay ⟨⟩) tr' (sim.hostedBy replay' ⟨⟩) ∧ seen tr' = seen tr ∧
      replay'.entries = replay.entries ∧ replay'.Aligned sim.monitor.entries.iter.length := by
  -- on the run; the replay is kept aligned with what the trace has recorded
  induction h with
  | refl => exact ⟨[], replay, .refl, rfl, rfl, ha⟩
  | @snoc tr u v l hsteps hstep ih =>
    have hu : u.Sound := hsteps.preserves
      (fun hp hstep => (executes_of_exec hp hstep).sound hp) hs
    have he := executes_of_exec hu hstep
    obtain ⟨tr', replay', hrun, hseen, hentries, haligned⟩ :=
      ih (fun l' hl' => hok l' (by simp [hl'])) (he.extends (hok l (by simp)) hext)
    have hgrows : ∀ {reply : Reply E O ME Empty ReplayDivergence}, reply.outcome = l.2.outcome →
        seen (tr' ++ [(l.1, reply)]) = seen (tr ++ [l]) := by
      intro reply houtcome
      rw [seen_append, seen_append, hseen]
      simp [seen, houtcome]
    obtain ⟨call, reply⟩ := l
    by_cases hcall : call = .step
    · subst hcall
      cases he with
      | injected hinjects => cases hinjects
      | stepped ht =>
        obtain ⟨step, rfl⟩ :=
          Reply.ok_of_failed (hok _ (List.mem_append_right _ (List.mem_singleton.mpr rfl)))
        obtain ⟨next, hnext, hsame, hnextAligned⟩ := ht.follows hu haligned
          (hentries ▸ hext.recorded) fun hn => hentries ▸ hext.ended hn
        refine ⟨_, next, hrun.snoc (l := (.step, .stepped (.ok step))) ?_, hgrows rfl,
          hsame.trans hentries, hnextAligned⟩
        show (u.hostedBy replay' NoopMonitor.mk).exec .step = _
        rw [exec, hnext]
        rfl
    · obtain ⟨result, rfl, _, hmonitor, hexec⟩ :=
        exec_hostedBy hstep hcall replay' NoopMonitor.mk
      exact ⟨_, replay', hrun.snoc (l := (call, .injected result)) (by exact hexec), hgrows rfl,
        hentries, hmonitor ▸ haligned⟩

/-- Injections before the first step do the same under the replay. -/
theorem run_injections {start sim : Simulation M S N E}
    {tr : List (Call E × Reply E O ME NE SE)}
    (h : Steps (system M S N E O ME SE NE).step start tr sim) (hcalls : ∀ l ∈ tr, l.1 ≠ .step)
    (scheduler : S') (monitor : N') :
    ∃ tr', Steps (system M S' N' E O ME SE' NE').step (start.hostedBy scheduler monitor) tr'
      (sim.hostedBy scheduler monitor) ∧ seen tr' = seen tr := by
  induction h with
  | refl => exact ⟨[], .refl, rfl⟩
  | @snoc tr u v l _ hstep ih =>
    obtain ⟨tr', hrun, hseen⟩ := ih fun l' hl' => hcalls l' (by simp [hl'])
    obtain ⟨call, reply⟩ := l
    obtain ⟨result, hreply, _, _, hexec⟩ := exec_hostedBy hstep
      (hcalls _ (List.mem_append_right _ (List.mem_singleton.mpr rfl))) scheduler monitor
    obtain rfl : reply = .injected result := hreply
    refine ⟨_, hrun.snoc (l := (call, .injected result)) (by exact hexec), ?_⟩
    rw [seen_append, seen_append, hseen]
    rfl

/-- **Replay completeness**: a run that a trace recorded from before the first
step on, and in which no step failed, is repeated call by call by a fresh
simulation over a replay of its trace: up to any call `tr₁` ends with, the
outcomes are the same, and so is everything but the scheduler and the monitor.
A replay of a completed run is complete. -/
theorem replay_complete {id : TimelineId} {now : Moment} {model : M} {topology : Topology}
    {limits : SimulationLimits} {scheduler : S} {start ready : Simulation M S NoopMonitor E}
    {tlimits : TraceLimits} {inner : N} {mid sim : Simulation M S (Trace N) E}
    {before : List (Call E × Reply E O ME Empty SE)}
    {tr₁ tr₂ : List (Call E × Reply E O ME (TraceError NE) SE)}
    (hbuild : withParts id now model topology limits scheduler NoopMonitor.mk = .ok (.ok start))
    (hbefore : Steps (system M S NoopMonitor E O ME SE Empty).step start before ready)
    (hinjects : ∀ l ∈ before, l.1 ≠ .step)
    (hrun₁ : Steps (system M S (Trace N) E O ME SE (TraceError NE)).step
      (ready.withMonitor (Trace.withMonitor tlimits inner)) tr₁ mid)
    (hrun₂ : Steps (system M S (Trace N) E O ME SE (TraceError NE)).step mid tr₂ sim)
    (hok : Succeeds (tr₁ ++ tr₂)) :
    ∃ fresh tr' reached,
      withParts id now model topology limits sim.monitor.replay NoopMonitor.mk = .ok (.ok fresh) ∧
      Steps (system M Replay NoopMonitor E O ME ReplayDivergence Empty).step fresh tr' reached ∧
      seen tr' = seen before ++ seen tr₁ ∧
      reached = mid.hostedBy reached.scheduler reached.monitor ∧
      (mid.phase = .completed → reached.scheduler.isComplete = true) := by
  have hready : ready.Sound := hbefore.preserves
    (fun hp hstep => (executes_of_exec hp hstep).sound hp) (withParts_sound hbuild)
  have hs : (ready.withMonitor (Trace.withMonitor tlimits inner)).Sound :=
    hready.hostedBy ready.scheduler (Trace.withMonitor tlimits inner)
  have hmid : mid.Sound := hrun₁.preserves
    (fun hp hstep => (executes_of_exec hp hstep).sound hp) hs
  -- what the trace holds at the end extends what it held at every call
  have hext : Extends sim.monitor.entries.iter mid :=
    (run_extends hmid hrun₂ (fun l hl => hok l (List.mem_append_right _ hl))
      ⟨List.prefix_rfl, fun _ => rfl⟩).2
  obtain ⟨tr, hinjected, hseen⟩ := run_injections hbefore
    hinjects sim.monitor.replay NoopMonitor.mk
  obtain ⟨tr', replay', hfollows, hseen', hentries, haligned⟩ := run_follows
    hs hrun₁ (fun l hl => hok l (List.mem_append_left _ hl)) hext
    (Replay.fromEntries_aligned _ sim.monitor.replay.addressable)
  refine ⟨_, tr ++ tr', _, withParts_hostedBy hbuild _ _, hinjected.trans hfollows, ?_, rfl,
    fun hcompleted => ?_⟩
  · rw [seen_append, hseen, hseen']
  · have hended := hext.ended fun hlive => by simp [hlive.active] at hcompleted
    have hcursor := haligned.cursor
    have hidle := haligned.idle
    rw [hended] at hcursor
    have hlength : replay'.entries.length = sim.monitor.entries.iter.length := by
      rw [hentries]
      rfl
    simp [Simulation.hostedBy, Replay.isComplete, Replay.remaining, hcursor, hidle, hlength]

/-- A duty that sends itself an event, waits, and stops on the event injected for it. -/
def echoCallbacks : List (Program Unit Unit (Returned Turn Empty)) :=
  [.call (.sendAfter 1 3 ()) fun _ => .done (.ok ⟨1, .wake⟩), .done (.ok ⟨0, .wake⟩)]

def echoWorld : Simulation (Playback Unit Unit Empty) Fifo (Trace NoopMonitor) Unit :=
  ((Playback.world echoCallbacks Fifo.mk NoopMonitor.mk).after [.injectAfter 1 5 ()]).withMonitor
    (.withMonitor ⟨⟨8, U64.eight_ne_zero⟩, 0⟩ NoopMonitor.mk)

/-- Three actions, two advances between them, and completion. -/
def echoCalls : List (Call Unit) := [.step, .step, .step, .step, .step, .step]

theorem replay_complete_echo :
    (echoWorld.after echoCalls).monitor.entries.iter.length = 3 ∧
    ∃ fresh tr' reached, withParts 7 0 (⟨echoCallbacks⟩ : Playback Unit Unit Empty)
        ⟨[1], by simp, by simp⟩ (.new ⟨⟨8, by decide⟩, 64⟩)
        (echoWorld.after echoCalls).monitor.replay NoopMonitor.mk = .ok (.ok fresh) ∧
      Steps (system (Playback Unit Unit Empty) Replay NoopMonitor Unit Unit Empty ReplayDivergence
        Empty).step fresh tr' reached ∧
      reached.now = 5 ∧ reached.scheduler.isComplete = true := by
  obtain ⟨fresh, tr', reached, hfresh, hsteps, _, hreached, hcomplete⟩ := replay_complete
    (Playback.world_built echoCallbacks Fifo.mk NoopMonitor.mk)
    (steps_after (Playback.world echoCallbacks Fifo.mk NoopMonitor.mk) [.injectAfter 1 5 ()])
    (by decide +kernel) (steps_after echoWorld echoCalls) .refl (by decide +kernel)
  refine ⟨by decide +kernel, fresh, tr', reached, hfresh, hsteps, ?_, hcomplete (by decide +kernel)⟩
  have hnow : (echoWorld.after echoCalls).now = 5 := by decide +kernel
  rw [hreached]
  exact hnow

end Simulation

end Calandria
