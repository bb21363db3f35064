/-
Virtual-time discipline.

Time moves in one place only, a `TimeAdvanced` step, and such a step happens
only when nothing is ready (`Transition.advances`).  It then moves to the least
upcoming moment, so no pending event and no owner deadline is jumped over.

* `step_time` — the discipline of one step of a reachable simulation: when time
  moves and how far, when a step is quiescent, and when it completes;
* `run_time` — what follows for whole runs: time never decreases, nothing
  pending is ever in the past, a duty that keeps waiting for a deadline is
  never left behind it, and two steps in a row never both move time.
-/
import Calandria.Atomicity
import Mathlib.Order.Bounds.Defs

namespace Calandria

namespace Simulation

variable {M S N E O ME SE NE : Type} [Retained E] [Retained O] [Model M E O ME]
  [Scheduler S SE] [Monitor N M O NE]

omit [Retained E] [Retained O] [Monitor N M O NE] in
theorem Begins.now {sim started : Simulation M S N E} {callback : Callback M E O ME}
    (h : sim.Begins started callback) : started.now = sim.now ∧ callback.metadata.moment = sim.now := by
  obtain ⟨key, selected, hsel, hstarts⟩ := h
  have hselected : selected.now = sim.now := by
    rw [hsel.result]
    rfl
  cases hstarts with
  | turn => exact ⟨hselected, hselected⟩
  | delivery hr =>
    have hclock := congrArg VirtualClock.now hr.frame.clock
    exact ⟨hclock.trans hselected, hselected⟩

/-- Only an advance moves time. -/
theorem Transition.now {sim sim' : Simulation M S N E} {r : StepReturn O ME NE SE}
    (h : sim.Transition r sim') :
    (∃ start stop, r = .ok (.timeAdvanced start stop)) ∨ sim'.now = sim.now := by
  cases h with
  | poisoned | inactive | limited | completed | quiescent | timeLimited => exact .inr rfl
  | refused => exact .inr (congrArg Timeline.now (halt_timeline _ _))
  | @rolledBack started callback ctx log model result timeline r _ hb _ _ hr _ =>
    right
    have htimeline : ({ started with model, timeline } : Simulation M S N E).now = started.now := by
      show timeline.clock.now = _
      rw [hr.result]
      rfl
    rw [Simulation.now, halt_timeline]
    exact htimeline.trans hb.now.1
  | @committed started callback ctx log model turn updated r sim' _ hb hruns hc hf =>
    right
    have htimeline : sim'.timeline = ctx.timeline := by
      rw [hf.frame, hc.frame]
    have hclock := congrArg VirtualClock.now hruns.transaction.frame.timeline.clock
    rw [Simulation.now, htimeline]
    exact hclock.trans hb.now.1
  | finishRefused => exact .inr (congrArg Timeline.now (halt_timeline _ _))
  | advanced => exact .inl ⟨_, _, rfl⟩

/-- Only a live simulation makes progress. -/
theorem Transition.live {sim sim' : Simulation M S N E} {step : Step O}
    (h : sim.Transition (.ok step : StepReturn O ME NE SE) sim') : sim.Live := by
  generalize hr : (.ok step : StepReturn O ME NE SE) = r at h
  cases h with
  | poisoned | inactive => cases hr
  | limited hlive | refused hlive | rolledBack hlive | committed hlive | completed hlive
  | finishRefused hlive | quiescent hlive | timeLimited hlive | advanced hlive => exact hlive

/-- What an advance is. -/
theorem Transition.advances {sim sim' : Simulation M S N E} {start stop : Moment}
    (h : sim.Transition (.ok (.timeAdvanced start stop) : StepReturn O ME NE SE) sim') :
    sim.Live ∧ sim.enabled = [] ∧ start = sim.now ∧ IsLeast {m | sim.Upcoming m} stop ∧
      start < stop ∧ stop ≤ sim.limits.maxVirtualTime ∧
      sim' = { sim.built with
        timeline := { sim.timeline with clock := ⟨stop⟩ }, actionsAtMoment := 0 } := by
  generalize hr : (.ok (.timeAdvanced start stop) : StepReturn O ME NE SE) = r at h
  cases h with
  | refused _ _ _ _ href => cases href <;> cases hr
  | rolledBack _ _ _ ha => cases ha <;> cases hr
  | committed _ _ _ _ hf => cases hf <;> cases hr
  | finishRefused _ _ _ _ _ href => cases href <;> cases hr
  | advanced hlive hempty _ hup hmin hfuture hlimit =>
    cases hr
    exact ⟨hlive, hempty, rfl, ⟨hup, fun m hm => hmin m hm⟩, hfuture, hlimit, rfl⟩
  | poisoned | inactive | limited | completed | quiescent | timeLimited => cases hr

/-- After an advance something is ready. -/
theorem Transition.advances_enabled {sim sim' : Simulation M S N E} {start stop : Moment}
    (h : sim.Transition (.ok (.timeAdvanced start stop) : StepReturn O ME NE SE) sim') :
    sim'.enabled ≠ [] := by
  obtain ⟨_, _, _, hleast, _, _, rfl⟩ := h.advances
  intro hnil
  obtain ⟨hdue, hrun⟩ := enabled_eq_nil.mp hnil
  rcases hleast.1 with ⟨token, entry, hentry, hmoment⟩ | hmem
  · exact hdue token entry hentry hmoment
  · obtain ⟨duty, state, hstate, hnext⟩ := mem_deadlines.mp hmem
    have hfalse := hrun duty state hstate
    rw [runnable, hnext] at hfalse
    simp [Deadline.isElapsedAt, Simulation.now, Timeline.now] at hfalse

/-- What a step that returns an action is. -/
theorem Transition.action {sim sim' : Simulation M S N E} {record : ActionRecord O}
    (h : sim.Transition (.ok (.action record) : StepReturn O ME NE SE) sim') :
    sim.Live ∧ ∃ started callback ctx log model updated, sim.Begins started callback ∧
      Runs started callback ctx log model (.ok record.turn) ∧
      Commits started callback ctx model record.turn updated ∧
      Finishes updated callback.metadata record.turn ctx.observations
        (.ok (.action record) : StepReturn O ME NE SE) sim' ∧
      record = ⟨callback.metadata, record.turn, ctx.observations⟩ := by
  generalize hr : (.ok (.action record) : StepReturn O ME NE SE) = r at h
  cases h with
  | refused _ _ _ _ href => cases href <;> cases hr
  | rolledBack _ _ _ ha => cases ha <;> cases hr
  | committed hlive hb hruns hc hf =>
    have hf' := hf
    cases hf' <;> cases hr
    exact ⟨hlive, _, _, _, _, _, _, hb, hruns, hc, hf, rfl⟩
  | finishRefused _ _ _ _ _ href => cases href <;> cases hr
  | poisoned | inactive | limited | completed | quiescent | timeLimited | advanced => cases hr

/-- What a quiescent step is. -/
theorem Transition.quiesces {sim sim' : Simulation M S N E} {snapshot : SimulationSnapshot}
    (h : sim.Transition (.ok (.quiescent snapshot) : StepReturn O ME NE SE) sim') :
    sim.enabled = [] ∧ ¬ sim.AllStopped ∧ (∀ moment, ¬ sim.Upcoming moment) ∧ sim' = sim.built := by
  generalize hr : (.ok (.quiescent snapshot) : StepReturn O ME NE SE) = r at h
  cases h with
  | refused _ _ _ _ href => cases href <;> cases hr
  | rolledBack _ _ _ ha => cases ha <;> cases hr
  | committed _ _ _ _ hf => cases hf <;> cases hr
  | finishRefused _ _ _ _ _ href => cases href <;> cases hr
  | quiescent _ hempty hall hnone => exact ⟨hempty, hall, hnone, rfl⟩
  | poisoned | inactive | limited | completed | timeLimited | advanced => cases hr

/-- What a completing step is. -/
theorem Transition.completes {sim sim' : Simulation M S N E} {snapshot : SimulationSnapshot}
    (h : sim.Transition (.ok (.completed snapshot) : StepReturn O ME NE SE) sim') :
    sim.AllStopped ∧ Scheduler.finished sim.scheduler = (sim'.scheduler, .ok ()) ∧
      sim.timeline.pending = [] ∧ snapshot = sim'.snapshot ∧
      sim' = { sim.built with scheduler := sim'.scheduler, phase := .completed } := by
  generalize hr : (.ok (.completed snapshot) : StepReturn O ME NE SE) = r at h
  cases h with
  | refused _ _ _ _ href => cases href <;> cases hr
  | rolledBack _ _ _ ha => cases ha <;> cases hr
  | committed _ _ _ _ hf => cases hf <;> cases hr
  | finishRefused _ _ _ _ _ href => cases href <;> cases hr
  | completed _ _ hall hnil hfinished =>
    cases hr
    exact ⟨hall, hfinished, hnil, rfl, rfl⟩
  | poisoned | inactive | limited | quiescent | timeLimited | advanced => cases hr

/-! ### When a step is quiescent or completes -/

omit [Retained O] [Model M E O ME] [Scheduler S SE] [Monitor N M O NE] in
theorem enabled_of_allStopped {sim : Simulation M S N E} (hs : sim.Sound) (hall : sim.AllStopped) :
    sim.enabled = [] := by
  refine enabled_eq_nil.mpr ⟨fun token entry hentry _ => ?_, fun duty state hstate => ?_⟩
  · have hmem := Timeline.mem_pending.mpr ⟨entry, hentry, rfl⟩
    simp [pending_eq_nil hs hall] at hmem
  · obtain ⟨state', hstate', hstop⟩ :=
      hs.stopped.mp (hall duty (hs.keys.mp ⟨state, hstate⟩))
    obtain rfl : state = state' := Option.some_inj.mp (hstate.symm.trans hstate')
    rw [runnable, hstop]

/-- A live simulation with nothing ready and nothing upcoming is quiescent. -/
theorem Transition.quiescent_of {sim sim' : Simulation M S N E} {r : StepReturn O ME NE SE}
    (h : sim.Transition r sim') (hlive : sim.Live) (hempty : sim.enabled = [])
    (hall : ¬ sim.AllStopped) (hnone : ∀ moment, ¬ sim.Upcoming moment) :
    r = .ok (.quiescent sim.snapshot) := by
  cases h with
  | poisoned hp => simp [hlive.unpoisoned] at hp
  | inactive _ hi => exact absurd hlive.active hi
  | limited _ hne => exact absurd hempty hne
  | refused _ hne => exact absurd hempty hne
  | rolledBack _ hb | committed _ hb => exact absurd hempty hb.ready
  | completed _ _ ha => exact absurd ha hall
  | finishRefused _ _ ha => exact absurd ha hall
  | quiescent => rfl
  | timeLimited _ _ _ hup => exact absurd hup (hnone _)
  | advanced _ _ _ hup => exact absurd hup (hnone _)

/-- A live simulation with nothing ready and something upcoming in reach advances. -/
theorem Transition.advanced_of {sim sim' : Simulation M S N E} {r : StepReturn O ME NE SE}
    (h : sim.Transition r sim') (hlive : sim.Live) (hempty : sim.enabled = [])
    (hall : ¬ sim.AllStopped) {next : Moment} (hleast : IsLeast {m | sim.Upcoming m} next)
    (hlimit : next ≤ sim.limits.maxVirtualTime) : r = .ok (.timeAdvanced sim.now next) := by
  have hunique : ∀ {other}, sim.Upcoming other → (∀ m, sim.Upcoming m → other ≤ m) → other = next :=
    fun hup hmin => le_antisymm (hmin _ hleast.1) (hleast.2 hup)
  cases h with
  | poisoned hp => simp [hlive.unpoisoned] at hp
  | inactive _ hi => exact absurd hlive.active hi
  | limited _ hne => exact absurd hempty hne
  | refused _ hne => exact absurd hempty hne
  | rolledBack _ hb | committed _ hb => exact absurd hempty hb.ready
  | completed _ _ ha => exact absurd ha hall
  | finishRefused _ _ ha => exact absurd ha hall
  | quiescent _ _ _ hnone => exact absurd hleast.1 (hnone _)
  | timeLimited _ _ _ hup hmin hlt =>
    obtain rfl := hunique hup hmin
    exact absurd hlimit (not_le.mpr hlt)
  | advanced _ _ _ hup hmin =>
    obtain rfl := hunique hup hmin
    rfl

/-- Once every duty of a live simulation stopped, the scheduler decides. -/
theorem Transition.finishes {sim sim' : Simulation M S N E} {r : StepReturn O ME NE SE}
    (h : sim.Transition r sim') (hs : sim.Sound) (hlive : sim.Live) (hall : sim.AllStopped) :
    ∃ scheduler verdict, Scheduler.finished sim.scheduler = (scheduler, verdict) ∧
      ((verdict = .ok () ∧ ∃ snapshot, r = .ok (.completed snapshot)) ∨
        FinishRefusal verdict r ∧ sim' = ({ sim.built with scheduler }).halt r) := by
  have hempty := enabled_of_allStopped hs hall
  cases h with
  | poisoned hp => simp [hlive.unpoisoned] at hp
  | inactive _ hi => exact absurd hlive.active hi
  | limited _ hne => exact absurd hempty hne
  | refused _ hne => exact absurd hempty hne
  | rolledBack _ hb | committed _ hb => exact absurd hempty hb.ready
  | completed _ _ _ _ hfinished => exact ⟨_, _, hfinished, .inl ⟨rfl, _, rfl⟩⟩
  | finishRefused _ _ _ _ hfinished href => exact ⟨_, _, hfinished, .inr ⟨href, rfl⟩⟩
  | quiescent _ _ ha => exact absurd hall ha
  | timeLimited _ _ ha => exact absurd hall ha
  | advanced _ _ ha => exact absurd hall ha

/-- With something ready and the limits kept, the scheduler's choice fails the
step or begins an action. -/
theorem Transition.chooses {sim sim' : Simulation M S N E} {r : StepReturn O ME NE SE}
    (h : sim.Transition r sim') (hlive : sim.Live) (hne : sim.enabled ≠ [])
    (hw : sim.WithinLimits) :
    (∃ scheduler choice, Scheduler.choose sim.scheduler sim.now sim.enabled = (scheduler, choice) ∧
      Refusal sim.enabled choice r ∧ sim' = ({ sim.built with scheduler }).halt r) ∨
    ∃ started callback, sim.Begins started callback := by
  cases h with
  | poisoned hp => simp [hlive.unpoisoned] at hp
  | inactive _ hi => exact absurd hlive.active hi
  | limited _ _ hn => exact absurd hw hn
  | refused _ _ _ hchoose href => exact .inl ⟨_, _, hchoose, href, rfl⟩
  | rolledBack _ hb => exact .inr ⟨_, _, hb⟩
  | committed _ hb => exact .inr ⟨_, _, hb⟩
  | completed _ hempty => exact absurd hempty hne
  | finishRefused _ hempty => exact absurd hempty hne
  | quiescent _ hempty => exact absurd hempty hne
  | timeLimited _ hempty => exact absurd hempty hne
  | advanced _ hempty => exact absurd hempty hne

/-! ### Time along a run -/

theorem exec_now {sim sim' : Simulation M S N E} {call : Call E} {reply : Reply E O ME NE SE}
    (h : sim.Executes call reply sim') : sim.now ≤ sim'.now := by
  cases h with
  | stepped ht =>
    rcases ht.now with ⟨start, stop, rfl⟩ | heq
    · obtain ⟨_, _, rfl, _, hlt, _, rfl⟩ := ht.advances
      exact hlt.le
    · exact heq.ge
  | injected _ hi =>
    cases hi with
    | rejected => exact le_rfl
    | admitted _ _ _ _ _ ha => exact (congrArg VirtualClock.now ha.frame.clock).ge

/-- Whether a label is a step that moved time. -/
def Advances (l : Call E × Reply E O ME NE SE) : Prop :=
  ∃ start stop, l.2 = .stepped (.ok (.timeAdvanced start stop))

theorem advances_enabled {sim sim' : Simulation M S N E} {l : Call E × Reply E O ME NE SE}
    (h : sim.Executes l.1 l.2 sim') (ha : Advances l) :
    sim.enabled = [] ∧ sim'.enabled ≠ [] := by
  obtain ⟨start, stop, hreply⟩ := ha
  rw [hreply] at h
  generalize hcall : l.1 = call at h
  cases h with
  | stepped ht => exact ⟨ht.advances.2.1, ht.advances_enabled⟩

/-- No two advances stand next to each other, and after an advance something is ready. -/
theorem run_advances {sim : Simulation M S N E} {tr : List (Call E × Reply E O ME NE SE)}
    (h : (system M S N E O ME SE NE).Run tr sim) :
    (∀ i l l', tr[i]? = some l → tr[i + 1]? = some l' → Advances l → ¬ Advances l') ∧
      ∀ l, tr.getLast? = some l → Advances l → sim.enabled ≠ [] := by
  refine h.invariant (I := fun tr sim =>
    (∀ i l l', tr[i]? = some l → tr[i + 1]? = some l' → Advances l → ¬ Advances l') ∧
      ∀ l, tr.getLast? = some l → Advances l → sim.enabled ≠ []) (fun _ => ?_) ?_
  · exact ⟨fun i l l' hl => by simp at hl, fun l hl => by simp at hl⟩
  · intro tr u l v hrun ⟨hpairs, hlast⟩ hstep
    have he := executes_of_exec (reachable_sound hrun.reachable) hstep
    refine ⟨fun i l₁ l₂ h1 h2 ha1 ha2 => ?_, fun l' hl' ha => ?_⟩
    · rcases getElem?_snoc.mp h2 with h2 | ⟨hi, rfl⟩
      · have hlt := lt_length_of_getElem? h2
        rcases getElem?_snoc.mp h1 with h1 | ⟨hi, _⟩
        · exact hpairs i l₁ l₂ h1 h2 ha1 ha2
        · omega
      · -- the last step starts where the one before it ended
        rcases getElem?_snoc.mp h1 with h1 | ⟨hi', _⟩
        · refine hlast l₁ ?_ ha1 (advances_enabled he ha2).1
          rw [List.getLast?_eq_getElem?, ← h1]
          congr 1
          omega
        · omega
    · rw [List.getLast?_append, List.getLast?_singleton] at hl'
      obtain rfl : l = l' := by simpa using hl'
      exact (advances_enabled he ha).2

/-- A duty that waits for a deadline through a run is never left behind it. -/
theorem deadline_kept {sim sim' : Simulation M S N E} {tr : List (Call E × Reply E O ME NE SE)}
    {duty : DutyId} {state : DutyState} {deadline : Deadline} (hs : sim.Sound)
    (hstate : sim.states.get? duty = some state) (hnext : state.next = .wakeOr deadline)
    (h : Steps (fun u l v => (system M S N E O ME SE NE).step u l v ∧
      v.states.get? duty = some state) sim tr sim') : sim'.now ≤ max sim.now deadline := by
  refine (h.preserves (P := fun u => u.Sound ∧ u.states.get? duty = some state ∧
    u.now ≤ max sim.now deadline) ?_ ⟨hs, hstate, le_max_left _ _⟩).2.2
  intro u l v ⟨hu, hwaits, hle⟩ ⟨hstep, hkept⟩
  have he := executes_of_exec hu hstep
  refine ⟨he.sound hu, hkept, ?_⟩
  by_cases ha : Advances l
  · obtain ⟨start, stop, hreply⟩ := ha
    rw [hreply] at he
    generalize hcall : l.1 = call at he
    cases he with
    | stepped ht =>
      obtain ⟨_, _, _, hleast, _, _, rfl⟩ := ht.advances
      have hup : u.Upcoming deadline := .inr (mem_deadlines.mpr ⟨duty, state, hwaits, hnext⟩)
      exact (hleast.2 hup).trans (le_max_right _ _)
  · have hsame : v.now = u.now := by
      generalize hcall : l.1 = call at he
      generalize hreply : l.2 = reply at he
      cases he with
      | stepped ht =>
        rcases ht.now with ⟨start, stop, rfl⟩ | heq
        · exact absurd ⟨start, stop, hreply⟩ ha
        · exact heq
      | injected _ hi =>
        cases hi with
        | rejected => rfl
        | admitted _ _ _ _ _ had => exact congrArg VirtualClock.now had.frame.clock
    exact hsame.le.trans hle

/-! ### The discipline -/

/-- The discipline of one step from `sim` to `sim'`. -/
structure StepTime (sim : Simulation M S N E) (r : StepReturn O ME NE SE)
    (sim' : Simulation M S N E) : Prop where
  /-- Only an advance moves time. -/
  moves : (∃ start stop, r = .ok (.timeAdvanced start stop)) ∨ sim'.now = sim.now
  /-- An advance finds nothing due, and moves to the least upcoming moment. -/
  advance : ∀ start stop, r = .ok (.timeAdvanced start stop) →
    (∀ token routed, (token, routed) ∈ sim.timeline.pending → token.moment ≠ sim.now) ∧
    (∀ duty state, sim.states.get? duty = some state → state.next ≠ .now ∧
      ∀ deadline, state.next = .wakeOr deadline → Deadline.isElapsedAt deadline sim.now = false) ∧
    start = sim.now ∧ sim'.now = stop ∧
    IsLeast {moment |
      (∃ token routed, (token, routed) ∈ sim.timeline.pending ∧ token.moment = moment) ∨
      ∃ duty state, sim.states.get? duty = some state ∧ state.next = .wakeOr moment} stop ∧
    start < stop ∧ stop ≤ sim.limits.maxVirtualTime
  /-- Every action runs at the current moment, which is the one its event was due at. -/
  action : (∀ started callback, sim.attempt = some (started, callback) →
      callback.metadata.moment = sim.now ∧
      ∀ token routed, callback.delivered = some (token, routed) → token.moment = sim.now) ∧
    ∀ record, r = .ok (.action record) → record.metadata.moment = sim.now
  /-- Quiescence is exactly the lack of anything ready or upcoming in a live system. -/
  quiescent : (∃ snapshot, r = .ok (.quiescent snapshot)) ↔
    sim.buildReady = .ok ({ sim with ready := [] }, .ok ()) ∧
    (∃ duty ∈ sim.topology.duties, duty ∉ sim.stopped) ∧ sim.timeline.pending = [] ∧
    ∀ duty state deadline, sim.states.get? duty = some state → state.next ≠ .wakeOr deadline
  /-- A quiescent step changes nothing but the cleared ready buffer. -/
  unchanged : ∀ snapshot, r = .ok (.quiescent snapshot) → sim' = { sim with ready := [] }
  /-- Completion is exactly the stop of every duty, accepted by the scheduler. -/
  completed : (∃ snapshot, r = .ok (.completed snapshot)) ↔
    (∀ duty ∈ sim.topology.duties, duty ∈ sim.stopped) ∧
    (Scheduler.finished sim.scheduler).2 = .ok ()

omit [Retained E] [Retained O] [Model M E O ME] [Scheduler S SE] [Monitor N M O NE] in
theorem upcoming_iff {sim : Simulation M S N E} {moment : Moment} :
    sim.Upcoming moment ↔
      (∃ token routed, (token, routed) ∈ sim.timeline.pending ∧ token.moment = moment) ∨
      ∃ duty state, sim.states.get? duty = some state ∧ state.next = .wakeOr moment := by
  refine or_congr ⟨?_, ?_⟩ mem_deadlines
  · rintro ⟨token, entry, hentry, hmoment⟩
    exact ⟨token, entry.event, Timeline.mem_pending.mpr ⟨entry, hentry, rfl⟩, hmoment⟩
  · rintro ⟨token, routed, hmem, hmoment⟩
    obtain ⟨entry, hentry, -⟩ := Timeline.mem_pending.mp hmem
    exact ⟨token, entry, hentry, hmoment⟩

omit [Retained O] [Model M E O ME] [Scheduler S SE] [Monitor N M O NE] in
/-- The condition of a quiescent step, in the words of the invariant. -/
theorem idle_iff {sim : Simulation M S N E} (hs : sim.Sound) :
    (sim.buildReady = .ok ({ sim with ready := [] }, .ok ()) ∧
      (∃ duty ∈ sim.topology.duties, duty ∉ sim.stopped) ∧ sim.timeline.pending = [] ∧
      ∀ duty state deadline, sim.states.get? duty = some state → state.next ≠ .wakeOr deadline) ↔
    sim.enabled = [] ∧ ¬ sim.AllStopped ∧ ∀ moment, ¬ sim.Upcoming moment := by
  have hready : sim.buildReady = .ok ({ sim with ready := [] }, .ok ()) ↔ sim.enabled = [] := by
    rw [buildReady_eq hs]
    constructor
    · intro h
      exact congrArg Simulation.ready (Prod.mk.inj (Except.ok.inj h)).1
    · intro h
      rw [built, h]
  have hlive : (∃ duty ∈ sim.topology.duties, duty ∉ sim.stopped) ↔ ¬ sim.AllStopped := by
    rw [AllStopped]
    push Not
    exact Iff.rfl
  rw [hready, hlive]
  refine and_congr_right fun _ => and_congr_right fun _ => ?_
  simp only [upcoming_iff, not_or]
  constructor
  · rintro ⟨hnil, hnone⟩ moment
    refine ⟨?_, ?_⟩
    · rintro ⟨token, routed, hmem, _⟩
      simp [hnil] at hmem
    · rintro ⟨duty, state, hstate, hnext⟩
      exact hnone duty state moment hstate hnext
  · intro h
    refine ⟨List.eq_nil_iff_forall_not_mem.mpr ?_, fun duty state deadline hstate hnext => ?_⟩
    · rintro ⟨token, routed⟩ hmem
      exact (h token.moment).1 ⟨token, routed, hmem, rfl⟩
    · exact (h deadline).2 ⟨duty, state, hstate, hnext⟩

theorem Transition.stepTime {sim sim' : Simulation M S N E} {r : StepReturn O ME NE SE}
    (h : sim.Transition r sim') (hs : sim.Sound) (hlive : sim.Live) : StepTime sim r sim' where
  moves := h.now
  advance start stop hr := by
    subst hr
    obtain ⟨_, hempty, hstart, hleast, hlt, hlimit, hsim'⟩ := h.advances
    -- nothing is enabled, so neither an event nor a turn is due now
    obtain ⟨hdue, hrun⟩ := enabled_eq_nil.mp hempty
    refine ⟨fun token routed hmem => ?_, fun duty state hstate => ⟨fun hnow => ?_,
      fun deadline hnext => ?_⟩, hstart, by rw [hsim']; rfl, ?_, hlt, hlimit⟩
    · obtain ⟨entry, hentry, -⟩ := Timeline.mem_pending.mp hmem
      exact hdue token entry hentry
    · have hfalse := hrun duty state hstate
      simp [runnable, hnow] at hfalse
    · have hfalse := hrun duty state hstate
      rwa [runnable, hnext] at hfalse
    · simpa only [upcoming_iff] using hleast
  action := by
    refine ⟨fun started callback hattempt => ?_, fun record hr => ?_⟩
    · obtain ⟨_, hb⟩ := (attempt_iff hs).mp hattempt
      refine ⟨hb.now.2, fun token routed hdelivered => ?_⟩
      obtain ⟨key, selected, hsel, hstarts⟩ := hb
      have hnow : selected.now = sim.now := by
        rw [hsel.result]
        rfl
      cases hstarts with
      | turn => cases hdelivered
      | delivery _ hmoment =>
        obtain ⟨rfl, -⟩ := Prod.mk.inj (Option.some_inj.mp hdelivered)
        exact hmoment.trans hnow
    · subst hr
      obtain ⟨_, _, callback, _, _, _, _, hb, _, _, _, hrecord⟩ := h.action
      rw [hrecord]
      exact hb.now.2
  quiescent := by
    rw [idle_iff hs]
    constructor
    · rintro ⟨snapshot, rfl⟩
      obtain ⟨hempty, hall, hnone, _⟩ := h.quiesces
      exact ⟨hempty, hall, hnone⟩
    · rintro ⟨hempty, hall, hnone⟩
      exact ⟨_, h.quiescent_of hlive hempty hall hnone⟩
  unchanged snapshot hr := by
    subst hr
    obtain ⟨hempty, _, _, hsim'⟩ := h.quiesces
    rw [hsim', built, hempty]
  completed := by
    constructor
    · rintro ⟨snapshot, rfl⟩
      obtain ⟨hall, hfinished, _⟩ := h.completes
      exact ⟨hall, by rw [hfinished]⟩
    · rintro ⟨hall, haccepts⟩
      obtain ⟨scheduler, verdict, hfinished, ⟨_, hr⟩ | ⟨href, _⟩⟩ := h.finishes hs hlive hall
      · exact hr
      · rw [hfinished] at haccepts
        cases href <;> cases haccepts

/-- **Virtual-time discipline** of every run: each step of a live simulation
keeps `StepTime`, and along the run nothing upcoming is passed over. -/
theorem virtual_time {sim : Simulation M S N E} {tr : List (Call E × Reply E O ME NE SE)}
    (h : (system M S N E O ME SE NE).Run tr sim) :
    (∀ sim' r, sim.step = .ok (sim', r) → sim.phase = .active → sim.poisoned = false →
      StepTime sim r sim') ∧
    (∀ call sim' reply, sim.exec call = .ok (sim', reply) →
      (∃ start stop, reply = .stepped (.ok (.timeAdvanced start stop))) ∨ sim'.now = sim.now) ∧
    (∀ token routed, (token, routed) ∈ sim.timeline.pending → sim.now ≤ token.moment) ∧
    (∀ tr' sim', Steps (system M S N E O ME SE NE).step sim tr' sim' → sim.now ≤ sim'.now) ∧
    (∀ tr' sim' duty state deadline, sim.states.get? duty = some state →
      state.next = .wakeOr deadline →
      Steps (fun u l v => (system M S N E O ME SE NE).step u l v ∧
        v.states.get? duty = some state) sim tr' sim' → sim'.now ≤ max sim.now deadline) ∧
    ∀ i start stop start' stop',
      tr[i]? = some (.step, .stepped (.ok (.timeAdvanced start stop))) →
      tr[i + 1]? ≠ some (.step, .stepped (.ok (.timeAdvanced start' stop'))) := by
  have hs := reachable_sound h.reachable
  refine ⟨fun sim' r hstep hactive hunpoisoned => ?_, fun call sim' reply hexec => ?_,
    fun token routed hmem => ?_, fun tr' sim' hsteps => ?_,
    fun tr' sim' duty state deadline hstate hnext hsteps => deadline_kept hs hstate hnext hsteps,
    fun i start stop start' stop' hi hi' => ?_⟩
  · obtain ⟨sim₁, r₁, hrun, ht⟩ := step_cases hs
    obtain ⟨rfl, rfl⟩ := Prod.mk.inj (Except.ok.inj (hstep.symm.trans hrun))
    exact ht.stepTime hs ⟨hunpoisoned, hactive⟩
  · cases executes_of_exec hs hexec with
    | stepped ht =>
      rcases ht.now with ⟨start, stop, rfl⟩ | heq
      · exact .inl ⟨start, stop, rfl⟩
      · exact .inr heq
    | injected _ hi =>
      cases hi with
      | rejected => exact .inr rfl
      | admitted _ _ _ _ _ had => exact .inr (congrArg VirtualClock.now had.frame.clock)
  · obtain ⟨entry, hentry, -⟩ := Timeline.mem_pending.mp hmem
    exact hs.wf.future hentry
  · exact (hsteps.preserves (P := fun u => u.Sound ∧ sim.now ≤ u.now)
      (fun ⟨hu, hle⟩ hstep =>
        ⟨(executes_of_exec hu hstep).sound hu, hle.trans (exec_now (executes_of_exec hu hstep))⟩)
      ⟨hs, le_rfl⟩).2
  · exact (run_advances h).1 i _ _ hi hi' ⟨start, stop, rfl⟩ ⟨start', stop', rfl⟩

/-- A duty that waits for moment 9 while an event is due at moment 5. -/
def waitingWorld : Simulation (Playback Unit Unit Empty) Fifo NoopMonitor Unit :=
  (Playback.world [.done (.ok ⟨0, .wakeOr 9⟩)] ⟨⟩ ⟨⟩).after [.injectAfter 1 5 (), .step]

theorem virtual_time_waiting : waitingWorld.now = 0 ∧ ∃ sim',
    StepTime waitingWorld
      (.ok (.timeAdvanced 0 5) : StepReturn Unit Empty Empty Empty) sim' ∧ sim'.now = 5 := by
  have hrun := Playback.recorded_world
    ([.done (.ok ⟨0, .wakeOr 9⟩)] : List (Program Unit Unit (Returned Turn Empty)))
    Fifo.mk NoopMonitor.mk [.injectAfter 1 5 (), .step]
  obtain ⟨sim', hstep⟩ : ∃ sim', waitingWorld.step = .ok (sim', .ok (.timeAdvanced 0 5)) :=
    ⟨_, rfl⟩
  have htime := (virtual_time hrun.ofRecording).1 sim' _ hstep (by decide +kernel) (by decide +kernel)
  exact ⟨by decide +kernel, sim', htime, (htime.advance 0 5 rfl).2.2.2.1⟩

end Simulation

end Calandria
