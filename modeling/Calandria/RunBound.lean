/-
Runs end.

`run_to_quiescence` steps a simulation until it completes, is quiescent or fails.
It has no counter of its own: an advance of time makes something ready, so the
step after it attempts an action or fails, and the attempts are limited.

* `Simulation.runToQuiescence`, `runToCompletion` — the loops, given how many
  steps they may take;
* `Transition.counted` — what a step does to the counters of attempts;
* `runToQuiescence_returns` — two steps for each attempt that is left, and two;
* `run_bound` — the bound, the counters along any run, and how a run can end.
-/
import Calandria.Ledger
import Calandria.ReadySets
import Calandria.VirtualTime

namespace Calandria

/-- Normal reason a run loop returned. -/
inductive RunEnd
  | completed
  | quiescent
  deriving DecidableEq

/-- Final bounded state from a successful run loop. -/
structure RunReport where
  ending : RunEnd
  snapshot : SimulationSnapshot

/-- Failure from a run loop that expected clean completion. -/
inductive RunError (ε : Type)
  | step (error : ε)
  | deadlock (snapshot : SimulationSnapshot)

/-- What the owner sees of one run. -/
inductive RunReturn (ε : Type)
  | ok (report : RunReport)
  | err (error : ε)
  | unwound (boundary : Boundary)

namespace Simulation

variable {M S N E O ME SE NE : Type} [Retained E] [Retained O] [Model M E O ME]
  [Scheduler S SE] [Monitor N M O NE]

/-- Runs until clean completion or intentional quiescence, calling `step` no more
than `rounds` times; there is no result if the loop has not returned by then. -/
def runToQuiescence : ℕ → Simulation M S N E →
    Except Panic (Simulation M S N E × Option (RunReturn (StepError ME NE SE)))
  | 0, sim => .ok (sim, none)
  | rounds + 1, sim => do
    match ← (sim.step : Except Panic (_ × StepReturn O ME NE SE)) with
    | (sim, .ok (.action _)) | (sim, .ok (.timeAdvanced _ _)) => runToQuiescence rounds sim
    | (sim, .ok (.quiescent snapshot)) => .ok (sim, some (.ok ⟨.quiescent, snapshot⟩))
    | (sim, .ok (.completed snapshot)) => .ok (sim, some (.ok ⟨.completed, snapshot⟩))
    | (sim, .err error) => .ok (sim, some (.err error))
    | (sim, .unwound boundary) => .ok (sim, some (.unwound boundary))

/-- What `run_to_completion` makes of the result of the loop. -/
def completion {ε : Type} : RunReturn ε → RunReturn (RunError ε)
  | .ok report =>
    if report.ending = .completed then .ok report else .err (.deadlock report.snapshot)
  | .err error => .err (.step error)
  | .unwound boundary => .unwound boundary

/-- Runs until every duty stops, treating quiescence as deadlock. -/
def runToCompletion (rounds : ℕ) (sim : Simulation M S N E) :
    Except Panic (Simulation M S N E × Option (RunReturn (RunError (StepError ME NE SE)))) := do
  let (sim, result) ← sim.runToQuiescence rounds
  .ok (sim, result.map completion)

/-! ### The counters -/

/-- A step that attempts an action counts it; another keeps the counters, unless it
advances time, which begins a new moment. -/
inductive Counted (sim sim' : Simulation M S N E) : Prop
  | attempted : sim.attempt.isSome = true → sim.WithinLimits →
      sim'.actions.val = sim.actions.val + 1 →
      sim'.actionsAtMoment.val = sim.actionsAtMoment.val + 1 → sim'.now = sim.now → Counted sim sim'
  | kept : sim.attempt = none → sim'.actions = sim.actions →
      sim'.actionsAtMoment = sim.actionsAtMoment → sim'.now = sim.now → Counted sim sim'
  | advanced : sim.attempt = none → sim'.actions = sim.actions → sim'.actionsAtMoment = 0 →
      sim.now < sim'.now → Counted sim sim'

omit [Retained E] [Retained O] [Monitor N M O NE] in
theorem Begins.counted {sim started : Simulation M S N E} {callback : Callback M E O ME}
    (h : sim.Begins started callback) :
    sim.WithinLimits ∧ started.actions.val = sim.actions.val + 1 ∧
      started.actionsAtMoment.val = sim.actionsAtMoment.val + 1 := by
  obtain ⟨key, selected, hsel, hstarts⟩ := h
  cases hstarts <;> exact ⟨hsel.within, hsel.actions, hsel.actionsAtMoment⟩

omit [Retained E] [Retained O] [Model M E O ME] [Scheduler S SE] [Monitor N M O NE] in
theorem halt_counters (sim : Simulation M S N E) (r : StepReturn O ME NE SE) :
    (sim.halt r).actions = sim.actions ∧ (sim.halt r).actionsAtMoment = sim.actionsAtMoment ∧
      (sim.halt r).now = sim.now := by
  cases r <;> exact ⟨rfl, rfl, rfl⟩

theorem Transition.counted {sim sim' : Simulation M S N E} {r : StepReturn O ME NE SE}
    (h : sim.Transition r sim') (hs : sim.Sound) : sim.Counted sim' := by
  have hnow : (∃ start stop, r = .ok (.timeAdvanced start stop)) ∨ sim'.now = sim.now := h.now
  rcases h.attempted hs with ⟨hnone, -⟩ |
      ⟨started, callback, ctx, log, model, result, timeline, hattempt, -, ha, -, rfl⟩ |
      ⟨started, callback, ctx, log, model, turn, updated, hattempt, -, hc, hf⟩
  -- without an attempt only an advance of time touches the counters
  · cases h with
    | poisoned | inactive | limited | completed | quiescent | timeLimited =>
      exact .kept hnone rfl rfl rfl
    | refused | finishRefused =>
      obtain ⟨hactions, hmoment, hnow⟩ := halt_counters { sim.built with scheduler := _ } r
      exact .kept hnone hactions hmoment hnow
    | rolledBack hlive hb | committed hlive hb =>
      rw [(attempt_iff hs).mpr ⟨hlive, hb⟩] at hnone
      cases hnone
    | advanced _ _ _ _ _ hlt => exact .advanced hnone rfl rfl hlt
  · obtain ⟨hw, hactions, hmoment⟩ := ((attempt_iff hs).mp hattempt).2.counted
    obtain ⟨hactions', hmoment', -⟩ := halt_counters { started with model, timeline } r
    refine .attempted (by rw [hattempt]; rfl) hw (by rw [hactions', ← hactions])
      (by rw [hmoment', ← hmoment]) ?_
    rcases hnow with ⟨_, _, rfl⟩ | heq
    · cases ha
    · exact heq
  · obtain ⟨hw, hactions, hmoment⟩ := ((attempt_iff hs).mp hattempt).2.counted
    refine .attempted (by rw [hattempt]; rfl) hw (by rw [hf.frame, hc.frame, ← hactions])
      (by rw [hf.frame, hc.frame, ← hmoment]) ?_
    rcases hnow with ⟨_, _, rfl⟩ | heq
    · cases hf
    · exact heq

/-! ### The bound -/

/-- How many steps a run may still take. -/
def roundsLeft (sim : Simulation M S N E) : ℕ :=
  2 * (sim.limits.totalActions.get.val - sim.actions.val) + if sim.enabled = [] then 2 else 1

/-- A step after which the loop goes on uses up one of them. -/
theorem Transition.roundsLeft {sim sim' : Simulation M S N E} {step : Step O}
    (h : sim.Transition (.ok step : StepReturn O ME NE SE) sim') (hs : sim.Sound)
    (hgoes : (∃ record, step = .action record) ∨ ∃ start stop, step = .timeAdvanced start stop) :
    sim'.roundsLeft < sim.roundsLeft := by
  have hlimits := h.constants.limits
  have hcounted := h.counted hs
  rw [Simulation.roundsLeft, Simulation.roundsLeft, hlimits]
  rcases hgoes with ⟨record, rfl⟩ | ⟨start, stop, rfl⟩
  -- an action takes one off the budget, which is worth two rounds
  · obtain ⟨hlive, started, callback, _, _, _, _, hb, -⟩ := h.action
    have hne := hb.ready
    rw [if_neg hne]
    cases hcounted with
    | attempted _ hw hactions =>
      have hlt := Fin.lt_def.mp hw.total
      split_ifs <;> omega
    | kept hnone | advanced hnone =>
      rw [(attempt_iff hs).mpr ⟨hlive, hb⟩] at hnone
      cases hnone
  -- an advance takes the round that an empty ready set is worth
  · obtain ⟨_, hempty, rfl, _, hlt, _, hsim'⟩ := h.advances
    rw [if_pos hempty, if_neg h.advances_enabled]
    have hactions : sim'.actions = sim.actions := by
      rw [hsim']
      rfl
    rw [hactions]
    omega

/-- Within that many rounds the loop returns. -/
theorem runToQuiescence_returns {sim : Simulation M S N E} (hs : sim.Sound) {rounds : ℕ}
    (hrounds : sim.roundsLeft ≤ rounds) :
    ∃ sim' result, (sim.runToQuiescence rounds : Except Panic
      (_ × Option (RunReturn (StepError ME NE SE)))) = .ok (sim', some result) := by
  -- on the rounds, which `roundsLeft` keeps ahead of
  induction rounds generalizing sim with
  | zero =>
    have hpos : 0 < sim.roundsLeft := by
      rw [Simulation.roundsLeft]
      split_ifs <;> omega
    omega
  | succ rounds ih =>
    have hsteps : ∃ sim', ∃ r : StepReturn O ME NE SE, sim.step = .ok (sim', r)
      ∧ sim.Transition r sim' := step_cases hs
    obtain ⟨sim', r, hstep, ht⟩ := hsteps
    rw [runToQuiescence, hstep]
    cases r with
    | err error => exact ⟨sim', _, rfl⟩
    | unwound boundary => exact ⟨sim', _, rfl⟩
    | ok step =>
      cases step with
      | quiescent snapshot | completed snapshot => exact ⟨sim', _, rfl⟩
      | action record =>
        have hless := ht.roundsLeft hs (.inl ⟨record, rfl⟩)
        exact ih (ht.sound hs) (by omega)
      | timeAdvanced start stop =>
        have hless := ht.roundsLeft hs (.inr ⟨start, stop, rfl⟩)
        exact ih (ht.sound hs) (by omega)

/-- Once the loop has returned, more rounds change nothing. -/
theorem runToQuiescence_more {sim sim' : Simulation M S N E} {rounds : ℕ}
    {result : RunReturn (StepError ME NE SE)} (h : sim.runToQuiescence rounds = .ok (sim', some result))
    (more : ℕ) : sim.runToQuiescence (rounds + more) = .ok (sim', some result) := by
  induction rounds generalizing sim with
  | zero => cases h
  | succ rounds ih =>
    rw [Nat.succ_add]
    rw [runToQuiescence] at h ⊢
    cases hstep : (sim.step : Except Panic (_ × StepReturn O ME NE SE)) with
    | error panic =>
      rw [hstep] at h
      cases h
    | ok stepped =>
      rw [hstep] at h
      obtain ⟨sim₁, r⟩ := stepped
      cases r with
      | err error => exact h
      | unwound boundary => exact h
      | ok step =>
        cases step with
        | quiescent snapshot | completed snapshot => exact h
        | action record => exact ih h
        | timeAdvanced start stop => exact ih h

/-- The loop unwinds only if a hook does, in its last step. -/
theorem runToQuiescence_unwound {sim sim' : Simulation M S N E} {rounds : ℕ} {boundary : Boundary}
    (h : (sim.runToQuiescence rounds : Except Panic (_ × Option (RunReturn (StepError ME NE SE))))
      = .ok (sim', some (.unwound boundary))) :
    ∃ last : Simulation M S N E,
      (last.step : Except Panic (_ × StepReturn O ME NE SE)) = .ok (sim', .unwound boundary) := by
  induction rounds generalizing sim with
  | zero => cases h
  | succ rounds ih =>
    rw [runToQuiescence] at h
    cases hstep : (sim.step : Except Panic (_ × StepReturn O ME NE SE)) with
    | error panic =>
      rw [hstep] at h
      cases h
    | ok stepped =>
      rw [hstep] at h
      obtain ⟨sim₁, r⟩ := stepped
      cases r with
      | err error => cases h
      | unwound boundary' =>
        cases h
        exact ⟨sim, hstep⟩
      | ok step =>
        cases step with
        | quiescent snapshot | completed snapshot => cases h
        | action record => exact ih h
        | timeAdvanced start stop => exact ih h

/-! ### Attempts along a run -/

/-- The call attempts an action. -/
def attempts (l : Recorded M S N E O ME SE NE) : Bool :=
  match l.2.1 with
  | .step => l.1.attempt.isSome
  | .inject .. | .injectAfter .. | .injectAt .. => false

/-- The call attempts an action at this moment. -/
def attemptsAt (moment : Moment) (l : Recorded M S N E O ME SE NE) : Bool :=
  attempts l && l.1.now = moment

/-- The counters count the attempts of a run: all of them, and those since time
last advanced. -/
structure Counts (tr : List (Recorded M S N E O ME SE NE)) (sim : Simulation M S N E) : Prop where
  sound : sim.Sound
  total : tr.countP attempts = sim.actions.val
  now : tr.countP (attemptsAt sim.now) = sim.actionsAtMoment.val
  past : ∀ moment, tr.countP (attemptsAt moment) ≤ sim.limits.actionsPerMoment.get.val
  future : ∀ moment, sim.now < moment → tr.countP (attemptsAt moment) = 0

omit [Retained E] [Retained O] [Monitor N M O NE] in
theorem attemptsAt_of_not {l : Recorded M S N E O ME SE NE} (h : attempts l = false)
    (moment : Moment) : attemptsAt moment l = false := by
  rw [attemptsAt, h, Bool.false_and]

omit [Retained O] [Monitor N M O NE] in
/-- A call that attempts nothing, at the same moment or later with a fresh count. -/
theorem Counts.idle {tr : List (Recorded M S N E O ME SE NE)} {sim sim' : Simulation M S N E}
    (h : Counts tr sim) (hs : sim'.Sound) {l : Recorded M S N E O ME SE NE}
    (hnot : attempts l = false) (hlimits : sim'.limits = sim.limits)
    (hactions : sim'.actions = sim.actions)
    (htime : (sim'.now = sim.now ∧ sim'.actionsAtMoment = sim.actionsAtMoment) ∨
      (sim.now < sim'.now ∧ sim'.actionsAtMoment = 0)) : Counts (tr ++ [l]) sim' := by
  have hcount : ∀ moment, (tr ++ [l]).countP (attemptsAt moment) = tr.countP (attemptsAt moment) :=
    fun moment => by simp [List.countP_append, attemptsAt_of_not hnot]
  refine ⟨hs, ?_, ?_, fun moment => ?_, fun moment hlt => ?_⟩
  · rw [List.countP_append, h.total, hactions]
    simp [hnot]
  · rw [hcount]
    rcases htime with ⟨hnow, hmoment⟩ | ⟨hlt, hmoment⟩
    · rw [hnow, hmoment]
      exact h.now
    · rw [hmoment, h.future _ hlt]
      rfl
  · rw [hcount, hlimits]
    exact h.past moment
  · rw [hcount]
    rcases htime with ⟨hnow, -⟩ | ⟨hlt', -⟩
    · exact h.future moment (hnow ▸ hlt)
    · exact h.future moment (hlt'.trans hlt)

omit [Retained O] [Monitor N M O NE] in
/-- A call that attempts an action within the limits. -/
theorem Counts.attempt {tr : List (Recorded M S N E O ME SE NE)} {sim sim' : Simulation M S N E}
    (h : Counts tr sim) (hs : sim'.Sound) {reply : Reply E O ME NE SE}
    (hattempt : sim.attempt.isSome = true) (hw : sim.WithinLimits)
    (hlimits : sim'.limits = sim.limits) (hactions : sim'.actions.val = sim.actions.val + 1)
    (hmoment : sim'.actionsAtMoment.val = sim.actionsAtMoment.val + 1) (hnow : sim'.now = sim.now) :
    Counts (tr ++ [(sim, .step, reply)]) sim' := by
  have hcount : ∀ moment, (tr ++ [(sim, Call.step, reply)]).countP (attemptsAt moment)
      = tr.countP (attemptsAt moment) + if sim.now = moment then 1 else 0 := by
    intro moment
    simp [List.countP_append, List.countP_singleton, attemptsAt, attempts, hattempt]
  refine ⟨hs, ?_, ?_, fun moment => ?_, fun moment hlt => ?_⟩
  · rw [List.countP_append, h.total, hactions]
    simp [attempts, hattempt]
  · rw [hcount, hnow, if_pos rfl, h.now, hmoment]
  · rw [hcount, hlimits]
    split_ifs with heq
    · rw [← heq, h.now]
      exact Fin.lt_def.mp hw.atMoment
    · exact h.past moment
  · rw [hnow] at hlt
    rw [hcount, if_neg hlt.ne, h.future moment hlt]

theorem Counts.next {tr : List (Recorded M S N E O ME SE NE)} {sim sim' : Simulation M S N E}
    {call : Call E} {reply : Reply E O ME NE SE} (h : Counts tr sim)
    (hexec : sim.exec call = .ok (sim', reply)) : Counts (tr ++ [(sim, call, reply)]) sim' := by
  have he := executes_of_exec h.sound hexec
  have hs := he.sound h.sound
  have hlimits := he.constants.limits
  cases he with
  | stepped ht =>
    cases ht.counted h.sound with
    | attempted hattempt hw hactions hmoment hnow =>
      exact h.attempt hs hattempt hw hlimits hactions hmoment hnow
    | kept hnone hactions hmoment hnow =>
      exact h.idle hs (by rw [attempts, hnone]; rfl) hlimits hactions (.inl ⟨hnow, hmoment⟩)
    | advanced hnone hactions hmoment hlt =>
      exact h.idle hs (by rw [attempts, hnone]; rfl) hlimits hactions (.inr ⟨hlt, hmoment⟩)
  | @injected _ _ _ result _ hcall hi =>
    have hnot : attempts (sim, call, (.injected result : Reply E O ME NE SE)) = false := by
      cases call with
      | step => cases hcall
      | inject | injectAfter | injectAt => rfl
    cases hi with
    | rejected => exact h.idle hs hnot rfl rfl (.inl ⟨rfl, rfl⟩)
    | admitted _ _ _ _ _ hadmits =>
      exact h.idle hs hnot rfl rfl (.inl ⟨congrArg VirtualClock.now hadmits.frame.clock, rfl⟩)

theorem run_counts {tr : List (Recorded M S N E O ME SE NE)} {sim : Simulation M S N E}
    (h : (system M S N E O ME SE NE).recording.Run tr sim) : Counts tr sim := by
  refine h.invariant (I := fun tr sim => Counts tr sim) (fun hinit => ?_) ?_
  · obtain ⟨_, _, _, _, _, _, _, hbuild⟩ := hinit
    have hs := withParts_sound hbuild
    obtain rfl := withParts_eq hbuild
    exact ⟨hs, rfl, rfl, fun _ => Nat.zero_le _, fun _ _ => rfl⟩
  · rintro tr sim ⟨_, call, reply⟩ sim' - hcounts ⟨rfl, hexec⟩
    exact hcounts.next hexec

/-! ### How a run ends -/

theorem completion_ok {ε : Type} {result : RunReturn ε} {report : RunReport} :
    completion result = .ok report ↔ result = .ok report ∧ report.ending = .completed := by
  cases result with
  | err | unwound => simp [completion]
  | ok report' =>
    rw [completion]
    split_ifs with hending
    · simp only [RunReturn.ok.injEq]
      exact ⟨fun heq => ⟨heq, heq ▸ hending⟩, fun h => h.1⟩
    · simp only [RunReturn.ok.injEq, false_iff, not_and]
      exact fun heq => heq ▸ hending

theorem completion_deadlock {ε : Type} {result : RunReturn ε} {snapshot : SimulationSnapshot} :
    completion result = .err (.deadlock snapshot) ↔ result = .ok ⟨.quiescent, snapshot⟩ := by
  cases result with
  | err | unwound => simp [completion]
  | ok report =>
    obtain ⟨ending, snapshot'⟩ := report
    cases ending <;> simp [completion]

/-- With something ready a step attempts an action or fails. -/
theorem Transition.attempts_or_fails {sim sim' : Simulation M S N E} {r : StepReturn O ME NE SE}
    (h : sim.Transition r sim') (hs : sim.Sound) (hne : sim.enabled ≠ []) :
    sim.attempt.isSome = true ∨ (∃ error, r = .err error) ∨ ∃ boundary, r = .unwound boundary := by
  cases h with
  | poisoned | inactive | limited => exact .inr (.inl ⟨_, rfl⟩)
  | refused _ _ _ _ href =>
    cases href with
    | unwound => exact .inr (.inr ⟨_, rfl⟩)
    | failed | invalid => exact .inr (.inl ⟨_, rfl⟩)
  | rolledBack hlive hb | committed hlive hb =>
    rw [(attempt_iff hs).mpr ⟨hlive, hb⟩]
    exact .inl rfl
  | completed _ hempty | finishRefused _ hempty | quiescent _ hempty | timeLimited _ hempty
  | advanced _ hempty => exact absurd hempty hne

/-- **Runs end.**  In every reachable simulation the loop returns within two steps for
each action that is left to attempt, and three; more rounds change nothing, and it
unwinds only if a hook panics.  A run to completion succeeds exactly if the loop ended
completed, and is a deadlock exactly if it ended quiescent.  The attempts so far are
within both limits, and the step after an advance of time attempts an action or fails. -/
theorem run_bound {tr : List (Recorded M S N E O ME SE NE)} {sim : Simulation M S N E}
    (h : (system M S N E O ME SE NE).recording.Run tr sim) :
    (∃ sim' result ending, ∀ more,
      (sim.runToQuiescence (2 * (sim.limits.totalActions.get.val - sim.actions.val) + 3 + more) :
        Except Panic (_ × Option (RunReturn (StepError ME NE SE)))) = .ok (sim', some result) ∧
      sim.runToCompletion (2 * (sim.limits.totalActions.get.val - sim.actions.val) + 3 + more)
        = .ok (sim', some ending) ∧
      (∀ report, ending = .ok report ↔ result = .ok report ∧ report.ending = .completed) ∧
      (∀ snapshot, ending = .err (.deadlock snapshot) ↔ result = .ok ⟨.quiescent, snapshot⟩) ∧
      ∀ boundary, result = .unwound boundary → ∃ last : Simulation M S N E,
        (last.step : Except Panic (_ × StepReturn O ME NE SE)) = .ok (sim', .unwound boundary)) ∧
    tr.countP attempts = sim.actions.val ∧
    sim.actions ≤ sim.limits.totalActions.get ∧
    (∀ moment, tr.countP (attemptsAt moment) ≤ sim.limits.actionsPerMoment.get.val) ∧
    ∀ sim₁ start stop, sim.exec .step
        = .ok (sim₁, (.stepped (.ok (.timeAdvanced start stop)) : Reply E O ME NE SE)) →
      ∃ sim₂, ∃ r : StepReturn O ME NE SE, sim₁.exec .step = .ok (sim₂, .stepped r) ∧
        (sim₁.attempt.isSome = true ∨ (∃ error, r = .err error) ∨
          ∃ boundary, r = .unwound boundary) := by
  have hcounts := run_counts h
  have hs := hcounts.sound
  refine ⟨?_, hcounts.total, hs.total, hcounts.past, fun sim₁ start stop hexec => ?_⟩
  -- the bound of the statement is `roundsLeft` at its largest
  · have hleft : sim.roundsLeft
        ≤ 2 * (sim.limits.totalActions.get.val - sim.actions.val) + 3 := by
      rw [roundsLeft]
      split_ifs <;> omega
    have hreturns : ∃ sim' result, (sim.runToQuiescence _ : Except Panic
      (_ × Option (RunReturn (StepError ME NE SE)))) = .ok (sim', some result) :=
      runToQuiescence_returns hs hleft
    obtain ⟨sim', result, hrun⟩ := hreturns
    refine ⟨sim', result, completion result, fun more => ?_⟩
    have hmore := runToQuiescence_more hrun more
    refine ⟨hmore, ?_, fun report => completion_ok, fun snapshot => completion_deadlock, ?_⟩
    · rw [runToCompletion, hmore]
      rfl
    · rintro boundary rfl
      exact runToQuiescence_unwound hmore
  · cases executes_of_exec hs hexec with
    | stepped ht =>
      have hs₁ := ht.sound hs
      have hsteps : ∃ sim₂, ∃ r : StepReturn O ME NE SE, sim₁.step = .ok (sim₂, r)
        ∧ sim₁.Transition r sim₂ := step_cases hs₁
      obtain ⟨sim₂, r, hstep, ht₂⟩ := hsteps
      refine ⟨sim₂, r, ?_, ht₂.attempts_or_fails hs₁ ht.advances_enabled⟩
      rw [exec, hstep]
      rfl

/-- A duty that waits once and then stops: the run completes. -/
theorem run_bound_completed :
    ∃ sim' report, (waitingWorld.runToCompletion 2000001 : Except Panic
      (_ × Option (RunReturn (RunError (StepError Empty Empty Empty)))))
        = .ok (sim', some (.ok report)) ∧ report.ending = .completed := by
  have hrun := Playback.recorded_world
    ([.done (.ok ⟨0, .wakeOr 9⟩)] : List (Program Unit Unit (Returned Turn Empty))) Fifo.mk
    NoopMonitor.mk [.injectAfter 1 5 (), .step]
  obtain ⟨sim', result, ending, hends⟩ := (run_bound hrun).1
  obtain ⟨hloop, hcompletion, hok, -, -⟩ := hends 0
  -- an advance, the delivery and the completing step
  have hthree : ∃ sim₃ snapshot, (waitingWorld.runToQuiescence 3 : Except Panic
      (_ × Option (RunReturn (StepError Empty Empty Empty))))
        = .ok (sim₃, some (.ok ⟨.completed, snapshot⟩)) := ⟨_, _, rfl⟩
  obtain ⟨sim₃, snapshot, hthree⟩ := hthree
  have hmore := runToQuiescence_more hthree 1999998
  obtain ⟨-, hresult⟩ := Prod.mk.inj (Except.ok.inj (hmore.symm.trans hloop))
  have hending := (hok ⟨.completed, snapshot⟩).mpr ⟨(Option.some_inj.mp hresult).symm, rfl⟩
  rw [hending] at hcompletion
  exact ⟨sim', _, hcompletion, rfl⟩

end Simulation

end Calandria
