/-
What a run leaves when it is over.

A run loop returns once a step is quiescent or completes.  Either way nothing is
left to be done: the events that were admitted since the simulation was built have
all been delivered or cancelled, and every duty has stopped or waits to be woken.

* `runToQuiescence_steps` — the loop is a run of steps;
* `Rest` — what it means that a simulation rests;
* `run_rest` — a run that returns normally leaves a simulation at rest, and the
  books of the whole run are closed.
-/
import Calandria.Finality
import Calandria.RunBound

namespace Calandria

/-- The step with which a run loop returns its report. -/
def RunReport.step {O : Type} (report : RunReport) : Step O :=
  match report.ending with
  | .completed => .completed report.snapshot
  | .quiescent => .quiescent report.snapshot

namespace Simulation

variable {M S N E O ME SE NE : Type} [Retained E] [Retained O] [Model M E O ME]
  [Scheduler S SE] [Monitor N M O NE]

/-- A run loop that returns a report takes steps, the last of which is the report's. -/
theorem runToQuiescence_steps {sim sim' : Simulation M S N E} {rounds : ℕ} {report : RunReport}
    (h : (sim.runToQuiescence rounds : Except Panic
      (_ × Option (RunReturn (StepError ME NE SE)))) = .ok (sim', some (.ok report))) :
    ∃ tr last, (∀ l ∈ tr, l.2.1 = .step) ∧
      Steps (system M S N E O ME SE NE).recording.step sim tr last ∧
      last.exec .step = .ok (sim', (.stepped (.ok report.step) : Reply E O ME NE SE)) := by
  induction rounds generalizing sim with
  | zero => cases h
  | succ rounds ih =>
    rw [runToQuiescence] at h
    cases hstep : (sim.step : Except Panic (_ × StepReturn O ME NE SE)) with
    | error panic =>
      rw [hstep] at h
      cases h
    | ok stepped =>
      rw [hstep] at h
      obtain ⟨sim₁, r⟩ := stepped
      have hexec : sim.exec .step = .ok (sim₁, (.stepped r : Reply E O ME NE SE)) := by
        rw [exec, hstep]
        rfl
      -- a step after which the loop goes on stands before the rest of the run
      have hmore : sim₁.runToQuiescence rounds = .ok (sim', some (.ok report)) →
          ∃ tr last, (∀ l ∈ tr, l.2.1 = .step) ∧
            Steps (system M S N E O ME SE NE).recording.step sim tr last ∧
            last.exec .step = .ok (sim', (.stepped (.ok report.step) : Reply E O ME NE SE)) := by
        intro hrest
        obtain ⟨tr, last, hall, hrun, hlast⟩ := ih hrest
        refine ⟨(sim, .step, .stepped r) :: tr, last, List.forall_mem_cons.mpr ⟨rfl, hall⟩, ?_,
          hlast⟩
        exact (Steps.single (l := (sim, .step, .stepped r)) ⟨rfl, hexec⟩).trans hrun
      cases r with
      | err | unwound => cases h
      | ok step =>
        cases step with
        | quiescent snapshot | completed snapshot =>
          cases h
          exact ⟨[], sim, by simp, .refl, hexec⟩
        | action record => exact hmore h
        | timeAdvanced start stop => exact hmore h

/-- A simulation at rest: nothing is pending, and every duty has stopped or waits to be woken. -/
structure Rest (sim : Simulation M S N E) : Prop where
  pending : sim.timeline.pending = []
  waits : ∀ duty ∈ sim.topology.duties, ∃ state, sim.states.get? duty = some state ∧
    (state.next = .stop ∨ state.next = .wake)

omit [Retained O] [Model M E O ME] [Scheduler S SE] [Monitor N M O NE] in
/-- With nothing ready and nothing upcoming a simulation is at rest. -/
theorem Sound.rest {sim : Simulation M S N E} (hs : sim.Sound) (hempty : sim.enabled = [])
    (hnone : ∀ moment, ¬ sim.Upcoming moment) : sim.Rest := by
  refine ⟨List.eq_nil_iff_forall_not_mem.mpr ?_, fun duty hduty => ?_⟩
  · rintro ⟨token, routed⟩ hmem
    obtain ⟨entry, hentry, -⟩ := Timeline.mem_pending.mp hmem
    exact hnone token.moment (.inl ⟨token, entry, hentry, rfl⟩)
  · obtain ⟨state, hstate⟩ := hs.keys.mpr hduty
    refine ⟨state, hstate, ?_⟩
    have hidle := (enabled_eq_nil.mp hempty).2 duty state hstate
    cases hnext : state.next with
    | now => simp [runnable, hnext] at hidle
    | wake => exact .inr rfl
    | wakeOr deadline =>
      exact absurd (.inr (mem_deadlines.mpr ⟨duty, state, hstate, hnext⟩)) (hnone deadline)
    | stop => exact .inl rfl

omit [Retained O] [Model M E O ME] [Scheduler S SE] [Monitor N M O NE] in
/-- So it is once every duty has stopped. -/
theorem Sound.rest_of_allStopped {sim : Simulation M S N E} (hs : sim.Sound)
    (hall : sim.AllStopped) : sim.Rest := by
  refine ⟨pending_eq_nil hs hall, fun duty hduty => ?_⟩
  obtain ⟨state, hstate, hstop⟩ := hs.stopped.mp (hall duty hduty)
  exact ⟨state, hstate, .inl hstop⟩

omit [Monitor N M O NE] in
/-- With nothing pending, the books are closed. -/
theorem Ledger.closed {sim : Simulation M S N E} {tr : List (Recorded M S N E O ME SE NE)}
    (h : Ledger tr sim) (hnil : sim.timeline.pending = []) : ((allAdmitted tr).map Prod.fst).Perm
      ((allHandled tr).map Handling.token ++ allCancelled tr) := by
  have hbalance := h.balance
  rw [tokens, hnil, List.map_nil, Multiset.coe_nil, zero_add, Multiset.coe_add] at hbalance
  exact Multiset.coe_eq_coe.mp hbalance

theorem transition_of_exec {sim sim' : Simulation M S N E} {r : StepReturn O ME NE SE}
    (hs : sim.Sound) (h : sim.exec .step = .ok (sim', (.stepped r : Reply E O ME NE SE))) :
    sim.Transition r sim' := by
  cases executes_of_exec hs h with
  | stepped ht => exact ht

/-- **A run that returns leaves nothing undone.**  From every reachable simulation, when the run
loop returns a report, the simulation rests and the report holds its snapshot; every event
admitted in the whole run was delivered or cancelled, once.  The loop completed exactly if
every duty stopped, and then the simulation is over; otherwise another step finds it as it is. -/
theorem run_rest {sim sim' : Simulation M S N E} {tr : List (Recorded M S N E O ME SE NE)}
    (h : (system M S N E O ME SE NE).recording.Run tr sim) {rounds : ℕ} {report : RunReport}
    (hrun : (sim.runToQuiescence rounds : Except Panic
      (_ × Option (RunReturn (StepError ME NE SE)))) = .ok (sim', some (.ok report))) :
    sim'.Rest ∧ report.snapshot = sim'.snapshot ∧
    (∃ tr' : List (Recorded M S N E O ME SE NE), (∀ l ∈ tr', l.2.1 = .step) ∧
      (system M S N E O ME SE NE).recording.Run (tr ++ tr') sim' ∧
      ((allAdmitted (tr ++ tr')).map Prod.fst).Nodup ∧
      ((allAdmitted (tr ++ tr')).map Prod.fst).Perm
        ((allHandled (tr ++ tr')).map Handling.token ++ allCancelled (tr ++ tr'))) ∧
    (report.ending = .completed ↔ sim'.AllStopped) ∧
    (report.ending = .completed → sim'.phase = .completed ∧
      @Final M S N E O ME SE NE _ _ _ _ _ sim') ∧
    (report.ending = .quiescent → sim'.Live ∧ sim'.exec .step
      = .ok (sim', (.stepped (.ok (.quiescent report.snapshot)) : Reply E O ME NE SE))) := by
  obtain ⟨tr', last, hsteps, hpath, hlast⟩ := runToQuiescence_steps hrun
  have hwhole : (system M S N E O ME SE NE).recording.Run (tr ++ tr') last := by
    obtain ⟨start, hinit, hstart⟩ := h
    exact ⟨start, hinit, hstart.trans hpath⟩
  have hs := reachable_sound hwhole.ofRecording.reachable
  have hend : (system M S N E O ME SE NE).recording.Run
      (tr ++ (tr' ++ [(last, .step, .stepped (.ok report.step))])) sim' := by
    rw [← List.append_assoc]
    exact hwhole.next (l := (last, Call.step, Reply.stepped (.ok report.step))) ⟨rfl, hlast⟩
  have hall : ∀ l ∈ tr' ++ [(last, Call.step, (.stepped (.ok report.step) : Reply E O ME NE SE))],
      l.2.1 = .step := by
    intro l hl
    rcases List.mem_append.mp hl with hl | hl
    · exact hsteps l hl
    · rw [List.mem_singleton.mp hl]
  have hledger := run_ledger hend
  have hs' : sim'.Sound := (executes_of_exec hs hlast).sound hs
  obtain ⟨ending, snapshot⟩ := report
  cases ending with
  | completed =>
    obtain ⟨hstopped, -, -, hsnapshot, hsim'⟩ := (transition_of_exec hs hlast).completes
    have hall' : sim'.AllStopped := by
      rw [hsim']
      exact hstopped
    have hphase : sim'.phase = .completed := by rw [hsim']
    have hrest := hs'.rest_of_allStopped hall'
    refine ⟨hrest, hsnapshot, ⟨_, hall, hend, hledger.nodup, hledger.closed hrest.pending⟩,
      iff_of_true rfl hall', fun _ => ⟨hphase, final_of_not_live fun hlive => ?_⟩,
      fun hq => by cases hq⟩
    rw [hlive.active] at hphase
    cases hphase
  | quiescent =>
    have ht := transition_of_exec hs hlast
    obtain ⟨hempty, hstopped, hnone, hsim'⟩ := ht.quiesces
    have hlive := ht.live
    have hsnapshot : snapshot = last.snapshot := by
      cases ht.quiescent_of hlive hempty hstopped hnone
      rfl
    subst hsim'
    have hlive' : last.built.Live := ⟨hlive.unpoisoned, hlive.active⟩
    have hrest := hs'.rest hempty hnone
    refine ⟨hrest, hsnapshot, ⟨_, hall, hend, hledger.nodup, hledger.closed hrest.pending⟩,
      iff_of_false (fun hq => by cases hq) hstopped, fun hc => (by cases hc), fun _ => ⟨hlive', ?_⟩⟩
    -- the next step sees what the last one saw
    obtain ⟨next, r, hnext, htnext⟩ : ∃ next, ∃ r : StepReturn O ME NE SE,
        last.built.step = .ok (next, r) ∧ last.built.Transition r next := step_cases hs'
    obtain rfl := htnext.quiescent_of hlive' hempty hstopped hnone
    obtain ⟨-, -, -, rfl⟩ := htnext.quiesces
    rw [exec, hnext, hsnapshot]
    rfl

/-- A duty that waits for moment 9 is woken at moment 5, and stops. -/
theorem run_rest_completed :
    ∃ sim' report, (waitingWorld.runToQuiescence 3 : Except Panic
      (_ × Option (RunReturn (StepError Empty Empty Empty)))) = .ok (sim', some (.ok report)) ∧
      sim'.Rest ∧ sim'.AllStopped := by
  have h := Playback.recorded_world
    ([.done (.ok ⟨0, .wakeOr 9⟩)] : List (Program Unit Unit (Returned Turn Empty))) Fifo.mk
    NoopMonitor.mk [.injectAfter 1 5 (), .step]
  obtain ⟨sim', snapshot, hrun⟩ : ∃ sim' snapshot, (waitingWorld.runToQuiescence 3 : Except Panic
      (_ × Option (RunReturn (StepError Empty Empty Empty))))
        = .ok (sim', some (.ok ⟨.completed, snapshot⟩)) := ⟨_, _, rfl⟩
  obtain ⟨hrest, -, -, hcompleted, -⟩ := run_rest h hrun
  exact ⟨sim', _, hrun, hrest, hcompleted.mp rfl⟩

end Simulation

end Calandria
