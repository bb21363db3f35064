/-
Bounded waiting under round-robin scheduling.

`round_robin_bypass` is about a scheduler and the ready sets it is offered.  Here
the kernel makes the offers: in a run, an action that is ready stays on offer until
its duty acts or its event is cancelled (`Executes.ready_kept`), while injections,
sends and other duties change the rest of the ready set at will.

* `Executes.rotates` — a call attempts an action of the next owner, or none;
* `Steps.visits` — until a ready duty acts, the duties of a run are those that the
  cursor visits;
* `service_bound` — so a ready duty acts before any other acts twice, within as many
  steps as there are duties, and time does not move before.
-/
import Calandria.KernelRefinement
import Calandria.RoundRobin
import Calandria.RunBound

namespace Calandria

namespace Simulation

variable {M S N E O ME SE NE : Type} [Retained E] [Retained O] [Model M E O ME]

/-- The duties that act in a run, in order. -/
def served [Scheduler S SE] (tr : List (Recorded M S N E O ME SE NE)) : List DutyId :=
  tr.filterMap attemptedDuty

/-- The call is a step. -/
def isStep (l : Recorded M S N E O ME SE NE) : Bool :=
  match l.2.1 with
  | .step => true
  | .inject .. | .injectAfter .. | .injectAt .. => false

/-- The duties that have an action ready. -/
def readyDuties (sim : Simulation M S N E) : List DutyId := sim.enabled.map ActionKey.duty

omit [Retained E] [Retained O] [Model M E O ME] in
theorem mem_readyDuties {sim : Simulation M S N E} {duty : DutyId} :
    duty ∈ sim.readyDuties ↔ ∃ event, sim.world.Ready duty event := by
  simp only [readyDuties, List.mem_map, world_ready]
  constructor
  · rintro ⟨⟨duty, kind⟩, hmem, rfl⟩
    cases kind with
    | turn => exact ⟨none, hmem⟩
    | delivery token => exact ⟨some token, hmem⟩
  · rintro ⟨event, hmem⟩
    exact ⟨_, hmem, ActionKey.of_duty duty event⟩

omit [Retained O] [Model M E O ME] in
theorem Sound.readyDuties_subset {sim : Simulation M S N E} (hs : sim.Sound) :
    sim.readyDuties ⊆ sim.topology.duties := by
  intro duty hmem
  obtain ⟨key, hkey, rfl⟩ := List.mem_map.mp hmem
  rcases mem_enabled.mp hkey with hdue | hrun
  · obtain ⟨token, entry, hentry, _, rfl⟩ := mem_dueDeliveries.mp hdue
    exact of_decide_eq_true (hs.pending hentry).1
  · obtain ⟨duty, state, hstate, _, rfl⟩ := mem_runnableTurns.mp hrun
    exact hs.keys.mp ⟨state, hstate⟩

variable [Monitor N M O NE]

/-! ### One call -/

/-- A step that fails leaves nothing to be done. -/
theorem Transition.over [Scheduler S SE] {sim sim' : Simulation M S N E}
    {r : StepReturn O ME NE SE} (h : sim.Transition r sim')
    (hr : (∃ error, r = .err error) ∨ ∃ boundary, r = .unwound boundary) : ¬ sim'.Live := by
  intro hlive'
  by_cases hlive : sim.Live
  · have hactive := (h.live_iff hlive).mp hlive'
    rcases hr with ⟨_, rfl⟩ | ⟨_, rfl⟩ <;> cases hactive
  · cases h with
    | poisoned | inactive => exact hlive hlive'
    | limited hl | refused hl | rolledBack hl | committed hl | completed hl | finishRefused hl
    | quiescent hl | timeLimited hl | advanced hl => exact hlive hl

/-- With something ready, a call attempts an action of the next owner in rotated order, or it
attempts nothing and leaves the cursor alone; a step that does so ends the simulation. -/
theorem Executes.rotates {sim sim' : Simulation M RoundRobin N E} {call : Call E}
    {reply : Reply E O ME NE Empty} (h : sim.Executes call reply sim') (hs : sim.Sound)
    (hne : sim.enabled ≠ []) :
    (∃ owner, attemptedDuty (sim, call, reply) = some owner ∧
      rotate sim.scheduler.cursor sim.readyDuties = some owner ∧
      sim'.scheduler.cursor = some owner ∧ isStep (sim, call, reply) = true) ∨
    attemptedDuty (sim, call, reply) = none ∧ sim'.scheduler = sim.scheduler ∧
      (isStep (sim, call, reply) = true → ¬ sim'.Live) := by
  obtain ⟨key, hchoose, hrotate, hfirst⟩ := sim.scheduler.chooses sim.now hne
    (sim.enabled_sorted.imp ActionKey.cmp_eq_lt.mpr)
  cases h with
  | @injected _ _ _ result _ hcall hi =>
    refine .inr ⟨rfl, ?_, fun hstep => ?_⟩
    · cases hi <;> rfl
    · cases call with
      | step => cases hcall
      | inject | injectAfter | injectAt => cases hstep
  | @stepped r _ ht =>
    have hattempts : ∀ {started callback}, sim.attempt = some (started, callback) →
        sim'.scheduler = started.scheduler → ∃ owner,
          attemptedDuty (sim, .step, (.stepped r : Reply E O ME NE Empty)) = some owner ∧
          rotate sim.scheduler.cursor sim.readyDuties = some owner ∧
          sim'.scheduler.cursor = some owner ∧
          isStep (sim, .step, (.stepped r : Reply E O ME NE Empty)) = true := by
      intro started callback hattempt hscheduler
      have hchoice := ((attempt_iff hs).mp hattempt).2.choice
      obtain ⟨hcursor, hkey⟩ := Prod.mk.inj (hchoose.symm.trans hchoice)
      obtain rfl := Returned.ok.inj hkey
      refine ⟨callback.metadata.key.duty, ?_, hrotate, ?_, rfl⟩
      · simp only [attemptedDuty, hattempt, Option.map_some]
      · rw [hscheduler, ← hcursor]
    rcases ht.attempted hs with ⟨hnone, -⟩ |
      ⟨started, callback, ctx, log, model, result, timeline, hattempt, hruns, ha, hr, rfl⟩ |
      ⟨started, callback, ctx, log, model, turn, updated, hattempt, hruns, hc, hf⟩
    · refine .inr ⟨by simp only [attemptedDuty, hnone, Option.map_none], ?_, fun _ => ?_⟩
      · cases ht with
        | poisoned | inactive | limited => rfl
        -- a rotation is never refused
        | refused _ _ _ hchoose' href =>
          cases hchoose.symm.trans hchoose'
          cases href with
          | invalid hnot => exact absurd hfirst.1 hnot
        | rolledBack hl hb | committed hl hb =>
          rw [(attempt_iff hs).mpr ⟨hl, hb⟩] at hnone
          cases hnone
        | completed _ hempty | finishRefused _ hempty | quiescent _ hempty | timeLimited _ hempty
        | advanced _ hempty => exact absurd hempty hne
      · refine ht.over ((ht.attempts_or_fails hs hne).resolve_left ?_)
        simp [hnone]
    · exact .inl (hattempts hattempt (halt_scheduler _ _))
    · refine .inl (hattempts hattempt ((hf.of_ok rfl).1.trans ?_))
      rw [hc.frame]

/-! ### Runs -/

/-- A simulation that is over stays as it is. -/
theorem Final.stays [Scheduler S SE] {sim sim' : Simulation M S N E}
    {tr : List (Recorded M S N E O ME SE NE)} (h : @Final M S N E O ME SE NE _ _ _ _ _ sim)
    (hrun : Steps (system M S N E O ME SE NE).recording.step sim tr sim') : sim' = sim := by
  refine hrun.preserves (P := fun u => u = sim) (fun {u l v} hu hstep => ?_) rfl
  obtain ⟨-, hexec⟩ := hstep
  rw [hu] at hexec
  exact (Prod.mk.inj (Except.ok.inj (hexec.symm.trans (h.answers l.2.1)))).1

/-- **The run lemma**: until a ready duty acts, the duties that act are those that the cursor
visits, and the duty is ready at each visit. -/
theorem steps_visits {sim sim' : Simulation M RoundRobin N E}
    {tr : List (Recorded M RoundRobin N E O ME Empty NE)}
    (hrun : Steps (system M RoundRobin N E O ME Empty NE).recording.step sim tr sim')
    (hs : sim.Sound) {duty : DutyId} {event : Option EventToken}
    (hready : sim.world.Ready duty event)
    (hkept : ∀ token, event = some token → token ∉ allCancelled tr) :
    ∃ sets : List (List DutyId), (∀ xs ∈ sets, duty ∈ xs ∧ xs ⊆ sim.topology.duties) ∧
      (served tr).takeWhile (· ≠ duty)
        = (visits sim.scheduler.cursor sets).takeWhile (· ≠ duty) ∧
      (duty ∉ served tr → served tr = visits sim.scheduler.cursor sets ∧
        sim'.world.Ready duty event ∧ sim'.now = sim.now ∧
        (sim'.Live → tr.countP isStep = sets.length)) := by
  -- on the trace from its front, along which the cursor moves
  induction tr generalizing sim with
  | nil =>
    obtain rfl := hrun.of_nil
    exact ⟨[], by simp, rfl, fun _ => ⟨rfl, hready, rfl, fun _ => rfl⟩⟩
  | cons l rest ih =>
    obtain ⟨mid, ⟨hl, hexec⟩, hrest⟩ := hrun.of_cons
    obtain ⟨sim₁, call, reply⟩ := l
    obtain rfl : sim = sim₁ := hl.symm
    have he := executes_of_exec hs hexec
    have hs' := he.sound hs
    have htopology : mid.topology = sim.topology := he.constants.topology
    have hkept' : ∀ token, event = some token → token ∉ sim.cancelled reply ∧
        token ∉ allCancelled rest := by
      intro token htoken
      have hnot := hkept token htoken
      rw [allCancelled, List.flatMap_cons, List.mem_append, not_or] at hnot
      exact hnot
    have hin : duty ∈ sim.readyDuties := mem_readyDuties.mpr ⟨event, hready⟩
    have hne : sim.enabled ≠ [] := List.ne_nil_of_mem (world_ready.mp hready)
    have hstays : attemptedDuty (sim, call, reply) ≠ some duty →
        mid.world.Ready duty event ∧ mid.now = sim.now := fun hduty =>
      he.ready_kept hs hready hduty fun token htoken => (hkept' token htoken).1
    rcases he.rotates hs hne with ⟨owner, howner, hrotate, hcursor, hstep⟩ |
        ⟨hnone, hscheduler, hover⟩
    · have hserved : served ((sim, call, reply) :: rest) = owner :: served rest := by
        rw [served, List.filterMap_cons, howner]
        rfl
      by_cases heq : owner = duty
      -- the duty acts: this is the visit it waited for
      · subst heq
        refine ⟨[sim.readyDuties], ?_, ?_, ?_⟩
        · simpa using ⟨hin, hs.readyDuties_subset⟩
        · simp [hserved, visits, hrotate]
        · rw [hserved]
          intro hnot
          exact absurd List.mem_cons_self hnot
      · obtain ⟨hready', hnow⟩ := hstays (by simpa [howner] using heq)
        obtain ⟨sets, hsets, htake, hwaits⟩ := ih hrest hs' hready'
          fun token htoken => (hkept' token htoken).2
        rw [hcursor] at htake hwaits
        refine ⟨sim.readyDuties :: sets, ?_, ?_, ?_⟩
        · rw [htopology] at hsets
          exact List.forall_mem_cons.mpr ⟨⟨hin, hs.readyDuties_subset⟩, hsets⟩
        · simp only [hserved, visits, hrotate, List.takeWhile_cons, htake]
        · rw [hserved, List.mem_cons, not_or]
          rintro ⟨-, hnot⟩
          obtain ⟨hall, hstill, hnow', hcount⟩ := hwaits hnot
          refine ⟨by simp only [visits, hrotate, hall], hstill, hnow'.trans hnow, fun hlive => ?_⟩
          rw [List.countP_cons_of_pos hstep, hcount hlive, List.length_cons]
    -- nothing is attempted: the cursor stays where it is
    · have hserved : served ((sim, call, reply) :: rest) = served rest := by
        rw [served, List.filterMap_cons, hnone]
        rfl
      obtain ⟨hready', hnow⟩ := hstays (by simp [hnone])
      obtain ⟨sets, hsets, htake, hwaits⟩ := ih hrest hs' hready'
        fun token htoken => (hkept' token htoken).2
      rw [hscheduler] at htake hwaits
      rw [htopology] at hsets
      refine ⟨sets, hsets, by rw [hserved, htake], ?_⟩
      rw [hserved]
      intro hnot
      obtain ⟨hall, hstill, hnow', hcount⟩ := hwaits hnot
      refine ⟨hall, hstill, hnow'.trans hnow, fun hlive => ?_⟩
      have hnotstep : ¬ isStep (sim, call, reply) = true := by
        intro hstep
        have hdead := hover hstep
        rw [(final_of_not_live hdead).stays hrest] at hlive
        exact hdead hlive
      rw [List.countP_cons_of_neg hnotstep, hcount hlive]

/-- **Bounded waiting**: from every reachable simulation under round-robin scheduling, in every
run in which the event of a ready action is not cancelled, no duty acts twice before the duty
of the ready action does; until it does the action stays ready and time stands still, and it
does so within as many steps as there are duties, unless a step ends the simulation. -/
theorem service_bound {sim sim' : Simulation M RoundRobin N E}
    {tr : List (Recorded M RoundRobin N E O ME Empty NE)}
    (hreach : (system M RoundRobin N E O ME Empty NE).Reachable sim)
    (hrun : Steps (system M RoundRobin N E O ME Empty NE).recording.step sim tr sim')
    {duty : DutyId} {event : Option EventToken} (hready : ActionKey.of duty event ∈ sim.enabled)
    (hkept : ∀ token, event = some token → token ∉ allCancelled tr) :
    ((served tr).takeWhile (· ≠ duty)).Nodup ∧
    ((served tr).takeWhile (· ≠ duty)).length < sim.topology.len ∧
    (duty ∉ served tr → ActionKey.of duty event ∈ sim'.enabled ∧ sim'.now = sim.now) ∧
    (sim.topology.len ≤ tr.countP isStep → duty ∈ served tr ∨ ¬ sim'.Live) := by
  have hs := reachable_sound hreach
  have hready' := world_ready.mpr hready
  have hduty : duty ∈ sim.topology.duties :=
    hs.readyDuties_subset (mem_readyDuties.mpr ⟨event, hready'⟩)
  obtain ⟨sets, hsets, htake, hwaits⟩ := steps_visits hrun hs hready' hkept
  have hnodup := visits_nodup sim.scheduler.cursor fun xs hxs => (hsets xs hxs).1
  rw [htake]
  refine ⟨hnodup, ?_, fun hnot => ?_, fun hlen => ?_⟩
  -- those that act before it are duties other than itself
  · have hsub : duty :: (visits sim.scheduler.cursor sets).takeWhile (· ≠ duty)
        ⊆ sim.topology.duties := by
      refine List.cons_subset.mpr ⟨hduty, fun owner howner => ?_⟩
      obtain ⟨xs, hxs, hmem⟩ := mem_of_visits (List.takeWhile_subset _ howner)
      exact (hsets xs hxs).2 hmem
    have hnot : duty ∉ (visits sim.scheduler.cursor sets).takeWhile (· ≠ duty) := by
      intro hmem
      simpa using List.mem_takeWhile_imp hmem
    exact (List.subperm_of_subset (List.nodup_cons.mpr ⟨hnot, hnodup⟩) hsub).length_le
  · obtain ⟨-, hstill, hnow, -⟩ := hwaits hnot
    exact ⟨world_ready.mp hstill, hnow⟩
  · by_cases hserved : duty ∈ served tr
    · exact .inl hserved
    · refine .inr fun hlive => hserved ?_
      obtain ⟨hall, -, -, hcount⟩ := hwaits hserved
      rw [hall]
      exact mem_visits _ hduty (fun xs hxs => (hsets xs hxs).1) (fun xs hxs => (hsets xs hxs).2)
        (hcount hlive ▸ hlen)

theorem rivals_sorted : [(1 : DutyId), 2].Pairwise (· < ·) := by decide

def rivalsTopology : Topology := ⟨[1, 2], rivals_sorted, List.cons_ne_nil _ _⟩

/-- Two duties that always want to act. -/
def rivals : Simulation (Playback Unit Unit Empty) RoundRobin NoopMonitor Unit :=
  let start := Playback.world [.done (.ok ⟨1, .now⟩), .done (.ok ⟨1, .now⟩)] ⟨none⟩ ⟨⟩
  { start with
    topology := rivalsTopology
    states := initialStates rivalsTopology }

/-- The second one has its turn within two steps. -/
theorem service_bound_rivals :
    (2 : DutyId) ∈ served
      (rivals.history [.step, .step] : List (Recorded _ _ _ _ Unit Empty Empty Empty)) := by
  have hreach : (system (Playback Unit Unit Empty) RoundRobin NoopMonitor Unit Unit Empty Empty
      Empty).Reachable rivals :=
    ⟨[], .start ⟨7, 0, _, rivalsTopology, .new ⟨⟨8, U64.eight_ne_zero⟩, 64⟩, _, _, rfl⟩⟩
  have hready : ActionKey.of 2 none ∈ rivals.enabled := by decide +kernel
  obtain ⟨-, -, -, hwithin⟩ := service_bound hreach
    (recording_after rivals [.step, .step]) hready fun _ hnone => by cases hnone
  refine (hwithin (by decide +kernel)).resolve_right fun hover => hover ?_
  exact ⟨by decide +kernel, by decide +kernel⟩

end Simulation

end Calandria
