/-
Kernel well-formedness over every run.

`kernel_well_formed` spells the invariant of `Calandria.Kernel` out for the
reachable simulations, and what follows for the next call: it never panics
inside the kernel, and the only kernel failure a step reports is an owner that
stops while deliveries for it are pending.
-/
import Calandria.Kernel

namespace Calandria

namespace Simulation

variable {M S N E O ME SE NE : Type} [Retained E] [Retained O] [Model M E O ME]
  [Scheduler S SE] [Monitor N M O NE]

/-- The only kernel failure of a sound simulation. -/
theorem Transition.kernel {sim sim' : Simulation M S N E} {failure : KernelFailure}
    (h : sim.Transition (.err (.kernel failure) : StepReturn O ME NE SE) sim') :
    ∃ duty pending, failure = .stoppedWithPending duty pending := by
  generalize hr : (.err (.kernel failure) : StepReturn O ME NE SE) = r at h
  cases h with
  | refused _ _ _ _ href => cases href <;> cases hr
  | rolledBack _ _ _ ha =>
    cases ha with
    | unwound => cases hr
    | failed => cases hr
    | stopRejected =>
      cases hr
      exact ⟨_, _, rfl⟩
  | committed _ _ _ _ hf => cases hf <;> cases hr
  | finishRefused _ _ _ _ _ href => cases href <;> cases hr
  | poisoned | inactive | limited | completed | quiescent | timeLimited | advanced => cases hr

omit [Retained E] in
theorem readyCapacity_fits [Retained E] (id : TimelineId) (now : Moment) (model : M)
    (topology : Topology) (limits : SimulationLimits) (scheduler : S) (monitor : N) :
    ∃ built : Except (SimulationBuildError M S N) (Simulation M S N E),
      withParts id now model topology limits scheduler monitor = .ok built := by
  rw [withParts]
  by_cases hduties : limits.maxDuties.get.val < topology.len
  · simp [hduties]
  by_cases htime : limits.maxVirtualTime < now
  · simp [hduties, htime]
  by_cases hfits : topology.len + limits.timeline.pendingEvents.get.val < 2 ^ 64
  · simp only [if_neg hduties, if_neg htime, if_pos hfits, Option.isNone_some,
      Bool.false_eq_true, if_false]
    exact ⟨_, rfl⟩
  · simp only [if_neg hduties, if_neg htime, if_neg hfits, Option.isNone_none, if_true]
    exact ⟨_, rfl⟩

/-- **Kernel well-formedness**: in every state that any sequence of calls can
reach, whatever model, scheduler and monitor do. -/
theorem kernel_well_formed :
    (∀ (id : TimelineId) (now : Moment) (model : M) (topology : Topology)
      (limits : SimulationLimits) (scheduler : S) (monitor : N),
      ∃ built : Except (SimulationBuildError M S N) (Simulation M S N E),
        withParts id now model topology limits scheduler monitor = .ok built) ∧
    ∀ sim : Simulation M S N E, (system M S N E O ME SE NE).Reachable sim →
      (∀ token routed, (token, routed) ∈ sim.timeline.pending →
        sim.topology.contains routed.target = true ∧ routed.target ∉ sim.stopped ∧
        sim.now ≤ token.moment ∧ token.moment ≤ sim.limits.maxVirtualTime) ∧
      (∀ duty, duty ∈ sim.stopped ↔
        ∃ state, sim.states.get? duty = some state ∧ state.next = .stop) ∧
      sim.now ≤ sim.limits.maxVirtualTime ∧
      (∀ call, ∃ sim', ∃ reply : Reply E O ME NE SE, sim.exec call = .ok (sim', reply) ∧
        ∀ failure, reply = .stepped (.err (.kernel failure)) →
          ∃ duty pending, failure = .stoppedWithPending duty pending) ∧
      sim.nextAction = some sim.actions ∧
      sim.actions ≤ sim.limits.totalActions.get ∧
      sim.actionsAtMoment ≤ sim.limits.actionsPerMoment.get := by
  refine ⟨readyCapacity_fits, fun sim hreach => ?_⟩
  have hs := reachable_sound hreach
  refine ⟨fun token routed hmem => ?_, fun duty => hs.stopped, hs.clock, fun call => ?_,
    hs.counter, hs.total, hs.atMoment⟩
  · obtain ⟨entry, hlook, rfl⟩ := Timeline.mem_pending.mp hmem
    obtain ⟨hknown, hlive, hbound⟩ := hs.pending hlook
    exact ⟨hknown, hlive, hs.wf.future hlook, hbound⟩
  · obtain ⟨sim', reply, hexec, he⟩ := exec_cases hs call
    refine ⟨sim', reply, hexec, fun failure hreply => ?_⟩
    subst hreply
    cases he with
    | stepped ht => exact ht.kernel

/-- A simulation with an event pending. -/
def injectedWorld : Simulation (Playback Unit Unit Empty) Fifo NoopMonitor Unit :=
  (Playback.world [] ⟨⟩ ⟨⟩).after [.injectAfter 1 5 ()]

theorem kernel_well_formed_injected :
    injectedWorld.timeline.pending.length = 1 ∧
    (∀ token routed, (token, routed) ∈ injectedWorld.timeline.pending →
      injectedWorld.topology.contains routed.target = true ∧
      routed.target ∉ injectedWorld.stopped ∧ injectedWorld.now ≤ token.moment ∧
      token.moment ≤ injectedWorld.limits.maxVirtualTime) ∧
    injectedWorld.nextAction = some injectedWorld.actions := by
  have hrun := Playback.recorded_world ([] : List (Program Unit Unit (Returned Turn Empty))) Fifo.mk
    NoopMonitor.mk [.injectAfter 1 5 ()]
  have hsound := kernel_well_formed.2 injectedWorld hrun.ofRecording.reachable
  exact ⟨by decide +kernel, hsound.1, hsound.2.2.2.2.1⟩

end Simulation

end Calandria
