/-
The kernel refines a discrete-event system.

`Simulation.world` forgets everything of a simulation but what the event system of
`Calandria.EventSystem` speaks of: the moment, the pending events and who they are
for, the interest of each duty, and whether the owner can still make progress.
`happened` names what a call did in those terms.

* `world_ready`, `world_upcoming` — what the kernel offers its scheduler is what is
  ready in the world, and it waits for what is upcoming there;
* `Balanced.events` — the books of a call, read as a change of the set of events;
* `Executes.refines` — a call does in the world what `happened` says;
* `kernel_refines` — so does a run, whatever the scheduler chooses; and every choice
  that the world allows is the scheduler's to make.
-/
import Calandria.EventSystem
import Calandria.Finality
import Calandria.Ledger
import Calandria.VirtualTime

namespace Calandria

/-- The interest that a turn declares. -/
def Next.interest : Next → EventSystem.Interest Moment
  | .now => .now
  | .wake => .idle
  | .wakeOr deadline => .wakeAt deadline
  | .stop => .stopped

theorem Next.interest_eq_stopped {next : Next} : next.interest = .stopped ↔ next = .stop := by
  cases next <;> simp [Next.interest]

/-- The key of the action of a duty on an event, or on its own interest. -/
def ActionKey.of (duty : DutyId) : Option EventToken → ActionKey
  | none => .turn duty
  | some token => .delivery duty token

theorem ActionKey.of_duty (duty : DutyId) (event : Option EventToken) :
    (ActionKey.of duty event).duty = duty := by
  cases event <;> rfl

theorem ActionKey.of_event {duty : DutyId} {event event' : Option EventToken}
    (h : ActionKey.of duty event = ActionKey.of duty event') : event = event' := by
  cases event <;> cases event' <;>
    simp_all [ActionKey.of, ActionKey.turn, ActionKey.delivery]

/-- A pending event of the kernel, without what it carries. -/
def eventOf {E : Type} (p : EventToken × Routed E) : EventSystem.Event DutyId EventToken Moment :=
  ⟨p.1, p.2.target, p.1.moment⟩

namespace Simulation

variable {M S N E O ME SE NE : Type}

/-- The world of a simulation. -/
def world (sim : Simulation M S N E) : EventSystem.World DutyId EventToken Moment where
  now := sim.now
  events := {e | ∃ p ∈ sim.timeline.pending, eventOf p = e}
  issued := {token | sim.timeline.Issued token.id}
  interest duty := (sim.states.get? duty).map fun state => state.next.interest
  live := sim.Live

theorem mem_world {sim : Simulation M S N E} {e : EventSystem.Event DutyId EventToken Moment} :
    e ∈ sim.world.events ↔ ∃ p ∈ sim.timeline.pending, eventOf p = e :=
  Iff.rfl

theorem world_interest {sim : Simulation M S N E} {duty : DutyId}
    {i : EventSystem.Interest Moment} : sim.world.interest duty = some i ↔
      ∃ state, sim.states.get? duty = some state ∧ state.next.interest = i :=
  Option.map_eq_some_iff

/-- What is ready in the world is what the kernel offers its scheduler. -/
theorem world_ready {sim : Simulation M S N E} {duty : DutyId} {event : Option EventToken} :
    sim.world.Ready duty event ↔ ActionKey.of duty event ∈ sim.enabled := by
  rw [mem_enabled, mem_dueDeliveries, mem_runnableTurns]
  cases event with
  | none =>
    have hrunnable : ∀ state : DutyState, runnable sim.now state = true ↔
        state.next.interest = .now ∨ ∃ m ≤ sim.now, state.next.interest = .wakeAt m := by
      intro state
      cases hnext : state.next <;>
        simp [runnable, hnext, Next.interest, Deadline.isElapsedAt]
    have hready : sim.world.Ready duty none ↔ ∃ state, sim.states.get? duty = some state ∧
        runnable sim.now state = true := by
      show (_ ∨ ∃ m ≤ sim.now, _) ↔ _
      simp only [world_interest, hrunnable]
      constructor
      · rintro (⟨state, hstate, hnow⟩ | ⟨m, hm, state, hstate, hwake⟩)
        · exact ⟨state, hstate, .inl hnow⟩
        · exact ⟨state, hstate, .inr ⟨m, hm, hwake⟩⟩
      · rintro ⟨state, hstate, hnow | ⟨m, hm, hwake⟩⟩
        · exact .inl ⟨state, hstate, hnow⟩
        · exact .inr ⟨m, hm, state, hstate, hwake⟩
    rw [hready]
    constructor
    · rintro ⟨state, hstate, hrun⟩
      exact .inr ⟨duty, state, hstate, hrun, rfl⟩
    · rintro (⟨token, entry, _, _, hkey⟩ | ⟨duty', state, hstate, hrun, hkey⟩)
      · simp [ActionKey.of, ActionKey.turn, ActionKey.delivery] at hkey
      · obtain rfl : duty = duty' := congrArg ActionKey.duty hkey
        exact ⟨state, hstate, hrun⟩
  | some token =>
    constructor
    · rintro ⟨⟨token', routed⟩, hmem, heq⟩
      obtain ⟨entry, hentry, rfl⟩ := Timeline.mem_pending.mp hmem
      simp only [eventOf, EventSystem.Event.mk.injEq] at heq
      obtain ⟨rfl, rfl, hmoment⟩ := heq
      exact .inl ⟨token', entry, hentry, hmoment, rfl⟩
    · rintro (⟨token', entry, hentry, hmoment, hkey⟩ | ⟨_, _, _, _, hkey⟩)
      · simp only [ActionKey.of, ActionKey.delivery, ActionKey.mk.injEq,
          ActionKind.delivery.injEq] at hkey
        obtain ⟨rfl, rfl⟩ := hkey
        exact ⟨(token, entry.event), Timeline.mem_pending.mpr ⟨entry, hentry, rfl⟩,
          by simp only [eventOf, hmoment]; rfl⟩
      · simp [ActionKey.of, ActionKey.turn, ActionKey.delivery] at hkey

theorem world_idle {sim : Simulation M S N E} :
    (∀ duty event, ¬ sim.world.Ready duty event) ↔ sim.enabled = [] := by
  simp only [world_ready, List.eq_nil_iff_forall_not_mem]
  constructor
  · rintro h ⟨duty, kind⟩
    cases kind with
    | turn => exact h duty none
    | delivery token => exact h duty (some token)
  · intro h duty event
    exact h _

theorem world_upcoming {sim : Simulation M S N E} {m : Moment} :
    sim.world.Upcoming m ↔ sim.Upcoming m := by
  refine or_congr ?_ ?_
  · constructor
    · rintro ⟨e, ⟨⟨token, routed⟩, hmem, rfl⟩, hmoment⟩
      obtain ⟨entry, hentry, -⟩ := Timeline.mem_pending.mp hmem
      exact ⟨token, entry, hentry, hmoment⟩
    · rintro ⟨token, entry, hentry, hmoment⟩
      exact ⟨_, ⟨_, Timeline.mem_pending.mpr ⟨entry, hentry, rfl⟩, rfl⟩, hmoment⟩
  · simp only [mem_deadlines, world_interest]
    refine exists_congr fun duty => exists_congr fun state => and_congr_right fun _ => ?_
    cases state.next <;> simp [Next.interest]

section

variable [Retained E]

/-- The duties that serve are those of the topology that have not stopped. -/
theorem world_serves {sim : Simulation M S N E} (hs : sim.Sound) {duty : DutyId} :
    sim.world.Serves duty ↔ duty ∈ sim.topology.duties ∧ duty ∉ sim.stopped := by
  rw [hs.stopped, ← hs.keys]
  constructor
  · rintro ⟨i, hi, hne⟩
    obtain ⟨state, hstate, rfl⟩ := world_interest.mp hi
    refine ⟨⟨state, hstate⟩, ?_⟩
    rintro ⟨state', hstate', hstop⟩
    obtain rfl : state = state' := Option.some_inj.mp (hstate.symm.trans hstate')
    exact hne (Next.interest_eq_stopped.mpr hstop)
  · rintro ⟨⟨state, hstate⟩, hlive⟩
    exact ⟨_, world_interest.mpr ⟨state, hstate, rfl⟩,
      fun hstop => hlive ⟨state, hstate, Next.interest_eq_stopped.mp hstop⟩⟩

/-- The world of a sound simulation is well formed. -/
theorem Sound.world {sim : Simulation M S N E} (hs : sim.Sound) : sim.world.WF := by
  refine ⟨?_, ?_, ?_, ?_⟩
  · rintro e ⟨⟨token, routed⟩, hmem, rfl⟩
    obtain ⟨entry, hentry, -⟩ := Timeline.mem_pending.mp hmem
    exact hs.wf.future hentry
  · rintro e ⟨⟨token, routed⟩, hmem, rfl⟩
    obtain ⟨entry, hentry, -⟩ := Timeline.mem_pending.mp hmem
    exact hs.wf.issued hentry
  · rintro e ⟨p, hp, rfl⟩ e' ⟨p', hp', rfl⟩ heq
    rw [List.inj_on_of_nodup_map sim.timeline.pending_nodup hp hp' heq]
  · rintro e ⟨⟨token, routed⟩, hmem, rfl⟩
    obtain ⟨entry, hentry, rfl⟩ := Timeline.mem_pending.mp hmem
    obtain ⟨hknown, hlive, -⟩ := hs.pending hentry
    exact (world_serves hs).mpr ⟨of_decide_eq_true hknown, hlive⟩

end

/-! ### What a call does in the world -/

variable [Retained E] [Retained O] [Model M E O ME] [Scheduler S SE]

/-- The action that a step attempts, carried out or not. -/
def happenedAction (l : Recorded M S N E O ME SE NE) :
    List (EventSystem.Label DutyId EventToken Moment) :=
  match l.1.attempt with
  | none => []
  | some (_, callback) =>
    match l.1.commitment with
    | none => [.abort callback.metadata.key.duty (callback.delivered.map Prod.fst)]
    | some (_, turn) => [.act callback.metadata.key.duty (callback.delivered.map Prod.fst)
        (l.1.cancelled l.2.2) ((l.1.admitted l.2.1 l.2.2).map eventOf) turn.next.interest]

/-- What else a step does. -/
def happenedEnd : StepReturn O ME NE SE → List (EventSystem.Label DutyId EventToken Moment)
  | .ok (.action _) => []
  | .ok (.timeAdvanced _ stop) => [.advance stop]
  | .ok (.quiescent _) => [.quiesce]
  | .ok (.completed _) => [.finish]
  | .err _ | .unwound _ => [.halt]

/-- What a call does in the world: nothing once the simulation is over. -/
def happened (l : Recorded M S N E O ME SE NE) :
    List (EventSystem.Label DutyId EventToken Moment) :=
  match l.2.2 with
  | .injected (.error _) => []
  | .injected (.ok _) => (l.1.admitted l.2.1 l.2.2).map fun p => .post (eventOf p)
  | .stepped r =>
    if l.1.poisoned = false ∧ l.1.phase = .active then happenedAction l ++ happenedEnd r else []

variable [Monitor N M O NE]

omit [Monitor N M O NE] in
theorem happened_stepped {sim : Simulation M S N E} (hlive : sim.Live)
    (r : StepReturn O ME NE SE) :
    happened (sim, .step, .stepped r) = happenedAction (sim, .step, .stepped r) ++ happenedEnd r :=
  if_pos ⟨hlive.unpoisoned, hlive.active⟩

omit [Monitor N M O NE] in
theorem happenedAction_none {sim : Simulation M S N E} (h : sim.attempt = none) (call : Call E)
    (reply : Reply E O ME NE SE) : happenedAction (sim, call, reply) = [] := by
  rw [happenedAction, h]

omit [Monitor N M O NE] in
theorem admitted_not_cancelled {sim : Simulation M S N E} {call : Call E}
    {reply : Reply E O ME NE SE} {p : EventToken × Routed E} (h : p ∈ sim.admitted call reply) :
    p.1 ∉ sim.cancelled reply := by
  cases reply with
  | injected => simp [cancelled]
  | stepped r =>
    rw [admitted] at h
    rw [cancelled]
    cases hlog : sim.committedLog with
    | none => simp
    | some log =>
      rw [hlog] at h
      intro hmem
      have hnot := (List.mem_filter.mp hmem).2
      simp only [decide_eq_true_eq] at hnot
      exact hnot (List.mem_map_of_mem (List.mem_of_mem_filter h))

omit [Monitor N M O NE] in
/-- **The books as a change of the world**: a call takes out what it handled and cancelled,
and puts in what it admitted. -/
theorem Balanced.events {sim sim' : Simulation M S N E} {call : Call E}
    {reply : Reply E O ME NE SE} (h : Balanced sim call reply sim') (hs : sim.Sound) :
    ∀ p, p ∈ sim'.timeline.pending ↔ p ∈ sim.admitted call reply ∨
      p ∈ sim.timeline.pending ∧ p.1 ∉ (sim.handled reply).map Handling.token ∧
        p.1 ∉ sim.cancelled reply := by
  -- each token of the call is in one place
  have hold : ∀ p ∈ sim.timeline.pending, sim.timeline.Issued p.1.id := by
    rintro ⟨token, routed⟩ hmem
    obtain ⟨entry, hentry, -⟩ := Timeline.mem_pending.mp hmem
    exact hs.wf.issued hentry
  have hnodup : (tokens sim.timeline + (sim.admitted call reply).map Prod.fst).Nodup := by
    refine Multiset.nodup_add.mpr ⟨sim.timeline.pending_nodup, h.nodup,
      Multiset.disjoint_left.mpr fun {token} ht hnew => ?_⟩
    obtain ⟨p, hp, rfl⟩ := List.mem_map.mp (Multiset.mem_coe.mp ht)
    obtain ⟨q, hq, heq⟩ := List.mem_map.mp (Multiset.mem_coe.mp hnew)
    exact (h.fresh q hq).1 (heq ▸ hold p hp)
  have hbalance := h.balance
  rw [hbalance] at hnodup
  obtain ⟨hnodup', -, hcancelled⟩ := Multiset.nodup_add.mp hnodup
  obtain ⟨-, -, hhandled⟩ := Multiset.nodup_add.mp hnodup'
  have hiff : ∀ token, token ∈ sim.timeline.pending.map Prod.fst ∨
      token ∈ (sim.admitted call reply).map Prod.fst ↔
      (token ∈ sim'.timeline.pending.map Prod.fst ∨
        token ∈ (sim.handled reply).map Handling.token) ∨ token ∈ sim.cancelled reply := by
    intro token
    have hmem := congrArg (token ∈ ·) hbalance
    simpa only [tokens, Multiset.mem_add, Multiset.mem_coe, eq_iff_iff] using hmem
  -- a pair is known by its token, among the old and the new ones
  have hsame : ∀ p q, (p ∈ sim.timeline.pending ∨ p ∈ sim.admitted call reply) →
      (q ∈ sim.timeline.pending ∨ q ∈ sim.admitted call reply) → p.1 = q.1 → p = q := by
    rintro p q (hp | hp) (hq | hq) heq
    · exact List.inj_on_of_nodup_map sim.timeline.pending_nodup hp hq heq
    · exact absurd (heq ▸ hold p hp) (h.fresh q hq).1
    · exact absurd (heq ▸ hold q hq) (h.fresh p hp).1
    · exact List.inj_on_of_nodup_map h.nodup hp hq heq
  have hback : ∀ p, (p ∈ sim.timeline.pending ∨ p ∈ sim.admitted call reply) →
      p.1 ∉ (sim.handled reply).map Handling.token → p.1 ∉ sim.cancelled reply →
      p ∈ sim'.timeline.pending := by
    intro p hp hnot hnot'
    have hmem := (hiff p.1).mp (hp.imp (List.mem_map_of_mem (f := Prod.fst))
      (List.mem_map_of_mem (f := Prod.fst)))
    obtain ⟨q, hq, heq⟩ := List.mem_map.mp ((hmem.resolve_right hnot').resolve_right hnot)
    rwa [hsame p q hp (h.data q hq) heq.symm]
  intro p
  constructor
  · intro hp
    have htoken : p.1 ∈ sim'.timeline.pending.map Prod.fst := List.mem_map_of_mem hp
    rcases h.data p hp with hmem | hmem
    · refine .inr ⟨hmem, fun hn => ?_, fun hn => ?_⟩
      · exact Multiset.disjoint_left.mp hhandled htoken (Multiset.mem_coe.mpr hn)
      · exact Multiset.disjoint_left.mp hcancelled (Multiset.mem_add.mpr (.inl htoken))
          (Multiset.mem_coe.mpr hn)
    · exact .inl hmem
  · rintro (hp | ⟨hp, hnot, hnot'⟩)
    · refine hback p (.inr hp) (fun hn => ?_) fun hn => ?_
      · obtain ⟨d, hd, heq⟩ := List.mem_map.mp hn
        exact (h.fresh p hp).1 (heq ▸ hold _ (h.source d hd))
      · exact admitted_not_cancelled hp hn
    · exact hback p (.inl hp) hnot hnot'

omit [Retained E] [Retained O] [Monitor N M O NE] in
theorem Begins.key {sim started : Simulation M S N E} {callback : Callback M E O ME}
    (h : sim.Begins started callback) : callback.metadata.key
      = ActionKey.of callback.metadata.key.duty (callback.delivered.map Prod.fst) := by
  obtain ⟨key, selected, _, hstarts⟩ := h
  cases hstarts <;> rfl

omit [Monitor N M O NE] in
/-- The set of events that a step leaves. -/
theorem Balanced.world {sim sim' started : Simulation M S N E} {callback : Callback M E O ME}
    {r : StepReturn O ME NE SE} (h : Balanced sim .step (.stepped r) sim') (hs : sim.Sound)
    (hattempt : sim.attempt = some (started, callback)) :
    sim'.world.events = sim.world.after (callback.delivered.map Prod.fst)
      (sim.cancelled (.stepped r : Reply E O ME NE SE))
      ((sim.admitted .step (.stepped r : Reply E O ME NE SE)).map eventOf) := by
  have hhandled : ∀ token, token ∈ (sim.handled (.stepped r : Reply E O ME NE SE)).map
      Handling.token ↔ callback.delivered.map Prod.fst = some token := by
    intro token
    simp only [handled, handling, hattempt]
    cases callback.delivered with
    | none => simp
    | some d => simp [eq_comm]
  ext e
  constructor
  · rintro ⟨p, hp, rfl⟩
    rcases (h.events hs p).mp hp with hmem | ⟨hmem, hnot, hnot'⟩
    · exact .inl (List.mem_map_of_mem hmem)
    · exact .inr ⟨⟨p, hmem, rfl⟩, fun heq => hnot ((hhandled _).mpr heq), hnot'⟩
  · rintro (hmem | ⟨⟨p, hmem, rfl⟩, hnot, hnot'⟩)
    · obtain ⟨p, hp, rfl⟩ := List.mem_map.mp hmem
      exact ⟨p, (h.events hs p).mpr (.inl hp), rfl⟩
    · exact ⟨p, (h.events hs p).mpr (.inr ⟨hmem, fun hn => hnot ((hhandled _).mp hn), hnot'⟩), rfl⟩

theorem Transition.live_iff {sim sim' : Simulation M S N E} {r : StepReturn O ME NE SE}
    (h : sim.Transition r sim') (hlive : sim.Live) :
    sim'.Live ↔ r.lifecycle = (.active, false) := by
  rw [← h.lifecycle hlive]
  constructor
  · intro hlive'
    exact Prod.ext hlive'.active hlive'.unpoisoned
  · intro heq
    exact ⟨congrArg Prod.snd heq, congrArg Prod.fst heq⟩

/-- A rolled-back action consumes its event, and the simulation is over. -/
theorem Transition.aborts {sim sim' started : Simulation M S N E} {callback : Callback M E O ME}
    {r : StepReturn O ME NE SE} (h : sim.Transition r sim') (hs : sim.Sound)
    (hattempt : sim.attempt = some (started, callback)) (hlog : sim.committedLog = none)
    (hcommit : sim.commitment = none) (hstates : sim'.states = sim.states)
    (hfails : happenedEnd r = [.halt]) (hover : ¬ sim'.Live) :
    Steps EventSystem.Step sim.world (happenedAction (sim, .step, .stepped r) ++ happenedEnd r)
      sim'.world := by
  obtain ⟨hlive, hb⟩ := (attempt_iff hs).mp hattempt
  have hbalanced := h.balances hs
  have hnow : sim'.now = sim.now := by
    rcases h.now with ⟨_, _, rfl⟩ | heq
    · cases hfails
    · exact heq
  have haction : happenedAction (sim, .step, (.stepped r : Reply E O ME NE SE))
      = [.abort callback.metadata.key.duty (callback.delivered.map Prod.fst)] := by
    simp only [happenedAction, hattempt, hcommit]
  have hevents := hbalanced.world hs hattempt
  simp only [admitted, cancelled, hlog, List.map_nil] at hevents
  rw [haction, hfails]
  refine (Steps.single (.abort hlive (world_ready.mpr (hb.key ▸ hb.enabled))
    fun token htoken => hbalanced.issued htoken)).trans ?_
  have hworld : sim'.world = { sim.world with
      events := sim.world.after (callback.delivered.map Prod.fst) [] []
      issued := {token | sim'.timeline.Issued token.id}
      live := False } :=
    EventSystem.World.ext hnow hevents rfl (by simp only [world, hstates]) (eq_false hover)
  rw [hworld]
  exact .single (.halt hlive)

/-- A committed action changes the world as it says. -/
theorem Transition.acts {sim sim' started updated : Simulation M S N E}
    {callback : Callback M E O ME} {ctx : ActionContext E O}
    {log : List (ContextCall E O × ContextReply E O)} {model : M} {turn : Turn}
    {r : StepReturn O ME NE SE} (h : sim.Transition r sim') (hs : sim.Sound)
    (hattempt : sim.attempt = some (started, callback))
    (hruns : Runs started callback ctx log model (.ok turn))
    (hc : Commits started callback ctx model turn updated)
    (hf : Finishes updated callback.metadata turn ctx.observations r sim') :
    Steps EventSystem.Step sim.world (happenedAction (sim, .step, .stepped r) ++ happenedEnd r)
      sim'.world := by
  obtain ⟨hlive, hb⟩ := (attempt_iff hs).mp hattempt
  have hs' := h.sound hs
  have hbalanced := h.balances hs
  have hnow : sim'.now = sim.now := by
    rcases h.now with ⟨_, _, rfl⟩ | heq
    · cases hf
    · exact heq
  obtain ⟨state, -, hupdated⟩ := hc.result
  have htopology : sim'.topology = sim.topology := by rw [hf.frame, hupdated, hb.frame]
  have hstopped : sim.stopped ⊆ sim'.stopped := by
    rw [h.stopped hs]
    exact sim.subset_stoppedNext
  have hstates : sim'.states = sim.states.insert callback.metadata.key.duty
      (state.update turn callback.delivered.isSome) := by
    rw [hf.frame, hupdated, hb.frame]
  have haction : happenedAction (sim, .step, (.stepped r : Reply E O ME NE SE))
      = [.act callback.metadata.key.duty (callback.delivered.map Prod.fst)
          (sim.cancelled (.stepped r : Reply E O ME NE SE))
          ((sim.admitted .step (.stepped r : Reply E O ME NE SE)).map eventOf)
          turn.next.interest] := by
    simp only [happenedAction, hattempt, commitment_eq hattempt hruns hc.unneeded]
  have hevents := hbalanced.world hs hattempt
  have hadmits : sim.world.Admits ((sim.admitted .step (.stepped r : Reply E O ME NE SE)).map
      eventOf) sim'.world.issued := by
    have hpending : ∀ p ∈ sim.admitted .step (.stepped r : Reply E O ME NE SE),
        ∃ entry, sim'.timeline.lookup p.1 = some entry ∧ entry.event = p.2 := by
      intro p hp
      exact Timeline.mem_pending.mp ((hbalanced.events hs p).mpr (.inl hp))
    refine ⟨?_, fun token htoken => hbalanced.issued htoken, ?_, ?_, ?_⟩
    · rintro e he
      obtain ⟨p, hp, rfl⟩ := List.mem_map.mp he
      exact hbalanced.fresh p hp
    · rw [List.map_map]
      exact hbalanced.nodup
    · rintro e he
      obtain ⟨p, hp, rfl⟩ := List.mem_map.mp he
      obtain ⟨entry, hentry, -⟩ := hpending p hp
      exact hnow.ge.trans (hs'.wf.future hentry)
    · rintro e he
      obtain ⟨p, hp, rfl⟩ := List.mem_map.mp he
      obtain ⟨entry, hentry, hevent⟩ := hpending p hp
      obtain ⟨hknown, hserves, -⟩ := hs'.pending hentry
      rw [hevent] at hknown hserves
      exact (world_serves hs).mpr ⟨htopology ▸ of_decide_eq_true hknown,
        fun hmem => hserves (hstopped hmem)⟩
  have hstop : turn.next.interest = .stopped → ∀ e ∈ sim.world.after
      (callback.delivered.map Prod.fst) (sim.cancelled (.stepped r : Reply E O ME NE SE))
      ((sim.admitted .step (.stepped r : Reply E O ME NE SE)).map eventOf),
      e.owner ≠ callback.metadata.key.duty := by
    rw [← hevents]
    rintro hnext e ⟨⟨token, routed⟩, hmem, rfl⟩ howner
    obtain ⟨entry, hentry, rfl⟩ := Timeline.mem_pending.mp hmem
    refine (hs'.pending hentry).2.1 ?_
    rw [show entry.event.target = _ from howner, hf.frame, hupdated]
    show _ ∈ ite _ _ _
    rw [if_pos (Next.interest_eq_stopped.mp hnext)]
    exact Finset.mem_insert_self ..
  have hinterest : sim'.world.interest = Function.update sim.world.interest
      callback.metadata.key.duty (some turn.next.interest) := by
    funext duty
    simp only [Simulation.world, hstates, OrderedMap.get?_insert]
    by_cases heq : duty = callback.metadata.key.duty
    · subst heq
      rw [if_pos rfl, Function.update_self, DutyState.update]
      split_ifs <;> rfl
    · rw [if_neg heq, Function.update_of_ne heq]
  rw [haction]
  refine (Steps.single (.act hlive (world_ready.mpr (hb.key ▸ hb.enabled)) hadmits hstop)).trans ?_
  have hworld : sim'.world = { sim.world with
      events := sim.world.after (callback.delivered.map Prod.fst)
        (sim.cancelled (.stepped r : Reply E O ME NE SE))
        ((sim.admitted .step (.stepped r : Reply E O ME NE SE)).map eventOf)
      issued := {token | sim'.timeline.Issued token.id}
      interest := Function.update sim.world.interest callback.metadata.key.duty
        (some turn.next.interest)
      live := sim'.Live } :=
    EventSystem.World.ext hnow hevents rfl hinterest rfl
  rw [hworld]
  -- the hooks have the last word
  have hends : (sim'.Live ∧ happenedEnd r = []) ∨ ¬ sim'.Live ∧ happenedEnd r = [.halt] := by
    rw [h.live_iff hlive]
    cases hf with
    | commitUnwound | commitFailed | monitorUnwound | monitorFailed =>
      exact .inr ⟨by simp [StepReturn.lifecycle], rfl⟩
    | accepted => exact .inl ⟨rfl, rfl⟩
  rcases hends with ⟨hlive', hend⟩ | ⟨hover, hend⟩
  · rw [hend, show sim'.Live = sim.Live from propext (iff_of_true hlive' hlive)]
    exact .refl
  · rw [hend, eq_false hover]
    exact .single (.halt hlive)

omit [Retained O] [Model M E O ME] [Scheduler S SE] [Monitor N M O NE] [Retained E] in
/-- A step that fails before any callback ends the simulation and does nothing else. -/
theorem halts {sim sim' : Simulation M S N E} (hlive : sim.Live)
    (htimeline : sim'.timeline = sim.timeline) (hstates : sim'.states = sim.states)
    (hover : ¬ sim'.Live) : Steps EventSystem.Step sim.world [.halt] sim'.world := by
  have hworld : sim'.world = { sim.world with live := False } :=
    EventSystem.World.ext (congrArg Timeline.now htimeline) (by simp only [world, htimeline])
      (by simp only [world, htimeline]) (by simp only [world, hstates]) (eq_false hover)
  rw [hworld]
  exact .single (.halt hlive)

omit [Monitor N M O NE] in
theorem committedLog_aborted {sim started : Simulation M S N E} {callback : Callback M E O ME}
    {ctx : ActionContext E O} {log : List (ContextCall E O × ContextReply E O)} {model : M}
    {result : Returned Turn ME} {r : StepReturn O ME NE SE}
    (hattempt : sim.attempt = some (started, callback))
    (hruns : Runs started callback ctx log model result)
    (habort : Abort callback.metadata ctx result r) : sim.committedLog = none := by
  simp only [committedLog, hattempt, hruns.run]
  cases habort with
  | unwound | failed => rfl
  | stopRejected hstop hpending => exact if_pos ⟨hstop, hpending⟩

/-- **The step lemma**: a step does in the world what happened in it. -/
theorem Transition.refines {sim sim' : Simulation M S N E} {r : StepReturn O ME NE SE}
    (h : sim.Transition r sim') (hs : sim.Sound) :
    Steps EventSystem.Step sim.world (happened (sim, .step, .stepped r)) sim'.world := by
  by_cases hlive : sim.Live
  swap
  · have hnone : happened (sim, .step, (.stepped r : Reply E O ME NE SE)) = [] :=
      if_neg fun hn => hlive ⟨hn.1, hn.2⟩
    rw [hnone]
    cases h with
    | poisoned | inactive => exact .refl
    | limited hl | refused hl | rolledBack hl | committed hl | completed hl | finishRefused hl
    | quiescent hl | timeLimited hl | advanced hl => exact absurd hl hlive
  have hends := h.live_iff hlive
  rw [happened_stepped hlive]
  rcases h.attempted hs with ⟨hnone, -⟩ |
      ⟨started, callback, ctx, log, model, result, timeline, hattempt, hruns, ha, hr, rfl⟩ |
      ⟨started, callback, ctx, log, model, turn, updated, hattempt, hruns, hc, hf⟩
  -- without an attempt, time may move, or the simulation may end
  · rw [happenedAction_none hnone, List.nil_append]
    cases h with
    | poisoned hp => simp [hlive.unpoisoned] at hp
    | inactive _ hi => exact absurd hlive.active hi
    | rolledBack _ hb | committed _ hb =>
      rw [(attempt_iff hs).mpr ⟨hlive, hb⟩] at hnone
      cases hnone
    | limited | timeLimited =>
      exact halts hlive rfl rfl fun hl => by cases hends.mp hl
    | refused _ _ _ _ href =>
      cases href with
      | unwound | failed | invalid =>
        exact halts hlive rfl rfl fun hl => by cases hends.mp hl
    | finishRefused _ _ _ _ _ href =>
      cases href with
      | unwound | failed =>
        exact halts hlive rfl rfl fun hl => by cases hends.mp hl
    | @completed scheduler _ _ hall hnil =>
      have hworld : ({ sim.built with scheduler, phase := .completed } : Simulation M S N E).world
          = { sim.world with live := False } :=
        EventSystem.World.ext rfl rfl rfl rfl (eq_false fun hl => by cases hl.active)
      rw [hworld]
      refine .single (.finish hlive (fun duty hserves => ?_) ?_)
      · obtain ⟨hmem, hnot⟩ := (world_serves hs).mp hserves
        exact hnot (hall duty hmem)
      · ext e
        simp [mem_world, hnil]
    | quiescent _ hempty _ hnone =>
      have hworld : sim.built.world = sim.world :=
        EventSystem.World.ext rfl rfl rfl rfl
          (propext ⟨fun hl => ⟨hl.1, hl.2⟩, fun hl => ⟨hl.1, hl.2⟩⟩)
      rw [hworld]
      exact .single (.quiesce hlive (world_idle.mpr hempty)
        fun m hm => hnone m (world_upcoming.mp hm))
    | @advanced next _ hempty _ hup hmin hlt _ =>
      have hworld : ({ sim.built with
          timeline := { sim.timeline with clock := ⟨next⟩ }
          actionsAtMoment := 0 } : Simulation M S N E).world = { sim.world with now := next } :=
        EventSystem.World.ext rfl rfl rfl rfl
          (propext ⟨fun hl => ⟨hl.1, hl.2⟩, fun hl => ⟨hl.1, hl.2⟩⟩)
      rw [hworld]
      exact .single (.advance hlive (world_idle.mpr hempty)
        ⟨world_upcoming.mpr hup, fun m hm => hmin m (world_upcoming.mp hm)⟩)
  · refine h.aborts hs hattempt (committedLog_aborted hattempt hruns ha)
      (commitment_aborted hattempt hruns ha) ?_ ?_ ?_
    · rw [halt_states]
      show started.states = _
      rw [((attempt_iff hs).mp hattempt).2.frame]
    · cases ha <;> rfl
    · rw [hends]
      cases ha <;> simp [StepReturn.lifecycle]
  · exact h.acts hs hattempt hruns hc hf

/-- So does an injection. -/
theorem Executes.refines {sim sim' : Simulation M S N E} {call : Call E}
    {reply : Reply E O ME NE SE} (h : sim.Executes call reply sim') (hs : sim.Sound) :
    Steps EventSystem.Step sim.world (happened (sim, call, reply)) sim'.world := by
  have hbalanced := h.balances hs
  have hs' := h.sound hs
  cases h with
  | stepped ht => exact ht.refines hs
  | @injected _ target event _ _ hcall hi =>
    cases hi with
    | rejected => exact .refl
    | @admitted moment token timeline hlive hknown hserves _ hfuture had =>
      have hadmitted : sim.admitted call (.injected (.ok token) : Reply E O ME NE SE)
          = [(token, ⟨target, none, event⟩)] := by
        simp [admitted, hcall]
      have hhappened : happened (sim, call, (.injected (.ok token) : Reply E O ME NE SE))
          = [.post ⟨token, target, token.moment⟩] := by
        simp only [happened, hadmitted, List.map_singleton]
        rfl
      rw [hhappened]
      have hworld : ({ sim with timeline } : Simulation M S N E).world = { sim.world with
          events := insert ⟨token, target, token.moment⟩ sim.world.events
          issued := {token | timeline.Issued token.id} } := by
        refine EventSystem.World.ext (congrArg VirtualClock.now had.frame.clock) ?_ rfl rfl
          (propext ⟨fun hl => ⟨hl.1, hl.2⟩, fun hl => ⟨hl.1, hl.2⟩⟩)
        ext e
        have hpending := hbalanced.events hs
        rw [hadmitted] at hpending
        simp only [handled, cancelled, List.map_nil, List.not_mem_nil, not_false_eq_true, and_true,
          List.mem_singleton] at hpending
        simp only [mem_world, Set.mem_insert_iff, hpending]
        constructor
        · rintro ⟨p, rfl | hp, rfl⟩
          · exact .inl rfl
          · exact .inr ⟨p, hp, rfl⟩
        · rintro (rfl | ⟨p, hp, rfl⟩)
          · exact ⟨_, .inl rfl, rfl⟩
          · exact ⟨p, .inr hp, rfl⟩
      rw [hworld]
      refine .single (.post hlive ⟨?_, fun token htoken => hbalanced.issued htoken, ?_, ?_, ?_⟩)
      · rintro e he
        obtain rfl := List.mem_singleton.mp he
        exact hbalanced.fresh _ (by rw [hadmitted]; exact List.mem_singleton_self _)
      · exact List.nodup_singleton _
      · rintro e he
        obtain rfl := List.mem_singleton.mp he
        exact hfuture.trans had.moment.ge
      · rintro e he
        obtain rfl := List.mem_singleton.mp he
        exact (world_serves hs).mpr ⟨of_decide_eq_true hknown, hserves⟩

/-! ### What is ready stays ready -/

/-- The duty whose action a call attempts. -/
def attemptedDuty (l : Recorded M S N E O ME SE NE) : Option DutyId :=
  match l.2.2 with
  | .injected _ => none
  | .stepped _ => l.1.attempt.map fun attempt => attempt.2.metadata.key.duty

omit [Monitor N M O NE] in
/-- Only the duty of the attempted action acts, and only what the action cancels is dropped. -/
theorem mem_happened {l : Recorded M S N E O ME SE NE}
    {label : EventSystem.Label DutyId EventToken Moment} (h : label ∈ happened l) :
    (∀ duty, label.owner? = some duty → attemptedDuty l = some duty) ∧
      ∀ token ∈ label.dropped, token ∈ l.1.cancelled l.2.2 := by
  obtain ⟨sim, call, reply⟩ := l
  cases reply with
  | injected result =>
    cases result with
    | error => simp [happened] at h
    | ok token =>
      obtain ⟨p, -, rfl⟩ := List.mem_map.mp h
      simp [EventSystem.Label.owner?, EventSystem.Label.dropped]
  | stepped r =>
    change label ∈ ite _ _ _ at h
    split_ifs at h
    swap
    · cases h
    rcases List.mem_append.mp h with h | h
    · rw [happenedAction] at h
      rw [attemptedDuty]
      cases hattempt : sim.attempt with
      | none => simp [hattempt] at h
      | some attempt =>
        cases hcommit : sim.commitment with
        | none =>
          obtain rfl : label = _ := by simpa [hattempt, hcommit] using h
          simp [EventSystem.Label.owner?, EventSystem.Label.dropped]
        | some c =>
          obtain rfl : label = _ := by simpa [hattempt, hcommit] using h
          simp [EventSystem.Label.owner?, EventSystem.Label.dropped]
    -- what ends a step has no owner
    · cases r with
      | err | unwound =>
        obtain rfl := List.mem_singleton.mp h
        simp [EventSystem.Label.owner?, EventSystem.Label.dropped]
      | ok step =>
        cases step with
        | action => cases h
        | timeAdvanced | quiescent | completed =>
          obtain rfl := List.mem_singleton.mp h
          simp [EventSystem.Label.owner?, EventSystem.Label.dropped]

/-- What is ready stays ready until its duty acts or its event is cancelled. -/
theorem Executes.ready_kept {sim sim' : Simulation M S N E} {call : Call E}
    {reply : Reply E O ME NE SE} (h : sim.Executes call reply sim') (hs : sim.Sound)
    {duty : DutyId} {event : Option EventToken} (hready : sim.world.Ready duty event)
    (hduty : attemptedDuty (sim, call, reply) ≠ some duty)
    (hkept : ∀ token, event = some token → token ∉ sim.cancelled reply) :
    sim'.world.Ready duty event ∧ sim'.now = sim.now := by
  refine EventSystem.Steps.ready_kept (h.refines hs) hs.world hready (fun label hlabel howner => ?_)
    fun token htoken label hlabel hmem => ?_
  · exact hduty ((mem_happened hlabel).1 duty howner)
  · exact hkept token htoken ((mem_happened hlabel).2 token hmem)

/-! ### Runs -/

omit [Retained O] [Model M E O ME] [Scheduler S SE] [Monitor N M O NE] in
/-- The world that a simulation starts from: nothing is pending, and every duty wants to act. -/
theorem world_init {id : TimelineId} {now : Moment} {model : M} {topology : Topology}
    {limits : SimulationLimits} {scheduler : S} {monitor : N} {sim : Simulation M S N E}
    (h : withParts id now model topology limits scheduler monitor = .ok (.ok sim)) :
    sim.world.live ∧ sim.world.events = ∅ ∧
      ∀ duty i, sim.world.interest duty = some i ↔ duty ∈ sim.topology.duties ∧ i = .now := by
  have hs := withParts_sound h
  have heq := withParts_eq h
  refine ⟨?_, ?_, fun duty i => ?_⟩
  · rw [heq]
    exact ⟨rfl, rfl⟩
  · have hpending : sim.timeline.pending = [] := by
      rw [heq]
      rfl
    ext e
    simp [mem_world, hpending]
  · rw [world_interest, ← hs.keys]
    have hstates : ∀ state, sim.states.get? duty = some state → state.next = .now := by
      intro state hstate
      rw [heq] at hstate
      obtain ⟨_, _, heq⟩ := List.mem_map.mp (OrderedMap.mem_entries.mpr hstate)
      rw [← (Prod.mk.inj heq).2]
      rfl
    constructor
    · rintro ⟨state, hstate, rfl⟩
      rw [hstates state hstate]
      exact ⟨⟨state, hstate⟩, rfl⟩
    · rintro ⟨⟨state, hstate⟩, rfl⟩
      exact ⟨state, hstate, by rw [hstates state hstate]; rfl⟩

/-- **The kernel refines the event system**, under every scheduler, monitor and model: a run
of the kernel is a run of its world.  The ready buffer that the scheduler is offered lists what
is ready there, and whatever the scheduler chooses from it is what the next step does. -/
theorem kernel_refines {start sim : Simulation M S N E}
    {tr : List (Recorded M S N E O ME SE NE)} (hinit : (system M S N E O ME SE NE).init start)
    (hrun : Steps (system M S N E O ME SE NE).recording.step start tr sim) :
    (start.world.live ∧ start.world.events = ∅ ∧ ∀ duty i,
      start.world.interest duty = some i ↔ duty ∈ start.topology.duties ∧ i = .now) ∧
    Steps EventSystem.Step start.world (tr.flatMap happened) sim.world ∧ sim.world.WF ∧
    (∃ built, sim.buildReady = .ok (built, .ok ()) ∧
      ∀ duty event, ActionKey.of duty event ∈ built.ready ↔ sim.world.Ready duty event) ∧
    ∀ duty event scheduler, sim.world.live → sim.WithinLimits → sim.world.Ready duty event →
      Scheduler.choose sim.scheduler sim.now sim.enabled
        = (scheduler, .ok (ActionKey.of duty event)) →
      ∃ sim' r label rest, sim.exec .step = .ok (sim', (.stepped r : Reply E O ME NE SE)) ∧
        happened (sim, .step, (.stepped r : Reply E O ME NE SE)) = label :: rest ∧
        label.owner? = some duty ∧ label.event? = event := by
  have hstart : start.Sound := reachable_sound (TransitionSystem.Run.start hinit).reachable
  obtain ⟨hs, hsteps⟩ := hrun.refines (P := Sound) world happened
    (fun {u l v} hu hstep => by
      obtain ⟨_, call, reply⟩ := l
      obtain ⟨rfl, hexec⟩ := hstep
      have he := executes_of_exec hu hexec
      exact ⟨he.sound hu, he.refines hu⟩) hstart
  refine ⟨?_, hsteps, hs.world, ⟨sim.built, buildReady_eq hs, fun _ _ => world_ready.symm⟩, ?_⟩
  · obtain ⟨_, _, _, _, _, _, _, hbuild⟩ := hinit
    exact world_init hbuild
  · intro duty event scheduler hlive hw hready hchoose
    have hmem := world_ready.mp hready
    obtain ⟨sim', r, hstep, ht⟩ : ∃ sim', ∃ r : StepReturn O ME NE SE, sim.step = .ok (sim', r)
      ∧ sim.Transition r sim' := step_cases hs
    rcases ht.chooses hlive (List.ne_nil_of_mem hmem) hw with
      ⟨_, choice, hchoose', href, -⟩ | ⟨started, callback, hb⟩
    · cases hchoose.symm.trans hchoose'
      cases href with
      | invalid hnot => exact absurd hmem hnot
    · have hattempt := (attempt_iff hs).mpr ⟨hlive, hb⟩
      have hkey : ActionKey.of duty event = callback.metadata.key := by
        obtain ⟨-, heq⟩ := Prod.mk.inj (hchoose.symm.trans hb.choice)
        exact Returned.ok.inj heq
      have howner : duty = callback.metadata.key.duty := by
        rw [← hkey, ActionKey.of_duty]
      have hevent : event = callback.delivered.map Prod.fst :=
        ActionKey.of_event (howner ▸ hkey.trans hb.key)
      refine ⟨sim', r, ?_⟩
      rw [happened_stepped hlive, happenedAction]
      simp only [hattempt]
      cases hc : sim.commitment with
      | none => exact ⟨_, _, by rw [exec, hstep]; rfl, rfl, by rw [howner]; rfl, hevent.symm⟩
      | some c => exact ⟨_, _, by rw [exec, hstep]; rfl, rfl, by rw [howner]; rfl, hevent.symm⟩

/-- A callback that answers an event with another one and drops a third. -/
theorem kernel_refines_trading :
    let start : Simulation (Playback Unit Unit Empty) Fifo NoopMonitor Unit :=
      Playback.world [tradingCallback] ⟨⟩ ⟨⟩
    Steps EventSystem.Step start.world
      [.post ⟨⟨7, 0, 0⟩, 1, 0⟩, .post ⟨⟨7, 1, 5⟩, 1, 5⟩,
        .act 1 (some ⟨7, 0, 0⟩) [⟨7, 1, 5⟩] [⟨⟨7, 2, 3⟩, 1, 3⟩] .idle]
      (start.after tradingCalls).world := by
  intro start
  have hinit : (system (Playback Unit Unit Empty) Fifo NoopMonitor Unit Unit Empty Empty Empty).init
      start := ⟨_, _, _, _, _, _, _, Playback.world_built [tradingCallback] _ _⟩
  have hrun : Steps EventSystem.Step start.world ((start.history tradingCalls).flatMap happened)
      (start.after tradingCalls).world :=
    (kernel_refines hinit (recording_after start tradingCalls)).2.1
  have htrace : (start.history tradingCalls).flatMap happened = [
      .post ⟨⟨7, 0, 0⟩, 1, 0⟩, .post ⟨⟨7, 1, 5⟩, 1, 5⟩,
      .act 1 (some ⟨7, 0, 0⟩) [⟨7, 1, 5⟩] [⟨⟨7, 2, 3⟩, 1, 3⟩] .idle] := by decide +kernel
  rwa [htrace] at hrun

end Simulation

end Calandria
