/-
The ready set is exact.

In a sound simulation `build_ready` offers the scheduler one delivery for every
event that is due and one turn for every duty that is runnable, in canonical
order.  The built-in schedulers select nothing else.

* `SelectsOffered` — what the built-in schedulers have in common;
* `Executes.constants` — what no call changes, the preallocated room among it;
* `ReadyExact` — the ready set of a simulation, key by key;
* `ready_sets_exact` — all of it, for every reachable simulation.
-/
import Calandria.Replay
import Calandria.RoundRobin
import Calandria.Seeded

namespace Calandria

/-! ### The built-in schedulers -/

/-- The scheduler selects only what it is offered. -/
def SelectsOffered (S : Type) {SE : Type} [Scheduler S SE] : Prop :=
  ∀ (scheduler scheduler' : S) (now : Moment) (ready : ReadySet) (key : ActionKey),
    Scheduler.choose scheduler now ready = (scheduler', .ok key) → key ∈ ready

theorem Fifo.selectsOffered : SelectsOffered Fifo := by
  intro fifo fifo' now ready key h
  simp only [Scheduler.choose] at h
  cases hhead : ready.head? with
  | none =>
    rw [hhead] at h
    cases h
  | some action =>
    rw [hhead] at h
    cases h
    exact List.mem_of_head? hhead

theorem RoundRobin.selectsOffered : SelectsOffered RoundRobin := by
  intro self self' now ready key h
  simp only [Scheduler.choose] at h
  split at h
  · cases h
  split at h
  · cases h
  · next hfind =>
    cases h
    exact List.mem_of_find?_eq_some hfind

theorem Seeded.selectsOffered : SelectsOffered Seeded := by
  intro self self' now ready key h
  simp only [Scheduler.choose] at h
  split at h
  · cases h
  split_ifs at h
  · cases h
  · cases h
  · split at h
    · cases h
    · next hget =>
      cases h
      exact List.mem_of_getElem? hget

theorem Replay.selectsOffered : SelectsOffered Replay := by
  intro replay replay' now ready key h
  simp only [Scheduler.choose] at h
  split_ifs at h
  · cases h
  · split at h
    · cases h
    · next expected _ =>
      split_ifs at h with hmoment hcontains
      · cases h
      · cases h
      · cases h
        exact ReadySet.mem_of_contains (by simpa using hcontains)

namespace Simulation

variable {M S N E O ME SE NE : Type} [Retained E] [Retained O] [Model M E O ME]
  [Scheduler S SE] [Monitor N M O NE]

/-! ### What no call changes -/

/-- The topology and the limits with which a simulation was built. -/
structure SameLimits (sim sim' : Simulation M S N E) : Prop where
  topology : sim'.topology = sim.topology
  limits : sim'.limits = sim.limits
  timeline : sim'.timeline.limits = sim.timeline.limits

omit [Retained E] [Retained O] [Monitor N M O NE] in
theorem Begins.constants {sim started : Simulation M S N E} {callback : Callback M E O ME}
    (h : sim.Begins started callback) : sim.SameLimits started := by
  refine ⟨by rw [h.frame], by rw [h.frame], ?_⟩
  obtain ⟨key, selected, hsel, hstarts⟩ := h
  have hselected : selected.timeline.limits = sim.timeline.limits := by rw [hsel.result]
  cases hstarts with
  | turn => exact hselected
  | delivery hr => exact hr.frame.limits.trans hselected

omit [Retained E] [Retained O] [Model M E O ME] [Scheduler S SE] [Monitor N M O NE] in
theorem SameLimits.halt {sim sim' : Simulation M S N E} (h : sim.SameLimits sim')
    (r : StepReturn O ME NE SE) : sim.SameLimits (sim'.halt r) := by
  cases r <;> exact ⟨h.topology, h.limits, h.timeline⟩

theorem Transition.constants {sim sim' : Simulation M S N E} {r : StepReturn O ME NE SE}
    (h : sim.Transition r sim') : sim.SameLimits sim' := by
  cases h with
  | poisoned | inactive | limited | completed | quiescent | timeLimited | advanced =>
    exact ⟨rfl, rfl, rfl⟩
  | refused | finishRefused =>
    refine SameLimits.halt (show sim.SameLimits _ from ?_) r
    exact ⟨rfl, rfl, rfl⟩
  | @rolledBack started _ _ _ model _ timeline r _ hb _ _ hr =>
    obtain ⟨htopology, hlimits, htimeline⟩ := hb.constants
    have hkept : sim.SameLimits { started with model, timeline } :=
      ⟨htopology, hlimits, (congrArg Timeline.limits hr.result).trans htimeline⟩
    exact hkept.halt r
  | @committed started callback ctx log model turn updated r sim' _ hb hruns hc hf =>
    obtain ⟨htopology, hlimits, htimeline⟩ := hb.constants
    have hframe := hruns.transaction.frame.timeline.limits
    rw [hf.frame, hc.frame]
    exact ⟨htopology, hlimits, hframe.trans htimeline⟩

theorem Executes.constants {sim sim' : Simulation M S N E} {call : Call E}
    {reply : Reply E O ME NE SE} (h : sim.Executes call reply sim') : sim.SameLimits sim' := by
  cases h with
  | stepped ht => exact ht.constants
  | injected _ hi =>
    cases hi with
    | rejected => exact ⟨rfl, rfl, rfl⟩
    | admitted _ _ _ _ _ hadmits => exact ⟨rfl, rfl, hadmits.frame.limits⟩

/-- The timeline is bounded as the simulation is. -/
theorem reachable_timeline_limits {sim : Simulation M S N E}
    (h : (system M S N E O ME SE NE).Reachable sim) :
    sim.timeline.limits = sim.limits.timeline := by
  suffices sim.Sound ∧ sim.timeline.limits = sim.limits.timeline from this.2
  refine h.invariant (P := fun sim => sim.Sound ∧ sim.timeline.limits = sim.limits.timeline)
    (fun hinit => ?_) fun ⟨hs, heq⟩ hstep => ?_
  · obtain ⟨_, _, _, _, _, _, _, hbuild⟩ := hinit
    refine ⟨withParts_sound hbuild, ?_⟩
    rw [withParts_eq hbuild]
    rfl
  · have he := executes_of_exec hs hstep
    obtain ⟨-, hlimits, htimeline⟩ := he.constants
    exact ⟨he.sound hs, by rw [htimeline, heq, hlimits]⟩

/-! ### Key by key -/

/-- The canonical order: deliveries as they were admitted, then turns by duty. -/
def Precedes (a b : ActionKey) : Prop :=
  match a.kind, b.kind with
  | .delivery left, .delivery right => left.id < right.id
  | .delivery _, .turn => True
  | .turn, .delivery _ => False
  | .turn, .turn => a.duty < b.duty

/-- What makes a duty runnable. -/
def Interested (now : Moment) (next : Next) : Prop :=
  next = .now ∨ ∃ deadline, next = .wakeOr deadline ∧ deadline ≤ now

/-- `ready` is the ready set of a simulation. -/
structure ReadyExact (sim : Simulation M S N E) (ready : ReadySet) : Prop where
  /-- One delivery for every event that is due, and for no other. -/
  deliveries : ∀ token routed, (token, routed) ∈ sim.timeline.pending →
    ready.count (.delivery routed.target token) = if token.moment = sim.now then 1 else 0
  /-- One turn for every duty that is runnable, and for no other. -/
  turns : ∀ duty state, sim.states.get? duty = some state →
    (Interested sim.now state.next → ready.count (.turn duty) = 1) ∧
    (¬Interested sim.now state.next → ready.count (.turn duty) = 0)
  only : ∀ key ∈ ready,
    (∃ token routed, (token, routed) ∈ sim.timeline.pending ∧
      key = .delivery routed.target token) ∨
    ∃ duty state, sim.states.get? duty = some state ∧ key = .turn duty
  increasing : ready.Pairwise fun a b => a.cmp b = .lt
  ordered : ready.Pairwise Precedes
  fits : ready.length ≤ sim.topology.len + sim.timeline.pending.length
  allocated : sim.topology.len + sim.timeline.pending.length
    ≤ sim.topology.len + sim.limits.timeline.pendingEvents.get.val
  contains : ∀ key, ReadySet.contains ready key = true ↔ key ∈ ready

omit [Retained E] [Retained O] [Model M E O ME] [Scheduler S SE] [Monitor N M O NE]

theorem runnable_iff {now : Moment} {state : DutyState} :
    runnable now state = true ↔ Interested now state.next := by
  rw [runnable, Interested]
  cases state.next <;> simp [Deadline.isElapsedAt]

theorem enabled_nodup (sim : Simulation M S N E) : sim.enabled.Nodup :=
  sim.enabled_sorted.imp fun hlt => hlt.ne

theorem delivery_mem_enabled {sim : Simulation M S N E} {token : EventToken} {routed : Routed E}
    (h : (token, routed) ∈ sim.timeline.pending) :
    .delivery routed.target token ∈ sim.enabled ↔ token.moment = sim.now := by
  obtain ⟨entry, hentry, rfl⟩ := Timeline.mem_pending.mp h
  rw [mem_enabled, mem_dueDeliveries, mem_runnableTurns]
  constructor
  · rintro (⟨token', _, _, hmoment, hkey⟩ | ⟨_, _, _, _, hkey⟩)
    · simp only [ActionKey.delivery, ActionKey.mk.injEq, ActionKind.delivery.injEq] at hkey
      rw [hkey.2]
      exact hmoment
    · simp [ActionKey.delivery, ActionKey.turn] at hkey
  · exact fun hmoment => .inl ⟨token, entry, hentry, hmoment, rfl⟩

theorem turn_mem_enabled {sim : Simulation M S N E} {duty : DutyId} {state : DutyState}
    (h : sim.states.get? duty = some state) :
    .turn duty ∈ sim.enabled ↔ Interested sim.now state.next := by
  rw [mem_enabled, mem_dueDeliveries, mem_runnableTurns, ← runnable_iff]
  constructor
  · rintro (⟨_, _, _, _, hkey⟩ | ⟨duty', state', hstate, hrun, hkey⟩)
    · simp [ActionKey.delivery, ActionKey.turn] at hkey
    · simp only [ActionKey.turn, ActionKey.mk.injEq, and_true] at hkey
      rw [hkey, hstate] at h
      rw [← Option.some_inj.mp h]
      exact hrun
  · exact fun hrun => .inr ⟨duty, state, h, hrun, rfl⟩

/-- There is room for every event and every duty. -/
theorem length_enabled_le {sim : Simulation M S N E} (hkeys : ∀ {duty},
    (∃ state, sim.states.get? duty = some state) ↔ duty ∈ sim.topology.duties) :
    sim.enabled.length ≤ sim.topology.len + sim.timeline.pending.length := by
  have hdeliveries : sim.dueDeliveries.length ≤ sim.timeline.pending.length := by
    rw [dueDeliveries, Timeline.pending, List.length_map]
    refine (List.length_filterMap_le _ _).trans ?_
    rw [Timeline.tokensAt, List.length_map]
    exact List.length_filter_le _ _
  have hturns : sim.runnableTurns.length ≤ sim.topology.len := by
    have hsub : sim.states.entries.map Prod.fst ⊆ sim.topology.duties := by
      intro duty hduty
      obtain ⟨e, he, rfl⟩ := List.mem_map.mp hduty
      exact hkeys.mp ⟨e.2, OrderedMap.mem_entries.mp he⟩
    have hle := (List.subperm_of_subset sim.states.nodup_keys hsub).length_le
    rw [List.length_map] at hle
    rw [runnableTurns, List.length_map]
    exact (List.length_filter_le _ _).trans hle
  rw [enabled, (ActionKey.canonical_perm sim.keys_nodup).length_eq, List.length_append]
  omega

/-- Among events due at one moment of one timeline the earlier admitted comes first. -/
theorem delivery_lt {target target' : DutyId} {left right : EventToken}
    (htimeline : left.timeline = right.timeline) (hmoment : left.moment = right.moment)
    (hid : left.id < right.id) : ActionKey.delivery target left < .delivery target' right := by
  refine ActionKey.cmp_eq_lt.mp ?_
  simp [ActionKey.cmp, ActionKey.delivery, htimeline, hmoment, Ordering.then_eq_lt,
    compare_lt_iff_lt, hid]

theorem enabled_ordered (sim : Simulation M S N E) : sim.enabled.Pairwise Precedes := by
  refine sim.enabled_sorted.imp_of_mem fun {a b} ha hb hlt => ?_
  have hcmp := ActionKey.cmp_eq_lt.mpr hlt
  rw [mem_enabled, mem_dueDeliveries, mem_runnableTurns] at ha hb
  rcases ha with ⟨left, entry, hleft, hmoment, rfl⟩ | ⟨duty, _, _, _, rfl⟩ <;>
  rcases hb with ⟨right, entry', hright, hmoment', rfl⟩ | ⟨duty', _, _, _, rfl⟩
  · show left.id < right.id
    have htimeline : left.timeline = right.timeline :=
      (Timeline.lookup_own hleft).trans (Timeline.lookup_own hright).symm
    rcases lt_trichotomy left.id right.id with hid | hid | hid
    · exact hid
    · -- the same token twice, hence the same key
      have htoken : left = right := by
        cases left
        cases right
        simp_all
      subst htoken
      obtain rfl := Option.some_inj.mp (hleft.symm.trans hright)
      exact absurd hlt (lt_irrefl _)
    · exact absurd hlt (delivery_lt htimeline.symm (hmoment'.trans hmoment.symm) hid).asymm
  · trivial
  · simp [ActionKey.cmp, ActionKey.delivery, ActionKey.turn] at hcmp
  · show duty < duty'
    simpa [ActionKey.cmp, ActionKey.turn, compare_lt_iff_lt] using hcmp

/-- The ready set of a sound simulation is exact. -/
theorem enabled_exact [Retained E] {sim : Simulation M S N E} (hs : sim.Sound)
    (hlimits : sim.timeline.limits = sim.limits.timeline) : sim.ReadyExact sim.enabled where
  deliveries token routed hpending := by
    rw [sim.enabled_nodup.count]
    simp only [delivery_mem_enabled hpending]
  turns duty state hstate := by
    rw [sim.enabled_nodup.count, ← turn_mem_enabled hstate]
    exact ⟨fun h => if_pos h, fun h => if_neg h⟩
  only key hkey := by
    rcases mem_enabled.mp hkey with hdelivery | hturn
    · obtain ⟨token, entry, hentry, -, rfl⟩ := mem_dueDeliveries.mp hdelivery
      exact .inl ⟨token, entry.event, Timeline.mem_pending.mpr ⟨entry, hentry, rfl⟩, rfl⟩
    · obtain ⟨duty, state, hstate, -, rfl⟩ := mem_runnableTurns.mp hturn
      exact .inr ⟨duty, state, hstate, rfl⟩
  increasing := sim.enabled_sorted.imp fun hlt => ActionKey.cmp_eq_lt.mpr hlt
  ordered := sim.enabled_ordered
  fits := length_enabled_le hs.keys
  allocated := by
    have hcount := hs.wf.count
    rw [hlimits] at hcount
    rw [Timeline.pending, List.length_map]
    exact Nat.add_le_add_left hcount _
  contains _ := ReadySet.contains_iff sim.enabled_sorted

/-! ### Selections -/

/-- No call on a simulation of this kind reports an invalid selection. -/
def NeverInvalid (M S N E O ME SE NE : Type) [Retained E] [Retained O] [Model M E O ME]
    [Scheduler S SE] [Monitor N M O NE] : Prop :=
  ∀ (sim sim' : Simulation M S N E) (call : Call E) (reply : Reply E O ME NE SE),
    (system M S N E O ME SE NE).Reachable sim → sim.exec call = .ok (sim', reply) →
    ∀ key, reply ≠ .stepped (.err (.invalidSelection key))

section

variable [Retained E] [Retained O] [Model M E O ME] [Scheduler S SE] [Monitor N M O NE]

/-- A scheduler that selects what it is offered never makes an invalid selection. -/
theorem Transition.valid {sim sim' : Simulation M S N E} {r : StepReturn O ME NE SE}
    (h : sim.Transition r sim') (hselects : SelectsOffered S) (key : ActionKey) :
    r ≠ .err (.invalidSelection key) := by
  rintro rfl
  generalize hr : (.err (.invalidSelection key) : StepReturn O ME NE SE) = r at h
  cases h with
  | refused _ _ _ hchoose href =>
    cases href with
    | invalid hnot => exact hnot (hselects _ _ _ _ _ hchoose)
    | unwound | failed => cases hr
  | rolledBack _ _ _ ha => cases ha <;> cases hr
  | committed _ _ _ _ hf => cases hf <;> cases hr
  | finishRefused _ _ _ _ _ href => cases href <;> cases hr
  | poisoned | inactive | limited | completed | quiescent | timeLimited | advanced => cases hr

theorem neverInvalid (hselects : SelectsOffered S) : NeverInvalid M S N E O ME SE NE := by
  rintro sim sim' call reply hreach hexec key rfl
  cases executes_of_exec (reachable_sound hreach) hexec with
  | stepped ht => exact ht.valid hselects key rfl

end

end Simulation

open Simulation in
/-- **Ready-set exactness**: the canonical order is a strict total order; in every
reachable simulation `build_ready` computes the exact ready set, which is what the
scheduler is offered; and the built-in schedulers select from it, whatever they are
offered. -/
theorem ready_sets_exact {M N E O ME NE : Type} [Retained E] [Retained O] [Model M E O ME]
    [Monitor N M O NE] :
    (∀ a b c : ActionKey, (a.cmp b = .eq ↔ a = b) ∧ (a.cmp b = .gt ↔ b.cmp a = .lt) ∧
      (a.cmp b = .lt → b.cmp c = .lt → a.cmp c = .lt)) ∧
    (∀ (S SE : Type) [Scheduler S SE] (sim : Simulation M S N E),
      (system M S N E O ME SE NE).Reachable sim →
      ∃ ready, sim.buildReady = .ok ({ sim with ready }, .ok ()) ∧ sim.ReadyExact ready) ∧
    (SelectsOffered Fifo ∧ SelectsOffered RoundRobin ∧ SelectsOffered Seeded ∧
      SelectsOffered Replay) ∧
    NeverInvalid M Fifo N E O ME Empty NE ∧ NeverInvalid M RoundRobin N E O ME Empty NE ∧
    NeverInvalid M Seeded N E O ME SeededError NE ∧
    NeverInvalid M Replay N E O ME ReplayDivergence NE := by
  refine ⟨fun a b c => ⟨ActionKey.cmp_eq_eq, ?_, ?_⟩, fun S SE _ sim hreach => ?_,
    ⟨Fifo.selectsOffered, RoundRobin.selectsOffered, Seeded.selectsOffered,
      Replay.selectsOffered⟩,
    neverInvalid Fifo.selectsOffered, neverInvalid RoundRobin.selectsOffered,
    neverInvalid Seeded.selectsOffered, neverInvalid Replay.selectsOffered⟩
  · rw [ActionKey.cmp_eq_gt, ActionKey.cmp_eq_lt]
  · rw [ActionKey.cmp_eq_lt, ActionKey.cmp_eq_lt, ActionKey.cmp_eq_lt]
    exact lt_trans
  · have hs := reachable_sound hreach
    exact ⟨sim.enabled, buildReady_eq hs, enabled_exact hs (reachable_timeline_limits hreach)⟩

end Calandria
