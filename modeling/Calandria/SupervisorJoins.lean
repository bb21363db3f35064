/-
Who has joined whom, while a reactor group exits.

A completion waits in the channel, is held by the supervisor, or has had its join
handle taken.  So the supervisor finds every handle that it looks for, joins each
worker under its own position, and ends with a table that lacks no exit.

* `Aggregates` — the outcome of a group, from the exits of its members;
* `Own`, `Fresh` — what the steps of the group keep;
* `Inv` — where each completion is, and what has been joined;
* `Inv.next` — every step keeps it, and none reaches a panic of the supervisor.
-/
import Calandria.GroupSupervisor

namespace Calandria

namespace Supervisor

open Calandria.Group (Position)
open Reactor (Member)

variable {reactors : NonZeroUsize} {T U V D C W E P : Type}

/-! ### The outcome of a group -/

/-- The first entry that passes the test. -/
def FirstAt {α : Type} (p : α → Bool) (xs : List α) (i : ℕ) : Prop :=
  (∃ x, xs[i]? = some x ∧ p x = true) ∧ ∀ j < i, ∀ x, xs[j]? = some x → p x = false

/-- The lowest panicking member decides, then the lowest failing one, then any that was
terminated. -/
def Aggregates (members : List (MemberExit D C W P)) : ReactorGroupOutcome → Prop
  | .panicked reactor => FirstAt isPanicked members reactor.val
  | .failed reactor => (∀ exit ∈ members, isPanicked exit = false) ∧
      FirstAt isFailed members reactor.val
  | .terminated => (∀ exit ∈ members, isFatal exit = false) ∧
      ∃ exit ∈ members, isTerminated exit = true
  | .stopped => ∀ exit ∈ members, isFatal exit = false ∧ isTerminated exit = false

theorem firstAt_of_findIdx? {α : Type} {p : α → Bool} {xs : List α} {i : ℕ}
    (h : xs.findIdx? p = some i) : i < xs.length ∧ FirstAt p xs i := by
  obtain ⟨hi, hp, hbefore⟩ := List.findIdx?_eq_some_iff_getElem.mp h
  refine ⟨hi, ⟨xs[i], List.getElem?_eq_getElem hi, hp⟩, fun j hj x hx => ?_⟩
  rw [List.getElem?_eq_getElem (hj.trans hi), Option.some_inj] at hx
  rw [← hx]
  exact Bool.eq_false_iff.mpr (hbefore j hj)

theorem aggregateAt_eq (outcome : ReactorId → ReactorGroupOutcome) {position : ℕ}
    (h : position < 2 ^ 64) :
    ∃ reactor : ReactorId, reactor.val = position ∧
      aggregateAt outcome position = .ok (outcome reactor) := by
  obtain ⟨reactor, hreactor⟩ := GroupStartup.exists_fromPosition h
  exact ⟨reactor, GroupStartup.fromPosition_eq_some.mp hreactor, by rw [aggregateAt, hreactor]⟩

theorem aggregate_spec {members : List (MemberExit D C W P)} (h : members.length ≤ 2 ^ 64) :
    ∃ outcome, aggregate members = .ok outcome ∧ Aggregates members outcome := by
  rw [aggregate]
  cases hpanicked : members.findIdx? isPanicked with
  | some i =>
    obtain ⟨hi, hfirst⟩ := firstAt_of_findIdx? hpanicked
    obtain ⟨reactor, hreactor, heq⟩ := aggregateAt_eq .panicked (hi.trans_le h)
    refine ⟨_, heq, ?_⟩
    rw [Aggregates, hreactor]
    exact hfirst
  | none =>
    have hcalm := List.findIdx?_eq_none_iff.mp hpanicked
    cases hfailed : members.findIdx? isFailed with
    | some i =>
      obtain ⟨hi, hfirst⟩ := firstAt_of_findIdx? hfailed
      obtain ⟨reactor, hreactor, heq⟩ := aggregateAt_eq .failed (hi.trans_le h)
      refine ⟨_, heq, hcalm, ?_⟩
      rw [hreactor]
      exact hfirst
    | none =>
      have hwell := List.findIdx?_eq_none_iff.mp hfailed
      have hfatal : ∀ exit ∈ members, isFatal exit = false := by
        intro exit hexit
        rw [isFatal, hwell exit hexit, hcalm exit hexit]
        rfl
      simp only
      split_ifs with hterminated
      · exact ⟨_, rfl, hfatal, List.any_eq_true.mp hterminated⟩
      · refine ⟨_, rfl, fun exit hexit => ⟨hfatal exit hexit, ?_⟩⟩
        rw [Bool.eq_false_iff]
        intro hexit'
        exact hterminated (List.any_eq_true.mpr ⟨exit, hexit, hexit'⟩)

theorem collect_eq {exits : Position reactors → Option (MemberExit D C W P)}
    {f : Position reactors → MemberExit D C W P} (h : ∀ k, exits k = some (f k))
    (positions : List (Position reactors)) : collect exits positions = .ok (positions.map f) := by
  induction positions with
  | nil => rfl
  | cons k positions ih => rw [collect, h k, ih, List.map_cons]

/-- A full table is concluded to its entries in their order. -/
theorem conclude_eq {exits : Position reactors → Option (MemberExit D C W P)}
    {f : Position reactors → MemberExit D C W P} (h : ∀ k, exits k = some (f k)) :
    ∃ outcome, conclude exits = .ok ⟨outcome, List.ofFn f⟩ ∧ Aggregates (List.ofFn f) outcome := by
  have hlength : (List.ofFn f).length ≤ 2 ^ 64 := by
    rw [List.length_ofFn]
    exact reactors.get.isLt.le
  obtain ⟨outcome, houtcome, haggregates⟩ := aggregate_spec hlength
  refine ⟨outcome, ?_, haggregates⟩
  rw [conclude, collect_eq h, ← List.ofFn_eq_map]
  simp only [houtcome]

/-! ### Steps of the group -/

section

variable {g g' : GroupTermination.State reactors T U V D C W E}
  {l : GroupTermination.Label reactors T U V D C W E}

/-- The member is done with its reactor, and has this exit. -/
def Own (g : GroupTermination.State reactors T U V D C W E) (k : Position reactors)
    (exit : MemberExit D C W P) : Prop :=
  ∃ payload, memberExit (g.members k) payload = some exit

theorem memberExit_step {m m' : Member D C W} {event : Reactor.Event D C W}
    (hstep : Member.Step m event m') (payload : P) : memberExit m payload = none := by
  have hnone : (∀ outcome, m.pc ≠ .dropped outcome) → memberExit m payload = none := by
    intro hpc
    rw [memberExit]
    cases hm : m.pc with
    | dropped outcome => exact absurd hm (hpc outcome)
    | _ => rfl
  refine hnone fun outcome hdropped => ?_
  cases hstep with
  | panic hcalling =>
    rw [hdropped] at hcalling
    cases hcalling
  | check hpc | terminate hpc | start hpc | startFails hpc | beginTurn hpc | endTurn hpc
  | turnFails hpc | complete hpc | completeFails hpc | stop hpc | recheck hpc | beginWait hpc
  | endWait hpc | waitFails hpc | fail hpc | drop hpc | dropUnwound hpc =>
    rw [hdropped] at hpc
    cases hpc

/-- A member that is done is only published to. -/
theorem Own.next {k : Position reactors} {exit : MemberExit D C W P} (h : Own g k exit)
    (hstep : GroupTermination.Step g l g') : Own g' k exit := by
  obtain ⟨payload, hexit⟩ := h
  refine ⟨payload, ?_⟩
  rcases hstep.member_cases k with ⟨event, -, hm⟩ | ⟨-, hsame | hpublish⟩
  · rw [memberExit_step hm payload] at hexit
    cases hexit
  · rwa [hsame]
  · rw [hpublish]
    exact hexit

/-- A worker with a fatal exit may ask for the termination of the group. -/
theorem Own.mayCall {k : Position reactors} {exit : MemberExit D C W P} (h : Own g k exit)
    (hfatal : isFatal exit = true) : g.mayCall (.worker k) := by
  obtain ⟨payload, hexit⟩ := h
  rw [memberExit] at hexit
  cases hpc : (g.members k).pc with
  | dropped outcome =>
    rw [hpc] at hexit
    refine ⟨outcome, hpc, ?_⟩
    cases outcome with
    | none => rfl
    | some outcome =>
      cases hexit
      cases outcome with
      | failed failure => rfl
      | stopped | terminated => cases hfatal
  | _ =>
    rw [hpc] at hexit
    cases hexit

/-- What a step does to one caller. -/
theorem caller_cases (hstep : GroupTermination.Step g l g')
    (i : GroupTermination.Caller reactors) :
    g'.callers i = g.callers i ∨ ∃ event, l = .caller i event ∧
      (g.callers i = none → event = .close) ∧ g.callers i ≠ some .panicked ∧
      g'.callers i ≠ none := by
  have hset : ∀ {j pc event}, g'.callers = Function.update g.callers j (some pc) →
      l = .caller j event → (g.callers j = none → event = .close) →
      g.callers j ≠ some .panicked → g'.callers i = g.callers i ∨ ∃ event, l = .caller i event ∧
        (g.callers i = none → event = .close) ∧ g.callers i ≠ some .panicked ∧
        g'.callers i ≠ none := by
    intro j pc event hcallers hl hclose hpanicked
    by_cases hi : i = j
    · subst hi
      refine .inr ⟨event, hl, hclose, hpanicked, ?_⟩
      rw [hcallers, Function.update_self]
      exact nofun
    · rw [hcallers]
      exact .inl (Function.update_of_ne hi ..)
  cases hstep with
  | admission | member => exact .inl rfl
  | close hnone => exact hset rfl rfl (fun _ => rfl) (by rw [hnone]; exact nofun)
  | closed hi | publish hi | published hi | complete _ hi | panic hi | returned hi =>
    exact hset rfl rfl (by rw [hi]; exact nofun) (by rw [hi]; exact nofun)

theorem caller_none (hstep : GroupTermination.Step g l g') {i : GroupTermination.Caller reactors}
    (hnone : g.callers i = none) (hl : l ≠ .caller i .close) : g'.callers i = none := by
  rcases caller_cases hstep i with hsame | ⟨event, rfl, hclose, -⟩
  · rw [hsame, hnone]
  · rw [hclose hnone] at hl
    exact absurd rfl hl

theorem caller_some (hstep : GroupTermination.Step g l g') {i : GroupTermination.Caller reactors}
    (hsome : g.callers i ≠ none) : g'.callers i ≠ none := by
  rcases caller_cases hstep i with hsame | ⟨-, -, -, -, hsome'⟩
  · rwa [hsame]
  · exact hsome'

theorem caller_panicked (hstep : GroupTermination.Step g l g')
    {i : GroupTermination.Caller reactors} (hpanicked : g.callers i = some .panicked) :
    g'.callers i = some .panicked := by
  rcases caller_cases hstep i with hsame | ⟨-, -, -, hne, -⟩
  · rw [hsame, hpanicked]
  · exact absurd hpanicked hne

/-- A step moves at most one closer; its own, or a new one. -/
theorem closers_cases (hstep : GroupTermination.Step g l g') :
    g'.admission.closers = g.admission.closers ∨
    ∃ c pc, g'.admission.closers = Function.update g.admission.closers c (some pc) ∧
      ((∃ event, l = .admission (.close c event)) ∨ g.admission.closers c = none) := by
  cases hstep with
  | admission hadmission =>
    cases hadmission with
    | store | barrier | pass | closed => exact .inr ⟨_, _, rfl, .inl ⟨_, rfl⟩⟩
    | check | send | returned | receive => exact .inl rfl
  | close _ _ hadmission =>
    cases hadmission with
    | store hnone => exact .inr ⟨_, _, rfl, .inr hnone⟩
  | _ => exact .inl rfl

/-- Nobody moves the closer of another. -/
theorem closer_stays (hstep : GroupTermination.Step g l g') {c : ℕ} {pc : Group.ClosePc reactors}
    (hc : g.admission.closers c = some pc) (hl : ∀ event, l ≠ .admission (.close c event)) :
    g'.admission.closers c = some pc := by
  rcases closers_cases hstep with hsame | ⟨d, pc', hclosers, hd⟩
  · rw [hsame, hc]
  · rw [hclosers]
    refine update_eq_some.mpr (.inr ⟨?_, hc⟩)
    rintro rfl
    rcases hd with ⟨event, rfl⟩ | hnone
    · exact hl event rfl
    · rw [hc] at hnone
      cases hnone

/-- Another closer can begin. -/
def Fresh (g : GroupTermination.State reactors T U V D C W E) : Prop :=
  ∃ bound, ∀ c, bound ≤ c → g.admission.closers c = none

theorem Fresh.next (h : Fresh g) (hstep : GroupTermination.Step g l g') : Fresh g' := by
  obtain ⟨bound, hbound⟩ := h
  rcases closers_cases hstep with hsame | ⟨d, pc, hclosers, -⟩
  · rw [Fresh, hsame]
    exact ⟨bound, hbound⟩
  · refine ⟨max bound (d + 1), fun c hc => ?_⟩
    have hcd : c ≠ d := by
      rintro rfl
      omega
    rw [hclosers, Function.update_of_ne hcd]
    exact hbound c (by omega)

end

/-! ### What a place says -/

/-- The worker has sent its completion. -/
def published : WorkerPc D C W P → Bool
  | .dropping _ | .finished _ => true
  | _ => false

/-- The identity that the supervisor has received and not taken. -/
def SupervisorPc.held : SupervisorPc reactors D C W P → Option ReactorId
  | .taking _ id => some id
  | _ => none

/-- What a thread returns is its member's exit, unless it has unwound while it asked for the
termination of the group. -/
def ResultFits (g : GroupTermination.State reactors T U V D C W E) (k : Position reactors) :
    ThreadResult D C W P → Prop
  | .ok (.finished exit) => Own g k exit
  | .ok .aborted => False
  | .error _ => g.callers (.worker k) = some .panicked ∧
      ∃ exit : MemberExit D C W P, Own g k exit ∧ isFatal exit = true

/-- What the place of a worker says of the group. -/
def WorkerFits (g : GroupTermination.State reactors T U V D C W E) (k : Position reactors) :
    WorkerPc D C W P → Prop
  | .waiting | .running => g.callers (.worker k) = none
  | .classifying exit => Own g k exit ∧ g.callers (.worker k) = none
  | .terminating exit => Own g k exit ∧ isFatal exit = true ∧ g.callers (.worker k) ≠ none
  | .publishing result | .dropping result | .finished result => ResultFits g k result

/-- The worker has been joined, and its exit is in its place. -/
def Settled (s : State reactors T U V D C W E P) (k : Position reactors) : Prop :=
  ∃ result exit, s.workers k = .finished result ∧ settle result = .ok exit ∧
    s.exits k = some exit

/-- The supervisor has taken this many join handles. -/
def Taken (s : State reactors T U V D C W E P) (round : ℕ) : Prop :=
  tally Option.isNone s.handles = round

/-- The supervisor's closer has come no further than the last shard. -/
def Within : Group.ClosePc reactors → Prop
  | .locking next => next ≤ reactors.get.val
  | .unlocking _ | .returned => True

/-- What the place of the supervisor says. -/
def SupervisorFits (s : State reactors T U V D C W E P) : SupervisorPc reactors D C W P → Prop
  | .receiving round => Taken s round ∧ ∀ k, s.handles k = none → Settled s k
  | .taking round id => Taken s round ∧ (∀ k, s.handles k = none → Settled s k) ∧
      ∃ k, id = reactorId k ∧ published (s.workers k) = true ∧ s.handles k ≠ none
  | .joining round slot worker => Taken s (round + 1) ∧ worker = slot ∧
      (∀ k, k ≠ slot → s.handles k = none → Settled s k) ∧ s.handles slot = none ∧
      s.exits slot = none ∧ published (s.workers slot) = true
  | .closing c => (∀ k, Settled s k) ∧ ∃ pc, s.group.admission.closers c = some pc ∧ Within pc
  | .collecting => (∀ k, Settled s k) ∧ ∃ c, s.group.admission.closers c = some .returned
  | .finished supervised => (∀ k, Settled s k) ∧
      (∃ c, s.group.admission.closers c = some .returned) ∧ conclude s.exits = .ok supervised
  | .panicked _ => False

/-- The completion of the worker is in the channel. -/
def Queued (s : State reactors T U V D C W E P) (k : Position reactors) : Prop :=
  published (s.workers k) = true ∧ s.handles k ≠ none ∧ s.supervisor.held ≠ some (reactorId k)

structure Inv (s : State reactors T U V D C W E P) : Prop where
  group : GroupTermination.Inv s.group
  fresh : Fresh s.group
  started : s.decision = .start
  worker : ∀ k, WorkerFits s.group k (s.workers k)
  handles : ∀ {k worker}, s.handles k = some worker → worker = k
  unjoined : ∀ {k}, s.handles k ≠ none → s.exits k = none
  nodup : s.completions.Nodup
  queued : ∀ id, id ∈ s.completions ↔ ∃ k, id = reactorId k ∧ Queued s k
  supervisor : SupervisorFits s s.supervisor

theorem reactorId_injective : Function.Injective (reactorId : Position reactors → ReactorId) := by
  intro k k' h
  have hval := congrArg (fun id : ReactorId => id.val) h
  exact Fin.ext hval

theorem position_reactorId (k : Position reactors) : position (reactorId k) = some k.val :=
  if_pos (lt_trans k.isLt reactors.get.isLt)

theorem initial_inv {s : State reactors T U V D C W E P}
    (h : (system reactors T U V D C W E P).init s) : Inv s := by
  obtain ⟨hgroup, hstart, hworkers, hcompletions, hhandles, hexits, hsupervisor⟩ := h
  obtain ⟨⟨-, -, hclosers, -⟩, -, hcallers⟩ := id hgroup
  refine ⟨GroupTermination.reachable_inv ⟨_, .start hgroup⟩, ⟨0, fun c _ => hclosers c⟩, hstart,
    fun k => ?_, fun {k worker} hk => ?_, fun _ => hexits _, ?_, fun id => ?_, ?_⟩
  · rw [hworkers k]
    exact hcallers _
  · rw [hhandles k] at hk
    exact (Option.some_inj.mp hk).symm
  · rw [hcompletions]
    exact List.nodup_nil
  · rw [hcompletions]
    refine iff_of_false List.not_mem_nil ?_
    rintro ⟨k, -, hpublished, -⟩
    rw [hworkers k] at hpublished
    cases hpublished
  · have hall : ∀ k, s.handles k ≠ none := fun k => by
      rw [hhandles k]
      exact nofun
    rw [hsupervisor]
    refine ⟨?_, fun k hk => absurd hk (hall k)⟩
    rw [Taken, show s.handles = fun k => some k from funext hhandles, tally]
    simp

variable {s s' : State reactors T U V D C W E P} {l : Label reactors T U V D C W E P}

theorem Inv.fits (h : Inv s) {pc : SupervisorPc reactors D C W P} (hpc : s.supervisor = pc) :
    SupervisorFits s pc :=
  hpc ▸ h.supervisor

theorem Inv.workerFits (h : Inv s) {k : Position reactors} {pc : WorkerPc D C W P}
    (hk : s.workers k = pc) : WorkerFits s.group k pc :=
  hk ▸ h.worker k

/-! ### The workers -/

section

variable {g g' : GroupTermination.State reactors T U V D C W E}
  {label : GroupTermination.Label reactors T U V D C W E} {k : Position reactors}

theorem ResultFits.next {result : ThreadResult D C W P} (h : ResultFits g k result)
    (hstep : GroupTermination.Step g label g') : ResultFits g' k result := by
  cases result with
  | error payload =>
    obtain ⟨hpanicked, exit, hown, hfatal⟩ := h
    exact ⟨caller_panicked hstep hpanicked, exit, hown.next hstep, hfatal⟩
  | ok result =>
    cases result with
    | finished exit => exact Own.next h hstep
    | aborted => exact h

theorem WorkerFits.next {pc : WorkerPc D C W P} (h : WorkerFits g k pc)
    (hstep : GroupTermination.Step g label g') (hl : label ≠ .caller (.worker k) .close) :
    WorkerFits g' k pc := by
  cases pc with
  | waiting | running => exact caller_none hstep h hl
  | classifying exit => exact ⟨h.1.next hstep, caller_none hstep h.2 hl⟩
  | terminating exit =>
    obtain ⟨hown, hfatal, hsome⟩ := h
    exact ⟨hown.next hstep, hfatal, caller_some hstep hsome⟩
  | publishing result | dropping result | finished result => exact ResultFits.next h hstep

theorem workerFits_update {workers : Position reactors → WorkerPc D C W P}
    {pc : WorkerPc D C W P} (h : ∀ k', k' ≠ k → WorkerFits g k' (workers k'))
    (hpc : WorkerFits g k pc) (k' : Position reactors) :
    WorkerFits g k' (Function.update workers k pc k') := by
  by_cases hk : k' = k
  · subst hk
    rwa [Function.update_self]
  · rw [Function.update_of_ne hk]
    exact h k' hk

end

theorem Inv.next_worker (h : Inv s) (hstep : Step s l s') (k : Position reactors) :
    WorkerFits s'.group k (s'.workers k) := by
  have hset : ∀ {k₀ pc}, WorkerFits s.group k₀ pc →
      WorkerFits s.group k (Function.update s.workers k₀ pc k) := fun hpc =>
    workerFits_update (fun k' _ => h.worker k') hpc k
  cases hstep with
  | group hgroup hfree =>
    refine (h.worker k).next hgroup ?_
    rintro rfl
    exact hfree
  | @pass k₀ hk =>
    have hfits := h.workerFits hk
    refine hset ?_
    rw [if_neg (by rw [h.started]; exact nofun)]
    exact hfits
  | @exit k₀ exit payload hk hexit =>
    have hclassified : WorkerFits s.group k₀ (.classifying exit) :=
      ⟨⟨payload, hexit⟩, h.workerFits hk⟩
    exact hset hclassified
  | calm hk =>
    obtain ⟨hown, -⟩ := h.workerFits hk
    refine hset ?_
    exact hown
  | @fatal k₀ exit group hk hfatal hgroup =>
    refine workerFits_update (fun k' hne => (h.worker k').next hgroup ?_) ?_ k
    · intro hl
      cases hl
      exact hne rfl
    · -- the store begins the call
      refine ⟨(h.workerFits hk).1.next hgroup, hfatal, ?_⟩
      cases hgroup with
      | close =>
        show Function.update s.group.callers (.worker k₀) _ (.worker k₀) ≠ none
        rw [Function.update_self]
        exact nofun
  | terminated hk =>
    obtain ⟨hown, -⟩ := h.workerFits hk
    refine hset ?_
    exact hown
  | @unwind k₀ exit payload hk hpanicked =>
    obtain ⟨hown, hfatal, -⟩ := h.workerFits hk
    have hunwound : WorkerFits s.group k₀ (.publishing (.error payload)) :=
      ⟨hpanicked, exit, hown, hfatal⟩
    exact hset hunwound
  | publish hk | publishClosed hk | drop hk =>
    have hfits := h.workerFits hk
    refine hset ?_
    exact hfits
  | store _ hgroup | close _ hgroup => exact (h.worker k).next hgroup nofun
  | _ => exact h.worker k

/-! ### What the supervisor finds as it has left it -/

/-- What a step of another party leaves to the supervisor. -/
structure Frame (s s' : State reactors T U V D C W E P) : Prop where
  supervisor : s'.supervisor = s.supervisor
  handles : s'.handles = s.handles
  exits : s'.exits = s.exits
  finished : ∀ {k result}, s.workers k = .finished result → s'.workers k = .finished result
  published : ∀ {k}, published (s.workers k) = true → published (s'.workers k) = true
  closer : ∀ {c pc}, s.supervisor = .closing c → s.group.admission.closers c = some pc →
    s'.group.admission.closers c = some pc
  returned : ∀ {c}, s.group.admission.closers c = some .returned →
    s'.group.admission.closers c = some .returned

theorem Frame.trans {s'' : State reactors T U V D C W E P} (h : Frame s s') (h' : Frame s' s'') :
    Frame s s'' where
  supervisor := h'.supervisor.trans h.supervisor
  handles := h'.handles.trans h.handles
  exits := h'.exits.trans h.exits
  finished hk := h'.finished (h.finished hk)
  published hk := h'.published (h.published hk)
  closer hpc hc := h'.closer (h.supervisor.trans hpc) (h.closer hpc hc)
  returned hc := h'.returned (h.returned hc)

theorem frame_group {label : GroupTermination.Label reactors T U V D C W E}
    {group : GroupTermination.State reactors T U V D C W E}
    (hgroup : GroupTermination.Step s.group label group)
    (hl : ∀ c event, s.supervisor = .closing c → label ≠ .admission (.close c event)) :
    Frame s { s with group } where
  supervisor := rfl
  handles := rfl
  exits := rfl
  finished hk := hk
  published hk := hk
  closer hpc hc := closer_stays hgroup hc fun event => hl _ event hpc
  returned hc := hgroup.stays_returned hc

theorem frame_setWorker {k : Position reactors} {pc pc' : WorkerPc D C W P}
    (hk : s.workers k = pc) (hfinished : ∀ result, pc ≠ .finished result)
    (hpublished : published pc = true → published pc' = true) :
    Frame s (s.setWorker k pc') where
  supervisor := rfl
  handles := rfl
  exits := rfl
  finished {k' result} hk' := by
    have hne : k' ≠ k := by
      rintro rfl
      exact hfinished result (hk.symm.trans hk')
    exact (Function.update_of_ne hne ..).trans hk'
  published {k'} hk' := by
    show published (Function.update s.workers k pc' k') = true
    by_cases hkk : k' = k
    · subst hkk
      rw [Function.update_self]
      rw [hk] at hk'
      exact hpublished hk'
    · rwa [Function.update_of_ne hkk]
  closer _ hc := hc
  returned hc := hc

/-- A step of the supervisor. -/
def Label.supervises : Label reactors T U V D C W E P → Bool
  | .supervisor _ => true
  | .group _ | .worker _ _ => false

theorem Step.frame (hstep : Step s l s') (hl : l.supervises = false) : Frame s s' := by
  cases hstep with
  | group hgroup hfree =>
    refine frame_group hgroup fun c event hpc => ?_
    rintro rfl
    exact hfree.2 hpc
  | @fatal k exit group hk _ hgroup =>
    refine (frame_group hgroup fun _ _ _ => nofun).trans ?_
    refine frame_setWorker (s := { s with group }) hk ?_ (absurd · Bool.false_ne_true)
    intro result hresult
    cases hresult
  | pass hk | exit _ hk | calm hk | terminated hk | unwind _ hk | publishClosed hk =>
    refine frame_setWorker hk ?_ (absurd · Bool.false_ne_true)
    intro result hresult
    cases hresult
  | @publish k result hk =>
    have hsent : Frame s { s with completions := s.completions ++ [reactorId k] } :=
      ⟨rfl, rfl, rfl, id, id, fun _ => id, id⟩
    refine hsent.trans (frame_setWorker hk ?_ (absurd · Bool.false_ne_true))
    intro result' hresult
    cases hresult
  | drop hk =>
    refine frame_setWorker hk ?_ fun _ => rfl
    intro result hresult
    cases hresult
  | receive | closedEarly | unrepresentable | take | duplicate | join | joinFails | store | close
  | closed | collect | collectFails =>
    cases hl

theorem Settled.frame {k : Position reactors} (h : Settled s k) (hframe : Frame s s') :
    Settled s' k := by
  obtain ⟨result, exit, hk, hsettle, hexit⟩ := h
  exact ⟨result, exit, hframe.finished hk, hsettle, by rw [hframe.exits, hexit]⟩

theorem Inv.supervisor_frame (h : Inv s) (hframe : Frame s s') :
    SupervisorFits s' s'.supervisor := by
  have hfits := h.supervisor
  rw [hframe.supervisor]
  have htaken : ∀ {round}, Taken s round → Taken s' round := by
    intro round htaken
    rwa [Taken, hframe.handles]
  have hjoined : (∀ k, s.handles k = none → Settled s k) →
      ∀ k, s'.handles k = none → Settled s' k := by
    intro hjoined k hk
    rw [hframe.handles] at hk
    exact (hjoined k hk).frame hframe
  cases hpc : s.supervisor with
  | receiving round =>
    rw [hpc] at hfits
    exact ⟨htaken hfits.1, hjoined hfits.2⟩
  | taking round id =>
    rw [hpc] at hfits
    obtain ⟨hround, hsettled, k, hid, hpublished, hk⟩ := hfits
    refine ⟨htaken hround, hjoined hsettled, k, hid, hframe.published hpublished, ?_⟩
    rwa [hframe.handles]
  | joining round slot worker =>
    rw [hpc] at hfits
    obtain ⟨hround, hworker, hsettled, hslot, hexit, hpublished⟩ := hfits
    refine ⟨htaken hround, hworker, fun k hne hk => ?_, ?_, ?_, hframe.published hpublished⟩
    · rw [hframe.handles] at hk
      exact (hsettled k hne hk).frame hframe
    · rw [hframe.handles, hslot]
    · rw [hframe.exits, hexit]
  | closing c =>
    rw [hpc] at hfits
    obtain ⟨hsettled, pc, hc, hwithin⟩ := hfits
    exact ⟨fun k => (hsettled k).frame hframe, pc, hframe.closer hpc hc, hwithin⟩
  | collecting =>
    rw [hpc] at hfits
    obtain ⟨hsettled, c, hc⟩ := hfits
    exact ⟨fun k => (hsettled k).frame hframe, c, hframe.returned hc⟩
  | finished supervised =>
    rw [hpc] at hfits
    obtain ⟨hsettled, ⟨c, hc⟩, hconclude⟩ := hfits
    exact ⟨fun k => (hsettled k).frame hframe, ⟨c, hframe.returned hc⟩, by rwa [hframe.exits]⟩
  | panicked panic =>
    rw [hpc] at hfits
    exact hfits

/-! ### The rounds of the supervisor -/

/-- While rounds remain, so do join handles. -/
theorem Taken.exists_handle {round : ℕ} (h : Taken s round) (hround : round < reactors.get.val) :
    ∃ k, s.handles k ≠ none := by
  by_contra hnone
  have hall : ∀ k, (s.handles k).isNone = true := by
    intro k
    rw [Option.isNone_iff_eq_none]
    by_contra hk
    exact hnone ⟨k, hk⟩
  have htally := (tally_eq_iff Option.isNone s.handles).mpr hall
  rw [Taken] at h
  omega

/-- After the last round none is left. -/
theorem Taken.all (h : Taken s reactors.get.val) (k : Position reactors) : s.handles k = none :=
  Option.isNone_iff_eq_none.mp ((tally_eq_iff Option.isNone s.handles).mp h k)

theorem Taken.next {round : ℕ} (h : Taken s round) {k : Position reactors}
    (hk : s.handles k ≠ none) {s' : State reactors T U V D C W E P}
    (hhandles : s'.handles = Function.update s.handles k none) : Taken s' (round + 1) := by
  have hupdate := tally_update Option.isNone s.handles k none
  rw [if_neg (by rwa [Option.isNone_iff_eq_none]), if_pos (show none.isNone = true from rfl)]
    at hupdate
  rw [Taken] at h
  rw [Taken, hhandles]
  omega

theorem closer_within {g g' : GroupTermination.State reactors T U V D C W E} {c : ℕ}
    {event : Group.CloseEvent reactors}
    (hstep : GroupTermination.Step g (.admission (.close c event)) g') :
    ∃ pc, g'.admission.closers c = some pc ∧ Within pc := by
  cases hstep with
  | admission hadmission =>
    cases hadmission with
    | store => exact ⟨_, Function.update_self .., Nat.zero_le _⟩
    | barrier | closed => exact ⟨_, Function.update_self .., trivial⟩
    | @pass _ k => exact ⟨_, Function.update_self .., k.isLt⟩

theorem ResultFits.settle {g : GroupTermination.State reactors T U V D C W E}
    {k : Position reactors} {result : ThreadResult D C W P} (h : ResultFits g k result) :
    ∃ exit, settle result = .ok exit := by
  cases result with
  | error payload => exact ⟨_, rfl⟩
  | ok result =>
    cases result with
    | finished exit => exact ⟨_, rfl⟩
    | aborted => exact absurd h id

/-- What the supervisor has once every worker is joined. -/
theorem exists_conclude (h : ∀ k, Settled s k) : ∃ f outcome, (∀ k, s.exits k = some (f k)) ∧
    conclude s.exits = .ok ⟨outcome, List.ofFn f⟩ ∧ Aggregates (List.ofFn f) outcome := by
  choose results f hk hsettle hexit using h
  obtain ⟨outcome, hconclude, haggregates⟩ := conclude_eq hexit
  exact ⟨f, outcome, hexit, hconclude, haggregates⟩

theorem Inv.next_supervisor (h : Inv s) (hstep : Step s l s') :
    SupervisorFits s' s'.supervisor := by
  have hother : l.supervises = false → SupervisorFits s' s'.supervisor := fun hl =>
    h.supervisor_frame (hstep.frame hl)
  cases hstep with
  | group | pass | exit | calm | fatal | terminated | unwind | publish | publishClosed | drop =>
    exact hother rfl
  | @receive round id rest hpc hround hcompletions =>
    obtain ⟨htaken, hsettled⟩ := h.fits hpc
    have hmem : id ∈ s.completions := by
      rw [hcompletions]
      exact List.mem_cons_self
    obtain ⟨k, hid, hpublished, hk, -⟩ := (h.queued id).mp hmem
    exact ⟨htaken, hsettled, k, hid, hpublished, hk⟩
  | closedEarly hpc hround hempty hfinished =>
    -- a worker that is not joined has left its completion in the channel
    obtain ⟨htaken, -⟩ := h.fits hpc
    obtain ⟨k, hk⟩ := htaken.exists_handle hround
    obtain ⟨result, hresult⟩ := hfinished k
    have hqueued : Queued s k := by
      refine ⟨?_, hk, ?_⟩
      · rw [hresult]
        rfl
      · rw [hpc]
        exact nofun
    have hmem := (h.queued _).mpr ⟨k, rfl, hqueued⟩
    rw [hempty] at hmem
    exact absurd hmem List.not_mem_nil
  | unrepresentable hpc hposition =>
    obtain ⟨-, -, k, rfl, -⟩ := h.fits hpc
    rw [position_reactorId] at hposition
    cases hposition
  | @take round id k worker hpc hposition hk =>
    obtain ⟨htaken, hsettled, k', rfl, hpublished, hne⟩ := h.fits hpc
    rw [position_reactorId, Option.some_inj] at hposition
    obtain rfl : k' = k := Fin.ext hposition
    refine ⟨htaken.next hne rfl, h.handles hk, fun j hj hnone => hsettled j ?_,
      Function.update_self .., h.unjoined hne, hpublished⟩
    exact (Function.update_of_ne hj ..).symm.trans hnone
  | duplicate hpc hposition hnone =>
    obtain ⟨-, -, k, rfl, -, hk⟩ := h.fits hpc
    rw [position_reactorId, Option.some_inj] at hposition
    exact absurd (hnone k hposition) hk
  | @join round slot worker result exit hpc hfinished hsettle =>
    obtain ⟨htaken, rfl, hsettled, hslot, -⟩ := h.fits hpc
    refine ⟨htaken, fun k hk => ?_⟩
    by_cases hkslot : k = worker
    · subst hkslot
      exact ⟨result, exit, hfinished, hsettle, Function.update_self ..⟩
    · obtain ⟨result', exit', hk', hsettle', hexit'⟩ := hsettled k hkslot hk
      exact ⟨result', exit', hk', hsettle', (Function.update_of_ne hkslot ..).trans hexit'⟩
  | joinFails hpc hfinished hsettle =>
    obtain ⟨exit, hexit⟩ := ResultFits.settle (h.workerFits hfinished)
    rw [hexit] at hsettle
    cases hsettle
  | store hpc hgroup =>
    obtain ⟨htaken, hsettled⟩ := h.fits hpc
    exact ⟨fun k => hsettled k (htaken.all k), closer_within hgroup⟩
  | close hpc hgroup =>
    obtain ⟨hsettled, -⟩ := h.fits hpc
    show SupervisorFits _ s.supervisor
    rw [hpc]
    exact ⟨hsettled, closer_within hgroup⟩
  | closed hpc hreturned =>
    obtain ⟨hsettled, -⟩ := h.fits hpc
    exact ⟨hsettled, _, hreturned⟩
  | collect hpc hconclude =>
    obtain ⟨hsettled, hreturned⟩ := h.fits hpc
    exact ⟨hsettled, hreturned, hconclude⟩
  | collectFails hpc hconclude =>
    obtain ⟨hsettled, -⟩ := h.fits hpc
    obtain ⟨f, outcome, -, hok, -⟩ := exists_conclude hsettled
    rw [hok] at hconclude
    cases hconclude

/-! ### The channel -/

/-- The channel holds just the completions that the supervisor has not received. -/
def Holds (s : State reactors T U V D C W E P) : Prop :=
  s.completions.Nodup ∧ ∀ id, id ∈ s.completions ↔ ∃ k, id = reactorId k ∧ Queued s k

theorem Inv.holds_same (h : Inv s) (hcompletions : s'.completions = s.completions)
    (hqueued : ∀ k, Queued s' k ↔ Queued s k) : Holds s' := by
  refine ⟨?_, fun id => ?_⟩
  · rw [hcompletions]
    exact h.nodup
  · rw [hcompletions, h.queued id]
    simp only [hqueued]

theorem published_update {k : Position reactors} {pc pc' : WorkerPc D C W P}
    (hk : s.workers k = pc) (hsame : published pc' = published pc) (k' : Position reactors) :
    published (Function.update s.workers k pc' k') = published (s.workers k') := by
  by_cases hkk : k' = k
  · subst hkk
    rw [Function.update_self, hk, hsame]
  · rw [Function.update_of_ne hkk]

theorem queued_update {k : Position reactors} {pc pc' : WorkerPc D C W P}
    (hk : s.workers k = pc) (hsame : published pc' = published pc) (k' : Position reactors) :
    Queued (s.setWorker k pc') k' ↔ Queued s k' := by
  have hpublished := published_update hk hsame k'
  rw [Queued, Queued, State.setWorker, hpublished]

theorem Settled.published {k : Position reactors} (h : Settled s k) :
    published (s.workers k) = true := by
  obtain ⟨result, exit, hk, -⟩ := h
  rw [hk]
  rfl

/-- The supervisor knows nothing of a worker that has not published. -/
theorem Inv.unpublished (h : Inv s) {k : Position reactors}
    (hk : published (s.workers k) = false) :
    s.handles k ≠ none ∧ s.supervisor.held ≠ some (reactorId k) := by
  have hsettled : ¬ Settled s k := by
    intro hsettled
    rw [hsettled.published] at hk
    cases hk
  have hfits := h.supervisor
  cases hpc : s.supervisor with
  | receiving round =>
    rw [hpc] at hfits
    exact ⟨fun hnone => hsettled (hfits.2 k hnone), nofun⟩
  | taking round id =>
    rw [hpc] at hfits
    obtain ⟨-, hjoined, k', rfl, hpublished, -⟩ := hfits
    refine ⟨fun hnone => hsettled (hjoined k hnone), fun hheld => ?_⟩
    obtain rfl : k' = k := reactorId_injective (Option.some_inj.mp hheld)
    rw [hk] at hpublished
    cases hpublished
  | joining round slot worker =>
    rw [hpc] at hfits
    obtain ⟨-, -, hjoined, -, -, hpublished⟩ := hfits
    refine ⟨fun hnone => hsettled (hjoined k ?_ hnone), nofun⟩
    rintro rfl
    rw [hk] at hpublished
    cases hpublished
  | closing | collecting | finished =>
    rw [hpc] at hfits
    exact absurd (hfits.1 k) hsettled
  | panicked panic =>
    rw [hpc] at hfits
    exact absurd hfits id

theorem Inv.not_queued (h : Inv s) {k : Position reactors}
    (hk : published (s.workers k) = false) : reactorId k ∉ s.completions := by
  intro hmem
  obtain ⟨k', hid, hpublished, -⟩ := (h.queued _).mp hmem
  obtain rfl := reactorId_injective hid
  rw [hk] at hpublished
  cases hpublished

theorem Inv.holds_publish (h : Inv s) {k : Position reactors} {result : ThreadResult D C W P}
    (hk : s.workers k = .publishing result) :
    Holds ({ s with completions := s.completions ++ [reactorId k] }.setWorker k
      (.dropping result)) := by
  have hunpublished : published (s.workers k) = false := by
    rw [hk]
    rfl
  obtain ⟨hhandle, hheld⟩ := h.unpublished hunpublished
  have hqueued : ∀ k', Queued ({ s with completions := s.completions ++ [reactorId k] }.setWorker k
      (.dropping result)) k' ↔ Queued s k' ∨ k' = k := by
    intro k'
    by_cases hkk : k' = k
    · subst hkk
      refine iff_of_true ⟨?_, hhandle, hheld⟩ (.inr rfl)
      show published (Function.update s.workers k' _ k') = true
      rw [Function.update_self]
      rfl
    · have hsame : (Function.update s.workers k (.dropping result)) k' = s.workers k' :=
        Function.update_of_ne hkk ..
      show published (Function.update s.workers k _ k') = true ∧ _ ∧ _ ↔ _
      rw [hsame]
      exact (or_iff_left hkk).symm
  constructor
  · refine List.nodup_append.mpr ⟨h.nodup, List.nodup_singleton _, fun id hid id' hid' => ?_⟩
    rintro rfl
    rw [List.mem_singleton] at hid'
    rw [hid'] at hid
    exact h.not_queued hunpublished hid
  · intro id
    simp only [hqueued]
    rw [State.setWorker, List.mem_append, List.mem_singleton, h.queued id]
    constructor
    · rintro (⟨k', hid, hk'⟩ | hid)
      · exact ⟨k', hid, .inl hk'⟩
      · exact ⟨k, hid, .inr rfl⟩
    · rintro ⟨k', hid, hk' | rfl⟩
      · exact .inl ⟨k', hid, hk'⟩
      · exact .inr hid

/-- What is received has left the channel, and nothing else has. -/
theorem Inv.holds_receive (h : Inv s) {round : ℕ} {id : ReactorId} {rest : List ReactorId}
    (hpc : s.supervisor = .receiving round) (hcompletions : s.completions = id :: rest) :
    Holds { s with completions := rest, supervisor := .taking round id } := by
  have hnodup := h.nodup
  rw [hcompletions, List.nodup_cons] at hnodup
  refine ⟨hnodup.2, fun id' => ?_⟩
  have hheld : ∀ k, Queued s k ↔ published (s.workers k) = true ∧ s.handles k ≠ none := by
    intro k
    rw [Queued, hpc]
    exact ⟨fun hk => ⟨hk.1, hk.2.1⟩, fun hk => ⟨hk.1, hk.2, nofun⟩⟩
  have hmem := h.queued id'
  rw [hcompletions, List.mem_cons] at hmem
  constructor
  · intro hid'
    obtain ⟨k, rfl, hk⟩ := hmem.mp (.inr hid')
    obtain ⟨hpublished, hhandle, -⟩ := hk
    refine ⟨k, rfl, hpublished, hhandle, fun hheld => ?_⟩
    rw [← Option.some_inj.mp hheld] at hid'
    exact hnodup.1 hid'
  · rintro ⟨k, rfl, hpublished, hhandle, hne⟩
    rcases hmem.mpr ⟨k, rfl, (hheld k).mpr ⟨hpublished, hhandle⟩⟩ with heq | hin
    · exact absurd (congrArg some heq.symm) hne
    · exact hin

theorem Inv.holds_next (h : Inv s) (hstep : Step s l s') : Holds s' := by
  have hpanicked : ∀ panic, s'.supervisor ≠ .panicked panic := by
    intro panic hpc
    have hfits := h.next_supervisor hstep
    rw [hpc] at hfits
    exact hfits
  cases hstep with
  | group => exact h.holds_same rfl fun _ => Iff.rfl
  | @pass k hk =>
    refine h.holds_same rfl (queued_update hk ?_)
    split_ifs with habort
    · rw [h.started] at habort
      cases habort
    · rfl
  | exit _ hk | calm hk | terminated hk | unwind _ hk | drop hk =>
    exact h.holds_same rfl (queued_update hk rfl)
  | @fatal k exit group hk =>
    exact h.holds_same rfl (queued_update (s := { s with group }) hk rfl)
  | publish hk => exact h.holds_publish hk
  | @publishClosed k result hk hlistening =>
    -- the supervisor listens until it has joined every worker
    have hfits := h.supervisor
    cases hpc : s.supervisor with
    | finished supervised =>
      rw [hpc] at hfits
      obtain ⟨result', exit, hfinished, -⟩ := hfits.1 k
      rw [hk] at hfinished
      cases hfinished
    | panicked panic =>
      rw [hpc] at hfits
      exact absurd hfits id
    | _ =>
      rw [hpc] at hlistening
      cases hlistening
  | receive hpc _ hcompletions => exact h.holds_receive hpc hcompletions
  | @take round id k worker hpc hposition hk =>
    obtain ⟨-, -, k', rfl, -⟩ := h.fits hpc
    rw [position_reactorId, Option.some_inj] at hposition
    obtain rfl : k' = k := Fin.ext hposition
    refine h.holds_same rfl fun j => ?_
    rw [Queued, Queued, hpc]
    by_cases hj : j = k'
    · subst hj
      refine iff_of_false ?_ ?_
      · rintro ⟨-, hne, -⟩
        exact hne (Function.update_self ..)
      · rintro ⟨-, -, hheld⟩
        exact hheld rfl
    · have hother : (Function.update s.handles k' none) j = s.handles j :=
        Function.update_of_ne hj ..
      refine and_congr_right fun _ => ?_
      simp only [hother]
      refine and_congr_right fun _ => iff_of_true nofun fun hheld => ?_
      exact hj (reactorId_injective (Option.some_inj.mp hheld)).symm
  | join hpc | store hpc | closed hpc | collect hpc =>
    refine h.holds_same rfl fun k => ?_
    rw [Queued, Queued, hpc]
    exact Iff.rfl
  | close => exact h.holds_same rfl fun _ => Iff.rfl
  | closedEarly | unrepresentable | duplicate | joinFails | collectFails =>
    exact absurd rfl (hpanicked _)

theorem Inv.next (h : Inv s) (hstep : Step s l s') : Inv s' := by
  obtain ⟨hnodup, hqueued⟩ := h.holds_next hstep
  have hgroup : s'.group = s.group ∨ ∃ label, GroupTermination.Step s.group label s'.group := by
    cases hstep with
    | group hgroup | fatal _ _ hgroup | store _ hgroup | close _ hgroup => exact .inr ⟨_, hgroup⟩
    | _ => exact .inl rfl
  refine ⟨?_, ?_, ?_, h.next_worker hstep, fun {k worker} hk => ?_, fun {k} hk => ?_, hnodup,
    hqueued, h.next_supervisor hstep⟩
  · rcases hgroup with hsame | ⟨label, hgroup⟩
    · rw [hsame]
      exact h.group
    · exact h.group.next hgroup
  · rcases hgroup with hsame | ⟨label, hgroup⟩
    · rw [hsame]
      exact h.fresh
    · exact h.fresh.next hgroup
  · cases hstep <;> exact h.started
  · cases hstep with
    | take =>
      rcases update_eq_some.mp hk with ⟨-, hnone⟩ | ⟨-, hk⟩
      · cases hnone
      · exact h.handles hk
    | _ => exact h.handles hk
  · have hunjoined : s.handles k ≠ none → s.exits k = none := h.unjoined
    cases hstep with
    | @take _ _ k₀ =>
      refine hunjoined fun hnone => hk ?_
      by_cases hkk : k = k₀
      · subst hkk
        exact Function.update_self ..
      · exact (Function.update_of_ne hkk ..).trans hnone
    | @join round slot worker result exit hpc =>
      -- the handle of the slot has been taken
      obtain ⟨-, -, -, hslot, -⟩ := h.fits hpc
      have hkk : k ≠ slot := by
        rintro rfl
        exact hk hslot
      exact (Function.update_of_ne hkk ..).trans (hunjoined hk)
    | _ => exact hunjoined hk

theorem reachable_inv (h : (system reactors T U V D C W E P).Reachable s) : Inv s :=
  h.invariant initial_inv Inv.next

end Supervisor

end Calandria
