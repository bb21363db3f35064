/-
Ownership over the startup of a reactor group.

Until the gate is open every reactor is in its slot; the strong count of the
ingress is what the spawner, the threads of the workers and the supervisor hold;
and what the spawner joins are the workers it has created.

* `Inv` — these, with what a worker has seen of the gate;
* `Inv.next` — every step keeps them, and none of the ownership panics is reached;
* `Inv.progress`, `Step.measured` — startup comes to its end;
* `GroupStartup.startup` — what this says of every interleaving.
-/
import Calandria.GroupStartup

namespace Calandria

namespace GroupStartup

variable {R S E X P : Type}

/-! ### What a place holds -/

/-- The thread still has its handle of the ingress. -/
def holding : Option (WorkerPc R X P) → Bool
  | none | some (.finished _) => false
  | some _ => true

/-- The worker has not taken its reactor. -/
def untouched : Option (WorkerPc R X P) → Bool
  | none | some .starting | some .waiting | some .taking => true
  | some (.dropping (.ok .aborted)) | some (.finished (.ok .aborted)) => true
  | some (.running _) | some (.dropping _) | some (.finished _) => false

/-- The handle of the supervisor's thread. -/
def supervisorHandles {n : ℕ} : Option (SupervisorPc n) → ℕ
  | none => 0
  | some _ => 1

namespace SpawnerPc

variable {n : ℕ}

/-- The handles of the ingress that the spawner has. -/
def handles : SpawnerPc n R S E → ℕ
  | .validating | .returned (.error _) | .panicked _ => 0
  | .taking _ _ => 1
  | .cloning _ | .opening | .opened | .aborting _ | .aborted _ | .joining _ _
  | .returned (.ok _) => 2
  | .creating _ _ | .supervising _ | .offering | .recovering _ => 3

/-- How many slots, from the first, the spawner has taken back. -/
def taken : SpawnerPc n R S E → ℕ
  | .taking _ reactors => reactors.length
  | .returned (.error _) | .panicked _ => n
  | _ => 0

end SpawnerPc

/-! ### What a place says -/

section

variable {n : ℕ}

/-- What a worker's result says of the decision. -/
def ResultFits (decision : Option StartDecision) :
    Except (WorkerPanic P) (WorkerResult X) → Prop
  | .ok .aborted => decision = some .abort
  | .ok (.finished _) | .error (.unwound _) => decision = some .start
  | .error .decisionDisappeared | .error .slotConsumed => False

/-- What the place of a worker says of the gate, and of the reactor that it runs. -/
def WorkerFits (gate : StartGate.State (Party n)) (k : Fin n) (reactor : R) :
    Option (WorkerPc R X P) → Prop
  | none | some .starting => gate.calls (.worker k) = none
  | some .waiting => gate.calls (.worker k) ≠ none
  | some .taking => gate.decision = some .start
  | some (.running running) => gate.decision = some .start ∧ running = reactor
  | some (.dropping result) | some (.finished result) => ResultFits gate.decision result

/-- The workers below this position have been created. -/
def Created (s : State n R S E X P) (i : ℕ) : Prop := ∀ k, s.workers k ≠ none ↔ k.val < i

/-- The spawner can join just these. -/
def Joinable (s : State n R S E X P) : Prop :=
  ∃ i, Created s i ∧ s.pending = (List.finRange n).take i

/-- Nobody has asked the gate for a decision. -/
def Undecided (s : State n R S E X P) : Prop :=
  s.gate.decision = none ∧ s.gate.calls .spawner = none

/-- The spawner's call has returned, and left this decision. -/
def Decided (s : State n R S E X P) (selected : StartDecision) : Prop :=
  s.gate.decision = some selected ∧ ∃ result, s.gate.calls .spawner = some (.returned result)

/-- The spawner's call makes this decision, and no other call does. -/
def Deciding (s : State n R S E X P) (selected : StartDecision) : Prop :=
  ∃ pc, s.gate.calls .spawner = some pc ∧ StartGate.Decides selected s.gate.decision pc

/-- Every thread that exists has returned without its reactor. -/
def AllAborted (s : State n R S E X P) : Prop :=
  ∀ k, s.workers k = none ∨ s.workers k = some (.finished (.ok .aborted))

/-- Which thread could not be created, and why. -/
def Explains (name : String) (s : State n R S E X P) : ReactorGroupSpawnFailure E → Prop
  | .reactorThread reactor source => ∃ k : Fin n, reactor.val = k.val ∧ Created s k.val ∧
      match source with
      | .invalidThreadName => hasNul (workerName name k.val) = true
      | .os _ => hasNul (workerName name k.val) = false
  | .supervisorThread source => Created s n ∧
      match source with
      | .invalidThreadName => hasNul (supervisorName name) = true
      | .os _ => hasNul (supervisorName name) = false
  | _ => False

end

variable {limits : NonZeroUsize} {name : String} {members : List (ReactorGroupMember R S)}

/-- What the place of the spawner says. -/
def SpawnerFits (limits : NonZeroUsize) (name : String) (members : List (ReactorGroupMember R S))
    (s : State members.length R S E X P) : SpawnerPc members.length R S E → Prop
  | .validating => Undecided s ∧ s.supervisor = none ∧ Created s 0 ∧ s.pending = []
  | .cloning index => Admitted limits members ∧ Undecided s ∧ s.supervisor = none ∧
      index ≤ members.length ∧ Created s index ∧
      s.pending = (List.finRange members.length).take index
  | .creating k id => Admitted limits members ∧ Undecided s ∧ s.supervisor = none ∧
      id.val = k.val ∧ Created s k.val ∧ s.pending = (List.finRange members.length).take k.val
  | .supervising workers => Admitted limits members ∧ Undecided s ∧ s.supervisor = none ∧
      Created s members.length ∧ workers = List.finRange members.length
  | .offering | .recovering _ => Admitted limits members ∧ Undecided s ∧ s.supervisor = none ∧
      Created s members.length ∧ hasNul (supervisorName name) = false ∧
      s.assets = some (List.finRange members.length)
  | .opening => Undecided s ∧ s.supervisor ≠ none ∧ Created s members.length
  | .opened => Deciding s .start ∧ s.supervisor ≠ none ∧ Created s members.length
  | .returned (.ok _) => Decided s .start ∧ s.supervisor ≠ none ∧ Created s members.length
  | .aborting failure => Admitted limits members ∧ Undecided s ∧ s.supervisor = none ∧
      Explains name s failure ∧ Joinable s
  | .aborted failure => Admitted limits members ∧ Deciding s .abort ∧ s.supervisor = none ∧
      Explains name s failure ∧ Joinable s
  | .joining failure workers => Admitted limits members ∧ Decided s .abort ∧ s.supervisor = none ∧
      Explains name s failure ∧ workers.length ≤ members.length ∧
      (∀ k ∈ workers, s.workers k ≠ none) ∧
      ∀ k, k ∈ workers ∨ s.workers k = none ∨ s.workers k = some (.finished (.ok .aborted))
  | .taking failure reactors => Admitted limits members ∧ Decided s .abort ∧ s.supervisor = none ∧
      Explains name s failure ∧ AllAborted s ∧ reactors.length ≤ members.length ∧
      reactors = (members.map ReactorGroupMember.reactor).take reactors.length
  | .returned (.error error) => error.members = members ∧ s.supervisor = none ∧ AllAborted s ∧
      ((Rejected limits members error.failure ∧ Undecided s ∧ Created s 0) ∨
        (Admitted limits members ∧ Explains name s error.failure ∧ Decided s .abort))
  | .panicked _ => False

structure Inv (limits : NonZeroUsize) (name : String) (members : List (ReactorGroupMember R S))
    (s : State members.length R S E X P) : Prop where
  gate : StartGate.Inv s.gate
  waits : ∀ {k pc}, s.gate.calls (.worker k) = some pc → pc.waits = true
  worker : ∀ k, WorkerFits s.gate k (members.get k).reactor (s.workers k)
  slots : ∀ k : Fin members.length, untouched (s.workers k) = true → s.spawner.taken ≤ k.val →
    s.slots k = some (members.get k).reactor
  strong : s.strong = s.spawner.handles + tally holding s.workers + supervisorHandles s.supervisor
  supervisor : s.supervisor ≠ some .panicked ∧ (s.supervisor = some .starting → s.assets ≠ none)
  spawner : SpawnerFits limits name members s s.spawner

theorem new_inv : Inv limits name members (State.new members : State members.length R S E X P) where
  gate := StartGate.new_inv
  waits := nofun
  worker _ := rfl
  slots _ _ _ := rfl
  strong := by
    rw [show (State.new members : State members.length R S E X P).workers = fun _ => none from rfl,
      tally_const]
    rfl
  supervisor := ⟨nofun, nofun⟩
  spawner := ⟨⟨rfl, rfl⟩, rfl, fun k => iff_of_false (fun h => h rfl) (Nat.not_lt_zero _), rfl⟩

variable {s s' : State members.length R S E X P} {l : Label members.length E X P}

/-! ### The gate -/

theorem Step.gate_cases (h : Step limits name members s l s') :
    s'.gate = s.gate ∨ ∃ p e, StartGate.Step s.gate (p, e) s'.gate := by
  cases h with
  | start _ hgate | abort _ hgate | wait _ hgate | gate hgate => exact .inr ⟨_, _, hgate⟩
  | _ => exact .inl rfl

/-- The gate's decision never changes. -/
theorem Step.decision (h : Step limits name members s l s') {d : StartDecision}
    (hd : s.gate.decision = some d) : s'.gate.decision = some d := by
  rcases h.gate_cases with hsame | ⟨p, e, hgate⟩
  · rwa [hsame]
  · exact hgate.decision hd

theorem Inv.next_gate (h : Inv limits name members s) (hstep : Step limits name members s l s') :
    StartGate.Inv s'.gate := by
  rcases hstep.gate_cases with hsame | ⟨p, e, hgate⟩
  · rw [hsame]
    exact h.gate
  · exact h.gate.next hgate

/-- Workers only ever wait at the gate. -/
theorem Inv.next_waits (h : Inv limits name members s) (hstep : Step limits name members s l s')
    {k : Fin members.length} {pc : StartGate.CallPc}
    (hpc : s'.gate.calls (.worker k) = some pc) : pc.waits = true := by
  cases hstep with
  | start _ hgate | abort _ hgate =>
    obtain ⟨-, rfl⟩ := hgate.called
    have hne : Party.worker k ≠ .spawner := nofun
    exact h.waits ((StartGate.setCall_of_ne _ hne _).symm.trans hpc)
  | @wait k' _ _ hgate =>
    obtain ⟨-, rfl⟩ := hgate.called
    rcases update_eq_some.mp hpc with ⟨-, hown⟩ | ⟨-, hold⟩
    · cases hown
      rfl
    · exact h.waits hold
  | @gate party _ _ hgate hcall =>
    by_cases hparty : Party.worker k = party
    · subst hparty
      obtain ⟨pc₀, hpc₀, -⟩ := hgate.active hcall
      obtain ⟨-, -, pc', hpc', hwaits⟩ := hgate.waits hpc₀ (h.waits hpc₀)
      change _ = some pc at hpc
      rw [hpc'] at hpc
      cases hpc
      exact hwaits
    · rcases hgate.effect.other hparty with hsame | hnotified
      · exact h.waits (hsame.symm.trans hpc)
      · obtain ⟨old, hold, rfl⟩ := Option.map_eq_some_iff.mp (hnotified.symm.trans hpc)
        rw [StartGate.notified_waits]
        exact h.waits hold
  | _ => exact h.waits hpc

/-- A worker's place stays right while others, or its own call, go on in the gate. -/
theorem WorkerFits.gate_step {n : ℕ} {gate gate' : StartGate.State (Party n)} {p : Party n}
    {e : StartGate.Event} (hstep : StartGate.Step gate (p, e) gate') {k : Fin n}
    (hcall : p = .worker k → ∀ call, e ≠ .call call) {reactor : R}
    {pc : Option (WorkerPc R X P)} (h : WorkerFits gate k reactor pc) :
    WorkerFits gate' k reactor pc := by
  have hnone : gate'.calls (.worker k) = none ↔ gate.calls (.worker k) = none := by
    by_cases hp : p = .worker k
    · subst hp
      obtain ⟨pc₀, hpc₀, -⟩ := hstep.active (hcall rfl)
      cases hnone : gate'.calls (.worker k) with
      | none => exact absurd hnone (hstep.stays hpc₀)
      | some pc' => exact iff_of_false nofun (by rw [hpc₀]; exact nofun)
    · rcases hstep.effect.other (Ne.symm hp) with hsame | hnotified
      · rw [hsame]
      · rw [hnotified, Option.map_eq_none_iff]
  have hdecision : ∀ {d}, gate.decision = some d → gate'.decision = some d := fun hd =>
    hstep.decision hd
  cases pc with
  | none => exact hnone.mpr h
  | some pc =>
    cases pc with
    | starting => exact hnone.mpr h
    | waiting => exact fun hgone => h (hnone.mp hgone)
    | taking => exact hdecision h
    | running running => exact ⟨hdecision h.1, h.2⟩
    | dropping result | finished result =>
      rcases result with (_ | _ | _) | _ | _
      · exact h
      · exact h
      · exact hdecision h
      · exact hdecision h
      · exact hdecision h

/-! ### The workers -/

/-- Once the gate is open the spawner takes nothing back. -/
theorem Inv.taken_zero (h : Inv limits name members s) (hstart : s.gate.decision = some .start) :
    s.spawner.taken = 0 := by
  have hspawner := h.spawner
  cases hpc : s.spawner with
  | taking failure reactors =>
    rw [hpc] at hspawner
    obtain ⟨-, hdecided, -⟩ := hspawner
    rw [hdecided.1] at hstart
    cases hstart
  | returned result =>
    cases result with
    | ok => rfl
    | error error =>
      rw [hpc] at hspawner
      obtain ⟨-, -, -, ⟨-, hundecided, -⟩ | ⟨-, -, hdecided⟩⟩ := hspawner
      · rw [hundecided.1] at hstart
        cases hstart
      · rw [hdecided.1] at hstart
        cases hstart
  | panicked panic =>
    rw [hpc] at hspawner
    exact absurd hspawner id
  | _ => rfl

/-- A worker at its slot finds its own reactor there. -/
theorem Inv.slot (h : Inv limits name members s) {k : Fin members.length}
    (hworker : s.workers k = some .taking) : s.slots k = some (members.get k).reactor := by
  have hstart := h.worker k
  rw [hworker] at hstart
  refine h.slots k (by rw [hworker]; rfl) ?_
  rw [h.taken_zero hstart]
  exact Nat.zero_le _

theorem Inv.next_worker (h : Inv limits name members s) (hstep : Step limits name members s l s')
    (k : Fin members.length) : WorkerFits s'.gate k (members.get k).reactor (s'.workers k) := by
  -- a step of one worker, whose new place is right
  have hset : ∀ {gate : StartGate.State (Party members.length)} {k₀ pc},
      (k ≠ k₀ → WorkerFits gate k (members.get k).reactor (s.workers k)) →
      WorkerFits gate k₀ (members.get k₀).reactor (some pc) →
      WorkerFits gate k (members.get k).reactor (Function.update s.workers k₀ (some pc) k) := by
    intro gate k₀ pc hothers hown
    by_cases hk : k = k₀
    · subst hk
      rwa [Function.update_self]
    · rw [Function.update_of_ne hk]
      exact hothers hk
  have hk := h.worker k
  cases hstep with
  | start _ hgate | abort _ hgate =>
    exact hk.gate_step hgate nofun
  | gate hgate hcall => exact hk.gate_step hgate fun _ => hcall
  | @create k₀ id hpc =>
    have hspawner := h.spawner
    rw [hpc] at hspawner
    obtain ⟨-, -, -, -, hcreated, -⟩ := hspawner
    have hnone : s.workers k₀ = none := by
      by_contra hne
      exact Nat.lt_irrefl _ ((hcreated k₀).mp hne)
    have hold := h.worker k₀
    rw [hnone] at hold
    exact hset (fun _ => hk) hold
  | @wait k₀ gate hworker hgate =>
    refine hset (fun hne => hk.gate_step hgate fun heq => ?_) ?_
    · cases heq
      exact absurd rfl hne
    · obtain ⟨-, rfl⟩ := hgate.called
      change (s.gate.setCall _ _).calls _ ≠ none
      rw [StartGate.setCall_self]
      exact nofun
  | @observe k₀ d hworker hreturned =>
    have hseen : s.gate.decision = some d := h.gate.fits hreturned
    refine hset (fun _ => hk) ?_
    cases d with
    | start => exact hseen
    | abort => exact hseen
  | @disappeared k₀ hworker hpanicked => exact absurd (h.gate.fits hpanicked) id
  | @takeReactor k₀ reactor hworker hslot =>
    have hold := h.worker k₀
    rw [hworker] at hold
    rw [h.slot hworker] at hslot
    exact hset (fun _ => hk) ⟨hold, (Option.some_inj.mp hslot).symm⟩
  | @takeReactorPanics k₀ hworker hslot =>
    rw [h.slot hworker] at hslot
    cases hslot
  | @exit k₀ reactor _ hworker =>
    have hold := h.worker k₀
    rw [hworker] at hold
    exact hset (fun _ => hk) hold.1
  | @unwind k₀ reactor _ hworker =>
    have hold := h.worker k₀
    rw [hworker] at hold
    exact hset (fun _ => hk) hold.1
  | @dropCaptured k₀ result hworker =>
    have hold := h.worker k₀
    rw [hworker] at hold
    exact hset (fun _ => hk) hold
  | _ => exact hk

/-! ### The slots -/

theorem Inv.next_slots (h : Inv limits name members s) (hstep : Step limits name members s l s')
    (k : Fin members.length) (huntouched : untouched (s'.workers k) = true)
    (htaken : s'.spawner.taken ≤ k.val) : s'.slots k = some (members.get k).reactor := by
  -- a worker that is untouched after its step was so before
  have hset : ∀ {k₀ pc}, s.slots k = s'.slots k → s.spawner.taken ≤ k.val →
      s'.workers = Function.update s.workers k₀ (some pc) →
      (untouched (some pc) = true → untouched (s.workers k₀) = true) →
      s'.slots k = some (members.get k).reactor := by
    intro k₀ pc hslots htaken hworkers hbefore
    rw [← hslots]
    refine h.slots k ?_ htaken
    rw [hworkers] at huntouched
    by_cases hk : k = k₀
    · subst hk
      rw [Function.update_self] at huntouched
      exact hbefore huntouched
    · rwa [Function.update_of_ne hk] at huntouched
  cases hstep with
  | @create k₀ id hpc =>
    have hspawner := h.spawner
    rw [hpc] at hspawner
    obtain ⟨-, -, -, -, hcreated, -⟩ := hspawner
    have hnone : s.workers k₀ = none := by
      by_contra hne
      exact Nat.lt_irrefl _ ((hcreated k₀).mp hne)
    exact hset rfl (by rw [hpc]; exact Nat.zero_le _) rfl fun _ => by rw [hnone]; rfl
  | wait hworker | observe hworker | disappeared hworker | takeReactorPanics hworker =>
    exact hset rfl htaken rfl fun _ => by rw [hworker]; rfl
  | exit _ hworker | unwind _ hworker => exact hset rfl htaken rfl nofun
  | @dropCaptured k₀ result hworker =>
    refine hset rfl htaken rfl fun h => ?_
    rw [hworker]
    rcases result with _ | _ | _ <;> exact h
  | @takeReactor k₀ reactor hworker =>
    have hk : k ≠ k₀ := by
      rintro rfl
      change untouched (Function.update s.workers k _ k) = true at huntouched
      rw [Function.update_self] at huntouched
      cases huntouched
    exact hset (Function.update_of_ne hk ..).symm htaken rfl nofun
  | @take failure reactors reactor k₀ hpc hk₀ =>
    change (reactors ++ [reactor]).length ≤ k.val at htaken
    rw [List.length_append, List.length_singleton] at htaken
    have hk : k ≠ k₀ := by
      rintro rfl
      omega
    change Function.update s.slots k₀ none k = _
    rw [Function.update_of_ne hk]
    refine h.slots k huntouched ?_
    rw [hpc]
    exact Nat.le_of_succ_le htaken
  | invalid | becameEmpty | validatePanics | clonePanics | recoverPanics | joinPanics | joinFails
  | takePanics | unwrap | rebuildPanics | unwrapPanics =>
    exact absurd k.isLt (not_lt.mpr htaken)
  | supervise | supervisePanics | gate => exact h.slots k huntouched htaken
  | validated hpc | clone hpc | reject hpc | refuse _ hpc | assemble hpc | rejectSupervisor hpc
  | offer hpc | refuseSupervisor _ hpc | recover hpc | createSupervisor hpc | start hpc
  | opened hpc | abort hpc | aborted hpc | join hpc | drop hpc =>
    refine h.slots k huntouched ?_
    rw [hpc]
    exact Nat.zero_le _

/-! ### What the spawner relies on -/

/-- What a step of another party leaves as it is. -/
structure Frame {n : ℕ} (s s' : State n R S E X P) : Prop where
  decision : s'.gate.decision = s.gate.decision
  calls : s'.gate.calls .spawner = s.gate.calls .spawner
  supervisor : s'.supervisor = none ↔ s.supervisor = none
  pending : s'.pending = s.pending
  assets : s.supervisor = none → s'.assets = s.assets
  created : ∀ k, s'.workers k = none ↔ s.workers k = none
  finished : ∀ {k result}, s.workers k = some (.finished result) →
    s'.workers k = some (.finished result)

namespace Frame

section

variable {n : ℕ} {s s' : State n R S E X P} (h : Frame s s')

include h

theorem undecided (hs : Undecided s) : Undecided s' :=
  ⟨h.decision.trans hs.1, h.calls.trans hs.2⟩

theorem deciding {selected : StartDecision} (hs : Deciding s selected) : Deciding s' selected := by
  rw [Deciding, h.decision, h.calls]
  exact hs

theorem decided {selected : StartDecision} (hs : Decided s selected) : Decided s' selected := by
  obtain ⟨hdecision, hcalls⟩ := hs
  rw [← h.decision] at hdecision
  rw [← h.calls] at hcalls
  exact ⟨hdecision, hcalls⟩

theorem createdAt {i : ℕ} (hs : Created s i) : Created s' i :=
  fun k => (not_congr (h.created k)).trans (hs k)

theorem joinable (hs : Joinable s) : Joinable s' := by
  obtain ⟨i, hcreated, hpending⟩ := hs
  exact ⟨i, h.createdAt hcreated, h.pending.trans hpending⟩

theorem explains {name : String} {failure : ReactorGroupSpawnFailure E}
    (hs : Explains name s failure) : Explains name s' failure := by
  cases failure with
  | reactorThread reactor source =>
    obtain ⟨k, hk, hcreated, hsource⟩ := hs
    exact ⟨k, hk, h.createdAt hcreated, hsource⟩
  | supervisorThread source =>
    obtain ⟨hcreated, hsource⟩ := hs
    exact ⟨h.createdAt hcreated, hsource⟩
  | _ => exact hs

theorem aborted {k : Fin n}
    (hs : s.workers k = none ∨ s.workers k = some (.finished (.ok .aborted))) :
    s'.workers k = none ∨ s'.workers k = some (.finished (.ok .aborted)) := by
  rcases hs with hnone | hfinished
  · exact .inl ((h.created k).mpr hnone)
  · exact .inr (h.finished hfinished)

theorem supervised (hs : s.supervisor ≠ none) : s'.supervisor ≠ none :=
  (not_congr h.supervisor).mpr hs

end

theorem spawnerFits {s s' : State members.length R S E X P} (h : Frame s s')
    {pc : SpawnerPc members.length R S E} (hs : SpawnerFits limits name members s pc) :
    SpawnerFits limits name members s' pc := by
  cases pc with
  | validating =>
    obtain ⟨hundecided, hsupervisor, hcreated, hpending⟩ := hs
    exact ⟨h.undecided hundecided, h.supervisor.mpr hsupervisor, h.createdAt hcreated,
      h.pending.trans hpending⟩
  | cloning index =>
    obtain ⟨hadmitted, hundecided, hsupervisor, hindex, hcreated, hpending⟩ := hs
    exact ⟨hadmitted, h.undecided hundecided, h.supervisor.mpr hsupervisor, hindex,
      h.createdAt hcreated, h.pending.trans hpending⟩
  | creating k id =>
    obtain ⟨hadmitted, hundecided, hsupervisor, hid, hcreated, hpending⟩ := hs
    exact ⟨hadmitted, h.undecided hundecided, h.supervisor.mpr hsupervisor, hid,
      h.createdAt hcreated, h.pending.trans hpending⟩
  | supervising workers =>
    obtain ⟨hadmitted, hundecided, hsupervisor, hcreated, hworkers⟩ := hs
    exact ⟨hadmitted, h.undecided hundecided, h.supervisor.mpr hsupervisor,
      h.createdAt hcreated, hworkers⟩
  | offering | recovering source =>
    obtain ⟨hadmitted, hundecided, hsupervisor, hcreated, hname, hassets⟩ := hs
    exact ⟨hadmitted, h.undecided hundecided, h.supervisor.mpr hsupervisor,
      h.createdAt hcreated, hname, (h.assets hsupervisor).trans hassets⟩
  | opening =>
    obtain ⟨hundecided, hsupervisor, hcreated⟩ := hs
    exact ⟨h.undecided hundecided, h.supervised hsupervisor, h.createdAt hcreated⟩
  | opened =>
    obtain ⟨hdeciding, hsupervisor, hcreated⟩ := hs
    exact ⟨h.deciding hdeciding, h.supervised hsupervisor, h.createdAt hcreated⟩
  | aborting failure =>
    obtain ⟨hadmitted, hundecided, hsupervisor, hexplains, hjoinable⟩ := hs
    exact ⟨hadmitted, h.undecided hundecided, h.supervisor.mpr hsupervisor, h.explains hexplains,
      h.joinable hjoinable⟩
  | aborted failure =>
    obtain ⟨hadmitted, hdeciding, hsupervisor, hexplains, hjoinable⟩ := hs
    exact ⟨hadmitted, h.deciding hdeciding, h.supervisor.mpr hsupervisor, h.explains hexplains,
      h.joinable hjoinable⟩
  | joining failure workers =>
    obtain ⟨hadmitted, hdecided, hsupervisor, hexplains, hlength, hmem, hrest⟩ := hs
    exact ⟨hadmitted, h.decided hdecided, h.supervisor.mpr hsupervisor, h.explains hexplains,
      hlength, fun k hk => (not_congr (h.created k)).mpr (hmem k hk),
      fun k => (hrest k).imp_right h.aborted⟩
  | taking failure reactors =>
    obtain ⟨hadmitted, hdecided, hsupervisor, hexplains, haborted, hlength, hreactors⟩ := hs
    exact ⟨hadmitted, h.decided hdecided, h.supervisor.mpr hsupervisor, h.explains hexplains,
      fun k => h.aborted (haborted k), hlength, hreactors⟩
  | returned result =>
    cases result with
    | ok =>
      obtain ⟨hdecided, hsupervisor, hcreated⟩ := hs
      exact ⟨h.decided hdecided, h.supervised hsupervisor, h.createdAt hcreated⟩
    | error error =>
      obtain ⟨hmembers, hsupervisor, haborted, hcause⟩ := hs
      refine ⟨hmembers, h.supervisor.mpr hsupervisor, fun k => h.aborted (haborted k), ?_⟩
      rcases hcause with ⟨hrejected, hundecided, hcreated⟩ | ⟨hadmitted, hexplains, hdecided⟩
      · exact .inl ⟨hrejected, h.undecided hundecided, h.createdAt hcreated⟩
      · exact .inr ⟨hadmitted, h.explains hexplains, h.decided hdecided⟩
  | panicked panic => exact hs

/-- A worker moves on from where it is not yet finished. -/
theorem setWorker {n : ℕ} {s t : State n R S E X P} {k : Fin n} {pc pc' : WorkerPc R X P}
    (hworker : s.workers k = some pc) (hpc : ∀ result, pc ≠ .finished result)
    (hdecision : t.gate.decision = s.gate.decision)
    (hcalls : t.gate.calls .spawner = s.gate.calls .spawner)
    (hsupervisor : t.supervisor = s.supervisor) (hpending : t.pending = s.pending)
    (hassets : t.assets = s.assets) (hworkers : t.workers = s.workers) :
    Frame s (t.setWorker k pc') := by
  refine ⟨hdecision, hcalls, ?_, hpending, fun _ => hassets, fun j => ?_, fun {j result} hj => ?_⟩
  · change t.supervisor = none ↔ _
    rw [hsupervisor]
  · change Function.update t.workers k (some pc') j = none ↔ _
    by_cases hjk : j = k
    · subst hjk
      rw [Function.update_self, hworker]
      exact iff_of_false nofun nofun
    · rw [Function.update_of_ne hjk, hworkers]
  · change Function.update t.workers k (some pc') j = _
    have hjk : j ≠ k := by
      rintro rfl
      rw [hworker] at hj
      exact hpc result (Option.some_inj.mp hj)
    rw [Function.update_of_ne hjk, hworkers, hj]

theorem setSupervisor {n : ℕ} {s : State n R S E X P} {pc pc' : SupervisorPc n}
    {assets : Option (List (Fin n))} (hsupervisor : s.supervisor = some pc) :
    Frame s { s with assets, supervisor := some pc' } := by
  refine ⟨rfl, rfl, iff_of_false nofun ?_, rfl, fun hnone => ?_, fun _ => Iff.rfl, id⟩
  · rw [hsupervisor]
    exact nofun
  · rw [hsupervisor] at hnone
    cases hnone

end Frame

/-! ### The spawner -/

theorem Inv.fits (h : Inv limits name members s) {pc : SpawnerPc members.length R S E}
    (hpc : s.spawner = pc) : SpawnerFits limits name members s pc :=
  hpc ▸ h.spawner

/-- When all threads have gone, nobody but the spawner has a handle. -/
theorem Inv.strong_alone (h : Inv limits name members s) (hsupervisor : s.supervisor = none)
    (haborted : AllAborted s) : s.strong = s.spawner.handles := by
  have htally : tally holding s.workers = 0 := by
    refine Finset.sum_eq_zero fun k _ => ?_
    rcases haborted k with hnone | hfinished
    · rw [hnone]
      rfl
    · rw [hfinished]
      rfl
  rw [h.strong, htally, hsupervisor]
  rfl

/-- A worker that has come to its end before the gate is open has aborted. -/
theorem Inv.finished_aborted (h : Inv limits name members s)
    (habort : s.gate.decision = some .abort) {k : Fin members.length}
    {result : Except (WorkerPanic P) (WorkerResult X)}
    (hworker : s.workers k = some (.finished result)) : result = .ok .aborted := by
  have hfits := h.worker k
  rw [hworker] at hfits
  rcases result with (_ | _ | _) | _ | _
  · exact absurd hfits id
  · exact absurd hfits id
  · exact absurd (habort.symm.trans hfits) nofun
  · rfl
  · exact absurd (habort.symm.trans hfits) nofun

/-- A reactor that the spawner takes out of a slot is the member's own. -/
theorem Inv.retake (h : Inv limits name members s) {failure : ReactorGroupSpawnFailure E}
    {reactors : List R} (hpc : s.spawner = .taking failure reactors) {k : Fin members.length}
    (hk : k.val = reactors.length) : s.slots k = some (members.get k).reactor := by
  obtain ⟨-, -, -, -, haborted, -⟩ := h.fits hpc
  refine h.slots k ?_ (by rw [hpc]; exact hk.ge)
  rcases haborted k with hnone | hfinished
  · rw [hnone]
    rfl
  · rw [hfinished]
    rfl

/-- What is put together from all the reactors is what was supplied. -/
theorem Inv.rebuilds (h : Inv limits name members s) {failure : ReactorGroupSpawnFailure E}
    {reactors : List R} (hpc : s.spawner = .taking failure reactors)
    (hlength : reactors.length = members.length) :
    rebuild 0 (reactors.zip (members.map ReactorGroupMember.ingress)) = .ok members := by
  obtain ⟨hadmitted, -, -, -, -, -, hreactors⟩ := h.fits hpc
  rw [hlength, List.take_of_length_le (List.length_map _).le] at hreactors
  rw [hreactors, rebuild_ordered hadmitted.ordered]

theorem Created.create {n : ℕ} {s s' : State n R S E X P} {k : Fin n} (h : Created s k.val)
    (hworkers : s'.workers = Function.update s.workers k (some .starting)) :
    Created s' (k.val + 1) := by
  intro j
  rw [hworkers]
  by_cases hj : j = k
  · subst hj
    rw [Function.update_self]
    exact iff_of_true nofun (Nat.lt_succ_self _)
  · rw [Function.update_of_ne hj, h j, Nat.lt_succ_iff_lt_or_eq, Fin.val_inj]
    exact ⟨.inl, fun hlt => hlt.resolve_right hj⟩

/-- The spawner's call goes on in the gate. -/
theorem Inv.next_deciding (h : Inv limits name members s)
    {gate : StartGate.State (Party members.length)} {e : StartGate.Event}
    (hgate : StartGate.Step s.gate (.spawner, e) gate) (hcall : ∀ call, e ≠ .call call) :
    SpawnerFits limits name members { s with gate } s.spawner := by
  obtain ⟨pc, hpc, hreturned⟩ := hgate.active hcall
  -- its call has begun and not returned, so the spawner is in one of two places
  have hidle : ¬ Undecided s := fun hundecided => nomatch hpc.symm.trans hundecided.2
  have hdone : ∀ {d}, ¬ Decided s d := by
    rintro d ⟨-, result, hresult⟩
    rw [hpc] at hresult
    exact hreturned result (Option.some_inj.mp hresult)
  have hdeciding : ∀ {d}, Deciding s d → Deciding { s with gate } d := by
    rintro d ⟨pc', hpc', hdecides⟩
    exact hgate.decides hpc' hdecides
  cases hspawner : s.spawner with
  | opened =>
    obtain ⟨hd, hsupervisor, hcreated⟩ := h.fits hspawner
    exact ⟨hdeciding hd, hsupervisor, hcreated⟩
  | aborted failure =>
    obtain ⟨hadmitted, hd, hrest⟩ := h.fits hspawner
    exact ⟨hadmitted, hdeciding hd, hrest⟩
  | validating => exact absurd (h.fits hspawner).1 hidle
  | cloning | creating | supervising | offering | recovering | aborting =>
    exact absurd (h.fits hspawner).2.1 hidle
  | opening => exact absurd (h.fits hspawner).1 hidle
  | joining | taking => exact absurd (h.fits hspawner).2.1 hdone
  | returned result =>
    cases result with
    | ok => exact absurd (h.fits hspawner).1 hdone
    | error error =>
      obtain ⟨-, -, -, ⟨-, hundecided, -⟩ | ⟨-, -, hdecided⟩⟩ := h.fits hspawner
      · exact absurd hundecided hidle
      · exact absurd hdecided hdone
  | panicked panic => exact absurd (h.fits hspawner) id

/-- Where the spawner's own steps lead. -/
theorem Inv.next_spawner (h : Inv limits name members s)
    (hstep : Step limits name members s l s') : SpawnerFits limits name members s' s'.spawner := by
  have hlimits := limits.get.isLt
  cases hstep with
  | validated hpc hvalidate =>
    obtain ⟨hundecided, hsupervisor, hcreated, hpending⟩ := h.fits hpc
    exact ⟨admitted_of_validate hvalidate, hundecided, hsupervisor, Nat.zero_le _, hcreated,
      hpending⟩
  | becameEmpty hpc hvalidate hempty =>
    exact absurd (List.length_eq_zero_iff.mp hempty) (admitted_of_validate hvalidate).ne_nil
  | @invalid failure hpc hvalidate =>
    obtain ⟨hundecided, hsupervisor, hcreated, -⟩ := h.fits hpc
    have hnone : AllAborted s := by
      intro k
      refine .inl ?_
      by_contra hne
      exact Nat.not_lt_zero _ ((hcreated k).mp hne)
    exact ⟨rfl, hsupervisor, hnone, .inl ⟨rejected_of_validate hvalidate, hundecided, hcreated⟩⟩
  | validatePanics hpc hvalidate => exact absurd hvalidate (validate_ne_error limits members _)
  | @clone k id hpc hid =>
    obtain ⟨hadmitted, hundecided, hsupervisor, -, hcreated, hpending⟩ := h.fits hpc
    exact ⟨hadmitted, hundecided, hsupervisor, fromPosition_eq_some.mp hid, hcreated, hpending⟩
  | @clonePanics k hpc hid =>
    obtain ⟨hadmitted, -⟩ := h.fits hpc
    have hle := hadmitted.length_le
    obtain ⟨id, hid'⟩ := exists_fromPosition (show k.val < 2 ^ 64 by omega)
    rw [hid] at hid'
    cases hid'
  | @reject k id hpc hname =>
    obtain ⟨hadmitted, hundecided, hsupervisor, hid, hcreated, hpending⟩ := h.fits hpc
    exact ⟨hadmitted, hundecided, hsupervisor, ⟨k, hid, hcreated, hname⟩, _, hcreated, hpending⟩
  | @refuse k id source hpc hname =>
    obtain ⟨hadmitted, hundecided, hsupervisor, hid, hcreated, hpending⟩ := h.fits hpc
    exact ⟨hadmitted, hundecided, hsupervisor, ⟨k, hid, hcreated, hname⟩, _, hcreated, hpending⟩
  | @create k id hpc =>
    obtain ⟨hadmitted, hundecided, hsupervisor, -, hcreated, hpending⟩ := h.fits hpc
    refine ⟨hadmitted, hundecided, hsupervisor, k.isLt, hcreated.create rfl, ?_⟩
    change s.pending ++ [k] = _
    rw [hpending, take_finRange_succ]
  | assemble hpc =>
    obtain ⟨hadmitted, hundecided, hsupervisor, -, hcreated, hpending⟩ := h.fits hpc
    refine ⟨hadmitted, hundecided, hsupervisor, hcreated, ?_⟩
    rw [hpending, List.take_of_length_le (List.length_finRange).le]
  | rejectSupervisor hpc hname =>
    obtain ⟨hadmitted, hundecided, hsupervisor, hcreated, rfl⟩ := h.fits hpc
    exact ⟨hadmitted, hundecided, hsupervisor, ⟨hcreated, hname⟩, _, hcreated,
      (List.take_of_length_le (List.length_finRange).le).symm⟩
  | offer hpc hname =>
    obtain ⟨hadmitted, hundecided, hsupervisor, hcreated, rfl⟩ := h.fits hpc
    exact ⟨hadmitted, hundecided, hsupervisor, hcreated, hname, rfl⟩
  | refuseSupervisor source hpc => exact h.fits hpc
  | @recover source workers hpc hassets =>
    obtain ⟨hadmitted, hundecided, hsupervisor, hcreated, hname, hassets'⟩ := h.fits hpc
    rw [hassets] at hassets'
    cases hassets'
    exact ⟨hadmitted, hundecided, hsupervisor, ⟨hcreated, hname⟩, _, hcreated,
      (List.take_of_length_le (List.length_finRange).le).symm⟩
  | recoverPanics hpc hassets =>
    obtain ⟨-, -, -, -, -, hassets'⟩ := h.fits hpc
    rw [hassets] at hassets'
    cases hassets'
  | createSupervisor hpc =>
    obtain ⟨-, hundecided, -, hcreated, -⟩ := h.fits hpc
    exact ⟨hundecided, nofun, hcreated⟩
  | start hpc hgate =>
    obtain ⟨hundecided, hsupervisor, hcreated⟩ := h.fits hpc
    obtain ⟨-, rfl⟩ := hgate.called
    exact ⟨⟨_, StartGate.setCall_self .., rfl, hundecided.1⟩, hsupervisor, hcreated⟩
  | abort hpc hgate =>
    obtain ⟨hadmitted, hundecided, hsupervisor, hexplains, hjoinable⟩ := h.fits hpc
    obtain ⟨-, rfl⟩ := hgate.called
    exact ⟨hadmitted, ⟨_, StartGate.setCall_self .., rfl, hundecided.1⟩, hsupervisor, hexplains,
      hjoinable⟩
  | @opened result hpc hreturned =>
    obtain ⟨⟨pc, hcall, hdecides⟩, hsupervisor, hcreated⟩ := h.fits hpc
    rw [hreturned] at hcall
    cases hcall
    exact ⟨⟨StartGate.Decides.returned hdecides, result, hreturned⟩, hsupervisor, hcreated⟩
  | @aborted failure result hpc hreturned =>
    obtain ⟨hadmitted, ⟨pc, hcall, hdecides⟩, hsupervisor, hexplains, i, hcreated, hpending⟩ :=
      h.fits hpc
    rw [hreturned] at hcall
    cases hcall
    -- what is left to join is what has been created
    have hmem : ∀ k, k ∈ s.pending ↔ s.workers k ≠ none := by
      intro k
      rw [hpending, mem_take_finRange, hcreated k]
    refine ⟨hadmitted, ⟨StartGate.Decides.returned hdecides, result, hreturned⟩, hsupervisor,
      hexplains, ?_, fun k => (hmem k).mp, fun k => ?_⟩
    · rw [hpending]
      exact (List.length_take_le' _ _).trans (List.length_finRange).le
    · by_cases hk : s.workers k = none
      · exact .inr (.inl hk)
      · exact .inl ((hmem k).mpr hk)
  | @join failure k workers hpc hworker =>
    obtain ⟨hadmitted, hdecided, hsupervisor, hexplains, hlength, hmem, hrest⟩ := h.fits hpc
    refine ⟨hadmitted, hdecided, hsupervisor, hexplains, Nat.le_of_succ_le hlength,
      fun j hj => hmem j (List.mem_cons_of_mem _ hj), fun j => ?_⟩
    rcases hrest j with hj | hj
    · rcases List.mem_cons.mp hj with rfl | hj
      · exact .inr (.inr hworker)
      · exact .inl hj
    · exact .inr hj
  | joinPanics hpc hworker =>
    obtain ⟨-, hdecided, -⟩ := h.fits hpc
    cases h.finished_aborted hdecided.1 hworker
  | joinFails hpc hworker =>
    obtain ⟨-, hdecided, -⟩ := h.fits hpc
    cases h.finished_aborted hdecided.1 hworker
  | drop hpc =>
    obtain ⟨hadmitted, hdecided, hsupervisor, hexplains, -, -, hrest⟩ := h.fits hpc
    exact ⟨hadmitted, hdecided, hsupervisor, hexplains,
      fun k => (hrest k).resolve_left List.not_mem_nil, Nat.zero_le _, rfl⟩
  | @take failure reactors reactor k hpc hk hslot =>
    have hown := h.retake hpc hk
    obtain ⟨hadmitted, hdecided, hsupervisor, hexplains, haborted, -, hreactors⟩ := h.fits hpc
    rw [hslot] at hown
    rw [Option.some_inj.mp hown]
    refine ⟨hadmitted, hdecided, hsupervisor, hexplains, haborted, ?_, ?_⟩
    · rw [List.length_append, List.length_singleton, ← hk]
      exact k.isLt
    · rw [List.length_append, List.length_singleton, List.take_add_one, ← hreactors, ← hk,
        List.getElem?_map, List.getElem?_eq_getElem k.isLt]
      rfl
  | takePanics hpc hk hslot =>
    have hown := h.retake hpc hk
    rw [hslot] at hown
    cases hown
  | @unwrap failure reactors rebuilt hpc hlength hstrong hrebuilt =>
    obtain ⟨hadmitted, hdecided, hsupervisor, hexplains, haborted, -⟩ := h.fits hpc
    rw [h.rebuilds hpc hlength] at hrebuilt
    cases hrebuilt
    exact ⟨rfl, hsupervisor, haborted, .inr ⟨hadmitted, hexplains, hdecided⟩⟩
  | @rebuildPanics failure reactors panic hpc hlength hstrong hrebuilt =>
    rw [h.rebuilds hpc hlength] at hrebuilt
    cases hrebuilt
  | unwrapPanics hpc hlength hstrong =>
    -- the joined threads have dropped their handles of the ingress
    obtain ⟨-, -, hsupervisor, -, haborted, -⟩ := h.fits hpc
    have halone := h.strong_alone hsupervisor haborted
    rw [hpc] at halone
    exact absurd halone hstrong
  | @wait k gate hworker hgate =>
    obtain ⟨-, rfl⟩ := hgate.called
    have hne : Party.spawner ≠ .worker k := nofun
    have hcalls := StartGate.setCall_of_ne s.gate hne (.acquiring .wait)
    exact (Frame.setWorker hworker nofun rfl hcalls rfl rfl rfl rfl).spawnerFits h.spawner
  | observe hworker | disappeared hworker | takeReactor hworker | takeReactorPanics hworker
  | exit _ hworker | unwind _ hworker | dropCaptured hworker =>
    exact (Frame.setWorker hworker nofun rfl rfl rfl rfl rfl rfl).spawnerFits h.spawner
  | supervise hsupervisor | supervisePanics hsupervisor =>
    exact (Frame.setSupervisor hsupervisor).spawnerFits h.spawner
  | @gate party event gate hgate hcall =>
    cases party with
    | worker k =>
      obtain ⟨pc, hpc, -⟩ := hgate.active hcall
      obtain ⟨hdecision, hothers, -⟩ := hgate.waits hpc (h.waits hpc)
      have hframe : Frame s { s with gate } :=
        ⟨hdecision, hothers _ nofun, Iff.rfl, rfl, fun _ => rfl, fun _ => Iff.rfl, id⟩
      exact hframe.spawnerFits h.spawner
    | spawner => exact h.next_deciding hgate hcall

/-! ### The handles of the ingress -/

/-- A worker that moves on keeps its handle, unless it finishes. -/
theorem tally_setWorker {n : ℕ} {s : State n R S E X P} {k : Fin n} {pc pc' : WorkerPc R X P}
    (hworker : s.workers k = some pc) (hholding : holding (some pc') = holding (some pc)) :
    tally holding (Function.update s.workers k (some pc')) = tally holding s.workers := by
  have htally := tally_update holding s.workers k (some pc')
  rw [hworker, hholding] at htally
  exact Nat.add_right_cancel htally

theorem Inv.next_strong (h : Inv limits name members s)
    (hstep : Step limits name members s l s') :
    s'.strong = s'.spawner.handles + tally holding s'.workers +
      supervisorHandles s'.supervisor := by
  have hstrong := h.strong
  have hfits' := h.next_spawner hstep
  cases hstep with
  | becameEmpty | validatePanics | clonePanics | recoverPanics | joinPanics | joinFails
  | takePanics | rebuildPanics | unwrapPanics => exact absurd hfits' id
  | validated hpc =>
    obtain ⟨-, hsupervisor, hcreated, -⟩ := h.fits hpc
    have hnone : AllAborted s := fun k => .inl (by
      by_contra hne
      exact Nat.not_lt_zero _ ((hcreated k).mp hne))
    have halone := h.strong_alone hsupervisor hnone
    rw [hpc] at hstrong halone
    simp only [SpawnerPc.handles] at hstrong halone ⊢
    omega
  | @create k id hpc =>
    obtain ⟨-, -, -, -, hcreated, -⟩ := h.fits hpc
    have hnone : s.workers k = none := by
      by_contra hne
      exact Nat.lt_irrefl _ ((hcreated k).mp hne)
    have htally := tally_update holding s.workers k (some .starting)
    rw [hnone] at htally
    rw [hpc] at hstrong
    simp only [SpawnerPc.handles, State.setWorker, holding, if_true, Bool.false_eq_true,
      if_false] at hstrong htally ⊢
    omega
  | createSupervisor hpc =>
    obtain ⟨-, -, hsupervisor, -⟩ := h.fits hpc
    rw [hpc, hsupervisor] at hstrong
    simp only [SpawnerPc.handles, supervisorHandles] at hstrong ⊢
    omega
  | @unwrap failure reactors rebuilt hpc hlength hone =>
    rw [hpc] at hstrong
    simp only [SpawnerPc.handles] at hstrong ⊢
    omega
  | clone hpc | reject hpc | refuse _ hpc | assemble hpc | rejectSupervisor hpc | offer hpc
  | refuseSupervisor _ hpc | recover hpc | start hpc | opened hpc | abort hpc | aborted hpc
  | join hpc | drop hpc | take hpc =>
    rw [hpc] at hstrong
    simp only [SpawnerPc.handles] at hstrong ⊢
    omega
  | @invalid failure hpc =>
    rw [hpc] at hstrong
    exact hstrong
  | @observe k d hworker =>
    change s.strong = _ + tally holding (Function.update s.workers k (some _)) + _
    rw [tally_setWorker hworker (by cases d <;> rfl)]
    exact hstrong
  | wait hworker | disappeared hworker | takeReactor hworker | takeReactorPanics hworker
  | exit _ hworker | unwind _ hworker =>
    change s.strong = _ + tally holding (Function.update s.workers _ (some _)) + _
    rw [tally_setWorker hworker (by rfl)]
    exact hstrong
  | @dropCaptured k result hworker =>
    have htally := tally_update holding s.workers k (some (.finished result))
    rw [hworker] at htally
    simp only [State.setWorker, holding, if_true, Bool.false_eq_true, if_false] at htally ⊢
    omega
  | supervise hsupervisor | supervisePanics hsupervisor =>
    rw [hsupervisor] at hstrong
    exact hstrong
  | gate => exact hstrong

/-- The supervisor finds its assets. -/
theorem Inv.next_supervisor (h : Inv limits name members s)
    (hstep : Step limits name members s l s') :
    s'.supervisor ≠ some .panicked ∧ (s'.supervisor = some .starting → s'.assets ≠ none) := by
  obtain ⟨hpanicked, hassets⟩ := h.supervisor
  cases hstep with
  | createSupervisor hpc =>
    obtain ⟨-, -, -, -, -, hassets⟩ := h.fits hpc
    refine ⟨nofun, fun _ => ?_⟩
    change s.assets ≠ none
    rw [hassets]
    exact nofun
  | offer hpc => exact ⟨hpanicked, nofun⟩
  | recover hpc =>
    obtain ⟨-, -, hsupervisor, -⟩ := h.fits hpc
    refine ⟨hpanicked, fun hstarting => ?_⟩
    change s.supervisor = _ at hstarting
    rw [hsupervisor] at hstarting
    cases hstarting
  | supervise => exact ⟨nofun, nofun⟩
  | supervisePanics hsupervisor hnone => exact absurd hnone (hassets hsupervisor)
  | _ => exact ⟨hpanicked, hassets⟩

theorem Inv.next (h : Inv limits name members s) (hstep : Step limits name members s l s') :
    Inv limits name members s' :=
  ⟨h.next_gate hstep, h.next_waits hstep, h.next_worker hstep, h.next_slots hstep,
    h.next_strong hstep, h.next_supervisor hstep, h.next_spawner hstep⟩

theorem reachable_inv (h : (system limits name members E X P).Reachable s) :
    Inv limits name members s :=
  h.invariant (fun {s} hinit => by
    rw [show s = .new members from hinit]
    exact new_inv) Inv.next

end GroupStartup

end Calandria
