/-
The startup of a reactor group.

`ReactorGroup::spawn` validates its members, moves the reactors into shared slots
and the senders behind a counted ingress, and creates one gated thread for each
member and one for the supervisor.  When all exist it opens the gate; when one
cannot be created it aborts: the workers return, they are joined, and the members
are put together again out of the slots and the ingress.  A thread that cannot be
created drops its closure.

* `validate`, `rebuild` — the two ends of the failure path;
* `SpawnerPc`, `WorkerPc` — where the caller of `spawn` and a worker are;
* `Step` — the spawner, the workers and the supervisor's thread, interleaved with
  the calls into the gate.
-/
import Calandria.FixedVector
import Calandria.GroupAdmission
import Calandria.StartGate
import Mathlib.Tactic.DeriveFintype

namespace Calandria

/-- One unstarted reactor and the exact mailbox sender routed to its duty. -/
structure ReactorGroupMember (R S : Type) where
  id : ReactorId
  reactor : R
  ingress : S

/-- The `io::Error` of a thread that could not be created. -/
inductive IoError (E : Type)
  /-- "thread name contains an interior null byte" -/
  | invalidThreadName
  | os (source : E)

/-- Exact boundary that rejected reactor-group startup. -/
inductive ReactorGroupSpawnFailure (E : Type)
  | empty
  | capacity (limit : NonZeroUsize) (actual : ℕ)
  | identity (expected actual : ReactorId)
  | reactorThread (reactor : ReactorId) (source : IoError E)
  | supervisorThread (source : IoError E)

/-- Failed group startup with every unstarted member returned in topology order. -/
structure ReactorGroupSpawnError (R S E : Type) where
  failure : ReactorGroupSpawnFailure E
  members : List (ReactorGroupMember R S)

/-- What a worker's thread returns; `X` is the exit of a member. -/
inductive WorkerResult (X : Type)
  | aborted
  | finished (exit : X)

/-- The panics of `spawn`. -/
inductive SpawnPanic
  /-- "reactor group position exceeds identity domain" -/
  | positionExceedsDomain
  /-- "validated reactor group became empty" -/
  | becameEmpty
  /-- "reactor group supervisor assets were already consumed" -/
  | assetsConsumed
  /-- "aborted reactor worker panicked" -/
  | workerPanicked
  /-- `assert!(matches!(result, WorkerResult::Aborted))` -/
  | workerNotAborted
  /-- "reactor group ownership slot was already consumed" -/
  | slotConsumed
  /-- "reactor group ingress ownership invariant violated" -/
  | ingressShared

/-- What a worker unwinds with. -/
inductive WorkerPanic (P : Type)
  /-- "reactor group start decision disappeared" -/
  | decisionDisappeared
  /-- "reactor group ownership slot was already consumed" -/
  | slotConsumed
  /-- A consumer's panic that the worker does not catch. -/
  | unwound (payload : P)

namespace GroupStartup

-- `R`, `S` and `X`: the reactors, the senders and the exits of the members; `E`: the errors
-- of the operating system; `P`: the payloads of panics
variable {R S E X P : Type}

/-! ### Validation and recovery -/

/-- `ReactorId::from_position`, but for its panic. -/
def fromPosition (position : ℕ) : Option ReactorId :=
  if h : position < 2 ^ 64 then some ⟨position, h⟩ else none

/-- The loop of `validate`. -/
def validateFrom (position : ℕ) :
    List (ReactorGroupMember R S) → Except SpawnPanic (Except (ReactorGroupSpawnFailure E) Unit)
  | [] => .ok (.ok ())
  | member :: members =>
    match fromPosition position with
    | none => .error .positionExceedsDomain
    | some expected =>
      if member.id ≠ expected then .ok (.error (.identity expected member.id))
      else validateFrom (position + 1) members

def validate (limits : NonZeroUsize) (members : List (ReactorGroupMember R S)) :
    Except SpawnPanic (Except (ReactorGroupSpawnFailure E) Unit) :=
  if members.length = 0 then .ok (.error .empty)
  else if limits.get.val < members.length then .ok (.error (.capacity limits members.length))
  else validateFrom 0 members

/-- The members that `abort` puts together, from a position on. -/
def rebuild (position : ℕ) : List (R × S) → Except SpawnPanic (List (ReactorGroupMember R S))
  | [] => .ok []
  | (reactor, ingress) :: parts =>
    match fromPosition position with
    | none => .error .positionExceedsDomain
    | some id =>
      match rebuild (position + 1) parts with
      | .error panic => .error panic
      | .ok members => .ok (⟨id, reactor, ingress⟩ :: members)

/-- `name.as_bytes().contains(&0)`. -/
def hasNul (name : String) : Bool := name.toList.contains (Char.ofNat 0)

def workerName (name : String) (index : ℕ) : String := name ++ "-" ++ toString index

def supervisorName (name : String) : String := name ++ "-supervisor"

/-! ### The two ends of the failure path -/

theorem fromPosition_eq_some {position : ℕ} {id : ReactorId} :
    fromPosition position = some id ↔ id.val = position := by
  have hid := id.isLt
  rw [fromPosition]
  split_ifs with h
  · rw [Option.some_inj, Fin.ext_iff, eq_comm]
  · exact iff_of_false nofun (by omega)

theorem exists_fromPosition {position : ℕ} (h : position < 2 ^ 64) :
    ∃ id, fromPosition position = some id :=
  ⟨⟨position, h⟩, fromPosition_eq_some.mpr rfl⟩

/-- Every member has declared its position. -/
def Ordered (position : ℕ) (members : List (ReactorGroupMember R S)) : Prop :=
  ∀ i member, members[i]? = some member → member.id.val = position + i

theorem Ordered.tail {position : ℕ} {member : ReactorGroupMember R S}
    {members : List (ReactorGroupMember R S)} (h : Ordered position (member :: members)) :
    Ordered (position + 1) members := by
  intro i member' hi
  rw [h (i + 1) member' hi]
  omega

theorem Ordered.cons {position : ℕ} {member : ReactorGroupMember R S}
    {members : List (ReactorGroupMember R S)} (hid : member.id.val = position)
    (h : Ordered (position + 1) members) : Ordered position (member :: members) := by
  intro i member' hi
  rcases i with _ | i
  · rw [← Option.some_inj.mp hi, hid, Nat.add_zero]
  · rw [h i member' hi]
    omega

/-- The first member out of place. -/
def Misplaced (position : ℕ) (members : List (ReactorGroupMember R S))
    (expected actual : ReactorId) : Prop :=
  ∃ i member, members[i]? = some member ∧ expected.val = position + i ∧ actual = member.id ∧
    actual ≠ expected ∧ Ordered position (members.take i)

/-- What `validateFrom` finds in as many members as there are identities. -/
theorem validateFrom_spec {position : ℕ} {members : List (ReactorGroupMember R S)}
    (h : position + members.length ≤ 2 ^ 64) :
    (validateFrom (E := E) position members = .ok (.ok ()) ∧ Ordered position members) ∨
    ∃ expected actual, validateFrom (E := E) position members
        = .ok (.error (.identity expected actual)) ∧
      Misplaced position members expected actual := by
  induction members generalizing position with
  | nil => exact .inl ⟨rfl, fun i member hi => nomatch hi⟩
  | cons member members ih =>
    rw [List.length_cons] at h
    obtain ⟨expected, hexpected⟩ := exists_fromPosition (show position < 2 ^ 64 by omega)
    have hval := fromPosition_eq_some.mp hexpected
    rw [validateFrom, hexpected]
    by_cases hid : member.id = expected
    · have hplace : member.id.val = position := by rw [hid, hval]
      simp only [hid, ne_eq, not_true_eq_false, if_false]
      have hlength : position + 1 + members.length ≤ 2 ^ 64 := by omega
      rcases ih hlength with ⟨hrun, hordered⟩ | ⟨e, a, hrun, hmis⟩
      · exact .inl ⟨hrun, .cons hplace hordered⟩
      · obtain ⟨i, member', hi, hat, hactual, hne, htake⟩ := hmis
        refine .inr ⟨e, a, hrun, i + 1, member', hi, by omega, hactual, hne, ?_⟩
        rw [List.take_succ_cons]
        exact .cons hplace htake
    · simp only [ne_eq, hid, not_false_eq_true, if_true]
      exact .inr ⟨expected, member.id, rfl, 0, member, rfl, hval, rfl, hid,
        fun i m hi => nomatch hi⟩

/-- Why a list of members is rejected. -/
def Rejected (limits : NonZeroUsize) (members : List (ReactorGroupMember R S)) :
    ReactorGroupSpawnFailure E → Prop
  | .empty => members = []
  | .capacity limit actual => limit = limits ∧ actual = members.length ∧
      limits.get.val < members.length
  | .identity expected actual => members ≠ [] ∧ members.length ≤ limits.get.val ∧
      Misplaced 0 members expected actual
  | .reactorThread _ _ | .supervisorThread _ => False

/-- The members are as many as there may be, each in its place. -/
structure Admitted (limits : NonZeroUsize) (members : List (ReactorGroupMember R S)) : Prop where
  ne_nil : members ≠ []
  length_le : members.length ≤ limits.get.val
  ordered : Ordered 0 members

theorem validate_spec (limits : NonZeroUsize) (members : List (ReactorGroupMember R S)) :
    (validate (E := E) limits members = .ok (.ok ()) ∧ Admitted limits members) ∨
    ∃ failure : ReactorGroupSpawnFailure E, validate limits members = .ok (.error failure) ∧
      Rejected limits members failure := by
  have hlimits := limits.get.isLt
  rw [validate]
  by_cases hempty : members.length = 0
  · rw [if_pos hempty]
    exact .inr ⟨.empty, rfl, List.length_eq_zero_iff.mp hempty⟩
  · have hne : members ≠ [] := fun h => hempty (List.length_eq_zero_iff.mpr h)
    rw [if_neg hempty]
    by_cases hcapacity : limits.get.val < members.length
    · rw [if_pos hcapacity]
      exact .inr ⟨_, rfl, rfl, rfl, hcapacity⟩
    · rw [if_neg hcapacity]
      have hlength : 0 + members.length ≤ 2 ^ 64 := by omega
      rcases validateFrom_spec (E := E) hlength with
        ⟨hrun, hordered⟩ | ⟨expected, actual, hrun, hmis⟩
      · exact .inl ⟨hrun, hne, not_lt.mp hcapacity, hordered⟩
      · exact .inr ⟨_, hrun, hne, not_lt.mp hcapacity, hmis⟩

theorem admitted_of_validate {limits : NonZeroUsize} {members : List (ReactorGroupMember R S)}
    (h : validate (E := E) limits members = .ok (.ok ())) : Admitted limits members := by
  rcases validate_spec (E := E) limits members with ⟨-, hadmitted⟩ | ⟨failure, hfails, -⟩
  · exact hadmitted
  · rw [h] at hfails
    cases hfails

theorem rejected_of_validate {limits : NonZeroUsize} {members : List (ReactorGroupMember R S)}
    {failure : ReactorGroupSpawnFailure E} (h : validate limits members = .ok (.error failure)) :
    Rejected limits members failure := by
  rcases validate_spec (E := E) limits members with ⟨hok, -⟩ | ⟨failure', hfails, hrejected⟩
  · rw [h] at hok
    cases hok
  · rw [h] at hfails
    cases hfails
    exact hrejected

theorem validate_ne_error (limits : NonZeroUsize) (members : List (ReactorGroupMember R S))
    (panic : SpawnPanic) : validate (E := E) limits members ≠ .error panic := by
  intro h
  rcases validate_spec (E := E) limits members with ⟨hok, -⟩ | ⟨failure, hfails, -⟩
  · rw [h] at hok
    cases hok
  · rw [h] at hfails
    cases hfails

/-- The parts of ordered members are put together to the members again. -/
theorem rebuild_ordered {position : ℕ} {members : List (ReactorGroupMember R S)}
    (hordered : Ordered position members) :
    rebuild position ((members.map ReactorGroupMember.reactor).zip
      (members.map ReactorGroupMember.ingress)) = .ok members := by
  induction members generalizing position with
  | nil => rfl
  | cons member members ih =>
    have hid : fromPosition position = some member.id :=
      fromPosition_eq_some.mpr (hordered 0 member rfl)
    rw [List.map_cons, List.map_cons, List.zip_cons_cons, rebuild, hid, ih hordered.tail]

/-! ### The parties -/

/-- Who calls into the gate. -/
inductive Party (n : ℕ)
  | spawner
  | worker (k : Fin n)
  deriving DecidableEq, Fintype

/-- Where the caller of `spawn` is. -/
inductive SpawnerPc (n : ℕ) (R S E : Type)
  | validating
  /-- At the head of the loop over the members. -/
  | cloning (index : ℕ)
  /-- In `spawn_worker`, with clones of its own. -/
  | creating (index : Fin n) (id : ReactorId)
  /-- In `spawn_supervisor`, with the assets. -/
  | supervising (workers : List (Fin n))
  /-- The assets are in their slot. -/
  | offering
  /-- The supervisor's thread could not be created. -/
  | recovering (source : E)
  /-- Is about to call `gate.start()`. -/
  | opening
  | opened
  /-- Is about to call `gate.abort()`. -/
  | aborting (failure : ReactorGroupSpawnFailure E)
  | aborted (failure : ReactorGroupSpawnFailure E)
  | joining (failure : ReactorGroupSpawnFailure E) (workers : List (Fin n))
  /-- Takes the reactors out of their slots, and then unwraps the ingress. -/
  | taking (failure : ReactorGroupSpawnFailure E) (reactors : List R)
  | returned (result : Except (ReactorGroupSpawnError R S E) Unit)
  | panicked (panic : SpawnPanic)

/-- Where the thread of a worker is. -/
inductive WorkerPc (R X P : Type)
  /-- Is about to call `gate.wait()`. -/
  | starting
  | waiting
  /-- Is about to take its reactor. -/
  | taking
  | running (reactor : R)
  /-- The closure has returned or unwinds, and drops what it has captured. -/
  | dropping (result : Except (WorkerPanic P) (WorkerResult X))
  | finished (result : Except (WorkerPanic P) (WorkerResult X))

/-- Where the supervisor's thread is. -/
inductive SupervisorPc (n : ℕ)
  /-- Is about to take its assets. -/
  | starting
  | supervising (workers : List (Fin n))
  /-- "reactor group supervisor assets were already consumed" -/
  | panicked

/-- The slots, the ingress, the gate and the threads. -/
structure State (n : ℕ) (R S E X P : Type) where
  gate : StartGate.State (Party n)
  /-- The strong count of the ingress. -/
  strong : ℕ
  slots : Fin n → Option R
  workers : Fin n → Option (WorkerPc R X P)
  /-- The workers that `Pending` can join. -/
  pending : List (Fin n)
  /-- The slot of the supervisor's assets: the workers it can join. -/
  assets : Option (List (Fin n))
  supervisor : Option (SupervisorPc n)
  spawner : SpawnerPc n R S E

inductive SpawnerEvent (n : ℕ) (E : Type)
  | validate
  | clone
  | create
  | reject
  | refuse (source : E)
  | assemble
  | offer
  | recover
  | decide (selected : StartDecision)
  | decided
  | join (worker : Fin n)
  | drop
  | take (slot : Fin n)
  | unwrap

inductive WorkerEvent (X P : Type)
  | wait
  | observe (decision : StartDecision)
  | take
  | exit (exit : X)
  | panic (payload : WorkerPanic P)
  | drop

inductive Label (n : ℕ) (E X P : Type)
  | spawner (event : SpawnerEvent n E)
  | worker (k : Fin n) (event : WorkerEvent X P)
  | supervisor
  | gate (party : Party n) (event : StartGate.Event)

/-- A reactor leaves its slot to be run. -/
def Label.runs {n : ℕ} : Label n E X P → Bool
  | .worker _ .take => true
  | _ => false

namespace State

variable {n : ℕ}

def setWorker (s : State n R S E X P) (k : Fin n) (pc : WorkerPc R X P) : State n R S E X P :=
  { s with workers := Function.update s.workers k (some pc) }

/-- Reactors in their slots, and nothing created. -/
def new (members : List (ReactorGroupMember R S)) : State members.length R S E X P where
  gate := .new
  strong := 0
  slots k := some (members.get k).reactor
  workers _ := none
  pending := []
  assets := none
  supervisor := none
  spawner := .validating

end State

/-- One step of the spawner, of a thread or of a call into the gate. -/
inductive Step (limits : NonZeroUsize) (name : String) (members : List (ReactorGroupMember R S))
    (s : State members.length R S E X P) :
    Label members.length E X P → State members.length R S E X P → Prop
  /-- The ingress starts with its handle and its closer. -/
  | validated : s.spawner = .validating → validate (E := E) limits members = .ok (.ok ()) →
      members.length ≠ 0 →
      Step limits name members s (.spawner .validate)
        { s with strong := 2, spawner := .cloning 0 }
  | becameEmpty : s.spawner = .validating → validate (E := E) limits members = .ok (.ok ()) →
      members.length = 0 →
      Step limits name members s (.spawner .validate) { s with spawner := .panicked .becameEmpty }
  | invalid {failure} : s.spawner = .validating → validate limits members = .ok (.error failure) →
      Step limits name members s (.spawner .validate)
        { s with spawner := .returned (.error ⟨failure, members⟩) }
  | validatePanics {panic} : s.spawner = .validating →
      validate (E := E) limits members = .error panic →
      Step limits name members s (.spawner .validate) { s with spawner := .panicked panic }
  | clone {k : Fin members.length} {id} : s.spawner = .cloning k.val →
      fromPosition k.val = some id →
      Step limits name members s (.spawner .clone)
        { s with strong := s.strong + 1, spawner := .creating k id }
  | clonePanics {k : Fin members.length} : s.spawner = .cloning k.val →
      fromPosition k.val = none →
      Step limits name members s (.spawner .clone)
        { s with spawner := .panicked .positionExceedsDomain }
  | reject {k id} : s.spawner = .creating k id → hasNul (workerName name k.val) = true →
      Step limits name members s (.spawner .reject)
        { s with
          strong := s.strong - 1
          spawner := .aborting (.reactorThread id .invalidThreadName) }
  /-- A thread that is not created drops its closure. -/
  | refuse {k id} (source : E) : s.spawner = .creating k id →
      hasNul (workerName name k.val) = false →
      Step limits name members s (.spawner (.refuse source))
        { s with
          strong := s.strong - 1
          spawner := .aborting (.reactorThread id (.os source)) }
  | create {k id} : s.spawner = .creating k id → hasNul (workerName name k.val) = false →
      Step limits name members s (.spawner .create)
        { s.setWorker k .starting with
          pending := s.pending ++ [k]
          spawner := .cloning (k.val + 1) }
  | assemble : s.spawner = .cloning members.length →
      Step limits name members s (.spawner .assemble)
        { s with strong := s.strong + 1, pending := [], spawner := .supervising s.pending }
  | rejectSupervisor {workers} : s.spawner = .supervising workers →
      hasNul (supervisorName name) = true →
      Step limits name members s (.spawner .reject)
        { s with
          strong := s.strong - 1
          pending := workers
          spawner := .aborting (.supervisorThread .invalidThreadName) }
  | offer {workers} : s.spawner = .supervising workers → hasNul (supervisorName name) = false →
      Step limits name members s (.spawner .offer)
        { s with assets := some workers, spawner := .offering }
  | refuseSupervisor (source : E) : s.spawner = .offering →
      Step limits name members s (.spawner (.refuse source))
        { s with spawner := .recovering source }
  | recover {source workers} : s.spawner = .recovering source → s.assets = some workers →
      Step limits name members s (.spawner .recover)
        { s with
          strong := s.strong - 1
          pending := workers
          assets := none
          spawner := .aborting (.supervisorThread (.os source)) }
  | recoverPanics {source} : s.spawner = .recovering source → s.assets = none →
      Step limits name members s (.spawner .recover)
        { s with spawner := .panicked .assetsConsumed }
  | createSupervisor : s.spawner = .offering →
      Step limits name members s (.spawner .create)
        { s with supervisor := some .starting, spawner := .opening }
  | start {gate} : s.spawner = .opening →
      StartGate.Step s.gate (.spawner, .call (.decide .start)) gate →
      Step limits name members s (.spawner (.decide .start)) { s with gate, spawner := .opened }
  | opened {result} : s.spawner = .opened → s.gate.calls .spawner = some (.returned result) →
      Step limits name members s (.spawner .decided) { s with spawner := .returned (.ok ()) }
  | abort {failure gate} : s.spawner = .aborting failure →
      StartGate.Step s.gate (.spawner, .call (.decide .abort)) gate →
      Step limits name members s (.spawner (.decide .abort))
        { s with gate, spawner := .aborted failure }
  | aborted {failure result} : s.spawner = .aborted failure →
      s.gate.calls .spawner = some (.returned result) →
      Step limits name members s (.spawner .decided)
        { s with pending := [], spawner := .joining failure s.pending }
  | join {failure k workers} : s.spawner = .joining failure (k :: workers) →
      s.workers k = some (.finished (.ok .aborted)) →
      Step limits name members s (.spawner (.join k))
        { s with spawner := .joining failure workers }
  | joinPanics {failure k workers panic} : s.spawner = .joining failure (k :: workers) →
      s.workers k = some (.finished (.error panic)) →
      Step limits name members s (.spawner (.join k))
        { s with spawner := .panicked .workerPanicked }
  | joinFails {failure k workers exit} : s.spawner = .joining failure (k :: workers) →
      s.workers k = some (.finished (.ok (.finished exit))) →
      Step limits name members s (.spawner (.join k))
        { s with spawner := .panicked .workerNotAborted }
  /-- `drop(self.control)`, with the closer. -/
  | drop {failure} : s.spawner = .joining failure [] →
      Step limits name members s (.spawner .drop)
        { s with strong := s.strong - 1, spawner := .taking failure [] }
  | take {failure reactors reactor} {k : Fin members.length} :
      s.spawner = .taking failure reactors → k.val = reactors.length → s.slots k = some reactor →
      Step limits name members s (.spawner (.take k))
        { s with
          slots := Function.update s.slots k none
          spawner := .taking failure (reactors ++ [reactor]) }
  | takePanics {failure reactors} {k : Fin members.length} : s.spawner = .taking failure reactors →
      k.val = reactors.length → s.slots k = none →
      Step limits name members s (.spawner (.take k)) { s with spawner := .panicked .slotConsumed }
  | unwrap {failure reactors rebuilt} : s.spawner = .taking failure reactors →
      reactors.length = members.length → s.strong = 1 →
      rebuild 0 (reactors.zip (members.map ReactorGroupMember.ingress)) = .ok rebuilt →
      Step limits name members s (.spawner .unwrap)
        { s with strong := 0, spawner := .returned (.error ⟨failure, rebuilt⟩) }
  | rebuildPanics {failure reactors panic} : s.spawner = .taking failure reactors →
      reactors.length = members.length → s.strong = 1 →
      rebuild 0 (reactors.zip (members.map ReactorGroupMember.ingress)) = .error panic →
      Step limits name members s (.spawner .unwrap) { s with spawner := .panicked panic }
  | unwrapPanics {failure reactors} : s.spawner = .taking failure reactors →
      reactors.length = members.length → s.strong ≠ 1 →
      Step limits name members s (.spawner .unwrap) { s with spawner := .panicked .ingressShared }
  | wait {k gate} : s.workers k = some .starting →
      StartGate.Step s.gate (.worker k, .call .wait) gate →
      Step limits name members s (.worker k .wait) ({ s with gate }.setWorker k .waiting)
  | observe {k decision} : s.workers k = some .waiting →
      s.gate.calls (.worker k) = some (.returned (some decision)) →
      Step limits name members s (.worker k (.observe decision))
        (s.setWorker k (if decision = .abort then .dropping (.ok .aborted) else .taking))
  | disappeared {k} : s.workers k = some .waiting → s.gate.calls (.worker k) = some .panicked →
      Step limits name members s (.worker k (.panic .decisionDisappeared))
        (s.setWorker k (.dropping (.error .decisionDisappeared)))
  | takeReactor {k reactor} : s.workers k = some .taking → s.slots k = some reactor →
      Step limits name members s (.worker k .take)
        ({ s with slots := Function.update s.slots k none }.setWorker k (.running reactor))
  | takeReactorPanics {k} : s.workers k = some .taking → s.slots k = none →
      Step limits name members s (.worker k (.panic .slotConsumed))
        (s.setWorker k (.dropping (.error .slotConsumed)))
  | exit {k reactor} (exit : X) : s.workers k = some (.running reactor) →
      Step limits name members s (.worker k (.exit exit))
        (s.setWorker k (.dropping (.ok (.finished exit))))
  | unwind {k reactor} (payload : P) : s.workers k = some (.running reactor) →
      Step limits name members s (.worker k (.panic (.unwound payload)))
        (s.setWorker k (.dropping (.error (.unwound payload))))
  /-- The worker's handle of the ingress goes with what its closure has captured. -/
  | dropCaptured {k result} : s.workers k = some (.dropping result) →
      Step limits name members s (.worker k .drop)
        ({ s with strong := s.strong - 1 }.setWorker k (.finished result))
  | supervise {workers} : s.supervisor = some .starting → s.assets = some workers →
      Step limits name members s .supervisor
        { s with assets := none, supervisor := some (.supervising workers) }
  | supervisePanics : s.supervisor = some .starting → s.assets = none →
      Step limits name members s .supervisor { s with supervisor := some .panicked }
  | gate {party event gate} : StartGate.Step s.gate (party, event) gate →
      (∀ call, event ≠ .call call) →
      Step limits name members s (.gate party event) { s with gate }

/-- One call of `spawn`. -/
def system (limits : NonZeroUsize) (name : String) (members : List (ReactorGroupMember R S))
    (E X P : Type) :
    TransitionSystem (State members.length R S E X P) (Label members.length E X P) where
  init s := s = .new members
  step := Step limits name members

end GroupStartup

end Calandria
