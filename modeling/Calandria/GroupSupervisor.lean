/-
The supervisor of a reactor group.

Each worker of a started group runs its reactor, asks for the termination of the
group if that has ended fatally, and publishes its identity as its closure is left,
by return or by unwinding.  The supervisor receives as many identities as there are
workers, takes and joins the worker of each, closes the group's admission, and
aggregates the exits in the order of the members.

* `ReactorGroupMemberExit`, `aggregate`, `conclude` — the exits, and what is made of
  them;
* `WorkerPc`, `SupervisorPc` — where a worker and the supervisor are;
* `Step` — the workers and the supervisor, interleaved with the members, the callers of
  `request_termination` and admission.
-/
import Calandria.FixedVector
import Calandria.GroupStartup
import Calandria.GroupTermination

namespace Calandria

/-- Owned terminal state returned by one reactor run loop. -/
structure ReactorExit (D C W : Type) where
  host : EmbeddedHost
  outcome : ReactorOutcome D C W
  snapshot : ReactorSnapshot

/-- Terminal state of one reactor-group member thread; `P` is the payload of a panic. -/
inductive ReactorGroupMemberExit (D C W P : Type)
  | exited (exit : ReactorExit D C W)
  | panicked (payload : P)

/-- Aggregate terminal reason for one static reactor group. -/
inductive ReactorGroupOutcome
  | stopped
  | terminated
  | failed (reactor : ReactorId)
  | panicked (reactor : ReactorId)
  deriving DecidableEq

structure Supervised (D C W P : Type) where
  outcome : ReactorGroupOutcome
  members : List (ReactorGroupMemberExit D C W P)

/-- The panics of `supervise`. -/
inductive SupervisorPanic
  /-- "reactor group completion channel closed early" -/
  | closedEarly
  /-- "reactor group published an unrepresentable identity" -/
  | unrepresentableIdentity
  /-- "reactor group published duplicate completion" -/
  | duplicateCompletion
  /-- "started reactor group member reported startup abort" -/
  | startupAbort
  /-- "reactor group terminal exit missing" -/
  | exitMissing
  /-- "reactor group position exceeds identity domain" -/
  | positionExceedsDomain
  deriving DecidableEq

namespace Supervisor

open Calandria.Group (Position)
open Reactor (Member)

-- `T`, `U` and `V`: the queued values, the owners of materialized sends, and the errors of
-- the mailbox wakes; `D`, `C` and `W`: the errors of a member's duty, clock and waiter;
-- `E`: the errors of the termination wakes; `P`: the payloads of panics
variable {reactors : NonZeroUsize} {T U V D C W E P : Type}

/-! ### Exits -/

abbrev MemberExit (D C W P : Type) := ReactorGroupMemberExit D C W P

def isPanicked : MemberExit D C W P → Bool
  | .panicked _ => true
  | .exited _ => false

def isFailed : MemberExit D C W P → Bool
  | .exited ⟨_, .failed _, _⟩ => true
  | _ => false

def isTerminated : MemberExit D C W P → Bool
  | .exited ⟨_, .terminated, _⟩ => true
  | _ => false

/-- `is_fatal`. -/
def isFatal (exit : MemberExit D C W P) : Bool := isFailed exit || isPanicked exit

/-- `ReactorId::from_position`, in `aggregate`. -/
def aggregateAt (outcome : ReactorId → ReactorGroupOutcome) (position : ℕ) :
    Except SupervisorPanic ReactorGroupOutcome :=
  match GroupStartup.fromPosition position with
  | none => .error .positionExceedsDomain
  | some reactor => .ok (outcome reactor)

def aggregate (members : List (MemberExit D C W P)) :
    Except SupervisorPanic ReactorGroupOutcome :=
  match members.findIdx? isPanicked with
  | some position => aggregateAt .panicked position
  | none =>
    match members.findIdx? isFailed with
    | some position => aggregateAt .failed position
    | none => if members.any isTerminated then .ok .terminated else .ok .stopped

/-- `exits.into_iter().map(..).collect()`, over the positions from the first. -/
def collect (exits : Position reactors → Option (MemberExit D C W P)) :
    List (Position reactors) → Except SupervisorPanic (List (MemberExit D C W P))
  | [] => .ok []
  | k :: rest =>
    match exits k with
    | none => .error .exitMissing
    | some exit =>
      match collect exits rest with
      | .error panic => .error panic
      | .ok members => .ok (exit :: members)

/-- What the supervisor makes of its table of exits. -/
def conclude (exits : Position reactors → Option (MemberExit D C W P)) :
    Except SupervisorPanic (Supervised D C W P) :=
  match collect exits (List.finRange reactors.get.val) with
  | .error panic => .error panic
  | .ok members =>
    match aggregate members with
    | .error panic => .error panic
    | .ok outcome => .ok ⟨outcome, members⟩

/-- What a worker's thread returns, or the payload with which it has unwound. -/
abbrev ThreadResult (D C W P : Type) := Except P (WorkerResult (MemberExit D C W P))

/-- The exit that the supervisor takes from a joined worker. -/
def settle : ThreadResult D C W P → Except SupervisorPanic (MemberExit D C W P)
  | .error payload => .ok (.panicked payload)
  | .ok (.finished exit) => .ok exit
  | .ok .aborted => .error .startupAbort

/-- What `catch_unwind` makes of a member that is done with its reactor. -/
def memberExit (m : Member D C W) (payload : P) : Option (MemberExit D C W P) :=
  match m.pc with
  | .dropped (some outcome) => some (.exited ⟨m.host, outcome, m.snapshot⟩)
  | .dropped none => some (.panicked payload)
  | _ => none

/-! ### The parties -/

/-- `ReactorId::from_position` of a worker's position, which is in range. -/
def reactorId (k : Position reactors) : ReactorId :=
  ⟨k.val, lt_trans k.isLt reactors.get.isLt⟩

/-- `ReactorId::position`. -/
def position (id : ReactorId) : Option ℕ := if id.val < 2 ^ 64 then some id.val else none

/-- Where the thread of a worker is. -/
inductive WorkerPc (D C W P : Type)
  /-- In `gate.wait()`. -/
  | waiting
  | running
  /-- Is about to look whether its exit is fatal. -/
  | classifying (exit : MemberExit D C W P)
  /-- In `group.request_termination()`. -/
  | terminating (exit : MemberExit D C W P)
  /-- The completion is about to send. -/
  | publishing (result : ThreadResult D C W P)
  /-- Drops its sender, and what else the closure has captured. -/
  | dropping (result : ThreadResult D C W P)
  | finished (result : ThreadResult D C W P)

/-- Where the supervisor is. -/
inductive SupervisorPc (reactors : NonZeroUsize) (D C W P : Type)
  /-- At the head of the loop. -/
  | receiving (round : ℕ)
  | taking (round : ℕ) (id : ReactorId)
  | joining (round : ℕ) (slot worker : Position reactors)
  /-- Runs `admission.close()`, as this closer. -/
  | closing (closer : ℕ)
  | collecting
  | finished (supervised : Supervised D C W P)
  | panicked (panic : SupervisorPanic)

/-- The receiver of the completions has not been dropped. -/
def SupervisorPc.listening : SupervisorPc reactors D C W P → Bool
  | .finished _ | .panicked _ => false
  | _ => true

structure State (reactors : NonZeroUsize) (T U V D C W E P : Type) where
  group : GroupTermination.State reactors T U V D C W E
  /-- What the gate has decided. -/
  decision : StartDecision
  workers : Position reactors → WorkerPc D C W P
  /-- The bounded channel of completions. -/
  completions : List ReactorId
  /-- The supervisor's join handles, by the workers they belong to. -/
  handles : Position reactors → Option (Position reactors)
  exits : Position reactors → Option (MemberExit D C W P)
  supervisor : SupervisorPc reactors D C W P

inductive WorkerEvent (D C W P : Type)
  | pass
  | exit (exit : MemberExit D C W P)
  | calm
  | fatal
  | terminated
  | panic (payload : P)
  | publish
  | drop

inductive SupervisorEvent (reactors : NonZeroUsize)
  | receive
  | take
  | join (worker : Position reactors)
  | close (event : Group.CloseEvent reactors)
  | closed
  | collect

inductive Label (reactors : NonZeroUsize) (T U V D C W E P : Type)
  | group (label : GroupTermination.Label reactors T U V D C W E)
  | worker (k : Position reactors) (event : WorkerEvent D C W P)
  | supervisor (event : SupervisorEvent reactors)

namespace State

def setWorker (s : State reactors T U V D C W E P) (k : Position reactors) (pc : WorkerPc D C W P) :
    State reactors T U V D C W E P :=
  { s with workers := Function.update s.workers k pc }

/-- What goes on beside the workers and the supervisor: members run while their workers
run them, and admission is closed only by callers and the supervisor. -/
def free (s : State reactors T U V D C W E P) : GroupTermination.Label reactors T U V D C W E → Prop
  | .member k _ => s.workers k = .running
  | .caller (.worker _) .close => False
  | .admission (.close c event) => event ≠ .store ∧ s.supervisor ≠ .closing c
  | _ => True

end State

/-- One step of a worker, of the supervisor, or of the group beside them. -/
inductive Step (s : State reactors T U V D C W E P) :
    Label reactors T U V D C W E P → State reactors T U V D C W E P → Prop
  | group {label group} : GroupTermination.Step s.group label group → s.free label →
      Step s (.group label) { s with group }
  | pass {k} : s.workers k = .waiting →
      Step s (.worker k .pass)
        (s.setWorker k (if s.decision = .abort then .dropping (.ok .aborted) else .running))
  | exit {k exit} (payload : P) : s.workers k = .running →
      memberExit (s.group.members k) payload = some exit →
      Step s (.worker k (.exit exit)) (s.setWorker k (.classifying exit))
  | calm {k exit} : s.workers k = .classifying exit → isFatal exit = false →
      Step s (.worker k .calm) (s.setWorker k (.publishing (.ok (.finished exit))))
  | fatal {k exit group} : s.workers k = .classifying exit → isFatal exit = true →
      GroupTermination.Step s.group (.caller (.worker k) .close) group →
      Step s (.worker k .fatal) ({ s with group }.setWorker k (.terminating exit))
  | terminated {k exit termination} : s.workers k = .terminating exit →
      s.group.callers (.worker k) = some (.returned termination) →
      Step s (.worker k .terminated) (s.setWorker k (.publishing (.ok (.finished exit))))
  /-- A wake of the termination request has panicked, and the exit is lost. -/
  | unwind {k exit} (payload : P) : s.workers k = .terminating exit →
      s.group.callers (.worker k) = some .panicked →
      Step s (.worker k (.panic payload)) (s.setWorker k (.publishing (.error payload)))
  | publish {k result} : s.workers k = .publishing result → s.supervisor.listening = true →
      s.completions.length < reactors.get.val →
      Step s (.worker k .publish)
        ({ s with completions := s.completions ++ [reactorId k] }.setWorker k (.dropping result))
  /-- The send fails, and its error is ignored. -/
  | publishClosed {k result} : s.workers k = .publishing result → s.supervisor.listening = false →
      Step s (.worker k .publish) (s.setWorker k (.dropping result))
  | drop {k result} : s.workers k = .dropping result →
      Step s (.worker k .drop) (s.setWorker k (.finished result))
  | receive {round id rest} : s.supervisor = .receiving round → round < reactors.get.val →
      s.completions = id :: rest →
      Step s (.supervisor .receive) { s with completions := rest, supervisor := .taking round id }
  /-- All senders are gone.  A worker drops its sender on its way out, a moment before it is
  finished.  It sends nothing in between, so a `recv` that returned in that moment would return
  the same error; waiting for the end leaves no behaviour out. -/
  | closedEarly {round} : s.supervisor = .receiving round → round < reactors.get.val →
      s.completions = [] → (∀ k, ∃ result, s.workers k = .finished result) →
      Step s (.supervisor .receive) { s with supervisor := .panicked .closedEarly }
  | unrepresentable {round id} : s.supervisor = .taking round id → position id = none →
      Step s (.supervisor .take) { s with supervisor := .panicked .unrepresentableIdentity }
  | take {round id k worker} : s.supervisor = .taking round id → position id = some k.val →
      s.handles k = some worker →
      Step s (.supervisor .take)
        { s with
          handles := Function.update s.handles k none
          supervisor := .joining round k worker }
  | duplicate {round id p} : s.supervisor = .taking round id → position id = some p →
      (∀ k, k.val = p → s.handles k = none) →
      Step s (.supervisor .take) { s with supervisor := .panicked .duplicateCompletion }
  | join {round slot worker result exit} : s.supervisor = .joining round slot worker →
      s.workers worker = .finished result → settle result = .ok exit →
      Step s (.supervisor (.join worker))
        { s with
          exits := Function.update s.exits slot (some exit)
          supervisor := .receiving (round + 1) }
  | joinFails {round slot worker result panic} : s.supervisor = .joining round slot worker →
      s.workers worker = .finished result → settle result = .error panic →
      Step s (.supervisor (.join worker)) { s with supervisor := .panicked panic }
  | store {c group} : s.supervisor = .receiving reactors.get.val →
      GroupTermination.Step s.group (.admission (.close c .store)) group →
      Step s (.supervisor (.close .store)) { s with group, supervisor := .closing c }
  | close {c event group} : s.supervisor = .closing c →
      GroupTermination.Step s.group (.admission (.close c event)) group →
      Step s (.supervisor (.close event)) { s with group }
  | closed {c} : s.supervisor = .closing c → s.group.admission.closers c = some .returned →
      Step s (.supervisor .closed) { s with supervisor := .collecting }
  | collect {supervised} : s.supervisor = .collecting → conclude s.exits = .ok supervised →
      Step s (.supervisor .collect) { s with supervisor := .finished supervised }
  | collectFails {panic} : s.supervisor = .collecting → conclude s.exits = .error panic →
      Step s (.supervisor .collect) { s with supervisor := .panicked panic }

/-- A started group: its gate is open, and its supervisor has all the join handles. -/
def system (reactors : NonZeroUsize) (T U V D C W E P : Type) :
    TransitionSystem (State reactors T U V D C W E P) (Label reactors T U V D C W E P) where
  init s := (GroupTermination.system reactors T U V D C W E).init s.group ∧ s.decision = .start ∧
    (∀ k, s.workers k = .waiting) ∧ s.completions = [] ∧ (∀ k, s.handles k = some k) ∧
    (∀ k, s.exits k = none) ∧ s.supervisor = .receiving 0
  step := Step

end Supervisor

end Calandria
