/-
A reactor that echoes one frame.

The duty owns a poller, a table with one connection, and the destination of the
polls.  One of its turns takes in what was polled, moves bytes under a budget, tells
Mio what it is interested in, and stops once the whole frame has been written back.
The socket and Mio are outside: their answers are arguments, and what they were asked
is listed.

* `Connection` — a frame on its way in and out again;
* `Connection.progress` — the two loops of `progress_io`;
* `FramedReactor.turn`, `FramedReactor.waitForIo` — the duty and its waiter;
* `FramedReactor.system` — the turns and waits of a run loop.
-/
import Calandria.Framing
import Calandria.MioPoller
import Calandria.Reactor
import Calandria.Wake

namespace Calandria

/-- `is_readable` and its siblings: whether a flag was observed. -/
def Readiness.observes (self : Readiness) (flag : BitVec 16) : Bool := self.bits &&& flag ≠ 0

/-- `Interest::READ_WRITE`. -/
def Interest.readWrite : Interest := .union .readable .writable

/-- Allocates an empty destination with one fixed hard capacity. -/
def PollEvents.new (capacity : NonZeroUsize) : PollEvents := ⟨capacity, []⟩

namespace FramedReactor

/-- `MAX_FRAME`. -/
abbrev maxFrame : ℕ := 4 * 1024

/-- `IO_BUDGET`. -/
abbrev ioBudget : ℕ := 8

theorem maxFrame_fits : maxFrame < (2 ^ 8) ^ 4 := by decide

theorem one_lt_u8 : 1 < 2 ^ 8 := by decide

/-- A big-endian `u32`, and as many bytes as it says. -/
abbrev frame : Framing.Format := ⟨2 ^ 8, 4, maxFrame, one_lt_u8, maxFrame_fits⟩

/-- What a socket answers when it does not do what it is asked. -/
inductive SocketError (X : Type)
  /-- `io::ErrorKind::WouldBlock` -/
  | wouldBlock
  | other (source : X)

/-- Failure of a turn or of a wait. -/
inductive Failure (X : Type)
  /-- `io::ErrorKind::UnexpectedEof` -/
  | unexpectedEof
  /-- `io::ErrorKind::WriteZero` -/
  | writeZero
  /-- "frame exceeds configured limit" -/
  | frameLimit
  /-- "example accepts exactly one frame" -/
  | notOneFrame
  | io (source : X)
  | mio (error : MioError X)
  | resource (failure : ResourceTokenFailure)
  | admission (failure : ResourceAdmissionFailure)

/-- A call that leaves the duty, with the answer where it has one. -/
inductive Call (X : Type)
  | poll (polled : Except X (List BackendEvent))
  | registry (call : RegistryCall)
  | read (answer : Except (SocketError X) (List U8))
  | write (buffer : List U8) (answer : Except (SocketError X) ℕ)

variable {X : Type}

/-! ### The connection -/

structure Connection where
  read : List U8
  write : List U8
  written : ℕ
  readReady : Bool
  writeReady : Bool
  interest : Interest

namespace Connection

def new : Connection where
  read := []
  write := []
  written := 0
  readReady := false
  writeReady := false
  interest := .readable

def observe (self : Connection) (readiness : Readiness) : Connection :=
  { self with
    readReady := self.readReady ||
      (readiness.observes 1 || readiness.observes 4 || readiness.observes 16)
    writeReady := self.writeReady ||
      (readiness.observes 2 || readiness.observes 8 || readiness.observes 16) }

def hasLocalWork (self : Connection) : Bool :=
  self.readReady || (self.writeReady && self.written < self.write.length)

def desiredInterest (self : Connection) : Interest :=
  if self.write.isEmpty then .readable else .readWrite

/-- Moves one whole frame to the bytes that are to be written. -/
def prepareEcho (self : Connection) : Connection × Except (Failure X) Bool :=
  if self.read.length < 4 then (self, .ok false)
  else
    -- `u32::from_be_bytes`, which a `usize` of 64 bits can hold
    let payload := Framing.value (self.read.take 4)
    if maxFrame < payload then (self, .error .frameLimit)
    else
      let total := payload + 4
      if self.read.length < total then (self, .ok false)
      else if self.read.length ≠ total then (self, .error .notOneFrame)
      else ({ self with write := self.write ++ self.read }, .ok true)

/-- What follows a `read` into a chunk of 512 bytes. -/
def receive (self : Connection) (answer : Except (SocketError X) (List U8)) :
    Connection × Except (Failure X) Unit :=
  match answer with
  | .ok chunk =>
    if chunk.length = 0 then (self, .error .unexpectedEof)
    else if maxFrame + 4 < self.read.length + chunk.length then (self, .error .frameLimit)
    else
      match { self with read := self.read ++ chunk }.prepareEcho with
      | (self, .error failure) => (self, .error failure)
      | (self, .ok true) => ({ self with readReady := false }, .ok ())
      | (self, .ok false) => (self, .ok ())
  | .error .wouldBlock => ({ self with readReady := false }, .ok ())
  | .error (.other source) => (self, .error (.io source))

/-- What follows a `write`. -/
def sent (self : Connection) (answer : Except (SocketError X) ℕ) :
    Connection × Except (Failure X) Unit :=
  match answer with
  | .ok 0 => (self, .error .writeZero)
  | .ok (written + 1) => ({ self with written := self.written + (written + 1) }, .ok ())
  | .error .wouldBlock => ({ self with writeReady := false }, .ok ())
  | .error (.other source) => (self, .error (.io source))

/-- The bytes that are still to be written. -/
def unwritten (self : Connection) : List U8 := self.write.drop self.written

end Connection

/-- What the socket answers in a turn, each call by what it leaves of the budget.  A `read`
fills no more than its chunk, and a `write` takes no more than its buffer. -/
structure Socket (X : Type) where
  read : ℕ → Except (SocketError X) { chunk : List U8 // chunk.length ≤ 512 }
  write : ℕ → (buffer : List U8) → Except (SocketError X) (Fin (buffer.length + 1))

/-- What a loop leaves: the connection, the calls it made, and what is left of the budget
beside the work, or why it failed. -/
structure Progress (X α : Type) where
  connection : Connection
  calls : List (Call X)
  result : Except (Failure X) α

namespace Connection

/-- The first loop of `progress_io`. -/
def readLoop (socket : Socket X) : ℕ → ℕ → Connection → Progress X (ℕ × ℕ)
  | 0, work, self => ⟨self, [], .ok (0, work)⟩
  | budget + 1, work, self =>
    if self.readReady && self.write.isEmpty then
      let answer := (socket.read budget).map Subtype.val
      match self.receive answer with
      | (self, .error failure) => ⟨self, [.read answer], .error failure⟩
      | (self, .ok ()) =>
        let rest := readLoop socket budget (work + 1) self
        { rest with calls := .read answer :: rest.calls }
    else ⟨self, [], .ok (budget + 1, work)⟩

/-- The second loop of `progress_io`. -/
def writeLoop (socket : Socket X) : ℕ → ℕ → Connection → Progress X (ℕ × ℕ)
  | 0, work, self => ⟨self, [], .ok (0, work)⟩
  | budget + 1, work, self =>
    if self.writeReady && self.written < self.write.length then
      let answer := (socket.write budget self.unwritten).map Fin.val
      match self.sent answer with
      | (next, .error failure) => ⟨next, [.write self.unwritten answer], .error failure⟩
      | (next, .ok ()) =>
        let rest := writeLoop socket budget (work + 1) next
        { rest with calls := .write self.unwritten answer :: rest.calls }
    else ⟨self, [], .ok (budget + 1, work)⟩

/-- Both loops of `progress_io`. -/
def progress (socket : Socket X) (budget : ℕ) (self : Connection) : Progress X ℕ :=
  let reads := self.readLoop socket budget 0
  match reads.result with
  | .error failure => ⟨reads.connection, reads.calls, .error failure⟩
  | .ok (budget, work) =>
    let writes := reads.connection.writeLoop socket budget work
    ⟨writes.connection, reads.calls ++ writes.calls, writes.result.map Prod.snd⟩

end Connection

/-! ### The duty -/

theorem usize_32_ne_zero : (32 : U64) ≠ 0 := by decide

def limits : MioPollerLimits := ⟨⟨32, usize_32_ne_zero⟩, ⟨1, U64.one_ne_zero⟩⟩

end FramedReactor

open FramedReactor in
structure FramedReactor where
  poller : MioPoller
  events : PollEvents
  resources : Resource.ResourceTable limits.registrations U64 Connection
  token : ResourceToken
  pollSaturated : Bool
  staleBackendEvents : U64
  staleResourceEvents : U64
  ioOperations : U64

namespace FramedReactor

variable {X : Type}

/-- The internal panic sites of the duty. -/
inductive Panic
  | poll (panic : PollPanic)
  | resource (panic : Resource.Panic)

/-- What a part of a turn leaves: the duty, the calls that were made, and the result. -/
structure Done (X α : Type) where
  reactor : FramedReactor
  calls : List (Call X)
  result : Except (Failure X) α

/-- The operator `?`, and what comes after it. -/
def Done.andThen {α β : Type} (first : Done X α)
    (next : FramedReactor → α → Except Panic (Done X β)) : Except Panic (Done X β) :=
  match first.result with
  | .error failure => .ok ⟨first.reactor, first.calls, .error failure⟩
  | .ok a => do
    let rest ← next first.reactor a
    .ok { rest with calls := first.calls ++ rest.calls }

/-- `to_u64`; a `usize` always fits. -/
def toU64 (value : ℕ) : U64 := Fin.ofNat _ value

/-- `new`; `registry` is what Mio answers to the registration. -/
def new (os : TargetOs) (registry : Except X Unit) :
    Except Panic (List RegistryCall × Except (Failure X) FramedReactor) :=
  let resources : Resource.ResourceTable limits.registrations U64 Connection :=
    .startingAt limits.registrations 1 0
  match resources.admitResource 1 .new with
  | .error panic => .error (.resource panic)
  | .ok (_, .error error) => .ok ([], .error (.admission error.failure))
  | .ok (resources, .ok token) =>
    match resources.get token with
    | .error failure => .ok ([], .error (.resource failure))
    | .ok _ =>
      match (MioPoller.new limits).register os token .readable registry with
      | .error panic => .error (.poll panic)
      | .ok (_, calls, .error error) => .ok (calls, .error (.mio error))
      | .ok (poller, calls, .ok ()) =>
        .ok (calls, .ok ⟨poller, .new limits.events, resources, token, false, 0, 0, 0⟩)

def observePoll (self : FramedReactor) (report : PollReport) : FramedReactor :=
  { self with
    pollSaturated := report.saturated
    staleBackendEvents := self.staleBackendEvents.saturatingAdd (toU64 report.stale) }

/-- One poll, and `observe_poll` of its report. -/
def poll (self : FramedReactor) (polled : Except X (List BackendEvent)) :
    Except Panic (Done X PollReport) :=
  match self.poller.pollOnce self.events polled with
  | .error panic => .error (.poll panic)
  | .ok (events, .error error) => .ok ⟨{ self with events }, [.poll polled], .error (.mio error)⟩
  | .ok (events, .ok report) =>
    .ok ⟨{ self with events }.observePoll report, [.poll polled], .ok report⟩

def waitForIo (self : FramedReactor) (polled : Except X (List BackendEvent)) :
    Except Panic (Done X WaitOutcome) := do
  (← self.poll polled).andThen fun self report =>
    .ok ⟨self, [], .ok (if report.observed = 0 then .idle else .notified)⟩

/-- The body of the loop of `ingest_readiness`. -/
def ingest (self : FramedReactor) : PollEvent → FramedReactor
  | .wake => self
  | .resource token readiness =>
    match self.resources.getMut token (Connection.observe · readiness) with
    | (resources, .ok _) => { self with resources }
    | (_, .error _) =>
      { self with staleResourceEvents := self.staleResourceEvents.saturatingAdd 1 }

def ingestReadiness (self : FramedReactor) : FramedReactor × ℕ :=
  (self.events.events.foldl ingest { self with events := self.events.clear },
    self.events.events.length)

def ingestPollBatches (self : FramedReactor) (polled : Except X (List BackendEvent)) :
    Except Panic (Done X ℕ) :=
  let (self, work) := self.ingestReadiness
  if self.pollSaturated then do
    (← self.poll polled).andThen fun self _ =>
      let (self, more) := self.ingestReadiness
      .ok ⟨self, [], .ok (work + more)⟩
  else .ok ⟨self, [], .ok work⟩

def progressIo (self : FramedReactor) (socket : Socket X) (budget : ℕ) : Done X ℕ :=
  match self.resources.getMut self.token fun connection =>
    (connection.progress socket budget).connection with
  | (_, .error failure) => ⟨self, [], .error (.resource failure)⟩
  | (resources, .ok (_, connection)) =>
    let progress := connection.progress socket budget
    ⟨{ self with resources }, progress.calls, progress.result⟩

def syncInterest (os : TargetOs) (self : FramedReactor) (registry : Except X Unit) :
    Done X Unit :=
  match self.resources.get self.token with
  | .error failure => ⟨self, [], .error (.resource failure)⟩
  | .ok (_, connection) =>
    let desired := connection.desiredInterest
    if desired ≠ connection.interest then
      match self.poller.reregister os self.token desired registry with
      | (poller, calls, .error error) =>
        ⟨{ self with poller }, calls.map .registry, .error (.mio error)⟩
      | (poller, calls, .ok ()) =>
        let (resources, _) :=
          self.resources.getMut self.token fun connection => { connection with interest := desired }
        ⟨{ self with poller, resources }, calls.map .registry, .ok ()⟩
    else ⟨self, [], .ok ()⟩

def finishIfWritten (self : FramedReactor) (registry : Except X Unit) :
    Except Panic (Done X Bool) :=
  match self.resources.get self.token with
  | .error failure => .ok ⟨self, [], .error (.resource failure)⟩
  | .ok (_, connection) =>
    if !connection.write.isEmpty && connection.written = connection.write.length then
      match self.poller.deregister self.token registry with
      | (poller, calls, .error error) =>
        .ok ⟨{ self with poller }, calls.map .registry, .error (.mio error)⟩
      | (poller, calls, .ok ()) =>
        match self.resources.remove self.token with
        | .error panic => .error (.resource panic)
        | .ok (resources, .error failure) =>
          .ok ⟨{ self with poller, resources }, calls.map .registry, .error (.resource failure)⟩
        | .ok (resources, .ok _) =>
          .ok ⟨{ self with poller, resources }, calls.map .registry, .ok true⟩
    else .ok ⟨self, [], .ok false⟩

/-- Counts the work of a turn. -/
def charge (self : FramedReactor) (work : ℕ) : FramedReactor :=
  { self with ioOperations := self.ioOperations.saturatingAdd (toU64 work) }

/-- What follows `finish_if_written`. -/
def report (self : FramedReactor) (work : ℕ) (finished : Bool) : Done X Turn :=
  if finished then ⟨self.charge work, [], .ok ⟨toU64 work, .stop⟩⟩
  else
    match self.resources.get self.token with
    | .error failure => ⟨self, [], .error (.resource failure)⟩
    | .ok (_, connection) =>
      ⟨self.charge work, [],
        .ok ⟨toU64 work,
          if self.pollSaturated || connection.hasLocalWork then .now else .wake⟩⟩

/-- What the outside answers in a turn. -/
structure Answers (X : Type) where
  polled : Except X (List BackendEvent)
  socket : Socket X
  reregistered : Except X Unit
  deregistered : Except X Unit

def turn (os : TargetOs) (self : FramedReactor) (answers : Answers X) :
    Except Panic (Done X Turn) := do
  (← self.ingestPollBatches answers.polled).andThen fun self work =>
    (self.progressIo answers.socket ioBudget).andThen fun self more =>
      (self.syncInterest os answers.reregistered).andThen fun self _ => do
        (← self.finishIfWritten answers.deregistered).andThen fun self finished =>
          .ok (self.report (work + more) finished)

/-! ### The run loop -/

/-- Where the run loop is. -/
inductive Pc (X : Type)
  | turning
  | waiting
  | stopped
  | failed (failure : Failure X)

structure State (X : Type) where
  reactor : FramedReactor
  pc : Pc X

/-- What the loop does after a turn. -/
def Pc.afterTurn : Except (Failure X) Turn → Pc X
  | .error failure => .failed failure
  | .ok ⟨_, .stop⟩ => .stopped
  | .ok ⟨_, .now⟩ => .turning
  | .ok _ => .waiting

/-- What it does after a wait. -/
def Pc.afterWait : Except (Failure X) WaitOutcome → Pc X
  | .error failure => .failed failure
  | .ok _ => .turning

/-- A turn or a wait: the calls that it made, and its result. -/
inductive Label (X : Type)
  | turn (calls : List (Call X)) (result : Except (Failure X) Turn)
  | wait (calls : List (Call X)) (result : Except (Failure X) WaitOutcome)

def Label.calls : Label X → List (Call X)
  | .turn calls _ | .wait calls _ => calls

/-- A batch holds no more events than Mio was given room for. -/
def Bounded : Except X (List BackendEvent) → Prop
  | .ok events => events.length ≤ limits.events.get.val
  | .error _ => True

/-- One step of the run loop. -/
inductive Step (os : TargetOs) (s : State X) : Label X → State X → Prop
  | turn {done} (answers : Answers X) : s.pc = .turning → Bounded answers.polled →
      s.reactor.turn os answers = .ok done →
      Step os s (.turn done.calls done.result) ⟨done.reactor, .afterTurn done.result⟩
  | wait {done} (polled : Except X (List BackendEvent)) : s.pc = .waiting → Bounded polled →
      s.reactor.waitForIo polled = .ok done →
      Step os s (.wait done.calls done.result) ⟨done.reactor, .afterWait done.result⟩

/-- A new duty under a run loop. -/
def system (os : TargetOs) (X : Type) : TransitionSystem (State X) (Label X) where
  init s := s.pc = .turning ∧
    ∃ calls, new (X := X) os (.ok ()) = .ok (calls, .ok s.reactor)
  step := Step os

end FramedReactor

end Calandria
