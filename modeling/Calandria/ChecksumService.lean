/-
A checksum service on one reactor.

The duty owns the receiver of a bounded mailbox and completes the requests that it
takes out of it.  One of its turns drains the mailbox once, applies what it has
drained, and if there was a `Stop` among it, closes the mailbox and applies what was
left.  Clients own senders, observers, and the completers that they have not sent
away; each critical section, of the mailbox and of a completion, is one step.

* `Command`, `Receipt`, `checksum` — the requests and the answers;
* `ChecksumShard`, `Pass`, `Pass.finish` — the duty, and one pass over its scratch;
* `Step` — the turns of the duty, its drop, and the clients, interleaved.
-/
import Calandria.Completion
import Calandria.GroupAdmission
import Calandria.MailboxDrain
import Calandria.MailboxPressure
import Calandria.Wake

namespace Calandria

/-- The event uses up the producer's end. -/
def Completion.Event.settles {T : Type} : Completion.Event T → Bool
  | complete _ _ | close => true
  | extract _ | abandon _ | internal => false

namespace ChecksumService

open Completion (Pair)
open Mailbox (Shared Performed)

/-! ### Requests and answers -/

/-- `Vec<u8>`, with the capacity that it has allocated. -/
structure Payload where
  bytes : List U8
  capacity : U64
  fits : bytes.length ≤ capacity.val

/-- `payload.len()`. -/
def Payload.len (payload : Payload) : U64 :=
  ⟨payload.bytes.length, lt_of_le_of_lt payload.fits payload.capacity.isLt⟩

structure Receipt where
  request : U64
  shard : ReactorId
  checksum : U64
  deriving DecidableEq

/-- A request; completers go by numbers. -/
inductive Command
  | digest (request : U64) (payload : Payload) (complete : ℕ)
  | stop

namespace Command

def retainedBytes : Command → RetainedBytes
  | digest _ payload _ => payload.capacity
  | stop => 0

/-- The completer that the command owns. -/
def completer : Command → Option ℕ
  | digest _ _ i => some i
  | stop => none

/-- Whether the command asks for a receipt. -/
def requests : Command → ℕ
  | digest _ _ _ => 1
  | stop => 0

/-- The bytes to sum up. -/
def length : Command → ℕ
  | digest _ payload _ => payload.len.val
  | stop => 0

end Command

theorem u8_le_u64 : 2 ^ 8 ≤ 2 ^ 64 := Nat.pow_le_pow_right Nat.two_pos (by omega)

/-- `u64::from`. -/
def widen (byte : U8) : U64 := byte.castLE u8_le_u64

def checksum (payload : List U8) : U64 :=
  payload.foldl (fun state byte => (state ^^^ widen byte) * 0x00000100000001b3) 0xcbf29ce484222325

def turnBudget : NonZeroUsize := ⟨8, U64.eight_ne_zero⟩

theorem sixteen_ne_zero : (16 : U64) ≠ 0 := by decide

/-- `service_limits`. -/
def serviceLimits : MailboxLimits where
  control := ⟨⟨2, U64.two_ne_zero⟩, 0⟩
  work := ⟨⟨16, sixteen_ne_zero⟩, 64 * 1024⟩

/-! ### The duty -/

/-- The duty, but for its receiver. -/
structure ChecksumShard where
  id : ReactorId
  scratch : List Command
  requests : U64
  bytes : U64

namespace ChecksumShard

/-- The shard as `reactor` makes it. -/
def new (id : ReactorId) : ChecksumShard := ⟨id, [], 0, 0⟩

def receipt (shard : ChecksumShard) (request : U64) (payload : Payload) : Receipt :=
  ⟨request, shard.id, checksum payload.bytes⟩

/-- The accounts of `apply_scratch`. -/
def serve (shard : ChecksumShard) : Command → ChecksumShard
  | .digest _ payload _ => { shard with
      requests := shard.requests.saturatingAdd 1
      bytes := shard.bytes.saturatingAdd payload.len }
  | .stop => shard

end ChecksumShard

/-- A pass over the scratch. -/
structure Pass where
  /-- What the drain has reported. -/
  report : DrainReport
  work : ℕ
  stopping : Bool
  /-- It is the second one, after the close. -/
  closed : Bool
  /-- The completer in whose `complete` it is. -/
  busy : Option ℕ

namespace Pass

/-- The pass after the drain of a turn. -/
def first (report : DrainReport) : Pass := ⟨report, report.drained, false, false, none⟩

/-- The pass over the items of the close. -/
def second (pass : Pass) (items : List Command) : Pass :=
  { pass with work := min (pass.work + items.length) U64.max.val, closed := true }

/-- What the turn returns. -/
def finish (pass : Pass) : Turn :=
  let work : WorkCount := Fin.ofNat _ pass.work
  if pass.stopping || pass.report.status = .closed then ⟨work, .stop⟩
  else if pass.report.status = .morePending then ⟨work, .now⟩
  else ⟨work, .wake⟩

end Pass

/-- Where the duty is. -/
inductive ShardPc
  /-- Between two turns. -/
  | idle
  | turning (pass : Pass)
  /-- A turn has returned `Stop`. -/
  | stopped
  /-- The shard drops the commands of its receiver. -/
  | dropping

/-! ### The parties -/

-- `W`: the task wakers of the observers; `V`: the errors of the mailbox wake
variable {V W : Type}

/-- The service and its clients. -/
structure State (W : Type) where
  mailbox : Shared Command
  shard : ChecksumShard
  pc : ShardPc
  cells : ℕ → Option (Pair Receipt W)
  /-- The completers in the hands of clients. -/
  held : ℕ → Bool

inductive Label (V : Type)
  /-- `completion()`. -/
  | create (i : ℕ)
  /-- A client's call on its sender. -/
  | client (call : Performed Command Command V)
  /-- A step of a client on a completion, or the end of a `complete`. -/
  | cell (i : ℕ) (event : Completion.Event Receipt)
  | drain (call : Performed Command Command V)
  | apply (command : Command) (result : Except Receipt Unit)
  | settle
  | close (call : Performed Command Command V)
  | finish (turn : Turn)
  | drop (call : Performed Command Command V)
  | discard (command : Command)

namespace State

def new (id : ReactorId) : State W where
  mailbox := .new serviceLimits Command.retainedBytes
  shard := .new id
  pc := .idle
  cells _ := none
  held _ := false

/-- The completer that goes with the command is in a client's hands. -/
def owns (s : State W) (command : Command) : Prop :=
  ∀ i, command.completer = some i → s.held i = true

/-- What is left to the clients when a send has this result. -/
def release (s : State W) (command : Command) : Except (TrySendError Command V) Unit → ℕ → Bool
  | .ok () => fun i => s.held i && decide (command.completer ≠ some i)
  | .error _ => s.held

def setCell (s : State W) (i : ℕ) (pair : Pair Receipt W) : State W :=
  { s with cells := Function.update s.cells i (some pair) }

end State

/-- One step of the duty or of a client.  Who sends or clones has a sender. -/
inductive Step (willWake : W → W → Bool) (s : State W) : Label V → State W → Prop
  | create {i} : s.cells i = none →
      Step willWake s (.create i)
        { s.setCell i ⟨.new, .holding, .holding⟩ with held := Function.update s.held i true }
  | send {lane command mailbox result} (woken : Except V Unit) : s.mailbox.state.senders ≠ 0 →
      s.owns command → s.mailbox.trySendTo lane command woken = (mailbox, result) →
      Step willWake s (.client (s.mailbox, .trySend lane command woken, .sent result))
        { s with mailbox, held := s.release command result }
  | clone {mailbox} : s.mailbox.state.senders ≠ 0 → s.mailbox.cloneSender = .ok mailbox →
      Step willWake s (.client (s.mailbox, .cloneSender, .done)) { s with mailbox }
  | dropSender (woken : Except V Unit) :
      Step willWake s (.client (s.mailbox, .dropSender woken, .done))
        { s with mailbox := s.mailbox.dropSender woken }
  | cell {i pair event pair'} : s.cells i = some pair → Completion.Step willWake pair event pair' →
      (event.settles = true → s.held i = true) →
      Step willWake s (.cell i event)
        { s.setCell i pair' with
          held := if event.settles then Function.update s.held i false else s.held }
  | drain {mailbox scratch report} : s.pc = .idle →
      s.mailbox.drainInto [] turnBudget = .ok (mailbox, scratch, report) →
      Step willWake s (.drain (s.mailbox, .drain [] turnBudget, .drained scratch report))
        { s with mailbox, shard := { s.shard with scratch }, pc := .turning (.first report) }
  | applyDigest {pass request payload i rest pair result pair'} : s.pc = .turning pass →
      pass.busy = none → s.shard.scratch = .digest request payload i :: rest →
      s.cells i = some pair →
      Completion.Step willWake pair (.complete (s.shard.receipt request payload) result) pair' →
      Step willWake s (.apply (.digest request payload i) result)
        { s.setCell i pair' with
          shard := { s.shard.serve (.digest request payload i) with scratch := rest }
          pc := .turning { pass with busy := some i } }
  | applyStop {pass rest} : s.pc = .turning pass → pass.busy = none →
      s.shard.scratch = .stop :: rest →
      Step willWake s (.apply .stop (.ok ()))
        { s with
          shard := { s.shard.serve .stop with scratch := rest }
          pc := .turning { pass with stopping := true } }
  /-- `complete` has told the observer, and returns. -/
  | settle {pass i pair} : s.pc = .turning pass → pass.busy = some i → s.cells i = some pair →
      pair.producer = .done →
      Step willWake s .settle { s with pc := .turning { pass with busy := none } }
  | close {pass mailbox items} : s.pc = .turning pass → pass.busy = none → s.shard.scratch = [] →
      pass.stopping = true → pass.closed = false → s.mailbox.closeInner = .ok (mailbox, items) →
      Step willWake s (.close (s.mailbox, .close, .closed items))
        { s with
          mailbox
          shard := { s.shard with scratch := items }
          pc := .turning (pass.second items) }
  | finish {pass} : s.pc = .turning pass → pass.busy = none → s.shard.scratch = [] →
      (pass.stopping = true → pass.closed = true) →
      Step willWake s (.finish pass.finish)
        { s with pc := if pass.finish.next = .stop then .stopped else .idle }
  /-- The reactor has ended, and the shard goes with its receiver. -/
  | drop {mailbox items} : s.pc = .idle ∨ s.pc = .stopped →
      s.mailbox.closeInner = .ok (mailbox, items) →
      Step willWake s (.drop (s.mailbox, .dropReceiver, .done))
        { s with mailbox, shard := { s.shard with scratch := items }, pc := .dropping }
  | discardDigest {request payload i rest pair pair'} : s.pc = .dropping →
      s.shard.scratch = .digest request payload i :: rest → s.cells i = some pair →
      Completion.Step willWake pair .close pair' →
      Step willWake s (.discard (.digest request payload i))
        { s.setCell i pair' with shard := { s.shard with scratch := rest } }
  | discardStop {rest} : s.pc = .dropping → s.shard.scratch = .stop :: rest →
      Step willWake s (.discard .stop) { s with shard := { s.shard with scratch := rest } }

/-- A new shard, one sender of its mailbox, and no completion. -/
def system (id : ReactorId) (willWake : W → W → Bool) (V : Type) :
    TransitionSystem (State W) (Label V) where
  init s := s = .new id
  step := Step willWake

end ChecksumService

end Calandria
