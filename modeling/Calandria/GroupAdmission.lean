/-
The admission fence of a reactor group.

A send looks at the group's flag, locks the shard of the reactor it names, looks
again, and goes through the shard's mailbox while it holds the lock.  A close
stores the flag and then locks and unlocks every shard in turn.  A step is one
access to the flag, one operation on a lock, one call of consumer code, or one
critical change of a mailbox.  Measurements, materializations and wakes may
panic; the two locks are then released on the way out.

* `SendMoves` — what a send does to the shard it names;
* `Step` — the steps of sends, closers and receivers;
* `Inv` — a closer that is past a shard has left no send behind it there;
* `Group.admission_fence` — what this says of every interleaving.
-/
import Calandria.TransitionSystem
import Calandria.Mailbox

namespace Calandria

/-- Stable zero-based identity of one reactor in a group. -/
abbrev ReactorId := U64

/-- Why a reactor group rejected routed ingress; `W` is the wake's error. -/
inductive ReactorGroupSendFailure (W : Type)
  | closed
  | unknownReactor (reactor : ReactorId) (reactors : NonZeroUsize)
  | mailbox (source : AdmissionFailure W)

/-- Rejected routed value with exact ownership preserved. -/
structure ReactorGroupSendError (V W : Type) where
  item : V
  lane : Lane
  failure : ReactorGroupSendFailure W

namespace Group

open Mailbox (Shared)

variable {reactors : NonZeroUsize} {T U W : Type}

/-! ### The calls -/

/-- A position in the group's table of shards. -/
abbrev Position (reactors : NonZeroUsize) := Fin reactors.get.val

/-- `reactor.position().and_then(|position| shards.get(position))`. -/
def lookup (reactors : NonZeroUsize) (reactor : ReactorId) : Option (Position reactors) :=
  if h : reactor.val < reactors.get.val then some ⟨reactor.val, h⟩ else none

/-- What `try_send_to` and `try_send_materialized` are given. -/
inductive Payload (T U : Type)
  | item (value : T)
  | owner (value : U) (retainedBytes : U → RetainedBytes) (materialize : U → T)

namespace Payload

/-- What the caller owns. -/
def owned : Payload T U → T ⊕ U
  | .item value => .inl value
  | .owner value _ _ => .inr value

/-- The measurement, by the mailbox's own function for a bare item. -/
def retained (measure : T → RetainedBytes) : Payload T U → RetainedBytes
  | .item value => measure value
  | .owner value retainedBytes _ => retainedBytes value

/-- The value that is queued. -/
def materialized : Payload T U → T
  | .item value => value
  | .owner value _ materialize => materialize value

end Payload

structure Call (T U : Type) where
  reactor : ReactorId
  lane : Lane
  payload : Payload T U

/-- What a send returns. -/
abbrev Result (T U W : Type) := Except (ReactorGroupSendError (T ⊕ U) W) Unit

def Call.rejected (call : Call T U) (failure : ReactorGroupSendFailure W) : Result T U W :=
  .error ⟨call.payload.owned, call.lane, failure⟩

/-! ### Sends -/

/-- Where a send is; a result of `none` stands for a panic on its way out. -/
inductive SendPc (reactors : NonZeroUsize) (T U W : Type)
  /-- Waits for the shard's lock. -/
  | acquiring (shard : Position reactors)
  | rechecking (shard : Position reactors)
  | measuring (shard : Position reactors)
  /-- Waits for the mailbox's lock. -/
  | locking (shard : Position reactors) (retained : RetainedBytes)
  | validating (shard : Position reactors) (retained : RetainedBytes)
  | waking (shard : Position reactors) (retained nextBytes : RetainedBytes)
  | materializing (shard : Position reactors) (retained nextBytes : RetainedBytes)
  | publishing (shard : Position reactors) (retained nextBytes : RetainedBytes)
  /-- Is about to release the mailbox's lock. -/
  | unlocking (shard : Position reactors) (result : Option (Result T U W))
  /-- Is about to release the shard's lock. -/
  | leaving (shard : Position reactors) (result : Option (Result T U W))
  | returning (result : Option (Result T U W))
  | returned (result : Option (Result T U W))

/-- The first look at the flag, and the look into the table. -/
def SendPc.enter (isOpen : Bool) (call : Call T U) : SendPc reactors T U W :=
  if !isOpen then .returning (some (call.rejected .closed))
  else
    match lookup reactors call.reactor with
    | none => .returning (some (call.rejected (.unknownReactor call.reactor reactors)))
    | some shard => .acquiring shard

/-- Who may hold the lock of a shard. -/
inductive Party
  | send (send : ℕ)
  | close (closer : ℕ)
  deriving DecidableEq

structure Shard (T : Type) where
  admission : Option Party
  /-- The send that holds the mailbox's lock. -/
  lock : Option ℕ
  ingress : Shared T

/-- What a step of a send shows. -/
inductive SendEvent (reactors : NonZeroUsize) (T U W : Type)
  | check (isOpen : Bool)
  | acquire
  | recheck (isOpen : Bool)
  | measure
  | lock
  | validate
  | wake (woken : Except W Unit)
  | materialize
  | publish (shard : Position reactors) (lane : Lane) (item : T)
  /-- The measurement has been called, and unwinds. -/
  | measurePanics
  | wakePanics
  /-- `materialize` has been called, and unwinds. -/
  | materializePanics
  | unlock
  | release
  | returned (result : Option (Result T U W))

/-- What a send does on the shard that it names. -/
inductive SendMoves (isOpen : Bool) (i : ℕ) (call : Call T U) (k : Position reactors)
    (shard : Shard T) : SendPc reactors T U W → SendEvent reactors T U W → Shard T →
      SendPc reactors T U W → Prop
  | acquire : shard.admission = none →
      SendMoves isOpen i call k shard (.acquiring k) .acquire
        { shard with admission := some (.send i) } (.rechecking k)
  | recheck :
      SendMoves isOpen i call k shard (.rechecking k) (.recheck isOpen) shard
        (if isOpen then .measuring k else .leaving k (some (call.rejected .closed)))
  | measure :
      SendMoves isOpen i call k shard (.measuring k) .measure shard
        (.locking k (call.payload.retained shard.ingress.measure))
  | measurePanics :
      SendMoves isOpen i call k shard (.measuring k) .measurePanics shard (.leaving k none)
  | lock {retained} : shard.lock = none →
      SendMoves isOpen i call k shard (.locking k retained) .lock
        { shard with lock := some i } (.validating k retained)
  | reject {retained ingress failure} :
      shard.ingress.validate call.lane retained = .error (ingress, failure) →
      SendMoves isOpen i call k shard (.validating k retained) .validate { shard with ingress }
        (.unlocking k (some (call.rejected (.mailbox failure))))
  | admits {retained nextBytes} :
      shard.ingress.validate (W := W) call.lane retained = .ok nextBytes →
      SendMoves isOpen i call k shard (.validating k retained) .validate shard
        (.waking k retained nextBytes)
  | wake {retained nextBytes} :
      SendMoves isOpen i call k shard (.waking k retained nextBytes) (.wake (.ok ())) shard
        (.materializing k retained nextBytes)
  | wakeFails {retained nextBytes source} :
      SendMoves isOpen i call k shard (.waking k retained nextBytes) (.wake (.error source))
        { shard with ingress := { shard.ingress with
          counters := shard.ingress.counters.incrementWakeFailures } }
        (.unlocking k (some (call.rejected (.mailbox (.wake source)))))
  | wakePanics {retained nextBytes} :
      SendMoves isOpen i call k shard (.waking k retained nextBytes) .wakePanics shard
        (.unlocking k none)
  | materialize {retained nextBytes} :
      SendMoves isOpen i call k shard (.materializing k retained nextBytes) .materialize shard
        (.publishing k retained nextBytes)
  | materializePanics {retained nextBytes} :
      SendMoves isOpen i call k shard (.materializing k retained nextBytes) .materializePanics
        shard (.unlocking k none)
  | publish {retained nextBytes} :
      SendMoves isOpen i call k shard (.publishing k retained nextBytes)
        (.publish k call.lane call.payload.materialized)
        { shard with ingress :=
          shard.ingress.publish call.lane call.payload.materialized retained nextBytes }
        (.unlocking k (some (.ok ())))
  | unlock {result} :
      SendMoves isOpen i call k shard (.unlocking k result) .unlock { shard with lock := none }
        (.leaving k result)
  | release {result} :
      SendMoves isOpen i call k shard (.leaving k result) .release
        { shard with admission := none } (.returning result)

/-! ### The group -/

/-- Where a call of `close` is. -/
inductive ClosePc (reactors : NonZeroUsize)
  /-- Waits for the lock of the shard at this position, if there is one. -/
  | locking (next : ℕ)
  | unlocking (shard : Position reactors)
  | returned

/-- The shared state, the sends and the closers by their numbers. -/
structure State (reactors : NonZeroUsize) (T U W : Type) where
  isOpen : Bool
  shards : Position reactors → Shard T
  sends : ℕ → Option (Call T U × SendPc reactors T U W)
  closers : ℕ → Option (ClosePc reactors)

inductive CloseEvent (reactors : NonZeroUsize)
  | store
  | lock (shard : Position reactors)
  | unlock (shard : Position reactors)
  | returned

/-- The values that a step puts into a lane. -/
def SendEvent.published (k : Position reactors) (lane : Lane) : SendEvent reactors T U W → List T
  | .publish k' lane' item => if k' = k ∧ lane' = lane then [item] else []
  | _ => []

/-- The same with the shard and the lane. -/
def SendEvent.publications : SendEvent reactors T U W → List (Position reactors × Lane × T)
  | .publish k lane item => [(k, lane, item)]
  | _ => []

/-- Consumer code or the publication runs, which a closed group must not do. -/
def SendEvent.quiet : SendEvent reactors T U W → Bool
  | .measure | .measurePanics | .materialize | .materializePanics | .publish _ _ _ => false
  | _ => true

inductive Label (reactors : NonZeroUsize) (T U W : Type)
  | send (send : ℕ) (event : SendEvent reactors T U W)
  | close (closer : ℕ) (event : CloseEvent reactors)
  /-- The receiver of a shard drains or closes its mailbox, and takes these values. -/
  | receive (shard : Position reactors) (taken : Lane → List T)

namespace Label

def published (k : Position reactors) (lane : Lane) : Label reactors T U W → List T
  | .send _ event => event.published k lane
  | _ => []

def taken (k : Position reactors) (lane : Lane) : Label reactors T U W → List T
  | .receive k' taken => if k' = k then taken lane else []
  | _ => []

/-- What one send publishes. -/
def publications (i : ℕ) : Label reactors T U W → List (Position reactors × Lane × T)
  | .send j event => if j = i then event.publications else []
  | _ => []

def quiet : Label reactors T U W → Bool
  | .send _ event => event.quiet
  | _ => true

end Label

/-- The operations of a receiver. -/
inductive Receives : Mailbox.Op T U W → Prop
  | drain {destination limit} : Receives (.drain destination limit)
  | close : Receives .close
  | dropReceiver : Receives .dropReceiver

namespace State

def setShard (s : State reactors T U W) (k : Position reactors) (shard : Shard T) :
    State reactors T U W :=
  { s with shards := Function.update s.shards k shard }

def setSend (s : State reactors T U W) (i : ℕ) (call : Call T U) (pc : SendPc reactors T U W) :
    State reactors T U W :=
  { s with sends := Function.update s.sends i (some (call, pc)) }

def setCloser (s : State reactors T U W) (c : ℕ) (pc : ClosePc reactors) :
    State reactors T U W :=
  { s with closers := Function.update s.closers c (some pc) }

def setAdmission (s : State reactors T U W) (k : Position reactors) (party : Option Party) :
    State reactors T U W :=
  s.setShard k { s.shards k with admission := party }

end State

/-- One step of a send, a closer or a receiver. -/
inductive Step (s : State reactors T U W) :
    Label reactors T U W → State reactors T U W → Prop
  | check {i} (call : Call T U) : s.sends i = none →
      Step s (.send i (.check s.isOpen)) (s.setSend i call (.enter s.isOpen call))
  | send {i call k pc event shard pc'} : s.sends i = some (call, pc) →
      SendMoves s.isOpen i call k (s.shards k) pc event shard pc' →
      Step s (.send i event) ((s.setShard k shard).setSend i call pc')
  | returned {i call result} : s.sends i = some (call, .returning result) →
      Step s (.send i (.returned result)) (s.setSend i call (.returned result))
  | store {c} : s.closers c = none →
      Step s (.close c .store) ({ s with isOpen := false }.setCloser c (.locking 0))
  | barrier {c} {k : Position reactors} : s.closers c = some (.locking k.val) →
      (s.shards k).admission = none →
      Step s (.close c (.lock k)) ((s.setAdmission k (some (.close c))).setCloser c (.unlocking k))
  | pass {c k} : s.closers c = some (.unlocking k) →
      Step s (.close c (.unlock k)) ((s.setAdmission k none).setCloser c (.locking (k.val + 1)))
  | closed {c} : s.closers c = some (.locking reactors.get.val) →
      Step s (.close c .returned) (s.setCloser c .returned)
  | receive {k ingress reply} {op : Mailbox.Op T U W} : Receives op → (s.shards k).lock = none →
      Mailbox.exec (s.shards k).ingress op = .ok (ingress, reply) →
      Step s (.receive k fun lane => Mailbox.values (Mailbox.handedOut lane (s.shards k).ingress op))
        (s.setShard k { s.shards k with ingress })

/-- An open group over mailboxes with any history of their own. -/
def system (reactors : NonZeroUsize) (T U W : Type) :
    TransitionSystem (State reactors T U W) (Label reactors T U W) where
  init s := s.isOpen = true ∧ (∀ i, s.sends i = none) ∧ (∀ c, s.closers c = none) ∧
    ∀ k, (s.shards k).admission = none ∧ (s.shards k).lock = none ∧
      ∃ limits measure, (Mailbox.system limits measure U W).Reachable (s.shards k).ingress
  step := Step

/-! ### What a place says -/

namespace SendPc

/-- The shard that a send has found. -/
def shard : SendPc reactors T U W → Option (Position reactors)
  | .acquiring k | .rechecking k | .measuring k | .locking k _ | .validating k _ | .waking k _ _
  | .materializing k _ _ | .publishing k _ _ | .unlocking k _ | .leaving k _ => some k
  | .returning _ | .returned _ => none

/-- The shard whose lock it holds. -/
def admission : SendPc reactors T U W → Option (Position reactors)
  | .rechecking k | .measuring k | .locking k _ | .validating k _ | .waking k _ _
  | .materializing k _ _ | .publishing k _ _ | .unlocking k _ | .leaving k _ => some k
  | .acquiring _ | .returning _ | .returned _ => none

/-- The shard whose mailbox it holds. -/
def mailbox : SendPc reactors T U W → Option (Position reactors)
  | .validating k _ | .waking k _ _ | .materializing k _ _ | .publishing k _ _
  | .unlocking k _ => some k
  | _ => none

/-- The shard that has let it in, and where it has yet to publish. -/
def admitted : SendPc reactors T U W → Option (Position reactors)
  | .measuring k | .locking k _ | .validating k _ | .waking k _ _ | .materializing k _ _
  | .publishing k _ _ => some k
  | _ => none

/-- The room in the lane that the mailbox has proven. -/
def reserved : SendPc reactors T U W → Option (Position reactors × RetainedBytes × RetainedBytes)
  | .waking k retained nextBytes | .materializing k retained nextBytes
  | .publishing k retained nextBytes => some (k, retained, nextBytes)
  | _ => none

/-- What it is about to return, or has returned. -/
def result : SendPc reactors T U W → Option (Option (Result T U W))
  | .unlocking _ result | .leaving _ result | .returning result | .returned result => some result
  | _ => none

theorem admission_of_admitted {pc : SendPc reactors T U W} {k : Position reactors}
    (h : pc.admitted = some k) : pc.admission = some k := by
  cases pc <;> first | exact h | cases h

theorem mailbox_of_reserved {pc : SendPc reactors T U W} {k : Position reactors}
    {retained nextBytes : RetainedBytes} (h : pc.reserved = some (k, retained, nextBytes)) :
    pc.mailbox = some k := by
  cases pc <;> cases h <;> rfl

end SendPc

namespace ClosePc

/-- The shard whose lock it holds. -/
def admission : ClosePc reactors → Option (Position reactors)
  | .unlocking k => some k
  | .locking _ | .returned => none

/-- It has locked this shard. -/
def past (k : Position reactors) : ClosePc reactors → Prop
  | .locking next => k.val < next
  | .unlocking k' => k ≤ k'
  | .returned => True

end ClosePc

namespace State

/-- The holders of the shards' locks. -/
def admission (s : State reactors T U W) (k : Position reactors) : Option Party :=
  (s.shards k).admission

/-- What each party holds of them. -/
def holds (s : State reactors T U W) : Party → Option (Position reactors)
  | .send i => (s.sends i).bind fun send => send.2.admission
  | .close c => (s.closers c).bind ClosePc.admission

/-- The holders of the mailboxes' locks. -/
def lock (s : State reactors T U W) (k : Position reactors) : Option ℕ := (s.shards k).lock

/-- What each send holds of them. -/
def inside (s : State reactors T U W) (i : ℕ) : Option (Position reactors) :=
  (s.sends i).bind fun send => send.2.mailbox

theorem admission_setShard (s : State reactors T U W) (k : Position reactors) (shard : Shard T) :
    (s.setShard k shard).admission = Function.update s.admission k shard.admission := by
  funext k'
  by_cases hk : k' = k
  · subst hk
    simp [admission, setShard]
  · simp [admission, setShard, hk]

theorem shards_self (s : State reactors T U W) (k : Position reactors) (shard : Shard T) :
    (s.setShard k shard).shards k = shard :=
  Function.update_self ..

theorem shards_of_ne (s : State reactors T U W) {k k' : Position reactors} (h : k' ≠ k)
    (shard : Shard T) : (s.setShard k shard).shards k' = s.shards k' :=
  Function.update_of_ne h ..

/-- A shard whose mailbox stays as it is. -/
theorem ingress_setShard {s : State reactors T U W} {k : Position reactors} {shard : Shard T}
    (h : shard.ingress = (s.shards k).ingress) (k' : Position reactors) :
    ((s.setShard k shard).shards k').ingress = (s.shards k').ingress := by
  by_cases hk : k' = k
  · subst hk
    rwa [shards_self]
  · rw [shards_of_ne s hk]

theorem ingress_setAdmission (s : State reactors T U W) (k : Position reactors)
    (party : Option Party) (k' : Position reactors) :
    ((s.setAdmission k party).shards k').ingress = (s.shards k').ingress := by
  have hsame : ({ s.shards k with admission := party } : Shard T).ingress
      = (s.shards k).ingress := rfl
  exact ingress_setShard hsame k'

theorem lock_setShard (s : State reactors T U W) (k : Position reactors) (shard : Shard T) :
    (s.setShard k shard).lock = Function.update s.lock k shard.lock := by
  funext k'
  by_cases hk : k' = k
  · subst hk
    simp [lock, setShard]
  · simp [lock, setShard, hk]

theorem holds_setSend (s : State reactors T U W) (i : ℕ) (call : Call T U)
    (pc : SendPc reactors T U W) :
    (s.setSend i call pc).holds = Function.update s.holds (.send i) pc.admission := by
  funext party
  cases party with
  | send j =>
    by_cases hj : j = i
    · subst hj
      simp [holds, setSend]
    · simp [holds, setSend, hj]
  | close c => rfl

theorem holds_setCloser (s : State reactors T U W) (c : ℕ) (pc : ClosePc reactors) :
    (s.setCloser c pc).holds = Function.update s.holds (.close c) pc.admission := by
  funext party
  cases party with
  | send i => rfl
  | close d =>
    by_cases hd : d = c
    · subst hd
      simp [holds, setCloser]
    · simp [holds, setCloser, hd]

theorem inside_setSend (s : State reactors T U W) (i : ℕ) (call : Call T U)
    (pc : SendPc reactors T U W) :
    (s.setSend i call pc).inside = Function.update s.inside i pc.mailbox := by
  funext j
  by_cases hj : j = i
  · subst hj
    simp [inside, setSend]
  · simp [inside, setSend, hj]

theorem holds_send {s : State reactors T U W} {i : ℕ} {call : Call T U}
    {pc : SendPc reactors T U W} (h : s.sends i = some (call, pc)) :
    s.holds (.send i) = pc.admission := by
  rw [holds, h]
  rfl

theorem holds_close {s : State reactors T U W} {c : ℕ} {pc : ClosePc reactors}
    (h : s.closers c = some pc) : s.holds (.close c) = pc.admission := by
  rw [holds, h]
  rfl

theorem inside_send {s : State reactors T U W} {i : ℕ} {call : Call T U}
    {pc : SendPc reactors T U W} (h : s.sends i = some (call, pc)) :
    s.inside i = pc.mailbox := by
  rw [inside, h]
  rfl

end State

/-- What is kept over all interleavings. -/
structure Inv (s : State reactors T U W) : Prop where
  locked : Guarded s.admission s.holds
  entered : Guarded s.lock s.inside
  mailbox : ∀ k, ∃ limits measure, Mailbox.Inv limits measure (s.shards k).ingress
  fits : ∀ {i call pc k retained nextBytes}, s.sends i = some (call, pc) →
    pc.reserved = some (k, retained, nextBytes) →
    (s.shards k).ingress.Admits call.lane retained nextBytes
  located : ∀ {i call pc k}, s.sends i = some (call, pc) → pc.shard = some k →
    lookup reactors call.reactor = some k
  closed : ∀ {c pc}, s.closers c = some pc → s.isOpen = false
  fenced : ∀ {c pc k}, s.closers c = some pc → pc.past k → ∀ {i call pc'},
    s.sends i = some (call, pc') → pc'.admitted ≠ some k

/-! ### What a send does to its shard -/

section

variable {isOpen : Bool} {i : ℕ} {call : Call T U} {k : Position reactors}
  {shard shard' : Shard T} {pc pc' : SendPc reactors T U W} {event : SendEvent reactors T U W}

namespace SendMoves

theorem shard_eq (h : SendMoves isOpen i call k shard pc event shard' pc') :
    pc.shard = some k ∧ (pc'.shard = some k ∨ pc'.shard = none) := by
  cases h with
  | recheck => cases isOpen <;> exact ⟨rfl, .inl rfl⟩
  | release => exact ⟨rfl, .inr rfl⟩
  | _ => exact ⟨rfl, .inl rfl⟩

/-- A step takes the shard's lock, releases it, or leaves it alone. -/
theorem admission_cases (h : SendMoves isOpen i call k shard pc event shard' pc') :
    (shard.admission = none ∧ shard'.admission = some (.send i) ∧ pc'.admission = some k) ∨
    (shard'.admission = shard.admission ∧ pc'.admission = pc.admission) ∨
    (pc.admission = some k ∧ shard'.admission = none ∧ pc'.admission = none) := by
  cases h with
  | acquire hfree => exact .inl ⟨hfree, rfl, rfl⟩
  | release => exact .inr (.inr ⟨rfl, rfl, rfl⟩)
  | recheck => cases isOpen <;> exact .inr (.inl ⟨rfl, rfl⟩)
  | _ => exact .inr (.inl ⟨rfl, rfl⟩)

/-- And so for the mailbox's lock. -/
theorem lock_cases (h : SendMoves isOpen i call k shard pc event shard' pc') :
    (shard.lock = none ∧ shard'.lock = some i ∧ pc'.mailbox = some k) ∨
    (shard'.lock = shard.lock ∧ pc'.mailbox = pc.mailbox) ∨
    (pc.mailbox = some k ∧ shard'.lock = none ∧ pc'.mailbox = none) := by
  cases h with
  | lock hfree => exact .inl ⟨hfree, rfl, rfl⟩
  | unlock => exact .inr (.inr ⟨rfl, rfl, rfl⟩)
  | recheck => cases isOpen <;> exact .inr (.inl ⟨rfl, rfl⟩)
  | _ => exact .inr (.inl ⟨rfl, rfl⟩)

/-- A send is let in only while the group is open. -/
theorem admitted_cases (h : SendMoves isOpen i call k shard pc event shard' pc')
    {k' : Position reactors} (hpc' : pc'.admitted = some k') :
    pc.admitted = some k' ∨ isOpen = true := by
  cases h with
  | recheck =>
    cases isOpen with
    | true => exact .inr rfl
    | false => cases hpc'
  | acquire | measurePanics | reject | wakeFails | wakePanics | materializePanics | publish
  | unlock | release => cases hpc'
  | _ => exact .inl hpc'

/-- The mailbox changes only under its lock. -/
theorem ingress_cases (h : SendMoves isOpen i call k shard pc event shard' pc') :
    shard'.ingress = shard.ingress ∨ pc.mailbox = some k := by
  cases h with
  | reject | wakeFails | publish => exact .inr rfl
  | _ => exact .inl rfl

/-- The room that a send has proven stays as long as it needs it. -/
theorem reserved_cases (h : SendMoves isOpen i call k shard pc event shard' pc')
    {k' : Position reactors} {retained nextBytes : RetainedBytes}
    (hpc' : pc'.reserved = some (k', retained, nextBytes)) :
    shard'.ingress = shard.ingress ∧ (pc.reserved = some (k', retained, nextBytes) ∨
      k' = k ∧ shard.ingress.Admits call.lane retained nextBytes) := by
  cases h with
  | recheck => cases isOpen <;> cases hpc'
  | admits hvalidate =>
    cases hpc'
    refine ⟨rfl, .inr ⟨rfl, ?_⟩⟩
    rcases shard.ingress.validate_cases (W := W) call.lane retained (.ok ()) with
      ⟨_, _, herror, -⟩ | ⟨nextBytes', hok, hadmits⟩
    · rw [hvalidate] at herror
      cases herror
    · rw [hvalidate] at hok
      cases hok
      exact hadmits
  | wake | materialize => exact ⟨rfl, .inl hpc'⟩
  | _ => cases hpc'

theorem ingress_next (h : SendMoves isOpen i call k shard pc event shard' pc')
    {limits : MailboxLimits} {measure : T → RetainedBytes}
    (hinv : Mailbox.Inv limits measure shard.ingress)
    (hfits : ∀ {retained nextBytes}, pc.reserved = some (k, retained, nextBytes) →
      shard.ingress.Admits call.lane retained nextBytes) :
    Mailbox.Inv limits measure shard'.ingress ∧ ∀ lane,
      Mailbox.values (shard.ingress.state.lane lane).queue ++ event.published k lane
        = Mailbox.values (shard'.ingress.state.lane lane).queue := by
  cases h with
  | reject hvalidate =>
    rcases shard.ingress.validate_cases (W := W) call.lane _ (.ok ()) with
      ⟨counters, _, herror, -⟩ | ⟨_, hok, -⟩
    · rw [hvalidate] at herror
      cases herror
      exact ⟨hinv.of_state rfl rfl rfl fun _ => rfl, fun lane => List.append_nil _⟩
    · rw [hvalidate] at hok
      cases hok
  | wakeFails => exact ⟨hinv.of_state rfl rfl rfl fun _ => rfl, fun lane => List.append_nil _⟩
  | publish =>
    refine ⟨hinv.publish (hfits rfl) _, fun lane => ?_⟩
    rw [Shared.publish_queue, Mailbox.values, Mailbox.values, List.map_append,
      SendEvent.published]
    by_cases hlane : call.lane = lane
    · rw [if_pos ⟨rfl, hlane⟩, if_pos hlane]
      rfl
    · rw [if_neg fun hand => hlane hand.2, if_neg hlane]
      rfl
  | _ => exact ⟨hinv, fun lane => List.append_nil _⟩

theorem published_elsewhere (h : SendMoves isOpen i call k shard pc event shard' pc')
    {k' : Position reactors} (hk : k' ≠ k) (lane : Lane) : event.published k' lane = [] := by
  cases h with
  | publish => exact if_neg fun hand => hk hand.1.symm
  | _ => rfl

/-- Consumer code runs, and values are published, only after a send is let in. -/
theorem admitted_of_loud (h : SendMoves isOpen i call k shard pc event shard' pc')
    (hloud : event.quiet = false) : pc.admitted = some k := by
  cases h with
  | measure | measurePanics | materialize | materializePanics | publish => rfl
  | _ => cases hloud

end SendMoves

end

/-! ### The invariant -/

/-- A send that has only looked at the flag holds nothing and is not let in. -/
structure SendPc.Outside (call : Call T U) (pc : SendPc reactors T U W) : Prop where
  admission : pc.admission = none
  mailbox : pc.mailbox = none
  admitted : pc.admitted = none
  reserved : pc.reserved = none
  located : ∀ {k}, pc.shard = some k → lookup reactors call.reactor = some k

theorem SendPc.enter_outside (isOpen : Bool) (call : Call T U) :
    (SendPc.enter isOpen call : SendPc reactors T U W).Outside call := by
  cases isOpen with
  | false => exact ⟨rfl, rfl, rfl, rfl, nofun⟩
  | true =>
    rw [enter]
    cases hlookup : lookup reactors call.reactor with
    | none => exact ⟨rfl, rfl, rfl, rfl, nofun⟩
    | some k => exact ⟨rfl, rfl, rfl, rfl, fun hk => hlookup.trans hk⟩

section

variable {s s' : State reactors T U W} {l : Label reactors T U W}

theorem Inv.locked_next (h : Inv s) (hstep : Step s l s') : Guarded s'.admission s'.holds := by
  cases hstep with
  | @check i call hi =>
    rw [State.holds_setSend]
    refine h.locked.stay ?_
    rw [State.holds, hi]
    exact (SendPc.enter_outside s.isOpen call).admission
  | send hi hm =>
    rw [State.holds_setSend]
    change Guarded (s.setShard _ _).admission (Function.update s.holds _ _)
    rw [State.admission_setShard]
    -- a step of a send takes the admission lock, leaves it alone or gives it up
    rcases hm.admission_cases with ⟨hfree, hshard, hpc'⟩ | ⟨hshard, hpc'⟩ | ⟨hpc, hshard, hpc'⟩
    · rw [hshard, hpc']
      exact h.locked.acquire _ hfree
    · rw [hshard]
      change Guarded (Function.update s.admission _ (s.admission _)) _
      rw [Function.update_eq_self]
      exact h.locked.stay (hpc'.trans (State.holds_send hi).symm)
    · rw [hshard, hpc']
      exact h.locked.release ((State.holds_send hi).trans hpc)
  | returned hi =>
    rw [State.holds_setSend]
    exact h.locked.stay (State.holds_send hi).symm
  | store hc =>
    rw [State.holds_setCloser]
    refine h.locked.stay (x := none) ?_
    show none = s.holds (.close _)
    rw [State.holds, hc]
    rfl
  | barrier hc hfree =>
    rw [State.holds_setCloser]
    change Guarded (s.setShard _ _).admission _
    rw [State.admission_setShard]
    exact h.locked.acquire _ hfree
  | pass hc =>
    rw [State.holds_setCloser]
    change Guarded (s.setShard _ _).admission _
    rw [State.admission_setShard]
    exact h.locked.release (State.holds_close hc)
  | closed hc =>
    rw [State.holds_setCloser]
    exact h.locked.stay (State.holds_close hc).symm
  | receive =>
    rw [State.admission_setShard]
    change Guarded (Function.update s.admission _ (s.admission _)) s.holds
    rw [Function.update_eq_self]
    exact h.locked

theorem Inv.entered_next (h : Inv s) (hstep : Step s l s') : Guarded s'.lock s'.inside := by
  cases hstep with
  | @check i call hi =>
    rw [State.inside_setSend]
    refine h.entered.stay ?_
    rw [State.inside, hi]
    exact (SendPc.enter_outside s.isOpen call).mailbox
  | send hi hm =>
    rw [State.inside_setSend]
    change Guarded (s.setShard _ _).lock (Function.update s.inside _ _)
    rw [State.lock_setShard]
    -- as for the admission lock, with that of the mailbox
    rcases hm.lock_cases with ⟨hfree, hshard, hpc'⟩ | ⟨hshard, hpc'⟩ | ⟨hpc, hshard, hpc'⟩
    · rw [hshard, hpc']
      exact h.entered.acquire _ hfree
    · rw [hshard]
      change Guarded (Function.update s.lock _ (s.lock _)) _
      rw [Function.update_eq_self]
      exact h.entered.stay (hpc'.trans (State.inside_send hi).symm)
    · rw [hshard, hpc']
      exact h.entered.release ((State.inside_send hi).trans hpc)
  | returned hi =>
    rw [State.inside_setSend]
    exact h.entered.stay (State.inside_send hi).symm
  | store | closed => exact h.entered
  | barrier | pass | receive =>
    change Guarded (s.setShard _ _).lock s.inside
    rw [State.lock_setShard]
    change Guarded (Function.update s.lock _ (s.lock _)) _
    rw [Function.update_eq_self]
    exact h.entered

/-- A mailbox whose lock is held by one send is not changed by anybody else. -/
theorem Inv.fits_next (h : Inv s) (hstep : Step s l s') {i : ℕ} {call : Call T U}
    {pc : SendPc reactors T U W} {k : Position reactors} {retained nextBytes : RetainedBytes}
    (hi : s'.sends i = some (call, pc)) (hpc : pc.reserved = some (k, retained, nextBytes)) :
    (s'.shards k).ingress.Admits call.lane retained nextBytes := by
  -- what has room now keeps it as long as its mailbox is left alone
  have hkeep : s.sends i = some (call, pc) → (s'.shards k).ingress = (s.shards k).ingress →
      (s'.shards k).ingress.Admits call.lane retained nextBytes := by
    intro hold hsame
    rw [hsame]
    exact h.fits hold hpc
  cases hstep with
  | @check j call' hj =>
    rcases update_eq_some.mp hi with ⟨-, hsend⟩ | ⟨-, hold⟩
    · cases hsend
      rw [(SendPc.enter_outside s.isOpen _).reserved] at hpc
      cases hpc
    · exact hkeep hold rfl
  | @send j call' k' pc₀ _ shard _ hj hm =>
    rcases update_eq_some.mp hi with ⟨hij, hsend⟩ | ⟨hij, hold⟩
    · cases hsend
      obtain ⟨hsame, hreserved | ⟨rfl, hadmits⟩⟩ := hm.reserved_cases hpc
      · rw [show (((s.setShard k' shard).setSend _ _ _).shards k).ingress = _ from
          State.ingress_setShard hsame k]
        exact h.fits hj hreserved
      · rw [show (((s.setShard k shard).setSend _ _ _).shards k).ingress = _ from
          State.ingress_setShard hsame k]
        exact hadmits
    · refine hkeep hold ?_
      rcases hm.ingress_cases with hsame | hinside
      · exact State.ingress_setShard hsame k
      -- the other send would hold the lock of the same mailbox
      · have hk : k ≠ k' := by
          rintro rfl
          have hi' := (State.inside_send hold).trans (SendPc.mailbox_of_reserved hpc)
          exact hij (h.entered.exclusive hi' ((State.inside_send hj).trans hinside))
        exact congrArg Shard.ingress (s.shards_of_ne hk shard)
  | returned hj =>
    rcases update_eq_some.mp hi with ⟨-, hsend⟩ | ⟨-, hold⟩
    · cases hsend
      cases hpc
    · exact hkeep hold rfl
  | store | closed => exact hkeep hi rfl
  | barrier | pass => exact hkeep hi (s.ingress_setAdmission _ _ k)
  | @receive k' ingress _ _ _ hfree =>
    refine hkeep hi ?_
    have hk : k ≠ k' := by
      rintro rfl
      have hi' : s.inside i = some k :=
        (State.inside_send hi).trans (SendPc.mailbox_of_reserved hpc)
      exact h.entered.not_free hi' hfree
    rw [s.shards_of_ne hk]

theorem Inv.located_next (h : Inv s) (hstep : Step s l s') {i : ℕ} {call : Call T U}
    {pc : SendPc reactors T U W} {k : Position reactors} (hi : s'.sends i = some (call, pc))
    (hpc : pc.shard = some k) : lookup reactors call.reactor = some k := by
  cases hstep with
  | @check j call' hj =>
    rcases update_eq_some.mp hi with ⟨-, hsend⟩ | ⟨-, hold⟩
    · cases hsend
      exact (SendPc.enter_outside s.isOpen _).located hpc
    · exact h.located hold hpc
  | send hj hm =>
    rcases update_eq_some.mp hi with ⟨-, hsend⟩ | ⟨-, hold⟩
    · cases hsend
      obtain ⟨hshard, hshard' | hgone⟩ := hm.shard_eq
      · exact (Option.some_inj.mp (hshard'.symm.trans hpc)) ▸ h.located hj hshard
      · rw [hgone] at hpc
        cases hpc
    · exact h.located hold hpc
  | returned hj =>
    rcases update_eq_some.mp hi with ⟨-, hsend⟩ | ⟨-, hold⟩
    · cases hsend
      cases hpc
    · exact h.located hold hpc
  | store | closed | barrier | pass | receive => exact h.located hi hpc

/-- Nothing opens the group again. -/
theorem Step.isOpen (hstep : Step s l s') (hclosed : s.isOpen = false) : s'.isOpen = false := by
  cases hstep with
  | store => rfl
  | _ => exact hclosed

theorem Inv.closed_next (h : Inv s) (hstep : Step s l s') {c : ℕ} {pc : ClosePc reactors}
    (hc : s'.closers c = some pc) : s'.isOpen = false := by
  have hold : s.closers c = some pc → s'.isOpen = false := fun hc => hstep.isOpen (h.closed hc)
  cases hstep with
  | store => rfl
  | barrier hd | pass hd | closed hd => exact h.closed hd
  | check | send | returned | receive => exact hold hc

/-- **The fence**: a send is let in only through an open group, and a closer that
has locked a shard finds nobody there. -/
theorem Inv.fenced_next (h : Inv s) (hstep : Step s l s') {c : ℕ} {pc : ClosePc reactors}
    {k : Position reactors} (hc : s'.closers c = some pc) (hpast : pc.past k) {i : ℕ}
    {call : Call T U} {pc' : SendPc reactors T U W} (hi : s'.sends i = some (call, pc')) :
    pc'.admitted ≠ some k := by
  intro hadmitted
  cases hstep with
  | @check j call' hj =>
    rcases update_eq_some.mp hi with ⟨-, hsend⟩ | ⟨-, hold⟩
    · cases hsend
      rw [(SendPc.enter_outside s.isOpen _).admitted] at hadmitted
      cases hadmitted
    · exact h.fenced hc hpast hold hadmitted
  | send hj hm =>
    rcases update_eq_some.mp hi with ⟨-, hsend⟩ | ⟨-, hold⟩
    · cases hsend
      rcases hm.admitted_cases hadmitted with hbefore | hopen
      · exact h.fenced hc hpast hj hbefore
      · rw [h.closed hc] at hopen
        cases hopen
    · exact h.fenced hc hpast hold hadmitted
  | returned hj =>
    rcases update_eq_some.mp hi with ⟨-, hsend⟩ | ⟨-, hold⟩
    · cases hsend
      cases hadmitted
    · exact h.fenced hc hpast hold hadmitted
  | store hd =>
    rcases update_eq_some.mp hc with ⟨-, hpc⟩ | ⟨-, hold⟩
    · cases hpc
      exact absurd hpast (Nat.not_lt_zero _)
    · exact h.fenced hold hpast hi hadmitted
  | @barrier d k' hd hfree =>
    rcases update_eq_some.mp hc with ⟨-, hpc⟩ | ⟨-, hold⟩
    · cases hpc
      rcases eq_or_lt_of_le hpast with rfl | hlt
      · -- a send that was let in here would hold the lock
        have hholds : s.holds (.send i) = some k :=
          (State.holds_send hi).trans (SendPc.admission_of_admitted hadmitted)
        exact h.locked.not_free hholds hfree
      · exact h.fenced hd (show k.val < k'.val from hlt) hi hadmitted
    · exact h.fenced hold hpast hi hadmitted
  | @pass d k' hd =>
    rcases update_eq_some.mp hc with ⟨-, hpc⟩ | ⟨-, hold⟩
    · cases hpc
      exact h.fenced hd (show k ≤ k' from Nat.lt_succ_iff.mp hpast) hi hadmitted
    · exact h.fenced hold hpast hi hadmitted
  | closed hd =>
    rcases update_eq_some.mp hc with ⟨-, hpc⟩ | ⟨-, hold⟩
    · exact h.fenced hd (show k.val < _ from k.isLt) hi hadmitted
    · exact h.fenced hold hpast hi hadmitted
  | receive => exact h.fenced hc hpast hi hadmitted

theorem Receives.accepted {op : Mailbox.Op T U W} (h : Receives op) (lane : Lane)
    (shared : Shared T) (reply : Mailbox.Reply T U W) :
    Mailbox.accepted lane (shared, op, reply) = [] := by
  cases h <;> rfl

/-- What a step does to a mailbox: what it publishes goes to the back of its
lane, what the receiver takes comes from the front. -/
theorem Inv.ingress_next (h : Inv s) (hstep : Step s l s') (k : Position reactors)
    {limits : MailboxLimits} {measure : T → RetainedBytes}
    (hinv : Mailbox.Inv limits measure (s.shards k).ingress) :
    Mailbox.Inv limits measure (s'.shards k).ingress ∧ ∀ lane,
      Mailbox.values ((s.shards k).ingress.state.lane lane).queue ++ l.published k lane
        = l.taken k lane ++ Mailbox.values ((s'.shards k).ingress.state.lane lane).queue := by
  -- a mailbox that the step does not touch
  have hkeep : (s'.shards k).ingress = (s.shards k).ingress →
      (∀ lane, l.published k lane = [] ∧ l.taken k lane = []) →
      Mailbox.Inv limits measure (s'.shards k).ingress ∧ ∀ lane,
        Mailbox.values ((s.shards k).ingress.state.lane lane).queue ++ l.published k lane
          = l.taken k lane ++ Mailbox.values ((s'.shards k).ingress.state.lane lane).queue := by
    intro hsame hnone
    rw [hsame]
    refine ⟨hinv, fun lane => ?_⟩
    rw [(hnone lane).1, (hnone lane).2, List.append_nil, List.nil_append]
  cases hstep with
  | @send i call k' pc event shard pc' hi hm =>
    by_cases hk : k = k'
    · subst hk
      rw [show ((s.setShard k shard).setSend i call pc').shards k = shard from s.shards_self k shard]
      exact hm.ingress_next hinv fun hreserved => h.fits hi hreserved
    · refine hkeep (congrArg Shard.ingress (s.shards_of_ne hk shard)) fun lane => ?_
      exact ⟨hm.published_elsewhere hk lane, rfl⟩
  | barrier | pass => exact hkeep (s.ingress_setAdmission _ _ k) fun _ => ⟨rfl, rfl⟩
  | check | returned | store | closed => exact hkeep rfl fun _ => ⟨rfl, rfl⟩
  | @receive k' ingress reply op hreceives hfree hexec =>
    by_cases hk : k = k'
    · subst hk
      rw [s.shards_self k]
      have hexecutes := Mailbox.exec_executes hinv hexec
      refine ⟨hexecutes.inv, fun lane => ?_⟩
      have hconserved := hexecutes.conserved lane
      rw [hreceives.accepted, List.append_nil] at hconserved
      rw [hconserved]
      show Mailbox.values _ ++ [] = (if k = k then _ else []) ++ _
      rw [if_pos rfl, List.append_nil]
      exact List.map_append
    · refine hkeep (congrArg Shard.ingress (s.shards_of_ne hk _)) fun lane => ⟨rfl, ?_⟩
      exact if_neg (Ne.symm hk)

theorem Inv.next (h : Inv s) (hstep : Step s l s') : Inv s' := by
  refine ⟨h.locked_next hstep, h.entered_next hstep, fun k => ?_, h.fits_next hstep,
    h.located_next hstep, h.closed_next hstep, h.fenced_next hstep⟩
  obtain ⟨limits, measure, hinv⟩ := h.mailbox k
  exact ⟨limits, measure, (h.ingress_next hstep k hinv).1⟩

theorem initial_inv (h : (system reactors T U W).init s) : Inv s := by
  obtain ⟨-, hsends, hclosers, hshards⟩ := h
  have hholds : ∀ party, s.holds party = none := by
    intro party
    cases party with
    | send i => rw [State.holds, hsends]; rfl
    | close c => rw [State.holds, hclosers]; rfl
  have hinside : ∀ i, s.inside i = none := by
    intro i
    rw [State.inside, hsends]
    rfl
  refine ⟨⟨fun {party k} hk => ?_⟩, ⟨fun {i k} hk => ?_⟩, fun k => ?_,
    fun {i call pc k retained nextBytes} hi => ?_, fun {i call pc k} hi => ?_,
    fun {c pc} hc => ?_, fun {c pc k} hc => ?_⟩
  · rw [hholds] at hk
    cases hk
  · rw [hinside] at hk
    cases hk
  · obtain ⟨-, -, limits, measure, hreachable⟩ := hshards k
    refine ⟨limits, measure, hreachable.invariant (fun hinit => ?_) fun hinv hexec => ?_⟩
    · rw [hinit]
      exact Mailbox.Inv.initial
    · exact (Mailbox.exec_executes hinv hexec).inv
  · rw [hsends] at hi
    cases hi
  · rw [hsends] at hi
    cases hi
  · rw [hclosers] at hc
    cases hc
  · rw [hclosers] at hc
    cases hc

end

/-! ### What each send has published -/

/-- What a send has published goes with what it returns. -/
def Accounts (reactors : NonZeroUsize) (call : Call T U)
    (publications : List (Position reactors × Lane × T)) :
    Option (Option (Result T U W)) → Prop
  | some (some (.ok ())) => ∃ k, lookup reactors call.reactor = some k ∧
      publications = [(k, call.lane, call.payload.materialized)]
  | some (some (.error error)) =>
    publications = [] ∧ error.item = call.payload.owned ∧ error.lane = call.lane
  | some none | none => publications = []

theorem SendMoves.accounts {isOpen : Bool} {i : ℕ} {call : Call T U} {k : Position reactors}
    {shard shard' : Shard T} {pc pc' : SendPc reactors T U W} {event : SendEvent reactors T U W}
    {publications : List (Position reactors × Lane × T)}
    (h : SendMoves isOpen i call k shard pc event shard' pc')
    (hlookup : lookup reactors call.reactor = some k)
    (haccounts : Accounts reactors call publications pc.result) :
    Accounts reactors call (publications ++ event.publications) pc'.result := by
  cases h with
  | recheck =>
    rw [show publications = [] from haccounts]
    cases isOpen with
    | true => exact rfl
    | false => exact ⟨rfl, rfl, rfl⟩
  | publish =>
    rw [show publications = [] from haccounts]
    exact ⟨k, hlookup, rfl⟩
  | reject | wakeFails =>
    rw [show publications = [] from haccounts]
    exact ⟨rfl, rfl, rfl⟩
  | unlock | release => exact (List.append_nil _).symm ▸ haccounts
  | _ =>
    rw [show publications = [] from haccounts]
    exact rfl

theorem SendPc.enter_accounts (isOpen : Bool) (call : Call T U) :
    Accounts reactors call [] (SendPc.enter isOpen call : SendPc reactors T U W).result := by
  cases isOpen with
  | false => exact ⟨rfl, rfl, rfl⟩
  | true =>
    rw [enter]
    cases lookup reactors call.reactor with
    | none => exact ⟨rfl, rfl, rfl⟩
    | some k => exact rfl

/-- Every send has published what its place says, and has returned what it says
it has. -/
structure History (tr : List (Label reactors T U W)) (s : State reactors T U W) : Prop where
  fresh : ∀ {i}, s.sends i = none → tr.flatMap (Label.publications i) = []
  accounts : ∀ {i call pc}, s.sends i = some (call, pc) →
    Accounts reactors call (tr.flatMap (Label.publications i)) pc.result
  returned : ∀ {i result}, .send i (.returned result) ∈ tr →
    ∃ call, s.sends i = some (call, .returned result)

theorem publications_snoc (tr : List (Label reactors T U W)) (l : Label reactors T U W) (i : ℕ) :
    (tr ++ [l]).flatMap (Label.publications i)
      = tr.flatMap (Label.publications i) ++ l.publications i := by
  rw [List.flatMap_append, List.flatMap_singleton]

section

variable {tr : List (Label reactors T U W)} {s s' : State reactors T U W}
  {l : Label reactors T U W}

/-- A step that is none of a send. -/
theorem History.other (h : History tr s) (hsends : s'.sends = s.sends)
    (hl : ∀ i event, l ≠ .send i event) : History (tr ++ [l]) s' := by
  have hnone : ∀ i, l.publications i = [] := by
    intro i
    cases l with
    | send j event => exact absurd rfl (hl j event)
    | close | receive => rfl
  refine ⟨fun {i} hi => ?_, fun {i call pc} hi => ?_, fun {i result} hmem => ?_⟩
  · rw [publications_snoc, hnone, List.append_nil]
    exact h.fresh (hsends ▸ hi)
  · rw [publications_snoc, hnone, List.append_nil]
    exact h.accounts (hsends ▸ hi)
  · rw [hsends]
    rcases List.mem_append.mp hmem with hmem | hmem
    · exact h.returned hmem
    · exact absurd (List.mem_singleton.mp hmem).symm (hl _ _)

/-- A step of a send. -/
theorem History.own (h : History tr s) {j : ℕ} {call : Call T U} {pc : SendPc reactors T U W}
    {event : SendEvent reactors T U W}
    (hsends : s'.sends = Function.update s.sends j (some (call, pc)))
    (haccounts : Accounts reactors call
      (tr.flatMap (Label.publications j) ++ event.publications) pc.result)
    (hpc : ∀ result, event = .returned result → pc = .returned result)
    (hnot : ∀ call result, s.sends j ≠ some (call, .returned result)) :
    History (tr ++ [.send j event]) s' := by
  refine ⟨fun {i} hi => ?_, fun {i call' pc'} hi => ?_, fun {i result} hmem => ?_⟩
  · have hij : i ≠ j := by
      rintro rfl
      rw [hsends, Function.update_self] at hi
      cases hi
    rw [hsends, Function.update_of_ne hij] at hi
    rw [publications_snoc, Label.publications, if_neg (Ne.symm hij), List.append_nil]
    exact h.fresh hi
  · rw [publications_snoc, Label.publications]
    rw [hsends] at hi
    rcases update_eq_some.mp hi with ⟨rfl, hsend⟩ | ⟨hij, hold⟩
    · cases hsend
      rwa [if_pos rfl]
    · rw [if_neg (Ne.symm hij), List.append_nil]
      exact h.accounts hold
  · rw [hsends]
    rcases List.mem_append.mp hmem with hmem | hmem
    · obtain ⟨call', hi⟩ := h.returned hmem
      have hij : i ≠ j := by
        rintro rfl
        exact hnot _ _ hi
      exact ⟨call', by rw [Function.update_of_ne hij, hi]⟩
    · cases List.mem_singleton.mp hmem
      exact ⟨call, by rw [Function.update_self, hpc result rfl]⟩

theorem History.next (h : History tr s) (hinv : Inv s) (hstep : Step s l s') :
    History (tr ++ [l]) s' := by
  cases hstep with
  | check call hi =>
    refine h.own rfl ?_ nofun fun _ _ hi' => ?_
    · rw [h.fresh hi]
      exact SendPc.enter_accounts s.isOpen call
    · rw [hi] at hi'
      cases hi'
  | send hi hm =>
    have hlookup := hinv.located hi hm.shard_eq.1
    refine h.own rfl (hm.accounts hlookup (h.accounts hi)) (fun result hevent => ?_)
      fun call result hi' => ?_
    · subst hevent
      cases hm
    · rw [hi] at hi'
      cases hi'
      cases hm
  | @returned i call result hi =>
    refine h.own rfl ?_ (fun _ hevent => by cases hevent; rfl) fun _ _ hi' => ?_
    · have haccounts := h.accounts hi
      show Accounts reactors call (tr.flatMap (Label.publications i) ++ []) (some result)
      rw [List.append_nil]
      exact haccounts
    · rw [hi] at hi'
      cases hi'
  | store | barrier | pass | closed | receive => exact h.other rfl nofun

end

theorem run_history {tr : List (Label reactors T U W)} {s : State reactors T U W}
    (h : (system reactors T U W).Run tr s) : Inv s ∧ History tr s := by
  refine h.invariant (I := fun tr s => Inv s ∧ History tr s) (fun {s} hinit => ?_) ?_
  · refine ⟨initial_inv hinit, fun _ => rfl, fun {i call pc} hi => ?_, nofun⟩
    rw [hinit.2.1] at hi
    cases hi
  · intro tr s l s' _ ih hstep
    exact ⟨ih.1.next hstep, ih.2.next ih.1 hstep⟩

/-! ### The fence -/

/-- A close that has returned stays returned. -/
theorem Step.stays_returned {s s' : State reactors T U W} {l : Label reactors T U W}
    (hstep : Step s l s') {c : ℕ} (hc : s.closers c = some .returned) :
    s'.closers c = some .returned := by
  cases hstep with
  | check | send | returned | receive => exact hc
  | store hd | barrier hd | pass hd | closed hd =>
    refine update_eq_some.mpr (.inr ⟨?_, hc⟩)
    rintro rfl
    rw [hc] at hd
    cases hd

/-- After a close has returned a step is quiet. -/
theorem Inv.quiet {s s' : State reactors T U W} {l : Label reactors T U W} (h : Inv s)
    (hstep : Step s l s') {c : ℕ} (hc : s.closers c = some .returned) : l.quiet = true := by
  cases hstep with
  | send hi hm =>
    by_contra hloud
    rw [Bool.not_eq_true] at hloud
    exact h.fenced hc trivial hi (hm.admitted_of_loud hloud)
  | _ => rfl

theorem quiet_after {tr : List (Label reactors T U W)} {s s' : State reactors T U W} (h : Inv s)
    {c : ℕ} (hc : s.closers c = some .returned) (hrun : Steps Step s tr s') :
    ∀ l ∈ tr, l.quiet = true := by
  refine (hrun.invariant (I := fun tr s => Inv s ∧ s.closers c = some .returned ∧
    ∀ l ∈ tr, Label.quiet l = true) ⟨h, hc, nofun⟩ ?_).2.2
  rintro tr u l v - ⟨hu, hcu, hquiet⟩ hstep
  refine ⟨hu.next hstep, hstep.stays_returned hcu, fun l' hl' => ?_⟩
  rcases List.mem_append.mp hl' with hmem | hmem
  · exact hquiet l' hmem
  · rw [List.mem_singleton.mp hmem]
    exact hu.quiet hstep hcu

/-- **The admission fence.**  In every interleaving of sends, closers and
receivers:

* once a close has returned no later step publishes a value, calls a measurement or
  `materialize` (whether it returns or unwinds), and no later send returns `Ok` unless it
  has published before;
* a send that returns has published exactly one value, to the lane it selected of
  the shard it named, and returns `Ok`, or it has published none and returns its
  owner; a send that a callback unwinds has published none;
* what is published to a lane is what the receiver takes and what stays queued;
* a close closes the group, and nothing opens it again. -/
theorem admission_fence {tr : List (Label reactors T U W)} {s₀ s : State reactors T U W}
    (hinit : (system reactors T U W).init s₀) (hrun : Steps Step s₀ tr s) :
    (∀ before c after, tr = before ++ .close c .returned :: after →
      (∀ l ∈ after, l.quiet = true) ∧
      ∀ i, .send i (.returned (some (.ok ()))) ∈ after →
        before.flatMap (Label.publications i) ≠ []) ∧
    (∀ i call result, s.sends i = some (call, .returned (some result)) →
      (result = .ok () ∧ ∃ k, lookup reactors call.reactor = some k ∧
        tr.flatMap (Label.publications i) = [(k, call.lane, call.payload.materialized)]) ∨
      ∃ failure, result = call.rejected failure ∧ tr.flatMap (Label.publications i) = []) ∧
    (∀ i call, s.sends i = some (call, .returned none) →
      tr.flatMap (Label.publications i) = []) ∧
    (∀ k lane, Mailbox.values ((s₀.shards k).ingress.state.lane lane).queue
        ++ tr.flatMap (Label.published k lane)
      = tr.flatMap (Label.taken k lane)
        ++ Mailbox.values ((s.shards k).ingress.state.lane lane).queue) ∧
    (∀ c, s.closers c ≠ none → s.isOpen = false) ∧
    ∀ before after u, tr = before ++ after → Steps Step s₀ before u → Steps Step u after s →
      u.isOpen = false → s.isOpen = false := by
  have hall : ∀ {tr s}, Steps Step s₀ tr s → Inv s ∧ History tr s :=
    fun hrun => run_history ⟨s₀, hinit, hrun⟩
  obtain ⟨hinv, hhistory⟩ := hall hrun
  refine ⟨fun before c after htr => ?_, fun i call result hi => ?_, fun i call hi => ?_,
    fun k lane => ?_, fun c hc => ?_, fun before after u _ _ hafter hclosed => ?_⟩
  · rw [htr, List.append_cons] at hrun
    obtain ⟨u, hbefore, hafter⟩ := hrun.split
    obtain ⟨v, -, hstep⟩ := hbefore.of_snoc
    have hc : u.closers c = some .returned := by
      generalize hl : (Label.close c .returned : Label reactors T U W) = l at hstep
      cases hstep with
      | closed => cases hl; exact Function.update_self ..
      | _ => cases hl
    have hquiet := quiet_after (hall hbefore).1 hc hafter
    refine ⟨hquiet, fun i hmem hnone => ?_⟩
    -- whoever returns `Ok` has published once, and not among the quiet steps
    have hlate : after.flatMap (Label.publications i) = [] := by
      refine List.flatMap_eq_nil_iff.mpr fun l hl => ?_
      have hl := hquiet l hl
      cases l with
      | send j event =>
        cases event with
        | publish => cases hl
        | _ => exact ite_self _
      | _ => rfl
    have hmem' : Label.send i (.returned (some (.ok ()))) ∈ tr := by
      rw [htr]
      exact List.mem_append_right _ (List.mem_cons_of_mem _ hmem)
    obtain ⟨call, hi⟩ := hhistory.returned hmem'
    obtain ⟨k, -, hpublished⟩ := hhistory.accounts hi
    rw [htr, List.flatMap_append, hnone, List.flatMap_cons, hlate] at hpublished
    cases hpublished
  · have haccounts := hhistory.accounts hi
    cases result with
    | ok => exact .inl ⟨rfl, haccounts⟩
    | error error =>
      obtain ⟨hnone, hitem, hlane⟩ := haccounts
      obtain ⟨item, lane, failure⟩ := error
      cases hitem
      cases hlane
      exact .inr ⟨failure, rfl, hnone⟩
  · exact hhistory.accounts hi
  · refine hrun.conserved (fun s => Mailbox.values ((s.shards k).ingress.state.lane lane).queue)
      (Label.published k lane) (Label.taken k lane) (P := Inv) (initial_inv hinit) ?_
    intro u l v hu hstep
    obtain ⟨limits, measure, hmailbox⟩ := hu.mailbox k
    exact ⟨hu.next hstep, (hu.ingress_next hstep k hmailbox).2 lane⟩
  · obtain ⟨pc, hpc⟩ := Option.ne_none_iff_exists'.mp hc
    exact hinv.closed hpc
  · exact hafter.preserves (P := fun s => s.isOpen = false)
      (fun hclosed hstep => Step.isOpen hstep hclosed) hclosed

/-- One shard over a new mailbox. -/
def single : State ⟨1, U64.one_ne_zero⟩ ℕ ℕ Unit :=
  ⟨true, fun _ => ⟨none, none, .new Mailbox.smallLimits fun _ => 0⟩, fun _ => none, fun _ => none⟩

def only : Position ⟨1, U64.one_ne_zero⟩ := ⟨0, Nat.one_pos⟩

/-- A close waits for the send that has been let in, and the send returns `Ok`
after the close has returned. -/
theorem admission_fence_raced :
    ∃ s, Steps Step single
      ([.send 0 (.check true), .send 0 .acquire, .send 0 (.recheck true), .close 0 .store,
        .send 0 .measure, .send 0 .lock, .send 0 .validate, .send 0 (.wake (.ok ())),
        .send 0 .materialize, .send 0 (.publish only .work 7), .send 0 .unlock, .send 0 .release,
        .close 0 (.lock only), .close 0 (.unlock only)] ++ .close 0 .returned ::
        [.send 0 (.returned (some (.ok ())))]) s ∧
      s.isOpen = false ∧ Mailbox.values ((s.shards only).ingress.state.lane .work).queue = [7] := by
  have hinit : (system ⟨1, by decide⟩ ℕ ℕ Unit).init single :=
    ⟨rfl, fun _ => rfl, fun _ => rfl, fun _ => ⟨rfl, rfl, _, _, _, .start rfl⟩⟩
  have hempty : Steps Step single [] single := .refl
  have hcheck := hempty.snoc (.check (i := 0) ⟨0, .work, .item 7⟩ rfl)
  have hacquire := hcheck.snoc (.send (i := 0) (k := only) rfl (.acquire rfl))
  have hrecheck := hacquire.snoc (.send (i := 0) (k := only) rfl .recheck)
  have hstore := hrecheck.snoc (.store (c := 0) rfl)
  have hmeasure := hstore.snoc (.send (i := 0) (k := only) rfl .measure)
  have hlock := hmeasure.snoc (.send (i := 0) (k := only) rfl (.lock rfl))
  have hvalidate := hlock.snoc (.send (i := 0) (k := only) rfl (.admits rfl))
  have hwake := hvalidate.snoc (.send (i := 0) (k := only) rfl .wake)
  have hpublish := (hwake.snoc (.send (i := 0) (k := only) rfl .materialize)).snoc
    (.send (i := 0) (k := only) rfl .publish)
  have hrelease := (hpublish.snoc (.send (i := 0) (k := only) rfl .unlock)).snoc
    (.send (i := 0) (k := only) rfl .release)
  have hclose := ((hrelease.snoc (.barrier (c := 0) (k := only) rfl rfl)).snoc
    (.pass (c := 0) (k := only) rfl)).snoc (.closed (c := 0) rfl)
  have hrun := hclose.snoc (.returned (i := 0) rfl)
  obtain ⟨-, -, -, hqueue, hclosed, -⟩ := admission_fence hinit hrun
  exact ⟨_, hrun, hclosed 0 nofun, (hqueue only .work).symm⟩

end Group

end Calandria
