/-
The bounded poller over Mio.

`MioPoller` gives every registration a backend token of its own, and turns what a
poll reports under backend tokens into events of the registered resources.  Mio
itself is outside: what its registry answers and what a poll reports are
arguments of the operations, and the calls that reach the registry are listed.

* `Interest.intoMioInterest`, `BackendEvent.readiness` — the translation of flags;
* `Registrations` — the vector of registrations, ordered by backend token, and
  the next token to issue;
* `MioPoller.register`, `reregister`, `deregister`, `pollOnce` — the operations.
-/
import Calandria.BinarySearch
import Calandria.Resource
import Mathlib.Data.Finset.Basic

namespace Calandria

/-- The internal panic sites of polling. -/
inductive PollPanic
  /-- `attempt to add with overflow` -/
  | addOverflow
  /-- "Mio registration identity invariant violated" -/
  | registrationIdentity
  /-- "Mio registration capacity invariant violated" -/
  | registrationCapacity
  /-- "Mio backend token ordering invariant violated" -/
  | tokenOrdering
  /-- "validated poll destination capacity diverged" -/
  | destinationCapacity
  /-- "wake count exceeds delivered events" -/
  | wakeCount
  /-- "poll report observation count overflowed" -/
  | observationOverflow
  deriving DecidableEq

/-! ### Interests and readiness -/

/-- Nonempty set of useful progress requested from a readiness backend. -/
structure Interest where
  bits : BitVec 16
  ne_zero : bits ≠ 0
  deriving DecidableEq

namespace Interest

def readable : Interest := ⟨1#16, by decide⟩

def writable : Interest := ⟨2#16, by decide⟩

def priority : Interest := ⟨4#16, by decide⟩

def aio : Interest := ⟨8#16, by decide⟩

def lio : Interest := ⟨16#16, by decide⟩

/-- Combines two nonempty interest sets. -/
def union (self other : Interest) : Interest :=
  ⟨self.bits ||| other.bits, fun h => self.ne_zero (BitVec.or_eq_zero_iff.mp h).1⟩

/-- Removes interests, returning `none` when the result would be empty. -/
def remove (self other : Interest) : Option Interest :=
  if h : self.bits &&& ~~~other.bits ≠ 0 then some ⟨_, h⟩ else none

/-- `is_readable` and its siblings: whether any bit of a flag is requested. -/
def requests (self flag : Interest) : Bool := self.bits &&& flag.bits ≠ 0

end Interest

/-- Read, write, closure, error, and backend readiness observations. -/
structure Readiness where
  bits : BitVec 16
  deriving DecidableEq

/-- `Readiness::union`. -/
def Readiness.union (self other : Readiness) : Readiness := ⟨self.bits ||| other.bits⟩

/-- One external progress observation returned by a poller. -/
inductive PollEvent
  /-- Administrative or cross-thread work requested another owner turn. -/
  | wake
  /-- One generation-checked resource may make nonblocking progress. -/
  | resource (token : ResourceToken) (readiness : Readiness)
  deriving DecidableEq

/-! ### Destinations and reports -/

/-- Reusable count-bounded readiness destination. -/
structure PollEvents where
  capacity : NonZeroUsize
  events : List PollEvent
  deriving DecidableEq

namespace PollEvents

def clear (self : PollEvents) : PollEvents := { self with events := [] }

/-- Adds one observation without exceeding the hard capacity. -/
def tryPush (self : PollEvents) (event : PollEvent) :
    Except (PollEvent × NonZeroUsize) PollEvents :=
  if self.capacity.get.val ≤ self.events.length then .error (event, self.capacity)
  else .ok { self with events := self.events ++ [event] }

end PollEvents

/-- Result of one bounded readiness observation. -/
structure PollReport where
  observed : ℕ
  delivered : ℕ
  wakes : ℕ
  stale : ℕ
  saturated : Bool
  deriving DecidableEq

/-- Creates a report from exact delivered and rejected observations. -/
def PollReport.new (delivered wakes stale : ℕ) (saturated : Bool) : Except PollPanic PollReport :=
  if ¬ wakes ≤ delivered then .error .wakeCount
  else if 2 ^ 64 ≤ delivered + stale then .error .observationOverflow
  else .ok ⟨delivered + stale, delivered, wakes, stale, saturated⟩

/-- `count += 1` on a `usize`. -/
def incrementCount (count : ℕ) : Except PollPanic ℕ :=
  if 2 ^ 64 ≤ count + 1 then .error .addOverflow else .ok (count + 1)

/-! ### Mio -/

/-- The flags of `mio::Interest`. -/
inductive MioFlag
  | readable
  | writable
  | priority
  | aio
  | lio
  deriving DecidableEq

/-- `mio::Interest`, as the set of its flags; its `add` is their union. -/
abbrev MioInterest := Finset MioFlag

/-- `mio::Token`. -/
abbrev BackendToken := U64

/-- `mio::event::Event`, as far as it is asked. -/
structure BackendEvent where
  token : BackendToken
  readable : Bool
  writable : Bool
  readClosed : Bool
  writeClosed : Bool
  error : Bool
  priority : Bool
  aio : Bool
  lio : Bool
  deriving DecidableEq

/-- What a call asks of Mio's registry. -/
inductive RegistryCall
  | register (backend : BackendToken) (interest : MioInterest)
  | reregister (backend : BackendToken) (interest : MioInterest)
  | deregister
  deriving DecidableEq

/-- The compilation targets that the translation tells apart. -/
inductive TargetOs
  | linux
  | android
  | dragonfly
  | freebsd
  | ios
  | macos
  | tvos
  | visionos
  | watchos
  | other
  deriving DecidableEq

namespace TargetOs

def hasPriority : TargetOs → Bool
  | linux | android => true
  | _ => false

def hasAio : TargetOs → Bool
  | dragonfly | freebsd | ios | macos | tvos | visionos | watchos => true
  | _ => false

def hasLio : TargetOs → Bool
  | freebsd => true
  | _ => false

end TargetOs

/-- Failure from Mio registration or bounded polling; `X` is `io::Error`. -/
inductive MioError (X : Type)
  | io (source : X)
  | registrationCapacity (limit : NonZeroUsize)
  | alreadyRegistered (token : ResourceToken)
  | notRegistered (token : ResourceToken)
  | unsupportedInterest (interest : Interest)
  | tokenSpaceExhausted
  | destinationTooSmall (required actual : NonZeroUsize)

variable {X : Type}

namespace Interest

/-- The flags translated so far, and the interests they stand for. -/
def includeInterest (state : Option MioInterest × Option Interest) (core : Interest)
    (backend : MioInterest) : Option MioInterest × Option Interest :=
  (some (match state.1 with
    | some current => current ∪ backend
    | none => backend),
   some (match state.2 with
    | some current => current.union core
    | none => core))

/-- One flag, which the target may not be able to express. -/
def translateFlag (interest : Interest) (supported : Bool) (core : Interest) (backend : MioFlag)
    (state : Option MioInterest × Option Interest) :
    Except (MioError X) (Option MioInterest × Option Interest) :=
  if interest.requests core then
    if supported then .ok (includeInterest state core {backend})
    else .error (.unsupportedInterest interest)
  else .ok state

/-- `into_mio_interest`. -/
def intoMioInterest (os : TargetOs) (interest : Interest) : Except (MioError X) MioInterest := do
  let state ← interest.translateFlag true readable .readable (none, none)
  let state ← interest.translateFlag true writable .writable state
  let state ← interest.translateFlag os.hasPriority priority .priority state
  let state ← interest.translateFlag os.hasAio aio .aio state
  let state ← interest.translateFlag os.hasLio lio .lio state
  match state with
  | (some mapped, some accepted) =>
    match interest.remove accepted with
    | some _ => .error (.unsupportedInterest interest)
    | none => .ok mapped
  | _ => .error (.unsupportedInterest interest)

end Interest

/-- `readiness`: the flags of an event. -/
def BackendEvent.readiness (event : BackendEvent) : Readiness :=
  let flag (observed : Bool) (bits : BitVec 16) (readiness : Readiness) :=
    if observed then readiness.union ⟨bits⟩ else readiness
  let readiness : Readiness := ⟨0⟩
  let readiness := flag event.readable 1 readiness
  let readiness := flag event.writable 2 readiness
  let readiness := flag event.readClosed 4 readiness
  let readiness := flag event.writeClosed 8 readiness
  let readiness := flag event.error 16 readiness
  let readiness := flag event.priority 32 readiness
  let readiness := flag event.aio 64 readiness
  flag event.lio 128 readiness

/-! ### Registrations -/

/-- `WAKE_TOKEN`. -/
def wakeToken : BackendToken := 0

/-- Hard limits for one Mio poller owner. -/
structure MioPollerLimits where
  events : NonZeroUsize
  registrations : NonZeroUsize
  deriving DecidableEq

structure Registration where
  resource : ResourceToken
  backend : BackendToken
  deriving DecidableEq

/-- Bounded translation between wide resource tokens and backend tokens. -/
structure Registrations where
  limits : MioPollerLimits
  entries : List Registration
  nextBackend : Option BackendToken

namespace Registrations

def new (limits : MioPollerLimits) : Registrations := ⟨limits, [], some 1⟩

def contains (self : Registrations) (resource : ResourceToken) : Bool :=
  self.entries.any fun entry => entry.resource = resource

def reserve (self : Registrations) (resource : ResourceToken) :
    Registrations × Except (MioError X) BackendToken :=
  if self.contains resource then (self, .error (.alreadyRegistered resource))
  else if self.limits.registrations.get.val ≤ self.entries.length then
    (self, .error (.registrationCapacity self.limits.registrations))
  else
    match self.nextBackend with
    | none => (self, .error .tokenSpaceExhausted)
    | some raw => ({ self with nextBackend := raw.checkedAdd 1 }, .ok raw)

/-- `resource`: a binary search by backend token. -/
def resource (self : Registrations) (backend : BackendToken) : Option ResourceToken :=
  match binarySearch (fun entry => compare entry.backend backend) self.entries with
  | none => none
  | some index => self.entries[index]?.map Registration.resource

def commit (self : Registrations) (resource : ResourceToken) (backend : BackendToken) :
    Except PollPanic Registrations :=
  if self.contains resource || (self.resource backend).isSome then .error .registrationIdentity
  else if ¬ self.entries.length < self.limits.registrations.get.val then
    .error .registrationCapacity
  else if self.entries.getLast?.any fun entry => backend ≤ entry.backend then
    .error .tokenOrdering
  else .ok { self with entries := self.entries ++ [⟨resource, backend⟩] }

/-- `backend`: a search by resource token. -/
def backend (self : Registrations) (resource : ResourceToken) :
    Except (MioError X) BackendToken :=
  match self.entries.find? fun entry => entry.resource = resource with
  | none => .error (.notRegistered resource)
  | some entry => .ok entry.backend

def remove (self : Registrations) (resource : ResourceToken) :
    Registrations × Except (MioError X) Unit :=
  match self.entries.findIdx? fun entry => entry.resource = resource with
  | none => (self, .error (.notRegistered resource))
  | some index => ({ self with entries := self.entries.eraseIdx index }, .ok ())

end Registrations

/-! ### The poller -/

/-- One owner-local Mio selector; what is left of it besides Mio. -/
structure MioPoller where
  registrations : Registrations

namespace MioPoller

def new (limits : MioPollerLimits) : MioPoller := ⟨.new limits⟩

def limits (self : MioPoller) : MioPollerLimits := self.registrations.limits

/-- Registers one exact resource generation; `registry` is what Mio answers. -/
def register (os : TargetOs) (self : MioPoller) (token : ResourceToken) (interest : Interest)
    (registry : Except X Unit) :
    Except PollPanic (MioPoller × List RegistryCall × Except (MioError X) Unit) :=
  match interest.intoMioInterest os with
  | .error error => .ok (self, [], .error error)
  | .ok backendInterest =>
    match self.registrations.reserve token with
    | (registrations, .error error) => .ok ({ self with registrations }, [], .error error)
    | (registrations, .ok backend) =>
      match registry with
      | .error source =>
        .ok ({ self with registrations }, [.register backend backendInterest],
          .error (.io source))
      | .ok () => do
        let registrations ← registrations.commit token backend
        .ok ({ self with registrations }, [.register backend backendInterest], .ok ())

/-- Changes readiness interest for one active exact resource generation. -/
def reregister (os : TargetOs) (self : MioPoller) (token : ResourceToken) (interest : Interest)
    (registry : Except X Unit) : MioPoller × List RegistryCall × Except (MioError X) Unit :=
  match self.registrations.backend token with
  | .error error => (self, [], .error error)
  | .ok backend =>
    match interest.intoMioInterest os with
    | .error error => (self, [], .error error)
    | .ok backendInterest =>
      match registry with
      | .error source => (self, [.reregister backend backendInterest], .error (.io source))
      | .ok () => (self, [.reregister backend backendInterest], .ok ())

/-- Removes one exact resource generation from the selector. -/
def deregister (self : MioPoller) (token : ResourceToken) (registry : Except X Unit) :
    MioPoller × List RegistryCall × Except (MioError X) Unit :=
  match self.registrations.backend token with
  | .error error => (self, [], .error error)
  | .ok _ =>
    match registry with
    | .error source => (self, [.deregister], .error (.io source))
    | .ok () =>
      let (registrations, result) := self.registrations.remove token
      ({ self with registrations }, [.deregister], result)

/-- The counts of a poll in progress, beside its destination. -/
structure Observation where
  destination : PollEvents
  observed : ℕ
  wakes : ℕ
  stale : ℕ

def deliver (state : Observation) (event : PollEvent) : Except PollPanic Observation :=
  match state.destination.tryPush event with
  | .error _ => .error .destinationCapacity
  | .ok destination => .ok { state with destination }

/-- The body of the loop over the polled events. -/
def observe (self : MioPoller) (state : Observation) (event : BackendEvent) :
    Except PollPanic Observation := do
  let observed ← incrementCount state.observed
  if event.token = wakeToken then
    let wakes ← incrementCount state.wakes
    deliver { state with observed, wakes } .wake
  else
    match self.registrations.resource event.token with
    | some token => deliver { state with observed } (.resource token event.readiness)
    | none =>
      let stale ← incrementCount state.stale
      .ok { state with observed, stale }

/-- `poll_once`; `polled` is what Mio's poll returns, its events in order. -/
def pollOnce (self : MioPoller) (destination : PollEvents)
    (polled : Except X (List BackendEvent)) :
    Except PollPanic (PollEvents × Except (MioError X) PollReport) :=
  let destination := destination.clear
  let required := self.limits.events
  if destination.capacity.get < required.get then
    .ok (destination, .error (.destinationTooSmall required destination.capacity))
  else
    match polled with
    | .error source => .ok (destination, .error (.io source))
    | .ok events => do
      let state ← events.foldlM self.observe ⟨destination, 0, 0, 0⟩
      let report ← PollReport.new state.destination.events.length state.wakes state.stale
        (required.get.val ≤ state.observed)
      .ok (state.destination, .ok report)

/-! ### A poller in use -/

/-- One operation, with what Mio answers to it. -/
inductive Op (X : Type)
  | register (token : ResourceToken) (interest : Interest) (registry : Except X Unit)
  | reregister (token : ResourceToken) (interest : Interest) (registry : Except X Unit)
  | deregister (token : ResourceToken) (registry : Except X Unit)
  | poll (destination : PollEvents) (polled : Except X (List BackendEvent))

/-- What the operation returns, beside what it asked of Mio's registry. -/
inductive Reply (X : Type)
  | changed (calls : List RegistryCall) (result : Except (MioError X) Unit)
  | polled (destination : PollEvents) (result : Except (MioError X) PollReport)

def exec (os : TargetOs) (self : MioPoller) : Op X → Except PollPanic (MioPoller × Reply X)
  | .register token interest registry => do
    let (self, calls, result) ← self.register os token interest registry
    .ok (self, .changed calls result)
  | .reregister token interest registry =>
    let (self, calls, result) := self.reregister os token interest registry
    .ok (self, .changed calls result)
  | .deregister token registry =>
    let (self, calls, result) := self.deregister token registry
    .ok (self, .changed calls result)
  | .poll destination polled => do
    let (destination, result) ← self.pollOnce destination polled
    .ok (self, .polled destination result)

/-- A batch holds no more events than Mio was given room for. -/
def Op.Bounded (limits : MioPollerLimits) : Op X → Prop
  | .poll _ (.ok events) => events.length ≤ limits.events.get.val
  | _ => True

/-- A new poller and the operations of its owner. -/
def system (os : TargetOs) (X : Type) : TransitionSystem MioPoller (Op X × Reply X) where
  init s := ∃ limits, s = .new limits
  step s l s' := l.1.Bounded s.limits ∧ s.exec os l.1 = .ok (s', l.2)

end MioPoller

end Calandria
