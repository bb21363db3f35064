/-
The transactional capability surface of one model action.

An `ActionContext` works directly on the simulation's timeline; what it must
undo on failure is kept in `inserted` and `removed`.  The consumer's callback
is arbitrary code between context calls, so it is modelled as a `Program`: a
tree that performs a call, receives its reply and continues, for any finite
number of calls, until it hands back a result.  `Program.run` interprets it
and also lists the calls with their replies.
-/
import Calandria.Action
import Mathlib.Data.Finset.Insert

namespace Calandria

/-! ### Topology -/

/-- Why a static topology could not be constructed. -/
inductive TopologyError
  | empty
  | duplicate (duty : DutyId)
  deriving DecidableEq

/-- Sorted, duplicate-free identities for one static simulation topology. -/
structure Topology where
  duties : List DutyId
  sorted : duties.Pairwise (· < ·)
  nonempty : duties ≠ []

namespace Topology

/-- The first of two equal neighbours. -/
def firstDuplicate : List DutyId → Option DutyId
  | a :: b :: rest => if a = b then some a else firstDuplicate (b :: rest)
  | _ => none

theorem isChain_lt : ∀ {l : List DutyId}, l.IsChain (· ≤ ·) → firstDuplicate l = none →
    l.IsChain (· < ·)
  | [], _, _ => .nil
  | [a], _, _ => .singleton a
  | a :: b :: rest, hs, h => by
    obtain ⟨hab, hrest⟩ := List.isChain_cons_cons.mp hs
    rw [firstDuplicate] at h
    split_ifs at h with hne
    exact .cons_cons (lt_of_le_of_ne hab hne) (isChain_lt hrest h)

theorem sorted_of_firstDuplicate {l : List DutyId} (hs : l.Pairwise (· ≤ ·))
    (h : firstDuplicate l = none) : l.Pairwise (· < ·) := by
  rw [← List.isChain_iff_pairwise] at hs ⊢
  exact isChain_lt hs h

/-- Creates a nonempty static topology. -/
def new (duties : List DutyId) : Except TopologyError Topology :=
  let sorted := duties.insertionSort (· ≤ ·)
  if hne : sorted = [] then .error .empty
  else
    match hd : firstDuplicate sorted with
    | some duty => .error (.duplicate duty)
    | none =>
      .ok ⟨sorted, sorted_of_firstDuplicate (List.pairwise_insertionSort _ duties) hd, hne⟩

def len (topology : Topology) : ℕ := topology.duties.length

/-- `contains`: a binary search of the sorted identities. -/
def contains (topology : Topology) (duty : DutyId) : Bool := duty ∈ topology.duties

end Topology

/-! ### Events and effect failures -/

/-- Target and causal metadata retained beside a modelled event. -/
structure Routed (E : Type) where
  target : DutyId
  cause : Option ActionId
  event : E

instance {E : Type} [Retained E] : Retained (Routed E) :=
  ⟨fun routed => Retained.retainedBytes routed.event⟩

/-- Why a modelled delivery could not be staged. -/
inductive SendFailure
  | effectCapacity (limit : NonZeroUsize)
  | retainedByteOverflow (current event : RetainedBytes)
  | retainedByteCapacity (limit current event : RetainedBytes)
  | unknownTarget (target : DutyId)
  | targetStopped (target : DutyId)
  | timeOverflow (current : Moment) (delay : Span)
  | beyondTimeLimit (requested limit : Moment)
  | timeline (failure : ScheduleFailure)
  deriving DecidableEq

/-- A rejected event and the reason. -/
structure SendError (E : Type) where
  event : E
  failure : SendFailure

/-- Why an exact pending-event cancellation was rejected. -/
inductive CancelFailure
  | effectCapacity (limit : NonZeroUsize)
  | foreignTimeline (expected actual : TimelineId)
  | notPending (token : EventToken)
  | retainedByteOverflow (current event : RetainedBytes)
  | retainedByteCapacity (limit current event : RetainedBytes)
  deriving DecidableEq

/-- Why a structured observation could not be retained for one action. -/
inductive ObservationFailure
  | capacity (limit : NonZeroUsize)
  | retainedByteOverflow (current observation : RetainedBytes)
  | retainedByteCapacity (limit current observation : RetainedBytes)
  deriving DecidableEq

/-- A rejected observation and the reason. -/
structure ObservationError (O : Type) where
  observation : O
  failure : ObservationFailure

/-! ### The context -/

structure ActionContextLimits where
  effects : NonZeroUsize
  effectBytes : RetainedBytes
  observations : NonZeroUsize
  observationBytes : RetainedBytes
  maxTime : Moment
  deriving DecidableEq

/-- Transactional state for one deterministic action callback. -/
structure ActionContext (E O : Type) where
  timeline : Timeline (Routed E)
  topology : Topology
  stopped : Finset DutyId
  action : ActionId
  now : Moment
  limits : ActionContextLimits
  effects : U64
  effectBytes : RetainedBytes
  observations : List O
  observationBytes : RetainedBytes
  inserted : OrderedMap EventToken RetainedBytes
  removed : List (EventToken × Routed E)
  committed : Bool

namespace ActionContext

variable {E O : Type}

def new (timeline : Timeline (Routed E)) (topology : Topology) (stopped : Finset DutyId)
    (action : ActionId) (now : Moment) (limits : ActionContextLimits) : ActionContext E O :=
  { timeline, topology, stopped, action, now, limits
    effects := 0, effectBytes := 0, observations := [], observationBytes := 0
    inserted := .empty, removed := [], committed := false }

/-- The number of pending deliveries that target a duty. -/
def pendingFor (ctx : ActionContext E O) (duty : DutyId) : ℕ :=
  (ctx.timeline.pending.filter fun p => p.2.target = duty).length

/-- Commits the staged effects and hands out the observations. -/
def commit (ctx : ActionContext E O) : ActionContext E O × List O :=
  ({ ctx with committed := true, inserted := .empty, removed := [], observations := [] },
    ctx.observations)

variable [Retained E] [Retained O]

/-- `admit`: schedules a validated delivery and books it. -/
def admitEvent (ctx : ActionContext E O) (target : DutyId) (moment : Moment) (event : E) :
    Except Panic (ActionContext E O × Except (SendError E) EventToken) :=
  let retained := Retained.retainedBytes event
  match ctx.effectBytes.checkedAdd retained with
  | none => .ok (ctx, .error ⟨event, .retainedByteOverflow ctx.effectBytes retained⟩)
  | some nextBytes =>
    if ctx.limits.effectBytes < nextBytes then
      .ok (ctx, .error ⟨event,
        .retainedByteCapacity ctx.limits.effectBytes ctx.effectBytes retained⟩)
    else do
      match ← ctx.timeline.scheduleAt moment ⟨target, some ctx.action, event⟩ with
      | (timeline, .error error) =>
        .ok ({ ctx with timeline }, .error ⟨error.event.event, .timeline error.failure⟩)
      | (timeline, .ok token) =>
        let effects ← ctx.effects.increment
        .ok ({ ctx with
          timeline, effects, effectBytes := nextBytes
          inserted := ctx.inserted.insert token retained }, .ok token)

def validateTarget (ctx : ActionContext E O) (target : DutyId) (moment : Moment) (event : E) :
    Except Panic (ActionContext E O × Except (SendError E) EventToken) :=
  if ctx.limits.effects.get ≤ ctx.effects then
    .ok (ctx, .error ⟨event, .effectCapacity ctx.limits.effects⟩)
  else if !ctx.topology.contains target then .ok (ctx, .error ⟨event, .unknownTarget target⟩)
  else if target ∈ ctx.stopped then .ok (ctx, .error ⟨event, .targetStopped target⟩)
  else if ctx.limits.maxTime < moment then
    .ok (ctx, .error ⟨event, .beyondTimeLimit moment ctx.limits.maxTime⟩)
  else ctx.admitEvent target moment event

/-- Schedules a typed delivery at an absolute virtual moment. -/
def sendAt (ctx : ActionContext E O) (target : DutyId) (moment : Moment) (event : E) :
    Except Panic (ActionContext E O × Except (SendError E) EventToken) :=
  ctx.validateTarget target moment event

/-- Schedules an immediate typed delivery. -/
def send (ctx : ActionContext E O) (target : DutyId) (event : E) :
    Except Panic (ActionContext E O × Except (SendError E) EventToken) :=
  ctx.sendAt target ctx.now event

/-- Schedules a typed delivery after a relative virtual delay. -/
def sendAfter (ctx : ActionContext E O) (target : DutyId) (delay : Span) (event : E) :
    Except Panic (ActionContext E O × Except (SendError E) EventToken) :=
  match ctx.now.checkedAdd delay with
  | none => .ok (ctx, .error ⟨event, .timeOverflow ctx.now delay⟩)
  | some moment => ctx.sendAt target moment event

/-- Cancels one exact pending event transactionally. -/
def cancel (ctx : ActionContext E O) (token : EventToken) :
    Except Panic (ActionContext E O × Except CancelFailure Unit) :=
  if ctx.limits.effects.get ≤ ctx.effects then
    .ok (ctx, .error (.effectCapacity ctx.limits.effects))
  else if token.timeline ≠ ctx.timeline.id then
    .ok (ctx, .error (.foreignTimeline ctx.timeline.id token.timeline))
  else
    match ctx.timeline.retainedFor token with
    | none => .ok (ctx, .error (.notPending token))
    | some retained =>
      match ctx.inserted.get? token with
      | some _ => do
        match ← ctx.timeline.cancel token with
        | (_, none) => .error .insertedEventLost
        | (timeline, some _) =>
          match ctx.effectBytes.checkedSub retained with
          | none => .error .insertedAccounting
          | some effectBytes =>
            let effects ← ctx.effects.increment
            .ok ({ ctx with
              timeline, effects, effectBytes, inserted := ctx.inserted.erase token }, .ok ())
      | none =>
        match ctx.effectBytes.checkedAdd retained with
        | none => .ok (ctx, .error (.retainedByteOverflow ctx.effectBytes retained))
        | some nextBytes =>
          if ctx.limits.effectBytes < nextBytes then
            .ok (ctx, .error
              (.retainedByteCapacity ctx.limits.effectBytes ctx.effectBytes retained))
          else do
            match ← ctx.timeline.cancel token with
            | (_, none) => .error .validatedEventLost
            | (timeline, some removed) =>
              let effects ← ctx.effects.increment
              .ok ({ ctx with
                timeline, effects, effectBytes := nextBytes
                removed := ctx.removed ++ [(token, removed)] }, .ok ())

/-- Emits one bounded structured observation for the action record. -/
def observe (ctx : ActionContext E O) (observation : O) :
    ActionContext E O × Except (ObservationError O) Unit :=
  if ctx.limits.observations.get.val ≤ ctx.observations.length then
    (ctx, .error ⟨observation, .capacity ctx.limits.observations⟩)
  else
    let retained := Retained.retainedBytes observation
    match ctx.observationBytes.checkedAdd retained with
    | none => (ctx, .error ⟨observation, .retainedByteOverflow ctx.observationBytes retained⟩)
    | some nextBytes =>
      if ctx.limits.observationBytes < nextBytes then
        (ctx, .error ⟨observation,
          .retainedByteCapacity ctx.limits.observationBytes ctx.observationBytes retained⟩)
      else
        ({ ctx with
          observations := ctx.observations ++ [observation]
          observationBytes := nextBytes }, .ok ())

/-! ### Rollback -/

def rollbackInserted : List (EventToken × RetainedBytes) → Timeline (Routed E) →
    Except Panic (Timeline (Routed E))
  | [], timeline => .ok timeline
  | (token, _) :: rest, timeline => do
    match ← timeline.cancel token with
    | (_, none) => .error .rollbackInsertionLost
    | (timeline, some _) => rollbackInserted rest timeline

def rollbackRemoved : List (EventToken × Routed E) → Timeline (Routed E) →
    Except Panic (Timeline (Routed E))
  | [], timeline => .ok timeline
  | (token, event) :: rest, timeline => do
    let timeline ← timeline.restore token event
    rollbackRemoved rest timeline

/-- `Drop for ActionContext`: the timeline that is left once the context is gone. -/
def drop (ctx : ActionContext E O) : Except Panic (Timeline (Routed E)) :=
  if ctx.committed then .ok ctx.timeline
  else do
    let timeline ← rollbackInserted ctx.inserted.entries ctx.timeline
    rollbackRemoved ctx.removed timeline

end ActionContext

/-! ### Callback programs -/

/-- One use of the context by the callback. -/
inductive ContextCall (E O : Type)
  | send (target : DutyId) (event : E)
  | sendAfter (target : DutyId) (delay : Span) (event : E)
  | sendAt (target : DutyId) (moment : Moment) (event : E)
  | cancel (token : EventToken)
  | observe (observation : O)

/-- What the context answered. -/
inductive ContextReply (E O : Type)
  | sent (result : Except (SendError E) EventToken)
  | cancelled (result : Except CancelFailure Unit)
  | observed (result : Except (ObservationError O) Unit)

/-- Arbitrary callback code: context calls, each followed by code that depends
on the reply, until the callback hands back an `α`. -/
inductive Program (E O α : Type)
  | done (result : α)
  | call (request : ContextCall E O) (next : ContextReply E O → Program E O α)

section

variable {E O α : Type} [Retained E] [Retained O]

/-- Answers one context call. -/
def ActionContext.perform (ctx : ActionContext E O) :
    ContextCall E O → Except Panic (ActionContext E O × ContextReply E O)
  | .send target event => do
    let (ctx, result) ← ctx.send target event
    .ok (ctx, .sent result)
  | .sendAfter target delay event => do
    let (ctx, result) ← ctx.sendAfter target delay event
    .ok (ctx, .sent result)
  | .sendAt target moment event => do
    let (ctx, result) ← ctx.sendAt target moment event
    .ok (ctx, .sent result)
  | .cancel token => do
    let (ctx, result) ← ctx.cancel token
    .ok (ctx, .cancelled result)
  | .observe observation =>
    let (ctx, result) := ctx.observe observation
    .ok (ctx, .observed result)

/-- Runs a callback: the context it leaves, its calls with their replies, and
what it hands back. -/
def Program.run : Program E O α → ActionContext E O →
    Except Panic (ActionContext E O × List (ContextCall E O × ContextReply E O) × α)
  | .done result, ctx => .ok (ctx, [], result)
  | .call request next, ctx => do
    let (ctx, reply) ← ctx.perform request
    let (ctx, log, result) ← (next reply).run ctx
    .ok (ctx, (request, reply) :: log, result)

end

end Calandria
