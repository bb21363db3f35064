/-
The deterministic simulation kernel.

A `Simulation` owns a model, a timeline, a scheduler and a monitor and is
driven by `step` and the `inject` family.  Model, scheduler and monitor are
arbitrary: each is a type with the hooks of the source's trait, and a hook
hands back its new state with a value, a typed error or a panic (`Returned`).
The owner may keep calling a simulation after it caught such a panic, so a
step that unwinds is an ordinary result, `StepReturn.unwound`; the kernel's own
panics are the errors of `Except Panic`.

`execute_turn` and `execute_delivery` differ only in how the callback is set
up (`turnCallback`, `deliveryCallback`); what follows is `runCallback`.
-/
import Calandria.Context
import Calandria.TransitionSystem
import Mathlib.Data.Finset.Card

namespace Calandria

/-! ### Consumer traits -/

/-- Adapter that exposes concrete owners to deterministic execution. -/
class Model (M : Type) (E O ME : outParam Type) where
  turn : M → DutyId → Moment → ActionId → Program E O (M × Returned Turn ME)
  deliver : M → DutyId → Delivery E → Moment → ActionId → Program E O (M × Returned Turn ME)

/-- Selects one action from the exact current ready set. -/
class Scheduler (S : Type) (SE : outParam Type) where
  choose : S → Moment → ReadySet → S × Returned ActionKey SE
  committed : S → ActionMeta → Turn → S × Returned Unit SE := fun s _ _ => (s, .ok ())
  finished : S → S × Returned Unit SE := fun s => (s, .ok ())

/-- Lifecycle state retained by the deterministic kernel. -/
inductive SimulationPhase
  | active
  | completed
  | failed
  deriving DecidableEq

structure DutyState where
  next : Next
  turns : U64
  deliveries : U64
  deriving DecidableEq

def DutyState.initial : DutyState := ⟨.now, 0, 0⟩

/-- The update that `update_owner` makes to the selected duty's state. -/
def DutyState.update (state : DutyState) (turn : Turn) (delivery : Bool) : DutyState :=
  let state := { state with next := turn.next }
  if delivery then { state with deliveries := state.deliveries.saturatingAdd 1 }
  else { state with turns := state.turns.saturatingAdd 1 }

/-- Immutable bounded state for one simulation. -/
structure SimulationSnapshot where
  phase : SimulationPhase
  timeline : TimelineSnapshot
  duties : ℕ
  stopped : ℕ
  actions : U64
  actionsAtMoment : U64
  deriving DecidableEq

/-- Immutable view of model and kernel state after one committed action. -/
structure SimulationView (M : Type) where
  model : M
  topology : Topology
  states : OrderedMap DutyId DutyState
  snapshot : SimulationSnapshot

/-- Checks immutable model and kernel state after every committed action. -/
class Monitor (N M O : Type) (NE : outParam Type) where
  afterAction : N → SimulationView M → ActionRecord O → N × Returned Unit NE

/-! ### Limits, failures and outcomes -/

/-- Hard limits for one deterministic simulation. -/
structure SimulationLimits where
  maxDuties : NonZeroUsize
  timeline : TimelineLimits
  effectsPerAction : NonZeroUsize
  effectBytesPerAction : RetainedBytes
  observationsPerAction : NonZeroUsize
  observationBytesPerAction : RetainedBytes
  totalActions : NonZeroU64
  actionsPerMoment : NonZeroU64
  maxVirtualTime : Moment
  deriving DecidableEq

namespace SimulationLimits

/-- Creates limits around an event timeline configuration. -/
def new (timeline : TimelineLimits) : SimulationLimits where
  maxDuties := ⟨256, by decide⟩
  timeline := timeline
  effectsPerAction := ⟨256, by decide⟩
  effectBytesPerAction := 16777216
  observationsPerAction := ⟨256, by decide⟩
  observationBytesPerAction := 4194304
  totalActions := ⟨1000000, by decide⟩
  actionsPerMoment := ⟨100000, by decide⟩
  maxVirtualTime := U64.max

def actionContext (limits : SimulationLimits) : ActionContextLimits where
  effects := limits.effectsPerAction
  effectBytes := limits.effectBytesPerAction
  observations := limits.observationsPerAction
  observationBytes := limits.observationBytesPerAction
  maxTime := limits.maxVirtualTime

end SimulationLimits

/-- Why a deterministic simulation could not be constructed. -/
inductive SimulationBuildFailure
  | dutyCapacity (limit : NonZeroUsize) (actual : ℕ)
  | readyCapacityOverflow (duties : ℕ) (events : NonZeroUsize)
  | initialTimeBeyondLimit (initial limit : Moment)
  deriving DecidableEq

/-- Construction failure retaining every consumer-supplied component. -/
structure SimulationBuildError (M S N : Type) where
  failure : SimulationBuildFailure
  model : M
  topology : Topology
  scheduler : S
  monitor : N

/-- Internal ownership or lifecycle contract violation. -/
inductive KernelFailure
  | unknownDeliveryTarget (token : EventToken) (target : DutyId)
  | deliveryTargetsStopped (token : EventToken) (target : DutyId)
  | deliveryTargetMismatch (token : EventToken) (expected actual : DutyId)
  | timelineLostEvent (token : EventToken)
  | stoppedWithPending (duty : DutyId) (pending : ℕ)
  | actionIdsExhausted
  | noFutureProgress (now : Moment)
  deriving DecidableEq

/-- Hard deterministic execution limit reached before another action. -/
inductive LimitFailure
  | totalActions (limit : NonZeroU64)
  | actionsAtMoment (moment : Moment) (limit : NonZeroU64)
  | virtualTime (next limit : Moment)
  deriving DecidableEq

/-- Why one deterministic kernel step could not complete. -/
inductive StepError (ME NE SE : Type)
  | model (action : ActionMeta) (source : ME)
  | monitor (action : ActionMeta) (source : NE)
  | scheduler (source : SE)
  | invalidSelection (action : ActionKey)
  | kernel (failure : KernelFailure)
  | limit (failure : LimitFailure)
  | poisoned
  | inactive (phase : SimulationPhase)

/-- Why an external modelled event could not enter a simulation. -/
inductive InjectionFailure
  | poisoned
  | inactive (phase : SimulationPhase)
  | unknownTarget (target : DutyId)
  | targetStopped (target : DutyId)
  | timeOverflow (current : Moment) (delay : Span)
  | beyondTimeLimit (requested limit : Moment)
  | timeline (failure : ScheduleFailure)
  deriving DecidableEq

/-- Ownership-preserving external injection error. -/
structure InjectionError (E : Type) where
  event : E
  failure : InjectionFailure

/-- One deterministic kernel transition; `start` and `stop` are the source's
`from` and `to`. -/
inductive Step (O : Type)
  | action (record : ActionRecord O)
  | timeAdvanced (start stop : Moment)
  | quiescent (snapshot : SimulationSnapshot)
  | completed (snapshot : SimulationSnapshot)

/-- The hooks a panic can unwind from. -/
inductive Boundary
  | choose
  | model
  | committed
  | monitor
  | finished
  deriving DecidableEq

/-- What the owner sees of one call of `step`. -/
inductive StepReturn (O ME NE SE : Type)
  | ok (step : Step O)
  | err (error : StepError ME NE SE)
  | unwound (boundary : Boundary)

/-! ### The simulation -/

/-- Deterministic execution owner for one static set of bounded duties. -/
structure Simulation (M S N E : Type) where
  model : M
  topology : Topology
  states : OrderedMap DutyId DutyState
  stopped : Finset DutyId
  timeline : Timeline (Routed E)
  limits : SimulationLimits
  scheduler : S
  monitor : N
  phase : SimulationPhase
  poisoned : Bool
  nextAction : Option U64
  actions : U64
  actionsAtMoment : U64
  ready : ReadySet

/-- A callback about to run: its action, the event it was handed, and its code. -/
structure Callback (M E O ME : Type) where
  metadata : ActionMeta
  delivered : Option (EventToken × Routed E)
  program : Program E O (M × Returned Turn ME)

/-- Every duty of a topology in its initial state. -/
def initialStates (topology : Topology) : OrderedMap DutyId DutyState :=
  ⟨topology.duties.map fun duty => (duty, DutyState.initial),
    List.pairwise_map.mpr topology.sorted⟩

/-- The earlier of two optional moments. -/
def earliest : Option Moment → Option Moment → Option Moment
  | some left, some right => some (min left right)
  | some value, none => some value
  | none, some value => some value
  | none, none => none

namespace Simulation

variable {M S N E O ME SE NE : Type}

/-- Creates a fully configured simulation at an explicit virtual moment.  The ready list is
allocated here; the panic of `Vec::with_capacity` on a capacity that cannot be allocated is not
modelled. -/
def withParts [Retained E] (id : TimelineId) (now : Moment) (model : M) (topology : Topology)
    (limits : SimulationLimits) (scheduler : S) (monitor : N) :
    Except Panic (Except (SimulationBuildError M S N) (Simulation M S N E)) :=
  let events := limits.timeline.pendingEvents
  let readyCapacity :=
    if topology.len + events.get.val < 2 ^ 64 then some (topology.len + events.get.val) else none
  let failure : Option SimulationBuildFailure :=
    if limits.maxDuties.get.val < topology.len then
      some (.dutyCapacity limits.maxDuties topology.len)
    else if limits.maxVirtualTime < now then
      some (.initialTimeBeyondLimit now limits.maxVirtualTime)
    else if readyCapacity.isNone then some (.readyCapacityOverflow topology.len events)
    else none
  match failure with
  | some failure => .ok (.error ⟨failure, model, topology, scheduler, monitor⟩)
  | none =>
    match readyCapacity with
    | none => .error .readyCapacity
    | some _ => .ok (.ok {
        model, topology, limits, scheduler, monitor
        states := initialStates topology
        stopped := ∅
        timeline := .atWithMeasure id now limits.timeline Retained.retainedBytes
        phase := .active
        poisoned := false
        nextAction := some 0
        actions := 0
        actionsAtMoment := 0
        ready := [] })

/-- Replaces the monitor while preserving exact simulation state. -/
def withMonitor {P : Type} (sim : Simulation M S N E) (monitor : P) : Simulation M S P E :=
  { sim with monitor }

/-- Current global virtual time. -/
def now (sim : Simulation M S N E) : Moment := sim.timeline.now

def snapshot (sim : Simulation M S N E) : SimulationSnapshot where
  phase := sim.phase
  timeline := sim.timeline.snapshot
  duties := sim.topology.len
  stopped := sim.stopped.card
  actions := sim.actions
  actionsAtMoment := sim.actionsAtMoment

def fail (sim : Simulation M S N E) : Simulation M S N E := { sim with phase := .failed }

/-! ### Readiness and virtual time -/

/-- The first loop of `build_ready`. -/
def pushDeliveries (sim : Simulation M S N E) :
    List EventToken → ReadySet → Except Panic (ReadySet × Except KernelFailure Unit)
  | [], ready => .ok (ready, .ok ())
  | token :: rest, ready =>
    match sim.timeline.event token with
    | none => .error .enumeratedEventLost
    | some routed =>
      if !sim.topology.contains routed.target then
        .ok (ready, .error (.unknownDeliveryTarget token routed.target))
      else if routed.target ∈ sim.stopped then
        .ok (ready, .error (.deliveryTargetsStopped token routed.target))
      else sim.pushDeliveries rest (ready ++ [.delivery routed.target token])

/-- Whether a duty's interest makes it runnable. -/
def runnable (now : Moment) (state : DutyState) : Bool :=
  match state.next with
  | .now => true
  | .wakeOr deadline => Deadline.isElapsedAt deadline now
  | .wake => false
  | .stop => false

/-- The second loop of `build_ready`. -/
def runnableTurns (sim : Simulation M S N E) : ReadySet :=
  (sim.states.entries.filter fun e => runnable sim.now e.2).map fun e => .turn e.1

def buildReady (sim : Simulation M S N E) :
    Except Panic (Simulation M S N E × Except KernelFailure Unit) := do
  match ← sim.pushDeliveries (sim.timeline.tokensAt sim.now) [] with
  | (ready, .error failure) => .ok ({ sim with ready }, .error failure)
  | (ready, .ok ()) =>
    .ok ({ sim with ready := ActionKey.canonical (ready ++ sim.runnableTurns) }, .ok ())

/-- The moments some duty waits for. -/
def deadlines (sim : Simulation M S N E) : List Moment :=
  sim.states.values.filterMap fun state =>
    match state.next with
    | .wakeOr deadline => some deadline
    | .now => none
    | .wake => none
    | .stop => none

def nextDeadline (sim : Simulation M S N E) : Option Moment := sim.deadlines.min?

def enforceActionLimits (sim : Simulation M S N E) : Except (StepError ME NE SE) Unit :=
  if sim.limits.totalActions.get ≤ sim.actions then
    .error (.limit (.totalActions sim.limits.totalActions))
  else if sim.limits.actionsPerMoment.get ≤ sim.actionsAtMoment then
    .error (.limit (.actionsAtMoment sim.now sim.limits.actionsPerMoment))
  else .ok ()

def allocateAction (sim : Simulation M S N E) :
    Simulation M S N E × Except KernelFailure ActionId :=
  match sim.nextAction with
  | none => (sim, .error .actionIdsExhausted)
  | some raw => ({ sim with nextAction := raw.checkedAdd 1 }, .ok raw)

section

variable [Scheduler S SE]

/-- `validate_scheduler_finish`.  A hook runs under the poison guard, which only
a normal return disarms. -/
def validateSchedulerFinish (sim : Simulation M S N E) :
    Simulation M S N E × Returned Unit SE :=
  match Scheduler.finished sim.scheduler with
  | (scheduler, .ok ()) => ({ sim with scheduler }, .ok ())
  | (scheduler, .err source) => ({ sim with scheduler }.fail, .err source)
  | (scheduler, .panicked) => ({ sim with scheduler, poisoned := true }, .panicked)

def advanceOrFinish (sim : Simulation M S N E) :
    Except Panic (Simulation M S N E × StepReturn O ME NE SE) :=
  if sim.stopped.card = sim.topology.len then
    match sim.timeline.pending.head? with
    | some (token, routed) =>
      .ok (sim.fail, .err (.kernel (.deliveryTargetsStopped token routed.target)))
    | none =>
      match sim.validateSchedulerFinish with
      | (sim, .err source) => .ok (sim, .err (.scheduler source))
      | (sim, .panicked) => .ok (sim, .unwound .finished)
      | (sim, .ok ()) =>
        let sim := { sim with phase := .completed }
        .ok (sim, .ok (.completed sim.snapshot))
  else
    match earliest sim.timeline.nextAt sim.nextDeadline with
    | none => .ok (sim, .ok (.quiescent sim.snapshot))
    | some next =>
      if next ≤ sim.now then .ok (sim.fail, .err (.kernel (.noFutureProgress sim.now)))
      else if sim.limits.maxVirtualTime < next then
        .ok (sim.fail, .err (.limit (.virtualTime next sim.limits.maxVirtualTime)))
      else do
        let timeline ← sim.timeline.advanceTo next
        .ok ({ sim with timeline, actionsAtMoment := 0 }, .ok (.timeAdvanced sim.now next))

/-! ### Execution of one action -/

/-- The set-up of `execute_turn`. -/
def turnCallback [Model M E O ME] (sim : Simulation M S N E) (key : ActionKey) (id : ActionId) :
    Callback M E O ME where
  metadata := ⟨id, key, sim.now, none⟩
  delivered := none
  program := Model.turn sim.model key.duty sim.now id

/-- The set-up of `execute_delivery`. -/
def deliveryCallback [Model M E O ME] (sim : Simulation M S N E) (key : ActionKey)
    (id : ActionId) (token : EventToken) :
    Except Panic (Simulation M S N E × Except KernelFailure (Callback M E O ME)) := do
  match ← sim.timeline.cancel token with
  | (timeline, none) => .ok ({ sim with timeline }, .error (.timelineLostEvent token))
  | (timeline, some routed) =>
    let sim := { sim with timeline }
    if routed.target ≠ key.duty then
      .ok (sim, .error (.deliveryTargetMismatch token key.duty routed.target))
    else
      .ok (sim, .ok {
        metadata := ⟨id, key, sim.now, routed.cause⟩
        delivered := some (token, routed)
        program := Model.deliver sim.model key.duty ⟨token, routed.event⟩ sim.now id })

/-- `commit_context`: the timeline that is left, and the observations. -/
def commitContext [Retained E] (duty : DutyId) (turn : Turn) (context : ActionContext E O) :
    Except Panic (Timeline (Routed E) × Except KernelFailure (List O)) :=
  if turn.next = .stop ∧ context.pendingFor duty ≠ 0 then do
    let timeline ← context.drop
    .ok (timeline, .error (.stoppedWithPending duty (context.pendingFor duty)))
  else do
    let (context, observations) := context.commit
    let timeline ← context.drop
    .ok (timeline, .ok observations)

def updateOwner (sim : Simulation M S N E) (duty : DutyId) (turn : Turn) (delivery : Bool) :
    Except Panic (Simulation M S N E) :=
  match sim.states.get? duty with
  | none => .error .selectedDutyUnknown
  | some state =>
    .ok { sim with
      states := sim.states.insert duty (state.update turn delivery)
      stopped := if turn.next = .stop then insert duty sim.stopped else sim.stopped }

/-- What the monitor sees. -/
def view (sim : Simulation M S N E) : SimulationView M :=
  ⟨sim.model, sim.topology, sim.states, sim.snapshot⟩

def finishAction [Monitor N M O NE] (sim : Simulation M S N E) (metadata : ActionMeta)
    (turn : Turn) (observations : List O) : Simulation M S N E × StepReturn O ME NE SE :=
  let record : ActionRecord O := ⟨metadata, turn, observations⟩
  match Scheduler.committed sim.scheduler metadata turn with
  | (scheduler, .panicked) => ({ sim with scheduler, poisoned := true }, .unwound .committed)
  | (scheduler, .err source) => ({ sim with scheduler }.fail, .err (.scheduler source))
  | (scheduler, .ok ()) =>
    let sim := { sim with scheduler }
    match Monitor.afterAction sim.monitor sim.view record with
    | (monitor, .panicked) => ({ sim with monitor, poisoned := true }, .unwound .monitor)
    | (monitor, .err source) => ({ sim with monitor }.fail, .err (.monitor metadata source))
    | (monitor, .ok ()) => ({ sim with monitor }, .ok (.action record))

/-- Sets up the callback of a selected action. -/
def setUp [Model M E O ME] (sim : Simulation M S N E) (key : ActionKey) (id : ActionId) :
    Except Panic (Simulation M S N E × Except KernelFailure (Callback M E O ME)) :=
  match key.kind with
  | .delivery token => sim.deliveryCallback key id token
  | .turn => .ok (sim, .ok (sim.turnCallback key id))

/-- The context an action's callback starts with. -/
def context (sim : Simulation M S N E) (metadata : ActionMeta) : ActionContext E O :=
  .new sim.timeline sim.topology sim.stopped metadata.id metadata.moment sim.limits.actionContext

variable [Retained E] [Retained O] [Monitor N M O NE]

/-- What `execute_turn` and `execute_delivery` do once the callback is known. -/
def runCallback (sim : Simulation M S N E) (callback : Callback M E O ME) :
    Except Panic (Simulation M S N E × StepReturn O ME NE SE) := do
  let metadata := callback.metadata
  let (context, _, model, result) ← callback.program.run (sim.context metadata)
  match result with
  | .panicked =>
    let timeline ← context.drop
    .ok ({ sim with model, timeline, poisoned := true }, .unwound .model)
  | .err source =>
    let timeline ← context.drop
    .ok ({ sim with model, timeline }.fail, .err (.model metadata source))
  | .ok turn =>
    match ← commitContext metadata.key.duty turn context with
    | (timeline, .error failure) =>
      .ok ({ sim with model, timeline }.fail, .err (.kernel failure))
    | (timeline, .ok observations) =>
      let sim ← { sim with model, timeline }.updateOwner metadata.key.duty turn
        callback.delivered.isSome
      .ok (sim.finishAction metadata turn observations)

variable [Model M E O ME]

def executeTurn (sim : Simulation M S N E) (key : ActionKey) (id : ActionId) :
    Except Panic (Simulation M S N E × StepReturn O ME NE SE) :=
  sim.runCallback (sim.turnCallback key id)

def executeDelivery (sim : Simulation M S N E) (key : ActionKey) (id : ActionId)
    (token : EventToken) : Except Panic (Simulation M S N E × StepReturn O ME NE SE) := do
  match ← sim.deliveryCallback key id token with
  | (sim, .error failure) => .ok (sim.fail, .err (.kernel failure))
  | (sim, .ok callback) => sim.runCallback callback

def executeSelected (sim : Simulation M S N E) (key : ActionKey) (id : ActionId) :
    Except Panic (Simulation M S N E × StepReturn O ME NE SE) :=
  match key.kind with
  | .delivery token => sim.executeDelivery key id token
  | .turn => sim.executeTurn key id

/-! ### One step -/

/-- The part of `step` from the scheduler's choice to the counters: it fails
the step or selects an action. -/
def selectAction (sim : Simulation M S N E) :
    Except Panic (Simulation M S N E × (StepReturn O ME NE SE ⊕ ActionKey × ActionId)) :=
  match Scheduler.choose sim.scheduler sim.now sim.ready with
  | (scheduler, .panicked) =>
    .ok ({ sim with scheduler, poisoned := true }, .inl (.unwound .choose))
  | (scheduler, .err source) => .ok ({ sim with scheduler }.fail, .inl (.err (.scheduler source)))
  | (scheduler, .ok selected) =>
    let sim := { sim with scheduler }
    if !ReadySet.contains sim.ready selected then
      .ok (sim.fail, .inl (.err (.invalidSelection selected)))
    else
      match sim.allocateAction with
      | (sim, .error failure) => .ok (sim.fail, .inl (.err (.kernel failure)))
      | (sim, .ok id) => do
        let actions ← sim.actions.increment
        let actionsAtMoment ← sim.actionsAtMoment.increment
        .ok ({ sim with actions, actionsAtMoment }, .inr (selected, id))

/-- Executes one model action, time advance, or terminal observation. -/
def step (sim : Simulation M S N E) :
    Except Panic (Simulation M S N E × StepReturn O ME NE SE) :=
  if sim.poisoned then .ok (sim, .err .poisoned)
  else if sim.phase ≠ .active then .ok (sim, .err (.inactive sim.phase))
  else do
    match ← sim.buildReady with
    | (sim, .error failure) => .ok (sim.fail, .err (.kernel failure))
    | (sim, .ok ()) =>
      if sim.ready.isEmpty then sim.advanceOrFinish
      else
        match sim.enforceActionLimits with
        | .error error => .ok (sim.fail, .err error)
        | .ok () =>
          match ← sim.selectAction with
          | (sim, .inl result) => .ok (sim, result)
          | (sim, .inr (selected, id)) => sim.executeSelected selected id

end

/-! ### External injection -/

section

variable [Retained E]

/-- Injects a modelled delivery at an absolute virtual moment. -/
def injectAt (sim : Simulation M S N E) (target : DutyId) (moment : Moment) (event : E) :
    Except Panic (Simulation M S N E × Except (InjectionError E) EventToken) :=
  if sim.poisoned then .ok (sim, .error ⟨event, .poisoned⟩)
  else if sim.phase ≠ .active then .ok (sim, .error ⟨event, .inactive sim.phase⟩)
  else if !sim.topology.contains target then .ok (sim, .error ⟨event, .unknownTarget target⟩)
  else if target ∈ sim.stopped then .ok (sim, .error ⟨event, .targetStopped target⟩)
  else if sim.limits.maxVirtualTime < moment then
    .ok (sim, .error ⟨event, .beyondTimeLimit moment sim.limits.maxVirtualTime⟩)
  else do
    match ← sim.timeline.scheduleAt moment ⟨target, none, event⟩ with
    | (timeline, .ok token) => .ok ({ sim with timeline }, .ok token)
    | (timeline, .error error) =>
      .ok ({ sim with timeline }, .error ⟨error.event.event, .timeline error.failure⟩)

/-- Injects an immediate modelled delivery with no parent action. -/
def inject (sim : Simulation M S N E) (target : DutyId) (event : E) :
    Except Panic (Simulation M S N E × Except (InjectionError E) EventToken) :=
  sim.injectAt target sim.now event

/-- Injects a modelled delivery after a relative virtual delay. -/
def injectAfter (sim : Simulation M S N E) (target : DutyId) (delay : Span) (event : E) :
    Except Panic (Simulation M S N E × Except (InjectionError E) EventToken) :=
  match sim.now.checkedAdd delay with
  | none => .ok (sim, .error ⟨event, .timeOverflow sim.now delay⟩)
  | some moment => sim.injectAt target moment event

end

end Simulation

/-! ### The owner's calls -/

/-- One call on a simulation. -/
inductive Call (E : Type)
  | step
  | inject (target : DutyId) (event : E)
  | injectAfter (target : DutyId) (delay : Span) (event : E)
  | injectAt (target : DutyId) (moment : Moment) (event : E)
  deriving DecidableEq

/-- What the call returned. -/
inductive Reply (E O ME NE SE : Type)
  | stepped (result : StepReturn O ME NE SE)
  | injected (result : Except (InjectionError E) EventToken)

namespace Simulation

variable {M S N E O ME SE NE : Type} [Retained E] [Retained O] [Model M E O ME]
  [Scheduler S SE] [Monitor N M O NE]

/-- Performs one call. -/
def exec (sim : Simulation M S N E) :
    Call E → Except Panic (Simulation M S N E × Reply E O ME NE SE)
  | .step => do
    let (sim, result) ← sim.step
    .ok (sim, .stepped result)
  | .inject target event => do
    let (sim, result) ← sim.inject target event
    .ok (sim, .injected result)
  | .injectAfter target delay event => do
    let (sim, result) ← sim.injectAfter target delay event
    .ok (sim, .injected result)
  | .injectAt target moment event => do
    let (sim, result) ← sim.injectAt target moment event
    .ok (sim, .injected result)

/-- The simulations the owner can build, and its calls on them. -/
def system (M S N E O ME SE NE : Type) [Retained E] [Retained O] [Model M E O ME]
    [Scheduler S SE] [Monitor N M O NE] :
    TransitionSystem (Simulation M S N E) (Call E × Reply E O ME NE SE) where
  init sim := ∃ id now model topology limits scheduler monitor,
    withParts id now model topology limits scheduler monitor = .ok (.ok sim)
  step sim l sim' := sim.exec l.1 = .ok (sim', l.2)

end Simulation

/-! ### Concrete parts -/

/-- Selects the first canonical enabled action. -/
structure Fifo where

instance : Scheduler Fifo Empty where
  choose fifo _ ready :=
    match ready.head? with
    | some action => (fifo, .ok action)
    | none => (fifo, .panicked)

/-- Monitor that accepts every committed state. -/
structure NoopMonitor where

instance {M O : Type} : Monitor NoopMonitor M O Empty where
  afterAction monitor _ _ := (monitor, .ok ())

/-- Applies a function to what a callback hands back. -/
def Program.map {E O α β : Type} (f : α → β) : Program E O α → Program E O β
  | .done result => .done (f result)
  | .call request next => .call request fun reply => (next reply).map f

/-- A model that plays a fixed list of callbacks, whatever the action, and
stops every duty once the list is used up. -/
structure Playback (E O ME : Type) where
  callbacks : List (Program E O (Returned Turn ME))

def Playback.play {E O ME : Type} (model : Playback E O ME) :
    Program E O (Playback E O ME × Returned Turn ME) :=
  match model.callbacks with
  | [] => .done (model, .ok ⟨0, .stop⟩)
  | callback :: rest => callback.map fun result => (⟨rest⟩, result)

instance {E O ME : Type} : Model (Playback E O ME) E O ME where
  turn model _ _ _ := model.play
  deliver model _ _ _ _ := model.play

/-- The simulation of a playback over one duty, at the virtual origin. -/
def Playback.world {E O ME S N : Type} [Retained E] (callbacks : List (Program E O (Returned Turn ME)))
    (scheduler : S) (monitor : N) : Simulation (Playback E O ME) S N E where
  model := ⟨callbacks⟩
  topology := ⟨[1], by simp, by simp⟩
  states := initialStates ⟨[1], by simp, by simp⟩
  stopped := ∅
  timeline := .atWithMeasure 7 0 ⟨⟨8, U64.eight_ne_zero⟩, 64⟩ Retained.retainedBytes
  limits := .new ⟨⟨8, U64.eight_ne_zero⟩, 64⟩
  scheduler := scheduler
  monitor := monitor
  phase := .active
  poisoned := false
  nextAction := some 0
  actions := 0
  actionsAtMoment := 0
  ready := []

theorem Playback.world_built {E O ME S N : Type} [Retained E]
    (callbacks : List (Program E O (Returned Turn ME))) (scheduler : S) (monitor : N) :
    Simulation.withParts 7 0 (⟨callbacks⟩ : Playback E O ME) ⟨[1], by simp, by simp⟩
      (.new ⟨⟨8, by decide⟩, 64⟩) scheduler monitor = .ok (.ok (world callbacks scheduler monitor)) :=
  rfl

end Calandria
