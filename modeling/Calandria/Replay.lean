/-
Causal traces and exact replay.

A `Trace` is a monitor that retains the identity and the turn of every
committed action in a bounded `EventBatch` and then asks the monitor it is
composed with.  A `Replay` is a scheduler that selects the actions of such a
trace again and checks every commit against it; the hooks' internal panics are
`Returned.panicked`.
-/
import Calandria.Kernel

namespace Calandria

/-! ### Bounded event batches -/

/-- Maximum values and variable bytes retained by one owner-local event batch. -/
structure EventBatchLimits where
  events : NonZeroUsize
  retainedBytes : RetainedBytes
  deriving DecidableEq

/-- Why an event could not enter a bounded owner-local batch. -/
inductive EventBatchFailure
  | eventCapacity (limit : NonZeroUsize)
  | retainedByteOverflow (current event : RetainedBytes)
  | retainedByteCapacity (limit current event : RetainedBytes)
  deriving DecidableEq

/-- Failed event-batch admission with ownership of the rejected value. -/
structure EventBatchError (E : Type) where
  event : E
  failure : EventBatchFailure

/-- Count- and retained-byte-bounded owner-local event batch. -/
structure EventBatch (E : Type) where
  limits : EventBatchLimits
  measure : E → RetainedBytes
  events : List (Entry E)
  retained : RetainedBytes
  count : events.length ≤ limits.events.get.val
  exact : retained.val = (events.map fun entry => entry.retained.val).sum

namespace EventBatch

variable {E : Type}

/-- Allocates an empty batch using an explicit retained-byte measurement. -/
def withMeasure (limits : EventBatchLimits) (measure : E → RetainedBytes) : EventBatch E :=
  ⟨limits, measure, [], 0, Nat.zero_le _, rfl⟩

/-- Allocates an empty batch with fixed logical limits. -/
def new [Retained E] (limits : EventBatchLimits) : EventBatch E :=
  withMeasure limits Retained.retainedBytes

/-- The retained events in insertion order. -/
def iter (batch : EventBatch E) : List E := batch.events.map Entry.event

/-- Admits one event without exceeding count or retained-byte limits. -/
def tryPush (batch : EventBatch E) (event : E) : Except (EventBatchError E) (EventBatch E) :=
  if hcount : batch.limits.events.get.val ≤ batch.events.length then
    .error ⟨event, .eventCapacity batch.limits.events⟩
  else
    let retained := batch.measure event
    match hadd : batch.retained.checkedAdd retained with
    | none => .error ⟨event, .retainedByteOverflow batch.retained retained⟩
    | some nextRetained =>
      if batch.limits.retainedBytes < nextRetained then
        .error ⟨event, .retainedByteCapacity batch.limits.retainedBytes batch.retained retained⟩
      else
        .ok { batch with
          events := batch.events ++ [⟨event, retained⟩]
          retained := nextRetained
          count := by
            rw [List.length_append, List.length_singleton]
            omega
          exact := by
            simp [U64.checkedAdd_eq_some.mp hadd, batch.exact] }

theorem tryPush_ok {batch batch' : EventBatch E} {event : E}
    (h : batch.tryPush event = .ok batch') :
    batch'.iter = batch.iter ++ [event] ∧ batch'.limits = batch.limits := by
  rw [tryPush] at h
  split at h
  · cases h
  · simp only at h
    split at h
    · cases h
    · split at h
      · cases h
      · cases h
        simp [iter]

end EventBatch

/-! ### The trace monitor -/

/-- Exact metadata and scheduling interest committed by one model action. -/
structure TraceEntry where
  metadata : ActionMeta
  turn : Turn
  deriving DecidableEq

/-- An entry has a fixed width and retains nothing. -/
instance : Retained TraceEntry := ⟨fun _ => 0⟩

def TraceEntry.fromRecord {O : Type} (record : ActionRecord O) : TraceEntry :=
  ⟨record.metadata, record.turn⟩

/-- Maximum entries and variable bytes retained by one causal trace. -/
structure TraceLimits where
  entries : NonZeroUsize
  retainedBytes : RetainedBytes
  deriving DecidableEq

def TraceLimits.batch (limits : TraceLimits) : EventBatchLimits :=
  ⟨limits.entries, limits.retainedBytes⟩

/-- Failure after a committed action reached its bounded trace monitor. -/
inductive TraceError (NE : Type)
  | capacity (limit : NonZeroUsize)
  | monitor (source : NE)

/-- Bounded causal trace composed around a monitor. -/
structure Trace (N : Type) where
  limits : TraceLimits
  entries : EventBatch TraceEntry
  monitor : N

/-- Creates a trace that records before invoking the composed monitor. -/
def Trace.withMonitor {N : Type} (limits : TraceLimits) (monitor : N) : Trace N :=
  { limits, entries := .new limits.batch, monitor }

instance {N M O NE : Type} [Monitor N M O NE] : Monitor (Trace N) M O (TraceError NE) where
  afterAction trace view action :=
    match trace.entries.tryPush (.fromRecord action) with
    | .error ⟨_, .eventCapacity limit⟩ => (trace, .err (.capacity limit))
    | .error ⟨_, .retainedByteOverflow _ _⟩ => (trace, .panicked)
    | .error ⟨_, .retainedByteCapacity _ _ _⟩ => (trace, .panicked)
    | .ok entries =>
      match Monitor.afterAction trace.monitor view action with
      | (monitor, .ok ()) => ({ trace with entries, monitor }, .ok ())
      | (monitor, .err source) => ({ trace with entries, monitor }, .err (.monitor source))
      | (monitor, .panicked) => ({ trace with entries, monitor }, .panicked)

/-- A trace that accepts an action has recorded it. -/
theorem Trace.afterAction_ok {N M O NE : Type} [Monitor N M O NE] {trace trace' : Trace N}
    {view : SimulationView M} {action : ActionRecord O}
    (h : Monitor.afterAction trace view action = (trace', .ok ())) :
    trace'.entries.iter = trace.entries.iter ++ [.fromRecord action] := by
  simp only [Monitor.afterAction] at h
  split at h
  · cases h
  · cases h
  · cases h
  · rename_i entries hpush
    split at h <;> cases h
    exact (EventBatch.tryPush_ok hpush).1

/-! ### The replay scheduler -/

/-- Fixed-width position in one replay trace. -/
abbrev ReplayPosition := U64

/-- Exact boundary where a replay departed from its causal trace. -/
inductive ReplayDivergence
  | traceExhausted (position : ReplayPosition) (moment : Moment) (ready : ℕ)
  | moment (position : ReplayPosition) (expected : TraceEntry) (actual : Moment)
  | unavailable (position : ReplayPosition) (expected : TraceEntry) (ready : ℕ)
  | committed (position : ReplayPosition) (expected actual : TraceEntry)
  | traceRemaining (position : ReplayPosition) (remaining : ℕ)
  | pendingCommit (position : ReplayPosition)
  | unexpectedCommit (position : ReplayPosition) (actual : TraceEntry)
  deriving DecidableEq

/-- The divergences of a choice, which no callback has followed yet. -/
def ReplayDivergence.Early : ReplayDivergence → Prop
  | .traceExhausted .. | .moment .. | .unavailable .. => True
  | .committed .. | .traceRemaining .. | .pendingCommit .. | .unexpectedCommit .. => False

/-- Scheduler that replays one exact bounded causal trace.  The length of its
boxed slice is a `usize`. -/
structure Replay where
  entries : List TraceEntry
  cursor : U64
  position : ReplayPosition
  awaitingCommit : Bool
  addressable : entries.length < 2 ^ 64

namespace Replay

def fromEntries (entries : List TraceEntry) (addressable : entries.length < 2 ^ 64) : Replay :=
  { entries, cursor := 0, position := 0, awaitingCommit := false, addressable }

/-- Entries not yet validated as committed. -/
def remaining (replay : Replay) : ℕ := replay.entries.length - replay.cursor.val

/-- Whether every retained trace entry was replayed exactly. -/
def isComplete (replay : Replay) : Bool := replay.remaining = 0 ∧ !replay.awaitingCommit

def expected (replay : Replay) : Option TraceEntry := replay.entries[replay.cursor.val]?

end Replay

instance : Scheduler Replay ReplayDivergence where
  choose replay now ready :=
    if replay.awaitingCommit then (replay, .err (.pendingCommit replay.position))
    else
      match replay.expected with
      | none => (replay, .err (.traceExhausted replay.position now ready.length))
      | some expected =>
        if expected.metadata.moment ≠ now then
          (replay, .err (.moment replay.position expected now))
        else if !ReadySet.contains ready expected.metadata.key then
          (replay, .err (.unavailable replay.position expected ready.length))
        else ({ replay with awaitingCommit := true }, .ok expected.metadata.key)
  committed replay action turn :=
    let actual : TraceEntry := ⟨action, turn⟩
    if !replay.awaitingCommit then (replay, .err (.unexpectedCommit replay.position actual))
    else
      match replay.expected with
      | none => (replay, .panicked)
      | some expected =>
        if actual ≠ expected then (replay, .err (.committed replay.position expected actual))
        else
          match replay.cursor.checkedAdd 1 with
          | none => (replay, .panicked)
          | some cursor =>
            match replay.position.checkedAdd 1 with
            | none => ({ replay with cursor }, .panicked)
            | some position =>
              ({ replay with cursor, position, awaitingCommit := false }, .ok ())
  finished replay :=
    if replay.awaitingCommit then (replay, .err (.pendingCommit replay.position))
    else if replay.remaining ≠ 0 then
      (replay, .err (.traceRemaining replay.position replay.remaining))
    else (replay, .ok ())

/-- Builds an exact replay scheduler from the retained prefix. -/
def Trace.replay {N : Type} (trace : Trace N) : Replay :=
  .fromEntries trace.entries.iter (by
    have hcount := trace.entries.count
    have hlimit := trace.entries.limits.events.get.isLt
    rw [EventBatch.iter, List.length_map]
    omega)

/-! ### The hooks between two actions -/

namespace Replay

/-- The replay is between two actions, with `k` entries committed. -/
structure Aligned (replay : Replay) (k : ℕ) : Prop where
  cursor : replay.cursor.val = k
  position : replay.position.val = k
  idle : replay.awaitingCommit = false
  bound : k ≤ replay.entries.length

theorem fromEntries_aligned (entries : List TraceEntry) (h : entries.length < 2 ^ 64) :
    (fromEntries entries h).Aligned 0 :=
  ⟨rfl, rfl, rfl, Nat.zero_le _⟩

theorem Aligned.expected {replay : Replay} {k : ℕ} (h : replay.Aligned k) :
    replay.expected = replay.entries[k]? := by
  rw [Replay.expected, h.cursor]

theorem Aligned.remaining {replay : Replay} {k : ℕ} (h : replay.Aligned k) :
    replay.remaining = replay.entries.length - k := by
  rw [Replay.remaining, h.cursor]

theorem Aligned.choose_exhausted {replay : Replay} {k : ℕ} (h : replay.Aligned k)
    (hend : replay.entries[k]? = none) (now : Moment) (ready : ReadySet) :
    Scheduler.choose replay now ready
      = (replay, .err (.traceExhausted replay.position now ready.length)) := by
  simp [Scheduler.choose, h.idle, h.expected, hend]

theorem Aligned.choose_moment {replay : Replay} {k : ℕ} {entry : TraceEntry}
    (h : replay.Aligned k) (hentry : replay.entries[k]? = some entry) {now : Moment}
    (hmoment : entry.metadata.moment ≠ now) (ready : ReadySet) :
    Scheduler.choose replay now ready = (replay, .err (.moment replay.position entry now)) := by
  simp [Scheduler.choose, h.idle, h.expected, hentry, hmoment]

theorem Aligned.choose_unavailable {replay : Replay} {k : ℕ} {entry : TraceEntry}
    (h : replay.Aligned k) (hentry : replay.entries[k]? = some entry) {ready : ReadySet}
    (hready : ReadySet.contains ready entry.metadata.key = false) :
    Scheduler.choose replay entry.metadata.moment ready
      = (replay, .err (.unavailable replay.position entry ready.length)) := by
  simp [Scheduler.choose, h.idle, h.expected, hentry, hready]

theorem Aligned.choose_ok {replay : Replay} {k : ℕ} {entry : TraceEntry}
    (h : replay.Aligned k) (hentry : replay.entries[k]? = some entry) {ready : ReadySet}
    (hready : ReadySet.contains ready entry.metadata.key = true) :
    Scheduler.choose replay entry.metadata.moment ready
      = ({ replay with awaitingCommit := true }, .ok entry.metadata.key) := by
  simp [Scheduler.choose, h.idle, h.expected, hentry, hready]

/-- A choice diverges or selects the next entry. -/
theorem Aligned.choose_cases {replay : Replay} {k : ℕ} (h : replay.Aligned k) (now : Moment)
    (ready : ReadySet) :
    (∃ divergence, Scheduler.choose replay now ready = (replay, .err divergence) ∧
      divergence.Early) ∨
    ∃ entry, replay.entries[k]? = some entry ∧ entry.metadata.moment = now ∧
      entry.metadata.key ∈ ready ∧ Scheduler.choose replay now ready
        = ({ replay with awaitingCommit := true }, .ok entry.metadata.key) := by
  cases hentry : replay.entries[k]? with
  | none => exact .inl ⟨_, h.choose_exhausted hentry now ready, trivial⟩
  | some entry =>
    by_cases hmoment : entry.metadata.moment = now
    swap
    · exact .inl ⟨_, h.choose_moment hentry hmoment ready, trivial⟩
    subst hmoment
    cases hready : ReadySet.contains ready entry.metadata.key with
    | true =>
      exact .inr ⟨entry, rfl, rfl, ReadySet.mem_of_contains hready, h.choose_ok hentry hready⟩
    | false => exact .inl ⟨_, h.choose_unavailable hentry hready, trivial⟩

theorem Aligned.committed_other {replay : Replay} {k : ℕ} {entry : TraceEntry}
    (h : replay.Aligned k) (hentry : replay.entries[k]? = some entry) {metadata : ActionMeta}
    {turn : Turn} (hne : (⟨metadata, turn⟩ : TraceEntry) ≠ entry) :
    Scheduler.committed { replay with awaitingCommit := true } metadata turn
      = ({ replay with awaitingCommit := true },
        .err (.committed replay.position entry ⟨metadata, turn⟩)) := by
  have hexpected : ({ replay with awaitingCommit := true } : Replay).expected = some entry := by
    rw [← hentry, ← h.expected]
    rfl
  simp [Scheduler.committed, hexpected, hne]

/-- A matching commit moves the replay to the next entry. -/
theorem Aligned.committed_ok {replay : Replay} {k : ℕ} {entry : TraceEntry}
    (h : replay.Aligned k) (hentry : replay.entries[k]? = some entry) :
    ∃ replay', Scheduler.committed { replay with awaitingCommit := true } entry.metadata entry.turn
        = (replay', .ok ()) ∧ replay'.Aligned (k + 1) ∧ replay'.entries = replay.entries := by
  have hlt := lt_length_of_getElem? hentry
  have haddressable := replay.addressable
  have hcursor : replay.cursor.checkedAdd 1 = some ⟨k + 1, by omega⟩ :=
    U64.checkedAdd_eq_some.mpr (by simp [h.cursor])
  have hposition : replay.position.checkedAdd 1 = some ⟨k + 1, by omega⟩ :=
    U64.checkedAdd_eq_some.mpr (by simp [h.position])
  have hexpected : ({ replay with awaitingCommit := true } : Replay).expected = some entry := by
    rw [← hentry, ← h.expected]
    rfl
  refine ⟨{ replay with
    cursor := ⟨k + 1, by omega⟩, position := ⟨k + 1, by omega⟩, awaitingCommit := false },
    ?_, ⟨rfl, rfl, rfl, hlt⟩, rfl⟩
  simp [Scheduler.committed, hexpected, hcursor, hposition]

theorem Aligned.finished_remaining {replay : Replay} {k : ℕ} (h : replay.Aligned k)
    (hlt : k < replay.entries.length) :
    Scheduler.finished replay
      = (replay, .err (.traceRemaining replay.position (replay.entries.length - k))) := by
  have hne : replay.entries.length - k ≠ 0 := by omega
  simp only [Scheduler.finished, h.idle, Bool.false_eq_true, if_false, h.remaining, if_pos hne]

theorem Aligned.finished_ok {replay : Replay} (h : replay.Aligned replay.entries.length) :
    Scheduler.finished replay = (replay, .ok ()) := by
  simp [Scheduler.finished, h.idle, h.remaining]

end Replay

end Calandria
