/-
The bounded reactor mailbox.

Every operation of a sender or of the receiver runs under the mailbox lock from
its first look at the state to its last change, so an interleaving of threads
is a sequence of operations.  What `WakeHandle::wake` returns is an argument of
the operations that call it.

* `LaneState.WF` — the bounds of one lane, and its exact retained total;
* `Shared.trySendMaterialized_cases` — when a send is rejected, and why;
* `Mailbox.conservation` — over all interleavings, what is sent to a lane comes
  out of it in order, once, and controls come before work.
-/
import Calandria.TransitionSystem
import Calandria.Time

namespace Calandria

/-- Selects one independently bounded mailbox lane. -/
inductive Lane
  | control
  | work
  deriving DecidableEq

/-- Count and retained-byte limits for one mailbox lane. -/
structure LaneLimits where
  messages : NonZeroUsize
  retainedBytes : RetainedBytes
  deriving DecidableEq

/-- Independent limits for control and work lanes. -/
structure MailboxLimits where
  control : LaneLimits
  work : LaneLimits
  deriving DecidableEq

/-- The selected lane's limits. -/
def MailboxLimits.lane (limits : MailboxLimits) : Lane → LaneLimits
  | .control => limits.control
  | .work => limits.work

/-- Why mailbox admission rejected an owned value; `W` is the wake's error. -/
inductive AdmissionFailure (W : Type)
  | messageCapacity
  | byteCapacity
  | closed
  | wake (source : W)

/-- Ownership-preserving mailbox admission error. -/
structure TrySendError (U W : Type) where
  item : U
  lane : Lane
  failure : AdmissionFailure W

/-- Scheduling state after one bounded mailbox drain. -/
inductive DrainStatus
  | idle
  | morePending
  | closed
  deriving DecidableEq

/-- Result of one bounded drain. -/
structure DrainReport where
  drained : ℕ
  status : DrainStatus
  deriving DecidableEq

namespace Mailbox

/-- The internal panic sites of the mailbox. -/
inductive Panic
  /-- "mailbox retained-byte accounting invariant violated" -/
  | retainedAccounting
  /-- "mailbox sender count exhausted" -/
  | senderCount
  deriving DecidableEq

/-! ### One lane -/

structure Entry (T : Type) where
  item : T
  retained : RetainedBytes

/-- The values of a queue, oldest first. -/
def values {T : Type} (queue : List (Entry T)) : List T := queue.map Entry.item

structure LaneState (T : Type) where
  queue : List (Entry T)
  retained : RetainedBytes

namespace LaneState

variable {T : Type}

def new : LaneState T := ⟨[], 0⟩

/-- `admit`. -/
def admitEntry (state : LaneState T) (item : T) (retained nextBytes : RetainedBytes) :
    LaneState T :=
  ⟨state.queue ++ [⟨item, retained⟩], nextBytes⟩

def drainInto : ℕ → LaneState T → List T → Except Panic (LaneState T × List T)
  | 0, state, destination => .ok (state, destination)
  | count + 1, state, destination =>
    match state.queue with
    | [] => .ok (state, destination)
    | entry :: rest =>
      match state.retained.checkedSub entry.retained with
      | none => .error .retainedAccounting
      | some retained => drainInto count ⟨rest, retained⟩ (destination ++ [entry.item])

def drainAll (state : LaneState T) (destination : List T) : Except Panic (LaneState T × List T) :=
  drainInto state.queue.length state destination

/-- The lane keeps its limits, and its total is the sum of what was measured. -/
structure WF (limits : LaneLimits) (state : LaneState T) : Prop where
  count : state.queue.length ≤ limits.messages.get.val
  exact : state.retained.val = (state.queue.map fun entry => entry.retained.val).sum
  bytes : state.retained ≤ limits.retainedBytes

theorem new_wf (limits : LaneLimits) : (new : LaneState T).WF limits :=
  ⟨Nat.zero_le _, rfl, Fin.zero_le _⟩

theorem WF.admitEntry {limits : LaneLimits} {state : LaneState T} (h : state.WF limits) {item : T}
    {retained nextBytes : RetainedBytes} (hcount : state.queue.length < limits.messages.get.val)
    (hadd : state.retained.checkedAdd retained = some nextBytes)
    (hbytes : nextBytes ≤ limits.retainedBytes) :
    (state.admitEntry item retained nextBytes).WF limits := by
  have hsum := U64.checkedAdd_eq_some.mp hadd
  refine ⟨?_, ?_, hbytes⟩
  · rw [LaneState.admitEntry, List.length_append, List.length_singleton]
    omega
  · simp [LaneState.admitEntry, hsum, h.exact]

/-- A drain of a well-formed lane takes a prefix, and never panics. -/
theorem WF.drainInto {limits : LaneLimits} {state : LaneState T} (h : state.WF limits)
    (count : ℕ) (destination : List T) :
    ∃ state', LaneState.drainInto count state destination
        = .ok (state', destination ++ values (state.queue.take count)) ∧
      state'.queue = state.queue.drop count ∧ state'.WF limits := by
  induction count generalizing state destination with
  | zero => exact ⟨state, by simp [LaneState.drainInto, values], rfl, h⟩
  | succ count ih =>
    cases hqueue : state.queue with
    | nil => exact ⟨state, by simp [LaneState.drainInto, hqueue, values], by simp [hqueue], h⟩
    | cons entry rest =>
      have hexact := h.exact
      rw [hqueue, List.map_cons, List.sum_cons] at hexact
      -- the bytes of the lane are exact, so taking the head off does not underflow
      obtain ⟨retained, hsub⟩ : ∃ retained,
          state.retained.checkedSub entry.retained = some retained := by
        refine ⟨⟨(rest.map fun entry => entry.retained.val).sum, ?_⟩, ?_⟩
        · have := state.retained.isLt
          omega
        · exact U64.checkedSub_eq_some.mpr hexact
      have hretained := U64.checkedSub_eq_some.mp hsub
      have hrest : (⟨rest, retained⟩ : LaneState T).WF limits := by
        refine ⟨?_, ?_, ?_⟩
        · have hcount := h.count
          rw [hqueue, List.length_cons] at hcount
          show rest.length ≤ _
          omega
        · show retained.val = (rest.map fun entry => entry.retained.val).sum
          omega
        · have hbytes := Fin.le_def.mp h.bytes
          rw [Fin.le_def]
          show retained.val ≤ _
          omega
      obtain ⟨state', hdrain, hdrop, hwf⟩ := ih hrest (destination ++ [entry.item])
      refine ⟨state', ?_, hdrop, hwf⟩
      simp only [LaneState.drainInto, hqueue, hsub, hdrain, values, List.map_cons,
        List.take_succ_cons, List.append_assoc, List.singleton_append]

end LaneState

/-! ### The mailbox under its lock -/

structure State (T : Type) where
  control : LaneState T
  work : LaneState T
  receiverAlive : Bool
  senders : U64

namespace State

variable {T : Type}

def new : State T := ⟨.new, .new, true, 1⟩

def lane (state : State T) : Lane → LaneState T
  | .control => state.control
  | .work => state.work

/-- Writes through `lane_mut`. -/
def setLane (state : State T) (laneState : LaneState T) : Lane → State T
  | .control => { state with control := laneState }
  | .work => { state with work := laneState }

def isEmpty (state : State T) : Bool := state.control.queue.isEmpty ∧ state.work.queue.isEmpty

/-- The status that a drain reports; unless it is `MorePending`, the drain has
acknowledged the wake. -/
def status (state : State T) : DrainStatus :=
  if state.isEmpty then
    if !state.receiverAlive || state.senders = 0 then .closed else .idle
  else .morePending

@[simp] theorem lane_setLane_self (state : State T) (laneState : LaneState T) (lane : Lane) :
    (state.setLane laneState lane).lane lane = laneState := by
  cases lane <;> rfl

theorem lane_setLane_ne (state : State T) (laneState : LaneState T) {lane other : Lane}
    (h : other ≠ lane) : (state.setLane laneState lane).lane other = state.lane other := by
  cases lane <;> cases other <;> first | rfl | exact absurd rfl h

@[simp] theorem setLane_receiverAlive (state : State T) (laneState : LaneState T) (lane : Lane) :
    (state.setLane laneState lane).receiverAlive = state.receiverAlive := by
  cases lane <;> rfl

@[simp] theorem setLane_senders (state : State T) (laneState : LaneState T) (lane : Lane) :
    (state.setLane laneState lane).senders = state.senders := by
  cases lane <;> rfl

theorem isEmpty_iff (state : State T) :
    state.isEmpty = true ↔ ∀ lane, (state.lane lane).queue = [] := by
  simp only [isEmpty, decide_eq_true_eq, List.isEmpty_iff]
  refine ⟨fun ⟨hcontrol, hwork⟩ lane => ?_, fun h => ⟨h .control, h .work⟩⟩
  cases lane
  · exact hcontrol
  · exact hwork

theorem senders_of_idle {state : State T} (h : state.status = .idle) : state.senders ≠ 0 := by
  rw [status] at h
  split_ifs at h with _ hclosed
  intro hzero
  exact hclosed (by simp [hzero])

theorem isEmpty_of_idle {state : State T} (h : state.status = .idle) : state.isEmpty = true := by
  rw [status] at h
  split_ifs at h with hempty
  exact hempty

end State

structure LaneCounters where
  messages : U64
  bytes : U64
  deriving DecidableEq

/-- Cumulative rejection counters, which saturate. -/
structure Counters where
  control : LaneCounters
  work : LaneCounters
  closed : U64
  wakeFailures : U64
  deriving DecidableEq

namespace Counters

def new : Counters := ⟨⟨0, 0⟩, ⟨0, 0⟩, 0, 0⟩

def updateLane (counters : Counters) (update : LaneCounters → LaneCounters) : Lane → Counters
  | .control => { counters with control := update counters.control }
  | .work => { counters with work := update counters.work }

def incrementMessages (counters : Counters) (lane : Lane) : Counters :=
  counters.updateLane (fun c => { c with messages := c.messages.saturatingAdd 1 }) lane

def incrementBytes (counters : Counters) (lane : Lane) : Counters :=
  counters.updateLane (fun c => { c with bytes := c.bytes.saturatingAdd 1 }) lane

def incrementClosed (counters : Counters) : Counters :=
  { counters with closed := counters.closed.saturatingAdd 1 }

def incrementWakeFailures (counters : Counters) : Counters :=
  { counters with wakeFailures := counters.wakeFailures.saturatingAdd 1 }

end Counters

/-- What the two ends of a mailbox share, but for the wake handle. -/
structure Shared (T : Type) where
  limits : MailboxLimits
  state : State T
  counters : Counters
  measure : T → RetainedBytes

namespace Shared

variable {T U W : Type}

/-- `mailbox_with`. -/
def new (limits : MailboxLimits) (measure : T → RetainedBytes) : Shared T :=
  ⟨limits, .new, .new, measure⟩

/-- The part of `try_send_materialized` before the wake: why the value is
rejected, or the lane's next retained total. -/
def validate (shared : Shared T) (lane : Lane) (retained : RetainedBytes) :
    Except (Shared T × AdmissionFailure W) RetainedBytes :=
  if !shared.state.receiverAlive then
    .error ({ shared with counters := shared.counters.incrementClosed }, .closed)
  else if (shared.limits.lane lane).messages.get.val ≤ (shared.state.lane lane).queue.length then
    .error ({ shared with counters := shared.counters.incrementMessages lane }, .messageCapacity)
  else
    match (shared.state.lane lane).retained.checkedAdd retained with
    | none => .error ({ shared with counters := shared.counters.incrementBytes lane }, .byteCapacity)
    | some nextBytes =>
      if (shared.limits.lane lane).retainedBytes < nextBytes then
        .error ({ shared with counters := shared.counters.incrementBytes lane }, .byteCapacity)
      else .ok nextBytes

/-- The part after the wake. -/
def publish (shared : Shared T) (lane : Lane) (item : T) (retained nextBytes : RetainedBytes) :
    Shared T :=
  { shared with
    state := shared.state.setLane ((shared.state.lane lane).admitEntry item retained nextBytes) lane }

/-- Admits an owned source value before materializing the queued value. -/
def trySendMaterialized (shared : Shared T) (lane : Lane) (owner : U)
    (retainedBytes : U → RetainedBytes) (materialize : U → T) (woken : Except W Unit) :
    Shared T × Except (TrySendError U W) Unit :=
  let retained := retainedBytes owner
  match shared.validate lane retained with
  | .error (shared, failure) => (shared, .error ⟨owner, lane, failure⟩)
  | .ok nextBytes =>
    match woken with
    | .error source =>
      ({ shared with counters := shared.counters.incrementWakeFailures },
        .error ⟨owner, lane, .wake source⟩)
    | .ok () => (shared.publish lane (materialize owner) retained nextBytes, .ok ())

/-- Attempts to publish to a selected lane; `try_send` and `try_send_control`
are its two instances. -/
def trySendTo (shared : Shared T) (lane : Lane) (item : T) (woken : Except W Unit) :
    Shared T × Except (TrySendError T W) Unit :=
  shared.trySendMaterialized lane item shared.measure id woken

/-- `Clone for MailboxSender`. -/
def cloneSender (shared : Shared T) : Except Panic (Shared T) :=
  match shared.state.senders.checkedAdd 1 with
  | none => .error .senderCount
  | some senders => .ok { shared with state := { shared.state with senders } }

/-- `Drop for MailboxSender`. -/
def dropSender (shared : Shared T) (woken : Except W Unit) : Shared T :=
  if shared.state.senders = 0 then shared
  else
    let counters :=
      match woken with
      | .error _ =>
        if shared.state.senders = 1 ∧ shared.state.receiverAlive then
          shared.counters.incrementWakeFailures
        else shared.counters
      | .ok () => shared.counters
    { shared with
      counters
      state := { shared.state with senders := shared.state.senders - 1 } }

/-- What one drain takes from each lane. -/
def quota (shared : Shared T) (limit : ℕ) : Lane → ℕ
  | .control => min limit shared.state.control.queue.length
  | .work =>
    min (limit - min limit shared.state.control.queue.length) shared.state.work.queue.length

/-- Drains at most `limit` values, taking control work before ordinary work. -/
def drainInto (shared : Shared T) (destination : List T) (limit : NonZeroUsize) :
    Except Panic (Shared T × List T × DrainReport) := do
  let before := destination.length
  let (control, destination) ←
    LaneState.drainInto (shared.quota limit.get.val .control) shared.state.control destination
  let (work, destination) ←
    LaneState.drainInto (shared.quota limit.get.val .work) shared.state.work destination
  let state := { shared.state with control, work }
  .ok ({ shared with state }, destination, ⟨destination.length - before, state.status⟩)

/-- `close_inner`. -/
def closeInner (shared : Shared T) : Except Panic (Shared T × List T) := do
  let (control, items) ← shared.state.control.drainAll []
  let (work, items) ← shared.state.work.drainAll items
  .ok ({ shared with state := { shared.state with receiverAlive := false, control, work } }, items)

/-! ### What the operations do -/

/-- Both lanes are well formed. -/
def WF (shared : Shared T) : Prop :=
  ∀ lane, (shared.state.lane lane).WF (shared.limits.lane lane)

theorem new_wf (limits : MailboxLimits) (measure : T → RetainedBytes) :
    (new limits measure).WF := by
  intro lane
  cases lane <;> exact LaneState.new_wf _

/-- The rejection a send meets, in the order in which the source looks for it. -/
inductive Rejects (shared : Shared T) (lane : Lane) (retained : RetainedBytes)
    (woken : Except W Unit) : AdmissionFailure W → Prop
  | closed : shared.state.receiverAlive = false → Rejects shared lane retained woken .closed
  | messageCapacity : shared.state.receiverAlive = true →
      (shared.limits.lane lane).messages.get.val ≤ (shared.state.lane lane).queue.length →
      Rejects shared lane retained woken .messageCapacity
  | byteCapacity : shared.state.receiverAlive = true →
      (shared.state.lane lane).queue.length < (shared.limits.lane lane).messages.get.val →
      (shared.limits.lane lane).retainedBytes.val
        < (shared.state.lane lane).retained.val + retained.val →
      Rejects shared lane retained woken .byteCapacity
  | wake {source} : shared.state.receiverAlive = true →
      (shared.state.lane lane).queue.length < (shared.limits.lane lane).messages.get.val →
      (shared.state.lane lane).retained.val + retained.val
        ≤ (shared.limits.lane lane).retainedBytes.val →
      woken = .error source → Rejects shared lane retained woken (.wake source)

/-- A send that is let through. -/
structure Admits (shared : Shared T) (lane : Lane) (retained nextBytes : RetainedBytes) : Prop where
  alive : shared.state.receiverAlive = true
  count : (shared.state.lane lane).queue.length < (shared.limits.lane lane).messages.get.val
  bytes : (shared.state.lane lane).retained.checkedAdd retained = some nextBytes
  fits : nextBytes ≤ (shared.limits.lane lane).retainedBytes

theorem Rejects.unique {shared : Shared T} {lane : Lane} {retained : RetainedBytes}
    {woken : Except W Unit} {failure failure' : AdmissionFailure W}
    (h : shared.Rejects lane retained woken failure)
    (h' : shared.Rejects lane retained woken failure') : failure = failure' := by
  cases h <;> cases h' <;> grind

theorem Admits.not_rejects {shared : Shared T} {lane : Lane} {retained nextBytes : RetainedBytes}
    {woken : Except W Unit} (h : shared.Admits lane retained nextBytes) (hwoken : woken = .ok ())
    (failure : AdmissionFailure W) : ¬shared.Rejects lane retained woken failure := by
  have hsum := U64.checkedAdd_eq_some.mp h.bytes
  have hfits := Fin.le_def.mp h.fits
  intro hrejects
  cases hrejects with
  | closed hclosed => exact absurd (h.alive.symm.trans hclosed) (by decide)
  | messageCapacity _ hfull => exact absurd h.count (by omega)
  | byteCapacity _ _ hover => omega
  | wake _ _ _ hfailed =>
    rw [hwoken] at hfailed
    cases hfailed

theorem validate_cases (shared : Shared T) (lane : Lane) (retained : RetainedBytes)
    (woken : Except W Unit) :
    (∃ counters failure, shared.validate lane retained = .error ({ shared with counters }, failure) ∧
      Rejects shared lane retained woken failure) ∨
    ∃ nextBytes, (shared.validate lane retained : Except (Shared T × AdmissionFailure W) _)
      = .ok nextBytes ∧ shared.Admits lane retained nextBytes := by
  rw [validate]
  by_cases halive : shared.state.receiverAlive = true
  swap
  · rw [Bool.not_eq_true] at halive
    exact .inl ⟨_, _, if_pos (by simp [halive]), .closed halive⟩
  rw [if_neg (by simp [halive])]
  by_cases hcount :
    (shared.limits.lane lane).messages.get.val ≤ (shared.state.lane lane).queue.length
  · exact .inl ⟨_, _, if_pos hcount, .messageCapacity halive hcount⟩
  rw [if_neg hcount]
  have hroom := not_le.mp hcount
  cases hadd : (shared.state.lane lane).retained.checkedAdd retained with
  | none =>
    -- an overflowing total exceeds every limit
    have hover := U64.checkedAdd_eq_none.mp hadd
    have hlimit := (shared.limits.lane lane).retainedBytes.isLt
    exact .inl ⟨_, _, rfl, .byteCapacity halive hroom (by omega)⟩
  | some nextBytes =>
    have hsum := U64.checkedAdd_eq_some.mp hadd
    by_cases hfits : (shared.limits.lane lane).retainedBytes < nextBytes
    · refine .inl ⟨_, _, if_pos hfits, .byteCapacity halive hroom ?_⟩
      rw [← hsum]
      exact Fin.lt_def.mp hfits
    · exact .inr ⟨nextBytes, if_neg hfits, halive, hroom, hadd, not_lt.mp hfits⟩

/-- **When a send is rejected**: exactly if one of the four reasons applies; it
then hands the owner back and leaves the queues alone. -/
theorem trySendMaterialized_cases (shared : Shared T) (lane : Lane) (owner : U)
    (retainedBytes : U → RetainedBytes) (materialize : U → T) (woken : Except W Unit) :
    (∃ counters failure,
      shared.trySendMaterialized lane owner retainedBytes materialize woken
        = ({ shared with counters }, .error ⟨owner, lane, failure⟩) ∧
      Rejects shared lane (retainedBytes owner) woken failure) ∨
    ∃ nextBytes, shared.trySendMaterialized lane owner retainedBytes materialize woken
        = (shared.publish lane (materialize owner) (retainedBytes owner) nextBytes, .ok ()) ∧
      shared.Admits lane (retainedBytes owner) nextBytes ∧ woken = .ok () := by
  rcases shared.validate_cases lane (retainedBytes owner) woken with
    ⟨counters, failure, hvalidate, hrejects⟩ | ⟨nextBytes, hvalidate, hadmits⟩
  · left
    refine ⟨counters, failure, ?_, hrejects⟩
    simp only [trySendMaterialized, hvalidate]
  · cases woken with
    | ok =>
      right
      refine ⟨nextBytes, ?_, hadmits, rfl⟩
      simp only [trySendMaterialized, hvalidate]
    | error source =>
      left
      have hsum := U64.checkedAdd_eq_some.mp hadmits.bytes
      have hfits := Fin.le_def.mp hadmits.fits
      refine ⟨shared.counters.incrementWakeFailures, .wake source, ?_,
        .wake hadmits.alive hadmits.count (by omega) rfl⟩
      simp only [trySendMaterialized, hvalidate]

theorem Admits.publish_wf {shared : Shared T} {lane : Lane} {retained nextBytes : RetainedBytes}
    (h : shared.Admits lane retained nextBytes) (hwf : shared.WF) (item : T) :
    (shared.publish lane item retained nextBytes).WF := by
  intro other
  by_cases hother : other = lane
  · subst hother
    show ((shared.state.setLane _ other).lane other).WF _
    rw [State.lane_setLane_self]
    exact (hwf other).admitEntry h.count h.bytes h.fits
  · show ((shared.state.setLane _ lane).lane other).WF _
    rw [State.lane_setLane_ne _ _ hother]
    exact hwf other

/-- A value goes to the back of its lane. -/
theorem publish_queue (shared : Shared T) (lane other : Lane) (item : T)
    (retained nextBytes : RetainedBytes) :
    ((shared.publish lane item retained nextBytes).state.lane other).queue
      = (shared.state.lane other).queue ++ if lane = other then [⟨item, retained⟩] else [] := by
  by_cases hother : lane = other
  · subst hother
    simp [publish, LaneState.admitEntry]
  · rw [publish, State.lane_setLane_ne _ _ (Ne.symm hother), if_neg hother, List.append_nil]

/-- Dropping a sender changes neither lane. -/
theorem dropSender_cases (shared : Shared T) (woken : Except W Unit) :
    ∃ counters senders, shared.dropSender woken
      = { shared with counters, state := { shared.state with senders } } := by
  by_cases hnone : shared.state.senders = 0
  · exact ⟨shared.counters, shared.state.senders, if_pos hnone⟩
  · exact ⟨_, _, if_neg hnone⟩

/-- What a drain of at most `limit` values takes from a lane. -/
def taken (shared : Shared T) (limit : ℕ) (lane : Lane) : List (Entry T) :=
  (shared.state.lane lane).queue.take (shared.quota limit lane)

/-- A drain takes a prefix of each lane. -/
theorem drainInto_cases {shared : Shared T} (h : shared.WF) (destination : List T)
    (limit : NonZeroUsize) :
    ∃ shared', shared.drainInto destination limit
        = .ok (shared', destination ++ values (shared.taken limit.get.val .control)
            ++ values (shared.taken limit.get.val .work),
          ⟨(shared.taken limit.get.val .control).length
            + (shared.taken limit.get.val .work).length, shared'.state.status⟩) ∧
      shared'.WF ∧ shared'.limits = shared.limits ∧ shared'.measure = shared.measure ∧
      shared'.state.receiverAlive = shared.state.receiverAlive ∧
      ∀ lane, (shared'.state.lane lane).queue
        = (shared.state.lane lane).queue.drop (shared.quota limit.get.val lane) := by
  obtain ⟨control, hcontrol, hcontrolQueue, hcontrolWF⟩ :=
    (h .control).drainInto (shared.quota limit.get.val .control) destination
  obtain ⟨work, hwork, hworkQueue, hworkWF⟩ := (h .work).drainInto
    (shared.quota limit.get.val .work)
    (destination ++ values (shared.taken limit.get.val .control))
  change LaneState.drainInto _ shared.state.control _
    = .ok (control, destination ++ values (shared.taken limit.get.val .control)) at hcontrol
  change LaneState.drainInto _ shared.state.work _
    = .ok (work, destination ++ values (shared.taken limit.get.val .control)
      ++ values (shared.taken limit.get.val .work)) at hwork
  refine ⟨{ shared with state := { shared.state with control, work } }, ?_, fun lane => ?_, rfl,
    rfl, rfl, fun lane => ?_⟩
  · have hlength : (destination ++ values (shared.taken limit.get.val .control)
        ++ values (shared.taken limit.get.val .work)).length - destination.length
        = (shared.taken limit.get.val .control).length
          + (shared.taken limit.get.val .work).length := by
      simp only [List.length_append, values, List.length_map]
      omega
    simp only [drainInto, hcontrol, hwork, bind, Except.bind, hlength]
  · cases lane
    · exact hcontrolWF
    · exact hworkWF
  · cases lane
    · exact hcontrolQueue
    · exact hworkQueue

/-- No work is taken while a control value stays queued. -/
theorem taken_work_eq_nil (shared : Shared T) (limit : ℕ)
    (h : shared.state.control.queue.drop (shared.quota limit .control) ≠ []) :
    shared.taken limit .work = [] := by
  have hlt : shared.quota limit .control < shared.state.control.queue.length := by
    by_contra hle
    exact h (List.drop_eq_nil_of_le (not_lt.mp hle))
  have hzero : shared.quota limit .work = 0 := by
    simp only [quota] at hlt ⊢
    omega
  rw [taken, hzero, List.take_zero]

theorem taken_length_le (shared : Shared T) (limit : ℕ) :
    (shared.taken limit .control).length + (shared.taken limit .work).length ≤ limit := by
  simp only [taken, List.length_take, quota]
  omega

/-- Closing takes everything. -/
theorem closeInner_cases {shared : Shared T} (h : shared.WF) :
    ∃ shared', shared.closeInner
        = .ok (shared', values shared.state.control.queue ++ values shared.state.work.queue) ∧
      shared'.WF ∧ shared'.limits = shared.limits ∧ shared'.measure = shared.measure ∧
      ∀ lane, (shared'.state.lane lane).queue = [] := by
  obtain ⟨control, hcontrol, hcontrolQueue, hcontrolWF⟩ :=
    (h .control).drainInto shared.state.control.queue.length []
  obtain ⟨work, hwork, hworkQueue, hworkWF⟩ := (h .work).drainInto
    shared.state.work.queue.length (values shared.state.control.queue)
  change LaneState.drainInto _ shared.state.control _ = .ok (control, [] ++ values
    (shared.state.control.queue.take shared.state.control.queue.length)) at hcontrol
  change LaneState.drainInto _ shared.state.work _ = .ok (work, values
    shared.state.control.queue ++ values
      (shared.state.work.queue.take shared.state.work.queue.length)) at hwork
  rw [List.nil_append, List.take_length] at hcontrol
  rw [List.take_length] at hwork
  refine ⟨{ shared with state := { shared.state with receiverAlive := false, control, work } },
    ?_, fun lane => ?_, rfl, rfl, fun lane => ?_⟩
  · simp only [closeInner, LaneState.drainAll, hcontrol, hwork, bind, Except.bind]
  · cases lane
    · exact hcontrolWF
    · exact hworkWF
  · cases lane
    · show control.queue = []
      rw [hcontrolQueue]
      exact List.drop_length
    · show work.queue = []
      rw [hworkQueue]
      exact List.drop_length

end Shared

/-! ### Interleavings -/

/-- One operation of a sender or of the receiver; `woken` is what the wake
returned, where the operation reaches it. -/
inductive Op (T U W : Type)
  | trySend (lane : Lane) (item : T) (woken : Except W Unit)
  | trySendMaterialized (lane : Lane) (owner : U) (retainedBytes : U → RetainedBytes)
    (materialize : U → T) (woken : Except W Unit)
  | cloneSender
  | dropSender (woken : Except W Unit)
  | drain (destination : List T) (limit : NonZeroUsize)
  | close
  | dropReceiver

/-- What the operation returned. -/
inductive Reply (T U W : Type)
  | sent (result : Except (TrySendError T W) Unit)
  | sentMaterialized (result : Except (TrySendError U W) Unit)
  | done
  | drained (destination : List T) (report : DrainReport)
  | closed (items : List T)

variable {T U V W : Type}

/-- Performs one operation. -/
def exec (shared : Shared T) : Op T U W → Except Panic (Shared T × Reply T U W)
  | .trySend lane item woken =>
    let (shared, result) := shared.trySendTo lane item woken
    .ok (shared, .sent result)
  | .trySendMaterialized lane owner retainedBytes materialize woken =>
    let (shared, result) := shared.trySendMaterialized lane owner retainedBytes materialize woken
    .ok (shared, .sentMaterialized result)
  | .cloneSender => do
    let shared ← shared.cloneSender
    .ok (shared, .done)
  | .dropSender woken => .ok (shared.dropSender woken, .done)
  | .drain destination limit => do
    let (shared, destination, report) ← shared.drainInto destination limit
    .ok (shared, .drained destination report)
  | .close => do
    let (shared, items) ← shared.closeInner
    .ok (shared, .closed items)
  | .dropReceiver => do
    let (shared, _) ← shared.closeInner
    .ok (shared, .done)

/-- A new mailbox, and any operations on its two ends.  The label of a step is
the operation with its reply. -/
def system (limits : MailboxLimits) (measure : T → RetainedBytes) (U W : Type) :
    TransitionSystem (Shared T) (Op T U W × Reply T U W) where
  init shared := shared = .new limits measure
  step shared l shared' := exec shared l.1 = .ok (shared', l.2)

/-- An operation beside the state in which it was performed and its reply. -/
abbrev Performed (T U W : Type) : Type := Shared T × Op T U W × Reply T U W

/-- The entry that a send with this result puts into the lane. -/
def admitted (lane target : Lane) (entry : Entry T) :
    Except (TrySendError V W) Unit → List (Entry T)
  | .ok () => if target = lane then [entry] else []
  | .error _ => []

/-- The value that an operation sent to the lane, with its measurement. -/
def accepted (lane : Lane) : Performed T U W → List (Entry T)
  | (shared, .trySend target item _, .sent result) =>
    admitted lane target ⟨item, shared.measure item⟩ result
  | (_, .trySendMaterialized target owner retainedBytes materialize _, .sentMaterialized result) =>
    admitted lane target ⟨materialize owner, retainedBytes owner⟩ result
  | _ => []

/-- What an operation takes out of the lane. -/
def handedOut (lane : Lane) (shared : Shared T) : Op T U W → List (Entry T)
  | .drain _ limit => shared.taken limit.get.val lane
  | .close | .dropReceiver => (shared.state.lane lane).queue
  | .trySend _ _ _ | .trySendMaterialized _ _ _ _ _ | .cloneSender | .dropSender _ => []

/-- What a send returns: the owner exactly if one of the reasons to reject it
applies, and then it has changed neither lane. -/
structure Sends (shared : Shared T) (lane : Lane) (owner : V) (retained : RetainedBytes)
    (woken : Except W Unit) (result : Except (TrySendError V W) Unit) (shared' : Shared T) :
    Prop where
  ok : result = .ok () ↔ ∀ failure, ¬shared.Rejects lane retained woken failure
  error : ∀ e, result = .error e ↔
    ∃ failure, e = ⟨owner, lane, failure⟩ ∧ shared.Rejects lane retained woken failure
  unchanged : ∀ e, result = .error e → shared'.state = shared.state

/-- What the operations answer. -/
def Answers (shared : Shared T) (op : Op T U W) (reply : Reply T U W) (shared' : Shared T) : Prop :=
  match op with
  | .trySend lane item woken =>
    ∃ result, reply = .sent result ∧
      Sends shared lane item (shared.measure item) woken result shared'
  | .trySendMaterialized lane owner retainedBytes _ woken =>
    ∃ result, reply = .sentMaterialized result ∧
      Sends shared lane owner (retainedBytes owner) woken result shared'
  | .cloneSender | .dropSender _ | .dropReceiver => reply = .done
  | .drain destination limit =>
    let control := handedOut .control shared op
    let work := handedOut .work shared op
    reply = .drained (destination ++ values control ++ values work)
        ⟨control.length + work.length, shared'.state.status⟩ ∧
      control.length + work.length ≤ limit.get.val ∧
      (shared'.state.control.queue ≠ [] → work = [])
  | .close =>
    reply = .closed (values (handedOut .control shared op) ++ values (handedOut .work shared op))

/-- The mailbox keeps its limits and its measure, both lanes are well formed, and
both are empty once the receiver is closed. -/
structure Inv (limits : MailboxLimits) (measure : T → RetainedBytes) (shared : Shared T) : Prop where
  limits_eq : shared.limits = limits
  measure_eq : shared.measure = measure
  lanes : shared.WF
  closed : shared.state.receiverAlive = false → ∀ lane, (shared.state.lane lane).queue = []

/-- What one operation does to a mailbox. -/
structure Executes (limits : MailboxLimits) (measure : T → RetainedBytes) (shared : Shared T)
    (op : Op T U W) (reply : Reply T U W) (shared' : Shared T) : Prop where
  inv : Inv limits measure shared'
  conserved : ∀ lane, (shared.state.lane lane).queue ++ accepted lane (shared, op, reply)
    = handedOut lane shared op ++ (shared'.state.lane lane).queue
  answers : Answers shared op reply shared'

variable {limits : MailboxLimits} {measure : T → RetainedBytes} {shared shared' : Shared T}

theorem Inv.initial : Inv limits measure (.new limits measure) := by
  refine ⟨rfl, rfl, Shared.new_wf limits measure, ?_⟩
  intro hclosed
  cases hclosed

theorem Inv.of_state (h : Inv limits measure shared) (hlimits : shared'.limits = shared.limits)
    (hmeasure : shared'.measure = shared.measure)
    (halive : shared'.state.receiverAlive = shared.state.receiverAlive)
    (hlanes : ∀ lane, shared'.state.lane lane = shared.state.lane lane) :
    Inv limits measure shared' := by
  refine ⟨hlimits.trans h.limits_eq, hmeasure.trans h.measure_eq, ?_, ?_⟩
  · intro lane
    rw [hlanes, hlimits]
    exact h.lanes lane
  · intro hclosed lane
    rw [hlanes]
    exact h.closed (halive ▸ hclosed) lane

theorem Inv.publish (h : Inv limits measure shared) {lane : Lane}
    {retained nextBytes : RetainedBytes} (hadmits : shared.Admits lane retained nextBytes)
    (item : T) : Inv limits measure (shared.publish lane item retained nextBytes) := by
  refine ⟨h.limits_eq, h.measure_eq, hadmits.publish_wf h.lanes item, fun hclosed => ?_⟩
  rw [Shared.publish, State.setLane_receiverAlive, hadmits.alive] at hclosed
  cases hclosed

/-- A send, whether it materializes its value or not. -/
theorem trySendMaterialized_sends (h : Inv limits measure shared) (lane : Lane) (owner : V)
    (retainedBytes : V → RetainedBytes) (materialize : V → T) (woken : Except W Unit) :
    ∃ shared' result, shared.trySendMaterialized lane owner retainedBytes materialize woken
        = (shared', result) ∧
      Inv limits measure shared' ∧ Sends shared lane owner (retainedBytes owner) woken result shared' ∧
      ∀ other, (shared.state.lane other).queue
          ++ admitted other lane ⟨materialize owner, retainedBytes owner⟩ result
        = (shared'.state.lane other).queue := by
  rcases shared.trySendMaterialized_cases lane owner retainedBytes materialize woken with
    ⟨counters, failure, hsend, hrejects⟩ | ⟨nextBytes, hsend, hadmits, hwoken⟩
  · refine ⟨_, _, hsend, h.of_state rfl rfl rfl fun _ => rfl, ⟨?_, ?_, fun _ _ => rfl⟩, ?_⟩
    · refine ⟨fun hok => (nomatch hok), fun hnone => absurd hrejects (hnone failure)⟩
    · intro e
      constructor
      · intro he
        cases he
        exact ⟨failure, rfl, hrejects⟩
      · rintro ⟨failure', rfl, hrejects'⟩
        rw [hrejects.unique hrejects']
    · intro other
      exact List.append_nil _
  · have hnone := hadmits.not_rejects hwoken
    refine ⟨_, _, hsend, h.publish hadmits _, ⟨?_, ?_, ?_⟩, ?_⟩
    · exact ⟨fun _ => hnone, fun _ => rfl⟩
    · intro e
      refine ⟨fun he => (nomatch he), ?_⟩
      rintro ⟨failure, -, hrejects⟩
      exact absurd hrejects (hnone failure)
    · intro e he
      cases he
    · intro other
      rw [Shared.publish_queue]
      rfl

/-- **One operation** on a well-formed mailbox: it can panic only where a clone
overflows the sender count, and else does what it should. -/
theorem exec_cases (h : Inv limits measure shared) (op : Op T U W) :
    (∃ shared' reply, exec shared op = .ok (shared', reply) ∧
      Executes limits measure shared op reply shared') ∨
    exec shared op = .error .senderCount := by
  cases op with
  | trySend lane item woken =>
    obtain ⟨shared', result, hsend, hinv, hsends, hqueue⟩ :=
      trySendMaterialized_sends h lane item shared.measure id woken
    left
    refine ⟨shared', .sent result, ?_, hinv, hqueue, result, rfl, hsends⟩
    simp only [exec, Shared.trySendTo, hsend]
  | trySendMaterialized lane owner retainedBytes materialize woken =>
    obtain ⟨shared', result, hsend, hinv, hsends, hqueue⟩ :=
      trySendMaterialized_sends h lane owner retainedBytes materialize woken
    left
    refine ⟨shared', .sentMaterialized result, ?_, hinv, hqueue, result, rfl, hsends⟩
    simp only [exec, hsend]
  | cloneSender =>
    -- the sender count is the one arithmetic that can overflow
    cases hadd : shared.state.senders.checkedAdd 1 with
    | none =>
      right
      simp only [exec, Shared.cloneSender, hadd, bind, Except.bind]
    | some senders =>
      left
      refine ⟨{ shared with state := { shared.state with senders } }, .done, ?_,
        h.of_state rfl rfl rfl fun lane => ?_, fun lane => ?_, rfl⟩
      · simp only [exec, Shared.cloneSender, hadd, bind, Except.bind]
      · cases lane <;> rfl
      · cases lane <;> exact List.append_nil _
  | dropSender woken =>
    left
    obtain ⟨counters, senders, hdrop⟩ := shared.dropSender_cases woken
    refine ⟨{ shared with counters, state := { shared.state with senders } }, .done, ?_,
      h.of_state rfl rfl rfl fun lane => ?_, fun lane => ?_, rfl⟩
    · rw [exec, hdrop]
    · cases lane <;> rfl
    · cases lane <;> exact List.append_nil _
  | drain destination limit =>
    obtain ⟨shared', hdrain, hwf, hlimits, hmeasure, halive, hqueue⟩ :=
      Shared.drainInto_cases h.lanes destination limit
    left
    refine ⟨shared', _, ?_, ⟨hlimits.trans h.limits_eq, hmeasure.trans h.measure_eq, hwf, ?_⟩,
      fun lane => ?_, rfl, shared.taken_length_le _, fun hcontrol => ?_⟩
    · simp only [exec, hdrain, bind, Except.bind]
      rfl
    · intro hclosed lane
      rw [hqueue, h.closed (halive ▸ hclosed), List.drop_nil]
    · rw [hqueue]
      exact (List.append_nil _).trans (List.take_append_drop _ _).symm
    · refine shared.taken_work_eq_nil _ ?_
      exact (hqueue .control) ▸ hcontrol
  | close =>
    obtain ⟨shared', hclose, hwf, hlimits, hmeasure, hqueue⟩ := Shared.closeInner_cases h.lanes
    left
    refine ⟨shared', _, ?_, ⟨hlimits.trans h.limits_eq, hmeasure.trans h.measure_eq, hwf,
      fun _ => hqueue⟩, fun lane => ?_, rfl⟩
    · simp only [exec, hclose, bind, Except.bind]
      rfl
    · rw [hqueue]
      rfl
  | dropReceiver =>
    obtain ⟨shared', hclose, hwf, hlimits, hmeasure, hqueue⟩ := Shared.closeInner_cases h.lanes
    left
    refine ⟨shared', _, ?_, ⟨hlimits.trans h.limits_eq, hmeasure.trans h.measure_eq, hwf,
      fun _ => hqueue⟩, fun lane => ?_, rfl⟩
    · simp only [exec, hclose, bind, Except.bind]
    · rw [hqueue]
      rfl

theorem exec_executes {op : Op T U W} {reply : Reply T U W} (h : Inv limits measure shared)
    (hexec : exec shared op = .ok (shared', reply)) :
    Executes limits measure shared op reply shared' := by
  rcases exec_cases h op with ⟨shared'', reply', hok, hexecutes⟩ | hpanic
  · rw [hok] at hexec
    cases hexec
    exact hexecutes
  · rw [hpanic] at hexec
    cases hexec

/-- **Conservation, order and bounds.**  After any interleaving of operations:

* what was sent to a lane is, in order, what was handed out of it and what is
  still queued, each value with the measurement made when it was sent;
* both lanes keep their bounds and their exact totals, and a closed mailbox is
  empty;
* any operation answers as it should;
* none meets the accounting panic. -/
theorem conservation {tr : List (Performed T U W)}
    (hrun : (system limits measure U W).recording.Run tr shared) :
    (∀ lane, tr.flatMap (accepted lane)
      = tr.flatMap (fun l => handedOut lane l.1 l.2.1) ++ (shared.state.lane lane).queue) ∧
    Inv limits measure shared ∧
    (∀ (op : Op T U W) (reply : Reply T U W) shared', exec shared op = .ok (shared', reply) →
      Answers shared op reply shared') ∧
    ∀ op : Op T U W, exec shared op ≠ .error .retainedAccounting := by
  have hstep : ∀ {u : Shared T} {l : Performed T U W} {v}, Inv limits measure u →
      (system limits measure U W).recording.step u l v →
      Executes limits measure l.1 l.2.1 l.2.2 v ∧ l.1 = u := by
    intro u l v hu hs
    obtain ⟨rfl, hexec⟩ := hs
    exact ⟨exec_executes hu hexec, rfl⟩
  obtain ⟨s₀, rfl, hsteps⟩ := hrun
  have hinv : Inv limits measure shared :=
    hsteps.preserves (fun hu hs => (hstep hu hs).1.inv) Inv.initial
  refine ⟨fun lane => ?_, hinv, fun op reply shared' hexec => (exec_executes hinv hexec).answers,
    fun op hpanic => ?_⟩
  · have hconserved := hsteps.conserved (fun shared => (shared.state.lane lane).queue)
      (accepted lane) (fun l => handedOut lane l.1 l.2.1) Inv.initial fun hu hs => by
        obtain ⟨hexecutes, rfl⟩ := hstep hu hs
        exact ⟨hexecutes.inv, hexecutes.conserved lane⟩
    cases lane <;> exact hconserved
  · rcases exec_cases hinv op with ⟨shared', reply, hok, -⟩ | hother
    · rw [hok] at hpanic
      cases hpanic
    · rw [hother] at hpanic
      cases hpanic

/-! ### Runs of given operations -/

/-- Performs operations one after the other, up to a panic. -/
def performAll (shared : Shared T) : List (Op T U W) → List (Performed T U W) × Shared T
  | [] => ([], shared)
  | op :: ops =>
    match exec shared op with
    | .ok (shared', reply) =>
      let (tr, last) := performAll shared' ops
      ((shared, op, reply) :: tr, last)
    | .error _ => ([], shared)

theorem performAll_run (limits : MailboxLimits) (measure : T → RetainedBytes)
    (ops : List (Op T U W)) :
    (system limits measure U W).recording.Run (performAll (.new limits measure) ops).1
      (performAll (.new limits measure) ops).2 := by
  suffices ∀ shared : Shared T, Steps (system limits measure U W).recording.step shared
      (performAll shared ops).1 (performAll shared ops).2 from ⟨_, rfl, this _⟩
  induction ops with
  | nil => exact fun _ => .refl
  | cons op ops ih =>
    intro shared
    rw [performAll]
    cases hexec : exec shared op with
    | error => exact .refl
    | ok o => exact (Steps.single ⟨rfl, hexec⟩).trans (ih o.1)

/-- Two lanes of three messages and ten bytes, where a message's size is its value. -/
def smallLimits : MailboxLimits := ⟨⟨⟨3, by decide⟩, 10⟩, ⟨⟨3, by decide⟩, 10⟩⟩

/-- Some sends, one too large and one whose wake fails; a drain of two; more
sends; and the close. -/
def mixed : List (Op U64 ℕ Unit) :=
  [.trySend .work 4 (.ok ()), .trySend .control 1 (.ok ()), .trySend .work 7 (.ok ()),
    .trySend .work 2 (.error ()), .trySend .work 3 (.ok ()), .drain [] ⟨2, U64.two_ne_zero⟩,
    .trySendMaterialized .work 5 (fun _ => 6) (fun n => Fin.ofNat _ n) (.ok ()), .cloneSender,
    .trySend .control 9 (.ok ()), .close]

theorem conservation_mixed :
    let (tr, shared) := performAll (.new smallLimits id) mixed
    values (tr.flatMap (accepted .work)) = [4, 3, 5] ∧
    tr.flatMap (accepted .work)
      = tr.flatMap (fun l => handedOut .work l.1 l.2.1) ++ shared.state.work.queue ∧
    Inv smallLimits id shared := by
  obtain ⟨hlanes, hinv, -⟩ := conservation (performAll_run smallLimits id mixed)
  exact ⟨by decide +kernel, hlanes .work, hinv⟩

end Mailbox

end Calandria
