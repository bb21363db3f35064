/-
What a mailbox reports about itself.

A snapshot reads the lanes and the counters under the mailbox lock.  The counters are
written at several places of a send and of the drop of a sender, and saturate.

* `Counters.bump` — each counter, and the one that a failure moves;
* `exec_counts` — one operation moves the counter of its failure, and no other;
* `snapshot_accounts` — after any run, a snapshot says how often each failure happened,
  how many senders are left, and what each lane still owes.
-/
import Calandria.MailboxDrain
import Calandria.Interest

namespace Calandria

/-- Current and cumulative state for one lane. -/
structure LaneSnapshot where
  limits : LaneLimits
  queuedMessages : ℕ
  retainedBytes : RetainedBytes
  messageRejections : U64
  byteRejections : U64
  deriving DecidableEq

/-- Point-in-time mailbox state and pressure observations. -/
structure MailboxSnapshot where
  control : LaneSnapshot
  work : LaneSnapshot
  liveSenders : U64
  receiverAlive : Bool
  closedRejections : U64
  wakeFailures : U64
  wakeRequested : Bool
  deriving DecidableEq

/-- Returns the selected lane snapshot. -/
def MailboxSnapshot.lane (snapshot : MailboxSnapshot) : Lane → LaneSnapshot
  | .control => snapshot.control
  | .work => snapshot.work

/-- `limits`. -/
def MailboxSnapshot.allLimits (snapshot : MailboxSnapshot) : MailboxLimits :=
  ⟨snapshot.control.limits, snapshot.work.limits⟩

namespace Mailbox

variable {T U V W : Type}

def Counters.lane (counters : Counters) : Lane → LaneCounters
  | .control => counters.control
  | .work => counters.work

namespace Shared

def laneSnapshot (shared : Shared T) (lane : Lane) (state : LaneState T) : LaneSnapshot :=
  let counters := shared.counters.lane lane
  ⟨shared.limits.lane lane, state.queue.length, state.retained, counters.messages, counters.bytes⟩

/-- What `snapshot` reads; whether a wake is requested is the wake handle's. -/
def snapshot (shared : Shared T) (wakeRequested : Bool) : MailboxSnapshot :=
  ⟨shared.laneSnapshot .control shared.state.control, shared.laneSnapshot .work shared.state.work,
    shared.state.senders, shared.state.receiverAlive, shared.counters.closed,
    shared.counters.wakeFailures, wakeRequested⟩

@[simp] theorem snapshot_lane (shared : Shared T) (wakeRequested : Bool) (lane : Lane) :
    (shared.snapshot wakeRequested).lane lane
      = shared.laneSnapshot lane (shared.state.lane lane) := by
  cases lane <;> rfl

theorem snapshot_allLimits (shared : Shared T) (wakeRequested : Bool) :
    (shared.snapshot wakeRequested).allLimits = shared.limits := rfl

end Shared

/-! ### The counters -/

/-- What is counted. -/
inductive Counter
  | messages (lane : Lane)
  | bytes (lane : Lane)
  | closed
  | wakeFailures
  deriving DecidableEq

/-- The counter of a failed send. -/
def Counter.of (lane : Lane) : AdmissionFailure W → Counter
  | .messageCapacity => .messages lane
  | .byteCapacity => .bytes lane
  | .closed => .closed
  | .wake _ => .wakeFailures

end Mailbox

/-- What a snapshot reports of it. -/
def MailboxSnapshot.counter (snapshot : MailboxSnapshot) : Mailbox.Counter → U64
  | .messages lane => (snapshot.lane lane).messageRejections
  | .bytes lane => (snapshot.lane lane).byteRejections
  | .closed => snapshot.closedRejections
  | .wakeFailures => snapshot.wakeFailures

namespace Mailbox

variable {T U V W : Type}

namespace Counters

def read (counters : Counters) : Counter → U64
  | .messages lane => (counters.lane lane).messages
  | .bytes lane => (counters.lane lane).bytes
  | .closed => counters.closed
  | .wakeFailures => counters.wakeFailures

/-- The four increments of the source. -/
def bump (counters : Counters) : Counter → Counters
  | .messages lane => counters.incrementMessages lane
  | .bytes lane => counters.incrementBytes lane
  | .closed => counters.incrementClosed
  | .wakeFailures => counters.incrementWakeFailures

theorem read_bump (counters : Counters) (moved counter : Counter) :
    (counters.bump moved).read counter
      = if moved = counter then (counters.read counter).saturatingAdd 1
        else counters.read counter := by
  rcases moved with (_ | _) | (_ | _) | _ | _ <;> rcases counter with (_ | _) | (_ | _) | _ | _ <;>
    rfl

end Counters

/-- The counter that a performed operation moves. -/
def moved : Performed T U W → Option Counter
  | (_, _, .sent (.error e)) => some (.of e.lane e.failure)
  | (_, _, .sentMaterialized (.error e)) => some (.of e.lane e.failure)
  | (shared, .dropSender (.error _), _) =>
    -- only the last sender wakes the receiver, and only a live one
    if shared.state.senders = 1 ∧ shared.state.receiverAlive then some .wakeFailures else none
  | _ => none

/-- What a performed operation adds to the counter. -/
def charge (counter : Counter) (l : Performed T U W) : ℕ :=
  if moved l = some counter then 1 else 0

namespace Shared

theorem validate_counts {shared shared' : Shared T} {lane : Lane} {retained : RetainedBytes}
    {failure : AdmissionFailure W}
    (h : shared.validate lane retained = .error (shared', failure)) :
    shared'.counters = shared.counters.bump (.of lane failure) := by
  rw [validate] at h
  split_ifs at h with halive hcount
  · cases h
    rfl
  · cases h
    rfl
  · split at h
    · cases h
      rfl
    · split_ifs at h
      cases h
      rfl

/-- A send moves the counter of its failure. -/
theorem trySendMaterialized_counts (shared : Shared T) (lane : Lane) (owner : V)
    (retainedBytes : V → RetainedBytes) (materialize : V → T) (woken : Except W Unit) :
    (∃ shared' failure,
      shared.trySendMaterialized lane owner retainedBytes materialize woken
        = (shared', .error ⟨owner, lane, failure⟩) ∧
      shared'.counters = shared.counters.bump (.of lane failure)) ∨
    ∃ shared', shared.trySendMaterialized lane owner retainedBytes materialize woken
        = (shared', .ok ()) ∧ shared'.counters = shared.counters := by
  rw [trySendMaterialized]
  cases hvalidate : (shared.validate lane (retainedBytes owner) :
      Except (Shared T × AdmissionFailure W) RetainedBytes) with
  | error rejected =>
    obtain ⟨shared', failure⟩ := rejected
    exact .inl ⟨shared', failure, rfl, validate_counts hvalidate⟩
  | ok nextBytes =>
    cases woken with
    | error source => exact .inl ⟨_, .wake source, rfl, rfl⟩
    | ok => exact .inr ⟨_, rfl, rfl⟩

/-- Closing changes the lanes and the receiver. -/
theorem closeInner_frame {shared shared' : Shared T} {items : List T}
    (h : shared.closeInner = .ok (shared', items)) :
    shared' = { shared with
      state := { shared.state with
        receiverAlive := false
        control := shared'.state.control
        work := shared'.state.work } } := by
  simp only [closeInner, bind, Except.bind] at h
  cases hcontrol : shared.state.control.drainAll [] with
  | error => simp [hcontrol] at h
  | ok controls =>
    simp only [hcontrol] at h
    cases hwork : shared.state.work.drainAll controls.2 with
    | error => simp [hwork] at h
    | ok works =>
      simp only [hwork, Except.ok.injEq, Prod.mk.injEq] at h
      rw [← h.1]

end Shared

/-- **One operation** moves the counter of its failure, and no other. -/
theorem exec_counts {shared shared' : Shared T} {op : Op T U W} {reply : Reply T U W}
    (hexec : exec shared op = .ok (shared', reply)) (counter : Counter) :
    shared'.counters.read counter
      = if moved (shared, op, reply) = some counter
        then (shared.counters.read counter).saturatingAdd 1 else shared.counters.read counter := by
  suffices shared'.counters
      = (moved (shared, op, reply)).elim shared.counters shared.counters.bump by
    rw [this]
    cases moved (shared, op, reply) with
    | none => rfl
    | some c => simp [Counters.read_bump]
  cases op with
  | trySend lane item woken =>
    rcases shared.trySendMaterialized_counts lane item shared.measure id woken with
      ⟨after, failure, hsend, hcounters⟩ | ⟨after, hsend, hcounters⟩ <;>
    · simp only [exec, Shared.trySendTo, hsend] at hexec
      cases hexec
      exact hcounters
  | trySendMaterialized lane owner retainedBytes materialize woken =>
    rcases shared.trySendMaterialized_counts lane owner retainedBytes materialize woken with
      ⟨after, failure, hsend, hcounters⟩ | ⟨after, hsend, hcounters⟩ <;>
    · simp only [exec, hsend] at hexec
      cases hexec
      exact hcounters
  | cloneSender =>
    rw [exec, Shared.cloneSender] at hexec
    cases hadd : shared.state.senders.checkedAdd 1 with
    | none => simp [hadd, bind, Except.bind] at hexec
    | some senders =>
      simp only [hadd, bind, Except.bind] at hexec
      cases hexec
      rfl
  | dropSender woken =>
    cases hexec
    show (if shared.state.senders = 0 then shared else _).counters = _
    by_cases hnone : shared.state.senders = 0
    · cases woken <;> simp [moved, hnone]
    · cases woken with
      | ok => simp [hnone, moved]
      | error =>
        by_cases hlast : shared.state.senders = 1 ∧ shared.state.receiverAlive = true
        · simp [hlast, moved, Counters.bump]
        · simp [hnone, hlast, moved]
  | drain destination limit =>
    rw [exec] at hexec
    cases hdrain : shared.drainInto destination limit with
    | error => simp [hdrain, bind, Except.bind] at hexec
    | ok drained =>
      simp only [hdrain, bind, Except.bind] at hexec
      cases hexec
      rw [Shared.drainInto_frame hdrain]
      rfl
  | close =>
    rw [exec] at hexec
    cases hclose : shared.closeInner with
    | error => simp [hclose, bind, Except.bind] at hexec
    | ok closed =>
      simp only [hclose, bind, Except.bind] at hexec
      cases hexec
      rw [Shared.closeInner_frame hclose]
      rfl
  | dropReceiver =>
    rw [exec] at hexec
    cases hclose : shared.closeInner with
    | error => simp [hclose, bind, Except.bind] at hexec
    | ok closed =>
      simp only [hclose, bind, Except.bind] at hexec
      cases hexec
      rw [Shared.closeInner_frame hclose]
      rfl

/-! ### The two ends -/

/-- Whether the operation made a sender. -/
def begun : Performed T U W → ℕ
  | (_, .cloneSender, _) => 1
  | _ => 0

/-- Whether the operation ended one. -/
def ended : Performed T U W → ℕ
  | (shared, .dropSender _, _) => if shared.state.senders = 0 then 0 else 1
  | _ => 0

/-- Whether the operation ended the receiver. -/
def closes : Performed T U W → Bool
  | (_, .close, _) | (_, .dropReceiver, _) => true
  | _ => false

/-- What one operation does to the two ends. -/
structure Ends (shared : Shared T) (op : Op T U W) (reply : Reply T U W) (shared' : Shared T) :
    Prop where
  senders : shared'.state.senders.val + ended (shared, op, reply)
    = shared.state.senders.val + begun (shared, op, reply)
  receiver : shared'.state.receiverAlive
    = (shared.state.receiverAlive && !closes (shared, op, reply))

theorem Shared.trySendMaterialized_ends (shared : Shared T) (lane : Lane) (owner : V)
    (retainedBytes : V → RetainedBytes) (materialize : V → T) (woken : Except W Unit) :
    let shared' := (shared.trySendMaterialized lane owner retainedBytes materialize woken).1
    shared'.state.senders = shared.state.senders ∧
      shared'.state.receiverAlive = shared.state.receiverAlive := by
  rcases shared.trySendMaterialized_cases lane owner retainedBytes materialize woken with
    ⟨counters, failure, hsend, -⟩ | ⟨nextBytes, hsend, -⟩
  · rw [hsend]
    exact ⟨rfl, rfl⟩
  · rw [hsend]
    exact ⟨State.setLane_senders .., State.setLane_receiverAlive ..⟩

theorem exec_ends {shared shared' : Shared T} {op : Op T U W} {reply : Reply T U W}
    (hexec : exec shared op = .ok (shared', reply)) : Ends shared op reply shared' := by
  cases op with
  | trySend lane item woken =>
    cases hexec
    obtain ⟨hsenders, halive⟩ :=
      shared.trySendMaterialized_ends lane item shared.measure id woken
    exact ⟨congrArg Fin.val hsenders, halive.trans (Bool.and_true _).symm⟩
  | trySendMaterialized lane owner retainedBytes materialize woken =>
    cases hexec
    obtain ⟨hsenders, halive⟩ :=
      shared.trySendMaterialized_ends lane owner retainedBytes materialize woken
    exact ⟨congrArg Fin.val hsenders, halive.trans (Bool.and_true _).symm⟩
  | cloneSender =>
    rw [exec, Shared.cloneSender] at hexec
    cases hadd : shared.state.senders.checkedAdd 1 with
    | none => simp [hadd, bind, Except.bind] at hexec
    | some senders =>
      simp only [hadd, bind, Except.bind] at hexec
      cases hexec
      exact ⟨U64.checkedAdd_eq_some.mp hadd, by simp [closes]⟩
  | dropSender woken =>
    cases hexec
    by_cases hnone : shared.state.senders = 0
    · rw [Shared.dropSender.eq_def, if_pos hnone]
      refine ⟨?_, (Bool.and_true _).symm⟩
      show _ + (if _ then _ else _) = _
      rw [if_pos hnone]
      rfl
    · have hpos := Nat.pos_of_ne_zero fun h => hnone (Fin.ext h)
      rw [Shared.dropSender.eq_def, if_neg hnone]
      refine ⟨?_, (Bool.and_true _).symm⟩
      show (shared.state.senders - 1).val + (if _ then _ else _) = shared.state.senders.val + 0
      rw [if_neg hnone, Fin.val_sub_one_of_ne_zero hnone]
      omega
  | drain destination limit =>
    rw [exec] at hexec
    cases hdrain : shared.drainInto destination limit with
    | error => simp [hdrain, bind, Except.bind] at hexec
    | ok drained =>
      simp only [hdrain, bind, Except.bind] at hexec
      cases hexec
      rw [Shared.drainInto_frame hdrain]
      exact ⟨rfl, by simp [closes]⟩
  | close =>
    rw [exec] at hexec
    cases hclose : shared.closeInner with
    | error => simp [hclose, bind, Except.bind] at hexec
    | ok closed =>
      simp only [hclose, bind, Except.bind] at hexec
      cases hexec
      rw [Shared.closeInner_frame hclose]
      exact ⟨rfl, by simp [closes]⟩
  | dropReceiver =>
    rw [exec] at hexec
    cases hclose : shared.closeInner with
    | error => simp [hclose, bind, Except.bind] at hexec
    | ok closed =>
      simp only [hclose, bind, Except.bind] at hexec
      cases hexec
      rw [Shared.closeInner_frame hclose]
      exact ⟨rfl, by simp [closes]⟩

/-! ### Whole runs -/

variable {limits : MailboxLimits} {measure : T → RetainedBytes} {tr : List (Performed T U W)}
  {shared : Shared T}

theorem run_charges (hrun : (system limits measure U W).recording.Run tr shared)
    (counter : Counter) :
    (shared.counters.read counter).val
      = min (tr.map (charge counter)).sum (2 ^ 64 - 1) := by
  obtain ⟨s₀, rfl, hsteps⟩ := hrun
  have hstep : ∀ {u : Shared T} {l : Performed T U W} {v}, True →
      (system limits measure U W).recording.step u l v →
      True ∧ (v.counters.read counter).val
        = min ((u.counters.read counter).val + charge counter l) (2 ^ 64 - 1) := by
    rintro _ ⟨before, op, reply⟩ v - ⟨rfl, hexec⟩
    refine ⟨trivial, ?_⟩
    have hlt := (before.counters.read counter).isLt
    rw [exec_counts hexec counter, charge]
    split_ifs
    · exact U64.saturatingAdd_val ..
    · show _ = min (_ + 0) _
      omega
  have hzero : ((Shared.new limits measure).counters.read counter).val = 0 := by
    rcases counter with (_ | _) | (_ | _) | _ | _ <;> rfl
  have hcounted := hsteps.saturated (charge counter)
    (fun shared => (shared.counters.read counter).val) (2 ^ 64 - 1) hstep trivial
    (hzero.trans_le (Nat.zero_le _))
  rwa [hzero, Nat.zero_add] at hcounted

theorem run_senders (hrun : (system limits measure U W).recording.Run tr shared) :
    shared.state.senders.val + (tr.map ended).sum = 1 + (tr.map begun).sum := by
  refine hrun.invariant (I := fun tr (shared : Shared T) =>
    shared.state.senders.val + (tr.map ended).sum = 1 + (tr.map begun).sum) ?_ ?_
  · rintro s rfl
    rfl
  · rintro tr _ ⟨before, op, reply⟩ v - ih ⟨rfl, hexec⟩
    have hsenders : _ + ended (before, op, reply) = _ + begun (before, op, reply) :=
      (exec_ends hexec).senders
    simp only [List.map_append, List.sum_append, List.map_singleton, List.sum_singleton]
    omega

theorem run_receiver (hrun : (system limits measure U W).recording.Run tr shared) :
    shared.state.receiverAlive = !tr.any closes := by
  refine hrun.invariant (I := fun tr (shared : Shared T) =>
    shared.state.receiverAlive = !tr.any closes) ?_ ?_
  · rintro s rfl
    rfl
  · rintro tr _ ⟨before, op, reply⟩ v - ih ⟨rfl, hexec⟩
    rw [(exec_ends hexec).receiver, ih, List.any_append, Bool.not_or]
    simp

/-- What was measured of some entries. -/
def measured (entries : List (Entry T)) : ℕ := (entries.map fun entry => entry.retained.val).sum

/-- **A snapshot accounts for the run.**  After any interleaving of operations, and whatever
they met, a snapshot says

* how often each failure happened, up to the greatest value of a counter;
* how many senders are left of those ever made, and whether the receiver was ended;
* of each lane, how many values and bytes were accepted and not yet handed out, which is
  within the limits it names. -/
theorem snapshot_accounts (hrun : (system limits measure U W).recording.Run tr shared)
    (wakeRequested : Bool) :
    let snapshot := shared.snapshot wakeRequested
    (∀ counter, (snapshot.counter counter).val
      = min (tr.map (charge counter)).sum (2 ^ 64 - 1)) ∧
    snapshot.liveSenders.val + (tr.map ended).sum = 1 + (tr.map begun).sum ∧
    (snapshot.receiverAlive = true ↔ ∀ l ∈ tr, closes l = false) ∧
    snapshot.allLimits = limits ∧
    ∀ lane, let state := snapshot.lane lane
      let sent := tr.flatMap (accepted lane)
      let gone := tr.flatMap fun l => handedOut lane l.1 l.2.1
      state.queuedMessages + gone.length = sent.length ∧
      state.retainedBytes.val + measured gone = measured sent ∧
      state.queuedMessages ≤ state.limits.messages.get.val ∧
      state.retainedBytes ≤ state.limits.retainedBytes := by
  intro snapshot
  obtain ⟨hlanes, hinv, -⟩ := conservation hrun
  refine ⟨fun counter => ?_, run_senders hrun, ?_, ?_, fun lane => ?_⟩
  · rw [← run_charges hrun counter]
    rcases counter with (_ | _) | (_ | _) | _ | _ <;> rfl
  · show shared.state.receiverAlive = true ↔ _
    rw [run_receiver hrun]
    simp
  · exact (shared.snapshot_allLimits wakeRequested).trans hinv.limits_eq
  · intro state sent gone
    have hstate : state = shared.laneSnapshot lane (shared.state.lane lane) :=
      shared.snapshot_lane wakeRequested lane
    have hsent : sent = gone ++ (shared.state.lane lane).queue := hlanes lane
    have hwf := hinv.lanes lane
    rw [hstate, hsent]
    refine ⟨?_, ?_, hwf.count, hwf.bytes⟩
    · rw [List.length_append]
      exact Nat.add_comm _ _
    · rw [measured, measured, List.map_append, List.sum_append, Nat.add_comm]
      exact congrArg _ hwf.exact

/-- One of those sends is too large, and the wake of one fails. -/
theorem snapshot_accounts_mixed :
    let (tr, shared) := performAll (.new smallLimits id) mixed
    let snapshot := shared.snapshot false
    (snapshot.counter (.bytes .work)).val = min (tr.map (charge (.bytes .work))).sum (2 ^ 64 - 1) ∧
    (tr.map (charge (.bytes .work))).sum = 1 ∧ (tr.map (charge .wakeFailures)).sum = 1 := by
  obtain ⟨hcounters, -⟩ := snapshot_accounts (performAll_run smallLimits id mixed) false
  exact ⟨hcounters _, by decide +kernel, by decide +kernel⟩

end Mailbox

end Calandria
