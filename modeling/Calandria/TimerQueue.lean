/-
The owner-local timer queue.

Timers wait in a binary heap, which is any `PriorityQueue` over the order of the
source: greatest is the earliest deadline, and among equal deadlines the first
admitted.  A cancellation takes the heap apart and builds it again.
-/
import Calandria.PriorityQueue
import Calandria.Time
import Mathlib.Data.Prod.Lex

namespace Calandria

abbrev TimerOwnerId := U64

abbrev TimerId := U64

/-- `TimerId::checked_next`. -/
def TimerId.checkedNext (id : TimerId) : Option TimerId := U64.checkedAdd id 1

/-- Exact handle for one admitted timer. -/
structure TimerToken where
  owner : TimerOwnerId
  id : TimerId
  deadline : Deadline
  deriving DecidableEq

/-- The place of a token in the order of firing. -/
def TimerToken.key (token : TimerToken) : Deadline ×ₗ TimerId := toLex (token.deadline, token.id)

/-- Owned timer envelope preserving admission-time measurement. -/
structure Timer (T : Type) where
  token : TimerToken
  value : T
  retained : RetainedBytes

def Timer.deadline {T : Type} (timer : Timer T) : Deadline := timer.token.deadline

/-- Hard count and retained-byte limits for one timer queue. -/
structure TimerLimits where
  timers : NonZeroUsize
  retainedBytes : RetainedBytes
  deriving DecidableEq

/-- Why a timer could not enter a bounded owner-local queue. -/
inductive TimerScheduleFailure
  | timerCapacity (limit : NonZeroUsize)
  | retainedByteOverflow (current timer : RetainedBytes)
  | retainedByteCapacity (limit current timer : RetainedBytes)
  | timerIdsExhausted
  deriving DecidableEq

/-- Failed timer admission with the original deadline and value. -/
structure TimerScheduleError (T : Type) where
  deadline : Deadline
  value : T
  failure : TimerScheduleFailure

/-- Progress made by one explicitly bounded due-timer drain. -/
structure TimerDrain where
  fired : ℕ
  moreDue : Bool
  deriving DecidableEq

/-- Current bounded state for one owner-local timer queue. -/
structure TimerQueueSnapshot where
  owner : TimerOwnerId
  limits : TimerLimits
  pendingTimers : ℕ
  retainedBytes : RetainedBytes
  nextDeadline : Option Deadline
  nextId : Option TimerId
  deriving DecidableEq

/-! ### The order of the heap -/

/-- Heap entry ordering by absolute deadline and monotonic admission identity. -/
structure Scheduled (T : Type) where
  timer : Timer T

namespace Scheduled

variable {T : Type}

/-- `Ord::cmp`: the greatest is the first to fire. -/
def cmp (self other : Scheduled T) : Ordering :=
  (compare other.timer.deadline self.timer.deadline).then
    (compare other.timer.token.id self.timer.token.id)

theorem cmp_eq (x y : Scheduled T) :
    cmp x y = compare y.timer.token.key x.timer.token.key :=
  rfl

theorem cmp_isLE {x y : Scheduled T} :
    (cmp x y).isLE ↔ y.timer.token.key ≤ x.timer.token.key := by
  rw [cmp_eq, ← Ordering.ne_gt_iff_isLE]
  exact compare_le_iff_le

instance : Std.TransCmp (cmp : Scheduled T → Scheduled T → Ordering) where
  eq_swap {x y} := by
    rw [cmp_eq, cmp_eq]
    exact Std.OrientedCmp.eq_swap
  isLE_trans {x y z} hxy hyz := by
    rw [cmp_isLE] at *
    exact hyz.trans hxy

end Scheduled

namespace TimerQueue

/-- "timer retained-byte accounting invariant violated" -/
inductive Panic
  | retainedAccounting
  deriving DecidableEq

end TimerQueue

/-- Stable count- and retained-byte-bounded owner-local timer queue. -/
structure TimerQueue {T : Type} (P : PriorityQueue (Scheduled T) Scheduled.cmp) where
  owner : TimerOwnerId
  limits : TimerLimits
  measure : T → RetainedBytes
  timers : P.Heap
  nextId : Option TimerId
  retained : RetainedBytes

namespace TimerQueue

variable {T : Type} {P : PriorityQueue (Scheduled T) Scheduled.cmp}

/-! ### The operations -/

/-- Creates a measured queue whose first successful admission uses `firstId`. -/
def startingAtWithMeasure (P : PriorityQueue (Scheduled T) Scheduled.cmp) (owner : TimerOwnerId)
    (limits : TimerLimits) (firstId : TimerId) (measure : T → RetainedBytes) : TimerQueue P :=
  { owner, limits, measure, timers := P.new, nextId := some firstId, retained := 0 }

def len (queue : TimerQueue P) : ℕ := (P.intoVec queue.timers).length

/-- The earliest deadline without changing ownership. -/
def nextDeadline (queue : TimerQueue P) : Option Deadline :=
  (P.peek queue.timers).map fun scheduled => scheduled.timer.deadline

/-- The pending timers; the order is unspecified. -/
def iter (queue : TimerQueue P) : List (Timer T) :=
  (P.intoVec queue.timers).map Scheduled.timer

def checkRetained (queue : TimerQueue P) (deadline : Deadline) (value : T)
    (retained : RetainedBytes) : Except (TimerScheduleError T) (T × RetainedBytes) :=
  match queue.retained.checkedAdd retained with
  | none => .error ⟨deadline, value, .retainedByteOverflow queue.retained retained⟩
  | some total =>
    if queue.limits.retainedBytes < total then
      .error ⟨deadline, value,
        .retainedByteCapacity queue.limits.retainedBytes queue.retained retained⟩
    else .ok (value, total)

/-- Admits one value at an absolute deadline. -/
def schedule (queue : TimerQueue P) (deadline : Deadline) (value : T) :
    TimerQueue P × Except (TimerScheduleError T) TimerToken :=
  if queue.limits.timers.get.val ≤ queue.len then
    (queue, .error ⟨deadline, value, .timerCapacity queue.limits.timers⟩)
  else
    let retained := queue.measure value
    match queue.checkRetained deadline value retained with
    | .error failure => (queue, .error failure)
    | .ok (value, total) =>
      match queue.nextId with
      | none => (queue, .error ⟨deadline, value, .timerIdsExhausted⟩)
      | some id =>
        let token : TimerToken := ⟨queue.owner, id, deadline⟩
        ({ queue with
            nextId := TimerId.checkedNext id
            timers := P.push queue.timers ⟨⟨token, value, retained⟩⟩
            retained := total }, .ok token)

def subtractRetained (queue : TimerQueue P) (removed : RetainedBytes) :
    Except Panic (TimerQueue P) :=
  match queue.retained.checkedSub removed with
  | none => .error .retainedAccounting
  | some retained => .ok { queue with retained }

/-- Cancels exactly the named pending timer and returns ownership. -/
def cancel (queue : TimerQueue P) (token : TimerToken) :
    Except Panic (TimerQueue P × Option (Timer T)) :=
  if token.owner ≠ queue.owner then .ok (queue, none)
  else
    let timers := P.intoVec queue.timers
    match timers.findFinIdx? fun scheduled => scheduled.timer.token = token with
    | none => .ok ({ queue with timers := P.fromVec timers }, none)
    | some index => do
      let (scheduled, timers) := swapRemove timers index
      let queue ← { queue with timers := P.fromVec timers }.subtractRetained
        scheduled.timer.retained
      .ok (queue, some scheduled.timer)

/-- Removes the first timer when it is due at `now`. -/
def popDue (queue : TimerQueue P) (now : Moment) :
    Except Panic (TimerQueue P × Option (Timer T)) :=
  if queue.nextDeadline.any fun deadline => deadline.isElapsedAt now then
    match P.pop queue.timers with
    | none => .ok (queue, none)
    | some (scheduled, timers) => do
      let queue ← { queue with timers }.subtractRetained scheduled.timer.retained
      .ok (queue, some scheduled.timer)
  else .ok (queue, none)

/-- The loop of `drain_due_into`, with what is left of the budget. -/
def drainLoop (now : Moment) : ℕ → TimerQueue P → List (Timer T) → ℕ →
    Except Panic (TimerQueue P × List (Timer T) × ℕ)
  | 0, queue, destination, fired => .ok (queue, destination, fired)
  | budget + 1, queue, destination, fired => do
    match ← queue.popDue now with
    | (queue, none) => .ok (queue, destination, fired)
    | (queue, some timer) => drainLoop now budget queue (destination ++ [timer]) (fired + 1)

/-- Transfers no more than `budget` due timers in stable order. -/
def drainDueInto (queue : TimerQueue P) (now : Moment) (destination : List (Timer T))
    (budget : NonZeroUsize) : Except Panic (TimerQueue P × List (Timer T) × TimerDrain) := do
  let (queue, destination, fired) ← drainLoop now budget.get.val queue destination 0
  let moreDue := queue.nextDeadline.any fun deadline => deadline.isElapsedAt now
  .ok (queue, destination, ⟨fired, moreDue⟩)

/-- Current limits and retained ownership. -/
def snapshot (queue : TimerQueue P) : TimerQueueSnapshot :=
  ⟨queue.owner, queue.limits, queue.len, queue.retained, queue.nextDeadline, queue.nextId⟩

/-! ### Calls and replies -/

inductive Op (T : Type)
  | schedule (deadline : Deadline) (value : T)
  | cancel (token : TimerToken)
  | popDue (now : Moment)
  | drainDueInto (now : Moment) (destination : List (Timer T)) (budget : NonZeroUsize)
  | nextDeadline
  | iter
  | snapshot

inductive Reply (T : Type)
  | admission (result : Except (TimerScheduleError T) TimerToken)
  | cancelled (result : Option (Timer T))
  | due (result : Option (Timer T))
  | drained (destination : List (Timer T)) (drain : TimerDrain)
  | deadline (result : Option Deadline)
  | timers (result : List (Timer T))
  | counts (snapshot : TimerQueueSnapshot)

/-- A rejected value, a token that names nothing, or nothing that is due. -/
def Reply.refused : Reply T → Bool
  | .admission (.error _) | .cancelled none | .due none => true
  | _ => false

/-- Equal replies; the order of an iteration is unspecified. -/
inductive Reply.Same : Reply T → Reply T → Prop
  | refl {reply} : Same reply reply
  | reordered {l l'} (h : l.Perm l') : Same (.timers l) (.timers l')

theorem Reply.Same.refused {reply reply' : Reply T} (h : reply.Same reply') :
    reply.refused = reply'.refused := by
  cases h <;> rfl

def exec (queue : TimerQueue P) : Op T → Except Panic (TimerQueue P × Reply T)
  | .schedule deadline value =>
    let (queue, result) := queue.schedule deadline value
    .ok (queue, .admission result)
  | .cancel token => do
    let (queue, result) ← queue.cancel token
    .ok (queue, .cancelled result)
  | .popDue now => do
    let (queue, result) ← queue.popDue now
    .ok (queue, .due result)
  | .drainDueInto now destination budget => do
    let (queue, destination, drain) ← queue.drainDueInto now destination budget
    .ok (queue, .drained destination drain)
  | .nextDeadline => .ok (queue, .deadline queue.nextDeadline)
  | .iter => .ok (queue, .timers queue.iter)
  | .snapshot => .ok (queue, .counts queue.snapshot)

/-- A rejected admission changes nothing. -/
theorem schedule_rejected {queue : TimerQueue P} {deadline : Deadline} {value : T}
    {error : TimerScheduleError T} (h : (queue.schedule deadline value).2 = .error error) :
    (queue.schedule deadline value).1 = queue := by
  rw [schedule] at h ⊢
  split_ifs at h ⊢
  · rfl
  · dsimp only at h ⊢
    cases hcheck : queue.checkRetained deadline value (queue.measure value) with
    | error failure => rfl
    | ok checked =>
      cases hnext : queue.nextId with
      | none => rfl
      | some id =>
        simp only [hcheck, hnext] at h
        cases h

theorem exec_rejected {queue queue' : TimerQueue P} {op : Op T} {error : TimerScheduleError T}
    (h : queue.exec op = .ok (queue', .admission (.error error))) : queue' = queue := by
  cases op with
  | schedule deadline value =>
    obtain ⟨hqueue, hresult⟩ := Prod.mk.inj (Except.ok.inj h)
    rw [← hqueue]
    exact schedule_rejected (Reply.admission.inj hresult)
  | cancel token =>
    rw [exec] at h
    cases hcancel : queue.cancel token with
    | error panic => rw [hcancel] at h; cases h
    | ok result => rw [hcancel] at h; cases h
  | popDue now =>
    rw [exec] at h
    cases hpop : queue.popDue now with
    | error panic => rw [hpop] at h; cases h
    | ok result => rw [hpop] at h; cases h
  | drainDueInto now destination budget =>
    rw [exec] at h
    cases hdrain : queue.drainDueInto now destination budget with
    | error panic => rw [hdrain] at h; cases h
    | ok result => rw [hdrain] at h; cases h
  | nextDeadline => cases h
  | iter => cases h
  | snapshot => cases h

end TimerQueue

end Calandria
