/-
A mailbox whose owner parks on a condition variable.

The mailbox lock, the phase of its wake handle and the parker's token are put
together: senders wake while they hold the mailbox lock, the backend call is
`ThreadNotifier::notify`, and the owner alternates drains and waits.  A step is
the acquisition or the release of a lock, one atomic operation on the phase, or
what a thread does to the data of a lock it holds up to its next such step.

* `ThreadPc`, `OwnerPc` — where a thread and the owner are;
* `Step` — the steps of one thread, or of the owner;
* `Inv` — the invariant, of which `token` is the heart: from the owner's
  acknowledgement to the end of its wait, a phase of `REQUESTED` means that the
  token is there;
* `no_lost_wake` — nothing is stranded behind a parked owner.

Which threads own a sender is not tracked: any thread may send, clone and drop.
-/
import Calandria.Host
import Calandria.Wake
import Calandria.Mailbox

namespace Calandria

open Mailbox (Shared)

namespace Parking

/-! ### The threads -/

/-- What a thread asks of its sender. -/
inductive Task (T : Type)
  | send (lane : Lane) (item : T) (retained : RetainedBytes)
  | clone
  | drop

/-- What a call of `wake` is made for. -/
inductive After (T : Type)
  /-- `try_send_materialized` goes on to publish. -/
  | publish (lane : Lane) (item : T) (retained nextBytes : RetainedBytes)
  /-- `Drop` goes on to lower the sender count. -/
  | leave
  /-- The call is made on a clone of the handle, outside of the mailbox. -/
  | nothing

/-- Where a call of `ThreadNotifier::notify` is. -/
inductive NotifyPc
  | lock
  | set
  | signal
  | unlock
  | done
  deriving DecidableEq

/-- Where a thread is. -/
inductive ThreadPc (T : Type)
  | idle
  /-- Waits for the mailbox lock. -/
  | entering (task : Task T)
  | inside (task : Task T)
  /-- Calls `wake`; while that is in its backend call, `notify` says how far. -/
  | waking (after : After T) (pc : WakePc) (notify : NotifyPc)
  /-- Is about to release the mailbox lock. -/
  | leaving

variable {T : Type}

/-- The thread's call of `wake`. -/
def ThreadPc.call : ThreadPc T → Option WakePc
  | .waking _ pc _ => some pc
  | .idle | .entering _ | .inside _ | .leaving => none

def After.holds : After T → Bool
  | .publish _ _ _ _ | .leave => true
  | .nothing => false

/-- The thread holds the mailbox lock. -/
def ThreadPc.holds : ThreadPc T → Bool
  | .inside _ | .leaving => true
  | .waking after _ _ => after.holds
  | .idle | .entering _ => false

/-- What a thread does between the acquisition of the mailbox lock and its call
of `wake`, or its end if it makes none. -/
def Task.enter (shared : Shared T) : Task T → Shared T × ThreadPc T
  | .send lane item retained =>
    match (shared.validate lane retained : Except (Shared T × AdmissionFailure Unit) _) with
    | .error (shared, _) => (shared, .leaving)
    | .ok nextBytes => (shared, .waking (.publish lane item retained nextBytes) (.load 0) .lock)
  | .clone =>
    match shared.cloneSender with
    | .ok shared => (shared, .leaving)
    -- the panic unwinds, and the lock is released with it
    | .error _ => (shared, .leaving)
  | .drop =>
    if shared.state.senders = 1 ∧ shared.state.receiverAlive then
      (shared, .waking .leave (.load 0) .lock)
    else (shared.dropSender (W := Unit) (.ok ()), .leaving)

/-- What it does once `wake` has returned. -/
def After.resume (shared : Shared T) (ok : Bool) : After T → Shared T × ThreadPc T
  | .publish lane item retained nextBytes =>
    if ok then (shared.publish lane item retained nextBytes, .leaving)
    else ({ shared with counters := shared.counters.incrementWakeFailures }, .leaving)
  | .leave => (shared.dropSender (if ok then .ok () else .error ()), .leaving)
  | .nothing => (shared, .idle)

/-! ### The owner -/

/-- Where the owner is. -/
inductive OwnerPc
  /-- Between two operations; `status` is what the latest drain since the
  previous wait reported. -/
  | ready (status : Option DrainStatus)
  /-- A drain waits for the mailbox lock. -/
  | draining (limit : NonZeroUsize)
  | inside (limit : NonZeroUsize)
  | acking (pc : AckPc) (status : DrainStatus)
  /-- Is about to release the mailbox lock. -/
  | leaving (status : DrainStatus)
  /-- A wait is about to lock the parker. -/
  | entering (maximum : Span)
  | checking (maximum : Span)
  /-- At the head of the loop of `wait_timeout_while`. -/
  | looping
  /-- In the queue of the condition variable, until `signalled` or sooner. -/
  | blocked (signalled : Bool)
  /-- Out of that queue, and about to lock the parker. -/
  | awake
  | finishing
  /-- Is about to release the parker. -/
  | returning (outcome : WaitOutcome)
  deriving DecidableEq

/-- The owner holds the mailbox lock. -/
def OwnerPc.holds : OwnerPc → Bool
  | .inside _ | .acking _ _ | .leaving _ => true
  | .ready _ | .draining _ | .entering _ | .checking _ | .looping | .blocked _ | .awake
  | .finishing | .returning _ => false

/-- A drain has reported `Idle`, or is about to, and the wait that may follow has
not looked at the token for the last time. -/
def OwnerPc.parking : OwnerPc → Bool
  | .leaving status => status = .idle
  | .ready status => status = some .idle
  | .entering _ | .checking _ | .looping | .blocked _ | .awake | .finishing => true
  | .draining _ | .inside _ | .acking _ _ | .returning _ => false

/-- What `wait` does with the token while it holds the parker's lock, but for
blocking; `elapsed` says whether the maximum is over. -/
def OwnerPc.inspect (notified elapsed : Bool) : OwnerPc → Option (Bool × OwnerPc)
  | .checking maximum =>
    if notified then some (false, .returning .notified)
    else if maximum = 0 then some (notified, .returning .idle)
    else some (notified, .looping)
  | .looping => if notified ∨ elapsed then some (notified, .finishing) else none
  | .finishing =>
    if notified then some (false, .returning .notified) else some (notified, .returning .idle)
  | .ready _ | .draining _ | .inside _ | .acking _ _ | .leaving _ | .entering _ | .blocked _
  | .awake | .returning _ => none

/-- `notify_one`. -/
def OwnerPc.signal : OwnerPc → OwnerPc
  | .blocked _ => .blocked true
  | pc => pc

/-! ### Interleavings -/

inductive Holder
  | owner
  | thread (i : ℕ)
  deriving DecidableEq

/-- A mailbox with its wake handle and its owner's parker. -/
structure State (T : Type) where
  shared : Shared T
  /-- Who holds the mailbox lock. -/
  lock : Option Holder
  phase : U8
  notified : Bool
  /-- Who holds the parker's lock. -/
  parkLock : Option Holder
  threads : ℕ → ThreadPc T
  owner : OwnerPc

/-- Writes where a thread is. -/
def State.move (s : State T) (i : ℕ) (pc : ThreadPc T) : State T :=
  { s with threads := Function.update s.threads i pc }

/-- One step of a thread or of the owner. -/
inductive Step (s : State T) : State T → Prop
  | begin {i} (task : Task T) : s.threads i = .idle → Step s (s.move i (.entering task))
  | call {i} : s.threads i = .idle → Step s (s.move i (.waking .nothing (.load 0) .lock))
  | acquire {i task} : s.threads i = .entering task → s.lock = none →
      Step s ({ s with lock := some (.thread i) }.move i (.inside task))
  | enter {i task shared pc} : s.threads i = .inside task →
      task.enter s.shared = (shared, pc) → Step s ({ s with shared }.move i pc)
  /-- One step of `wake`; the notifier returns from its backend call with `Ok`. -/
  | wake {i after pc n event phase pc'} : s.threads i = .waking after pc n →
      pc.next s.phase true = some (event, phase, pc') → (pc = .backend → n = .done) →
      pc' ≠ .returned → Step s ({ s with phase }.move i (.waking after pc' .lock))
  | lockParker {i after} : s.threads i = .waking after .backend .lock → s.parkLock = none →
      Step s ({ s with parkLock := some (.thread i) }.move i (.waking after .backend .set))
  | setToken {i after} : s.threads i = .waking after .backend .set →
      Step s ({ s with notified := true }.move i (.waking after .backend .signal))
  | notifyOne {i after} : s.threads i = .waking after .backend .signal →
      Step s ({ s with owner := s.owner.signal }.move i (.waking after .backend .unlock))
  | unlockParker {i after} : s.threads i = .waking after .backend .unlock →
      Step s ({ s with parkLock := none }.move i (.waking after .backend .done))
  | resume {i after ok n shared pc} : s.threads i = .waking after (.returning ok) n →
      after.resume s.shared ok = (shared, pc) → Step s ({ s with shared }.move i pc)
  | release {i} : s.threads i = .leaving → Step s ({ s with lock := none }.move i .idle)
  | drain {status} (limit : NonZeroUsize) : s.owner = .ready status →
      Step s { s with owner := .draining limit }
  | ownerAcquire {limit} : s.owner = .draining limit → s.lock = none →
      Step s { s with lock := some .owner, owner := .inside limit }
  | drained {limit shared destination destination' report} : s.owner = .inside limit →
      s.shared.drainInto destination limit = .ok (shared, destination', report) →
      Step s { s with
        shared
        owner := if shared.state.isEmpty then .acking .load report.status
          else .leaving report.status }
  | acknowledge {pc status event phase pc'} : s.owner = .acking pc status →
      pc.next s.phase = some (event, phase, pc') →
      Step s { s with phase, owner := .acking pc' status }
  | acknowledged {status} : s.owner = .acking .returned status →
      Step s { s with owner := .leaving status }
  | ownerRelease {status} : s.owner = .leaving status →
      Step s { s with lock := none, owner := .ready (some status) }
  /-- The owner waits only after a drain that reported `Idle`. -/
  | wait (maximum : Span) : s.owner = .ready (some .idle) →
      Step s { s with owner := .entering maximum }
  | ownerLockParker {maximum} : s.owner = .entering maximum → s.parkLock = none →
      Step s { s with parkLock := some .owner, owner := .checking maximum }
  | inspect {elapsed notified pc} : s.owner.inspect s.notified elapsed = some (notified, pc) →
      Step s { s with notified, owner := pc }
  | block : s.owner = .looping → s.notified = false →
      Step s { s with parkLock := none, owner := .blocked false }
  /-- By a signal, by the time limit, or spuriously. -/
  | awaken {signalled} : s.owner = .blocked signalled → Step s { s with owner := .awake }
  | relock : s.owner = .awake → s.parkLock = none →
      Step s { s with parkLock := some .owner, owner := .looping }
  | waited {outcome} : s.owner = .returning outcome →
      Step s { s with parkLock := none, owner := .ready none }

/-- A new mailbox and its wake handle, and an owner that has not drained yet. -/
def system (limits : MailboxLimits) (measure : T → RetainedBytes) :
    TransitionSystem (State T) Unit where
  init s := s = ⟨.new limits measure, none, IDLE, false, none, fun _ => .idle, .ready none⟩
  step s _ s' := Step s s'

/-! ### What happens under the mailbox lock -/

/-- The mailbox is unchanged but for its counters and its sender count. -/
structure Keeps (shared shared' : Shared T) : Prop where
  limits : shared'.limits = shared.limits
  lanes : ∀ lane, shared'.state.lane lane = shared.state.lane lane
  alive : shared'.state.receiverAlive = shared.state.receiverAlive

theorem Keeps.wf {shared shared' : Shared T} (h : Keeps shared shared') (hwf : shared.WF) :
    shared'.WF := by
  intro lane
  rw [h.lanes, h.limits]
  exact hwf lane

theorem dropSender_keeps {W : Type} (shared : Shared T) (woken : Except W Unit) :
    Keeps shared (shared.dropSender woken) := by
  obtain ⟨counters, senders, hdrop⟩ := shared.dropSender_cases woken
  rw [hdrop]
  exact ⟨rfl, fun lane => by cases lane <;> rfl, rfl⟩

/-- The first part of a critical section never brings the sender count to zero,
and what it leaves to be published is admitted. -/
theorem enter_cases {shared shared' : Shared T} {task : Task T} {pc : ThreadPc T}
    (h : task.enter shared = (shared', pc)) (halive : shared.state.receiverAlive = true) :
    Keeps shared shared' ∧ (shared'.state.senders = 0 → shared.state.senders = 0) ∧
    (pc = .leaving ∨ ∃ after : After T, after.holds = true ∧ pc = .waking after (.load 0) .lock ∧
      ∀ {lane item retained nextBytes}, after = .publish lane item retained nextBytes →
        shared'.Admits lane retained nextBytes) := by
  cases task with
  | send lane item retained =>
    rcases shared.validate_cases lane retained (W := Unit) (.ok ()) with
      ⟨counters, failure, hvalidate, -⟩ | ⟨nextBytes, hvalidate, hadmits⟩
    · simp only [Task.enter, hvalidate] at h
      cases h
      exact ⟨⟨rfl, fun _ => rfl, rfl⟩, id, .inl rfl⟩
    · simp only [Task.enter, hvalidate] at h
      cases h
      refine ⟨⟨rfl, fun _ => rfl, rfl⟩, id, .inr ⟨_, rfl, rfl, ?_⟩⟩
      intro lane' item' retained' nextBytes' heq
      cases heq
      exact hadmits
  | clone =>
    cases hadd : shared.state.senders.checkedAdd 1 with
    | none =>
      simp only [Task.enter, Shared.cloneSender, hadd] at h
      cases h
      exact ⟨⟨rfl, fun _ => rfl, rfl⟩, id, .inl rfl⟩
    | some senders =>
      have hsum := U64.checkedAdd_eq_some.mp hadd
      simp only [Task.enter, Shared.cloneSender, hadd] at h
      cases h
      refine ⟨⟨rfl, fun lane => by cases lane <;> rfl, rfl⟩, fun hzero => ?_, .inl rfl⟩
      -- one more than something is not zero
      have hval : senders.val = 0 := congrArg Fin.val hzero
      have hone : (1 : U64).val = 1 := rfl
      omega
  | drop =>
    rw [Task.enter] at h
    split_ifs at h with hlast
    · cases h
      refine ⟨⟨rfl, fun _ => rfl, rfl⟩, id, .inr ⟨_, rfl, rfl, ?_⟩⟩
      intro lane item retained nextBytes heq
      cases heq
    · cases h
      refine ⟨dropSender_keeps _ _, fun hzero => ?_, .inl rfl⟩
      by_contra hsome
      rw [Shared.dropSender, if_neg hsome] at hzero
      have hone : shared.state.senders = 1 := by grind
      exact hlast ⟨hone, halive⟩

theorem resume_cases {shared shared' : Shared T} {ok : Bool} {after : After T} {pc : ThreadPc T}
    (h : after.resume shared ok = (shared', pc)) :
    (after.holds = true ∧ pc = .leaving) ∨ (after.holds = false ∧ pc = .idle ∧ shared' = shared) := by
  cases after with
  | publish lane item retained nextBytes =>
    left
    rw [After.resume] at h
    split_ifs at h <;> cases h <;> exact ⟨rfl, rfl⟩
  | leave =>
    cases h
    exact .inl ⟨rfl, rfl⟩
  | nothing =>
    cases h
    exact .inr ⟨rfl, rfl, rfl⟩

theorem resume_wf {shared shared' : Shared T} {ok : Bool} {after : After T} {pc : ThreadPc T}
    (h : after.resume shared ok = (shared', pc)) (hwf : shared.WF)
    (halive : shared.state.receiverAlive = true)
    (hadmits : ∀ {lane item retained nextBytes}, after = .publish lane item retained nextBytes →
      shared.Admits lane retained nextBytes) :
    shared'.WF ∧ shared'.state.receiverAlive = true := by
  cases after with
  | publish lane item retained nextBytes =>
    rw [After.resume] at h
    split_ifs at h <;> cases h
    · refine ⟨(hadmits rfl).publish_wf hwf item, ?_⟩
      rw [Shared.publish, Mailbox.State.setLane_receiverAlive, halive]
    · exact ⟨hwf, halive⟩
  | leave =>
    cases h
    have hkeeps := dropSender_keeps shared (if ok then .ok () else .error ())
    exact ⟨hkeeps.wf hwf, hkeeps.alive.trans halive⟩
  | nothing =>
    cases h
    exact ⟨hwf, halive⟩

/-! ### Who holds the mailbox lock -/

/-- The lock is held by the one who is in a critical section. -/
structure Locked (lock : Option Holder) (threads : ℕ → ThreadPc T) (owner : OwnerPc) : Prop where
  owner : owner.holds = true → lock = some .owner
  thread : ∀ {i}, (threads i).holds = true → lock = some (.thread i)

namespace Locked

variable {lock : Option Holder} {threads : ℕ → ThreadPc T} {owner owner' : OwnerPc} {i j : ℕ}

theorem apart (h : Locked lock threads owner) (hi : (threads i).holds = true) :
    owner.holds = false := by
  by_contra howner
  have := (h.owner (by simpa using howner)).symm.trans (h.thread hi)
  cases this

theorem alone (h : Locked lock threads owner) (hi : (threads i).holds = true) (hj : j ≠ i) :
    (threads j).holds = false := by
  by_contra hholds
  have := (h.thread (by simpa using hholds)).symm.trans (h.thread hi)
  cases this
  exact hj rfl

theorem away (h : Locked lock threads owner) (howner : owner.holds = true) :
    (threads i).holds = false := by
  by_contra hi
  exact absurd howner (by simp [h.apart (by simpa using hi)])

theorem move (h : Locked lock threads owner) {pc : ThreadPc T}
    (hpc : pc.holds = true → (threads i).holds = true) :
    Locked lock (Function.update threads i pc) owner := by
  refine ⟨h.owner, fun {j} hj => ?_⟩
  by_cases hji : j = i
  · subst hji
    rw [Function.update_self] at hj
    exact h.thread (hpc hj)
  · rw [Function.update_of_ne hji] at hj
    exact h.thread hj

theorem ownerMove (h : Locked lock threads owner)
    (howner : owner'.holds = true → owner.holds = true) : Locked lock threads owner' :=
  ⟨fun hholds => h.owner (howner hholds), h.thread⟩

theorem acquire (h : Locked none threads owner) (task : Task T) :
    Locked (some (.thread i)) (Function.update threads i (.inside task)) owner := by
  refine ⟨fun howner => ?_, fun {j} hj => ?_⟩
  · cases h.owner howner
  · by_cases hji : j = i
    · rw [hji]
    · rw [Function.update_of_ne hji] at hj
      cases h.thread hj

theorem release (h : Locked lock threads owner) (hi : (threads i).holds = true) :
    Locked none (Function.update threads i .idle) owner := by
  refine ⟨fun howner => ?_, fun {j} hj => ?_⟩
  · simp [h.apart hi] at howner
  · by_cases hji : j = i
    · subst hji
      rw [Function.update_self] at hj
      cases hj
    · rw [Function.update_of_ne hji] at hj
      simp [h.alone hi hji] at hj

theorem ownerAcquire (h : Locked none threads owner) :
    Locked (some .owner) threads owner' := by
  refine ⟨fun _ => rfl, fun hj => ?_⟩
  cases h.thread hj

theorem ownerRelease (h : Locked lock threads owner) (howner : owner.holds = true)
    (howner' : owner'.holds = false) : Locked none threads owner' := by
  refine ⟨fun hholds => ?_, fun hj => ?_⟩
  · simp [howner'] at hholds
  · simp [h.away howner] at hj

end Locked

theorem OwnerPc.signal_cases (pc : OwnerPc) :
    pc.signal = pc ∨ ∃ signalled, pc = .blocked signalled ∧ pc.signal = .blocked true := by
  cases pc with
  | blocked signalled => exact .inr ⟨signalled, rfl, rfl⟩
  | _ => exact .inl rfl

/-- What `wait` does with the token: it is taken, or left where it is. -/
theorem OwnerPc.inspect_cases {pc pc' : OwnerPc} {notified notified' elapsed : Bool}
    (h : pc.inspect notified elapsed = some (notified', pc')) :
    pc.holds = false ∧ pc'.holds = false ∧ pc.parking = true ∧ (∀ signalled, pc' ≠ .blocked signalled) ∧
      (∀ a status, pc' ≠ .acking a status) ∧ (notified' = notified ∨ pc'.parking = false) := by
  cases pc with
  | checking maximum =>
    rw [inspect] at h
    split_ifs at h <;> cases h <;> simp [holds, parking]
  | looping =>
    rw [inspect] at h
    split_ifs at h
    cases h
    simp [holds, parking]
  | finishing =>
    rw [inspect] at h
    split_ifs at h <;> cases h <;> simp [holds, parking]
  | _ => cases h

theorem Locked.next {s s' : State T} (h : Locked s.lock s.threads s.owner) (hstep : Step s s') :
    Locked s'.lock s'.threads s'.owner := by
  cases hstep with
  | begin | call => exact h.move fun hpc => by cases hpc
  | acquire _ hlock =>
    rw [hlock] at h
    exact h.acquire _
  | enter hi => exact h.move fun _ => by rw [hi]; rfl
  | wake hi | lockParker hi | setToken hi | unlockParker hi =>
    refine h.move fun hpc => ?_
    rw [hi]
    exact hpc
  | notifyOne hi =>
    have hmoved : Locked s.lock (Function.update s.threads _ (.waking _ .backend .unlock)) s.owner :=
      h.move fun hpc => by
        rw [hi]
        exact hpc
    -- the signal wakes the owner, if at all, into waiting for the lock
    rcases s.owner.signal_cases with hsame | ⟨signalled, hblocked, hsignal⟩
    · exact hmoved.ownerMove fun hholds => hsame ▸ hholds
    · exact hmoved.ownerMove fun hholds => by
        rw [hsignal] at hholds
        cases hholds
  | resume hi hresume =>
    refine h.move fun hpc => ?_
    rcases resume_cases hresume with ⟨hholds, -⟩ | ⟨-, rfl, -⟩
    · rw [hi]
      exact hholds
    · cases hpc
  | release hi => exact h.release (by rw [hi]; rfl)
  | ownerAcquire _ hlock =>
    rw [hlock] at h
    exact h.ownerAcquire
  | drained howner | acknowledge howner | acknowledged howner =>
    exact h.ownerMove fun _ => by rw [howner]; rfl
  | ownerRelease howner => exact h.ownerRelease (by rw [howner]; rfl) rfl
  | inspect hinspect =>
    have hpc := (OwnerPc.inspect_cases hinspect).2.1
    exact h.ownerMove fun hholds => by simp [hpc] at hholds
  | drain | wait | ownerLockParker | block | awaken | relock | waited =>
    exact h.ownerMove fun hholds => by cases hholds

/-! ### The calls of `wake` -/

/-- What is known of a call of `wake`.  The one made under the mailbox lock is
never acknowledged before it returns, as only the owner acknowledges, and under
that lock. -/
structure Fits (shared : Shared T) (phase : U8) (after : After T) (pc : WakePc) : Prop where
  unfailed : pc ≠ .reopen ∧ pc ≠ .returning false
  sending : after.holds = true → pc.critical = true → phase = WAKING
  told : after.holds = true → pc = .returning true → phase = REQUESTED
  admits : ∀ {lane item retained nextBytes}, after = .publish lane item retained nextBytes →
    shared.Admits lane retained nextBytes

/-- Of a call made outside of the mailbox nothing more is known. -/
theorem Fits.outside {shared : Shared T} {phase : U8} {after : After T} {pc : WakePc}
    (hholds : after.holds = false) (hpc : pc ≠ .reopen ∧ pc ≠ .returning false) :
    Fits shared phase after pc := by
  refine ⟨hpc, fun h => ?_, fun h => ?_, fun h => ?_⟩
  · simp [hholds] at h
  · simp [hholds] at h
  · rw [h] at hholds
    cases hholds

/-- The step of one's own call. -/
theorem Fits.move {shared : Shared T} {phase phase' : U8} {after : After T} {pc pc' : WakePc}
    {event : Event} (h : Fits shared phase after pc) (hm : pc.Moves phase event phase' pc')
    (hstore : pc = .store → phase = WAKING_ACKNOWLEDGED)
    (hbackend : pc = .backend → event = .finish true) : Fits shared phase' after pc' := by
  cases hm with
  | coalesced hrequested =>
    exact ⟨by simp, fun _ hcrit => (nomatch hcrit), fun _ _ => hrequested, h.admits⟩
  | vacant | spun | raced | returned =>
    exact ⟨by simp, fun _ hcrit => (nomatch hcrit), fun _ hpc => (nomatch hpc), h.admits⟩
  | claimed => exact ⟨by simp, fun _ _ => rfl, fun _ hpc => (nomatch hpc), h.admits⟩
  | started | succeeded =>
    exact ⟨by simp, fun hholds _ => h.sending hholds rfl, fun _ hpc => (nomatch hpc), h.admits⟩
  | failed =>
    have hevent := hbackend rfl
    cases hevent
  | published => exact ⟨by simp, fun _ hcrit => (nomatch hcrit), fun _ _ => rfl, h.admits⟩
  | overtaken hacked =>
    exact ⟨by simp, fun hholds _ => h.sending hholds rfl, fun _ hpc => (nomatch hpc), h.admits⟩
  | stored =>
    refine ⟨by simp, fun _ hcrit => (nomatch hcrit), fun hholds _ => ?_, h.admits⟩
    have hwaking := h.sending hholds rfl
    rw [hstore rfl] at hwaking
    cases hwaking
  | reopened => exact absurd rfl h.unfailed.1

/-- The step of another call. -/
theorem Fits.other {shared : Shared T} {phase phase' : U8} {after : After T} {pc pd pd' : WakePc}
    {event : Event} (h : Fits shared phase after pc) (hm : pd.Moves phase event phase' pd')
    (hunique : pd.critical = true → pc.critical = false)
    (hclaim : pc.critical = true → phase ≠ IDLE)
    (hheld : pd.critical = true → phase ≠ REQUESTED) : Fits shared phase' after pc := by
  -- a step that moves the phase is made by a call that takes or holds the claim
  have hmoved : phase' = phase ∨ (pc.critical = false ∧ phase ≠ REQUESTED) := by
    cases hm with
    | claimed hidle =>
      refine .inr ⟨?_, by rw [hidle]; decide⟩
      by_contra hcrit
      exact hclaim (by simpa using hcrit) hidle
    | published | stored | reopened => exact .inr ⟨hunique rfl, hheld rfl⟩
    | _ => exact .inl rfl
  rcases hmoved with hsame | ⟨hcrit, hphase⟩
  · rw [hsame]
    exact h
  · refine ⟨h.unfailed, fun _ hcrit' => ?_, fun hholds hpc => ?_, h.admits⟩
    · simp [hcrit] at hcrit'
    · exact absurd (h.told hholds hpc) hphase

/-- The invariant of the calls. -/
structure Calls (shared : Shared T) (phase : U8) (threads : ℕ → ThreadPc T) : Prop where
  exclusive : Exclusive phase fun i => (threads i).call
  fits : ∀ {i after pc n}, threads i = .waking after pc n → Fits shared phase after pc

theorem call_update (threads : ℕ → ThreadPc T) (i : ℕ) (pc : ThreadPc T) :
    (fun j => (Function.update threads i pc j).call)
      = Function.update (fun j => (threads j).call) i pc.call :=
  Function.comp_update ThreadPc.call threads i pc

namespace Calls

variable {shared shared' : Shared T} {phase phase' : U8} {threads : ℕ → ThreadPc T} {i : ℕ}

/-- The phase is not `REQUESTED` while somebody holds the claim. -/
theorem phase_of_critical (h : Calls shared phase threads) {after : After T} {pc : WakePc}
    {n : NotifyPc} (hi : threads i = .waking after pc n) (hcrit : pc.critical = true) :
    phase = WAKING ∨ phase = WAKING_ACKNOWLEDGED :=
  h.exclusive.holds (c := i) (by rw [hi]; rfl) hcrit

/-- A thread that is not in its critical part of `wake` starts or ends a call, or
goes on without one; unless the mailbox stays the same it holds the lock. -/
theorem move (h : Calls shared phase threads) {pc : ThreadPc T}
    (hi : ∀ {after wake n}, threads i = .waking after wake n → wake.critical = false)
    (hpc : ∀ {after wake n}, pc = .waking after wake n →
      wake = .load 0 ∧ Fits shared' phase after wake)
    (hothers : ∀ {j}, j ≠ i → shared' = shared ∨ (threads j).holds = false) :
    Calls shared' phase (Function.update threads i pc) := by
  refine ⟨?_, fun {j after wake n} hj => ?_⟩
  · rw [call_update]
    refine h.exclusive.replace (fun {wake} hcall => ?_) (fun {wake} hcall => ?_)
    · cases hpc' : threads i with
      | waking after wake' n =>
        rw [hpc'] at hcall
        rw [← Option.some_inj.mp hcall]
        exact hi hpc'
      | _ =>
        rw [hpc'] at hcall
        cases hcall
    · cases hpc' : pc with
      | waking after wake' n =>
        rw [hpc'] at hcall
        rw [← Option.some_inj.mp hcall, (hpc hpc').1]
        exact ⟨rfl, by simp⟩
      | _ =>
        rw [hpc'] at hcall
        cases hcall
  · by_cases hji : j = i
    · subst hji
      rw [Function.update_self] at hj
      exact (hpc hj).2
    · rw [Function.update_of_ne hji] at hj
      rcases hothers hji with hsame | hholds
      · rw [hsame]
        exact h.fits hj
      · rw [hj] at hholds
        exact .outside hholds (h.fits hj).unfailed

/-- A step of the backend call. -/
theorem notify (h : Calls shared phase threads) {after : After T} {n : NotifyPc}
    (hi : threads i = .waking after .backend n) (n' : NotifyPc) :
    Calls shared phase (Function.update threads i (.waking after .backend n')) := by
  refine ⟨?_, fun {j after' pc m} hj => ?_⟩
  · rw [call_update]
    have hcall : (threads i).call = some .backend := by
      rw [hi]
      rfl
    rw [show (ThreadPc.waking after .backend n').call = (threads i).call from hcall.symm,
      Function.update_eq_self]
    exact h.exclusive
  · by_cases hji : j = i
    · subst hji
      rw [Function.update_self] at hj
      cases hj
      exact h.fits hi
    · rw [Function.update_of_ne hji] at hj
      exact h.fits hj

/-- A step of `wake`. -/
theorem wake (h : Calls shared phase threads) {after : After T} {pc pc' : WakePc} {n : NotifyPc}
    {event : Event} (hi : threads i = .waking after pc n) (hm : pc.Moves phase event phase' pc')
    (hbackend : pc = .backend → event = .finish true) (n' : NotifyPc) :
    Calls shared phase' (Function.update threads i (.waking after pc' n')) := by
  have hcall : (threads i).call = some pc := by
    rw [hi]
    rfl
  refine ⟨?_, fun {j after' pd m} hj => ?_⟩
  · rw [call_update]
    exact h.exclusive.wake hcall hm
  · by_cases hji : j = i
    · subst hji
      rw [Function.update_self] at hj
      cases hj
      refine (h.fits hi).move hm (fun hstore => ?_) hbackend
      exact h.exclusive.storing (c := j) (by rw [hcall, hstore])
    · rw [Function.update_of_ne hji] at hj
      refine (h.fits hj).other hm (fun hcrit => ?_) (fun hcrit hidle => ?_)
        fun hcrit hrequested => ?_
      · by_contra hother
        have hcallj : (threads j).call = some pd := by
          rw [hj]
          rfl
        exact hji (h.exclusive.unique hcallj hcall (by simpa using hother) hcrit)
      · have := h.phase_of_critical hj hcrit
        grind
      · have := h.phase_of_critical hi hcrit
        grind

/-- A step of the owner, who holds the mailbox lock. -/
theorem owner (h : Calls shared phase threads) (hexclusive : Exclusive phase' fun i => (threads i).call)
    (haway : ∀ i, (threads i).holds = false) : Calls shared' phase' threads := by
  refine ⟨hexclusive, fun {j after pc n} hj => ?_⟩
  have hholds := haway j
  rw [hj] at hholds
  exact .outside hholds (h.fits hj).unfailed

end Calls

/-! ### The token -/

/-- The thread holds the claim and has set the token since. -/
def ThreadPc.rung : ThreadPc T → Bool
  | .waking _ .backend n => n = .signal ∨ n = .unlock ∨ n = .done
  | .waking _ .publish _ => true
  | _ => false

theorem ThreadPc.rung_critical {pc : ThreadPc T} (h : pc.rung = true) :
    ∃ wake, pc.call = some wake ∧ wake.critical = true := by
  cases pc with
  | waking after wake n => cases wake <;> first | exact ⟨_, rfl, rfl⟩ | cases h
  | _ => cases h

/-- The owner has acknowledged, and has not taken the token since. -/
def OwnerPc.acknowledged : OwnerPc → Bool
  | .acking pc _ => pc.done
  | pc => pc.parking

/-- A phase of `REQUESTED` is behind a token, and the claim of a call that has
set the token too. -/
def Token (phase : U8) (notified : Bool) (threads : ℕ → ThreadPc T) (owner : OwnerPc) : Prop :=
  owner.acknowledged = true → phase = REQUESTED ∨ (phase = WAKING ∧ ∃ i, (threads i).rung = true) →
    notified = true

namespace Token

variable {phase phase' : U8} {notified : Bool} {threads : ℕ → ThreadPc T} {owner owner' : OwnerPc}
  {i : ℕ}

theorem move (h : Token phase notified threads owner) {pc : ThreadPc T}
    (hpc : pc.rung = true → (threads i).rung = true) :
    Token phase notified (Function.update threads i pc) owner := by
  intro hack hphase
  refine h hack (hphase.imp_right fun ⟨hwaking, j, hj⟩ => ⟨hwaking, ?_⟩)
  by_cases hji : j = i
  · subst hji
    rw [Function.update_self] at hj
    exact ⟨j, hpc hj⟩
  · rw [Function.update_of_ne hji] at hj
    exact ⟨j, hj⟩

theorem ownerMove (h : Token phase notified threads owner)
    (howner : owner'.acknowledged = true → owner.acknowledged = true) :
    Token phase notified threads owner' :=
  fun hack => h (howner hack)

/-- The claim is taken after an acknowledgement, and the token is set before the
claim is turned into a request. -/
theorem wake (h : Token phase notified threads owner)
    (hexclusive : Exclusive phase fun i => (threads i).call) {after : After T} {pc pc' : WakePc}
    {n : NotifyPc} {event : Event} (hi : threads i = .waking after pc n)
    (hm : pc.Moves phase event phase' pc') (hdone : pc = .backend → n = .done) :
    Token phase' notified (Function.update threads i (.waking after pc' .lock)) owner := by
  intro hack hphase
  rcases hphase with hrequested | ⟨hwaking, j, hj⟩
  · cases hm with
    | published hphase => exact h hack (.inr ⟨hphase, i, by rw [hi]; rfl⟩)
    | claimed | stored | reopened => cases hrequested
    | _ => exact h hack (.inl hrequested)
  · by_cases hji : j = i
    · subst hji
      rw [Function.update_self] at hj
      cases hm with
      | succeeded => exact h hack (.inr ⟨hwaking, j, by rw [hi, hdone rfl]; rfl⟩)
      | _ => cases hj
    · rw [Function.update_of_ne hji] at hj
      obtain ⟨wake, hcall, hcrit⟩ := ThreadPc.rung_critical hj
      have hheld := hexclusive.holds hcall hcrit
      cases hm with
      | claimed hidle => grind
      | published | stored | reopened => cases hwaking
      | _ => exact h hack (.inr ⟨hwaking, j, hj⟩)

/-- Right after an acknowledgement there is no request. -/
theorem acknowledge {pc pc' : AckPc} {status : DrainStatus} {event : Event}
    (h : Token phase notified threads (.acking pc status)) (hm : pc.Moves phase event phase' pc') :
    Token phase' notified threads (.acking pc' status) := by
  intro hack hphase
  cases hm with
  | settled => grind
  | sawRequested | sawWaking | clearRaced | markRaced => cases hack
  | cleared | marked => grind
  | returned => exact h rfl hphase

end Token

/-! ### The invariant -/

structure Inv (s : State T) : Prop where
  locked : Locked s.lock s.threads s.owner
  calls : Calls s.shared s.phase s.threads
  wf : s.shared.WF
  alive : s.shared.state.receiverAlive = true
  /-- The owner acknowledges over empty lanes. -/
  drained : ∀ {pc status}, s.owner = .acking pc status →
    (∀ lane, (s.shared.state.lane lane).queue = []) ∧
      (status = .idle → s.shared.state.senders ≠ 0)
  requested : ∀ {lane}, (s.shared.state.lane lane).queue ≠ [] → s.phase = REQUESTED
  closing : s.owner.parking = true → s.shared.state.senders = 0 → s.phase = REQUESTED
  token : Token s.phase s.notified s.threads s.owner
  signalled : s.owner = .blocked false → s.notified = true →
    ∃ i after, s.threads i = .waking after .backend .signal

/-- No step of `wake` leaves `REQUESTED`. -/
theorem Calls.stays_requested {shared : Shared T} {phase phase' : U8} {threads : ℕ → ThreadPc T}
    (h : Calls shared phase threads) {i : ℕ} {after : After T} {pc pc' : WakePc} {n : NotifyPc}
    {event : Event} (hi : threads i = .waking after pc n) (hm : pc.Moves phase event phase' pc')
    (hphase : phase = REQUESTED) : phase' = REQUESTED := by
  have hcrit : pc.critical = true → phase ≠ REQUESTED := by
    intro hcrit
    have := h.phase_of_critical hi hcrit
    grind
  cases hm with
  | claimed hidle => grind
  | published => rfl
  | stored | reopened => exact absurd hphase (hcrit rfl)
  | _ => exact hphase

namespace Inv

variable {s s' : State T} {i : ℕ} {pc : ThreadPc T}

theorem initial (limits : MailboxLimits) (measure : T → RetainedBytes) :
    Inv (⟨.new limits measure, none, IDLE, false, none, fun _ => .idle, .ready none⟩ : State T) := by
  refine ⟨⟨?_, ?_⟩, ⟨.initial, ?_⟩, Shared.new_wf limits measure, rfl, ?_, ?_, ?_, ?_, ?_⟩
  · intro hholds
    cases hholds
  · intro i hholds
    cases hholds
  · intro i after pc n hi
    cases hi
  · intro pc status howner
    cases howner
  · intro lane hqueue
    cases lane <;> exact absurd rfl hqueue
  · intro hparking
    cases hparking
  · intro hack
    cases hack
  · intro howner
    cases howner

/-- A thread moves on; it may take or release the mailbox lock, or change the
mailbox. -/
theorem thread (h : Inv s) {lock : Option Holder} {shared : Shared T} (parkLock : Option Holder)
    (hlocked : Locked lock (Function.update s.threads i pc) s.owner)
    (hcalls : Calls shared s.phase (Function.update s.threads i pc))
    (hrung : pc.rung = true → (s.threads i).rung = true)
    (hsignal : ∀ after, s.threads i ≠ .waking after .backend .signal) (hwf : shared.WF)
    (halive : shared.state.receiverAlive = true)
    (hdrained : ∀ {a status}, s.owner = .acking a status →
      (∀ lane, (shared.state.lane lane).queue = []) ∧
        (status = .idle → shared.state.senders ≠ 0))
    (hrequested : ∀ {lane}, (shared.state.lane lane).queue ≠ [] → s.phase = REQUESTED)
    (hclosing : s.owner.parking = true → shared.state.senders = 0 → s.phase = REQUESTED) :
    Inv ({ s with lock, shared, parkLock }.move i pc) := by
  refine ⟨hlocked, hcalls, hwf, halive, hdrained, hrequested, hclosing, h.token.move hrung,
    fun howner hnotified => ?_⟩
  obtain ⟨j, after, hj⟩ := h.signalled howner hnotified
  have hji : j ≠ i := by
    rintro rfl
    exact hsignal after hj
  refine ⟨j, after, ?_⟩
  show Function.update s.threads i pc j = _
  rw [Function.update_of_ne hji, hj]

/-- Nobody else is in a critical section of the mailbox. -/
theorem notAcking (h : Inv s) (hi : (s.threads i).holds = true) {a : AckPc}
    {status : DrainStatus} : s.owner ≠ .acking a status := by
  intro howner
  have := h.locked.apart hi
  rw [howner] at this
  cases this

/-- The owner moves on, and leaves the mailbox, the phase and the token alone. -/
theorem ownerMove (h : Inv s) (lock parkLock : Option Holder) {owner : OwnerPc}
    (hlocked : Locked lock s.threads owner) (hacking : ∀ a status, owner ≠ .acking a status)
    (hparking : owner.parking = true →
      s.owner.parking = true ∨ s.shared.state.senders ≠ 0)
    (hacked : owner.acknowledged = true → s.owner.acknowledged = true)
    (hblocked : owner = .blocked false → s.notified = false) :
    Inv { s with lock, parkLock, owner } := by
  refine ⟨hlocked, h.calls, h.wf, h.alive, fun howner => absurd howner (hacking _ _), h.requested,
    fun hp hzero => ?_, h.token.ownerMove hacked, fun hb hnotified => ?_⟩
  · exact h.closing ((hparking hp).resolve_right fun hn => hn hzero) hzero
  · have hnone : s.notified = false := hblocked hb
    have hsome : s.notified = true := hnotified
    rw [hnone] at hsome
    cases hsome

/-- A thread moves on, and leaves the mailbox alone. -/
theorem stay (h : Inv s) {lock : Option Holder} (parkLock : Option Holder)
    (hlocked : Locked lock (Function.update s.threads i pc) s.owner)
    (hcalls : Calls s.shared s.phase (Function.update s.threads i pc))
    (hrung : pc.rung = true → (s.threads i).rung = true)
    (hsignal : ∀ after, s.threads i ≠ .waking after .backend .signal) :
    Inv ({ s with lock, parkLock }.move i pc) :=
  h.thread parkLock hlocked hcalls hrung hsignal h.wf h.alive h.drained h.requested h.closing

/-- The first part of a critical section of the mailbox. -/
theorem enter (h : Inv s) {task : Task T} {shared : Shared T} (hi : s.threads i = .inside task)
    (henter : task.enter s.shared = (shared, pc)) : Inv ({ s with shared }.move i pc) := by
  have hlocked := h.locked.next (.enter hi henter)
  have hholds : (s.threads i).holds = true := by
    rw [hi]
    rfl
  obtain ⟨hkeeps, hsenders, hpc⟩ := enter_cases henter h.alive
  refine h.thread s.parkLock hlocked (h.calls.move ?_ ?_ fun hji => ?_) ?_ ?_ (hkeeps.wf h.wf)
    (hkeeps.alive.trans h.alive) (fun howner => absurd howner (h.notAcking hholds))
    (fun hqueue => ?_) fun hparking hzero => h.closing hparking (hsenders hzero)
  · simp [hi]
  · intro after wake n heq
    rcases hpc with rfl | ⟨after', hafter, rfl, hadmits⟩
    · cases heq
    · cases heq
      exact ⟨rfl, by simp, fun _ hcrit => (nomatch hcrit), fun _ hpc => (nomatch hpc), hadmits⟩
  · exact .inr (h.locked.alone hholds hji)
  · intro hrung
    rcases hpc with rfl | ⟨after', hafter, rfl, hadmits⟩ <;> cases hrung
  · simp [hi]
  · rw [hkeeps.lanes] at hqueue
    exact h.requested hqueue

/-- A step of `wake`. -/
theorem wake (h : Inv s) {after : After T} {wpc wpc' : WakePc} {n : NotifyPc} {event : Event}
    {phase : U8} (hi : s.threads i = .waking after wpc n)
    (hnext : wpc.next s.phase true = some (event, phase, wpc')) (hdone : wpc = .backend → n = .done)
    (hreturned : wpc' ≠ .returned) : Inv ({ s with phase }.move i (.waking after wpc' .lock)) := by
  have hcall : (s.threads i).call = some wpc := by
    rw [hi]
    rfl
  have hm := h.calls.exclusive.moves hcall hnext
  have hbackend : wpc = .backend → event = .finish true := by
    rintro rfl
    cases hnext
    rfl
  have hstays := h.calls.stays_requested hi hm
  refine ⟨h.locked.next (.wake hi hnext hdone hreturned), h.calls.wake hi hm hbackend .lock, h.wf,
    h.alive, h.drained, fun hqueue => hstays (h.requested hqueue),
    fun hparking hzero => hstays (h.closing hparking hzero),
    h.token.wake h.calls.exclusive hi hm hdone, fun howner hnotified => ?_⟩
  -- the thread that owes the signal is inside the backend, so it is another one
  obtain ⟨j, after', hj⟩ := h.signalled howner hnotified
  have hji : j ≠ i := by
    rintro rfl
    rw [hi] at hj
    cases hj
    cases hdone rfl
  refine ⟨j, after', ?_⟩
  show Function.update s.threads i _ j = _
  rw [Function.update_of_ne hji, hj]

/-- The signal reaches an owner that is blocked, and is lost on any other. -/
theorem notifyOne (h : Inv s) {after : After T}
    (hi : s.threads i = .waking after .backend .signal) :
    Inv ({ s with owner := s.owner.signal }.move i (.waking after .backend .unlock)) := by
  have hlocked := h.locked.next (.notifyOne hi)
  have htoken : Token s.phase s.notified
      (Function.update s.threads i (.waking after .backend .unlock)) s.owner :=
    h.token.move fun _ => by rw [hi]; rfl
  refine ⟨hlocked, h.calls.notify hi _, h.wf, h.alive, ?_, h.requested, ?_, ?_, ?_⟩
  all_goals
    rcases s.owner.signal_cases with hsame | ⟨signalled, hblocked, hsignal⟩
  · intro a status howner
    exact h.drained (hsame ▸ howner)
  · intro a status howner
    rw [State.move, hsignal] at howner
    cases howner
  · intro hparking
    exact h.closing (hsame ▸ hparking)
  · intro _ hzero
    exact h.closing (by rw [hblocked]; rfl) hzero
  · exact htoken.ownerMove fun hack => hsame ▸ hack
  · exact htoken.ownerMove fun _ => by rw [hblocked]; rfl
  · intro howner
    rw [State.move] at howner
    rw [hsame] at howner
    rw [howner] at hsame
    cases hsame
  · intro howner
    rw [State.move, hsignal] at howner
    cases howner

/-- What comes after the wake. -/
theorem resume (h : Inv s) {after : After T} {ok : Bool} {n : NotifyPc} {shared : Shared T}
    (hi : s.threads i = .waking after (.returning ok) n)
    (hresume : after.resume s.shared ok = (shared, pc)) : Inv ({ s with shared }.move i pc) := by
  have hlocked := h.locked.next (.resume hi hresume)
  have hfits := h.calls.fits hi
  have hok : ok = true := by
    by_contra hfailed
    exact hfits.unfailed.2 (by simp [hfailed])
  have hidle : pc.rung = false ∧ ∀ after wake n, pc ≠ .waking after wake n := by
    rcases resume_cases hresume with ⟨-, rfl⟩ | ⟨-, rfl, -⟩ <;> simp [ThreadPc.rung]
  have hafter : ∀ {after' wake n'}, s.threads i = .waking after' wake n' →
      wake = .returning ok := by
    intro after' wake n' hi'
    rw [hi] at hi'
    cases hi'
    rfl
  rcases resume_cases hresume with ⟨hholds, -⟩ | ⟨-, -, rfl⟩
  · -- what comes after the wake happens with the phase at `REQUESTED`
    have hinside : (s.threads i).holds = true := by
      rw [hi]
      exact hholds
    have hphase := hfits.told hholds (by rw [hok])
    have hmailbox := resume_wf hresume h.wf h.alive fun heq => hfits.admits heq
    refine h.thread s.parkLock hlocked (h.calls.move ?_ ?_ fun hji => ?_) ?_ ?_ hmailbox.1
      hmailbox.2 (fun howner => absurd howner (h.notAcking hinside)) (fun _ => hphase)
      fun _ _ => hphase
    · intro after' wake n' hi'
      rw [hafter hi']
      rfl
    · exact fun heq => absurd heq (hidle.2 _ _ _)
    · exact .inr (h.locked.alone hinside hji)
    · simp [hidle.1]
    · simp [hi]
  · refine h.stay s.parkLock hlocked (h.calls.move ?_ ?_ fun _ => .inl rfl) ?_ ?_
    · intro after' wake n' hi'
      rw [hafter hi']
      rfl
    · exact fun heq => absurd heq (hidle.2 _ _ _)
    · simp [hidle.1]
    · simp [hi]

/-- A drain; the owner goes on to acknowledge only when it leaves the mailbox
empty. -/
theorem drain (h : Inv s) {limit : NonZeroUsize} {shared : Shared T}
    {destination destination' : List T} {report : DrainReport} (howner : s.owner = .inside limit)
    (hdrain : s.shared.drainInto destination limit = .ok (shared, destination', report)) :
    Inv { s with
      shared
      owner := if shared.state.isEmpty then .acking .load report.status
        else .leaving report.status } := by
  have hlocked := h.locked.next (.drained howner hdrain)
  obtain ⟨shared', hdrain', hwf, hlimits, hmeasure, halive, hqueue⟩ :=
    Shared.drainInto_cases h.wf destination limit
  rw [hdrain'] at hdrain
  cases hdrain
  have haway : ∀ i, (s.threads i).holds = false := by
    intro i
    exact h.locked.away (by rw [howner]; rfl)
  have hcalls : Calls shared s.phase s.threads := h.calls.owner h.calls.exclusive haway
  have hrequested : ∀ {lane}, (shared.state.lane lane).queue ≠ [] → s.phase = REQUESTED := by
    intro lane hne
    have hqueued : (s.shared.state.lane lane).queue ≠ [] := fun hempty => hne (by
      rw [hqueue, hempty, List.drop_nil])
    exact h.requested hqueued
  by_cases hempty : shared.state.isEmpty = true
  · rw [if_pos hempty] at hlocked ⊢
    refine ⟨hlocked, hcalls, hwf, halive.trans h.alive, fun heq => ?_, hrequested,
      fun hp => (nomatch hp), fun ha => (nomatch ha), fun hb => (nomatch hb)⟩
    cases heq
    exact ⟨(Mailbox.State.isEmpty_iff _).mp hempty, Mailbox.State.senders_of_idle⟩
  · -- a drain that reports `Idle` has emptied the mailbox, so the owner will not park
    rw [if_neg hempty] at hlocked ⊢
    have hbusy : shared.state.status ≠ .idle := fun hidle =>
      hempty (Mailbox.State.isEmpty_of_idle hidle)
    refine ⟨hlocked, hcalls, hwf, halive.trans h.alive, fun heq => (nomatch heq), hrequested,
      fun hp => ?_, fun ha => ?_, fun hb => (nomatch hb)⟩
    · exact absurd (by simpa [OwnerPc.parking] using hp) hbusy
    · exact absurd (by simpa [OwnerPc.acknowledged, OwnerPc.parking] using ha) hbusy

/-- A step of `acknowledge`. -/
theorem acknowledge (h : Inv s) {pc pc' : AckPc} {status : DrainStatus} {event : Event} {phase : U8}
    (howner : s.owner = .acking pc status) (hnext : pc.next s.phase = some (event, phase, pc')) :
    Inv { s with phase, owner := .acking pc' status } := by
  have hm := h.calls.exclusive.ackMoves hnext
  have hempty := h.drained howner
  have haway : ∀ i, (s.threads i).holds = false := by
    intro i
    exact h.locked.away (by rw [howner]; rfl)
  have htoken := h.token
  rw [howner] at htoken
  refine ⟨h.locked.next (.acknowledge howner hnext),
    h.calls.owner (h.calls.exclusive.acknowledge hm) haway, h.wf, h.alive,
    fun heq => ?_, fun {lane} hqueue => absurd (hempty.1 lane) hqueue, fun hp => (nomatch hp),
    htoken.acknowledge hm, fun hb => (nomatch hb)⟩
  cases heq
  exact hempty

/-- The owner looks at the token, and may take it. -/
theorem inspect (h : Inv s) {elapsed notified : Bool} {pc : OwnerPc}
    (hinspect : s.owner.inspect s.notified elapsed = some (notified, pc)) :
    Inv { s with notified, owner := pc } := by
  obtain ⟨-, -, hparking, hblocked, hacking, htaken⟩ := OwnerPc.inspect_cases hinspect
  have hacked : s.owner.acknowledged = true := by
    cases howner : s.owner with
    | acking pc status =>
      rw [howner] at hparking
      cases hparking
    | _ => rw [howner] at hparking; exact hparking
  refine ⟨h.locked.next (.inspect hinspect), h.calls, h.wf, h.alive,
    fun heq => absurd heq (hacking _ _), h.requested, fun _ hzero => h.closing hparking hzero,
    fun ha hphase => ?_, fun hb => absurd hb (hblocked _)⟩
  rcases htaken with hsame | hgone
  · exact hsame.trans (h.token hacked hphase)
  · -- with the token taken the owner is past the end of its wait
    cases pc with
    | acking a status => exact absurd rfl (hacking a status)
    | _ => exact absurd (hgone.symm.trans ha) (by decide)

theorem next (h : Inv s) (hstep : Step s s') : Inv s' := by
  -- the lock is settled at once; what is left is the token the owner waits for
  have hlocked := h.locked.next hstep
  cases hstep with
  | begin task hi =>
    refine h.stay s.parkLock hlocked (h.calls.move ?_ ?_ fun _ => .inl rfl) ?_ ?_ <;>
      simp [hi, ThreadPc.rung]
  | call hi =>
    refine h.stay s.parkLock hlocked (h.calls.move ?_ ?_ fun _ => .inl rfl) ?_ ?_
    · simp [hi]
    · intro after wake n hpc
      cases hpc
      exact ⟨rfl, .outside rfl (by simp)⟩
    · intro hrung
      cases hrung
    · simp [hi]
  | acquire hi _ =>
    refine h.stay s.parkLock hlocked (h.calls.move ?_ ?_ fun _ => .inl rfl) ?_ ?_ <;>
      simp [hi, ThreadPc.rung]
  | enter hi henter => exact h.enter hi henter
  | wake hi hnext hdone hreturned => exact h.wake hi hnext hdone hreturned
  | lockParker hi _ =>
    refine h.stay _ hlocked (h.calls.notify hi _) (fun hrung => ?_) ?_
    · cases hrung
    · simp [hi]
  | @setToken i after hi =>
    refine ⟨hlocked, h.calls.notify hi _, h.wf, h.alive, h.drained, h.requested, h.closing,
      fun _ _ => rfl, fun _ _ => ⟨i, after, ?_⟩⟩
    exact Function.update_self ..
  | notifyOne hi => exact h.notifyOne hi
  | unlockParker hi =>
    refine h.stay _ hlocked (h.calls.notify hi _) (fun _ => ?_) ?_
    · rw [hi]
      rfl
    · simp [hi]
  | resume hi hresume => exact h.resume hi hresume
  | release hi =>
    refine h.stay s.parkLock hlocked (h.calls.move ?_ ?_ fun _ => .inl rfl) ?_ ?_ <;>
      simp [hi, ThreadPc.rung]
  | drain limit howner =>
    exact h.ownerMove _ _ hlocked (by simp) (fun hp => (nomatch hp)) (fun ha => (nomatch ha))
      (by simp)
  | ownerAcquire howner _ =>
    exact h.ownerMove _ _ hlocked (by simp) (fun hp => (nomatch hp)) (fun ha => (nomatch ha))
      (by simp)
  | drained howner hdrain => exact h.drain howner hdrain
  | acknowledge howner hnext => exact h.acknowledge howner hnext
  | @acknowledged status howner =>
    refine h.ownerMove _ _ hlocked (by simp) (fun hp => .inr ?_) (fun _ => ?_) (by simp)
    · exact (h.drained howner).2 (by simpa [OwnerPc.parking] using hp)
    · rw [howner]
      rfl
  | ownerRelease howner =>
    refine h.ownerMove _ _ hlocked (by simp) (fun hp => .inl ?_) (fun ha => ?_) (by simp)
    · rw [howner]
      simpa [OwnerPc.parking] using hp
    · rw [howner]
      simpa [OwnerPc.acknowledged, OwnerPc.parking] using ha
  | wait maximum howner | ownerLockParker howner _ | awaken howner | relock howner _ =>
    exact h.ownerMove _ _ hlocked (by simp) (fun _ => .inl (by rw [howner]; rfl))
      (fun _ => by rw [howner]; rfl) (by simp)
  | inspect hinspect => exact h.inspect hinspect
  | block howner hnotified =>
    exact h.ownerMove _ _ hlocked (by simp) (fun _ => .inl (by rw [howner]; rfl))
      (fun _ => by rw [howner]; rfl) (fun _ => hnotified)
  | waited howner =>
    exact h.ownerMove _ _ hlocked (by simp) (fun hp => (nomatch hp)) (fun ha => (nomatch ha))
      (by simp)

end Inv

theorem reachable_inv {limits : MailboxLimits} {measure : T → RetainedBytes} {s : State T}
    (h : (system limits measure).Reachable s) : Inv s := by
  refine h.invariant (fun hinit => ?_) fun hs hstep => hs.next hstep
  rw [hinit]
  exact .initial limits measure

/-- **No wake-up is lost.**  In every interleaving a lane that is not empty is
behind a phase of `REQUESTED`; when the owner is blocked and there is no token,
both lanes are empty and a sender is alive; and when the owner is blocked and
there is a token, the signal for it is still to come. -/
theorem no_lost_wake {limits : MailboxLimits} {measure : T → RetainedBytes} {s : State T}
    (h : (system limits measure).Reachable s) :
    (∀ lane, (s.shared.state.lane lane).queue ≠ [] → s.phase = REQUESTED) ∧
    (∀ signalled, s.owner = .blocked signalled → s.notified = false →
      (∀ lane, (s.shared.state.lane lane).queue = []) ∧ s.shared.state.senders ≠ 0) ∧
    (s.owner = .blocked false → s.notified = true →
      ∃ i after, s.threads i = .waking after .backend .signal) := by
  have hinv := reachable_inv h
  refine ⟨fun lane => hinv.requested, fun signalled howner hnotified => ?_, hinv.signalled⟩
  have hquiet : s.phase ≠ REQUESTED := by
    intro hphase
    have htoken := hinv.token (by rw [howner]; rfl) (.inl hphase)
    rw [hnotified] at htoken
    cases htoken
  refine ⟨fun lane => ?_, fun hzero => ?_⟩
  · by_contra hqueue
    exact hquiet (hinv.requested hqueue)
  · exact hquiet (hinv.closing (by rw [howner]; rfl) hzero)

/-! ### A run -/

section Run

open Relation (ReflTransGen)

def smallSystem : TransitionSystem (State U64) Unit := system Mailbox.smallLimits id

/-- A small mailbox with so many senders, and with this in its lane of work. -/
def stocked (queue : List (Mailbox.Entry U64)) (retained : RetainedBytes) (senders : U64) :
    Shared U64 :=
  ⟨Mailbox.smallLimits, ⟨.new, ⟨queue, retained⟩, true, senders⟩, .new, id⟩

/-- The owner, and one thread that may not be idle. -/
def lone (shared : Shared U64) (lock : Option Holder) (phase : U8) (notified : Bool)
    (parkLock : Option Holder) (thread : ThreadPc U64) (owner : OwnerPc) : State U64 :=
  ⟨shared, lock, phase, notified, parkLock, Function.update (fun _ => .idle) 0 thread, owner⟩

variable {s₀ s : State U64} {shared : Shared U64} {lock parkLock : Option Holder} {phase : U8}
  {notified : Bool} {thread thread' : ThreadPc U64} {owner : OwnerPc}

theorem lone_thread :
    (lone shared lock phase notified parkLock thread owner).threads 0 = thread := by
  show Function.update (fun _ => ThreadPc.idle) 0 thread 0 = thread
  exact Function.update_self ..

theorem lone_move : (lone shared lock phase notified parkLock thread owner).move 0 thread'
    = lone shared lock phase notified parkLock thread' owner := by
  rw [State.move, lone, Function.update_idem]
  rfl

theorem lone_next (h : ReflTransGen Step s₀ s)
    (hstep : Step s ((lone shared lock phase notified parkLock thread owner).move 0 thread')) :
    ReflTransGen Step s₀ (lone shared lock phase notified parkLock thread' owner) :=
  h.tail (lone_move ▸ hstep)

/-- A task up to its critical section. -/
theorem lone_acquires
    (h : ReflTransGen Step s₀ (lone shared none phase notified parkLock .idle owner))
    (task : Task U64) :
    ReflTransGen Step s₀
      (lone shared (some (.thread 0)) phase notified parkLock (.inside task) owner) :=
  lone_next (lone_next h (.begin task lone_thread)) (.acquire lone_thread rfl)

/-- The rest of a critical section that does not wake. -/
theorem lone_leaves {task : Task U64} {shared' : Shared U64}
    (h : ReflTransGen Step s₀ (lone shared lock phase notified parkLock (.inside task) owner))
    (henter : task.enter shared = (shared', .leaving)) :
    ReflTransGen Step s₀ (lone shared' none phase notified parkLock .idle owner) :=
  lone_next (lone_next h (.enter lone_thread henter)) (.release lone_thread)

theorem lone_wakes {after : After U64} {pc pc' : WakePc} {n : NotifyPc} {event : Event}
    {phase' : U8}
    (h : ReflTransGen Step s₀ (lone shared lock phase notified parkLock (.waking after pc n) owner))
    (hnext : pc.next phase true = some (event, phase', pc')) (hdone : pc = .backend → n = .done)
    (hreturned : pc' ≠ .returned) :
    ReflTransGen Step s₀
      (lone shared lock phase' notified parkLock (.waking after pc' .lock) owner) :=
  lone_next h (.wake lone_thread hnext hdone hreturned)

/-- A call of `wake` up to the signal. -/
theorem lone_sets {after : After U64} (h : ReflTransGen Step s₀
      (lone shared lock IDLE notified none (.waking after (.load 0) .lock) owner)) :
    ReflTransGen Step s₀
      (lone shared lock WAKING true (some (.thread 0)) (.waking after .backend .signal) owner) := by
  have hload : (WakePc.load 0).next IDLE true = some (.load IDLE, IDLE, .claim 0) := rfl
  have hclaim : (WakePc.claim 0).next IDLE true
      = some (.compareExchange IDLE WAKING IDLE, WAKING, .start) := rfl
  have hstart : WakePc.start.next WAKING true = some (.start, WAKING, .backend) := rfl
  have hclaimed := lone_wakes (lone_wakes h hload nofun nofun) hclaim nofun nofun
  have hbackend := lone_wakes hclaimed hstart nofun nofun
  exact lone_next (lone_next hbackend (.lockParker lone_thread rfl)) (.setToken lone_thread)

/-- A call of `wake` up to its return. -/
theorem lone_rings {after : After U64} (h : ReflTransGen Step s₀
      (lone shared lock IDLE notified none (.waking after (.load 0) .lock) owner)) :
    ReflTransGen Step s₀ (lone shared lock REQUESTED true none
      (.waking after (.returning true) .lock) owner.signal) := by
  have hfinish : WakePc.backend.next WAKING true = some (.finish true, WAKING, .publish) := rfl
  have hpublish : WakePc.publish.next WAKING true
      = some (.compareExchange WAKING REQUESTED WAKING, REQUESTED, .returning true) := rfl
  have hsignalled := lone_next (lone_sets h) (.notifyOne lone_thread)
  have hdone := lone_next hsignalled (.unlockParker lone_thread)
  exact lone_wakes (lone_wakes hdone hfinish (fun _ => rfl) nofun) hpublish nofun nofun

/-- A drain that leaves nothing behind. -/
theorem lone_drains {shared' : Shared U64} {status : Option DrainStatus} {limit : NonZeroUsize}
    {destination : List U64} {report : DrainReport}
    (h : ReflTransGen Step s₀ (lone shared none phase notified parkLock thread (.ready status)))
    (hphase : phase = IDLE ∨ phase = REQUESTED)
    (hdrain : shared.drainInto [] limit = .ok (shared', destination, report))
    (hempty : shared'.state.isEmpty = true) :
    ReflTransGen Step s₀
      (lone shared' none IDLE notified parkLock thread (.ready (some report.status))) := by
  have hinside : ReflTransGen Step s₀
      (lone shared (some .owner) phase notified parkLock thread (.inside limit)) :=
    (h.tail (.drain limit rfl)).tail (.ownerAcquire rfl rfl)
  have hacking : ReflTransGen Step s₀
      (lone shared' (some .owner) phase notified parkLock thread (.acking .load report.status)) := by
    have hdrained := hinside.tail (.drained rfl hdrain)
    rw [if_pos hempty] at hdrained
    exact hdrained
  have hcleared : ReflTransGen Step s₀
      (lone shared' (some .owner) IDLE notified parkLock thread
        (.acking .returning report.status)) := by
    obtain rfl | rfl := hphase
    · exact hacking.tail (.acknowledge rfl rfl)
    · exact (hacking.tail (.acknowledge rfl rfl)).tail (.acknowledge rfl rfl)
  have hreturned : ReflTransGen Step s₀
      (lone shared' (some .owner) IDLE notified parkLock thread
        (.acking .returned report.status)) :=
    hcleared.tail (.acknowledge rfl rfl)
  exact (hreturned.tail (.acknowledged rfl)).tail (.ownerRelease rfl)

/-- A wait that begins after a drain has reported `Idle`, up to its first look at the token. -/
theorem lone_checks (h : ReflTransGen Step s₀
      (lone shared lock phase notified none thread (.ready (some .idle)))) :
    ReflTransGen Step s₀
      (lone shared lock phase notified (some .owner) thread (.checking 5)) :=
  (h.tail (.wait 5 rfl)).tail (.ownerLockParker rfl rfl)

/-- A thread clones its sender, and sends; it still holds the lock of the mailbox. -/
theorem lone_sends
    (h : ReflTransGen Step s₀ (lone (stocked [] 0 1) none IDLE false none .idle (.ready none))) :
    ReflTransGen Step s₀ (lone (stocked [⟨4, 4⟩] 4 2) (some (.thread 0)) REQUESTED true none
      .leaving (.ready none)) := by
  have hclone : (Task.clone : Task U64).enter (stocked [] 0 1) = (stocked [] 0 2, .leaving) := rfl
  have hadmits : (Task.send .work 4 4 : Task U64).enter (stocked [] 0 2)
      = (stocked [] 0 2, .waking (.publish .work 4 4 4) (.load 0) .lock) := rfl
  have hpublish : (After.publish .work 4 4 4 : After U64).resume (stocked [] 0 2) true
      = (stocked [⟨4, 4⟩] 4 2, .leaving) := rfl
  have hcloned := lone_leaves (lone_acquires h .clone) hclone
  have hinside := lone_acquires hcloned (.send .work 4 4)
  have hrung := lone_rings (lone_next hinside (.enter lone_thread hadmits))
  exact lone_next hrung (.resume lone_thread hpublish)

/-- The owner drains what was sent, and its wait takes the token. -/
theorem lone_takes (h : ReflTransGen Step s₀ (lone (stocked [⟨4, 4⟩] 4 2) (some (.thread 0))
      REQUESTED true none .leaving (.ready none))) :
    ReflTransGen Step s₀ (lone (stocked [] 0 2) none IDLE false none .idle (.ready none)) := by
  have hdrain : (stocked [⟨4, 4⟩] 4 2).drainInto [] ⟨2, U64.two_ne_zero⟩
      = .ok (stocked [] 0 2, [4], ⟨1, .idle⟩) := rfl
  have hinspect : (OwnerPc.checking 5).inspect true false = some (false, .returning .notified) :=
    rfl
  have hreleased := lone_next h (.release lone_thread)
  have hchecking := lone_checks (lone_drains hreleased (.inr rfl) hdrain rfl)
  exact (hchecking.tail (.inspect hinspect)).tail (.waited rfl)

/-- The thread drops its clone; the owner drains once more, finds nothing, and parks. -/
theorem lone_parks
    (h : ReflTransGen Step s₀ (lone (stocked [] 0 2) none IDLE false none .idle (.ready none))) :
    ReflTransGen Step s₀ (lone (stocked [] 0 1) none IDLE false none .idle (.blocked false)) := by
  have hdrop : (Task.drop : Task U64).enter (stocked [] 0 2) = (stocked [] 0 1, .leaving) := rfl
  have hdrain : (stocked [] 0 1).drainInto [] ⟨2, U64.two_ne_zero⟩
      = .ok (stocked [] 0 1, [], ⟨0, .idle⟩) := rfl
  have hinspect : (OwnerPc.checking 5).inspect false false = some (false, .looping) := rfl
  have hdropped := lone_leaves (lone_acquires h .drop) hdrop
  have hchecking := lone_checks (lone_drains hdropped (.inl rfl) hdrain rfl)
  exact (hchecking.tail (.inspect hinspect)).tail (.block rfl rfl)

/-- A call of `wake` on a clone of the handle sets the token. -/
theorem lone_calls
    (h : ReflTransGen Step s₀ (lone shared none IDLE false none .idle owner)) :
    ReflTransGen Step s₀ (lone shared none WAKING true (some (.thread 0))
      (.waking .nothing .backend .signal) owner) :=
  lone_sets (lone_next h (.call lone_thread))

theorem small_reachable (h : smallSystem.Reachable s₀) (hrun : ReflTransGen Step s₀ s) :
    smallSystem.Reachable s := by
  induction hrun with
  | refl => exact h
  | tail _ hstep ih => exact ih.next (l := ()) hstep

/-- One run: a value is sent and taken, the owner parks, and a wake is about to signal it. -/
theorem no_lost_wake_parked : ∃ sent parked woken : State U64,
    smallSystem.Reachable sent ∧ ReflTransGen Step sent parked ∧ ReflTransGen Step parked woken ∧
    ((sent.shared.state.lane .work).queue = [⟨4, 4⟩] ∧ sent.phase = REQUESTED) ∧
    (parked.owner = .blocked false ∧ parked.notified = false ∧
      (∀ lane, (parked.shared.state.lane lane).queue = []) ∧ parked.shared.state.senders ≠ 0) ∧
    (woken.owner = .blocked false ∧ woken.notified = true ∧
      ∃ i after, woken.threads i = .waking after .backend .signal) := by
  have hnew : smallSystem.Reachable
      (lone (stocked [] 0 1) none IDLE false none .idle (.ready none)) := by
    refine ⟨[], .start ?_⟩
    show lone _ _ _ _ _ _ _ = _
    rw [lone, Function.update_eq_self]
    rfl
  have hparks := lone_parks (lone_takes .refl)
  have hsent := small_reachable hnew (lone_sends .refl)
  have hparked := small_reachable hsent hparks
  have hwoken := small_reachable hparked (lone_calls .refl)
  have hrequested := (no_lost_wake hsent).1 .work (List.cons_ne_nil _ _)
  exact ⟨_, _, _, hsent, hparks, lone_calls .refl, ⟨rfl, hrequested⟩,
    ⟨rfl, rfl, (no_lost_wake hparked).2.1 false rfl rfl⟩,
    ⟨rfl, rfl, (no_lost_wake hwoken).2.2 rfl rfl⟩⟩

end Run

end Parking

end Calandria
