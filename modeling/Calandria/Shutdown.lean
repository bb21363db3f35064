/-
The shutdown barrier: one request, many observers, one terminal owner.

A call of `subscribe` is known by its number, and so are its completer and its
completion.  A step is a critical section of the barrier, the start or the end
of a request callback, a broadcast, a return, or a critical section of one
completion; `wait` on the barrier's condition variable gives the lock back with
the section in which it is called.

* `State` — the phase and the retained completers, with the sections on them;
* `CallPc`, `OwnerPc` — where a call and the unique `ShutdownCompleter` are;
* `Inv` — one attempt at a time, and it is the one that the phase waits for;
* `request_safety` — what this says of every interleaving.
-/
import Calandria.Completion
import Calandria.Time

namespace Calandria

/-- Why a shutdown observer could not be admitted; `E` is the request's error. -/
inductive ShutdownSubscribeError (E : Type)
  | full
  | closed
  | request (error : E)
  deriving DecidableEq

namespace Shutdown

/-- The internal panic sites of the barrier. -/
inductive Panic
  /-- "shutdown completer ownership invariant violated" -/
  | completerOwnership
  /-- "shutdown request ownership invariant violated" -/
  | requestOwnership
  /-- "shutdown request-success invariant violated" -/
  | requestSuccess
  /-- "shutdown request-failure invariant violated" -/
  | requestFailure
  deriving DecidableEq

inductive Phase
  | open
  | requesting
  | requested
  | completed
  | closed
  deriving DecidableEq

def Phase.terminal : Phase → Bool
  | .completed | .closed => true
  | .open | .requesting | .requested => false

/-- The two phases that `settle` is called with. -/
inductive Terminal
  | completed
  | closed
  deriving DecidableEq

def Terminal.phase : Terminal → Phase
  | .completed => .completed
  | .closed => .closed

@[simp] theorem Terminal.phase_terminal (t : Terminal) : t.phase.terminal = true := by
  cases t <;> rfl

/-! ### The critical sections -/

/-- What the barrier's lock protects; a completer is the number of its call. -/
structure State where
  phase : Phase
  subscribers : List ℕ
  deriving DecidableEq

namespace State

def new : State := ⟨.open, []⟩

/-- `RequestSuccess`; the completer stays with its call unless it is admitted. -/
inductive RequestSuccess
  | admitted
  | completed
  | closed
  deriving DecidableEq

inductive RequestFailure
  | reopened
  | completed
  | closed
  deriving DecidableEq

def finishRequestSuccess (state : State) (completer : ℕ) :
    Except Panic (State × RequestSuccess) :=
  match state.phase with
  | .requesting => .ok (⟨.requested, state.subscribers ++ [completer]⟩, .admitted)
  | .completed => .ok (state, .completed)
  | .closed => .ok (state, .closed)
  | .open | .requested => .error .requestSuccess

def finishRequestFailure (state : State) : Except Panic (State × RequestFailure) :=
  match state.phase with
  | .requesting => .ok ({ state with phase := .open }, .reopened)
  | .completed => .ok (state, .completed)
  | .closed => .ok (state, .closed)
  | .open | .requested => .error .requestFailure

/-- `abort_request`, and whether it has to notify. -/
def abortRequest (state : State) : State × Bool :=
  if state.phase = .requesting then ({ state with phase := .open }, true) else (state, false)

/-- The subscribers that were retained; `none` if there is nothing to settle and
nobody to notify. -/
def settle (state : State) (terminal : Terminal) : State × Option (List ℕ) :=
  if state.phase.terminal then (state, none)
  else (⟨terminal.phase, []⟩, some state.subscribers)

end State

/-! ### The calls of `subscribe` -/

/-- What a call still owns: its request callback and its completer. -/
structure Slots where
  request : Bool
  completer : Bool
  deriving DecidableEq

/-- What a call does once it is done with the barrier. -/
inductive After (E : Type)
  /-- Returns; with an error it drops its completer and its completion. -/
  | return (result : Except (ShutdownSubscribeError E) Unit)
  /-- Completes its own completer, to return the completion. -/
  | complete
  /-- Drops both and goes on to unwind. -/
  | unwind

/-- Where a call is. -/
inductive CallPc (E : Type)
  /-- At the head of its loop. -/
  | entering (slots : Slots)
  | blocked (slots : Slots)
  /-- Has claimed the attempt, and is about to run the request. -/
  | starting
  | running
  | finished (result : Except E Unit)
  /-- The request panicked; `RequestAttempt` is about to be dropped. -/
  | aborting
  | notifying (after : After E)
  | doing (after : After E)
  /-- Has returned its completion, and the caller holds it. -/
  | observing
  /-- The caller has dropped the completion. -/
  | abandoned
  /-- Has returned an error. -/
  | refused
  | unwound
  | panicked (panic : Panic)

variable {E W : Type}

/-- One turn of the loop of `subscribe`. -/
def State.look (state : State) (capacity : NonZeroUsize) (call : ℕ) (slots : Slots) :
    State × CallPc E :=
  match state.phase with
  | .open =>
    ({ state with phase := .requesting },
      if !slots.request then .panicked .requestOwnership
      else if !slots.completer then .panicked .completerOwnership
      else .starting)
  | .requesting => (state, .blocked slots)
  | .requested =>
    if capacity.get.val ≤ state.subscribers.length then (state, .doing (.return (.error .full)))
    else if !slots.completer then (state, .panicked .completerOwnership)
    else ({ state with subscribers := state.subscribers ++ [call] }, .doing (.return (.ok ())))
  | .completed =>
    if !slots.completer then (state, .panicked .completerOwnership) else (state, .doing .complete)
  | .closed => (state, .doing (.return (.error .closed)))

/-- The critical section of `finish_success` or `finish_failure`. -/
def State.finish (state : State) (call : ℕ) : Except E Unit → State × CallPc E
  | .ok () =>
    match state.finishRequestSuccess call with
    | .ok (state, .admitted) => (state, .notifying (.return (.ok ())))
    | .ok (state, .completed) => (state, .notifying .complete)
    | .ok (state, .closed) => (state, .notifying (.return (.error .closed)))
    | .error panic => (state, .panicked panic)
  | .error error =>
    match state.finishRequestFailure with
    | .ok (state, .reopened) => (state, .notifying (.return (.error (.request error))))
    | .ok (state, .completed) => (state, .notifying .complete)
    | .ok (state, .closed) => (state, .notifying (.return (.error .closed)))
    | .error panic => (state, .panicked panic)

/-- The critical section of `RequestAttempt`'s drop. -/
def State.abort (state : State) : State × CallPc E :=
  if state.abortRequest.2 then (state.abortRequest.1, .notifying .unwind)
  else (state.abortRequest.1, .doing .unwind)

/-! ### The terminal owner -/

/-- Where the `ShutdownCompleter` is; `last` says that the operation consumes it. -/
inductive OwnerPc
  | holding (settled : Bool)
  | settling (terminal : Terminal) (last : Bool)
  | notifying (terminal : Terminal) (last : Bool) (subscribers : List ℕ)
  | delivering (terminal : Terminal) (last : Bool) (subscribers : List ℕ)
  | gone
  deriving DecidableEq

/-- After an operation; `complete` has set the flag before it settled. -/
def OwnerPc.after (last : Bool) : OwnerPc := if last then .gone else .holding true

/-- What a completer of the retained ones does to its completion.  It wakes the task that is
registered there; a waker that unwinds out of its `wake` is not modelled. -/
def Terminal.deliver (terminal : Terminal) (cell : Completion.State Unit W) :
    Completion.State Unit W × Except CompletionError Unit :=
  match terminal with
  | .completed => ((cell.complete ()).1, .ok ())
  | .closed => (cell.closeProducer.1, .error .closed)

/-! ### Interleavings -/

structure Barrier (E W : Type) where
  state : State
  calls : ℕ → Option (CallPc E)
  owner : OwnerPc
  /-- The completion of each call. -/
  cells : ℕ → Completion.State Unit W

/-- What a step of a call shows. -/
inductive CallEvent (E : Type)
  | subscribe
  /-- A turn of the loop, and the phase it read; of `Open` it makes a claim. -/
  | look (phase : Phase)
  | awaken
  | start
  | finish (result : Except E Unit)
  | panic
  /-- The critical section after the callback. -/
  | publish (phase : Phase) (result : Except E Unit)
  | abort (phase : Phase)
  | notify
  | complete
  | returned (result : Except (ShutdownSubscribeError E) Unit)
  | unwind

inductive OwnerEvent
  | complete
  | close
  | drop
  | settle
  | notify
  | deliver (call : ℕ) (result : Except CompletionError Unit)
  | finish

inductive Label (E : Type)
  | call (call : ℕ) (event : CallEvent E)
  | owner (event : OwnerEvent)
  /-- An extraction by the caller that holds the completion. -/
  | extract (call : ℕ) (result : Option (Except CompletionError Unit))
  | abandon (call : ℕ)

namespace Barrier

def move (s : Barrier E W) (i : ℕ) (pc : CallPc E) : Barrier E W :=
  { s with calls := Function.update s.calls i (some pc) }

def setCell (s : Barrier E W) (i : ℕ) (cell : Completion.State Unit W) : Barrier E W :=
  { s with cells := Function.update s.cells i cell }

/-- A completer and its completion are dropped. -/
def dropCell (s : Barrier E W) (i : ℕ) : Barrier E W :=
  s.setCell i (s.cells i).closeProducer.1.abandonObserver.1

/-- `notify_all`. -/
def notifyAll (s : Barrier E W) : Barrier E W :=
  { s with
    calls := fun i =>
      match s.calls i with
      | some (.blocked slots) => some (.entering slots)
      | pc => pc }

end Barrier

/-- One step of a call, of the owner, or of the holder of a completion. -/
inductive Step (capacity : NonZeroUsize) (willWake : W → W → Bool) (s : Barrier E W) :
    Label E → Barrier E W → Prop
  | subscribe {i} : s.calls i = none →
      Step capacity willWake s (.call i .subscribe)
        ((s.setCell i .new).move i (.entering ⟨true, true⟩))
  | look {i slots state pc} : s.calls i = some (.entering slots) →
      s.state.look capacity i slots = (state, pc) →
      Step capacity willWake s (.call i (.look s.state.phase)) ({ s with state }.move i pc)
  /-- A spurious return of the condition variable. -/
  | awaken {i slots} : s.calls i = some (.blocked slots) →
      Step capacity willWake s (.call i .awaken) (s.move i (.entering slots))
  | start {i} : s.calls i = some .starting →
      Step capacity willWake s (.call i .start) (s.move i .running)
  | finish {i} (result : Except E Unit) : s.calls i = some .running →
      Step capacity willWake s (.call i (.finish result)) (s.move i (.finished result))
  | panic {i} : s.calls i = some .running →
      Step capacity willWake s (.call i .panic) (s.move i .aborting)
  | publish {i result state pc} : s.calls i = some (.finished result) →
      s.state.finish i result = (state, pc) →
      Step capacity willWake s (.call i (.publish s.state.phase result)) ({ s with state }.move i pc)
  | abort {i state pc} : s.calls i = some .aborting → s.state.abort = (state, pc) →
      Step capacity willWake s (.call i (.abort s.state.phase)) ({ s with state }.move i pc)
  | notify {i after} : s.calls i = some (.notifying after) →
      Step capacity willWake s (.call i .notify) (s.notifyAll.move i (.doing after))
  | complete {i} : s.calls i = some (.doing .complete) →
      Step capacity willWake s (.call i .complete)
        ((s.setCell i ((s.cells i).complete ()).1).move i (.doing (.return (.ok ()))))
  | returned {i} : s.calls i = some (.doing (.return (.ok ()))) →
      Step capacity willWake s (.call i (.returned (.ok ()))) (s.move i .observing)
  | refused {i error} : s.calls i = some (.doing (.return (.error error))) →
      Step capacity willWake s (.call i (.returned (.error error))) ((s.dropCell i).move i .refused)
  | unwind {i} : s.calls i = some (.doing .unwind) →
      Step capacity willWake s (.call i .unwind) ((s.dropCell i).move i .unwound)
  | ownerComplete : s.owner = .holding false →
      Step capacity willWake s (.owner .complete) { s with owner := .settling .completed false }
  /-- A repeated `complete` does nothing. -/
  | ownerRepeat : s.owner = .holding true → Step capacity willWake s (.owner .complete) s
  | ownerClose {settled} : s.owner = .holding settled →
      Step capacity willWake s (.owner .close) { s with owner := .settling .closed true }
  | ownerDrop {settled} : s.owner = .holding settled →
      Step capacity willWake s (.owner .drop)
        { s with owner := if settled then .gone else .settling .closed true }
  | ownerSettle {terminal last state subscribers} : s.owner = .settling terminal last →
      s.state.settle terminal = (state, subscribers) →
      Step capacity willWake s (.owner .settle) { s with
        state
        owner := match subscribers with
          | some subscribers => .notifying terminal last subscribers
          | none => .after last }
  | ownerNotify {terminal last subscribers} : s.owner = .notifying terminal last subscribers →
      Step capacity willWake s (.owner .notify)
        { s.notifyAll with owner := .delivering terminal last subscribers }
  | ownerDeliver {terminal last i subscribers cell result} :
      s.owner = .delivering terminal last (i :: subscribers) →
      (terminal : Terminal).deliver (s.cells i) = (cell, result) →
      Step capacity willWake s (.owner (.deliver i result))
        { s.setCell i cell with owner := .delivering terminal last subscribers }
  | ownerFinish {terminal last} : s.owner = .delivering terminal last [] →
      Step capacity willWake s (.owner .finish) { s with owner := .after last }
  /-- `try_take`, or `wait` once the completion is not pending. -/
  | tryTake {i cell result} : s.calls i = some .observing →
      (s.cells i).tryTake = .ok (cell, result) →
      Step capacity willWake s (.extract i result) (s.setCell i cell)
  | poll {i context cell result} : s.calls i = some .observing →
      (s.cells i).poll willWake context = .ok (cell, result) →
      Step capacity willWake s (.extract i result) (s.setCell i cell)
  | abandon {i} : s.calls i = some .observing →
      Step capacity willWake s (.abandon i)
        ((s.setCell i (s.cells i).abandonObserver.1).move i .abandoned)

/-- A new barrier. -/
def system (E : Type) (capacity : NonZeroUsize) (willWake : W → W → Bool) :
    TransitionSystem (Barrier E W) (Label E) where
  init s := s = ⟨.new, fun _ => none, .holding false, fun _ => .new⟩
  step := Step capacity willWake

/-! ### What the critical sections do -/

/-- A turn of the loop of a call that still owns what it was given. -/
inductive State.Looks (state : State) (capacity : NonZeroUsize) (call : ℕ) :
    State → CallPc E → Prop
  | claim : state.phase = .open →
      Looks state capacity call ⟨.requesting, state.subscribers⟩ .starting
  | follow : state.phase = .requesting →
      Looks state capacity call state (.blocked ⟨true, true⟩)
  | full : state.phase = .requested → capacity.get.val ≤ state.subscribers.length →
      Looks state capacity call state (.doing (.return (.error .full)))
  | join : state.phase = .requested → state.subscribers.length < capacity.get.val →
      Looks state capacity call ⟨.requested, state.subscribers ++ [call]⟩
        (.doing (.return (.ok ())))
  | completed : state.phase = .completed → Looks state capacity call state (.doing .complete)
  | closed : state.phase = .closed →
      Looks state capacity call state (.doing (.return (.error .closed)))

theorem State.look_looks {state state' : State} {capacity : NonZeroUsize} {call : ℕ}
    {pc : CallPc E} (h : state.look capacity call ⟨true, true⟩ = (state', pc)) :
    state.Looks capacity call state' pc := by
  obtain ⟨phase, subscribers⟩ := state
  cases phase with
  | «open» =>
    cases h
    exact .claim rfl
  | requesting =>
    cases h
    exact .follow rfl
  | requested =>
    by_cases hfull : capacity.get.val ≤ subscribers.length
    · simp only [State.look, if_pos hfull] at h
      cases h
      exact .full rfl hfull
    · simp only [State.look, if_neg hfull] at h
      cases h
      exact .join rfl (not_le.mp hfull)
  | completed =>
    cases h
    exact .completed rfl
  | closed =>
    cases h
    exact .closed rfl

/-- The critical section after a callback, where the phase is still that of the
attempt, or terminal. -/
inductive State.Finishes (state : State) (call : ℕ) :
    Except E Unit → State → CallPc E → Prop
  | succeeded : state.phase = .requesting →
      Finishes state call (.ok ()) ⟨.requested, state.subscribers ++ [call]⟩
        (.notifying (.return (.ok ())))
  | failed {error} : state.phase = .requesting →
      Finishes state call (.error error) ⟨.open, state.subscribers⟩
        (.notifying (.return (.error (.request error))))
  | completed {result} : state.phase = .completed →
      Finishes state call result state (.notifying .complete)
  | closed {result} : state.phase = .closed →
      Finishes state call result state (.notifying (.return (.error .closed)))

theorem State.finish_finishes {state state' : State} {call : ℕ} {result : Except E Unit}
    {pc : CallPc E} (h : state.finish call result = (state', pc))
    (hphase : state.phase = .requesting ∨ state.phase.terminal = true) :
    state.Finishes call result state' pc := by
  obtain ⟨phase, subscribers⟩ := state
  cases phase with
  | «open» | requested => rcases hphase with hphase | hphase <;> cases hphase
  | requesting =>
    cases result <;> cases h
    · exact .failed rfl
    · exact .succeeded rfl
  | completed =>
    cases result <;> cases h <;> exact .completed rfl
  | closed =>
    cases result <;> cases h <;> exact .closed rfl

theorem State.abort_cases {state state' : State} {pc : CallPc E}
    (h : state.abort = (state', pc)) :
    (state.phase = .requesting ∧ state' = ⟨.open, state.subscribers⟩ ∧
      pc = .notifying .unwind) ∨
    (state.phase ≠ .requesting ∧ state' = state ∧ pc = .doing .unwind) := by
  by_cases hphase : state.phase = .requesting
  · rw [State.abort, State.abortRequest, if_pos hphase] at h
    cases h
    exact .inl ⟨hphase, rfl, rfl⟩
  · rw [State.abort, State.abortRequest, if_neg hphase] at h
    cases h
    exact .inr ⟨hphase, rfl, rfl⟩

theorem State.settle_cases {state state' : State} {terminal : Terminal}
    {subscribers : Option (List ℕ)} (h : state.settle terminal = (state', subscribers)) :
    (state.phase.terminal = true ∧ state' = state ∧ subscribers = none) ∨
    (state.phase.terminal = false ∧ state' = ⟨terminal.phase, []⟩ ∧
      subscribers = some state.subscribers) := by
  rw [State.settle] at h
  split_ifs at h with hphase
  · cases h
    exact .inl ⟨hphase, rfl, rfl⟩
  · cases h
    exact .inr ⟨by simpa using hphase, rfl, rfl⟩

theorem Barrier.notifyAll_eq_some {s : Barrier E W} {i : ℕ} {pc : CallPc E}
    (h : s.notifyAll.calls i = some pc) :
    s.calls i = some pc ∨ ∃ slots, s.calls i = some (.blocked slots) ∧ pc = .entering slots := by
  simp only [notifyAll] at h
  split at h
  next slots hblocked =>
    cases h
    exact .inr ⟨slots, hblocked, rfl⟩
  next => exact .inl h

theorem Barrier.notifyAll_ne_blocked {s : Barrier E W} {i : ℕ} {slots : Slots} :
    s.notifyAll.calls i ≠ some (.blocked slots) := by
  intro h
  simp only [notifyAll] at h
  split at h
  next => cases h
  next hblocked => exact hblocked slots h

/-! ### The invariant -/

/-- The call has claimed the attempt, and has not settled it with the barrier. -/
def CallPc.attempting : CallPc E → Bool
  | .starting | .running | .finished _ | .aborting => true
  | _ => false

/-- No panic, and in the loop the call still owns what it was given; an attempt
does not end with `Full`. -/
def CallPc.Sound : CallPc E → Prop
  | .entering slots | .blocked slots => slots = ⟨true, true⟩
  | .panicked _ | .notifying (.return (.error .full)) => False
  | _ => True

/-- One call at most attempts the request, and while one does, the phase waits
for it or is terminal. -/
structure Calls (phase : Phase) (calls : ℕ → Option (CallPc E)) : Prop where
  sound : ∀ {i pc}, calls i = some pc → pc.Sound
  attempt : ∀ {i pc}, calls i = some pc → pc.attempting = true →
    phase = .requesting ∨ phase.terminal = true
  unique : ∀ {i j pc pd}, calls i = some pc → calls j = some pd → pc.attempting = true →
    pd.attempting = true → i = j

namespace Calls

variable {phase phase' : Phase} {calls : ℕ → Option (CallPc E)} {i : ℕ} {pc pc' : CallPc E}

/-- A call moves on; if it attempts the request then, it did before. -/
theorem move (h : Calls phase calls) (hi : ∀ {pc}, calls i = some pc → pc'.attempting = true →
    pc.attempting = true) (hnone : calls i = none → pc'.attempting = false) (hsound : pc'.Sound) :
    Calls phase (Function.update calls i (some pc')) := by
  have hback : ∀ {j pd}, Function.update calls i (some pc') j = some pd → pd.attempting = true →
      ∃ pd', calls j = some pd' ∧ pd'.attempting = true := by
    intro j pd hj hattempting
    rcases update_eq_some.mp hj with ⟨hji, hpd⟩ | ⟨-, hpd⟩
    · subst hji
      cases hpd
      cases hcall : calls j with
      | none => simp [hnone hcall] at hattempting
      | some pd' => exact ⟨pd', rfl, hi hcall hattempting⟩
    · exact ⟨pd, hpd, hattempting⟩
  refine ⟨fun hj => ?_, fun hj hattempting => ?_, fun hj hk hja hka => ?_⟩
  · rcases update_eq_some.mp hj with ⟨-, hpd⟩ | ⟨-, hpd⟩
    · cases hpd
      exact hsound
    · exact h.sound hpd
  · obtain ⟨pd', hpd', hattempting'⟩ := hback hj hattempting
    exact h.attempt hpd' hattempting'
  · obtain ⟨pd', hpd', hattempting'⟩ := hback hj hja
    obtain ⟨pe', hpe', hattempting''⟩ := hback hk hka
    exact h.unique hpd' hpe' hattempting' hattempting''

/-- An open barrier is claimed. -/
theorem claim (h : Calls .open calls) :
    Calls .requesting (Function.update calls i (some .starting)) := by
  have hnone : ∀ {j pd}, calls j = some pd → pd.attempting = false := by
    intro j pd hj
    by_contra hattempting
    rcases h.attempt hj (by simpa using hattempting) with hphase | hphase <;> cases hphase
  have howner : ∀ {j pd}, Function.update calls i (some .starting) j = some pd →
      pd.attempting = true → j = i := by
    intro j pd hj hattempting
    rcases update_eq_some.mp hj with ⟨hji, -⟩ | ⟨-, hj⟩
    · exact hji
    · simp [hnone hj] at hattempting
  refine ⟨fun hj => ?_, fun _ _ => .inl rfl,
    fun hj hk hja hka => (howner hj hja).trans (howner hk hka).symm⟩
  rcases update_eq_some.mp hj with ⟨-, hj⟩ | ⟨-, hj⟩
  · cases hj
    trivial
  · exact h.sound hj

/-- The attempt is settled with the barrier. -/
theorem settle (h : Calls phase calls) (hi : calls i = some pc) (hattempting : pc.attempting = true)
    (hpc' : pc'.attempting = false) (hsound : pc'.Sound) :
    Calls phase' (Function.update calls i (some pc')) := by
  have hnone : ∀ {j pd}, Function.update calls i (some pc') j = some pd →
      pd.attempting = false := by
    intro j pd hj
    rcases update_eq_some.mp hj with ⟨-, hj⟩ | ⟨hji, hj⟩
    · cases hj
      exact hpc'
    · by_contra hother
      exact hji (h.unique hj hi (by simpa using hother) hattempting)
  refine ⟨fun hj => ?_, fun hj hja => ?_, fun hj _ hja _ => ?_⟩
  · rcases update_eq_some.mp hj with ⟨-, hj⟩ | ⟨-, hj⟩
    · cases hj
      exact hsound
    · exact h.sound hj
  · simp [hnone hj] at hja
  · simp [hnone hj] at hja

/-- The phase becomes terminal. -/
theorem terminal (h : Calls phase calls) (hphase : phase'.terminal = true) : Calls phase' calls :=
  ⟨h.sound, fun _ _ => .inr hphase, h.unique⟩

theorem notifyAll {s : Barrier E W} (h : Calls phase s.calls) : Calls phase s.notifyAll.calls := by
  have hback : ∀ {j pd}, s.notifyAll.calls j = some pd → pd.attempting = true →
      s.calls j = some pd := by
    intro j pd hj hattempting
    rcases Barrier.notifyAll_eq_some hj with hj | ⟨slots, -, rfl⟩
    · exact hj
    · cases hattempting
  refine ⟨fun hj => ?_, fun hj hja => h.attempt (hback hj hja) hja,
    fun hj hk hja hka => h.unique (hback hj hja) (hback hk hka) hja hka⟩
  rcases Barrier.notifyAll_eq_some hj with hj' | ⟨slots, hj', rfl⟩
  · exact h.sound hj'
  · have hslots : slots = ⟨true, true⟩ := h.sound hj'
    exact hslots

end Calls

/-- A broadcast is still to come. -/
def Barrier.NotifyPending (s : Barrier E W) : Prop :=
  (∃ j after, s.calls j = some (.notifying after)) ∨
    ∃ terminal last subscribers, s.owner = .notifying terminal last subscribers

/-- The invariant of the barrier. -/
structure Inv (capacity : NonZeroUsize) (s : Barrier E W) : Prop where
  calls : Calls s.state.phase s.calls
  empty : s.state.phase ≠ .requested → s.state.subscribers = []
  bounded : s.state.subscribers.length ≤ capacity.get.val
  awaited : ∀ {i slots}, s.calls i = some (.blocked slots) →
    s.state.phase = .requesting ∨ s.NotifyPending

namespace Inv

variable {capacity : NonZeroUsize} {s s' : Barrier E W} {i : ℕ} {pc : CallPc E}

theorem initial : Inv capacity (⟨.new, fun _ => none, .holding false, fun _ => .new⟩ :
    Barrier E W) := by
  refine ⟨⟨fun hi => (nomatch hi), fun hi => (nomatch hi), fun hi => (nomatch hi)⟩, fun _ => rfl,
    Nat.zero_le _, fun hi => (nomatch hi)⟩

/-- A call moves on in the same phase. -/
theorem move (h : Inv capacity s) {state : State}
    (hcalls : Calls s.state.phase (Function.update s.calls i (some pc)))
    (hphase : state.phase = s.state.phase)
    (hsubscribers : state.subscribers = s.state.subscribers ∨
      (state.phase = .requested ∧ state.subscribers.length ≤ capacity.get.val))
    (hpc : ∀ slots, pc = .blocked slots → s.state.phase = .requesting)
    (hi : ∀ after, s.calls i ≠ some (.notifying after))
    (cells : ℕ → Completion.State Unit W) :
    Inv capacity ({ s with state, cells }.move i pc) := by
  refine ⟨?_, fun hne => ?_, ?_, fun {j slots} hj => ?_⟩
  · show Calls state.phase _
    rw [hphase]
    exact hcalls
  · rcases hsubscribers with hsame | ⟨hrequested, -⟩
    · exact hsame.trans (h.empty fun heq => hne (hphase.trans heq))
    · exact absurd hrequested hne
  · show state.subscribers.length ≤ _
    rcases hsubscribers with hsame | ⟨-, hle⟩
    · rw [hsame]
      exact h.bounded
    · exact hle
  · have hwait : s.state.phase = .requesting ∨ s.NotifyPending := by
      rcases update_eq_some.mp hj with ⟨-, hslots⟩ | ⟨-, hother⟩
      · exact .inl (hpc slots (Option.some_inj.mp hslots))
      · exact h.awaited hother
    refine hwait.imp (fun heq => hphase.trans heq) (Or.imp_left ?_)
    rintro ⟨k, after, hk⟩
    have hki : k ≠ i := by
      rintro rfl
      exact hi after hk
    exact ⟨k, after, update_eq_some.mpr (.inr ⟨hki, hk⟩)⟩

/-- A call changes the phase, and is about to notify. -/
theorem announce {state : State} {after : After E}
    (hcalls : Calls state.phase (Function.update s.calls i (some (.notifying after))))
    (hempty : state.phase ≠ .requested → state.subscribers = [])
    (hbounded : state.subscribers.length ≤ capacity.get.val) :
    Inv capacity ({ s with state }.move i (.notifying after)) := by
  refine ⟨hcalls, hempty, hbounded, fun _ => .inr (.inl ⟨i, after, ?_⟩)⟩
  exact Function.update_self ..

/-- The owner moves on without a broadcast. -/
theorem ownerMove (h : Inv capacity s) (owner : OwnerPc)
    (howner : ∀ terminal last subscribers, s.owner ≠ .notifying terminal last subscribers)
    (cells : ℕ → Completion.State Unit W) : Inv capacity { s with owner, cells } := by
  refine ⟨h.calls, h.empty, h.bounded, fun hi => ?_⟩
  rcases h.awaited hi with hphase | hcall | ⟨terminal, last, subscribers, hnotifying⟩
  · exact .inl hphase
  · exact .inr (.inl hcall)
  · exact absurd hnotifying (howner _ _ _)

/-- A call that is not about to notify moves on, and the shared state stays. -/
theorem pass (h : Inv capacity s)
    (hattempting : pc.attempting = true → ∃ pd, s.calls i = some pd ∧ pd.attempting = true)
    (hsound : pc.Sound) (hpc : ∀ slots, pc = .blocked slots → s.state.phase = .requesting)
    (hi : ∀ after, s.calls i ≠ some (.notifying after)) (cells : ℕ → Completion.State Unit W) :
    Inv capacity ({ s with cells }.move i pc) := by
  refine h.move (h.calls.move (fun hcall hpc' => ?_) (fun hnone => ?_) hsound) rfl (.inl rfl) hpc
    hi cells
  · obtain ⟨pd, hpd, hbefore⟩ := hattempting hpc'
    obtain rfl := Option.some_inj.mp (hcall.symm.trans hpd)
    exact hbefore
  · by_contra hpc'
    obtain ⟨pd, hpd, -⟩ := hattempting (by simpa using hpc')
    cases hnone.symm.trans hpd

theorem next {willWake : W → W → Bool} {l : Label E} (h : Inv capacity s)
    (hstep : Step capacity willWake s l s') : Inv capacity s' := by
  cases hstep with
  | subscribe hi =>
    exact h.pass (by simp [CallPc.attempting]) (by simp [CallPc.Sound]) (by simp) (by simp [hi]) _
  | @look i slots state pc hi hlook =>
    have hslots : slots = ⟨true, true⟩ := h.calls.sound hi
    subst hslots
    cases State.look_looks hlook with
    | claim hphase =>
      have hcalls := h.calls
      rw [hphase] at hcalls
      exact ⟨hcalls.claim, fun _ => h.empty (by simp [hphase]), h.bounded, fun _ => .inl rfl⟩
    | follow hphase =>
      -- the one turn that blocks: the attempt it waits for has yet to be settled
      exact h.pass (by simp [CallPc.attempting]) (by simp [CallPc.Sound]) (by simp [hphase])
        (by simp [hi]) _
    | join hphase hroom =>
      exact h.move (h.calls.move (by simp [CallPc.attempting]) (by simp [hi])
        (by simp [CallPc.Sound])) hphase.symm
        (.inr ⟨rfl, by rw [List.length_append, List.length_singleton]; omega⟩) (by simp)
        (by simp [hi]) _
    | full | completed | closed =>
      exact h.pass (by simp [CallPc.attempting]) (by simp [CallPc.Sound]) (by simp) (by simp [hi]) _
  | @awaken i slots hi =>
    have hslots : slots = ⟨true, true⟩ := h.calls.sound hi
    exact h.pass (by simp [CallPc.attempting]) (by simp [CallPc.Sound, hslots]) (by simp)
      (by simp [hi]) _
  | start hi | finish _ hi | panic hi =>
    exact h.pass (fun _ => ⟨_, hi, rfl⟩) (by simp [CallPc.Sound]) (by simp) (by simp [hi]) _
  | @publish i result state pc hi hfinish =>
    cases State.finish_finishes hfinish (h.calls.attempt hi rfl) with
    | succeeded hphase =>
      refine announce (h.calls.settle hi rfl (by rfl) (by simp [CallPc.Sound]))
        (fun hne => absurd rfl hne) ?_
      -- nobody subscribes while a request is in progress, so the caller is the first
      have hnone : s.state.subscribers = [] := h.empty (by simp [hphase])
      have hpos := Nat.pos_of_ne_zero fun hzero => capacity.ne_zero (Fin.ext hzero)
      simp only [hnone, List.nil_append, List.length_singleton]
      omega
    | failed hphase =>
      exact announce (h.calls.settle hi rfl (by rfl) (by simp [CallPc.Sound]))
        (fun _ => h.empty (by simp [hphase])) h.bounded
    | completed | closed =>
      exact announce (h.calls.settle hi rfl (by rfl) (by simp [CallPc.Sound])) h.empty h.bounded
  | @abort i state pc hi habort =>
    rcases State.abort_cases habort with ⟨hphase, rfl, rfl⟩ | ⟨hphase, rfl, rfl⟩
    · exact announce (h.calls.settle hi rfl (by rfl) (by simp [CallPc.Sound]))
        (fun _ => h.empty (by simp [hphase])) h.bounded
    · exact h.pass (by simp [CallPc.attempting]) (by simp [CallPc.Sound]) (by simp) (by simp [hi]) _
  | @notify i after hi =>
    refine ⟨h.calls.notifyAll.move ?_ (by simp [CallPc.attempting]) (by simp [CallPc.Sound]),
      h.empty, h.bounded, fun {j slots} hj => ?_⟩
    · simp [CallPc.attempting]
    · -- the broadcast leaves nobody blocked, so nothing has to be pending after it
      rcases update_eq_some.mp hj with ⟨-, hpc⟩ | ⟨-, hblocked⟩
      · cases hpc
      · exact absurd hblocked Barrier.notifyAll_ne_blocked
  | complete hi | returned hi | refused hi | unwind hi | abandon hi =>
    exact h.pass (by simp [CallPc.attempting]) (by simp [CallPc.Sound]) (by simp) (by simp [hi]) _
  | ownerComplete howner | ownerClose howner | ownerDrop howner | ownerFinish howner =>
    exact h.ownerMove _ (by simp [howner]) _
  | ownerRepeat => exact h
  | @ownerSettle terminal last state subscribers howner hsettle =>
    rcases State.settle_cases hsettle with ⟨hphase, rfl, rfl⟩ | ⟨hphase, rfl, rfl⟩
    · exact h.ownerMove _ (by simp [howner]) _
    · refine ⟨h.calls.terminal terminal.phase_terminal, fun _ => rfl, Nat.zero_le _,
        fun _ => .inr (.inr ⟨terminal, last, s.state.subscribers, rfl⟩)⟩
  | ownerNotify howner =>
    exact ⟨h.calls.notifyAll, h.empty, h.bounded,
      fun hj => absurd hj Barrier.notifyAll_ne_blocked⟩
  | ownerDeliver howner => exact h.ownerMove _ (by simp [howner]) _
  | tryTake | poll => exact ⟨h.calls, h.empty, h.bounded, h.awaited⟩

end Inv

/-! ### The phase -/

theorem Step.look_phase {capacity : NonZeroUsize} {willWake : W → W → Bool} {s s' : Barrier E W}
    {i : ℕ} {p : Phase} (h : Step capacity willWake s (.call i (.look p)) s') :
    p = s.state.phase := by
  generalize hl : (.call i (.look p) : Label E) = l at h
  cases h <;> simp at hl
  exact hl.2

/-- A request has been published, or the barrier is terminal. -/
def Phase.late : Phase → Bool
  | .requested | .completed | .closed => true
  | .open | .requesting => false

/-- What a step does to the phase. -/
inductive PhaseMoves (phase : Phase) : Label E → Phase → Prop
  | same {l} : (∀ i p, l = .call i (.publish p (.ok ())) → phase.terminal = true) →
      (∀ i, l ≠ .call i (.look .open)) → PhaseMoves phase l phase
  | claimed {i} : phase = .open → PhaseMoves phase (.call i (.look .open)) .requesting
  | succeeded {i} : phase = .requesting →
      PhaseMoves phase (.call i (.publish .requesting (.ok ()))) .requested
  | failed {i error} : phase = .requesting →
      PhaseMoves phase (.call i (.publish .requesting (.error error))) .open
  | aborted {i} : phase = .requesting → PhaseMoves phase (.call i (.abort .requesting)) .open
  | settled {terminal : Terminal} : phase.terminal = false →
      PhaseMoves phase (.owner .settle) terminal.phase

theorem Inv.phaseMoves {capacity : NonZeroUsize} {willWake : W → W → Bool} {s s' : Barrier E W}
    {l : Label E} (h : Inv capacity s) (hstep : Step capacity willWake s l s') :
    PhaseMoves s.state.phase l s'.state.phase := by
  -- four operations touch the phase: look, finish, abort and settle
  cases hstep with
  | @look i slots state pc hi hlook =>
    have hslots : slots = ⟨true, true⟩ := h.calls.sound hi
    subst hslots
    have hlooks := State.look_looks hlook
    cases hlooks with
    | claim hphase =>
      rw [hphase]
      exact .claimed rfl
    | join hphase =>
      have hmoves : PhaseMoves s.state.phase (.call i (.look s.state.phase) : Label E)
          s.state.phase := .same (by simp) (by simp [hphase])
      rw [hphase] at hmoves ⊢
      exact hmoves
    | follow hphase | full hphase | completed hphase | closed hphase =>
      exact .same (by simp) (by simp [hphase])
  | @publish i result state pc hi hfinish =>
    cases State.finish_finishes hfinish (h.calls.attempt hi rfl) with
    | succeeded hphase =>
      rw [hphase]
      exact .succeeded rfl
    | failed hphase =>
      rw [hphase]
      exact .failed rfl
    | completed hphase | closed hphase =>
      exact .same (fun _ _ _ => by rw [hphase]; rfl) (by simp)
  | @abort i state pc hi habort =>
    rcases State.abort_cases habort with ⟨hphase, rfl, rfl⟩ | ⟨hphase, rfl, rfl⟩
    · rw [hphase]
      exact .aborted rfl
    · exact .same (by simp) (by simp)
  | ownerSettle _ hsettle =>
    rcases State.settle_cases hsettle with ⟨hphase, rfl, rfl⟩ | ⟨hphase, rfl, rfl⟩
    · exact .same (by simp) (by simp)
    · exact .settled hphase
  | _ => exact .same (by simp) (by simp)

/-- **Terminal phases are final.** -/
theorem PhaseMoves.final {phase phase' : Phase} {l : Label E} (h : PhaseMoves phase l phase')
    (hphase : phase.terminal = true) : phase' = phase := by
  cases h with
  | same => rfl
  | claimed heq | succeeded heq | failed heq | aborted heq =>
    rw [heq] at hphase
    cases hphase
  | settled hopen => simp [hphase] at hopen

/-- After a success the barrier stays past its request. -/
theorem PhaseMoves.late {phase phase' : Phase} {l : Label E} (h : PhaseMoves phase l phase')
    (hphase : phase.late = true ∨ ∃ i p, l = .call i (.publish p (.ok ()))) :
    phase'.late = true := by
  cases h with
  | same hpublish =>
    rcases hphase with hlate | ⟨i, p, rfl⟩
    · exact hlate
    · have hterminal := hpublish i p rfl
      cases phase <;> first | rfl | cases hterminal
  | succeeded => rfl
  | settled => exact (by cases ‹Terminal› <;> rfl)
  | claimed heq | failed heq | aborted heq =>
    rcases hphase with hlate | ⟨i, p, hl⟩
    · rw [heq] at hlate
      cases hlate
    · cases hl

variable {capacity : NonZeroUsize} {willWake : W → W → Bool} {tr : List (Label E)}
  {s : Barrier E W}

theorem reachable_inv (h : (system E capacity willWake).Reachable s) : Inv capacity s := by
  refine h.invariant (fun hinit => ?_) fun hs hstep => hs.next hstep
  rw [hinit]
  exact .initial

theorem published_late (h : (system E capacity willWake).Run tr s) {i : ℕ} {p : Phase}
    (hmem : .call i (.publish p (.ok ())) ∈ tr) : s.state.phase.late = true := by
  refine h.invariant (I := fun tr s => ∀ i p, .call i (.publish p (.ok ())) ∈ tr →
    s.state.phase.late = true) (fun _ i p hmem => (nomatch hmem)) ?_ i p hmem
  intro tr s l s' hrun ih hstep i p hmem
  refine ((reachable_inv hrun.reachable).phaseMoves hstep).late ?_
  rw [List.mem_append, List.mem_singleton] at hmem
  rcases hmem with hmem | hl
  · exact .inl (ih i p hmem)
  · exact .inr ⟨i, p, hl.symm⟩

/-- **Request safety.**  In every interleaving:

* one callback runs at most;
* an attempt is claimed only of an open barrier, and after no success;
* an attempt that failed or panicked leaves the barrier open, unless it is
  terminal;
* subscribers are retained in the phase `Requested` only, and at most `capacity`;
* nothing panics, and a terminal phase is final;
* a follower is blocked only while the phase is `Requesting`, or a broadcast is
  still to come. -/
theorem request_safety (h : (system E capacity willWake).Run tr s) :
    (∀ i j, s.calls i = some .running → s.calls j = some .running → i = j) ∧
    (∀ i s', Step capacity willWake s (.call i (.look .open)) s' →
      s.state.phase = .open ∧ ∀ j p, .call j (.publish p (.ok ())) ∉ tr) ∧
    (∀ i s', (∃ p, Step capacity willWake s (.call i (.abort p)) s') ∨
        (∃ p error, Step capacity willWake s (.call i (.publish p (.error error))) s') →
      s'.state.phase = .open ∨ (s'.state.phase.terminal = true ∧
        s'.state.phase = s.state.phase)) ∧
    ((s.state.phase ≠ .requested → s.state.subscribers = []) ∧
      s.state.subscribers.length ≤ capacity.get.val) ∧
    (∀ i panic, s.calls i ≠ some (.panicked panic)) ∧
    (∀ l s', Step capacity willWake s l s' → s.state.phase.terminal = true →
      s'.state.phase = s.state.phase) ∧
    ∀ i slots, s.calls i = some (.blocked slots) → s.state.phase = .requesting ∨
      s.NotifyPending := by
  have hinv := reachable_inv h.reachable
  refine ⟨fun i j hi hj => hinv.calls.unique hi hj rfl rfl, fun i s' hstep => ?_,
    fun i s' hstep => ?_, ⟨hinv.empty, hinv.bounded⟩, fun i panic hi => hinv.calls.sound hi,
    fun l s' hstep => (hinv.phaseMoves hstep).final, fun i slots => hinv.awaited⟩
  · have hopen := hstep.look_phase
    refine ⟨hopen.symm, fun j p hmem => ?_⟩
    have hlate := published_late h hmem
    rw [← hopen] at hlate
    cases hlate
  · rcases hstep with ⟨p, hstep⟩ | ⟨p, error, hstep⟩
    · cases hstep with
      | abort hi habort =>
        rcases State.abort_cases habort with ⟨hphase, rfl, rfl⟩ | ⟨hphase, rfl, rfl⟩
        · exact .inl rfl
        · exact .inr ⟨(hinv.calls.attempt hi rfl).resolve_left hphase, rfl⟩
    · cases hstep with
      | publish hi hfinish =>
        cases State.finish_finishes hfinish (hinv.calls.attempt hi rfl) with
        | failed => exact .inl rfl
        | completed hphase | closed hphase =>
          have hterminal : s.state.phase.terminal = true := by
            rw [hphase]
            rfl
          exact .inr ⟨hterminal, rfl⟩

/-- Call 1 claims and call 2 follows; the request of call 1 fails, and call 2
makes its own. -/
theorem request_safety_retried :
    ∃ s : Barrier Unit ℕ, (system Unit ⟨1, by decide⟩ (fun a b : ℕ => a == b)).Run
      [.call 1 .subscribe, .call 2 .subscribe, .call 1 (.look .open), .call 2 (.look .requesting),
        .call 1 .start, .call 1 (.finish (.error ())), .call 1 (.publish .requesting (.error ())),
        .call 1 .notify, .call 2 (.look .open), .call 2 .start] s ∧
      s.calls 2 = some .running ∧ ∀ i, s.calls i = some .running → i = 2 := by
  have hfollowed := (((((TransitionSystem.Run.start (T := system Unit ⟨1, by decide⟩
    (fun a b : ℕ => a == b)) rfl).next (.subscribe (i := 1) rfl)).next
    (.subscribe (i := 2) rfl)).next (.look (i := 1) rfl rfl)).next (.look (i := 2) rfl rfl)).next
    (.start (i := 1) rfl)
  have hrun := ((((hfollowed.next (.finish (i := 1) (.error ()) rfl)).next
    (.publish (i := 1) rfl rfl)).next (.notify (i := 1) rfl)).next (.look (i := 2) rfl rfl)).next
    (.start (i := 2) rfl)
  exact ⟨_, hrun, rfl, fun i hi => (request_safety hrun).1 i 2 hi rfl⟩

end Shutdown

end Calandria
