/-
All observers of a shutdown barrier agree.

A completer is with its call, with the barrier, with the owner that delivers, or
settled: the ledger counts it in one of these places.  What it was settled with
is what the barrier ended with.

* `CallMoves`, `OwnerMoves`, `View` — the steps, by what they do to one call and
  its completion, and to the owner;
* `settlements` — how a step settles a completion;
* `History` — the invariant of a run with its trace;
* `agreement` — what this says of every interleaving.
-/
import Calandria.Shutdown

namespace Calandria

namespace Shutdown

variable {E W : Type} {capacity : NonZeroUsize} {willWake : W → W → Bool}

/-! ### The steps, one call at a time -/

/-- What a step does to its call, the call's completion and the barrier. -/
inductive CallMoves (capacity : NonZeroUsize) (i : ℕ) (state : State)
    (cell : Completion.State Unit W) :
    CallPc E → Label E → State → Completion.State Unit W → CallPc E → Prop
  | look {state' pc'} : state.Looks capacity i state' pc' →
      CallMoves capacity i state cell (.entering ⟨true, true⟩) (.call i (.look state.phase)) state'
        cell pc'
  | awaken {slots} :
      CallMoves capacity i state cell (.blocked slots) (.call i .awaken) state cell (.entering slots)
  | start : CallMoves capacity i state cell .starting (.call i .start) state cell .running
  | finish {result} :
      CallMoves capacity i state cell .running (.call i (.finish result)) state cell
        (.finished result)
  | panic : CallMoves capacity i state cell .running (.call i .panic) state cell .aborting
  | publish {result state' pc'} : state.Finishes i result state' pc' →
      CallMoves capacity i state cell (.finished result) (.call i (.publish state.phase result))
        state' cell pc'
  | abort {state' pc'} : pc' = .notifying .unwind ∨ pc' = .doing .unwind →
      state'.subscribers = state.subscribers →
      CallMoves capacity i state cell .aborting (.call i (.abort state.phase)) state' cell pc'
  | notify {after} :
      CallMoves capacity i state cell (.notifying after) (.call i .notify) state cell (.doing after)
  | complete :
      CallMoves capacity i state cell (.doing .complete) (.call i .complete) state
        (cell.complete ()).1 (.doing (.return (.ok ())))
  | returned :
      CallMoves capacity i state cell (.doing (.return (.ok ()))) (.call i (.returned (.ok ()))) state
        cell .observing
  | refused {error} :
      CallMoves capacity i state cell (.doing (.return (.error error)))
        (.call i (.returned (.error error))) state cell.closeProducer.1.abandonObserver.1 .refused
  | unwind :
      CallMoves capacity i state cell (.doing .unwind) (.call i .unwind) state
        cell.closeProducer.1.abandonObserver.1 .unwound
  | extract {result cell'} : cell.Extracts result cell' →
      CallMoves capacity i state cell .observing (.extract i result) state cell' .observing
  | abandon :
      CallMoves capacity i state cell .observing (.abandon i) state cell.abandonObserver.1 .abandoned

/-- The completers that the owner has taken and not settled yet. -/
def OwnerPc.subscribers : OwnerPc → List ℕ
  | .notifying _ _ subscribers | .delivering _ _ subscribers => subscribers
  | .holding _ | .settling _ _ | .gone => []

/-- What a step of the owner does. -/
inductive OwnerMoves (state : State) (cells : ℕ → Completion.State Unit W) :
    OwnerPc → OwnerEvent → State → (ℕ → Completion.State Unit W) → OwnerPc → Prop
  | complete : OwnerMoves state cells (.holding false) .complete state cells
      (.settling .completed false)
  | repeated : OwnerMoves state cells (.holding true) .complete state cells (.holding true)
  | close {settled} : OwnerMoves state cells (.holding settled) .close state cells
      (.settling .closed true)
  | drop : OwnerMoves state cells (.holding false) .drop state cells (.settling .closed true)
  | dropSettled : OwnerMoves state cells (.holding true) .drop state cells .gone
  | settle {terminal last} : state.phase.terminal = false →
      OwnerMoves state cells (.settling terminal last) .settle ⟨terminal.phase, []⟩ cells
        (.notifying terminal last state.subscribers)
  | settled {terminal last} : state.phase.terminal = true →
      OwnerMoves state cells (.settling terminal last) .settle state cells (.after last)
  | notify {terminal last subscribers} :
      OwnerMoves state cells (.notifying terminal last subscribers) .notify state cells
        (.delivering terminal last subscribers)
  | deliver {terminal last i subscribers} :
      OwnerMoves state cells (.delivering terminal last (i :: subscribers))
        (.deliver i (terminal.deliver (cells i)).2) state
        (Function.update cells i (terminal.deliver (cells i)).1)
        (.delivering terminal last subscribers)
  | finish {terminal last} :
      OwnerMoves state cells (.delivering terminal last []) .finish state cells (.after last)

/-- Calls may have been woken. -/
def Woken (calls calls' : ℕ → Option (CallPc E)) : Prop :=
  ∀ i, calls' i = calls i ∨
    ∃ slots, calls i = some (.blocked slots) ∧ calls' i = some (.entering slots)

theorem Woken.refl (calls : ℕ → Option (CallPc E)) : Woken calls calls := fun _ => .inl rfl

theorem Barrier.notifyAll_woken (s : Barrier E W) : Woken s.calls s.notifyAll.calls := by
  intro i
  simp only [notifyAll]
  split
  next slots hblocked => exact .inr ⟨slots, hblocked, rfl⟩
  next => exact .inl rfl

/-- Every step is a new call, a step of one call or a step of the owner. -/
inductive View (capacity : NonZeroUsize) (s : Barrier E W) : Label E → Barrier E W → Prop
  | subscribe {i} : s.calls i = none →
      View capacity s (.call i .subscribe) ((s.setCell i .new).move i (.entering ⟨true, true⟩))
  | call {i pc l state' cell' pc' calls'} : s.calls i = some pc →
      CallMoves capacity i s.state (s.cells i) pc l state' cell' pc' → Woken s.calls calls' →
      View capacity s l ⟨state', Function.update calls' i (some pc'), s.owner,
        Function.update s.cells i cell'⟩
  | owner {event state' cells' owner' calls'} :
      OwnerMoves s.state s.cells s.owner event state' cells' owner' → Woken s.calls calls' →
      View capacity s (.owner event) ⟨state', calls', owner', cells'⟩

theorem Inv.view {s s' : Barrier E W} {l : Label E} (h : Inv capacity s)
    (hstep : Step capacity willWake s l s') : View capacity s l s' := by
  -- a step of a call that leaves its completion alone
  have hcall : ∀ {i pc l state' pc' calls'}, s.calls i = some pc →
      CallMoves capacity i s.state (s.cells i) pc l state' (s.cells i) pc' →
      Woken s.calls calls' →
      View capacity s l ⟨state', Function.update calls' i (some pc'), s.owner, s.cells⟩ := by
    intro i pc l state' pc' calls' hi hm hwoken
    have hview : View capacity s l ⟨state', Function.update calls' i (some pc'), s.owner,
        Function.update s.cells i (s.cells i)⟩ := View.call hi hm hwoken
    rwa [Function.update_eq_self] at hview
  -- an extraction leaves its call where it is
  have hextract : ∀ {i cell result}, s.calls i = some .observing →
      (s.cells i).Extracts result cell → View capacity s (.extract i result) (s.setCell i cell) := by
    intro i cell result hi hextracts
    have hview : View capacity s (.extract i result) ⟨s.state,
        Function.update s.calls i (some .observing), s.owner, Function.update s.cells i cell⟩ :=
      .call hi (.extract hextracts) (.refl _)
    rwa [← hi, Function.update_eq_self] at hview
  have hsame := Woken.refl s.calls
  have hwoken := s.notifyAll_woken
  cases hstep with
  | subscribe hi => exact .subscribe hi
  | @look i slots state pc hi hlook =>
    have hslots : slots = ⟨true, true⟩ := h.calls.sound hi
    subst hslots
    exact hcall hi (.look (State.look_looks hlook)) hsame
  | awaken hi => exact hcall hi .awaken hsame
  | start hi => exact hcall hi .start hsame
  | finish _ hi => exact hcall hi .finish hsame
  | panic hi => exact hcall hi .panic hsame
  | publish hi hfinish =>
    exact hcall hi (.publish (State.finish_finishes hfinish (h.calls.attempt hi rfl))) hsame
  | abort hi habort =>
    rcases State.abort_cases habort with ⟨-, rfl, rfl⟩ | ⟨-, rfl, rfl⟩
    · exact hcall hi (.abort (.inl rfl) rfl) hsame
    · exact hcall hi (.abort (.inr rfl) rfl) hsame
  | notify hi => exact hcall hi .notify hwoken
  | complete hi => exact .call hi .complete hsame
  | returned hi => exact hcall hi .returned hsame
  | refused hi => exact .call hi .refused hsame
  | unwind hi => exact .call hi .unwind hsame
  | ownerComplete howner => exact .owner (by rw [howner]; exact .complete) hsame
  | ownerRepeat howner =>
    have hm : OwnerMoves s.state s.cells s.owner .complete s.state s.cells s.owner := by
      rw [howner]
      exact .repeated
    exact .owner hm hsame
  | ownerClose howner => exact .owner (by rw [howner]; exact .close) hsame
  | @ownerDrop settled howner =>
    cases settled
    · exact .owner (by rw [howner]; exact .drop) hsame
    · exact .owner (by rw [howner]; exact .dropSettled) hsame
  | ownerSettle howner hsettle =>
    rcases State.settle_cases hsettle with ⟨hphase, rfl, rfl⟩ | ⟨hphase, rfl, rfl⟩
    · exact .owner (by rw [howner]; exact .settled hphase) hsame
    · exact .owner (by rw [howner]; exact .settle hphase) hsame
  | ownerNotify howner => exact .owner (by rw [howner]; exact .notify) hwoken
  | ownerDeliver howner hdeliver =>
    obtain ⟨rfl, rfl⟩ := Prod.mk.inj hdeliver.symm
    exact .owner (by rw [howner]; exact .deliver) hsame
  | ownerFinish howner => exact .owner (by rw [howner]; exact .finish) hsame
  | @tryTake i cell result hi htake =>
    obtain ⟨cell', result', htake', hextracts⟩ := (s.cells i).tryTake_extracts
    rw [htake'] at htake
    cases htake
    exact hextract hi hextracts
  | @poll i context cell result hi hpoll =>
    obtain ⟨cell', result', hpoll', hextracts⟩ := (s.cells i).poll_extracts willWake context
    rw [hpoll'] at hpoll
    cases hpoll
    exact hextract hi hextracts
  | abandon hi => exact .call hi .abandon hsame

/-! ### Where a completer is -/

/-- The call has its completer. -/
def After.owns : After E → Bool
  | .return (.error _) | .complete | .unwind => true
  | .return (.ok ()) => false

def CallPc.owns : CallPc E → Bool
  | .entering _ | .blocked _ | .starting | .running | .finished _ | .aborting => true
  | .notifying after | .doing after => after.owns
  | .observing | .abandoned | .refused | .unwound | .panicked _ => false

/-- How a step settles the completion of a call.  A call that is refused drops
its own completer. -/
def settlements (i : ℕ) : Label E → List (Except CompletionError Unit)
  | .call j .complete => if j = i then [.ok ()] else []
  | .call j (.returned (.error _)) => if j = i then [.error .closed] else []
  | .call j .unwind => if j = i then [.error .closed] else []
  | .owner (.deliver j result) => if j = i then [result] else []
  | _ => []

def owned (calls : ℕ → Option (CallPc E)) (i : ℕ) : ℕ :=
  if (calls i).any CallPc.owns then 1 else 0

def known (calls : ℕ → Option (CallPc E)) (i : ℕ) : ℕ := if (calls i).isSome then 1 else 0

theorem Woken.owned {calls calls' : ℕ → Option (CallPc E)} (h : Woken calls calls') (i : ℕ) :
    owned calls' i = owned calls i := by
  rcases h i with heq | ⟨slots, hblocked, hentering⟩
  · rw [Shutdown.owned, Shutdown.owned, heq]
  · rw [Shutdown.owned, Shutdown.owned, hblocked, hentering]
    rfl

theorem Woken.known {calls calls' : ℕ → Option (CallPc E)} (h : Woken calls calls') (i : ℕ) :
    known calls' i = known calls i := by
  rcases h i with heq | ⟨slots, hblocked, hentering⟩
  · rw [Shutdown.known, Shutdown.known, heq]
  · rw [Shutdown.known, Shutdown.known, hblocked, hentering]
    rfl

/-- A step of a call hands its completer on, or settles it, or keeps it. -/
theorem CallMoves.places {i : ℕ} {state state' : State} {cell cell' : Completion.State Unit W}
    {pc pc' : CallPc E} {l : Label E} (h : CallMoves capacity i state cell pc l state' cell' pc') :
    (if pc'.owns then 1 else 0) + state'.subscribers.count i + (settlements i l).length
      = (if pc.owns then 1 else 0) + state.subscribers.count i := by
  cases h with
  | look hlooks =>
    cases hlooks with
    | join =>
      simp only [CallPc.owns, After.owns, settlements, List.count_append, List.count_singleton_self]
      simp [Nat.add_comm]
    | _ => rfl
  | publish hfinishes =>
    cases hfinishes with
    | succeeded =>
      simp only [CallPc.owns, After.owns, settlements, List.count_append, List.count_singleton_self]
      simp [Nat.add_comm]
    | _ => rfl
  | abort hpc' hsubscribers =>
    rw [hsubscribers]
    rcases hpc' with rfl | rfl <;> simp [CallPc.owns, After.owns, settlements]
  | notify => rfl
  | _ => simp [CallPc.owns, After.owns, settlements, Nat.add_comm]

theorem CallMoves.others {i j : ℕ} {state state' : State} {cell cell' : Completion.State Unit W}
    {pc pc' : CallPc E} {l : Label E} (h : CallMoves capacity i state cell pc l state' cell' pc')
    (hij : i ≠ j) :
    state'.subscribers.count j = state.subscribers.count j ∧ settlements j l = [] := by
  cases h with
  | look hlooks => cases hlooks <;> simp [settlements, hij]
  | publish hfinishes => cases hfinishes <;> simp [settlements, hij]
  | abort _ hsubscribers => simp [settlements, hsubscribers]
  | _ => simp [settlements, hij]

@[simp] theorem OwnerPc.after_subscribers (last : Bool) : (OwnerPc.after last).subscribers = [] := by
  cases last <;> rfl

theorem OwnerMoves.places {state state' : State} {cells cells' : ℕ → Completion.State Unit W}
    {owner owner' : OwnerPc} {event : OwnerEvent}
    (h : OwnerMoves state cells owner event state' cells' owner') (i : ℕ) :
    state'.subscribers.count i + owner'.subscribers.count i
        + (settlements i (.owner event : Label E)).length
      = state.subscribers.count i + owner.subscribers.count i := by
  cases h with
  | deliver =>
    simp only [OwnerPc.subscribers, settlements, List.count_cons, beq_iff_eq]
    split_ifs
    · rw [List.length_singleton]
      omega
    · rw [List.length_nil]
      omega
  | settled | finish =>
    rw [OwnerPc.after_subscribers]
    rfl
  | _ => simp [OwnerPc.subscribers, settlements]

/-- A step that is not one of call `i`. -/
structure Elsewhere (i : ℕ) (s : Barrier E W) (l : Label E) (s' : Barrier E W) : Prop where
  label : ∀ event, l ≠ .call i event
  call : s'.calls i = s.calls i ∨
    ∃ slots, s.calls i = some (.blocked slots) ∧ s'.calls i = some (.entering slots)
  cell : (settlements i l = [] ∧ s'.cells i = s.cells i) ∨
    ∃ terminal last subscribers, s.owner = .delivering terminal last (i :: subscribers) ∧
      settlements i l = [(terminal.deliver (s.cells i)).2] ∧
      s'.cells i = (terminal.deliver (s.cells i)).1

/-- A step, seen from one call. -/
theorem View.at {s s' : Barrier E W} {l : Label E} (h : View capacity s l s') (i : ℕ) :
    (s.calls i = none ∧ l = .call i .subscribe ∧ s'.calls i = some (.entering ⟨true, true⟩) ∧
      s'.cells i = .new) ∨
    (∃ pc pc', s.calls i = some pc ∧ s'.calls i = some pc' ∧
      CallMoves capacity i s.state (s.cells i) pc l s'.state (s'.cells i) pc') ∨
    Elsewhere i s l s' := by
  -- the step is of this call, of another call, or of the owner
  cases h with
  | @subscribe j hj =>
    by_cases hij : i = j
    · subst hij
      exact .inl ⟨hj, rfl, Function.update_self .., Function.update_self ..⟩
    · exact .inr (.inr ⟨by simp [Ne.symm hij], .inl (Function.update_of_ne hij ..),
        .inl ⟨rfl, Function.update_of_ne hij ..⟩⟩)
  | @call j pc l state' cell' pc' calls' hj hm hwoken =>
    by_cases hij : i = j
    · subst hij
      refine .inr (.inl ⟨pc, pc', hj, Function.update_self .., ?_⟩)
      show CallMoves capacity i s.state (s.cells i) pc l state' (Function.update s.cells i cell' i) pc'
      rw [Function.update_self]
      exact hm
    · refine .inr (.inr ⟨?_, ?_, .inl ⟨(hm.others (Ne.symm hij)).2, Function.update_of_ne hij ..⟩⟩)
      · intro event hl
        cases hm <;> simp_all
      · show Function.update calls' j _ i = _ ∨ ∃ slots, _ ∧ Function.update calls' j _ i = _
        rw [Function.update_of_ne hij]
        exact hwoken i
  | @owner event state' cells' owner' calls' hm hwoken =>
    refine .inr (.inr ⟨by simp, hwoken i, ?_⟩)
    generalize howner : s.owner = owner at hm
    cases hm with
    | @deliver terminal last j subscribers =>
      by_cases hij : i = j
      · subst hij
        exact .inr ⟨terminal, last, subscribers, rfl, by simp [settlements],
          Function.update_self ..⟩
      · exact .inl ⟨by simp [settlements, Ne.symm hij], Function.update_of_ne hij ..⟩
    | _ => exact .inl ⟨rfl, rfl⟩

/-! ### What a completion shows -/

/-- The cell of a completion that was settled so. -/
inductive Settled : Completion.State Unit W → List (Except CompletionError Unit) → Prop
  | pending {observerAlive waker} : Settled (.pending observerAlive waker) []
  | ready {result} : Settled (.ready result) [result]
  | consumed {result} : Settled .consumed [result]

namespace Settled

variable {cell cell' : Completion.State Unit W} {results : List (Except CompletionError Unit)}

theorem complete (h : Settled cell []) : Settled (cell.complete ()).1 [.ok ()] := by
  cases h with
  | @pending observerAlive waker => cases observerAlive <;> constructor

theorem closeProducer (h : Settled cell []) : Settled cell.closeProducer.1 [.error .closed] := by
  cases h with
  | @pending observerAlive waker => cases observerAlive <;> constructor

theorem abandon (h : Settled cell results) : Settled cell.abandonObserver.1 results := by
  cases h <;> constructor

theorem extract (h : Settled cell results) {result : Option (Except CompletionError Unit)}
    (hextracts : cell.Extracts result cell') : Settled cell' results := by
  cases h <;> cases hextracts <;> constructor

theorem deliver (h : Settled cell []) (terminal : Terminal) :
    Settled (terminal.deliver cell).1 [(terminal.deliver cell).2] := by
  cases terminal
  · exact h.complete
  · exact h.closeProducer

end Settled

/-- No completer leaves a completion pending. -/
theorem complete_ne_pending (cell : Completion.State Unit W) {waker : Option W} :
    (cell.complete ()).1 ≠ .pending false waker := by
  cases cell with
  | pending observerAlive => cases observerAlive <;> simp [Completion.State.complete]
  | _ => simp [Completion.State.complete]

theorem closed_ne_pending (cell : Completion.State Unit W) {observerAlive : Bool}
    {waker : Option W} : cell.closeProducer.1 ≠ .pending observerAlive waker := by
  cases cell with
  | pending observerAlive => cases observerAlive <;> simp [Completion.State.closeProducer]
  | _ => simp [Completion.State.closeProducer]

theorem dropped_ne_pending (cell : Completion.State Unit W) {waker : Option W} :
    cell.closeProducer.1.abandonObserver.1 ≠ .pending false waker := by
  cases hclosed : cell.closeProducer.1 with
  | pending observerAlive waker' => exact absurd hclosed (closed_ne_pending cell)
  | _ => simp [Completion.State.abandonObserver]

theorem deliver_ne_pending (terminal : Terminal) (cell : Completion.State Unit W)
    {waker : Option W} : (terminal.deliver cell).1 ≠ .pending false waker := by
  cases terminal
  · exact complete_ne_pending cell
  · exact closed_ne_pending cell

/-- The result that goes with a terminal phase. -/
def Agrees (phase : Phase) (result : Except CompletionError Unit) : Prop :=
  (phase = .completed ∧ result = .ok ()) ∨ (phase = .closed ∧ result = .error .closed)

theorem Terminal.agrees (terminal : Terminal) (cell : Completion.State Unit W) :
    Agrees terminal.phase (terminal.deliver cell).2 := by
  cases terminal
  · exact .inl ⟨rfl, rfl⟩
  · exact .inr ⟨rfl, rfl⟩

theorem Agrees.terminal {phase : Phase} {result : Except CompletionError Unit}
    (h : Agrees phase result) : phase.terminal = true := by
  rcases h with ⟨rfl, -⟩ | ⟨rfl, -⟩ <;> rfl

/-- The step reads the phase in a critical section of the call. -/
def Reads (i : ℕ) (phase : Phase) (l : Label E) : Prop :=
  l = .call i (.look phase) ∨ ∃ result, l = .call i (.publish phase result)

/-- Where a call can be that has read `Completed`; when it is about to return, its
completion is ready. -/
def CallPc.AfterCompleted (cell : Completion.State Unit W) : CallPc E → Prop
  | .notifying .complete | .doing .complete | .observing | .abandoned => True
  | .doing (.return (.ok ())) => cell = .ready (.ok ())
  | _ => False

theorem CallPc.AfterCompleted.move {cell : Completion.State Unit W} {pc : CallPc E}
    (h : pc.AfterCompleted cell) (hcell : cell ≠ .ready (.ok ()))
    (cell' : Completion.State Unit W) : pc.AfterCompleted cell' := by
  cases pc with
  | notifying after => cases after <;> exact h
  | doing after =>
    cases after with
    | «return» result =>
      cases result with
      | ok => exact absurd h hcell
      | error => exact h
    | complete | unwind => exact h
  | _ => exact h

/-- Where a call can be that has read `Closed`. -/
def CallPc.AfterClosed : CallPc E → Prop
  | .notifying (.return (.error .closed)) | .doing (.return (.error .closed)) | .refused => True
  | _ => False

/-- A call that reads the phase looks at it, or publishes its result by it. -/
theorem CallMoves.reads {i : ℕ} {phase : Phase} {state state' : State}
    {cell cell' : Completion.State Unit W} {pc pc' : CallPc E} {l : Label E}
    (h : CallMoves capacity i state cell pc l state' cell' pc') (hreads : Reads i phase l) :
    state.phase = phase ∧ (state.Looks capacity i state' pc' ∨
      ∃ result, state.Finishes i result state' pc') := by
  rcases hreads with rfl | ⟨result, rfl⟩
  · generalize hl : (.call i (.look phase) : Label E) = l at h
    cases h with
    | look hlooks =>
      injection hl with _ hevent
      injection hevent with hphase
      exact ⟨hphase.symm, .inl hlooks⟩
    | _ => cases hl
  · generalize hl : (.call i (.publish phase result) : Label E) = l at h
    cases h with
    | publish hfinishes =>
      injection hl with _ hevent
      injection hevent with hphase
      exact ⟨hphase.symm, .inr ⟨_, hfinishes⟩⟩
    | _ => cases hl

theorem CallMoves.after_completed {i : ℕ} {state state' : State}
    {cell cell' : Completion.State Unit W} {pc pc' : CallPc E} {l : Label E}
    (h : CallMoves capacity i state cell pc l state' cell' pc') (hreads : Reads i .completed l) :
    pc'.AfterCompleted cell' := by
  obtain ⟨hphase, hlooks | ⟨result, hfinishes⟩⟩ := h.reads hreads
  · cases hlooks with
    | completed => trivial
    | claim heq | follow heq | full heq | join heq | closed heq =>
      rw [hphase] at heq
      cases heq
  · cases hfinishes with
    | completed => trivial
    | succeeded heq | failed heq | closed heq =>
      rw [hphase] at heq
      cases heq

theorem CallMoves.after_closed {i : ℕ} {state state' : State}
    {cell cell' : Completion.State Unit W} {pc pc' : CallPc E} {l : Label E}
    (h : CallMoves capacity i state cell pc l state' cell' pc') (hreads : Reads i .closed l) :
    pc'.AfterClosed := by
  obtain ⟨hphase, hlooks | ⟨result, hfinishes⟩⟩ := h.reads hreads
  · cases hlooks with
    | closed => trivial
    | claim heq | follow heq | full heq | join heq | completed heq =>
      rw [hphase] at heq
      cases heq
  · cases hfinishes with
    | closed => trivial
    | succeeded heq | failed heq | completed heq =>
      rw [hphase] at heq
      cases heq

/-! ### The history of a run -/

/-- What the trace says of the barrier. -/
structure History (tr : List (Label E)) (s : Barrier E W) : Prop where
  /-- Every completer is in one place. -/
  ledger : ∀ i, owned s.calls i + s.state.subscribers.count i + s.owner.subscribers.count i
    + (tr.flatMap (settlements i)).length = known s.calls i
  cell : ∀ i, Settled (s.cells i) (tr.flatMap (settlements i))
  alive : ∀ {i waker}, s.cells i = .pending false waker → s.calls i = some .abandoned
  agreed : ∀ {i pc result}, s.calls i = some pc → pc ≠ .refused → pc ≠ .unwound →
    result ∈ tr.flatMap (settlements i) → Agrees s.state.phase result
  completing : ∀ {i}, s.calls i = some (.notifying .complete) ∨ s.calls i = some (.doing .complete) →
    s.state.phase = .completed
  delivering : ∀ {terminal last subscribers}, s.owner = .notifying terminal last subscribers ∨
    s.owner = .delivering terminal last subscribers → s.state.phase = terminal.phase
  ended : s.owner = .gone ∨ s.owner = .holding true → s.state.phase.terminal = true
  completed : ∀ {i l}, l ∈ tr → Reads i .completed l →
    ∃ pc, s.calls i = some pc ∧ pc.AfterCompleted (s.cells i)
  closed : ∀ {i l}, l ∈ tr → Reads i .closed l → ∃ pc, s.calls i = some pc ∧ pc.AfterClosed
  accepted : ∀ {i}, .call i (.returned (.ok ())) ∈ tr →
    s.calls i = some .observing ∨ s.calls i = some .abandoned

namespace History

variable {tr : List (Label E)} {s s' : Barrier E W} {l : Label E}

theorem initial : History [] (⟨.new, fun _ => none, .holding false, fun _ => .new⟩ :
    Barrier E W) := by
  refine ⟨fun i => rfl, fun i => .pending, fun hcell => (nomatch hcell), fun hi => (nomatch hi),
    fun hi => ?_, fun howner => ?_, fun howner => ?_, fun hmem => (nomatch hmem),
    fun hmem => (nomatch hmem), fun hmem => (nomatch hmem)⟩
  · rcases hi with hi | hi <;> cases hi
  · rcases howner with howner | howner <;> cases howner
  · rcases howner with howner | howner <;> cases howner

/-- A completer that is not settled yet. -/
theorem unsettled (h : History tr s) {i : ℕ} (hi : 0 < owned s.calls i ∨ i ∈ s.state.subscribers ∨
    i ∈ s.owner.subscribers) : tr.flatMap (settlements i) = [] := by
  have hledger := h.ledger i
  have hknown : known s.calls i ≤ 1 := by
    rw [known]
    split_ifs <;> omega
  rw [← List.length_eq_zero_iff]
  rcases hi with howned | hmem | hmem
  · omega
  · have := List.count_pos_iff.mpr hmem
    omega
  · have := List.count_pos_iff.mpr hmem
    omega

theorem owned_of_call {i : ℕ} {pc : CallPc E} (hi : s.calls i = some pc) :
    owned s.calls i = if pc.owns then 1 else 0 := by
  rw [owned, hi]
  rfl

/-- A call that has its completer has settled nothing. -/
theorem unsettled_call (h : History tr s) {i : ℕ} {pc : CallPc E} (hi : s.calls i = some pc)
    (howns : pc.owns = true) : tr.flatMap (settlements i) = [] := by
  refine h.unsettled (.inl ?_)
  rw [owned_of_call hi, if_pos howns]
  exact Nat.one_pos

theorem ledger_next (h : History tr s) (hv : View capacity s l s') (i : ℕ) :
    owned s'.calls i + s'.state.subscribers.count i + s'.owner.subscribers.count i
      + ((tr ++ [l]).flatMap (settlements i)).length = known s'.calls i := by
  have hledger := h.ledger i
  rw [List.flatMap_append, List.flatMap_singleton, List.length_append]
  cases hv with
  | @subscribe j hj =>
    show owned (Function.update s.calls j _) i + s.state.subscribers.count i
      + s.owner.subscribers.count i + _ = known (Function.update s.calls j _) i
    by_cases hij : i = j
    · subst hij
      simp only [owned, known, hj, Function.update_self] at hledger ⊢
      simp [CallPc.owns, settlements] at hledger ⊢
      omega
    · simp only [owned, known, Function.update_of_ne hij] at hledger ⊢
      simp only [settlements, List.length_nil] at hledger ⊢
      omega
  | @call j pc l state' cell' pc' calls' hj hm hwoken =>
    show owned (Function.update calls' j _) i + state'.subscribers.count i
      + s.owner.subscribers.count i + _ = known (Function.update calls' j _) i
    -- the moving call accounts for its own completion, and touches no other
    by_cases hij : i = j
    · subst hij
      have hplaces := hm.places
      rw [owned_of_call hj] at hledger
      simp only [owned, known, hj, Function.update_self] at hledger ⊢
      simp only [Option.any_some, Option.isSome_some, if_true] at hledger ⊢
      omega
    · obtain ⟨hcount, hnone⟩ := hm.others (Ne.symm hij)
      have howned := hwoken.owned i
      have hknown := hwoken.known i
      simp only [owned, known, Function.update_of_ne hij] at howned hknown hledger ⊢
      rw [howned, hknown, hcount, hnone, List.length_nil]
      omega
  | @owner event state' cells' owner' calls' hm hwoken =>
    have hplaces := hm.places (E := E) i
    show owned calls' i + state'.subscribers.count i + owner'.subscribers.count i + _
      = known calls' i
    rw [hwoken.owned, hwoken.known]
    omega

/-- The cells after a step of a call. -/
theorem settled_of_call {i : ℕ} {pc pc' : CallPc E} {state' : State}
    {cell' : Completion.State Unit W} (h : History tr s) (hi : s.calls i = some pc)
    (hm : CallMoves capacity i s.state (s.cells i) pc l state' cell' pc') :
    Settled cell' ((tr ++ [l]).flatMap (settlements i)) := by
  have hcell := h.cell i
  rw [List.flatMap_append, List.flatMap_singleton]
  have hnone := h.unsettled_call hi
  cases hm with
  | complete =>
    rw [hnone rfl] at hcell ⊢
    simpa [settlements] using hcell.complete
  | refused | unwind =>
    rw [hnone rfl] at hcell ⊢
    simpa [settlements] using hcell.closeProducer.abandon
  | extract hextracts => simpa [settlements] using hcell.extract hextracts
  | abandon => simpa [settlements] using hcell.abandon
  | _ => simpa [settlements] using hcell

/-- A new call has settled nothing. -/
theorem fresh (h : History tr s) {i : ℕ} (hi : s.calls i = none) :
    tr.flatMap (settlements i) = [] := by
  have hledger := h.ledger i
  have hknown : known s.calls i = 0 := by
    rw [known, hi]
    rfl
  rw [← List.length_eq_zero_iff]
  omega

/-- The owner delivers what is not settled yet. -/
theorem undelivered (h : History tr s) {i : ℕ} {terminal : Terminal} {last : Bool}
    {subscribers : List ℕ} (howner : s.owner = .delivering terminal last (i :: subscribers)) :
    tr.flatMap (settlements i) = [] := by
  refine h.unsettled (.inr (.inr ?_))
  rw [howner]
  exact List.mem_cons_self ..

theorem cell_next (h : History tr s) (hv : View capacity s l s') (i : ℕ) :
    Settled (s'.cells i) ((tr ++ [l]).flatMap (settlements i)) := by
  rcases hv.at i with ⟨hi, rfl, -, hcell⟩ | ⟨pc, pc', hi, -, hm⟩ | helse
  · rw [List.flatMap_append, List.flatMap_singleton, h.fresh hi, hcell]
    exact .pending
  · exact h.settled_of_call hi hm
  · rw [List.flatMap_append, List.flatMap_singleton]
    rcases helse.cell with ⟨hnone, hcell⟩ | ⟨terminal, last, subscribers, howner, hone, hcell⟩
    · rw [hnone, hcell, List.append_nil]
      exact h.cell i
    · have hpending := h.cell i
      rw [h.undelivered howner] at hpending ⊢
      rw [hone, hcell, List.nil_append]
      exact hpending.deliver terminal

/-- Only a caller that has its completion drops it. -/
theorem alive_next (h : History tr s) (hv : View capacity s l s') {i : ℕ} {waker : Option W}
    (hcell : s'.cells i = .pending false waker) : s'.calls i = some .abandoned := by
  rcases hv.at i with ⟨-, -, -, hnew⟩ | ⟨pc, pc', hi, hi', hm⟩ | helse
  · rw [hnew] at hcell
    cases hcell
  · have hself : s.cells i = .pending false waker → pc = .abandoned := by
      intro hpending
      exact Option.some_inj.mp (hi.symm.trans (h.alive hpending))
    rw [hi']
    rw [hcell] at hm
    generalize hold : Completion.State.pending false waker = cell' at hm
    generalize s'.state = state' at hm
    cases hm with
    | complete => exact absurd hold.symm (complete_ne_pending _)
    | refused | unwind => exact absurd hold.symm (dropped_ne_pending _)
    | extract hextracts =>
      subst hold
      generalize hpending : s.cells i = cell at hextracts
      cases hextracts with
      | pending => cases Option.some_inj.mp (hi.symm.trans (h.alive hpending))
    | abandon => rfl
    | _ => cases hself hold.symm
  · have hsame : s.cells i = .pending false waker := by
      rcases helse.cell with ⟨-, hcell'⟩ | ⟨terminal, last, subscribers, -, -, hcell'⟩
      · exact hcell'.symm.trans hcell
      · exact absurd (hcell'.symm.trans hcell) (deliver_ne_pending terminal _)
    have habandoned := h.alive hsame
    rcases helse.call with hcall | ⟨slots, hblocked, -⟩
    · exact hcall.trans habandoned
    · rw [habandoned] at hblocked
      cases hblocked

theorem completing_next (h : History tr s) (hphase : PhaseMoves s.state.phase l s'.state.phase)
    (hv : View capacity s l s') {i : ℕ}
    (hi : s'.calls i = some (.notifying .complete) ∨ s'.calls i = some (.doing .complete)) :
    s'.state.phase = .completed := by
  have hold : s.calls i = some (.notifying .complete) ∨ s.calls i = some (.doing .complete) →
      s'.state.phase = .completed := by
    intro hi
    have hcompleted := h.completing hi
    rw [hphase.final (by rw [hcompleted]; rfl), hcompleted]
  rcases hv.at i with ⟨-, -, hcall, -⟩ | ⟨pc, pc', hcall, hcall', hm⟩ | helse
  · rw [hcall] at hi
    rcases hi with hi | hi <;> cases hi
  · rw [hcall', Option.some_inj, Option.some_inj] at hi
    generalize s'.state = state' at hm hold ⊢
    generalize s'.cells i = cell' at hm
    cases hm with
    | look hlooks =>
      cases hlooks with
      | completed heq => exact heq
      | _ => rcases hi with hi | hi <;> cases hi
    | publish hfinishes =>
      cases hfinishes with
      | completed heq => exact heq
      | _ => rcases hi with hi | hi <;> cases hi
    | abort hpc' _ => rcases hpc' with rfl | rfl <;> rcases hi with hi | hi <;> cases hi
    | notify =>
      rcases hi with hi | hi
      · cases hi
      · cases hi
        exact hold (.inl hcall)
    | _ => rcases hi with hi | hi <;> cases hi
  · rcases helse.call with hcall | ⟨slots, -, hentering⟩
    · exact hold (hcall ▸ hi)
    · rw [hentering] at hi
      rcases hi with hi | hi <;> cases hi

theorem delivering_next (h : History tr s) (hphase : PhaseMoves s.state.phase l s'.state.phase)
    (hv : View capacity s l s') {terminal : Terminal} {last : Bool} {subscribers : List ℕ}
    (howner : s'.owner = .notifying terminal last subscribers ∨
      s'.owner = .delivering terminal last subscribers) : s'.state.phase = terminal.phase := by
  -- the phase the owner delivers is terminal, so no step changes it
  have hold : ∀ {subscribers}, s.owner = .notifying terminal last subscribers ∨
      s.owner = .delivering terminal last subscribers → s'.state.phase = terminal.phase := by
    intro subscribers howner
    have hterminal := h.delivering howner
    rw [hphase.final (by rw [hterminal]; exact terminal.phase_terminal), hterminal]
  cases hv with
  | subscribe => exact hold howner
  | call => exact hold howner
  | owner hm =>
    generalize hs : s.owner = owner at hm
    cases hm with
    | settle =>
      rcases howner with howner | howner
      · cases howner
        rfl
      · cases howner
    | notify =>
      rcases howner with howner | howner
      · cases howner
      · cases howner
        exact hold (.inl hs)
    | deliver =>
      rcases howner with howner | howner
      · cases howner
      · cases howner
        exact hold (.inr hs)
    | @settled terminal' last' | @finish terminal' last' =>
      cases last' <;> rcases howner with howner | howner <;> cases howner
    | _ => rcases howner with howner | howner <;> cases howner

theorem ended_next (h : History tr s) (hphase : PhaseMoves s.state.phase l s'.state.phase)
    (hv : View capacity s l s') (howner : s'.owner = .gone ∨ s'.owner = .holding true) :
    s'.state.phase.terminal = true := by
  have hold : s.state.phase.terminal = true → s'.state.phase.terminal = true := by
    intro hterminal
    rw [hphase.final hterminal, hterminal]
  cases hv with
  | subscribe => exact hold (h.ended howner)
  | call => exact hold (h.ended howner)
  | owner hm =>
    generalize hs : s.owner = owner at hm
    cases hm with
    | repeated | dropSettled => exact hold (h.ended (.inr hs))
    | settled hterminal => exact hterminal
    | @finish terminal last =>
      refine hold ?_
      rw [h.delivering (.inr hs), terminal.phase_terminal]
    | _ => rcases howner with howner | howner <;> cases howner

theorem agreed_next (h : History tr s) (hphase : PhaseMoves s.state.phase l s'.state.phase)
    (hv : View capacity s l s') {i : ℕ} {pc' : CallPc E} {result : Except CompletionError Unit}
    (hi : s'.calls i = some pc') (hrefused : pc' ≠ .refused) (hunwound : pc' ≠ .unwound)
    (hmem : result ∈ (tr ++ [l]).flatMap (settlements i)) : Agrees s'.state.phase result := by
  -- agreement means a terminal phase, which is final
  have hkeep : Agrees s.state.phase result → Agrees s'.state.phase result := by
    intro hagrees
    rwa [hphase.final hagrees.terminal]
  rw [List.flatMap_append, List.flatMap_singleton, List.mem_append] at hmem
  rcases hv.at i with ⟨hnone, rfl, -, -⟩ | ⟨pc, pc'', hcall, hcall', hm⟩ | helse
  · rw [h.fresh hnone] at hmem
    rcases hmem with hmem | hmem <;> cases hmem
  · obtain rfl := Option.some_inj.mp (hcall'.symm.trans hi)
    rcases hmem with hmem | hmem
    · refine hkeep (h.agreed hcall ?_ ?_ hmem) <;> rintro rfl <;> cases hm
    · generalize s'.cells i = cell' at hm
      generalize s'.state = state' at hm hkeep ⊢
      cases hm with
      | complete =>
        rw [settlements, if_pos rfl, List.mem_singleton] at hmem
        exact .inl ⟨h.completing (.inr hcall), hmem⟩
      | refused => exact absurd rfl hrefused
      | unwind => exact absurd rfl hunwound
      | _ => cases hmem
  · rcases hmem with hmem | hmem
    · rcases helse.call with hcall | ⟨slots, hblocked, -⟩
      · exact hkeep (h.agreed (hcall ▸ hi) hrefused hunwound hmem)
      · exact hkeep (h.agreed hblocked (by simp) (by simp) hmem)
    · rcases helse.cell with ⟨hnone, -⟩ | ⟨terminal, last, subscribers, howner, hone, -⟩
      · rw [hnone] at hmem
        cases hmem
      · rw [hone, List.mem_singleton] at hmem
        rw [hmem]
        have hterminal := h.delivering (.inr howner)
        rw [hphase.final (by rw [hterminal]; exact terminal.phase_terminal), hterminal]
        exact terminal.agrees _

/-- Other steps leave a call that has read `Completed` as it is. -/
theorem completed_next (h : History tr s) (hv : View capacity s l s') {i : ℕ} {r : Label E}
    (hmem : r ∈ tr ++ [l]) (hreads : Reads i .completed r) :
    ∃ pc, s'.calls i = some pc ∧ pc.AfterCompleted (s'.cells i) := by
  rcases hv.at i with ⟨hnone, rfl, -, -⟩ | ⟨pc, pc', hcall, hcall', hm⟩ | helse
  · -- a new call has read nothing
    rw [List.mem_append, List.mem_singleton] at hmem
    rcases hmem with hmem | rfl
    · obtain ⟨pc, hpc, -⟩ := h.completed hmem hreads
      rw [hnone] at hpc
      cases hpc
    · rcases hreads with hl | ⟨_, hl⟩ <;> cases hl
  · refine ⟨pc', hcall', ?_⟩
    rw [List.mem_append, List.mem_singleton] at hmem
    rcases hmem with hmem | rfl
    · obtain ⟨pc₀, hpc₀, hafter⟩ := h.completed hmem hreads
      obtain rfl := Option.some_inj.mp (hcall.symm.trans hpc₀)
      have halive : ∀ waker, pc ≠ .abandoned → s.cells i ≠ .pending false waker := by
        intro waker hne hcell
        exact hne (Option.some_inj.mp (hcall.symm.trans (h.alive hcell)))
      have hsettled := h.cell i
      have hunsettled := h.unsettled_call hcall
      generalize s'.cells i = cell' at hm ⊢
      generalize s'.state = state' at hm
      cases hm with
      | complete =>
        rw [hunsettled rfl] at hsettled
        cases hcell : s.cells i with
        | pending observerAlive waker =>
          cases observerAlive
          · exact absurd hcell (halive waker (by simp))
          · rfl
        | _ =>
          rw [hcell] at hsettled
          cases hsettled
      | notify => exact (by cases ‹After E› <;> first | exact hafter | cases hafter)
      | returned | extract | abandon => trivial
      | _ => cases hafter
    · exact hm.after_completed hreads
  · rw [List.mem_append, List.mem_singleton] at hmem
    rcases hmem with hmem | rfl
    · obtain ⟨pc, hpc, hafter⟩ := h.completed hmem hreads
      rcases helse.call with hcall | ⟨slots, hblocked, -⟩
      · refine ⟨pc, hcall.trans hpc, ?_⟩
        rcases helse.cell with ⟨-, hcell⟩ | ⟨terminal, last, subscribers, howner, -, -⟩
        · rwa [hcell]
        · -- what is ready is not delivered again
          have hsettled := h.cell i
          rw [h.undelivered howner] at hsettled
          refine hafter.move ?_ _
          intro hready
          rw [hready] at hsettled
          cases hsettled
      · rw [hpc] at hblocked
        cases hblocked
        cases hafter
    · rcases hreads with rfl | ⟨_, rfl⟩ <;> exact absurd rfl (helse.label _)

theorem closed_next (h : History tr s) (hv : View capacity s l s') {i : ℕ} {r : Label E}
    (hmem : r ∈ tr ++ [l]) (hreads : Reads i .closed r) :
    ∃ pc, s'.calls i = some pc ∧ pc.AfterClosed := by
  rw [List.mem_append, List.mem_singleton] at hmem
  rcases hv.at i with ⟨hnone, rfl, -, -⟩ | ⟨pc, pc', hcall, hcall', hm⟩ | helse
  · rcases hmem with hmem | rfl
    · obtain ⟨pc, hpc, -⟩ := h.closed hmem hreads
      rw [hnone] at hpc
      cases hpc
    · rcases hreads with hl | ⟨_, hl⟩ <;> cases hl
  · refine ⟨pc', hcall', ?_⟩
    rcases hmem with hmem | rfl
    · obtain ⟨pc₀, hpc₀, hafter⟩ := h.closed hmem hreads
      obtain rfl := Option.some_inj.mp (hcall.symm.trans hpc₀)
      generalize s'.cells i = cell' at hm
      generalize s'.state = state' at hm
      cases hm with
      | @notify after =>
        cases after with
        | «return» result =>
          cases result with
          | ok => cases hafter
          | error error => cases error <;> exact hafter
        | complete | unwind => cases hafter
      | refused => trivial
      | _ => cases hafter
    · exact hm.after_closed hreads
  · rcases hmem with hmem | rfl
    · obtain ⟨pc, hpc, hafter⟩ := h.closed hmem hreads
      rcases helse.call with hcall | ⟨slots, hblocked, -⟩
      · exact ⟨pc, hcall.trans hpc, hafter⟩
      · rw [hpc] at hblocked
        cases hblocked
        cases hafter
    · rcases hreads with rfl | ⟨_, rfl⟩ <;> exact absurd rfl (helse.label _)

theorem accepted_next (h : History tr s) (hv : View capacity s l s') {i : ℕ}
    (hmem : .call i (.returned (.ok ())) ∈ tr ++ [l]) :
    s'.calls i = some .observing ∨ s'.calls i = some .abandoned := by
  rw [List.mem_append, List.mem_singleton] at hmem
  rcases hv.at i with ⟨hnone, rfl, -, -⟩ | ⟨pc, pc', hcall, hcall', hm⟩ | helse
  · rcases hmem with hmem | hl
    · rcases h.accepted hmem with hi | hi <;> rw [hnone] at hi <;> cases hi
    · cases hl
  · rw [hcall']
    generalize s'.cells i = cell' at hm
    generalize s'.state = state' at hm
    rcases hmem with hmem | hl
    · have hpc : pc = .observing ∨ pc = .abandoned :=
        (h.accepted hmem).imp (fun hi => Option.some_inj.mp (hcall.symm.trans hi))
          fun hi => Option.some_inj.mp (hcall.symm.trans hi)
      cases hm with
      | extract => exact .inl rfl
      | abandon => exact .inr rfl
      | _ => rcases hpc with hpc | hpc <;> cases hpc
    · cases hm <;> cases hl
      exact .inl rfl
  · rcases hmem with hmem | hl
    · rcases helse.call with hcall | ⟨slots, hblocked, -⟩
      · rw [hcall]
        exact h.accepted hmem
      · rcases h.accepted hmem with hi | hi <;> rw [hi] at hblocked <;> cases hblocked
    · exact absurd hl.symm (helse.label _)

theorem next (h : History tr s) (hphase : PhaseMoves s.state.phase l s'.state.phase)
    (hv : View capacity s l s') : History (tr ++ [l]) s' :=
  ⟨h.ledger_next hv, h.cell_next hv, h.alive_next hv, h.agreed_next hphase hv,
    h.completing_next hphase hv, h.delivering_next hphase hv, h.ended_next hphase hv,
    h.completed_next hv, h.closed_next hv, h.accepted_next hv⟩

/-- Who holds its completion extracts what it was settled with, or `Consumed`. -/
theorem extracted (h : History tr s) {i : ℕ} {result : Except CompletionError Unit}
    (hstep : Step capacity willWake s (.extract i (some result)) s') :
    result = .error .consumed ∨ Agrees s.state.phase result := by
  have hextracts : ∃ cell, s.calls i = some .observing ∧ (s.cells i).Extracts (some result) cell := by
    cases hstep with
    | tryTake hi htake =>
      obtain ⟨cell', result', htake', hextracts⟩ := (s.cells i).tryTake_extracts
      rw [htake'] at htake
      cases htake
      exact ⟨_, hi, hextracts⟩
    | poll hi hpoll =>
      obtain ⟨cell', result', hpoll', hextracts⟩ := (s.cells i).poll_extracts willWake _
      rw [hpoll'] at hpoll
      cases hpoll
      exact ⟨_, hi, hextracts⟩
  obtain ⟨cell, hi, hextracts⟩ := hextracts
  have hsettled := h.cell i
  generalize hcell : s.cells i = cell₀ at hextracts hsettled
  generalize hresults : tr.flatMap (settlements i) = results at hsettled
  cases hextracts with
  | ready =>
    cases hsettled with
    | ready => exact .inr (h.agreed hi (by simp) (by simp) (by rw [hresults]; simp))
  | consumed => exact .inl rfl

end History

variable {tr : List (Label E)} {s : Barrier E W}

theorem run_history (h : (system E capacity willWake).Run tr s) : History tr s := by
  refine h.invariant (I := History) (fun hinit => ?_) fun hrun hs hstep => ?_
  · rw [hinit]
    exact .initial
  · have hinv := reachable_inv hrun.reachable
    exact hs.next (hinv.phaseMoves hstep) (hinv.view hstep)

end Shutdown

end Calandria
