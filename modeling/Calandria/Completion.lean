/-
The completion: one terminal value, observed once.

Each method of `Shared` is one critical section of the completion's lock.  The
producer and the observer interleave these sections, the producer's broadcast
and call of the waker that follow its own, and the return of a blocked `wait`.

* `State` — the cell: pending, ready or consumed;
* `Step` — the steps of either side;
* `Inv` — the cell holds what the producer published and the observer has not
  taken, and the history of extractions is that result, then `Consumed`;
* `settled_once` — what this says of every interleaving.
-/
import Calandria.TransitionSystem

namespace Calandria

/-- Why a completion could not yield its terminal value. -/
inductive CompletionError
  | closed
  | consumed
  deriving DecidableEq

namespace Completion

variable {T W : Type}

/-- The internal panic sites of the completion. -/
inductive Panic
  /-- "completion wait invariant violated" -/
  | wait
  /-- "completion extraction invariant violated" -/
  | extraction
  /-- "completion poll invariant violated" -/
  | poll
  deriving DecidableEq

/-! ### The critical sections -/

/-- The cell; `W` is the type of task wakers. -/
inductive State (T W : Type)
  | pending (observerAlive : Bool) (waker : Option W)
  | ready (result : Except CompletionError T)
  | consumed

namespace State

def new : State T W := .pending true none

def isPending : State T W → Bool
  | .pending _ _ => true
  | .ready _ | .consumed => false

/-- Publishes a value, or hands it back; and the waker to call. -/
def complete (state : State T W) (value : T) : State T W × Except T Unit × Option W :=
  match state with
  | .pending true waker => (.ready (.ok value), .ok (), waker)
  | .pending false _ | .consumed => (.consumed, .error value, none)
  | .ready result => (.ready result, .error value, none)

def closeProducer : State T W → State T W × Option W
  | .pending true waker => (.ready (.error .closed), waker)
  | .pending false _ | .consumed => (.consumed, none)
  | .ready result => (.ready result, none)

/-- `mem::replace` with `Consumed`, and the result that was there. -/
def take (panic : Panic) : State T W → Except Panic (State T W × Except CompletionError T)
  | .ready result => .ok (.consumed, result)
  | .consumed => .ok (.consumed, .error .consumed)
  | .pending _ _ => .error panic

/-- The part of `wait` under the lock; `none` if the thread has to wait. -/
def wait (state : State T W) :
    Except Panic (State T W × Option (Except CompletionError T)) :=
  if state.isPending then .ok (state, none)
  else do
    let (state, result) ← state.take .wait
    .ok (state, some result)

/-- Takes the terminal result without blocking, or returns `none` while pending. -/
def tryTake (state : State T W) :
    Except Panic (State T W × Option (Except CompletionError T)) :=
  if state.isPending then .ok (state, none)
  else do
    let (state, result) ← state.take .extraction
    .ok (state, some result)

/-- `tryTake`, but a pending completion keeps the caller's waker. -/
def poll (willWake : W → W → Bool) (context : W) (state : State T W) :
    Except Panic (State T W × Option (Except CompletionError T)) :=
  match state with
  | .pending observerAlive waker =>
    if waker.any (willWake · context) then .ok (.pending observerAlive waker, none)
    else .ok (.pending observerAlive (some context), none)
  | state => do
    let (state, result) ← state.take .poll
    .ok (state, some result)

/-- Drops the observer, and the result it left. -/
def abandonObserver : State T W → State T W × Option (Except CompletionError T)
  | .pending _ _ => (.pending false none, none)
  | .ready result => (.consumed, some result)
  | .consumed => (.consumed, none)

end State

/-! ### Both sides -/

/-- Where the producer is: `Completer` in hand, between its critical section and
the broadcast, about to call the waker, or done. -/
inductive ProducerPc (W : Type)
  | holding
  | notifying (waker : Option W)
  | waking (waker : Option W)
  | done

/-- Where the observer is: `Completion` in hand, in a `wait`, or without it. -/
inductive ObserverPc
  | holding
  | waiting
  | blocked
  /-- `wait` has its result, and is about to drop the handle. -/
  | returning
  | gone
  /-- One of the panics above. -/
  | panicked (panic : Panic)

/-- The two sides and the cell between them. -/
structure Pair (T W : Type) where
  cell : State T W
  producer : ProducerPc W
  observer : ObserverPc

/-- What a step shows. -/
inductive Event (T : Type)
  /-- `complete`, and what it returns. -/
  | complete (value : T) (result : Except T Unit)
  /-- `close`, or a drop of the completer. -/
  | close
  /-- What an extraction returns, or `none` where it finds the value pending. -/
  | extract (result : Option (Except CompletionError T))
  /-- A drop of the observer, with the result that is dropped along. -/
  | abandon (discarded : Option (Except CompletionError T))
  | internal

/-- One step of either side. -/
inductive Step (willWake : W → W → Bool) (s : Pair T W) : Event T → Pair T W → Prop
  | complete {value cell result waker} : s.producer = .holding →
      s.cell.complete value = (cell, result, waker) →
      Step willWake s (.complete value result) { s with cell, producer := .notifying waker }
  | close {cell waker} : s.producer = .holding → s.cell.closeProducer = (cell, waker) →
      Step willWake s .close { s with cell, producer := .notifying waker }
  /-- `notify_all`. -/
  | notify {waker} : s.producer = .notifying waker →
      Step willWake s .internal { s with
        producer := .waking waker
        observer := match s.observer with
          | .blocked => .waiting
          | observer => observer }
  | wake {waker} : s.producer = .waking waker →
      Step willWake s .internal { s with producer := .done }
  | tryTake {cell result} : s.observer = .holding → s.cell.tryTake = .ok (cell, result) →
      Step willWake s (.extract result) { s with cell }
  | poll {context cell result} : s.observer = .holding →
      s.cell.poll willWake context = .ok (cell, result) →
      Step willWake s (.extract result) { s with cell }
  | startWait : s.observer = .holding →
      Step willWake s .internal { s with observer := .waiting }
  | block {cell} : s.observer = .waiting → s.cell.wait = .ok (cell, none) →
      Step willWake s .internal { s with cell, observer := .blocked }
  /-- A spurious return of the condition variable. -/
  | awaken : s.observer = .blocked → Step willWake s .internal { s with observer := .waiting }
  | wait {cell result} : s.observer = .waiting → s.cell.wait = .ok (cell, some result) →
      Step willWake s (.extract (some result)) { s with cell, observer := .returning }
  /-- `abandon`, a drop, or the end of `wait`. -/
  | abandon {cell discarded} : s.observer = .holding ∨ s.observer = .returning →
      s.cell.abandonObserver = (cell, discarded) →
      Step willWake s (.abandon discarded) { s with cell, observer := .gone }
  | panic {panic} : (s.observer = .holding ∧ s.cell.tryTake = .error panic) ∨
      (s.observer = .holding ∧ ∃ context, s.cell.poll willWake context = .error panic) ∨
      (s.observer = .waiting ∧ s.cell.wait = .error panic) →
      Step willWake s .internal { s with observer := .panicked panic }

/-- A new completion. -/
def system (T : Type) (willWake : W → W → Bool) : TransitionSystem (Pair T W) (Event T) where
  init s := s = ⟨.new, .holding, .holding⟩
  step := Step willWake

/-! ### What the critical sections do -/

/-- What the three extractions have in common. -/
inductive State.Extracts : State T W → Option (Except CompletionError T) → State T W → Prop
  | pending {observerAlive waker waker'} :
      Extracts (.pending observerAlive waker) none (.pending observerAlive waker')
  | ready {result} : Extracts (.ready result) (some result) .consumed
  | consumed : Extracts .consumed (some (.error .consumed)) .consumed

namespace State

/-- None of the panics of an extraction is reachable. -/
theorem tryTake_extracts (state : State T W) :
    ∃ state' result, state.tryTake = .ok (state', result) ∧ state.Extracts result state' := by
  cases state with
  | pending => exact ⟨_, _, rfl, .pending⟩
  | ready => exact ⟨_, _, rfl, .ready⟩
  | consumed => exact ⟨_, _, rfl, .consumed⟩

theorem wait_extracts (state : State T W) :
    ∃ state' result, state.wait = .ok (state', result) ∧ state.Extracts result state' := by
  cases state with
  | pending => exact ⟨_, _, rfl, .pending⟩
  | ready => exact ⟨_, _, rfl, .ready⟩
  | consumed => exact ⟨_, _, rfl, .consumed⟩

theorem poll_extracts (willWake : W → W → Bool) (context : W) (state : State T W) :
    ∃ state' result, state.poll willWake context = .ok (state', result) ∧
      state.Extracts result state' := by
  cases state with
  | pending observerAlive waker =>
    by_cases hsame : waker.any (willWake · context) = true
    · exact ⟨_, _, if_pos hsame, .pending⟩
    · exact ⟨_, _, if_neg hsame, .pending⟩
  | ready => exact ⟨_, _, rfl, .ready⟩
  | consumed => exact ⟨_, _, rfl, .consumed⟩

/-- `wait` blocks on a pending cell alone, and leaves it. -/
theorem wait_none {state cell : State T W} (h : state.wait = .ok (cell, none)) :
    cell = state ∧ state.isPending = true := by
  cases state with
  | pending => cases h; exact ⟨rfl, rfl⟩
  | ready | consumed => cases h

/-- The value that the cell stores. -/
def stored : State T W → List T
  | .ready (.ok value) => [value]
  | .pending _ _ | .ready (.error _) | .consumed => []

end State

/-- The steps of the pair, by what they do to the cell. -/
inductive Moves (s : Pair T W) : Event T → Pair T W → Prop
  | complete {value cell result waker} : s.producer = .holding →
      s.cell.complete value = (cell, result, waker) →
      Moves s (.complete value result) { s with cell, producer := .notifying waker }
  | close {cell waker} : s.producer = .holding → s.cell.closeProducer = (cell, waker) →
      Moves s .close { s with cell, producer := .notifying waker }
  | extract {cell result observer} : s.observer = .holding ∨ s.observer = .waiting →
      s.cell.Extracts result cell → observer = s.observer ∨ observer = .returning →
      Moves s (.extract result) { s with cell, observer }
  | abandon {cell discarded} : s.observer = .holding ∨ s.observer = .returning →
      s.cell.abandonObserver = (cell, discarded) →
      Moves s (.abandon discarded) { s with cell, observer := .gone }
  | internal {producer observer} : (s.producer = .holding ↔ producer = .holding) →
      (s.observer = .gone ↔ observer = .gone) → (∀ panic, observer ≠ .panicked panic) →
      Moves s .internal { s with producer, observer }

theorem Step.moves {willWake : W → W → Bool} {s s' : Pair T W} {l : Event T}
    (h : Step willWake s l s') (hpanic : ∀ panic, s.observer ≠ .panicked panic) :
    Moves s l s' := by
  -- every look of the observer at the cell is an extraction
  cases h with
  | complete hholding hcomplete => exact .complete hholding hcomplete
  | close hholding hclose => exact .close hholding hclose
  | notify hnotifying =>
    refine .internal (by simp [hnotifying]) ?_ ?_
    · cases s.observer <;> simp
    · intro panic
      have := hpanic panic
      cases hobserver : s.observer <;> simp_all
  | wake hwaking => exact .internal (by simp [hwaking]) Iff.rfl hpanic
  | tryTake hholding htake =>
    obtain ⟨cell, result, htake', hextracts⟩ := s.cell.tryTake_extracts
    rw [htake'] at htake
    cases htake
    exact .extract (.inl hholding) hextracts (.inl rfl)
  | @poll context _ _ hholding hpoll =>
    obtain ⟨cell, result, hpoll', hextracts⟩ := s.cell.poll_extracts willWake context
    rw [hpoll'] at hpoll
    cases hpoll
    exact .extract (.inl hholding) hextracts (.inl rfl)
  | startWait hholding => exact .internal Iff.rfl (by simp [hholding]) (by simp)
  | @block cell hwaiting hwait =>
    obtain ⟨rfl, -⟩ := State.wait_none hwait
    exact .internal Iff.rfl (by simp [hwaiting]) (by simp)
  | awaken hblocked => exact .internal Iff.rfl (by simp [hblocked]) (by simp)
  | wait hwaiting hwait =>
    obtain ⟨cell, result, hwait', hextracts⟩ := s.cell.wait_extracts
    rw [hwait'] at hwait
    cases hwait
    exact .extract (.inr hwaiting) hextracts (.inr rfl)
  | abandon hobserver habandon => exact .abandon hobserver habandon
  | panic hpanics =>
    -- no call of the observer panics: each has an answer in every cell
    rcases hpanics with ⟨-, htake⟩ | ⟨-, context, hpoll⟩ | ⟨-, hwait⟩
    · obtain ⟨_, _, htake', -⟩ := s.cell.tryTake_extracts
      rw [htake'] at htake
      cases htake
    · obtain ⟨_, _, hpoll', -⟩ := s.cell.poll_extracts willWake context
      rw [hpoll'] at hpoll
      cases hpoll
    · obtain ⟨_, _, hwait', -⟩ := s.cell.wait_extracts
      rw [hwait'] at hwait
      cases hwait

/-! ### The history of a run -/

/-- The value the producer had. -/
def Event.given : Event T → List T
  | .complete value _ => [value]
  | _ => []

/-- What the producer published. -/
def Event.published : Event T → List (Except CompletionError T)
  | .complete value (.ok ()) => [.ok value]
  | .close => [.error .closed]
  | _ => []

/-- What the observer extracted. -/
def Event.extracted : Event T → List (Except CompletionError T)
  | .extract (some result) => [result]
  | _ => []

/-- Where a value can end. -/
inductive Place
  | returned
  | extracted
  | discarded
  deriving DecidableEq

/-- Where a step puts a value. -/
def Event.placed : Event T → List (Place × T)
  | .complete _ (.error value) => [(.returned, value)]
  | .extract (some (.ok value)) => [(.extracted, value)]
  | .abandon (some (.ok value)) => [(.discarded, value)]
  | _ => []

/-- What the trace says of the cell. -/
structure History (tr : List (Event T)) (s : Pair T W) : Prop where
  unpanicked : ∀ panic, s.observer ≠ .panicked panic
  fresh : s.producer = .holding → tr.flatMap Event.given = [] ∧ tr.flatMap Event.published = []
  given_le : (tr.flatMap Event.given).length ≤ 1
  gone : s.observer = .gone ↔ ∃ discarded, .abandon discarded ∈ tr
  pending : ∀ {observerAlive waker}, s.cell = .pending observerAlive waker →
    s.producer = .holding ∧ (observerAlive = true ↔ s.observer ≠ .gone) ∧
      tr.flatMap Event.extracted = []
  ready : ∀ {result}, s.cell = .ready result → s.producer ≠ .holding ∧ s.observer ≠ .gone ∧
    result ≠ .error .consumed ∧ tr.flatMap Event.published = [result] ∧
      tr.flatMap Event.extracted = []
  consumed : s.cell = .consumed → s.producer ≠ .holding ∧
    ((s.observer = .gone ∧ tr.flatMap Event.extracted = []) ∨
      ∃ result n, result ≠ .error .consumed ∧ tr.flatMap Event.published = [result] ∧
        tr.flatMap Event.extracted = result :: List.replicate n (.error .consumed))

theorem History.initial : History [] (⟨.new, .holding, .holding⟩ : Pair T W) := by
  refine ⟨by simp, by simp, by simp, by simp, fun hcell => ?_, fun hcell => (nomatch hcell),
    fun hcell => (nomatch hcell)⟩
  cases hcell
  exact ⟨rfl, by simp, rfl⟩

/-- The cell is pending for as long as the producer holds its handle. -/
theorem History.holding {tr : List (Event T)} {s : Pair T W} (h : History tr s)
    (hholding : s.producer = .holding) :
    ∃ observerAlive waker, s.cell = .pending observerAlive waker := by
  cases hcell : s.cell with
  | pending observerAlive waker => exact ⟨observerAlive, waker, rfl⟩
  | ready result => exact absurd hholding (h.ready hcell).1
  | consumed => exact absurd hholding (h.consumed hcell).1

/-- What the producer's critical section does: with the observer gone it leaves
nothing behind. -/
theorem History.produce {tr : List (Event T)} {s : Pair T W} (h : History tr s)
    (hholding : s.producer = .holding) {l : Event T} {cell : State T W} {waker : Option W}
    (hgiven : l.given.length ≤ 1) (hextracted : l.extracted = [])
    (habandon : ∀ discarded, l ≠ .abandon discarded)
    (hcell : (s.observer = .gone ∧ cell = .consumed) ∨ (s.observer ≠ .gone ∧
      ∃ result, cell = .ready result ∧ result ≠ .error .consumed ∧ l.published = [result])) :
    History (tr ++ [l]) { s with cell, producer := .notifying waker } := by
  obtain ⟨hnogiven, hnopublished⟩ := h.fresh hholding
  obtain ⟨observerAlive, waker', hpending⟩ := h.holding hholding
  have hnone := (h.pending hpending).2.2
  have hextracted' : (tr ++ [l]).flatMap Event.extracted = [] := by
    rw [List.flatMap_append, hnone, List.flatMap_singleton, hextracted, List.append_nil]
  refine ⟨h.unpanicked, fun hp => (nomatch hp), ?_, ?_, fun hc => ?_, fun {r} hc => ?_,
    fun hc => ?_⟩
  · rwa [List.flatMap_append, hnogiven, List.flatMap_singleton, List.nil_append]
  · rw [h.gone]
    refine exists_congr fun discarded => ?_
    rw [List.mem_append, List.mem_singleton, or_iff_left (Ne.symm (habandon discarded))]
  · rcases hcell with ⟨_, rfl⟩ | ⟨_, result, rfl, _⟩ <;> cases hc
  · rcases hcell with ⟨_, rfl⟩ | ⟨hthere, result, rfl, hresult, hpublished⟩
    · cases hc
    · cases hc
      refine ⟨by simp, hthere, hresult, ?_, hextracted'⟩
      rw [List.flatMap_append, hnopublished, List.flatMap_singleton, hpublished, List.nil_append]
  · rcases hcell with ⟨hgone, rfl⟩ | ⟨_, result, rfl, _⟩
    · exact ⟨by simp, .inl ⟨hgone, hextracted'⟩⟩
    · cases hc

section

variable {tr : List (Event T)} {s : Pair T W}

theorem flatMap_snoc {α : Type} {f : Event T → List α} {l : Event T} (h : f l = []) :
    (tr ++ [l]).flatMap f = tr.flatMap f := by
  rw [List.flatMap_append, List.flatMap_singleton, h, List.append_nil]

/-- The observer's critical section. -/
theorem History.extracts (h : History tr s) {cell : State T W}
    {result : Option (Except CompletionError T)} {observer : ObserverPc}
    (hobserver : s.observer = .holding ∨ s.observer = .waiting)
    (hextracts : s.cell.Extracts result cell)
    (hobserver' : observer = s.observer ∨ observer = .returning) :
    History (tr ++ [.extract result]) { s with cell, observer } := by
  have hgiven : (tr ++ [Event.extract result]).flatMap Event.given = tr.flatMap Event.given :=
    flatMap_snoc rfl
  have hpublished : (tr ++ [Event.extract result]).flatMap Event.published
      = tr.flatMap Event.published := flatMap_snoc rfl
  have hthere : s.observer ≠ .gone := by
    rcases hobserver with h | h <;> simp [h]
  have hthere' : observer ≠ .gone := by
    rcases hobserver' with rfl | rfl
    · exact hthere
    · simp
  have hunpanicked : ∀ panic, observer ≠ .panicked panic := by
    rcases hobserver' with rfl | rfl
    · exact h.unpanicked
    · simp
  have hgone : observer = .gone ↔ ∃ discarded, .abandon discarded ∈ tr ++ [.extract result] := by
    refine iff_of_false hthere' ?_
    rintro ⟨discarded, hmem⟩
    rw [List.mem_append, List.mem_singleton] at hmem
    exact hthere (h.gone.mpr ⟨discarded, hmem.resolve_right (by simp)⟩)
  have hfresh : s.producer = .holding →
      (tr ++ [Event.extract result]).flatMap Event.given = [] ∧
        (tr ++ [Event.extract result]).flatMap Event.published = [] := by
    rw [hgiven, hpublished]
    exact h.fresh
  -- what is extracted is the cell's: nothing, then its result, then `Consumed`
  cases hcell : s.cell with
  | pending observerAlive waker =>
    rw [hcell] at hextracts
    cases hextracts
    obtain ⟨hholding, halive, hnone⟩ := h.pending hcell
    refine ⟨hunpanicked, hfresh, hgiven ▸ h.given_le, hgone, fun hc => ?_,
      fun hc => (nomatch hc), fun hc => (nomatch hc)⟩
    cases hc
    exact ⟨hholding, by simp [hthere', halive.mpr hthere], by rwa [flatMap_snoc rfl]⟩
  | ready r =>
    rw [hcell] at hextracts
    cases hextracts
    obtain ⟨hproducer, -, hr, hsame, hnone⟩ := h.ready hcell
    refine ⟨hunpanicked, hfresh, hgiven ▸ h.given_le, hgone, fun hc => (nomatch hc),
      fun hc => (nomatch hc), fun _ => ⟨hproducer, .inr ⟨r, 0, hr, hpublished.trans hsame, ?_⟩⟩⟩
    rw [List.flatMap_append, hnone]
    rfl
  | consumed =>
    rw [hcell] at hextracts
    cases hextracts
    obtain ⟨hproducer, hhistory⟩ := h.consumed hcell
    obtain ⟨r, n, hr, hsame, hall⟩ := hhistory.resolve_left fun hgone => hthere hgone.1
    refine ⟨hunpanicked, hfresh, hgiven ▸ h.given_le, hgone, fun hc => (nomatch hc),
      fun hc => (nomatch hc),
      fun _ => ⟨hproducer, .inr ⟨r, n + 1, hr, hpublished.trans hsame, ?_⟩⟩⟩
    rw [List.flatMap_append, hall, List.replicate_succ']
    rfl

/-- The observer drops its handle. -/
theorem History.abandons (h : History tr s) {cell : State T W}
    {discarded : Option (Except CompletionError T)}
    (hobserver : s.observer = .holding ∨ s.observer = .returning)
    (habandon : s.cell.abandonObserver = (cell, discarded)) :
    History (tr ++ [.abandon discarded]) { s with cell, observer := .gone } := by
  have hgiven : (tr ++ [Event.abandon discarded]).flatMap Event.given
      = tr.flatMap Event.given := flatMap_snoc rfl
  have hpublished : (tr ++ [Event.abandon discarded]).flatMap Event.published
      = tr.flatMap Event.published := flatMap_snoc rfl
  have hextracted : (tr ++ [Event.abandon discarded]).flatMap Event.extracted
      = tr.flatMap Event.extracted := flatMap_snoc rfl
  have hthere : s.observer ≠ .gone := by
    rcases hobserver with h | h <;> simp [h]
  refine ⟨by simp, by rw [hgiven, hpublished]; exact h.fresh, hgiven ▸ h.given_le,
    iff_of_true rfl ⟨discarded, by simp⟩, fun {observerAlive waker} hc => ?_, fun {r} hc => ?_,
    fun _ => ?_⟩
  -- a pending cell only learns that nobody listens
  · cases hcell : s.cell with
    | pending =>
      obtain ⟨hholding, -, hnone⟩ := h.pending hcell
      rw [hcell] at habandon
      cases habandon
      cases hc
      exact ⟨hholding, by simp, by rw [hextracted, hnone]⟩
    | _ =>
      rw [hcell] at habandon
      cases habandon
      cases hc
  · cases hcell : s.cell <;> rw [hcell] at habandon <;> cases habandon <;> cases hc
  · rw [hpublished, hextracted]
    cases hcell : s.cell with
    | pending =>
      rw [hcell] at habandon
      cases habandon
      contradiction
    | ready r => exact ⟨(h.ready hcell).1, .inl ⟨rfl, (h.ready hcell).2.2.2.2⟩⟩
    | consumed =>
      exact ⟨(h.consumed hcell).1, .inr ((h.consumed hcell).2.resolve_left
        fun hgone => hthere hgone.1)⟩

/-- A step outside the critical sections. -/
theorem History.internal (h : History tr s) {producer : ProducerPc W} {observer : ObserverPc}
    (hproducer : s.producer = .holding ↔ producer = .holding)
    (hobserver : s.observer = .gone ↔ observer = .gone)
    (hpanic : ∀ panic, observer ≠ .panicked panic) :
    History (tr ++ [.internal]) { s with producer, observer } := by
  have hgiven : (tr ++ [Event.internal]).flatMap Event.given = tr.flatMap Event.given :=
    flatMap_snoc rfl
  have hpublished : (tr ++ [Event.internal]).flatMap Event.published
      = tr.flatMap Event.published := flatMap_snoc rfl
  have hextracted : (tr ++ [Event.internal]).flatMap Event.extracted
      = tr.flatMap Event.extracted := flatMap_snoc rfl
  refine ⟨hpanic, ?_, hgiven ▸ h.given_le, ?_, fun hc => ?_, fun hc => ?_, fun hc => ?_⟩
  · rw [hgiven, hpublished]
    exact fun hp => h.fresh (hproducer.mpr hp)
  · rw [← hobserver, h.gone]
    simp
  · rw [hextracted, ← hproducer, Ne, ← hobserver]
    exact h.pending hc
  · rw [hextracted, hpublished, Ne, ← hproducer, Ne, ← hobserver]
    exact h.ready hc
  · rw [hextracted, hpublished, Ne, ← hproducer, ← hobserver]
    exact h.consumed hc

theorem History.next {s' : Pair T W} {l : Event T} (h : History tr s) (hm : Moves s l s') :
    History (tr ++ [l]) s' := by
  cases hm with
  | @complete value cell result waker hholding hcomplete =>
    obtain ⟨observerAlive, waker', hpending⟩ := h.holding hholding
    have halive := (h.pending hpending).2.1
    rw [hpending] at hcomplete
    cases observerAlive with
    | true =>
      cases hcomplete
      exact h.produce hholding (by simp [Event.given]) rfl (by simp)
        (.inr ⟨halive.mp rfl, .ok value, rfl, by simp, rfl⟩)
    | false =>
      cases hcomplete
      exact h.produce hholding (by simp [Event.given]) rfl (by simp)
        (.inl ⟨by_contra fun hn => (nomatch halive.mpr hn), rfl⟩)
  | close hholding hclose =>
    obtain ⟨observerAlive, waker', hpending⟩ := h.holding hholding
    have halive := (h.pending hpending).2.1
    rw [hpending] at hclose
    cases observerAlive with
    | true =>
      cases hclose
      exact h.produce hholding (by simp [Event.given]) rfl (by simp)
        (.inr ⟨halive.mp rfl, .error .closed, rfl, by simp, rfl⟩)
    | false =>
      cases hclose
      exact h.produce hholding (by simp [Event.given]) rfl (by simp)
        (.inl ⟨by_contra fun hn => (nomatch halive.mpr hn), rfl⟩)
  | extract hobserver hextracts hobserver' => exact h.extracts hobserver hextracts hobserver'
  | abandon hobserver habandon => exact h.abandons hobserver habandon
  | internal hproducer hobserver hpanic => exact h.internal hproducer hobserver hpanic

end

theorem run_history {willWake : W → W → Bool} {tr : List (Event T)} {s : Pair T W}
    (h : (system T willWake).Run tr s) : History tr s := by
  refine h.invariant (I := History) (fun hinit => ?_) fun {_ s l s'} _ hs hstep => ?_
  · rw [hinit]
    exact .initial
  · have hmoves : Moves s l s' := Step.moves hstep hs.unpanicked
    exact hs.next hmoves

/-- A step puts a value somewhere exactly if it takes it from the cell or from
the producer. -/
theorem History.conserved {tr : List (Event T)} {s s' : Pair T W} {l : Event T}
    (h : History tr s) (hm : Moves s l s') :
    s.cell.stored ++ l.given = l.placed.map Prod.snd ++ s'.cell.stored := by
  cases hm with
  | complete hholding hcomplete =>
    obtain ⟨observerAlive, waker, hpending⟩ := h.holding hholding
    rw [hpending] at hcomplete ⊢
    cases observerAlive <;> cases hcomplete <;> rfl
  | close hholding hclose =>
    obtain ⟨observerAlive, waker, hpending⟩ := h.holding hholding
    rw [hpending] at hclose ⊢
    cases observerAlive <;> cases hclose <;> rfl
  | extract _ hextracts _ =>
    generalize s.cell = cell at hextracts
    cases hextracts with
    | pending => rfl
    | @ready result => cases result <;> rfl
    | consumed => rfl
  | abandon _ habandon =>
    cases hcell : s.cell with
    | pending observerAlive waker =>
      rw [hcell] at habandon
      cases habandon
      rfl
    | ready result =>
      rw [hcell] at habandon
      cases habandon
      cases result <;> rfl
    | consumed =>
      rw [hcell] at habandon
      cases habandon
      rfl
  | internal => exact List.append_nil _

end Completion

end Calandria
