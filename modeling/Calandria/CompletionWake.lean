/-
The wakers of a completion.

`Acts` is `Step` with finer labels: which waker a poll brought, and which waker
the producer calls.

* `Act.event` — the label of `Step` behind a finer one; the two systems have the
  same steps (`Acts.step`, `Step.acts`);
* `Wakes` — the waker in the cell, then in the producer's hands, wakes the task
  of the last pending poll;
* `wakers_kept` — a pending poll is woken once, and a blocked thread notified.
-/
import Calandria.Completion

namespace Calandria

namespace Completion

variable {T W : Type}

/-! ### Finer labels -/

/-- What a step does, with the wakers that pass through it. -/
inductive Act (T W : Type)
  | complete (value : T) (result : Except T Unit)
  | close
  /-- `notify_all`. -/
  | notify
  /-- The call of the waker that the cell held, if it held one. -/
  | wake (waker : Option W)
  | poll (context : W) (result : Option (Except CompletionError T))
  | tryTake (result : Option (Except CompletionError T))
  | wait (result : Except CompletionError T)
  | abandon (discarded : Option (Except CompletionError T))
  | internal

namespace Act

/-- What `Step` shows of it. -/
def event : Act T W → Event T
  | complete value result => .complete value result
  | close => .close
  | poll _ result | tryTake result => .extract result
  | wait result => .extract (some result)
  | abandon discarded => .abandon discarded
  | notify | wake _ | internal => .internal

/-- The waker of a poll, and what the poll returns. -/
def polled : Act T W → List (W × Option (Except CompletionError T))
  | poll context result => [(context, result)]
  | _ => []

/-- The waker of a poll that returns `Pending`. -/
def registered : Act T W → List W
  | poll context none => [context]
  | _ => []

/-- The waker that is called. -/
def woken : Act T W → List W
  | wake waker => waker.toList
  | _ => []

/-- The producer's part. -/
def ByProducer : Act T W → Prop
  | complete _ _ | close | notify | wake _ => True
  | poll _ _ | tryTake _ | wait _ | abandon _ | internal => False

end Act

/-- One step of either side, with the finer label. -/
inductive Acts (willWake : W → W → Bool) (s : Pair T W) : Act T W → Pair T W → Prop
  | complete {value result s'} : Step willWake s (.complete value result) s' →
      Acts willWake s (.complete value result) s'
  | close {s'} : Step willWake s .close s' → Acts willWake s .close s'
  | notify {waker} : s.producer = .notifying waker →
      Acts willWake s .notify { s with
        producer := .waking waker
        observer := match s.observer with
          | .blocked => .waiting
          | observer => observer }
  | wake {waker} : s.producer = .waking waker →
      Acts willWake s (.wake waker) { s with producer := .done }
  | poll {context cell result} : s.observer = .holding →
      s.cell.poll willWake context = .ok (cell, result) →
      Acts willWake s (.poll context result) { s with cell }
  | tryTake {cell result} : s.observer = .holding → s.cell.tryTake = .ok (cell, result) →
      Acts willWake s (.tryTake result) { s with cell }
  | wait {cell result} : s.observer = .waiting → s.cell.wait = .ok (cell, some result) →
      Acts willWake s (.wait result) { s with cell, observer := .returning }
  | abandon {discarded s'} : Step willWake s (.abandon discarded) s' →
      Acts willWake s (.abandon discarded) s'
  | internal {s'} : Step willWake s .internal s' → s'.producer = s.producer →
      Acts willWake s .internal s'

theorem Acts.step {willWake : W → W → Bool} {s s' : Pair T W} {a : Act T W}
    (h : Acts willWake s a s') : Step willWake s a.event s' := by
  cases h with
  | complete hs | close hs | abandon hs | internal hs _ => exact hs
  | notify hnotifying => exact .notify hnotifying
  | wake hwaking => exact .wake hwaking
  | poll hholding hpoll => exact .poll hholding hpoll
  | tryTake hholding htake => exact .tryTake hholding htake
  | wait hwaiting hwait => exact .wait hwaiting hwait

theorem Step.acts {willWake : W → W → Bool} {s s' : Pair T W} {l : Event T}
    (h : Step willWake s l s') : ∃ a : Act T W, a.event = l ∧ Acts willWake s a s' := by
  cases h with
  | complete hholding hcomplete => exact ⟨_, rfl, .complete (.complete hholding hcomplete)⟩
  | close hholding hclose => exact ⟨_, rfl, .close (.close hholding hclose)⟩
  | notify hnotifying => exact ⟨_, rfl, .notify hnotifying⟩
  | wake hwaking => exact ⟨_, rfl, .wake hwaking⟩
  | tryTake hholding htake => exact ⟨_, rfl, .tryTake hholding htake⟩
  | poll hholding hpoll => exact ⟨_, rfl, .poll hholding hpoll⟩
  | startWait hholding => exact ⟨_, rfl, .internal (.startWait hholding) rfl⟩
  | block hwaiting hwait => exact ⟨_, rfl, .internal (.block hwaiting hwait) rfl⟩
  | awaken hblocked => exact ⟨_, rfl, .internal (.awaken hblocked) rfl⟩
  | wait hwaiting hwait => exact ⟨_, rfl, .wait hwaiting hwait⟩
  | abandon hobserver habandon => exact ⟨_, rfl, .abandon (.abandon hobserver habandon)⟩
  | panic hpanics => exact ⟨_, rfl, .internal (.panic hpanics) rfl⟩

/-- A new completion, with the finer labels. -/
def wakers (T : Type) (willWake : W → W → Bool) : TransitionSystem (Pair T W) (Act T W) where
  init := (system T willWake).init
  step := Acts willWake

theorem run_system {willWake : W → W → Bool} {acts : List (Act T W)} {s : Pair T W}
    (h : (wakers T willWake).Run acts s) : (system T willWake).Run (acts.map Act.event) s :=
  h.relabel Act.event id Acts.step

/-- Every run of the completion can be told with the finer labels. -/
theorem run_wakers {willWake : W → W → Bool} {tr : List (Event T)} {s : Pair T W}
    (h : (system T willWake).Run tr s) :
    ∃ acts : List (Act T W), acts.map Act.event = tr ∧ (wakers T willWake).Run acts s :=
  h.unlabel Act.event id Step.acts

/-! ### Where the waker is -/

/-- The waker of the last poll that returned `Pending`. -/
def lastPending (acts : List (Act T W)) : Option W := (acts.flatMap Act.registered).getLast?

theorem lastPending_snoc (acts : List (Act T W)) {a : Act T W} (h : a.registered = []) :
    lastPending (acts ++ [a]) = lastPending acts := by
  rw [lastPending, List.flatMap_append, List.flatMap_singleton, h, List.append_nil, lastPending]

theorem lastPending_poll (acts : List (Act T W)) (context : W) :
    lastPending (acts ++ [.poll context none]) = some context := by
  rw [lastPending, List.flatMap_append, List.flatMap_singleton]
  exact List.getLast?_concat

theorem lastPending_of_polled {acts : List (Act T W)} {context : W}
    (h : (acts.flatMap Act.polled).getLast? = some (context, none)) :
    lastPending acts = some context := by
  induction acts using List.reverseRecOn with
  | nil => cases h
  | append_singleton acts a ih =>
    rw [List.flatMap_append, List.flatMap_singleton] at h
    cases a with
    | poll context' result =>
      obtain ⟨rfl, rfl⟩ : context' = context ∧ result = none := by
        simpa [Act.polled] using h
      exact lastPending_poll acts _
    | _ =>
      rw [lastPending_snoc acts rfl]
      exact ih (by simpa [Act.polled] using h)

/-! The waker that a critical section leaves in the cell. -/

namespace State

theorem wait_some {state cell : State T W} {result : Except CompletionError T}
    (h : state.wait = .ok (cell, some result)) : cell = .consumed := by
  cases state with
  | pending => cases h
  | ready | consumed => cases h; rfl

theorem tryTake_kept {state cell : State T W} {result : Option (Except CompletionError T)}
    (h : state.tryTake = .ok (cell, result)) : cell = state ∨ cell = .consumed := by
  cases state with
  | pending => cases h; exact .inl rfl
  | ready | consumed => cases h; exact .inr rfl

theorem abandonObserver_dropped {state cell : State T W}
    {discarded : Option (Except CompletionError T)} (h : state.abandonObserver = (cell, discarded))
    (waker : Option W) : cell ≠ .pending true waker := by
  cases state <;> cases h <;> simp

theorem complete_taken {state cell : State T W} {value : T} {result : Except T Unit}
    {waker : Option W} (h : state.complete value = (cell, result, waker)) :
    cell.isPending = false ∧ ∀ stored, state = .pending true stored → waker = stored := by
  cases state with
  | pending observerAlive => cases observerAlive <;> cases h <;> simp [isPending]
  | ready | consumed => cases h; simp [isPending]

theorem closeProducer_taken {state cell : State T W} {waker : Option W}
    (h : state.closeProducer = (cell, waker)) :
    cell.isPending = false ∧ ∀ stored, state = .pending true stored → waker = stored := by
  cases state with
  | pending observerAlive => cases observerAlive <;> cases h <;> simp [isPending]
  | ready | consumed => cases h; simp [isPending]

end State

section

variable {Tk : Type} {willWake : W → W → Bool} {task : W → Tk}

/-- The waker in the cell, then in the producer's hands, is one of the task of the
last pending poll, until the producer has called it. -/
structure Wakes (task : W → Tk) (acts : List (Act T W)) (s : Pair T W) : Prop where
  stored : ∀ {waker}, s.cell = .pending true waker →
    waker.map task = (lastPending acts).map task
  carried : ∀ {waker}, s.producer = .notifying waker ∨ s.producer = .waking waker →
    s.observer ≠ .gone → waker.map task = (lastPending acts).map task
  silent : s.producer ≠ .done → acts.flatMap Act.woken = []
  called : s.producer = .done → s.observer ≠ .gone →
    (acts.flatMap Act.woken).map task = ((lastPending acts).map task).toList
  blocked : s.observer = .blocked →
    s.cell.isPending = true ∨ ∃ waker, s.producer = .notifying waker
  once : (acts.flatMap Act.woken).length ≤ 1

variable {acts : List (Act T W)} {tr : List (Event T)} {s : Pair T W}

theorem Wakes.initial : Wakes task [] (⟨.new, .holding, .holding⟩ : Pair T W) := by
  refine ⟨fun hcell => ?_, by simp, by simp, by simp, by simp, by simp⟩
  cases hcell
  rfl

/-- A step that leaves the producer where it is and keeps no new waker. -/
theorem Wakes.frame (h : Wakes task acts s) {a : Act T W} {cell : State T W}
    {observer : ObserverPc} (hregistered : a.registered = []) (hwoken : a.woken = [])
    (hcell : ∀ {waker}, cell = .pending true waker → s.cell = .pending true waker)
    (hgone : observer ≠ .gone → s.observer ≠ .gone)
    (hblocked : observer = .blocked → cell.isPending = true ∨ s.observer = .blocked ∧ cell = s.cell) :
    Wakes task (acts ++ [a]) { s with cell, observer } := by
  have hwoken' : (acts ++ [a]).flatMap Act.woken = acts.flatMap Act.woken := by
    rw [List.flatMap_append, List.flatMap_singleton, hwoken, List.append_nil]
  refine ⟨fun hc => ?_, fun hp hthere => ?_, fun hp => ?_, fun hp hthere => ?_, fun hb => ?_,
    hwoken' ▸ h.once⟩
  · rw [lastPending_snoc acts hregistered]
    exact h.stored (hcell hc)
  · rw [lastPending_snoc acts hregistered]
    exact h.carried hp (hgone hthere)
  · rw [hwoken']
    exact h.silent hp
  · rw [hwoken', lastPending_snoc acts hregistered]
    exact h.called hp (hgone hthere)
  · rcases hblocked hb with hpending | ⟨hb', rfl⟩
    · exact .inl hpending
    · exact h.blocked hb'

/-- The terminal operation takes the waker out of the cell. -/
theorem Wakes.publish (h : Wakes task acts s) (hh : History tr s) (hholding : s.producer = .holding)
    {a : Act T W} {cell : State T W} {waker : Option W} (hregistered : a.registered = [])
    (hwoken : a.woken = []) (hcell : cell.isPending = false)
    (htaken : ∀ stored, s.cell = .pending true stored → waker = stored) :
    Wakes task (acts ++ [a]) { s with cell, producer := .notifying waker } := by
  have hsilent : (acts ++ [a]).flatMap Act.woken = [] := by
    rw [List.flatMap_append, List.flatMap_singleton, hwoken, List.append_nil]
    exact h.silent (by simp [hholding])
  refine ⟨fun hc => ?_, fun hp hthere => ?_, fun _ => hsilent, nofun, fun _ => .inr ⟨waker, rfl⟩,
    by simp [hsilent]⟩
  · rw [show cell = _ from hc] at hcell
    cases hcell
  · rw [lastPending_snoc acts hregistered]
    rcases hp with hp | hp <;> cases hp
    obtain ⟨observerAlive, stored, hpending⟩ := hh.holding hholding
    obtain rfl := (hh.pending hpending).2.1.mpr hthere
    obtain rfl := htaken stored hpending
    exact h.stored hpending

/-- A pending poll leaves a waker of its task, a new one or the one it found. -/
theorem Wakes.poll (hwill : ∀ stored context, willWake stored context = true →
      task stored = task context)
    (h : Wakes task acts s) (hh : History tr s) {context : W} {cell : State T W}
    {result : Option (Except CompletionError T)} (hobserver : s.observer = .holding)
    (hpoll : s.cell.poll willWake context = .ok (cell, result)) :
    Wakes task (acts ++ [.poll context result]) { s with cell } := by
  cases hcell : s.cell with
  | ready | consumed =>
    rw [hcell] at hpoll
    cases hpoll
    exact h.frame rfl rfl nofun id (by simp [hobserver])
  | pending observerAlive waker =>
    have hholding := (hh.pending hcell).1
    rw [hcell, State.poll] at hpoll
    have hkept : ∃ waker', cell = .pending observerAlive (some waker') ∧
        task waker' = task context ∧ result = none := by
      split_ifs at hpoll with hsame
      · obtain ⟨stored, rfl, hstored⟩ : ∃ stored, waker = some stored ∧
            willWake stored context = true := by
          simpa [Option.any_eq_true] using hsame
        cases hpoll
        exact ⟨stored, rfl, hwill stored context hstored, rfl⟩
      · cases hpoll
        exact ⟨context, rfl, rfl, rfl⟩
    obtain ⟨waker', rfl, htask, rfl⟩ := hkept
    have hsilent : (acts ++ [Act.poll context none]).flatMap Act.woken = [] := by
      rw [List.flatMap_append]
      simpa [Act.woken] using h.silent (by simp [hholding])
    refine ⟨fun hc => ?_, fun hp => ?_, fun _ => hsilent, fun hp => ?_, fun _ => .inl rfl,
      by simp [hsilent]⟩
    · cases hc
      rw [lastPending_poll, Option.map_some, Option.map_some, htask]
    · rw [hholding] at hp
      rcases hp with hp | hp <;> cases hp
    · rw [show s.producer = _ from hp] at hholding
      cases hholding

/-- The broadcast: no thread stays blocked. -/
theorem Wakes.notify (h : Wakes task acts s) {waker : Option W}
    (hnotifying : s.producer = .notifying waker) {observer : ObserverPc}
    (hgone : observer ≠ .gone → s.observer ≠ .gone) (hblocked : observer ≠ .blocked) :
    Wakes task (acts ++ [.notify]) { s with producer := .waking waker, observer } := by
  have hsilent : (acts ++ [Act.notify]).flatMap Act.woken = [] := by
    rw [List.flatMap_append]
    simpa [Act.woken] using h.silent (by simp [hnotifying])
  refine ⟨fun hc => ?_, fun hp hthere => ?_, fun _ => hsilent, nofun, fun hb => absurd hb hblocked,
    by simp [hsilent]⟩
  · rw [lastPending_snoc acts rfl]
    exact h.stored hc
  · rw [lastPending_snoc acts rfl]
    rcases hp with hp | hp <;> cases hp
    exact h.carried (.inl hnotifying) (hgone hthere)

/-- The producer calls the waker it carries, and is done. -/
theorem Wakes.wake (h : Wakes task acts s) {waker : Option W} (hwaking : s.producer = .waking waker) :
    Wakes task (acts ++ [.wake waker]) { s with producer := .done } := by
  have hwoken : (acts ++ [Act.wake waker]).flatMap Act.woken = waker.toList := by
    rw [List.flatMap_append, h.silent (by simp [hwaking])]
    exact List.flatMap_singleton ..
  refine ⟨fun hc => ?_, by simp, fun hp => absurd rfl hp, fun _ hthere => ?_, fun hb => ?_, ?_⟩
  · rw [lastPending_snoc acts rfl]
    exact h.stored hc
  · rw [lastPending_snoc acts rfl, ← h.carried (.inr hwaking) hthere, hwoken]
    cases waker <;> rfl
  · rcases h.blocked hb with hpending | ⟨waker', hnotifying⟩
    · exact .inl hpending
    · rw [hwaking] at hnotifying
      cases hnotifying
  · rw [hwoken]
    cases waker <;> simp

theorem Wakes.next (hwill : ∀ stored context, willWake stored context = true →
      task stored = task context)
    (h : Wakes task acts s) (hh : History tr s) {a : Act T W} {s' : Pair T W}
    (hstep : Acts willWake s a s') : Wakes task (acts ++ [a]) s' := by
  cases hstep with
  | complete hs =>
    cases hs with
    | complete hholding hcomplete =>
      obtain ⟨hsettled, htaken⟩ := State.complete_taken hcomplete
      exact h.publish hh hholding rfl rfl hsettled htaken
  | close hs =>
    cases hs with
    | close hholding hclose =>
      obtain ⟨hsettled, htaken⟩ := State.closeProducer_taken hclose
      exact h.publish hh hholding rfl rfl hsettled htaken
  | notify hnotifying =>
    refine h.notify hnotifying ?_ ?_
    · cases s.observer <;> simp
    · cases s.observer <;> simp
  | wake hwaking => exact h.wake hwaking
  | poll hholding hpoll => exact h.poll hwill hh hholding hpoll
  | tryTake hholding htake =>
    refine h.frame rfl rfl (fun hc => ?_) id (by simp [hholding])
    rcases State.tryTake_kept htake with rfl | rfl
    · exact hc
    · cases hc
  | wait hwaiting hwait =>
    obtain rfl := State.wait_some hwait
    exact h.frame rfl rfl nofun (by simp [hwaiting]) nofun
  | abandon hs =>
    cases hs with
    | abandon hobserver habandon =>
      exact h.frame rfl rfl (fun hc => absurd hc (State.abandonObserver_dropped habandon _))
        (fun hgone => absurd rfl hgone) nofun
  | internal hs hsame =>
    cases hs with
    | notify hnotifying => simp [hnotifying] at hsame
    | wake hwaking => simp [hwaking] at hsame
    | startWait hholding => exact h.frame rfl rfl id (by simp [hholding]) nofun
    | block hwaiting hwait =>
      obtain ⟨rfl, hpending⟩ := State.wait_none hwait
      exact h.frame rfl rfl id (by simp [hwaiting]) fun _ => .inl hpending
    | awaken hblocked => exact h.frame rfl rfl id (by simp [hblocked]) nofun
    | panic hpanics =>
      refine h.frame rfl rfl id (fun _ => ?_) nofun
      rcases hpanics with ⟨hholding, -⟩ | ⟨hholding, -⟩ | ⟨hwaiting, -⟩
      · simp [hholding]
      · simp [hholding]
      · simp [hwaiting]

theorem run_wakes (hwill : ∀ stored context, willWake stored context = true →
      task stored = task context)
    (h : (wakers T willWake).Run acts s) : Wakes task acts s := by
  refine h.invariant (I := fun acts s => Wakes task acts s) (fun hinit => ?_)
    fun {acts s a s'} hrun hw hstep => hw.next hwill (run_history (run_system hrun)) hstep
  rw [show _ = _ from hinit]
  exact .initial

/-! ### No waker is lost -/

/-- After its terminal operation the producer can finish by its own steps. -/
theorem finishes (h : s.producer ≠ .holding) : ∃ more s', (∀ a ∈ more, Act.ByProducer a) ∧
    Steps (Acts willWake) s more s' ∧ s'.producer = .done := by
  cases hproducer : s.producer with
  | holding => exact absurd hproducer h
  | notifying waker =>
    have hnotify : Acts willWake s .notify _ := .notify hproducer
    exact ⟨[.notify, .wake waker], _, by simp [Act.ByProducer],
      (Steps.single hnotify).snoc (.wake rfl), rfl⟩
  | waking waker =>
    exact ⟨[.wake waker], _, by simp [Act.ByProducer], .single (.wake hproducer), rfl⟩
  | done => exact ⟨[], s, nofun, .refl, hproducer⟩

/-- **No waker is lost.**  In every interleaving of the producer with an observer
that polls with any wakers:

* the task of a pending last poll is woken once the producer is done, and not
  before; no other waker is called;
* after the terminal operation every poll is ready;
* a thread blocked in `wait` then has its notification to come, and the
  notification finds the value there;
* the producer needs nobody to get there. -/
theorem wakers_kept (hwill : ∀ stored context, willWake stored context = true →
      task stored = task context)
    (h : (wakers T willWake).Run acts s) :
    (∀ context, (acts.flatMap Act.polled).getLast? = some (context, none) → s.observer ≠ .gone →
      (s.producer ≠ .done → acts.flatMap Act.woken = []) ∧
      (s.producer = .done → ∃ waker, acts.flatMap Act.woken = [waker] ∧
        task waker = task context)) ∧
    (acts.flatMap Act.woken).length ≤ 1 ∧
    (s.producer ≠ .holding → ∀ context,
      (∀ result s', Acts willWake s (.poll context result) s' → result.isSome = true) ∧
      (s.observer = .holding → ∃ result s', Acts willWake s (.poll context (some result)) s')) ∧
    (s.observer = .blocked → s.producer = .holding ∨ ∃ waker, s.producer = .notifying waker) ∧
    (∀ s', Acts willWake s .notify s' → s'.cell.isPending = false ∧ s'.observer ≠ .blocked) ∧
    (s.observer = .waiting → s.producer ≠ .holding →
      ∃ result s', Acts willWake s (.wait result) s') ∧
    (s.producer = .holding → (∃ s', Acts willWake s .close s') ∧
      ∀ value, ∃ result s', Acts willWake s (.complete value result) s') ∧
    (s.producer ≠ .holding → ∃ more s', (∀ a ∈ more, Act.ByProducer a) ∧
      Steps (Acts willWake) s more s' ∧ s'.producer = .done) := by
  have hw := run_wakes hwill h
  have hh := run_history (run_system h)
  -- once the producer has let go the cell is ready or consumed
  have hready : s.producer ≠ .holding →
      (∃ result, s.cell = .ready result) ∨ s.cell = .consumed := by
    intro hproducer
    cases hcell : s.cell with
    | pending => exact absurd (hh.pending hcell).1 hproducer
    | ready result => exact .inl ⟨result, rfl⟩
    | consumed => exact .inr rfl
  have hsettled : s.producer ≠ .holding → s.cell.isPending = false := by
    intro hproducer
    rcases hready hproducer with ⟨result, hcell⟩ | hcell <;> rw [hcell] <;> rfl
  refine ⟨fun context hlast hthere => ⟨hw.silent, fun hdone => ?_⟩, hw.once,
    fun hproducer context => ⟨fun result s' hpoll => ?_, fun hholding => ?_⟩, fun hblocked => ?_,
    fun s' hnotify => ?_, fun hwaiting hproducer => ?_, fun hholding => ⟨?_, fun value => ?_⟩,
    finishes⟩
  · have hcalled := hw.called hdone hthere
    rw [lastPending_of_polled hlast] at hcalled
    obtain ⟨waker, hwaker, htask⟩ := List.map_eq_singleton_iff.mp hcalled
    exact ⟨waker, hwaker, htask⟩
  · cases hpoll with
    | poll _ hpoll =>
      rcases hready hproducer with ⟨stored, hcell⟩ | hcell
      · rw [hcell] at hpoll
        cases hpoll
        rfl
      · rw [hcell] at hpoll
        cases hpoll
        rfl
  · rcases hready hproducer with ⟨result, hcell⟩ | hcell
    · exact ⟨result, _, .poll hholding (by rw [hcell]; rfl)⟩
    · exact ⟨.error .consumed, _, .poll hholding (by rw [hcell]; rfl)⟩
  · refine (hw.blocked hblocked).imp_left fun hpending => ?_
    by_contra hproducer
    simp [hsettled hproducer] at hpending
  · cases hnotify with
    | notify hnotifying =>
      refine ⟨hsettled (by simp [hnotifying]), ?_⟩
      cases s.observer <;> simp
  · rcases hready hproducer with ⟨result, hcell⟩ | hcell
    · exact ⟨result, _, .wait hwaiting (by rw [hcell]; rfl)⟩
    · exact ⟨.error .consumed, _, .wait hwaiting (by rw [hcell]; rfl)⟩
  · exact ⟨_, .close (.close hholding rfl)⟩
  · exact ⟨_, _, .complete (.complete hholding rfl)⟩

end

/-- Two polls with different wakers, then a completion: only the second is called. -/
theorem wakers_kept_repolled :
    ∃ s : Pair ℕ ℕ, (wakers ℕ (fun a b => a == b)).Run [.poll 1 none, .poll 2 none,
      .complete 9 (.ok ()), .notify, .wake (some 2)] s ∧
      ∃ waker, ([.poll 1 none, .poll 2 none, .complete 9 (.ok ()), .notify, .wake (some 2)] :
        List (Act ℕ ℕ)).flatMap Act.woken = [waker] ∧ id waker = id 2 := by
  have hfirst : Acts (fun a b : ℕ => a == b) ⟨.new, .holding, .holding⟩ (.poll 1 none)
      ⟨.pending true (some 1), .holding, .holding⟩ := .poll (T := ℕ) rfl rfl
  have hsecond : Acts (fun a b : ℕ => a == b) ⟨.pending true (some 1), .holding, .holding⟩
      (.poll 2 none) ⟨.pending true (some 2), .holding, .holding⟩ := .poll (T := ℕ) rfl rfl
  have hpolled : (wakers ℕ (fun a b : ℕ => a == b)).Run [.poll 1 none, .poll 2 none]
      ⟨.pending true (some 2), .holding, .holding⟩ := .next (.next (.start rfl) hfirst) hsecond
  have hcompleted : (wakers ℕ (fun a b : ℕ => a == b)).Run
      [.poll 1 none, .poll 2 none, .complete 9 (.ok ())]
      ⟨.ready (.ok 9), .notifying (some 2), .holding⟩ :=
    hpolled.next (.complete (.complete rfl rfl))
  have hrun := (hcompleted.next (.notify rfl)).next (.wake rfl)
  have hwill : ∀ a b : ℕ, (a == b) = true → id a = id b := fun a b => by simp
  exact ⟨_, hrun, ((wakers_kept hwill hrun).1 2 rfl nofun).2 rfl⟩

end Completion

end Calandria
