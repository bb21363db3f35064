/-
Linearization of the wake handle.

Positions in the trace of a run stand for times.  A step is looked at from the
side of one call (`Step.view`, `Step.ackView`), and what the trace says about
the calls is kept in four records, each with its own step lemma:

* `Returns` — a call that returned does nothing more;
* `Progress` — how far the trace shows a call of `wake` to be;
* `Epochs` — between two claims whose first backend call succeeds lies an
  acknowledgement that changed the phase;
* `Coverage` — while the phase is `REQUESTED`, some backend call succeeded that
  began after every acknowledgement that is done.

`wake_linearizable` assembles them.
-/
import Calandria.Wake

namespace Calandria

namespace WakeHandle

/-! ### A step from the side of one call -/

theorem Step.view {s s' : WakeState} {l : WakeLabel} (h : Step s l s') (hinv : Inv s) (c : ℕ) :
    ((∀ event, l ≠ .wake c event) ∧ s'.wakes c = s.wakes c) ∨
    (l = .wake c .invoke ∧ s.wakes c = none ∧ s'.wakes c = some (.load 0) ∧ s'.phase = s.phase) ∨
    ∃ event phase pc pc', l = .wake c event ∧ s.wakes c = some pc ∧ s'.wakes c = some pc' ∧
      s'.phase = phase ∧ pc.Moves s.phase event phase pc' := by
  cases h with
  | @wake d hnone =>
    by_cases hcd : c = d
    · subst hcd
      exact .inr (.inl ⟨rfl, hnone, Function.update_self .., rfl⟩)
    · exact .inl ⟨by simp [Ne.symm hcd], Function.update_of_ne hcd ..⟩
  | @waking d pc ok event phase pc' hpc hnext =>
    by_cases hcd : c = d
    · subst hcd
      exact .inr (.inr ⟨event, phase, pc, pc', rfl, hpc, Function.update_self .., rfl,
        hinv.exclusive.moves hpc hnext⟩)
    · exact .inl ⟨by simp [Ne.symm hcd], Function.update_of_ne hcd ..⟩
  | acknowledge | acknowledging => exact .inl ⟨by simp, rfl⟩

theorem Step.ackView {s s' : WakeState} {l : WakeLabel} (h : Step s l s') (hinv : Inv s) (a : ℕ) :
    ((∀ event, l ≠ .acknowledge a event) ∧ s'.acks a = s.acks a) ∨
    (l = .acknowledge a .invoke ∧ s.acks a = none ∧ s'.acks a = some .load) ∨
    ∃ event phase pc pc', l = .acknowledge a event ∧ s.acks a = some pc ∧ s'.acks a = some pc' ∧
      s'.phase = phase ∧ pc.Moves s.phase event phase pc' := by
  cases h with
  | @acknowledge d hnone =>
    by_cases had : a = d
    · subst had
      exact .inr (.inl ⟨rfl, hnone, Function.update_self ..⟩)
    · exact .inl ⟨by simp [Ne.symm had], Function.update_of_ne had ..⟩
  | @acknowledging d pc event phase pc' hpc hnext =>
    by_cases had : a = d
    · subst had
      exact .inr (.inr ⟨event, phase, pc, pc', rfl, hpc, Function.update_self .., rfl,
        hinv.exclusive.ackMoves hnext⟩)
    · exact .inl ⟨by simp [Ne.symm had], Function.update_of_ne had ..⟩
  | wake | waking => exact .inl ⟨by simp, rfl⟩

/-- A claim takes the phase from `IDLE`. -/
theorem Step.claims {s s' : WakeState} {c : ℕ} (hinv : Inv s)
    (h : Step s (.wake c (.compareExchange IDLE WAKING IDLE)) s') :
    s.phase = IDLE ∧ s'.phase = WAKING ∧ s'.wakes c = some .start ∧
      ∃ spins, s.wakes c = some (.claim spins) := by
  rcases h.view hinv c with ⟨hne, _⟩ | ⟨hl, _⟩ | ⟨event, phase, pc, pc', hl, hpc, hpc', hphase, hm⟩
  · exact absurd rfl (hne _)
  · cases hl
  · cases hl
    generalize hevent : Event.compareExchange IDLE WAKING IDLE = event at hm
    cases hm with
    | claimed hidle => exact ⟨hidle, hphase, hpc', _, hpc⟩
    | raced hne =>
      simp only [Event.compareExchange.injEq, true_and] at hevent
      exact absurd hevent.symm hne
    | published | overtaken => simp at hevent
    | coalesced | vacant | spun | started | succeeded | failed | stored | reopened | returned =>
      cases hevent

/-- What every move of a call keeps, every step keeps. -/
theorem Step.keeps {s s' : WakeState} {l : WakeLabel} {c : ℕ} (h : Step s l s') (hinv : Inv s)
    {P : WakePc → Prop}
    (hmoves : ∀ {event phase pc pc'}, pc.Moves s.phase event phase pc' → P pc → P pc')
    (hpc : ∃ pc, s.wakes c = some pc ∧ P pc) : ∃ pc, s'.wakes c = some pc ∧ P pc := by
  obtain ⟨pc, hpc, hP⟩ := hpc
  rcases h.view hinv c with ⟨_, hsame⟩ | ⟨_, hnone, _⟩ | ⟨_, _, _, pc', _, hpc₀, hpc', _, hm⟩
  · exact ⟨pc, hsame.trans hpc, hP⟩
  · simp [hnone] at hpc
  · obtain rfl := Option.some_inj.mp (hpc.symm.trans hpc₀)
    exact ⟨pc', hpc', hmoves hm hP⟩

theorem Step.stays {s s' : WakeState} {l : WakeLabel} {c : ℕ} (h : Step s l s') (hinv : Inv s)
    (hpc : s.wakes c ≠ none) : s'.wakes c ≠ none := by
  rcases h.view hinv c with ⟨_, hsame⟩ | ⟨_, _, hload, _⟩ | ⟨_, _, _, _, _, _, hpc', _⟩
  · rwa [hsame]
  · simp [hload]
  · simp [hpc']

/-- An event in the grown trace is an old one or the step's. -/
theorem Step.recorded {tr : List WakeLabel} {s s' : WakeState} {l : WakeLabel} {p c : ℕ}
    {event : Event} (h : Step s l s') (hinv : Inv s)
    (hp : (tr ++ [l])[p]? = some (.wake c event)) :
    tr[p]? = some (.wake c event) ∨ p = tr.length ∧ l = .wake c event ∧
      ((event = .invoke ∧ s.wakes c = none ∧ s'.wakes c = some (.load 0)) ∨
        ∃ phase pc pc', s.wakes c = some pc ∧ s'.wakes c = some pc' ∧ s'.phase = phase ∧
          pc.Moves s.phase event phase pc') := by
  rcases getElem?_snoc.mp hp with hp | ⟨rfl, rfl⟩
  · exact .inl hp
  · rcases h.view hinv c with ⟨hne, _⟩ | ⟨hl, hnone, hload, _⟩ | ⟨_, phase, pc, pc', hl, hpc⟩
    · exact absurd rfl (hne _)
    · cases hl
      exact .inr ⟨rfl, rfl, .inl ⟨rfl, hnone, hload⟩⟩
    · cases hl
      exact .inr ⟨rfl, rfl, .inr ⟨phase, pc, pc', hpc⟩⟩

/-- Who may lead the phase to where it is. -/
theorem Step.phase {s s' : WakeState} {l : WakeLabel} (h : Step s l s') (hinv : Inv s) :
    (s'.phase = WAKING → s.phase = WAKING ∨ s.phase = IDLE) ∧
    (s'.phase = WAKING_ACKNOWLEDGED → s.phase = WAKING_ACKNOWLEDGED ∨
      ∃ a, l = .acknowledge a (.compareExchange WAKING WAKING_ACKNOWLEDGED WAKING)) ∧
    (s'.phase = REQUESTED → s.phase = REQUESTED ∨
      s.phase = WAKING ∧ ∃ c, s.wakes c = some .publish) ∧
    (s.phase = REQUESTED → s'.phase = REQUESTED ∨
      ∃ a, l = .acknowledge a (.compareExchange REQUESTED IDLE REQUESTED)) := by
  cases h with
  | wake | acknowledge => exact ⟨.inl, .inl, .inl, .inl⟩
  | waking hpc hnext =>
    have hm := hinv.exclusive.moves hpc hnext
    have hheld : _ → s.phase = WAKING ∨ s.phase = WAKING_ACKNOWLEDGED := hinv.exclusive.holds hpc
    -- only a claim, a publication, a store and a reopening write the phase
    cases hm with
    | coalesced | vacant | spun | raced | started | succeeded | failed | overtaken | returned =>
      exact ⟨.inl, .inl, .inl, .inl⟩
    | claimed hidle => exact ⟨fun _ => .inr hidle, by simp, by simp, by simp [hidle]⟩
    | published hwaking =>
      exact ⟨by simp, by simp, fun _ => .inr ⟨hwaking, _, hpc⟩, fun _ => .inl rfl⟩
    | stored =>
      have := hinv.exclusive.storing hpc
      exact ⟨by simp, by simp, by simp, by simp [this]⟩
    | reopened hheld => exact ⟨by simp, by simp, by simp, fun hr => by grind⟩
  | acknowledging hpc hnext =>
    cases hinv.exclusive.ackMoves hnext with
    | settled | sawRequested | sawWaking | clearRaced | markRaced | returned =>
      exact ⟨.inl, .inl, .inl, .inl⟩
    | cleared => exact ⟨by simp, by simp, by simp, fun _ => .inr ⟨_, rfl⟩⟩
    | marked hwaking => exact ⟨by simp, fun _ => .inr ⟨_, rfl⟩, by simp, by simp [hwaking]⟩

/-! ### What the trace says -/

/-- A successful exchange of `IDLE` for `WAKING`. -/
def Claims (tr : List WakeLabel) (p c : ℕ) : Prop :=
  tr[p]? = some (.wake c (.compareExchange IDLE WAKING IDLE))

/-- Whether the step is an acknowledgement's successful exchange. -/
def changes : WakeLabel → Bool
  | .acknowledge _ (.compareExchange current _ actual) => actual = current
  | .acknowledge _ _ => false
  | .wake _ _ => false

/-- An acknowledgement changed the phase at `q`. -/
def Acknowledges (tr : List WakeLabel) (q : ℕ) : Prop := ∃ l, tr[q]? = some l ∧ changes l = true

instance (tr : List WakeLabel) (q : ℕ) : Decidable (Acknowledges tr q) :=
  decidable_of_iff (tr[q]?.any changes = true) (Option.any_eq_true _ _)

/-- The backend call of `c` began at `p` and returned `Ok` at `r`. -/
structure BackendOk (tr : List WakeLabel) (c p r : ℕ) : Prop where
  start : tr[p]? = some (.wake c .start)
  finish : tr[r]? = some (.wake c (.finish true))
  before : p < r

/-- `p` lies after every operation of the acknowledgements that returned before `i`. -/
def AfterAcks (tr : List WakeLabel) (i p : ℕ) : Prop :=
  ∀ (a q k : ℕ) (event : Event) (ok : Bool), tr[q]? = some (.acknowledge a (.returned ok)) →
    q < i → tr[k]? = some (.acknowledge a event) → event.atomic = true → k < p

/-- `p` lies after every operation of the acknowledgements that are done. -/
def Passed (tr : List WakeLabel) (s : WakeState) (p : ℕ) : Prop :=
  ∀ (a : ℕ) (pc : AckPc) (k : ℕ) (event : Event), s.acks a = some pc → pc.done = true →
    tr[k]? = some (.acknowledge a event) → event.atomic = true → k < p

/-- A call that returned does nothing more. -/
def Returns (tr : List WakeLabel) (s : WakeState) : Prop :=
  ∀ (a q : ℕ) (ok : Bool), tr[q]? = some (.acknowledge a (.returned ok)) →
    s.acks a = some .returned ∧ ∀ k event, tr[k]? = some (.acknowledge a event) → k ≤ q

theorem Acknowledges.snoc {tr : List WakeLabel} {l : WakeLabel} {q : ℕ} (h : Acknowledges tr q) :
    Acknowledges (tr ++ [l]) q := by
  obtain ⟨l', hl', hchanges⟩ := h
  exact ⟨l', getElem?_snoc_of hl', hchanges⟩

theorem Acknowledges.last {tr : List WakeLabel} {l : WakeLabel} (h : changes l = true) :
    Acknowledges (tr ++ [l]) tr.length :=
  ⟨l, getElem?_snoc.mpr (.inr ⟨rfl, rfl⟩), h⟩

theorem BackendOk.snoc {tr : List WakeLabel} {l : WakeLabel} {c p r : ℕ} (h : BackendOk tr c p r) :
    BackendOk (tr ++ [l]) c p r :=
  ⟨getElem?_snoc_of h.start, getElem?_snoc_of h.finish, h.before⟩

/-! ### Acknowledgements -/

section

variable {tr : List WakeLabel} {s s' : WakeState} {l : WakeLabel} (hinv : Inv s)
  (hstep : Step s l s')

include hinv hstep

theorem Returns.next (h : Returns tr s) : Returns (tr ++ [l]) s' := by
  intro a q ok hq
  rcases hstep.ackView hinv a with ⟨hne, hsame⟩ | ⟨rfl, hnone, _⟩ |
    ⟨event, phase, pc, pc', rfl, hpc, hpc', _, hm⟩
  · -- the step belongs to another call
    rcases getElem?_snoc.mp hq with hq | ⟨_, hl⟩
    swap
    · exact absurd hl.symm (hne _)
    obtain ⟨hreturned, hlast⟩ := h a q ok hq
    refine ⟨hsame.trans hreturned, fun k event hk => ?_⟩
    rcases getElem?_snoc.mp hk with hk | ⟨_, hl⟩
    · exact hlast k event hk
    · exact absurd hl.symm (hne _)
  · rcases getElem?_snoc.mp hq with hq | ⟨_, hl⟩
    · simp [(h a q ok hq).1] at hnone
    · cases hl
  · rcases getElem?_snoc.mp hq with hq | ⟨rfl, hl⟩
    · obtain rfl := Option.some_inj.mp (hpc.symm.trans (h a q ok hq).1)
      cases hm
    · cases hl
      cases hm
      refine ⟨hpc', fun k event hk => ?_⟩
      have hlt := lt_length_of_getElem? hk
      rw [List.length_append, List.length_singleton] at hlt
      omega

/-- As long as the phase stays at `WAKING` or `REQUESTED`, no acknowledgement gets done. -/
theorem Passed.next {p : ℕ} (h : Passed tr s p)
    (hphase : s'.phase = WAKING ∨ s'.phase = REQUESTED) : Passed (tr ++ [l]) s' p := by
  intro a pc' k event hpc' hdone hk hatomic
  rcases hstep.ackView hinv a with ⟨hne, hsame⟩ | ⟨_, _, hload⟩ |
    ⟨_, phase, pc, _, rfl, hpc, hmoved, rfl, hm⟩
  · rcases getElem?_snoc.mp hk with hk | ⟨_, hl⟩
    · exact h a pc' k event (hsame ▸ hpc') hdone hk hatomic
    · exact absurd hl.symm (hne _)
  · obtain rfl := Option.some_inj.mp (hload.symm.trans hpc')
    cases hdone
  · obtain rfl := Option.some_inj.mp (hmoved.symm.trans hpc')
    generalize s'.phase = phase' at hm hphase
    cases hm with
    | settled hsettled => grind
    | cleared | marked => simp at hphase
    | sawRequested | sawWaking | clearRaced | markRaced => cases hdone
    | returned =>
      rcases getElem?_snoc.mp hk with hk | ⟨_, hl⟩
      · exact h a _ k event hpc rfl hk hatomic
      · cases hl
        cases hatomic

theorem AfterAcks.next {i p : ℕ} (h : AfterAcks tr i p) (hreturns : Returns tr s)
    (hi : i < tr.length) : AfterAcks (tr ++ [l]) i p := by
  intro a q k event ok hq hqi hk hatomic
  rw [List.getElem?_append_left (by omega)] at hq
  rcases getElem?_snoc.mp hk with hk | ⟨_, rfl⟩
  · exact h a q k event ok hq hqi hk hatomic
  · -- the call has returned, so the step is none of its own
    have hreturned := (hreturns a q ok hq).1
    rcases hstep.ackView hinv a with ⟨hne, _⟩ | ⟨_, hnone, _⟩ | ⟨_, _, _, _, _, hpc, _, _, hm⟩
    · exact absurd rfl (hne _)
    · simp [hreturned] at hnone
    · obtain rfl := Option.some_inj.mp (hreturned.symm.trans hpc)
      cases hm

end

theorem Passed.afterAcks {tr : List WakeLabel} {s : WakeState} {i p : ℕ} (h : Passed tr s p)
    (hreturns : Returns tr s) : AfterAcks tr i p :=
  fun a q k event ok hq _ hk hatomic => h a _ k event (hreturns a q ok hq).1 rfl hk hatomic

theorem afterAcks_of_lt {tr : List WakeLabel} {s : WakeState} {i p : ℕ} (hlt : i < p)
    (hreturns : Returns tr s) : AfterAcks tr i p := by
  intro a q k event ok hq hqi hk _
  have hle := (hreturns a q ok hq).2 k event hk
  omega

/-! ### How far a call is -/

/-- What the trace says about the calls of `wake`. -/
structure Progress (tr : List WakeLabel) (s : WakeState) : Prop where
  known : ∀ {i c : ℕ} {event : Event}, tr[i]? = some (.wake c event) → s.wakes c ≠ none
  succeeded : ∀ {r c : ℕ}, tr[r]? = some (.wake c (.finish true)) →
    ∃ pc, s.wakes c = some pc ∧ pc.succeeded = true
  claimed : ∀ {p c : ℕ}, Claims tr p c → ∃ pc, s.wakes c = some pc ∧ pc.looping = false
  once : ∀ {p p' c : ℕ}, Claims tr p c → Claims tr p' c → p = p'
  failed : ∀ {c : ℕ}, s.wakes c = some .reopen ∨ s.wakes c = some (.returning false) →
    ∃ r : ℕ, tr[r]? = some (.wake c (.finish false))
  refused : ∀ {j c : ℕ}, tr[j]? = some (.wake c (.returned false)) →
    ∃ r : ℕ, r < j ∧ tr[r]? = some (.wake c (.finish false))

theorem Progress.next {tr : List WakeLabel} {s s' : WakeState} {l : WakeLabel} (hinv : Inv s)
    (hstep : Step s l s') (h : Progress tr s) : Progress (tr ++ [l]) s' := by
  refine ⟨fun hi => ?_, fun hr => ?_, fun hp => ?_, fun {p p' c} hp hp' => ?_,
    fun {c} hc => ?_, fun hj => ?_⟩
  · rcases hstep.recorded hinv hi with hi | ⟨_, _, ⟨_, _, hload⟩ | ⟨_, _, _, _, hpc', _⟩⟩
    · exact hstep.stays hinv (h.known hi)
    · simp [hload]
    · simp [hpc']
  · rcases hstep.recorded hinv hr with hr | ⟨_, _, ⟨hevent, _⟩ | ⟨_, _, _, _, hpc', _, hm⟩⟩
    · refine hstep.keeps hinv (fun hm hsucceeded => ?_) (h.succeeded hr)
      cases hm <;> first | rfl | exact hsucceeded
    · cases hevent
    · cases hm
      exact ⟨_, hpc', rfl⟩
  · rcases getElem?_snoc.mp hp with hp | ⟨_, rfl⟩
    · refine hstep.keeps hinv (fun hm hlooping => ?_) (h.claimed hp)
      cases hm <;> first | rfl | cases hlooping
    · exact ⟨_, (Step.claims hinv hstep).2.2.1, rfl⟩
  · -- a call past its claim does not come back to it
    have hfresh : ∀ {p}, Claims tr p c → l ≠ .wake c (.compareExchange IDLE WAKING IDLE) := by
      rintro q hq rfl
      obtain ⟨pc, hpc, hlooping⟩ := h.claimed hq
      obtain ⟨_, _, _, spins, hspins⟩ := Step.claims hinv hstep
      obtain rfl := Option.some_inj.mp (hpc.symm.trans hspins)
      cases hlooping
    rcases getElem?_snoc.mp hp with hp | ⟨rfl, hl⟩
    · rcases getElem?_snoc.mp hp' with hp' | ⟨_, hl⟩
      · exact h.once hp hp'
      · exact absurd hl.symm (hfresh hp)
    · rcases getElem?_snoc.mp hp' with hp' | ⟨rfl, _⟩
      · exact absurd hl.symm (hfresh hp')
      · rfl
  · rcases hstep.view hinv c with ⟨_, hsame⟩ | ⟨_, _, hload, _⟩ |
      ⟨_, _, _, pc', rfl, hpc, hpc', _, hm⟩
    · rw [hsame] at hc
      obtain ⟨r, hr⟩ := h.failed hc
      exact ⟨r, getElem?_snoc_of hr⟩
    · simp [hload] at hc
    · rw [hpc'] at hc
      cases hm with
      | failed => exact ⟨tr.length, by simp⟩
      | reopened =>
        obtain ⟨r, hr⟩ := h.failed (.inl hpc)
        exact ⟨r, getElem?_snoc_of hr⟩
      | coalesced | vacant | spun | claimed | raced | started | succeeded | published | overtaken
      | stored | returned => simp at hc
  · rcases hstep.recorded hinv hj with hj | ⟨rfl, _, ⟨hevent, _⟩ | ⟨_, _, _, hpc, _, _, hm⟩⟩
    · obtain ⟨r, hlt, hr⟩ := h.refused hj
      exact ⟨r, hlt, getElem?_snoc_of hr⟩
    · cases hevent
    · cases hm
      obtain ⟨r, hr⟩ := h.failed (.inr hpc)
      exact ⟨r, lt_length_of_getElem? hr, getElem?_snoc_of hr⟩

/-! ### Epochs -/

/-- What lies between two claims. -/
structure Epochs (tr : List WakeLabel) (s : WakeState) : Prop where
  /-- The claim of the call that holds it is the last one. -/
  holder : ∀ {c pc}, s.wakes c = some pc → pc.critical = true →
    ∃ p, Claims tr p c ∧ (∀ p' c', Claims tr p' c' → p' ≤ p) ∧
      (s.phase = WAKING_ACKNOWLEDGED → ∃ q, p < q ∧ Acknowledges tr q)
  /-- A successful request is acknowledged before the phase is `IDLE` again. -/
  reset : ∀ {r p c : ℕ}, tr[r]? = some (.wake c (.finish true)) → Claims tr p c →
    (∀ pc, s.wakes c = some pc → pc.critical = false) → s.phase ≠ REQUESTED →
    ∃ q, p < q ∧ Acknowledges tr q
  apart : ∀ {r p p' c c' : ℕ}, tr[r]? = some (.wake c (.finish true)) → Claims tr p c →
    Claims tr p' c' → p < p' → ∃ q, p < q ∧ q < p' ∧ Acknowledges tr q

section

variable {tr : List WakeLabel} {s s' : WakeState} {l : WakeLabel} (hinv : Inv s)
  (hstep : Step s l s') (h : Epochs tr s)

include hinv hstep h

/-- The old holder stays the last one to claim, as nobody else can. -/
theorem Epochs.kept {c : ℕ} {pc : WakePc} (hpc : s.wakes c = some pc) (hcrit : pc.critical = true) :
    ∃ p, Claims (tr ++ [l]) p c ∧ (∀ p' c', Claims (tr ++ [l]) p' c' → p' ≤ p) ∧
      (s'.phase = WAKING_ACKNOWLEDGED → ∃ q, p < q ∧ Acknowledges (tr ++ [l]) q) := by
  obtain ⟨p, hp, hlast, hacked⟩ := h.holder hpc hcrit
  refine ⟨p, getElem?_snoc_of hp, fun p' c' hp' => ?_, fun hphase => ?_⟩
  · rcases getElem?_snoc.mp hp' with hp' | ⟨_, rfl⟩
    · exact hlast p' c' hp'
    · have hheld := hinv.exclusive.holds hpc hcrit
      have hidle := (Step.claims hinv hstep).1
      grind
  · rcases (hstep.phase hinv).2.1 hphase with hphase | ⟨a, rfl⟩
    · obtain ⟨q, hpq, hq⟩ := hacked hphase
      exact ⟨q, hpq, hq.snoc⟩
    · exact ⟨tr.length, lt_length_of_getElem? hp, .last rfl⟩

theorem Epochs.holder_next {c : ℕ} {pc : WakePc} (hpc : s'.wakes c = some pc)
    (hcrit : pc.critical = true) :
    ∃ p, Claims (tr ++ [l]) p c ∧ (∀ p' c', Claims (tr ++ [l]) p' c' → p' ≤ p) ∧
      (s'.phase = WAKING_ACKNOWLEDGED → ∃ q, p < q ∧ Acknowledges (tr ++ [l]) q) := by
  rcases hstep.view hinv c with ⟨_, hsame⟩ | ⟨_, _, hload, _⟩ |
    ⟨_, _, pc₀, pc', rfl, hpc₀, hpc', hphase, hm⟩
  · exact h.kept hinv hstep (hsame ▸ hpc) hcrit
  · obtain rfl := Option.some_inj.mp (hload.symm.trans hpc)
    cases hcrit
  · obtain rfl := Option.some_inj.mp (hpc'.symm.trans hpc)
    cases hm with
    | claimed =>
      refine ⟨tr.length, by simp [Claims], fun p' c' hp' => ?_, fun hp => ?_⟩
      · have hle := lt_length_of_getElem? hp'
        rw [List.length_append, List.length_singleton] at hle
        omega
      · simp [hphase] at hp
    | started | succeeded | failed | overtaken => exact h.kept hinv hstep hpc₀ rfl
    | coalesced | vacant | spun | raced | published | stored | reopened | returned =>
      cases hcrit

theorem Epochs.reset_next (hprogress : Progress tr s) {r p c : ℕ}
    (hr : (tr ++ [l])[r]? = some (.wake c (.finish true))) (hp : Claims (tr ++ [l]) p c)
    (hfree : ∀ pc, s'.wakes c = some pc → pc.critical = false) (hphase : s'.phase ≠ REQUESTED) :
    ∃ q, p < q ∧ Acknowledges (tr ++ [l]) q := by
  by_cases hrequested : s.phase = REQUESTED
  · -- only an acknowledgement leads away from `REQUESTED`
    rcases (hstep.phase hinv).2.2.2 hrequested with hsame | ⟨a, rfl⟩
    · exact absurd hsame hphase
    · rcases getElem?_snoc.mp hp with hp | ⟨_, hl⟩
      · exact ⟨tr.length, lt_length_of_getElem? hp, .last rfl⟩
      · cases hl
  rcases hstep.view hinv c with ⟨hne, hsame⟩ | ⟨rfl, hnone, _⟩ |
    ⟨_, _, pc₀, pc', rfl, hpc₀, hpc', hphase', hm⟩
  · rcases getElem?_snoc.mp hr with hr | ⟨_, hl⟩
    swap
    · exact absurd hl.symm (hne _)
    rcases getElem?_snoc.mp hp with hp | ⟨_, hl⟩
    swap
    · exact absurd hl.symm (hne _)
    obtain ⟨q, hpq, hq⟩ := h.reset hr hp (hsame ▸ hfree) hrequested
    exact ⟨q, hpq, hq.snoc⟩
  · rcases getElem?_snoc.mp hr with hr | ⟨_, hl⟩
    · obtain ⟨_, hpc, _⟩ := hprogress.succeeded hr
      simp [hnone] at hpc
    · cases hl
  · have hfree' := hfree _ hpc'
    rcases getElem?_snoc.mp hr with hrold | ⟨_, hl⟩
    swap
    · cases hl
      cases hm
      cases hfree'
    -- the call saw its success before, so it can only publish it or return
    obtain ⟨pc, hpc, hsucceeded⟩ := hprogress.succeeded hrold
    obtain rfl := Option.some_inj.mp (hpc.symm.trans hpc₀)
    cases hm with
    | published => exact absurd hphase' hphase
    | overtaken => cases hfree'
    | stored =>
      rcases getElem?_snoc.mp hp with hp | ⟨_, hl⟩
      · obtain ⟨p₀, _, hlast, hacked⟩ := h.holder hpc₀ rfl
        obtain ⟨q, hpq, hq⟩ := hacked (hinv.exclusive.storing hpc₀)
        exact ⟨q, (hlast p c hp).trans_lt hpq, hq.snoc⟩
      · cases hl
    | returned =>
      rcases getElem?_snoc.mp hp with hp | ⟨_, hl⟩
      · obtain ⟨q, hpq, hq⟩ := h.reset hrold hp
          (fun pc hpc => by rw [← Option.some_inj.mp (hpc₀.symm.trans hpc)]; rfl) hrequested
        exact ⟨q, hpq, hq.snoc⟩
      · cases hl
    | coalesced | vacant | spun | claimed | raced | started | succeeded | failed | reopened =>
      cases hsucceeded

theorem Epochs.apart_next (hprogress : Progress tr s) {r p p' c c' : ℕ}
    (hr : (tr ++ [l])[r]? = some (.wake c (.finish true))) (hp : Claims (tr ++ [l]) p c)
    (hp' : Claims (tr ++ [l]) p' c') (hpp : p < p') :
    ∃ q, p < q ∧ q < p' ∧ Acknowledges (tr ++ [l]) q := by
  -- the earlier claim is not the step that is taken
  have hpold : Claims tr p c := by
    rcases getElem?_snoc.mp hp with hp | ⟨rfl, _⟩
    · exact hp
    · have hle := lt_length_of_getElem? hp'
      rw [List.length_append, List.length_singleton] at hle
      omega
  rcases getElem?_snoc.mp hp' with hp' | ⟨rfl, rfl⟩
  · rcases hstep.recorded hinv hr with hr | ⟨_, _, ⟨hevent, _⟩ | ⟨_, _, _, hpc, _, _, hm⟩⟩
    · obtain ⟨q, hpq, hqp, hq⟩ := h.apart hr hpold hp' hpp
      exact ⟨q, hpq, hqp, hq.snoc⟩
    · cases hevent
    · -- the backend call of the holder ends, and nobody claimed after it
      cases hm
      obtain ⟨p₀, hp₀, hlast, _⟩ := h.holder hpc rfl
      obtain rfl := hprogress.once hp₀ hpold
      have hle := hlast p' c' hp'
      omega
  · -- a new claim: the phase is `IDLE`, and no call holds the claim
    have hidle := (Step.claims hinv hstep).1
    have hrold : tr[r]? = some (.wake c (.finish true)) := by
      rcases getElem?_snoc.mp hr with hr | ⟨_, hl⟩
      · exact hr
      · cases hl
    obtain ⟨q, hpq, hq⟩ := h.reset hrold hpold
      (fun pc hpc => hinv.exclusive.quiet (.inl hidle) hpc) (by simp [hidle])
    have hql : q < tr.length := by
      obtain ⟨_, hl, _⟩ := hq
      exact lt_length_of_getElem? hl
    exact ⟨q, hpq, hql, hq.snoc⟩

theorem Epochs.next (hprogress : Progress tr s) : Epochs (tr ++ [l]) s' :=
  ⟨h.holder_next hinv hstep, h.reset_next hinv hstep hprogress, h.apart_next hinv hstep hprogress⟩

end

/-! ### Coverage -/

/-- Which backend call answers for a request. -/
structure Coverage (tr : List WakeLabel) (s : WakeState) : Prop where
  started : ∀ {c}, s.wakes c = some .backend → ∃ p : ℕ, tr[p]? = some (.wake c .start) ∧
    (∀ i : ℕ, tr[i]? = some (.wake c .invoke) → i < p) ∧ (s.phase = WAKING → Passed tr s p)
  finished : ∀ {c}, s.wakes c = some .publish ∨ s.wakes c = some .store →
    ∃ p r, BackendOk tr c p r ∧ (∀ i : ℕ, tr[i]? = some (.wake c .invoke) → i < p) ∧
      (s.phase = WAKING → Passed tr s p)
  requested : s.phase = REQUESTED → ∃ c p r, BackendOk tr c p r ∧ Passed tr s p
  served : ∀ {i c : ℕ}, s.wakes c = some (.returning true) →
    tr[i]? = some (.wake c .invoke) → ∃ c' p r, BackendOk tr c' p r ∧ AfterAcks tr i p
  answered : ∀ {i j c : ℕ}, tr[j]? = some (.wake c (.returned true)) →
    tr[i]? = some (.wake c .invoke) → ∃ c' p r, BackendOk tr c' p r ∧ r < j ∧ AfterAcks tr i p

theorem Coverage.next {tr : List WakeLabel} {s s' : WakeState} {l : WakeLabel} (hinv : Inv s)
    (hstep : Step s l s') (hreturns : Returns tr s) (hprogress : Progress tr s)
    (h : Coverage tr s) : Coverage (tr ++ [l]) s' := by
  -- a call is invoked once, so its place in the trace is fixed
  have hinvoke : ∀ {i c : ℕ}, s.wakes c ≠ none → (tr ++ [l])[i]? = some (.wake c .invoke) →
      tr[i]? = some (.wake c .invoke) := by
    intro i c hsome hi
    rcases hstep.recorded hinv hi with hi | ⟨_, _, ⟨_, hnone, _⟩ | ⟨_, _, _, _, _, _, hm⟩⟩
    · exact hi
    · exact absurd hnone hsome
    · cases hm
  -- while a call holds the claim, the phase does not come back to `WAKING`
  have hpassed : ∀ {c pc p}, s.wakes c = some pc → pc.critical = true →
      (s.phase = WAKING → Passed tr s p) → s'.phase = WAKING → Passed (tr ++ [l]) s' p := by
    intro c pc p hpc hcrit hp hphase
    rcases (hstep.phase hinv).1 hphase with hwaking | hidle
    · exact (hp hwaking).next hinv hstep (.inl hphase)
    · simp [hinv.exclusive.quiet (.inl hidle) hpc] at hcrit
  refine ⟨fun {c} hpc => ?_, fun {c} hpc => ?_, fun hphase => ?_, fun {i c} hpc hi => ?_,
    fun {i j c} hj hi => ?_⟩
  -- `started`: the backend call begins with this step or earlier
  · rcases hstep.view hinv c with ⟨_, hsame⟩ | ⟨_, _, hload, _⟩ |
      ⟨_, _, pc₀, pc', rfl, hpc₀, hpc', _, hm⟩
    · rw [hsame] at hpc
      obtain ⟨p, hp, hafter, hwaking⟩ := h.started hpc
      exact ⟨p, getElem?_snoc_of hp, fun i hi => hafter i (hinvoke (by simp [hpc]) hi),
        hpassed hpc rfl hwaking⟩
    · simp [hload] at hpc
    · obtain rfl := Option.some_inj.mp (hpc'.symm.trans hpc)
      cases hm
      refine ⟨tr.length, by simp, fun i hi => ?_, fun _ a pc k event _ _ hk _ => ?_⟩
      · exact lt_length_of_getElem? (hinvoke (by simp [hpc₀]) hi)
      · rcases getElem?_snoc.mp hk with hk | ⟨_, hl⟩
        · exact lt_length_of_getElem? hk
        · cases hl
  · rcases hstep.view hinv c with ⟨_, hsame⟩ | ⟨_, _, hload, _⟩ |
      ⟨_, _, pc₀, pc', rfl, hpc₀, hpc', hphase, hm⟩
    · rw [hsame] at hpc
      obtain ⟨p, r, hb, hafter, hwaking⟩ := h.finished hpc
      refine ⟨p, r, BackendOk.snoc hb, fun i hi => hafter i (hinvoke ?_ hi), fun hphase => ?_⟩
      · rcases hpc with hpc | hpc <;> simp [hpc]
      · rcases hpc with hpc | hpc <;> exact hpassed hpc rfl hwaking hphase
    · simp [hload] at hpc
    · rw [hpc'] at hpc
      cases hm with
      | succeeded =>
        obtain ⟨p, hp, hafter, hwaking⟩ := h.started hpc₀
        exact ⟨p, tr.length, ⟨getElem?_snoc_of hp, by simp, lt_length_of_getElem? hp⟩,
          fun i hi => hafter i (hinvoke (by simp [hpc₀]) hi), hpassed hpc₀ rfl hwaking⟩
      | overtaken =>
        obtain ⟨p, r, hb, hafter, hwaking⟩ := h.finished (.inl hpc₀)
        exact ⟨p, r, BackendOk.snoc hb, fun i hi => hafter i (hinvoke (by simp [hpc₀]) hi),
          hpassed hpc₀ rfl hwaking⟩
      | coalesced | vacant | spun | claimed | raced | started | failed | published | stored
      | reopened | returned => simp at hpc
  -- `requested`: published by a call whose backend call has returned
  · rcases (hstep.phase hinv).2.2.1 hphase with hsame | ⟨hwaking, c, hpc⟩
    · obtain ⟨c, p, r, hb, hp⟩ := h.requested hsame
      exact ⟨c, p, r, BackendOk.snoc hb, hp.next hinv hstep (.inr hphase)⟩
    · obtain ⟨p, r, hb, _, hp⟩ := h.finished (.inl hpc)
      exact ⟨c, p, r, BackendOk.snoc hb, (hp hwaking).next hinv hstep (.inr hphase)⟩
  -- `served`: a call that coalesces leans on the request already published
  · have hnext : ∀ {c' p r}, tr[i]? = some (.wake c .invoke) → BackendOk tr c' p r →
        AfterAcks tr i p → ∃ c' p r, BackendOk (tr ++ [l]) c' p r ∧ AfterAcks (tr ++ [l]) i p :=
      fun hi hb ha => ⟨_, _, _, BackendOk.snoc hb, ha.next hinv hstep hreturns (lt_length_of_getElem? hi)⟩
    rcases hstep.view hinv c with ⟨_, hsame⟩ | ⟨_, _, hload, _⟩ |
      ⟨_, _, pc₀, pc', rfl, hpc₀, hpc', _, hm⟩
    · rw [hsame] at hpc
      have hi := hinvoke (by simp [hpc]) hi
      obtain ⟨c', p, r, hb, ha⟩ := h.served hpc hi
      exact hnext hi hb ha
    · simp [hload] at hpc
    · have hiold := hinvoke (by simp [hpc₀]) hi
      obtain rfl := Option.some_inj.mp (hpc'.symm.trans hpc)
      cases hm with
      | coalesced hrequested =>
        obtain ⟨c', p, r, hb, hp⟩ := h.requested hrequested
        exact hnext hiold hb (hp.afterAcks hreturns)
      | published =>
        obtain ⟨p, r, hb, hafter, _⟩ := h.finished (.inl hpc₀)
        exact hnext hiold hb (afterAcks_of_lt (hafter i hiold) hreturns)
      | stored =>
        obtain ⟨p, r, hb, hafter, _⟩ := h.finished (.inr hpc₀)
        exact hnext hiold hb (afterAcks_of_lt (hafter i hiold) hreturns)
  -- `answered`: as when the call was about to return
  · rcases hstep.recorded hinv hj with hj | ⟨rfl, _, ⟨hevent, _⟩ | ⟨_, _, _, hpc, _, _, hm⟩⟩
    · have hi := hinvoke (hprogress.known hj) hi
      obtain ⟨c', p, r, hb, hr, ha⟩ := h.answered hj hi
      exact ⟨c', p, r, BackendOk.snoc hb, hr, ha.next hinv hstep hreturns (lt_length_of_getElem? hi)⟩
    · cases hevent
    · cases hm
      have hi := hinvoke (by simp [hpc]) hi
      obtain ⟨c', p, r, hb, ha⟩ := h.served hpc hi
      exact ⟨c', p, r, BackendOk.snoc hb, lt_length_of_getElem? hb.finish,
        ha.next hinv hstep hreturns (lt_length_of_getElem? hi)⟩

/-! ### Every run -/

/-- Everything the trace of a run says. -/
structure History (tr : List WakeLabel) (s : WakeState) : Prop where
  returns : Returns tr s
  progress : Progress tr s
  epochs : Epochs tr s
  coverage : Coverage tr s

theorem run_history {tr : List WakeLabel} {s : WakeState} (h : system.Run tr s) :
    History tr s := by
  refine h.invariant (fun hinit => ?_) fun hrun hi hstep => ?_
  · rw [hinit]
    refine ⟨by simp [Returns], ⟨?_, ?_, ?_, ?_, ?_, ?_⟩, ⟨?_, ?_, ?_⟩, ⟨?_, ?_, ?_, ?_, ?_⟩⟩ <;>
      simp [Claims]
  · have hinv := reachable_inv hrun.reachable
    exact ⟨hi.returns.next hinv hstep, hi.progress.next hinv hstep,
      hi.epochs.next hinv hstep hi.progress, hi.coverage.next hinv hstep hi.returns hi.progress⟩

/-- **Wake linearization**, for every interleaving of any calls: nothing panics,
the backend is called by one call at a time, an `Ok` is backed by a successful
backend call that began after every acknowledgement returned before, an `Err`
by a failed backend call of one's own, and of the backend calls claimed while
no acknowledgement changes the phase at most one returns `Ok`. -/
theorem wake_linearizable {tr : List WakeLabel} {s : WakeState} (h : system.Run tr s) :
    (∀ c, s.wakes c ≠ some .panicked) ∧ (∀ a, s.acks a ≠ some .panicked) ∧
    (∀ c c', s.wakes c = some .backend → s.wakes c' = some .backend → c = c') ∧
    (∀ c i j : ℕ, tr[i]? = some (.wake c .invoke) → tr[j]? = some (.wake c (.returned true)) →
      ∃ c' p r, BackendOk tr c' p r ∧ r < j ∧ AfterAcks tr i p) ∧
    (∀ c j : ℕ, tr[j]? = some (.wake c (.returned false)) →
      ∃ r : ℕ, r < j ∧ tr[r]? = some (.wake c (.finish false))) ∧
    ∀ q q', (∀ k, q < k → k < q' → ¬ Acknowledges tr k) →
      ∀ c c' p p' b b' r r', q < p → p < q' → q < p' → p' < q' →
        Claims tr p c → Claims tr p' c' → BackendOk tr c b r → BackendOk tr c' b' r' →
        c = c' := by
  have hinv := reachable_inv h.reachable
  have hh := run_history h
  refine ⟨fun c => hinv.exclusive.unpanicked, fun a => hinv.unpanicked,
    fun c c' hc hc' => hinv.exclusive.unique hc hc' rfl rfl,
    fun c i j hi hj => hh.coverage.answered hj hi, fun c j hj => hh.progress.refused hj,
    fun q q' hquiet c c' p p' b b' r r' hqp hpq hqp' hpq' hp hp' hb hb' => ?_⟩
  rcases Nat.lt_trichotomy p p' with hlt | rfl | hlt
  · obtain ⟨k, hpk, hkp, hk⟩ := hh.epochs.apart hb.finish hp hp' hlt
    exact absurd hk (hquiet k (by omega) (by omega))
  · have hsame := Option.some_inj.mp (hp.symm.trans hp')
    simpa using hsame
  · obtain ⟨k, hpk, hkp, hk⟩ := hh.epochs.apart hb'.finish hp' hp hlt
    exact absurd hk (hquiet k (by omega) (by omega))

/-! ### Schedules -/

/-- Whose turn it is; `ok` is what the backend returns, if it is its turn to. -/
inductive Pick
  | wake (call : ℕ) (ok : Bool)
  | acknowledge (call : ℕ)

/-- The step that a pick allows. -/
def take (s : WakeState) : Pick → Option (WakeLabel × WakeState)
  | .wake c ok =>
    match s.wakes c with
    | none =>
      some (.wake c .invoke, { s with wakes := Function.update s.wakes c (some (.load 0)) })
    | some pc =>
      (pc.next s.phase ok).map fun o =>
        (.wake c o.1, { s with phase := o.2.1, wakes := Function.update s.wakes c (some o.2.2) })
  | .acknowledge a =>
    match s.acks a with
    | none =>
      some (.acknowledge a .invoke, { s with acks := Function.update s.acks a (some .load) })
    | some pc =>
      (pc.next s.phase).map fun o =>
        (.acknowledge a o.1, { s with phase := o.2.1, acks := Function.update s.acks a (some o.2.2) })

theorem take_step {s s' : WakeState} {pick : Pick} {l : WakeLabel}
    (h : take s pick = some (l, s')) : Step s l s' := by
  cases pick with
  | wake c ok =>
    cases hpc : s.wakes c with
    | none =>
      simp only [take, hpc] at h
      cases h
      exact .wake hpc
    | some pc =>
      simp only [take, hpc, Option.map_eq_some_iff] at h
      obtain ⟨⟨event, phase, pc'⟩, hnext, h⟩ := h
      cases h
      exact .waking hpc hnext
  | acknowledge a =>
    cases hpc : s.acks a with
    | none =>
      simp only [take, hpc] at h
      cases h
      exact .acknowledge hpc
    | some pc =>
      simp only [take, hpc, Option.map_eq_some_iff] at h
      obtain ⟨⟨event, phase, pc'⟩, hnext, h⟩ := h
      cases h
      exact .acknowledging hpc hnext

/-- The run of a schedule; a pick that allows no step is skipped. -/
def follow (tr : List WakeLabel) (s : WakeState) : List Pick → List WakeLabel × WakeState
  | [] => (tr, s)
  | pick :: rest =>
    match take s pick with
    | some (l, s') => follow (tr ++ [l]) s' rest
    | none => follow tr s rest

theorem follow_run {tr : List WakeLabel} {s : WakeState} (h : system.Run tr s)
    (picks : List Pick) : system.Run (follow tr s picks).1 (follow tr s picks).2 := by
  induction picks generalizing tr s with
  | nil => exact h
  | cons pick rest ih =>
    rw [follow]
    cases htake : take s pick with
    | none => exact ih h
    | some o => exact ih (h.next (take_step htake))

/-- A schedule from a new handle. -/
def scheduled (picks : List Pick) : List WakeLabel × WakeState :=
  follow [] ⟨IDLE, fun _ => none, fun _ => none⟩ picks

theorem scheduled_run (picks : List Pick) :
    system.Run (scheduled picks).1 (scheduled picks).2 :=
  follow_run (.start rfl) picks

/-- Call 1 claims and its backend call fails while call 2 waits for it; call 2
then claims and succeeds. -/
def retried : List Pick :=
  List.replicate 4 (.wake 1 true) ++ List.replicate 3 (.wake 2 true) ++
    List.replicate 3 (.wake 1 false) ++ List.replicate 6 (.wake 2 true)

theorem wake_linearizable_retried :
    (scheduled retried).1[9]? = some (.wake 1 (.returned false)) ∧
    (scheduled retried).1[15]? = some (.wake 2 (.returned true)) ∧
    ∃ c p r, BackendOk (scheduled retried).1 c p r ∧ r < 15 :=
  have h := wake_linearizable (scheduled_run retried)
  ⟨by decide +kernel, by decide +kernel,
    have ⟨c, p, r, hb, hr, _⟩ :=
      h.2.2.2.1 2 4 15 (by decide +kernel) (by decide +kernel)
    ⟨c, p, r, hb, hr⟩⟩

/-- Call 1 claims, and is acknowledged before its backend call begins; call 2
claims after it. -/
def overtaken : List Pick :=
  List.replicate 3 (.wake 1 true) ++ List.replicate 3 (.acknowledge 1) ++
    List.replicate 5 (.wake 1 true) ++ List.replicate 7 (.wake 2 true) ++
    List.replicate 3 (.acknowledge 2)

/-- Two backend calls that begin between two successive acknowledgements can
both return `Ok`: the first was claimed before the first acknowledgement. -/
theorem two_backend_calls_between_acknowledgements :
    ∃ tr s, system.Run tr s ∧ ∃ q q', Acknowledges tr q ∧ Acknowledges tr q' ∧
      (∀ k, q < k → k < q' → ¬ Acknowledges tr k) ∧
      ∃ c c' p p' r r', c ≠ c' ∧ q < p ∧ p < q' ∧ q < p' ∧ p' < q' ∧
        BackendOk tr c p r ∧ BackendOk tr c' p' r' := by
  refine ⟨_, _, scheduled_run overtaken, 5, 20, by decide +kernel, by decide +kernel, ?_,
    1, 2, 6, 14, 7, 15, by decide, by decide, by decide, by decide, by decide,
    ⟨by decide +kernel, by decide +kernel, by decide⟩,
    ⟨by decide +kernel, by decide +kernel, by decide⟩⟩
  have hbetween : ∀ k < 20, 5 < k → ¬ Acknowledges (scheduled overtaken).1 k := by decide +kernel
  exact fun k hk hk' => hbetween k hk' hk

end WakeHandle

end Calandria
