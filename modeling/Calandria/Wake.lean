/-
The coalescing wake handle.

`WakePc` and `AckPc` are the places a call of `WakeHandle::wake` and of
`WakeHandle::acknowledge` can be at, between two of its atomic operations on
the phase; `next` performs the one operation that follows, or the start or the
end of the backend call.  The phase is the `u8` of the source, so that the
branches that panic on a fifth value are branches of the model.

* `Moves` — what the operations do as long as the phase is one of the four;
* `Exclusive` — the protocol's invariant: the phase is `WAKING` or
  `WAKING_ACKNOWLEDGED` exactly while one call, and one only, holds the claim;
* `WakeHandle.system` — any number of calls of either kind, interleaved.

`Exclusive` is stated for calls indexed by any type, for the mailbox to use it
with its own threads.
-/
import Calandria.TransitionSystem
import Mathlib.Data.Fin.Basic
import Mathlib.Logic.Function.Basic

namespace Calandria

abbrev U8 := Fin (2 ^ 8)

instance U8.neZero : NeZero (2 ^ 8) := ⟨by decide⟩

abbrev IDLE : U8 := 0
abbrev WAKING : U8 := 1
abbrev REQUESTED : U8 := 2
abbrev WAKING_ACKNOWLEDGED : U8 := 3
abbrev SPIN_LIMIT : ℕ := 64

@[simp] theorem phases_distinct :
    (IDLE ≠ WAKING ∧ IDLE ≠ REQUESTED ∧ IDLE ≠ WAKING_ACKNOWLEDGED) ∧
    (WAKING ≠ IDLE ∧ WAKING ≠ REQUESTED ∧ WAKING ≠ WAKING_ACKNOWLEDGED) ∧
    (REQUESTED ≠ IDLE ∧ REQUESTED ≠ WAKING ∧ REQUESTED ≠ WAKING_ACKNOWLEDGED) ∧
    WAKING_ACKNOWLEDGED ≠ IDLE ∧ WAKING_ACKNOWLEDGED ≠ WAKING ∧
      WAKING_ACKNOWLEDGED ≠ REQUESTED := by
  decide

/-- What one step of a call does.  A `compareExchange` took place if `actual` is
`current`; `start` and `finish` are the two ends of the backend call. -/
inductive Event
  | invoke
  | load (actual : U8)
  | compareExchange (current new actual : U8)
  | store (new : U8)
  | swap (new actual : U8)
  | start
  | finish (ok : Bool)
  | returned (ok : Bool)
  deriving DecidableEq

/-- The operations on the phase. -/
def Event.atomic : Event → Bool
  | .load _ | .compareExchange _ _ _ | .store _ | .swap _ _ => true
  | .invoke | .start | .finish _ | .returned _ => false

/-! ### One call of `wake` -/

/-- Where a call of `wake` is. -/
inductive WakePc
  | load (spins : ℕ)
  | claim (spins : ℕ)
  | start
  | backend
  /-- `finish_wake` after a success. -/
  | publish
  /-- After the exchange of `publish` found an acknowledgement. -/
  | store
  /-- `finish_wake` after a failure. -/
  | reopen
  | returning (ok : Bool)
  | returned
  | panicked
  deriving DecidableEq

/-- The next step of a call of `wake`; `ok` is what the backend returns, if that
is the step. -/
def WakePc.next (phase : U8) (ok : Bool) : WakePc → Option (Event × U8 × WakePc)
  | .load spins =>
    some (.load phase, phase,
      if phase = REQUESTED then .returning true
      else if phase = IDLE then .claim spins
      else if phase = WAKING ∨ phase = WAKING_ACKNOWLEDGED then
        .load (if spins < SPIN_LIMIT then spins + 1 else spins)
      else .panicked)
  | .claim spins =>
    if phase = IDLE then some (.compareExchange IDLE WAKING phase, WAKING, .start)
    else some (.compareExchange IDLE WAKING phase, phase, .load spins)
  | .start => some (.start, phase, .backend)
  | .backend => some (.finish ok, phase, if ok then .publish else .reopen)
  | .publish =>
    if phase = WAKING then
      some (.compareExchange WAKING REQUESTED phase, REQUESTED, .returning true)
    else
      some (.compareExchange WAKING REQUESTED phase, phase,
        if phase = WAKING_ACKNOWLEDGED then .store else .panicked)
  | .store => some (.store IDLE, IDLE, .returning true)
  | .reopen =>
    some (.swap IDLE phase, IDLE,
      if phase = WAKING ∨ phase = WAKING_ACKNOWLEDGED then .returning false else .panicked)
  | .returning ok => some (.returned ok, phase, .returned)
  | .returned => none
  | .panicked => none

/-- The call holds the claim: it moved the phase from `IDLE` to `WAKING` and has
not given it back. -/
def WakePc.critical : WakePc → Bool
  | .start | .backend | .publish | .store | .reopen => true
  | .load _ | .claim _ | .returning _ | .returned | .panicked => false

/-- The call saw its backend call succeed, or is over. -/
def WakePc.succeeded : WakePc → Bool
  | .publish | .store | .returned => true
  | .returning ok => ok
  | .load _ | .claim _ | .start | .backend | .reopen | .panicked => false

/-- The call has not taken the claim yet. -/
def WakePc.looping : WakePc → Bool
  | .load _ | .claim _ => true
  | .start | .backend | .publish | .store | .reopen | .returning _ | .returned | .panicked => false

/-! ### One call of `acknowledge` -/

/-- Where a call of `acknowledge` is. -/
inductive AckPc
  | load
  /-- After a load of `REQUESTED`. -/
  | clear
  /-- After a load of `WAKING`. -/
  | mark
  | returning
  | returned
  | panicked
  deriving DecidableEq

/-- The next step of a call of `acknowledge`. -/
def AckPc.next (phase : U8) : AckPc → Option (Event × U8 × AckPc)
  | .load =>
    some (.load phase, phase,
      if phase = IDLE ∨ phase = WAKING_ACKNOWLEDGED then .returning
      else if phase = REQUESTED then .clear
      else if phase = WAKING then .mark
      else .panicked)
  | .clear =>
    if phase = REQUESTED then some (.compareExchange REQUESTED IDLE phase, IDLE, .returning)
    else some (.compareExchange REQUESTED IDLE phase, phase, .load)
  | .mark =>
    if phase = WAKING then
      some (.compareExchange WAKING WAKING_ACKNOWLEDGED phase, WAKING_ACKNOWLEDGED, .returning)
    else some (.compareExchange WAKING WAKING_ACKNOWLEDGED phase, phase, .load)
  | .returning => some (.returned true, phase, .returned)
  | .returned => none
  | .panicked => none

/-- The last operation of the call has been performed. -/
def AckPc.done : AckPc → Bool
  | .returning | .returned => true
  | .load | .clear | .mark | .panicked => false

/-! ### What the steps do under the invariant -/

/-- The steps of `wake` that do not panic. -/
inductive WakePc.Moves (phase : U8) : WakePc → Event → U8 → WakePc → Prop
  | coalesced {spins} : phase = REQUESTED →
      Moves phase (.load spins) (.load phase) phase (.returning true)
  | vacant {spins} : phase = IDLE → Moves phase (.load spins) (.load phase) phase (.claim spins)
  | spun {spins spins'} : phase = WAKING ∨ phase = WAKING_ACKNOWLEDGED →
      Moves phase (.load spins) (.load phase) phase (.load spins')
  | claimed {spins} : phase = IDLE →
      Moves phase (.claim spins) (.compareExchange IDLE WAKING IDLE) WAKING .start
  | raced {spins} : phase ≠ IDLE →
      Moves phase (.claim spins) (.compareExchange IDLE WAKING phase) phase (.load spins)
  | started : Moves phase .start .start phase .backend
  | succeeded : Moves phase .backend (.finish true) phase .publish
  | failed : Moves phase .backend (.finish false) phase .reopen
  | published : phase = WAKING →
      Moves phase .publish (.compareExchange WAKING REQUESTED WAKING) REQUESTED (.returning true)
  | overtaken : phase = WAKING_ACKNOWLEDGED →
      Moves phase .publish (.compareExchange WAKING REQUESTED phase) phase .store
  | stored : Moves phase .store (.store IDLE) IDLE (.returning true)
  | reopened : phase = WAKING ∨ phase = WAKING_ACKNOWLEDGED →
      Moves phase .reopen (.swap IDLE phase) IDLE (.returning false)
  | returned {ok} : Moves phase (.returning ok) (.returned ok) phase .returned

/-- The steps of `acknowledge` that do not panic. -/
inductive AckPc.Moves (phase : U8) : AckPc → Event → U8 → AckPc → Prop
  | settled : phase = IDLE ∨ phase = WAKING_ACKNOWLEDGED →
      Moves phase .load (.load phase) phase .returning
  | sawRequested : phase = REQUESTED → Moves phase .load (.load phase) phase .clear
  | sawWaking : phase = WAKING → Moves phase .load (.load phase) phase .mark
  | cleared : phase = REQUESTED →
      Moves phase .clear (.compareExchange REQUESTED IDLE REQUESTED) IDLE .returning
  | clearRaced : phase ≠ REQUESTED →
      Moves phase .clear (.compareExchange REQUESTED IDLE phase) phase .load
  | marked : phase = WAKING →
      Moves phase .mark (.compareExchange WAKING WAKING_ACKNOWLEDGED WAKING)
        WAKING_ACKNOWLEDGED .returning
  | markRaced : phase ≠ WAKING →
      Moves phase .mark (.compareExchange WAKING WAKING_ACKNOWLEDGED phase) phase .load
  | returned : Moves phase .returning (.returned true) phase .returned

/-- The invariant of the wake protocol, for the calls of `wake` under way. -/
structure Exclusive {ι : Type} (phase : U8) (calls : ι → Option WakePc) : Prop where
  known : phase = IDLE ∨ phase = WAKING ∨ phase = REQUESTED ∨ phase = WAKING_ACKNOWLEDGED
  holds : ∀ {c pc}, calls c = some pc → pc.critical = true →
    phase = WAKING ∨ phase = WAKING_ACKNOWLEDGED
  held : phase = WAKING ∨ phase = WAKING_ACKNOWLEDGED →
    ∃ c pc, calls c = some pc ∧ pc.critical = true
  unique : ∀ {c c' pc pc'}, calls c = some pc → calls c' = some pc' → pc.critical = true →
    pc'.critical = true → c = c'
  storing : ∀ {c}, calls c = some .store → phase = WAKING_ACKNOWLEDGED
  unpanicked : ∀ {c}, calls c ≠ some .panicked

namespace Exclusive

variable {ι : Type} {phase phase' : U8} {calls : ι → Option WakePc} {c : ι} {event : Event}

theorem initial : Exclusive IDLE (fun _ : ι => none) := by
  refine ⟨.inl rfl, by simp, ?_, by simp, by simp, by simp⟩
  rintro (h | h) <;> cases h

/-- No step of `wake` panics. -/
theorem moves (h : Exclusive phase calls) {pc pc' : WakePc} {ok : Bool} (hpc : calls c = some pc)
    (hnext : pc.next phase ok = some (event, phase', pc')) : pc.Moves phase event phase' pc' := by
  have hknown := h.known
  cases pc with
  | load spins =>
    simp only [WakePc.next, Option.some_inj, Prod.mk.injEq] at hnext
    obtain ⟨rfl, rfl, rfl⟩ := hnext
    split_ifs with hrequested hidle hwaking
    · exact .coalesced hrequested
    · exact .vacant hidle
    · exact .spun hwaking
    · exact .spun hwaking
    · grind
  | claim spins =>
    simp only [WakePc.next] at hnext
    split_ifs at hnext with hidle
    · cases hnext
      subst hidle
      exact .claimed rfl
    · cases hnext
      exact .raced hidle
  | start =>
    cases hnext
    exact .started
  | backend =>
    cases hnext
    cases ok
    · exact .failed
    · exact .succeeded
  | publish =>
    -- the holder finds its own claim, acknowledged or not
    have hheld := h.holds hpc rfl
    simp only [WakePc.next] at hnext
    split_ifs at hnext with hwaking hacked
    · cases hnext
      subst hwaking
      exact .published rfl
    · cases hnext
      exact .overtaken hacked
    · exact absurd hheld (not_or.mpr ⟨hwaking, hacked⟩)
  | store =>
    cases hnext
    exact .stored
  | reopen =>
    have hheld := h.holds hpc rfl
    simp only [WakePc.next, if_pos hheld] at hnext
    cases hnext
    exact .reopened hheld
  | returning ok =>
    cases hnext
    exact .returned
  | returned => cases hnext
  | panicked => cases hnext

/-- No step of `acknowledge` panics. -/
theorem ackMoves (h : Exclusive phase calls) {pc pc' : AckPc}
    (hnext : pc.next phase = some (event, phase', pc')) : pc.Moves phase event phase' pc' := by
  have hknown := h.known
  cases pc with
  | load =>
    simp only [AckPc.next, Option.some_inj, Prod.mk.injEq] at hnext
    obtain ⟨rfl, rfl, rfl⟩ := hnext
    split_ifs with hsettled hrequested hwaking
    · exact .settled hsettled
    · exact .sawRequested hrequested
    · exact .sawWaking hwaking
    · grind
  | clear =>
    simp only [AckPc.next] at hnext
    split_ifs at hnext with hrequested
    · cases hnext
      subst hrequested
      exact .cleared rfl
    · cases hnext
      exact .clearRaced hrequested
  | mark =>
    simp only [AckPc.next] at hnext
    split_ifs at hnext with hwaking
    · cases hnext
      subst hwaking
      exact .marked rfl
    · cases hnext
      exact .markRaced hwaking
  | returning =>
    cases hnext
    exact .returned
  | returned => cases hnext
  | panicked => cases hnext

variable [DecidableEq ι]

/-- A call that holds no claim may begin anew or go. -/
theorem replace (h : Exclusive phase calls) {call : Option WakePc}
    (hpc : ∀ {pc}, calls c = some pc → pc.critical = false)
    (hcall : ∀ {pc}, call = some pc → pc.critical = false ∧ pc ≠ .panicked) :
    Exclusive phase (Function.update calls c call) := by
  have hcritical : ∀ {d pd}, Function.update calls c call d = some pd → pd.critical = true →
      calls d = some pd := by
    intro d pd hd hcrit
    rcases update_eq_some.mp hd with ⟨_, hd⟩ | ⟨_, hd⟩
    · simp [(hcall hd).1] at hcrit
    · exact hd
  refine ⟨h.known, fun hd hcrit => h.holds (hcritical hd hcrit) hcrit, fun hp => ?_,
    fun hd hd' hcrit hcrit' =>
      h.unique (hcritical hd hcrit) (hcritical hd' hcrit') hcrit hcrit',
    fun hd => h.storing (hcritical hd rfl), fun hd => ?_⟩
  · obtain ⟨d, pd, hd, hcrit⟩ := h.held hp
    refine ⟨d, pd, update_eq_some.mpr (.inr ⟨?_, hd⟩), hcrit⟩
    rintro rfl
    simp [hpc hd] at hcrit
  · rcases update_eq_some.mp hd with ⟨_, hd⟩ | ⟨_, hd⟩
    · exact (hcall hd).2 rfl
    · exact h.unpanicked hd

/-- The holder of the claim goes on holding it. -/
theorem carry (h : Exclusive phase calls) {pc pc' : WakePc} (hpc : calls c = some pc)
    (hcrit : pc.critical = true) (hcrit' : pc'.critical = true)
    (hstore : pc' = .store → phase = WAKING_ACKNOWLEDGED) :
    Exclusive phase (Function.update calls c (some pc')) := by
  have howner : ∀ {d pd}, Function.update calls c (some pc') d = some pd → pd.critical = true →
      d = c := by
    intro d pd hd hcritd
    rcases update_eq_some.mp hd with ⟨hdc, _⟩ | ⟨_, hd⟩
    · exact hdc
    · exact h.unique hd hpc hcritd hcrit
  have hphase := h.holds hpc hcrit
  refine ⟨h.known, fun _ _ => hphase, fun _ => ⟨c, pc', by simp, hcrit'⟩,
    fun hd hd' hc hc' => (howner hd hc).trans (howner hd' hc').symm, fun hd => ?_, fun hd => ?_⟩
  · rcases update_eq_some.mp hd with ⟨_, hd⟩ | ⟨_, hd⟩
    · exact hstore (Option.some_inj.mp hd)
    · exact h.storing hd
  · rcases update_eq_some.mp hd with ⟨_, hd⟩ | ⟨_, hd⟩
    · obtain rfl := Option.some_inj.mp hd
      cases hcrit'
    · exact h.unpanicked hd

/-- The holder gives the claim back. -/
theorem release (h : Exclusive phase calls) {pc pc' : WakePc} (hpc : calls c = some pc)
    (hcrit : pc.critical = true) (hphase : phase' = IDLE ∨ phase' = REQUESTED)
    (hcrit' : pc'.critical = false) (hpanic : pc' ≠ .panicked) :
    Exclusive phase' (Function.update calls c (some pc')) := by
  have hquiet : ∀ {d pd}, Function.update calls c (some pc') d = some pd →
      pd.critical = false := by
    intro d pd hd
    rcases update_eq_some.mp hd with ⟨_, hd⟩ | ⟨hdc, hd⟩
    · rwa [← Option.some_inj.mp hd]
    · by_contra hn
      exact hdc (h.unique hd hpc (by simpa using hn) hcrit)
  refine ⟨by grind, fun hd hc => ?_, fun hp => by grind, fun hd _ hc _ => ?_, fun hd => ?_,
    fun hd => ?_⟩
  · simp [hquiet hd] at hc
  · simp [hquiet hd] at hc
  · cases hquiet hd
  · rcases update_eq_some.mp hd with ⟨_, hd⟩ | ⟨_, hd⟩
    · exact hpanic (Option.some_inj.mp hd)
    · exact h.unpanicked hd

omit [DecidableEq ι] in
/-- With the phase at `IDLE` or `REQUESTED` nobody holds the claim. -/
theorem quiet (h : Exclusive phase calls) (hphase : phase = IDLE ∨ phase = REQUESTED)
    {pc : WakePc} (hpc : calls c = some pc) : pc.critical = false := by
  by_contra hn
  have hheld := h.holds hpc (by simpa using hn)
  grind

/-- A call takes the free claim. -/
theorem claim (h : Exclusive IDLE calls) :
    Exclusive WAKING (Function.update calls c (some .start)) := by
  have howner : ∀ {d pd}, Function.update calls c (some .start) d = some pd →
      pd.critical = true → d = c := by
    intro d pd hd hcrit
    rcases update_eq_some.mp hd with ⟨hdc, _⟩ | ⟨_, hd⟩
    · exact hdc
    · simp [h.quiet (.inl rfl) hd] at hcrit
  refine ⟨.inr (.inl rfl), fun _ _ => .inl rfl, fun _ => ⟨c, .start, by simp, rfl⟩,
    fun hd hd' hc hc' => (howner hd hc).trans (howner hd' hc').symm, fun hd => ?_, fun hd => ?_⟩
  · rcases update_eq_some.mp hd with ⟨_, hd⟩ | ⟨_, hd⟩
    · cases hd
    · cases h.quiet (.inl rfl) hd
  · rcases update_eq_some.mp hd with ⟨_, hd⟩ | ⟨_, hd⟩
    · cases hd
    · exact h.unpanicked hd

/-- **The step of a call of `wake`** keeps the invariant. -/
theorem wake (h : Exclusive phase calls) {pc pc' : WakePc} (hpc : calls c = some pc)
    (hm : pc.Moves phase event phase' pc') :
    Exclusive phase' (Function.update calls c (some pc')) := by
  -- a call without the claim that does not take it leaves the phase alone
  have hfree : pc.critical = false → pc'.critical = false → pc' ≠ .panicked →
      Exclusive phase (Function.update calls c (some pc')) := by
    intro hcrit hcrit' hpanic
    refine h.replace (fun hd => ?_) (fun hd => ?_)
    · rwa [Option.some_inj.mp (hd.symm.trans hpc)]
    · rw [← Option.some_inj.mp hd]
      exact ⟨hcrit', hpanic⟩
  cases hm with
  | coalesced | vacant | spun | raced | returned => exact hfree rfl rfl (by simp)
  | claimed hidle =>
    subst hidle
    exact h.claim
  | started | succeeded | failed => exact h.carry hpc rfl rfl (by simp)
  | overtaken hacked => exact h.carry hpc rfl rfl fun _ => hacked
  | published => exact h.release hpc rfl (.inr rfl) rfl (by simp)
  | stored | reopened => exact h.release hpc rfl (.inl rfl) rfl (by simp)

omit [DecidableEq ι] in
/-- The step of a call of `acknowledge` keeps the invariant. -/
theorem acknowledge (h : Exclusive phase calls) {pc pc' : AckPc}
    (hm : pc.Moves phase event phase' pc') : Exclusive phase' calls := by
  cases hm with
  | cleared hrequested =>
    refine ⟨.inl rfl, fun hpc hcrit => ?_, fun hp => by grind, h.unique, fun hpc => ?_,
      h.unpanicked⟩
    · simp [h.quiet (.inr hrequested) hpc] at hcrit
    · cases h.quiet (.inr hrequested) hpc
  | marked hwaking =>
    exact ⟨.inr (.inr (.inr rfl)), fun _ _ => .inr rfl, fun _ => h.held (.inl hwaking), h.unique,
      fun _ => rfl, h.unpanicked⟩
  | settled | sawRequested | sawWaking | clearRaced | markRaced | returned => exact h

end Exclusive

/-! ### Calls interleaved -/

/-- The phase, and the calls made so far; each call has a number of its own. -/
structure WakeState where
  phase : U8
  wakes : ℕ → Option WakePc
  acks : ℕ → Option AckPc

/-- A step of one call. -/
inductive WakeLabel
  | wake (call : ℕ) (event : Event)
  | acknowledge (call : ℕ) (event : Event)
  deriving DecidableEq

namespace WakeHandle

/-- One step of any of the calls, or a new call. -/
inductive Step (s : WakeState) : WakeLabel → WakeState → Prop
  | wake {c} : s.wakes c = none →
      Step s (.wake c .invoke) { s with wakes := Function.update s.wakes c (some (.load 0)) }
  | waking {c pc ok event phase pc'} : s.wakes c = some pc →
      pc.next s.phase ok = some (event, phase, pc') →
      Step s (.wake c event)
        { s with phase, wakes := Function.update s.wakes c (some pc') }
  | acknowledge {a} : s.acks a = none →
      Step s (.acknowledge a .invoke) { s with acks := Function.update s.acks a (some .load) }
  | acknowledging {a pc event phase pc'} : s.acks a = some pc →
      pc.next s.phase = some (event, phase, pc') →
      Step s (.acknowledge a event)
        { s with phase, acks := Function.update s.acks a (some pc') }

/-- A new handle, and any number of calls on its clones. -/
def system : TransitionSystem WakeState WakeLabel where
  init s := s = ⟨IDLE, fun _ => none, fun _ => none⟩
  step := Step

/-- The invariant of every reachable state. -/
structure Inv (s : WakeState) : Prop where
  exclusive : Exclusive s.phase s.wakes
  unpanicked : ∀ {a}, s.acks a ≠ some .panicked

/-- **The step lemma** of the wake handle. -/
theorem Inv.next {s s' : WakeState} {l : WakeLabel} (h : Inv s) (hstep : Step s l s') : Inv s' := by
  cases hstep with
  | wake hnone =>
    refine ⟨h.exclusive.replace (fun hpc => ?_) (fun hcall => ?_), h.unpanicked⟩
    · simp [hnone] at hpc
    · obtain rfl := Option.some_inj.mp hcall
      exact ⟨rfl, by simp⟩
  | waking hpc hnext => exact ⟨h.exclusive.wake hpc (h.exclusive.moves hpc hnext), h.unpanicked⟩
  | acknowledge =>
    refine ⟨h.exclusive, fun ha => ?_⟩
    rcases update_eq_some.mp ha with ⟨_, ha⟩ | ⟨_, ha⟩
    · cases ha
    · exact h.unpanicked ha
  | acknowledging hpc hnext =>
    have hm := h.exclusive.ackMoves hnext
    refine ⟨h.exclusive.acknowledge hm, fun ha => ?_⟩
    rcases update_eq_some.mp ha with ⟨_, ha⟩ | ⟨_, ha⟩
    · obtain rfl := Option.some_inj.mp ha
      cases hm
    · exact h.unpanicked ha

theorem reachable_inv {s : WakeState} (h : system.Reachable s) : Inv s := by
  refine h.invariant (fun hinit => ?_) fun hs hstep => hs.next hstep
  rw [hinit]
  exact ⟨.initial, by simp⟩

end WakeHandle

end Calandria
