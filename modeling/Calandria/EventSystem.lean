/-
Discrete-event systems.

Owners act one at a time, on an event that is due for them or on their own
interest.  An action consumes its event, may drop pending events and post new ones,
and says when its owner wants to act again.  Once nothing is ready, time moves to the
least moment at which something is to happen.  Which of the ready actions comes next
is left open: a scheduler is one way to settle it.

* `EventSystem.Step` — what can happen in a world;
* `World.WF` — no pending event is in the past, no two share a token, and none is
  for an owner that has stopped;
* `Steps.ready_kept` — what is ready stays ready, and time stands still, until its
  owner acts or its event is dropped.
-/
import Calandria.TransitionSystem
import Mathlib.Data.List.Nodup
import Mathlib.Data.Set.Insert
import Mathlib.Order.Bounds.Defs

namespace EventSystem

/-- When an owner wants to act again. -/
inductive Interest (μ : Type)
  | now
  | wakeAt (moment : μ)
  | idle
  | stopped
  deriving DecidableEq

structure Event (ι τ μ : Type) where
  token : τ
  owner : ι
  moment : μ
  deriving DecidableEq

/-- A state of the system: the current moment, the pending events, the tokens used so
far, and the interest of each owner there is. -/
@[ext] structure World (ι τ μ : Type) where
  now : μ
  events : Set (Event ι τ μ)
  issued : Set τ
  interest : ι → Option (Interest μ)
  live : Prop

inductive Label (ι τ μ : Type)
  | act (owner : ι) (event : Option τ) (dropped : List τ) (posted : List (Event ι τ μ))
    (next : Interest μ)
  | abort (owner : ι) (event : Option τ)
  | post (event : Event ι τ μ)
  | advance (moment : μ)
  | quiesce
  | finish
  | halt
  deriving DecidableEq

namespace Label

variable {ι τ μ : Type}

/-- The owner that acts, whether or not its action is carried out. -/
def owner? : Label ι τ μ → Option ι
  | act owner .. | abort owner _ => some owner
  | post _ | advance _ | quiesce | finish | halt => none

/-- The event that the owner acts on. -/
def event? : Label ι τ μ → Option τ
  | act _ event .. | abort _ event => event
  | post _ | advance _ | quiesce | finish | halt => none

/-- The pending events that an action drops. -/
def dropped : Label ι τ μ → List τ
  | act _ _ dropped _ _ => dropped
  | abort .. | post _ | advance _ | quiesce | finish | halt => []

end Label

namespace World

variable {ι τ μ : Type} [LinearOrder μ] (w : World ι τ μ)

/-- The owner's interest has come. -/
def Runnable (owner : ι) : Prop :=
  w.interest owner = some .now ∨ ∃ m ≤ w.now, w.interest owner = some (.wakeAt m)

/-- The owner may act on the event, or on its own interest. -/
def Ready (owner : ι) : Option τ → Prop
  | none => w.Runnable owner
  | some token => (⟨token, owner, w.now⟩ : Event ι τ μ) ∈ w.events

/-- A moment at which something is to happen. -/
def Upcoming (m : μ) : Prop :=
  (∃ e ∈ w.events, e.moment = m) ∨ ∃ owner, w.interest owner = some (.wakeAt m)

/-- The owner exists and has not stopped. -/
def Serves (owner : ι) : Prop := ∃ i, w.interest owner = some i ∧ i ≠ .stopped

/-- The events that an action leaves. -/
def after (event : Option τ) (dropped : List τ) (posted : List (Event ι τ μ)) :
    Set (Event ι τ μ) :=
  {e | e ∈ posted ∨ e ∈ w.events ∧ event ≠ some e.token ∧ e.token ∉ dropped}

/-- New events have new tokens, are not in the past, and are for owners that serve. -/
structure Admits (posted : List (Event ι τ μ)) (issued : Set τ) : Prop where
  fresh : ∀ e ∈ posted, e.token ∉ w.issued ∧ e.token ∈ issued
  kept : w.issued ⊆ issued
  nodup : (posted.map Event.token).Nodup
  future : ∀ e ∈ posted, w.now ≤ e.moment
  served : ∀ e ∈ posted, w.Serves e.owner

/-- The invariant of the system. -/
structure WF : Prop where
  future : ∀ e ∈ w.events, w.now ≤ e.moment
  issued : ∀ e ∈ w.events, e.token ∈ w.issued
  unique : ∀ e ∈ w.events, ∀ e' ∈ w.events, e.token = e'.token → e = e'
  served : ∀ e ∈ w.events, w.Serves e.owner

end World

variable {ι τ μ : Type} [LinearOrder μ] [DecidableEq ι]

/-- What can happen. -/
inductive Step (w : World ι τ μ) : Label ι τ μ → World ι τ μ → Prop
  | act {owner event dropped posted next issued} : w.live → w.Ready owner event →
      w.Admits posted issued →
      (next = .stopped → ∀ e ∈ w.after event dropped posted, e.owner ≠ owner) →
      Step w (.act owner event dropped posted next) { w with
        events := w.after event dropped posted
        issued := issued
        interest := Function.update w.interest owner (some next) }
  -- the action fails: what it did is undone, but not that it consumed its event
  | abort {owner event issued} : w.live → w.Ready owner event → w.issued ⊆ issued →
      Step w (.abort owner event) { w with events := w.after event [] [], issued := issued }
  | post {e issued} : w.live → w.Admits [e] issued →
      Step w (.post e) { w with events := insert e w.events, issued := issued }
  | advance {m} : w.live → (∀ owner event, ¬ w.Ready owner event) → IsLeast {m | w.Upcoming m} m →
      Step w (.advance m) { w with now := m }
  | quiesce : w.live → (∀ owner event, ¬ w.Ready owner event) → (∀ m, ¬ w.Upcoming m) →
      Step w .quiesce w
  | finish : w.live → (∀ owner, ¬ w.Serves owner) → w.events = ∅ →
      Step w .finish { w with live := False }
  | halt : w.live → Step w .halt { w with live := False }

variable {w w' : World ι τ μ} {l : Label ι τ μ}

omit [DecidableEq ι] in
theorem World.WF.after (h : w.WF) (event : Option τ) (dropped : List τ)
    {posted : List (Event ι τ μ)} {issued : Set τ} (ha : w.Admits posted issued) :
    (∀ e ∈ w.after event dropped posted, w.now ≤ e.moment) ∧
    (∀ e ∈ w.after event dropped posted, e.token ∈ issued) ∧
    (∀ e ∈ w.after event dropped posted, ∀ e' ∈ w.after event dropped posted,
      e.token = e'.token → e = e') ∧
    ∀ e ∈ w.after event dropped posted, w.Serves e.owner := by
  have hnew : ∀ e ∈ posted, ∀ e' ∈ w.events, e.token ≠ e'.token := by
    intro e he e' he' heq
    exact (ha.fresh e he).1 (heq ▸ h.issued e' he')
  refine ⟨?_, ?_, ?_, ?_⟩
  · rintro e (he | ⟨he, -⟩)
    · exact ha.future e he
    · exact h.future e he
  · rintro e (he | ⟨he, -⟩)
    · exact (ha.fresh e he).2
    · exact ha.kept (h.issued e he)
  · rintro e (he | ⟨he, -⟩) e' (he' | ⟨he', -⟩) heq
    · exact List.inj_on_of_nodup_map ha.nodup he he' heq
    · exact absurd heq (hnew e he e' he')
    · exact absurd heq.symm (hnew e' he' e he)
    · exact h.unique e he e' he' heq
  · rintro e (he | ⟨he, -⟩)
    · exact ha.served e he
    · exact h.served e he

/-- Every step keeps the invariant. -/
theorem Step.wf (hs : Step w l w') (h : w.WF) : w'.WF := by
  cases hs with
  | @act owner event dropped posted next issued _ _ ha hstop =>
    obtain ⟨hfuture, hissued, hunique, hserved⟩ := h.after event dropped ha
    refine ⟨hfuture, hissued, hunique, fun e he => ?_⟩
    by_cases howner : e.owner = owner
    -- an owner that stops leaves nothing behind
    · refine ⟨next, ?_, fun hnext => hstop hnext e he howner⟩
      rw [howner]
      exact Function.update_self ..
    · obtain ⟨i, hi, hne⟩ := hserved e he
      exact ⟨i, (Function.update_of_ne howner _ _).trans hi, hne⟩
  | @abort owner event issued _ _ hkept =>
    obtain ⟨hfuture, hissued, hunique, hserved⟩ := h.after event []
      (⟨by simp, hkept, .nil, by simp, by simp⟩ : w.Admits [] issued)
    exact ⟨hfuture, hissued, hunique, hserved⟩
  | @post e issued _ ha =>
    have hsame : w.after none [] [e] = insert e w.events := by
      ext e'
      simp [World.after]
    obtain ⟨hfuture, hissued, hunique, hserved⟩ := h.after none [] ha
    rw [hsame] at hfuture hissued hunique hserved
    exact ⟨hfuture, hissued, hunique, hserved⟩
  | advance _ hidle hleast =>
    exact ⟨fun e he => hleast.2 (.inl ⟨e, he, rfl⟩), h.issued, h.unique, h.served⟩
  | quiesce => exact h
  | finish | halt => exact ⟨h.future, h.issued, h.unique, h.served⟩

/-- What is ready stays ready under the actions of others, unless its event is dropped. -/
theorem Step.ready_kept (hs : Step w l w') (h : w.WF) {owner : ι} {event : Option τ}
    (hready : w.Ready owner event) (howner : l.owner? ≠ some owner)
    (hkept : ∀ token, event = some token → token ∉ l.dropped) :
    w'.Ready owner event ∧ w'.now = w.now := by
  -- another owner's event is another event
  have hother : ∀ {owner' event' token}, owner' ≠ owner → w.Ready owner' event' →
      event = some token → event' ≠ some token := by
    rintro owner' event' token hne hready' rfl rfl
    exact hne (congrArg Event.owner (h.unique _ hready' _ hready rfl))
  cases hs with
  | @act owner' event' dropped posted next issued _ hready' ha _ =>
    have hne : owner ≠ owner' := fun heq => howner (by rw [heq]; rfl)
    refine ⟨?_, rfl⟩
    cases event with
    | none =>
      have hsame : Function.update w.interest owner' (some next) owner = w.interest owner :=
        Function.update_of_ne hne _ _
      simpa only [World.Ready, World.Runnable, hsame] using hready
    | some token =>
      exact .inr ⟨hready, hother hne.symm hready' rfl, hkept token rfl⟩
  | @abort owner' event' issued _ hready' _ =>
    have hne : owner ≠ owner' := fun heq => howner (by rw [heq]; rfl)
    refine ⟨?_, rfl⟩
    cases event with
    | none => exact hready
    | some token =>
      exact .inr ⟨hready, hother hne.symm hready' rfl, List.not_mem_nil⟩
  | post =>
    refine ⟨?_, rfl⟩
    cases event with
    | none => exact hready
    | some token => exact .inr hready
  | advance _ hidle => exact absurd hready (hidle owner event)
  | quiesce => exact ⟨hready, rfl⟩
  | finish | halt =>
    refine ⟨?_, rfl⟩
    cases event with
    | none => exact hready
    | some token => exact hready

/-- **Readiness persists**: over a run in which its owner does not act and its event is
not dropped, what is ready stays ready, and time does not move. -/
theorem Steps.ready_kept {tr : List (Label ι τ μ)} (hrun : Steps Step w tr w') (h : w.WF)
    {owner : ι} {event : Option τ} (hready : w.Ready owner event)
    (howner : ∀ l ∈ tr, l.owner? ≠ some owner)
    (hkept : ∀ token, event = some token → ∀ l ∈ tr, token ∉ l.dropped) :
    w'.Ready owner event ∧ w'.now = w.now := by
  suffices w'.WF ∧ w'.Ready owner event ∧ w'.now = w.now from this.2
  induction hrun with
  | refl => exact ⟨h, hready, rfl⟩
  | @snoc tr u v l hrun hs ih =>
    obtain ⟨hwf, hu, hnow⟩ := ih (fun l hl => howner l (List.mem_append_left _ hl))
      fun token htoken l hl => hkept token htoken l (List.mem_append_left _ hl)
    have hl : l ∈ tr ++ [l] := List.mem_append_right _ (List.mem_singleton_self l)
    obtain ⟨hv, hnow'⟩ := hs.ready_kept hwf hu (howner l hl)
      fun token htoken => hkept token htoken l hl
    exact ⟨hs.wf hwf, hv, hnow'.trans hnow⟩

end EventSystem
