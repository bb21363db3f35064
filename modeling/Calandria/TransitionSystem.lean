/-
Labelled transition systems and their finite runs.

A run is recorded together with its trace, the labels of its steps in order.
The rules below are the only inductions over runs the development needs:

* `Steps.invariant` — a property of trace and state that holds at the start
  and survives every step holds after every run;
* `Steps.simulate` — a step-by-step simulation lifts to runs with the same
  trace;
* `Steps.refines` — so does a refinement, in which a step may be several;
* `Steps.conserved` — what steps take from the front of a queue and put at its
  back adds up over a run;
* `Steps.balanced`, `Steps.spent` — what the steps of a run cost is bounded by what
  it starts with, and gains;
* `Steps.counted`, `Steps.saturated` — what the steps of a run count is what its states have
  counted;
* `TransitionSystem.Run.invariant` — the first rule for the runs of a system,
  whose start states are given by a predicate;
* `TransitionSystem.Run.relabel`, `Run.unlabel` — a system with finer labels has
  the same runs.

`Guarded` ties the holders of mutexes to what each party holds, and
`TransitionSystem.recording` keeps the state a step leaves beside the step's
label, for properties that look back at it.
-/
import Mathlib.Algebra.Order.Ring.Nat
import Mathlib.Data.List.Basic
import Mathlib.Data.List.Induction
import Mathlib.Logic.Function.Basic

variable {σ τ ℓ : Type}

/-- A longer trace is split at its new label, or at one that it had before. -/
theorem snoc_eq_append_cons {tr before after : List ℓ} {l first : ℓ}
    (h : tr ++ [l] = before ++ first :: after) :
    (after = [] ∧ before = tr ∧ first = l) ∨
      ∃ middle, after = middle ++ [l] ∧ tr = before ++ first :: middle := by
  induction after using List.reverseRecOn with
  | nil =>
    obtain ⟨htr, hl⟩ := List.append_inj' h rfl
    exact .inl ⟨rfl, htr.symm, (List.singleton_inj.mp hl).symm⟩
  | append_singleton middle last =>
    rw [← List.cons_append, ← List.append_assoc] at h
    obtain ⟨htr, hl⟩ := List.append_inj' h rfl
    rw [List.singleton_inj.mp hl]
    exact .inr ⟨middle, rfl, htr⟩

/-- `Steps step s tr s'`: the steps labelled by `tr` lead from `s` to `s'`. -/
inductive Steps (step : σ → ℓ → σ → Prop) (s : σ) : List ℓ → σ → Prop
  | refl : Steps step s [] s
  | snoc {tr : List ℓ} {u v : σ} {l : ℓ} :
      Steps step s tr u → step u l v → Steps step s (tr ++ [l]) v

namespace Steps

variable {ℓ' : Type} {step : σ → ℓ → σ → Prop} {s u v : σ} {tr : List ℓ}

theorem single {l : ℓ} (h : step s l u) : Steps step s [l] u :=
  .snoc .refl h

theorem trans {tr' : List ℓ} (h : Steps step s tr u) (h' : Steps step u tr' v) :
    Steps step s (tr ++ tr') v := by
  induction h' with
  | refl => rwa [List.append_nil]
  | snoc _ hstep ih => exact List.append_assoc .. ▸ .snoc ih hstep

/-- **The invariant rule**: what holds at the start and survives every step
holds after every run. -/
theorem invariant {I : List ℓ → σ → Prop} (h0 : I [] s)
    (hstep : ∀ {tr u l v}, Steps step s tr u → I tr u → step u l v → I (tr ++ [l]) v)
    (h : Steps step s tr u) : I tr u := by
  induction h with
  | refl => exact h0
  | snoc hrun hs ih => exact hstep hrun ih hs

/-- The invariant rule for a property of the state alone. -/
theorem preserves {P : σ → Prop} (hstep : ∀ {u l v}, P u → step u l v → P v)
    (h : Steps step s tr u) (h0 : P s) : P u :=
  invariant (I := fun _ u => P u) h0 (fun _ hu hs => hstep hu hs) h

theorem of_snoc {l : ℓ} (h : Steps step s (tr ++ [l]) v) :
    ∃ u, Steps step s tr u ∧ step u l v := by
  generalize htr : tr ++ [l] = tr' at h
  cases h with
  | refl => simp at htr
  | snoc hrun hstep =>
    obtain ⟨rfl, hl⟩ := List.append_inj' htr rfl
    cases hl
    exact ⟨_, hrun, hstep⟩

/-- A run passes through a state after each prefix of its trace. -/
theorem split {tr' : List ℓ} (h : Steps step s (tr ++ tr') v) :
    ∃ u, Steps step s tr u ∧ Steps step u tr' v := by
  induction tr' using List.reverseRecOn generalizing v with
  | nil => exact ⟨v, by rwa [List.append_nil] at h, .refl⟩
  | append_singleton tr' l ih =>
    rw [← List.append_assoc] at h
    obtain ⟨w, hw, hstep⟩ := h.of_snoc
    obtain ⟨u, hu, hrun⟩ := ih hw
    exact ⟨u, hu, hrun.snoc hstep⟩

theorem of_nil (h : Steps step s [] u) : u = s := by
  generalize htr : ([] : List ℓ) = tr at h
  cases h with
  | refl => rfl
  | snoc => simp at htr

/-- A run begins with a step. -/
theorem of_cons {l : ℓ} (h : Steps step s (l :: tr) v) : ∃ u, step s l u ∧ Steps step u tr v := by
  obtain ⟨u, hfirst, hrest⟩ := split (List.singleton_append ▸ h)
  obtain ⟨w, hw, hstep⟩ := of_snoc (List.nil_append [l] ▸ hfirst)
  rw [of_nil hw] at hstep
  exact ⟨u, hstep, hrest⟩

/-- **The budget rule**: if every step pays its cost out of what the state still
allows and what the step gains, so does a run. -/
theorem balanced {P : σ → Prop} (cost gain : ℓ → ℕ) (allowance : σ → ℕ)
    (hstep : ∀ {u l v}, P u → step u l v → P v ∧ cost l + allowance v ≤ allowance u + gain l)
    (h : Steps step s tr u) (h0 : P s) :
    (tr.map cost).sum + allowance u ≤ allowance s + (tr.map gain).sum := by
  suffices P u ∧ (tr.map cost).sum + allowance u ≤ allowance s + (tr.map gain).sum from this.2
  induction h with
  | refl => exact ⟨h0, by simp⟩
  | snoc _ hs ih =>
    obtain ⟨hu, hle⟩ := ih
    obtain ⟨hv, hcost⟩ := hstep hu hs
    refine ⟨hv, ?_⟩
    simp only [List.map_append, List.sum_append, List.map_singleton, List.sum_singleton]
    omega

/-- Without gains, a run costs no more than its first state allows. -/
theorem spent {P : σ → Prop} (cost : ℓ → ℕ) (allowance : σ → ℕ)
    (hstep : ∀ {u l v}, P u → step u l v → P v ∧ cost l + allowance v ≤ allowance u)
    (h : Steps step s tr u) (h0 : P s) : (tr.map cost).sum + allowance u ≤ allowance s := by
  have hle := h.balanced cost (fun _ => 0) allowance hstep h0
  simpa using hle

/-- What the steps of a run count is what has been added to the state's account. -/
theorem counted {P : σ → Prop} (count : ℓ → ℕ) (account : σ → ℕ)
    (hstep : ∀ {u l v}, P u → step u l v → P v ∧ account u + count l = account v)
    (h : Steps step s tr u) (h0 : P s) : account s + (tr.map count).sum = account u := by
  suffices P u ∧ account s + (tr.map count).sum = account u from this.2
  induction h with
  | refl => exact ⟨h0, by simp⟩
  | snoc _ hs ih =>
    obtain ⟨hu, heq⟩ := ih
    obtain ⟨hv, hcount⟩ := hstep hu hs
    refine ⟨hv, ?_⟩
    rw [List.map_append, List.sum_append, List.map_singleton, List.sum_singleton, ← Nat.add_assoc,
      heq, hcount]

/-- What the steps of a run count, in an account that stays at its greatest value. -/
theorem saturated {P : σ → Prop} (count : ℓ → ℕ) (account : σ → ℕ) (most : ℕ)
    (hstep : ∀ {u l v}, P u → step u l v → P v ∧ account v = min (account u + count l) most)
    (h : Steps step s tr u) (h0 : P s) (hle : account s ≤ most) :
    account u = min (account s + (tr.map count).sum) most := by
  suffices P u ∧ account u = min (account s + (tr.map count).sum) most from this.2
  induction h with
  | refl =>
    refine ⟨h0, ?_⟩
    rw [List.map_nil, List.sum_nil, Nat.add_zero, Nat.min_eq_left hle]
  | snoc _ hs ih =>
    obtain ⟨hu, heq⟩ := ih
    obtain ⟨hv, hcount⟩ := hstep hu hs
    refine ⟨hv, ?_⟩
    rw [List.map_append, List.sum_append, List.map_singleton, List.sum_singleton, hcount, heq]
    omega

/-- **Refinement**: if every step is, seen through `abs`, the steps that `f` names, a run
is the run that `f` names. -/
theorem refines {step' : τ → ℓ' → τ → Prop} {P : σ → Prop} (abs : σ → τ) (f : ℓ → List ℓ')
    (hstep : ∀ {u l v}, P u → step u l v → P v ∧ Steps step' (abs u) (f l) (abs v))
    (h : Steps step s tr u) (h0 : P s) :
    P u ∧ Steps step' (abs s) (tr.flatMap f) (abs u) := by
  induction h with
  | refl => exact ⟨h0, .refl⟩
  | snoc _ hs ih =>
    obtain ⟨hu, hrun⟩ := ih
    obtain ⟨hv, hnext⟩ := hstep hu hs
    refine ⟨hv, ?_⟩
    rw [List.flatMap_append, List.flatMap_singleton]
    exact hrun.trans hnext

/-- **Simulation**: a relation kept by matching steps is kept by matching runs. -/
theorem simulate {step' : τ → ℓ → τ → Prop} {R : σ → τ → Prop} {t : τ}
    (hsim : ∀ {u l v w}, R u w → step u l v → ∃ w', step' w l w' ∧ R v w')
    (h : Steps step s tr u) (h0 : R s t) : ∃ t', Steps step' t tr t' ∧ R u t' := by
  induction h with
  | refl => exact ⟨t, .refl, h0⟩
  | snoc _ hs ih =>
    obtain ⟨w, hw, hR⟩ := ih
    obtain ⟨w', hw', hR'⟩ := hsim hR hs
    exact ⟨w', hw.snoc hw', hR'⟩

end Steps

namespace Steps

variable {α : Type} {step : σ → ℓ → σ → Prop} {s u : σ} {tr : List ℓ}

/-- **Conservation** of a queue: if every step takes `outs` from its front and
puts `ins` at its back, then what a run put in is what it took out and what is left. -/
theorem conserved (contents : σ → List α) (ins outs : ℓ → List α) {P : σ → Prop} (h0 : P s)
    (hstep : ∀ {u l v}, P u → step u l v →
      P v ∧ contents u ++ ins l = outs l ++ contents v)
    (h : Steps step s tr u) :
    contents s ++ tr.flatMap ins = tr.flatMap outs ++ contents u := by
  suffices P u ∧ contents s ++ tr.flatMap ins = tr.flatMap outs ++ contents u from this.2
  induction h with
  | refl => exact ⟨h0, by simp⟩
  | snoc _ hs ih =>
    obtain ⟨hu, heq⟩ := ih
    obtain ⟨hv, hnext⟩ := hstep hu hs
    refine ⟨hv, ?_⟩
    rw [List.flatMap_append, List.flatMap_append, List.flatMap_singleton, List.flatMap_singleton,
      ← List.append_assoc, heq, List.append_assoc, hnext, List.append_assoc]

end Steps

/-- A labelled transition system. -/
structure TransitionSystem (σ ℓ : Type) where
  init : σ → Prop
  step : σ → ℓ → σ → Prop

namespace TransitionSystem

variable (T : TransitionSystem σ ℓ)

/-- `T.Run tr s`: some run from a start state has trace `tr` and ends in `s`. -/
def Run (tr : List ℓ) (s : σ) : Prop := ∃ s₀, T.init s₀ ∧ Steps T.step s₀ tr s

/-- The states in which some run ends. -/
def Reachable (s : σ) : Prop := ∃ tr, T.Run tr s

variable {T} {s s' : σ} {tr : List ℓ}

theorem Run.start (h : T.init s) : T.Run [] s := ⟨s, h, .refl⟩

theorem Run.next {l : ℓ} (h : T.Run tr s) (hs : T.step s l s') : T.Run (tr ++ [l]) s' := by
  obtain ⟨s₀, h0, hrun⟩ := h
  exact ⟨s₀, h0, hrun.snoc hs⟩

theorem Run.reachable (h : T.Run tr s) : T.Reachable s := ⟨tr, h⟩

theorem Reachable.next {l : ℓ} (h : T.Reachable s) (hs : T.step s l s') : T.Reachable s' := by
  obtain ⟨tr, hrun⟩ := h
  exact ⟨_, hrun.next hs⟩

/-- The invariant rule for runs from the start states. -/
theorem Run.invariant {I : List ℓ → σ → Prop} (h0 : ∀ {s}, T.init s → I [] s)
    (hstep : ∀ {tr s l s'}, T.Run tr s → I tr s → T.step s l s' → I (tr ++ [l]) s')
    (h : T.Run tr s) : I tr s := by
  obtain ⟨s₀, hinit, hrun⟩ := h
  exact hrun.invariant (h0 hinit) fun hr hi hs => hstep ⟨s₀, hinit, hr⟩ hi hs

/-- The invariant rule for a property of the state alone. -/
theorem Reachable.invariant {P : σ → Prop} (h0 : ∀ {s}, T.init s → P s)
    (hstep : ∀ {s l s'}, P s → T.step s l s' → P s') (h : T.Reachable s) : P s := by
  obtain ⟨tr, hrun⟩ := h
  exact hrun.invariant (I := fun _ s => P s) h0 fun _ hp hs => hstep hp hs

section

variable {ℓ' : Type} {T' : TransitionSystem σ ℓ'} {acts : List ℓ'} (f : ℓ' → ℓ)

/-- A system with finer labels has no other runs. -/
theorem Run.relabel (h0 : ∀ {s}, T'.init s → T.init s)
    (hstep : ∀ {s a s'}, T'.step s a s' → T.step s (f a) s') (h : T'.Run acts s) :
    T.Run (acts.map f) s := by
  refine h.invariant (I := fun acts s => T.Run (acts.map f) s) (fun hinit => .start (h0 hinit)) ?_
  intro acts u a v _ ih hs
  rw [List.map_append, List.map_singleton]
  exact ih.next (hstep hs)

/-- Nor fewer, if every step has one of its labels. -/
theorem Run.unlabel (h0 : ∀ {s}, T.init s → T'.init s)
    (hstep : ∀ {s l s'}, T.step s l s' → ∃ a, f a = l ∧ T'.step s a s') (h : T.Run tr s) :
    ∃ acts, acts.map f = tr ∧ T'.Run acts s := by
  refine h.invariant (I := fun tr s => ∃ acts, acts.map f = tr ∧ T'.Run acts s)
    (fun hinit => ⟨[], rfl, .start (h0 hinit)⟩) ?_
  rintro _ u l v _ ⟨acts, rfl, hrun⟩ hs
  obtain ⟨a, rfl, ha⟩ := hstep hs
  exact ⟨acts ++ [a], by rw [List.map_append, List.map_singleton], hrun.next ha⟩

end

/-- The same runs, with the state that each step leaves beside its label. -/
def recording (T : TransitionSystem σ ℓ) : TransitionSystem σ (σ × ℓ) where
  init := T.init
  step s l s' := l.1 = s ∧ T.step s l.2 s'

theorem Run.ofRecording {tr : List (σ × ℓ)} (h : T.recording.Run tr s) :
    T.Run (tr.map Prod.snd) s :=
  h.relabel Prod.snd id And.right

/-- Every entry of a recorded run is a step from a reachable state. -/
theorem Run.recorded {tr : List (σ × ℓ)} (h : T.recording.Run tr s) :
    ∀ l ∈ tr, T.Reachable l.1 ∧ ∃ s', T.step l.1 l.2 s' := by
  refine h.invariant (I := fun tr _ => ∀ l ∈ tr, T.Reachable l.1 ∧ ∃ s', T.step l.1 l.2 s')
    (fun _ => by simp) ?_
  rintro tr u l v hrun ih ⟨rfl, hstep⟩ l' hmem
  rcases List.mem_append.mp hmem with hmem | hmem
  · exact ih l' hmem
  · obtain rfl := List.mem_singleton.mp hmem
    exact ⟨hrun.ofRecording.reachable, v, hstep⟩

end TransitionSystem

/-! ### Positions in a growing trace -/

theorem getElem?_snoc {tr : List ℓ} {l x : ℓ} {i : ℕ} :
    (tr ++ [l])[i]? = some x ↔ tr[i]? = some x ∨ (i = tr.length ∧ x = l) := by
  rcases Nat.lt_trichotomy i tr.length with h | rfl | h
  · rw [List.getElem?_append_left h]
    exact ⟨.inl, fun hx => hx.resolve_right fun hi => by omega⟩
  · simp [eq_comm]
  · have h1 : (tr ++ [l])[i]? = none := List.getElem?_eq_none (by simp; omega)
    have h2 : tr[i]? = none := List.getElem?_eq_none (by omega)
    exact iff_of_false (by simp [h1]) (by simp [h2]; omega)

theorem getElem?_snoc_of {tr : List ℓ} {l x : ℓ} {i : ℕ} (h : tr[i]? = some x) :
    (tr ++ [l])[i]? = some x :=
  getElem?_snoc.mpr (.inl h)

theorem lt_length_of_getElem? {tr : List ℓ} {x : ℓ} {i : ℕ} (h : tr[i]? = some x) :
    i < tr.length :=
  (List.getElem?_eq_some_iff.mp h).1

/-! ### Tables of threads -/

theorem update_eq_some {ι α : Type} [DecidableEq ι] {f : ι → Option α} {c d : ι} {x : Option α}
    {y : α} :
    Function.update f c x d = some y ↔ (d = c ∧ x = some y) ∨ (d ≠ c ∧ f d = some y) := by
  by_cases hdc : d = c
  · subst hdc
    simp
  · simp [hdc]

/-! ### Mutexes -/

/-- A table of mutexes `κ`, each with its holder, agrees with what the parties
`π` hold, each at most one. -/
structure Guarded {κ π : Type} (holder : κ → Option π) (holds : π → Option κ) : Prop where
  held : ∀ {p k}, holds p = some k → holder k = some p

namespace Guarded

variable {κ π : Type} {holder : κ → Option π} {holds : π → Option κ} {p q : π} {k : κ}

theorem exclusive (h : Guarded holder holds) (hp : holds p = some k) (hq : holds q = some k) :
    p = q :=
  Option.some_inj.mp ((h.held hp).symm.trans (h.held hq))

theorem not_free (h : Guarded holder holds) (hp : holds p = some k) : holder k ≠ none := by
  rw [h.held hp]
  exact nofun

variable [DecidableEq π]

/-- A step of `p` that touches no mutex. -/
theorem stay (h : Guarded holder holds) {x : Option κ} (hx : x = holds p) :
    Guarded holder (Function.update holds p x) := by
  rw [hx, Function.update_eq_self]
  exact h

variable [DecidableEq κ]

theorem acquire (h : Guarded holder holds) (p : π) (hfree : holder k = none) :
    Guarded (Function.update holder k (some p)) (Function.update holds p (some k)) := by
  refine ⟨fun {q k'} hq => ?_⟩
  rcases update_eq_some.mp hq with ⟨rfl, hk⟩ | ⟨-, hheld⟩
  · rw [Option.some_inj.mp hk, Function.update_self]
  · have hk : k' ≠ k := by
      rintro rfl
      exact h.not_free hheld hfree
    rw [Function.update_of_ne hk, h.held hheld]

theorem release (h : Guarded holder holds) (hp : holds p = some k) :
    Guarded (Function.update holder k none) (Function.update holds p none) := by
  refine ⟨fun {q k'} hq => ?_⟩
  rcases update_eq_some.mp hq with ⟨-, hk⟩ | ⟨hqp, hheld⟩
  · cases hk
  · have hk : k' ≠ k := by
      rintro rfl
      exact hqp (h.exclusive hheld hp)
    rw [Function.update_of_ne hk, h.held hheld]

end Guarded
