/-
Causal logs.

An append-only log whose entries are numbered by their positions, are in order
of time, and may name an earlier entry as their cause.

* `CausalLog.snoc` — the conditions under which such a log grows;
* `CausalLog.truncate` — a log that keeps only its first entries is one too;
* `CausalLog.parent` — every cause is an entry of the log, and no later in time.
-/
import Calandria.TransitionSystem
import Mathlib.Order.Basic

/-- The entries of `log` are numbered by position and in order of time, and
their causes have smaller numbers. -/
structure CausalLog {α T : Type} [Preorder T] (id : α → ℕ) (cause : α → Option ℕ) (time : α → T)
    (log : List α) : Prop where
  position : ∀ {i x}, log[i]? = some x → id x = i
  earlier : ∀ {x}, x ∈ log → ∀ {c}, cause x = some c → c < id x
  ordered : log.Pairwise fun x y => time x ≤ time y

namespace CausalLog

variable {α T : Type} [Preorder T] {id : α → ℕ} {cause : α → Option ℕ} {time : α → T}
  {log log' : List α} {x y : α}

theorem nil : CausalLog id cause time [] :=
  ⟨by simp, by simp, .nil⟩

theorem lt_length (h : CausalLog id cause time log) (hx : x ∈ log) : id x < log.length := by
  obtain ⟨i, hi⟩ := List.mem_iff_getElem?.mp hx
  rw [h.position hi]
  exact lt_length_of_getElem? hi

theorem getElem? (h : CausalLog id cause time log) (hx : x ∈ log) : log[id x]? = some x := by
  obtain ⟨i, hi⟩ := List.mem_iff_getElem?.mp hx
  rwa [h.position hi]

/-- The number of an entry identifies it. -/
theorem unique (h : CausalLog id cause time log) (hx : x ∈ log) (hy : y ∈ log)
    (hid : id x = id y) : x = y := by
  have heq := h.getElem? hy
  rw [← hid, h.getElem? hx] at heq
  exact Option.some_inj.mp heq

theorem snoc (h : CausalLog id cause time log) (hid : id x = log.length)
    (hcause : ∀ {c}, cause x = some c → c < log.length) (htime : ∀ y ∈ log, time y ≤ time x) :
    CausalLog id cause time (log ++ [x]) := by
  refine ⟨fun {i y} hy => ?_, fun {y} hy c hc => ?_, ?_⟩
  · rcases getElem?_snoc.mp hy with hy | ⟨rfl, rfl⟩
    · exact h.position hy
    · exact hid
  · rcases List.mem_append.mp hy with hy | hy
    · exact h.earlier hy hc
    · obtain rfl := List.mem_singleton.mp hy
      rw [hid]
      exact hcause hc
  · refine List.pairwise_append.mpr ⟨h.ordered, List.pairwise_singleton _ _, fun y hy z hz => ?_⟩
    obtain rfl := List.mem_singleton.mp hz
    exact htime y hy

theorem truncate (h : CausalLog id cause time log) (hp : log' <+: log) :
    CausalLog id cause time log' := by
  obtain ⟨rest, rfl⟩ := hp
  refine ⟨fun {i x} hi => h.position ?_, fun hx c hc => h.earlier (List.mem_append_left _ hx) hc,
    (List.pairwise_append.mp h.ordered).1⟩
  rw [List.getElem?_append_left (lt_length_of_getElem? hi)]
  exact hi

/-- A cause stands at its number, no later than what it caused. -/
theorem parent (h : CausalLog id cause time log) (hx : x ∈ log) {c : ℕ} (hc : cause x = some c) :
    c < id x ∧ ∃ y, log[c]? = some y ∧ id y = c ∧ time y ≤ time x := by
  have hlt := h.earlier hx hc
  have hlength := h.lt_length hx
  have hy : log[c]? = some log[c] := List.getElem?_eq_getElem (Nat.lt_trans hlt hlength)
  refine ⟨hlt, log[c], hy, h.position hy, ?_⟩
  obtain ⟨_, heq⟩ := List.getElem?_eq_some_iff.mp (h.getElem? hx)
  have hle := List.pairwise_iff_getElem.mp h.ordered c (id x) (Nat.lt_trans hlt hlength) hlength hlt
  rwa [heq] at hle

end CausalLog
