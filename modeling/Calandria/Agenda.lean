/-
Bounded agendas.

An agenda holds items that are due at moments, in the order in which they are
due: by moment, then by number.  Numbers are given out in order of admission, out
of `w` of them, and never again.  The number of pending items and their total
size are bounded.

* `Agenda.refusal?` — why an item is refused, in order of the checks;
* `Agenda.Ledger` — what entered is what left and what is pending, each once;
* `Agenda.Served` — items served at a rising time are served in due order.
-/
import Calandria.OrderedMap
import Mathlib.Data.Fin.Basic
import Mathlib.Data.Prod.Lex
import Mathlib.Order.Fin.Basic

variable {w : ℕ} {μ α : Type} [LinearOrder μ]

/-- Items of `α` due at moments of `μ`, numbered below `w`. -/
structure Agenda (w : ℕ) (μ α : Type) [LinearOrder μ] where
  pending : OrderedMap (μ ×ₗ Fin w) α
  next : ℕ
  fresh : ∀ {k v}, pending.get? k = some v → (ofLex k).2.val < next

namespace Agenda

/-- No items; the first one admitted is to have the number `next`. -/
def startingAt (next : ℕ) : Agenda w μ α := ⟨.empty, next, nofun⟩

variable (a : Agenda w μ α)

theorem fresh_insert (moment : μ) (value : α) (h : a.next < w) {k : μ ×ₗ Fin w} {v : α}
    (hk : (a.pending.insert (toLex (moment, ⟨a.next, h⟩)) value).get? k = some v) :
    (ofLex k).2.val < a.next + 1 := by
  rw [OrderedMap.get?_insert] at hk
  split_ifs at hk with heq
  · rw [heq]
    exact Nat.lt_succ_self _
  · exact Nat.lt_succ_of_lt (a.fresh hk)

/-- Admits an item under the next number. -/
def admitItem (moment : μ) (value : α) (h : a.next < w) : Agenda w μ α :=
  ⟨a.pending.insert (toLex (moment, ⟨a.next, h⟩)) value, a.next + 1,
    a.fresh_insert moment value h⟩

/-- The number of the next item, unless all are used up. -/
def number? : Option (Fin w) := if h : a.next < w then some ⟨a.next, h⟩ else none

theorem get?_of_erase {k k' : μ ×ₗ Fin w} {v : α} (h : (a.pending.erase k).get? k' = some v) :
    k' ≠ k ∧ a.pending.get? k' = some v := by
  rw [OrderedMap.get?_erase] at h
  split_ifs at h with heq
  exact ⟨heq, h⟩

/-- Takes an item off the agenda. -/
def remove (key : μ ×ₗ Fin w) : Agenda w μ α :=
  ⟨a.pending.erase key, a.next, fun h => a.fresh (a.get?_of_erase h).2⟩

/-! ### Bounds -/

structure Bounds where
  count : ℕ
  size : ℕ

inductive Refusal
  | count
  | sizeOverflow
  | size
  | numbers
  deriving DecidableEq

/-- Why an item of the given size is refused, where the total size is itself
counted with `w` numbers. -/
def refusal? (bounds : Bounds) (size : α → ℕ) (itemSize : ℕ) : Option Refusal :=
  if bounds.count ≤ a.pending.size then some .count
  else if w ≤ a.pending.total size + itemSize then some .sizeOverflow
  else if bounds.size < a.pending.total size + itemSize then some .size
  else if w ≤ a.next then some .numbers
  else none

/-- The bounds hold of what is pending. -/
structure Within (bounds : Bounds) (size : α → ℕ) : Prop where
  count : a.pending.size ≤ bounds.count
  size : a.pending.total size ≤ bounds.size

variable {a} {bounds : Bounds} {size : α → ℕ}

theorem refusal?_eq_none {n : ℕ} :
    a.refusal? bounds size n = none ↔
      a.pending.size < bounds.count ∧ a.pending.total size + n < w ∧
      a.pending.total size + n ≤ bounds.size ∧ a.next < w := by
  rw [refusal?]
  split_ifs with hcount hoverflow hsize hnumbers
  · exact iff_of_false nofun fun h => absurd h.1 (not_lt.mpr hcount)
  · exact iff_of_false nofun fun h => absurd h.2.1 (not_lt.mpr hoverflow)
  · exact iff_of_false nofun fun h => absurd h.2.2.1 (not_le.mpr hsize)
  · exact iff_of_false nofun fun h => absurd h.2.2.2 (not_lt.mpr hnumbers)
  · exact iff_of_true rfl
      ⟨not_le.mp hcount, not_le.mp hoverflow, not_lt.mp hsize, not_le.mp hnumbers⟩

theorem next_lt {n : ℕ} (h : a.refusal? bounds size n = none) : a.next < w :=
  (refusal?_eq_none.mp h).2.2.2

theorem vacant (moment : μ) (h : a.next < w) :
    a.pending.get? (toLex (moment, ⟨a.next, h⟩)) = none := by
  by_contra hne
  obtain ⟨v, hv⟩ := Option.ne_none_iff_exists'.mp hne
  exact lt_irrefl _ (a.fresh hv)

theorem Within.startingAt (next : ℕ) :
    (Agenda.startingAt next : Agenda w μ α).Within bounds size :=
  ⟨Nat.zero_le _, Nat.zero_le _⟩

theorem Within.admitItem {moment : μ} {value : α}
    (h : a.refusal? bounds size (size value) = none) (hnext : a.next < w) :
    (a.admitItem moment value hnext).Within bounds size := by
  obtain ⟨hcount, -, hsize, -⟩ := refusal?_eq_none.mp h
  constructor
  · show (a.pending.insert _ value).size ≤ bounds.count
    rw [OrderedMap.size_insert (vacant moment hnext)]
    exact hcount
  · show (a.pending.insert _ value).total size ≤ bounds.size
    rw [OrderedMap.total_insert size (vacant moment hnext), Nat.add_comm]
    exact hsize

theorem Within.remove (h : a.Within bounds size) (k : μ ×ₗ Fin w) :
    (a.remove k).Within bounds size := by
  constructor
  · exact (OrderedMap.size_erase_le _ k).trans h.count
  · exact (OrderedMap.total_erase_le size _ k).trans h.size

/-! ### What entered and what left -/

/-- The number of an item. -/
def number (e : (μ ×ₗ Fin w) × α) : Fin w := (ofLex e.1).2

/-- The accounts of an agenda's history. -/
structure Ledger (entered left : List ((μ ×ₗ Fin w) × α)) (a : Agenda w μ α) : Prop where
  balance : entered.Perm (left ++ a.pending.entries)
  increasing : (entered.map number).Pairwise (· < ·)
  below : ∀ e ∈ entered, (number e).val < a.next

namespace Ledger

variable {entered left : List ((μ ×ₗ Fin w) × α)}

theorem startingAt (next : ℕ) : Ledger [] [] (Agenda.startingAt next : Agenda w μ α) :=
  ⟨.nil, .nil, nofun⟩

/-- An admission enters its item at the end of the numbers so far. -/
theorem admitItem (h : Ledger entered left a) (moment : μ) (value : α) (hnext : a.next < w) :
    Ledger (entered ++ [(toLex (moment, ⟨a.next, hnext⟩), value)]) left
      (a.admitItem moment value hnext) where
  balance := by
    have hperm := OrderedMap.insert_perm (v := value) (vacant moment hnext)
    refine (List.perm_append_singleton _ _).trans ?_
    refine ((h.balance.cons _).trans ?_).trans (hperm.append_left left).symm
    exact List.perm_middle.symm
  increasing := by
    rw [List.map_append, List.pairwise_append]
    refine ⟨h.increasing, List.pairwise_singleton _ _, fun i hi j hj => ?_⟩
    obtain ⟨e, he, rfl⟩ := List.mem_map.mp hi
    obtain rfl := List.mem_singleton.mp hj
    exact h.below e he
  below e he := by
    rcases List.mem_append.mp he with hold | hnew
    · exact Nat.lt_succ_of_lt (h.below e hold)
    · obtain rfl := List.mem_singleton.mp hnew
      exact Nat.lt_succ_self _

theorem remove (h : Ledger entered left a) {k : μ ×ₗ Fin w} {v : α}
    (hk : a.pending.get? k = some v) : Ledger entered (left ++ [(k, v)]) (a.remove k) where
  balance := by
    rw [List.append_assoc, List.singleton_append]
    exact h.balance.trans ((OrderedMap.erase_perm hk).append_left left)
  increasing := h.increasing
  below := h.below

/-- Numbers are not given out twice, so an item leaves at most once and is
pending no longer. -/
theorem left_nodup (h : Ledger entered left a) :
    ((left ++ a.pending.entries).map number).Nodup :=
  (h.balance.map number).nodup_iff.mp (h.increasing.imp fun hlt => hlt.ne)

end Ledger

/-! ### Serving in due order -/

/-- The items served so far, up to `now`, came in due order and before whatever
is pending. -/
structure Served (now : μ) (served : List (μ ×ₗ Fin w)) (a : Agenda w μ α) : Prop where
  ordered : served.Pairwise (· < ·)
  past : ∀ k ∈ served, (ofLex k).1 ≤ now ∧ (ofLex k).2.val < a.next
  before : ∀ k ∈ served, ∀ {k' v}, a.pending.get? k' = some v → k < k'

namespace Served

variable {now : μ} {served : List (μ ×ₗ Fin w)}

theorem startingAt (now : μ) (next : ℕ) :
    Served now [] (Agenda.startingAt next : Agenda w μ α) :=
  ⟨.nil, nofun, nofun⟩

/-- An item that is not due in the past comes after everything served. -/
theorem admitItem (h : Served now served a) {moment : μ} (hnow : now ≤ moment) (value : α)
    (hnext : a.next < w) : Served now served (a.admitItem moment value hnext) where
  ordered := h.ordered
  past k hk := ⟨(h.past k hk).1, Nat.lt_succ_of_lt (h.past k hk).2⟩
  before k hk := by
    intro k' v hk'
    change (a.pending.insert _ value).get? k' = some v at hk'
    rw [OrderedMap.get?_insert] at hk'
    split_ifs at hk' with heq
    · rw [heq, Prod.Lex.lt_iff]
      rcases ((h.past k hk).1.trans hnow).lt_or_eq with hlt | heq
      · exact .inl hlt
      · exact .inr ⟨heq, (h.past k hk).2⟩
    · exact h.before k hk hk'

theorem remove (h : Served now served a) (k : μ ×ₗ Fin w) : Served now served (a.remove k) where
  ordered := h.ordered
  past := h.past
  before j hj := fun hk' => h.before j hj (a.get?_of_erase hk').2

/-- The first item is served at its moment. -/
theorem serve (h : Served now served a) {e : (μ ×ₗ Fin w) × α} (he : a.pending.first? = some e)
    (hnow : now ≤ (ofLex e.1).1) : Served (ofLex e.1).1 (served ++ [e.1]) (a.remove e.1) where
  ordered := by
    refine List.pairwise_append.mpr ⟨h.ordered, List.pairwise_singleton _ _, fun k hk k' hk' => ?_⟩
    obtain rfl := List.mem_singleton.mp hk'
    exact h.before k hk (OrderedMap.get?_first? he)
  past k hk := by
    rcases List.mem_append.mp hk with hold | hnew
    · exact ⟨(h.past k hold).1.trans hnow, (h.past k hold).2⟩
    · obtain rfl := List.mem_singleton.mp hnew
      exact ⟨le_rfl, a.fresh (OrderedMap.get?_first? he)⟩
  before k hk := by
    intro k' v hk'
    obtain ⟨hne, hget⟩ := a.get?_of_erase hk'
    rcases List.mem_append.mp hk with hold | hnew
    · exact h.before k hold hget
    · obtain rfl := List.mem_singleton.mp hnew
      exact lt_of_le_of_ne (OrderedMap.first?_le he hget) hne.symm

end Served

end Agenda
