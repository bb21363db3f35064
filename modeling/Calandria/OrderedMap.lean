/-
Finite maps kept as strictly increasing association lists.

`OrderedMap κ ν` is the mathematical content of a B-tree map: its entries are
listed in key order and a key occurs at most once, both by construction.
Because the list of a finite map is unique, two maps with the same lookups are
equal (`ext_get?`), so "nothing changed" can be stated as an equation.

* `get?_insert`, `get?_erase` — what an update does to every lookup;
* `insert_perm`, `erase_perm` — what an update does to the list of entries,
  from which the counts (`size_insert`, `size_erase`) and the weighted totals
  (`total_insert`, `total_erase`) follow;
* `first?_le` — the first entry has the least key.
-/
import Mathlib.Algebra.Order.Ring.Nat
import Mathlib.Data.List.Nodup
import Mathlib.Data.List.Perm.Basic
import Mathlib.Order.Basic
import Mathlib.Tactic.SplitIfs

/-- A finite map whose entries are listed by strictly increasing key. -/
structure OrderedMap (κ ν : Type) [LinearOrder κ] where
  entries : List (κ × ν)
  sorted : entries.Pairwise fun a b => a.1 < b.1

namespace OrderedMap

variable {κ ν : Type} [LinearOrder κ]

/-- The map without entries. -/
def empty : OrderedMap κ ν := ⟨[], .nil⟩

/-- The value stored at a key. -/
def get? (m : OrderedMap κ ν) (k : κ) : Option ν :=
  (m.entries.find? fun e => e.1 = k).map Prod.snd

/-- Insertion into an increasing entry list, replacing an entry with the same key. -/
def insertEntry (k : κ) (v : ν) : List (κ × ν) → List (κ × ν)
  | [] => [(k, v)]
  | e :: rest =>
    if k < e.1 then (k, v) :: e :: rest
    else if k = e.1 then (k, v) :: rest
    else e :: insertEntry k v rest

theorem mem_insertEntry {k : κ} {v : ν} {l : List (κ × ν)} {e : κ × ν}
    (h : e ∈ insertEntry k v l) : e = (k, v) ∨ e ∈ l := by
  induction l with
  | nil => simpa [insertEntry] using h
  | cons hd rest ih =>
    rw [insertEntry] at h
    split_ifs at h with h1 h2
    · simpa using h
    · rcases List.mem_cons.mp h with h | h
      · exact .inl h
      · exact .inr (List.mem_cons_of_mem _ h)
    · rcases List.mem_cons.mp h with h | h
      · exact .inr (h ▸ List.mem_cons_self)
      · exact (ih h).imp_right (List.mem_cons_of_mem _)

theorem insertEntry_sorted {k : κ} {v : ν} {l : List (κ × ν)}
    (h : l.Pairwise fun a b => a.1 < b.1) :
    (insertEntry k v l).Pairwise fun a b => a.1 < b.1 := by
  induction l with
  | nil => simp [insertEntry]
  | cons hd rest ih =>
    obtain ⟨hhd, hrest⟩ := List.pairwise_cons.mp h
    rw [insertEntry]
    split_ifs with h1 h2
    · refine List.pairwise_cons.mpr ⟨fun e he => ?_, h⟩
      rcases List.mem_cons.mp he with rfl | he
      · exact h1
      · exact h1.trans (hhd e he)
    · exact List.pairwise_cons.mpr ⟨fun e he => h2 ▸ hhd e he, hrest⟩
    · refine List.pairwise_cons.mpr ⟨fun e he => ?_, ih hrest⟩
      rcases mem_insertEntry he with rfl | he
      · exact lt_of_le_of_ne (not_lt.mp h1) (Ne.symm h2)
      · exact hhd e he

/-- Stores a value at a key. -/
def insert (m : OrderedMap κ ν) (k : κ) (v : ν) : OrderedMap κ ν :=
  ⟨insertEntry k v m.entries, insertEntry_sorted m.sorted⟩

/-- Removes a key. -/
def erase (m : OrderedMap κ ν) (k : κ) : OrderedMap κ ν :=
  ⟨m.entries.filter fun e => e.1 ≠ k, m.sorted.filter _⟩

/-- The number of entries. -/
def size (m : OrderedMap κ ν) : ℕ := m.entries.length

/-- The stored values in key order. -/
def values (m : OrderedMap κ ν) : List ν := m.entries.map Prod.snd

/-- The entry with the least key. -/
def first? (m : OrderedMap κ ν) : Option (κ × ν) := m.entries.head?

/-- The sum of a weight over all stored values. -/
def total (w : ν → ℕ) (m : OrderedMap κ ν) : ℕ := (m.entries.map fun e => w e.2).sum

/-! ### Lookup and membership -/

theorem nodup_keys (m : OrderedMap κ ν) : (m.entries.map Prod.fst).Nodup :=
  List.pairwise_map.mpr (m.sorted.imp fun hab => hab.ne)

theorem key_inj {m : OrderedMap κ ν} {a b : κ × ν} (ha : a ∈ m.entries) (hb : b ∈ m.entries)
    (hk : a.1 = b.1) : a = b :=
  List.inj_on_of_nodup_map m.nodup_keys ha hb hk

theorem mem_entries {m : OrderedMap κ ν} {k : κ} {v : ν} :
    (k, v) ∈ m.entries ↔ m.get? k = some v := by
  rw [get?]
  constructor
  · intro h
    cases hf : m.entries.find? (fun e => e.1 = k) with
    | none =>
      have := List.find?_eq_none.mp hf _ h
      simp at this
    | some e =>
      have hk : e.1 = k := by simpa using List.find?_some hf
      simp [key_inj (List.mem_of_find?_eq_some hf) h hk]
  · intro h
    obtain ⟨e, he, rfl⟩ := Option.map_eq_some_iff.mp h
    have hk : e.1 = k := by simpa using List.find?_some he
    exact hk ▸ List.mem_of_find?_eq_some he

theorem get?_eq_none {m : OrderedMap κ ν} {k : κ} :
    m.get? k = none ↔ ∀ e ∈ m.entries, e.1 ≠ k := by
  simp [get?, List.find?_eq_none]

theorem mem_values {m : OrderedMap κ ν} {v : ν} :
    v ∈ m.values ↔ ∃ k, m.get? k = some v := by
  simp only [values, List.mem_map, Prod.exists, ← mem_entries]
  exact ⟨fun ⟨k, _, h, hv⟩ => ⟨k, hv ▸ h⟩, fun ⟨k, h⟩ => ⟨k, v, h, rfl⟩⟩

/-- **Extensionality**: the lookups determine the list of entries. -/
theorem ext_get? {m m' : OrderedMap κ ν} (h : ∀ k, m.get? k = m'.get? k) : m = m' := by
  obtain ⟨l, hl⟩ := m
  obtain ⟨l', hl'⟩ := m'
  congr 1
  have hnd : ∀ {l : List (κ × ν)}, (l.Pairwise fun a b => a.1 < b.1) → l.Nodup :=
    fun hl => hl.imp fun hab => fun he => absurd (he ▸ hab) (lt_irrefl _)
  have hanti : ∀ a b : κ × ν, a ∈ l → b ∈ l' → a.1 < b.1 → b.1 < a.1 → a = b :=
    fun a b _ _ hab hba => absurd hab (not_lt.mpr hba.le)
  refine List.Perm.eq_of_pairwise hanti hl hl' ?_
  refine (List.perm_ext_iff_of_nodup (hnd hl) (hnd hl')).mpr fun ⟨k, v⟩ => ?_
  have hiff := (mem_entries (m := ⟨l, hl⟩) (k := k) (v := v)).trans (by rw [h k])
  exact hiff.trans (mem_entries (m := ⟨l', hl'⟩)).symm

@[simp] theorem get?_empty (k : κ) : (empty : OrderedMap κ ν).get? k = none := rfl

/-! ### Updates -/

theorem mem_insertEntry_iff {k : κ} {v : ν} {l : List (κ × ν)} {e : κ × ν}
    (h : l.Pairwise fun a b => a.1 < b.1) :
    e ∈ insertEntry k v l ↔ e = (k, v) ∨ (e.1 ≠ k ∧ e ∈ l) := by
  induction l with
  | nil => simp [insertEntry]
  | cons hd rest ih =>
    obtain ⟨hhd, hrest⟩ := List.pairwise_cons.mp h
    rw [insertEntry]
    -- before the head, in its place, or further on
    split_ifs with h1 h2
    · have hne : ∀ e ∈ hd :: rest, e.1 ≠ k := by
        intro e he
        rcases List.mem_cons.mp he with rfl | he
        · exact h1.ne'
        · exact (h1.trans (hhd e he)).ne'
      rw [List.mem_cons]
      exact or_congr_right ⟨fun he => ⟨hne e he, he⟩, And.right⟩
    · have hne : ∀ e ∈ rest, e.1 ≠ k := fun e he => (h2 ▸ hhd e he).ne'
      rw [List.mem_cons, List.mem_cons]
      refine or_congr_right ⟨fun he => ⟨hne e he, .inr he⟩, ?_⟩
      rintro ⟨hk, rfl | he⟩
      · exact absurd h2.symm hk
      · exact he
    · rw [List.mem_cons, List.mem_cons, ih hrest]
      constructor
      · rintro (rfl | rfl | ⟨hk, he⟩)
        · exact .inr ⟨Ne.symm h2, .inl rfl⟩
        · exact .inl rfl
        · exact .inr ⟨hk, .inr he⟩
      · rintro (rfl | ⟨hk, rfl | he⟩)
        · exact .inr (.inl rfl)
        · exact .inl rfl
        · exact .inr (.inr ⟨hk, he⟩)

theorem get?_insert (m : OrderedMap κ ν) (k k' : κ) (v : ν) :
    (m.insert k v).get? k' = if k' = k then some v else m.get? k' := by
  refine Option.ext fun v' => ?_
  rw [← mem_entries, insert, mem_insertEntry_iff m.sorted, Prod.mk.injEq]
  split_ifs with hk
  · simp [hk, eq_comm]
  · simp [hk, mem_entries]

theorem get?_erase (m : OrderedMap κ ν) (k k' : κ) :
    (m.erase k).get? k' = if k' = k then none else m.get? k' := by
  refine Option.ext fun v' => ?_
  rw [← mem_entries, erase, List.mem_filter]
  split_ifs with hk
  · simp [hk]
  · simp [hk, mem_entries]

theorem insert_perm {m : OrderedMap κ ν} {k : κ} {v : ν} (h : m.get? k = none) :
    (m.insert k v).entries.Perm ((k, v) :: m.entries) := by
  have hne := get?_eq_none.mp h
  obtain ⟨l, hl⟩ := m
  simp only [insert] at hne ⊢
  clear h hl
  induction l with
  | nil => rfl
  | cons hd rest ih =>
    rw [insertEntry]
    split_ifs with h1 h2
    · rfl
    · exact absurd h2.symm (hne hd List.mem_cons_self)
    · exact ((ih fun e he => hne e (List.mem_cons_of_mem _ he)).cons hd).trans (.swap _ _ _)

theorem erase_perm {m : OrderedMap κ ν} {k : κ} {v : ν} (h : m.get? k = some v) :
    m.entries.Perm ((k, v) :: (m.erase k).entries) := by
  have hmem := mem_entries.mpr h
  have hsplit := List.filter_append_perm (fun e => decide (e.1 = k)) m.entries
  have hk : m.entries.filter (fun e => decide (e.1 = k)) = [(k, v)] := by
    refine List.perm_singleton.mp ?_
    refine (List.perm_ext_iff_of_nodup ?_ (by simp)).mpr fun e => ?_
    · exact (List.Nodup.of_map _ m.nodup_keys).filter _
    · rw [List.mem_filter, List.mem_singleton, decide_eq_true_eq]
      exact ⟨fun ⟨he, hke⟩ => key_inj he hmem hke, fun he => he ▸ ⟨hmem, rfl⟩⟩
  rw [hk] at hsplit
  refine hsplit.symm.trans (.of_eq ?_)
  simp [erase]

theorem size_insert {m : OrderedMap κ ν} {k : κ} {v : ν} (h : m.get? k = none) :
    (m.insert k v).size = m.size + 1 := by
  simpa [size] using (insert_perm (v := v) h).length_eq

theorem size_erase {m : OrderedMap κ ν} {k : κ} {v : ν} (h : m.get? k = some v) :
    m.size = (m.erase k).size + 1 := by
  simpa [size] using (erase_perm h).length_eq

theorem total_insert (w : ν → ℕ) {m : OrderedMap κ ν} {k : κ} {v : ν} (h : m.get? k = none) :
    (m.insert k v).total w = w v + m.total w := by
  simpa [total] using ((insert_perm (v := v) h).map fun e => w e.2).sum_nat

theorem total_erase (w : ν → ℕ) {m : OrderedMap κ ν} {k : κ} {v : ν} (h : m.get? k = some v) :
    m.total w = w v + (m.erase k).total w := by
  simpa [total] using ((erase_perm h).map fun e => w e.2).sum_nat

theorem size_erase_le (m : OrderedMap κ ν) (k : κ) : (m.erase k).size ≤ m.size :=
  List.length_filter_le _ _

theorem total_erase_le (w : ν → ℕ) (m : OrderedMap κ ν) (k : κ) :
    (m.erase k).total w ≤ m.total w := by
  cases hk : m.get? k with
  | none =>
    have hkeep : (m.erase k).entries = m.entries := by
      refine List.filter_eq_self.mpr fun e he => ?_
      simpa using get?_eq_none.mp hk e he
    exact Nat.le_of_eq (congrArg (fun entries => (entries.map fun e => w e.2).sum) hkeep)
  | some v =>
    rw [total_erase w hk]
    exact Nat.le_add_left _ _

@[simp] theorem size_empty : (empty : OrderedMap κ ν).size = 0 := rfl

@[simp] theorem total_empty (w : ν → ℕ) : (empty : OrderedMap κ ν).total w = 0 := rfl

/-! ### The least key -/

theorem first?_eq_none {m : OrderedMap κ ν} : m.first? = none ↔ ∀ k, m.get? k = none := by
  rw [first?, List.head?_eq_none_iff]
  constructor
  · intro h k
    rw [get?, h]
    rfl
  · intro h
    refine List.eq_nil_iff_forall_not_mem.mpr fun ⟨k, v⟩ he => ?_
    rw [mem_entries, h k] at he
    exact absurd he (by simp)

theorem get?_first? {m : OrderedMap κ ν} {e : κ × ν} (h : m.first? = some e) :
    m.get? e.1 = some e.2 :=
  mem_entries.mp (List.mem_of_head? h)

theorem first?_le {m : OrderedMap κ ν} {e : κ × ν} {k : κ} {v : ν}
    (h : m.first? = some e) (hk : m.get? k = some v) : e.1 ≤ k := by
  obtain ⟨rest, hrest⟩ := List.head?_eq_some_iff.mp h
  have hmem := mem_entries.mpr hk
  rw [hrest] at hmem
  rcases List.mem_cons.mp hmem with rfl | hmem
  · exact le_rfl
  · exact ((List.pairwise_cons.mp (hrest ▸ m.sorted)).1 _ hmem).le

theorem entries_first? {m : OrderedMap κ ν} {e : κ × ν} (h : m.first? = some e) :
    m.entries = e :: (m.erase e.1).entries := by
  obtain ⟨rest, hrest⟩ := List.head?_eq_some_iff.mp h
  have hsorted := m.sorted
  rw [hrest] at hsorted
  have hkeep : rest.filter (fun e' => e'.1 ≠ e.1) = rest :=
    List.filter_eq_self.mpr fun e' he' => by
      simpa using ((List.pairwise_cons.mp hsorted).1 e' he').ne'
  show m.entries = e :: m.entries.filter _
  rw [hrest, List.filter_cons_of_neg (by simp), hkeep]

end OrderedMap
