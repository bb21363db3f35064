/-
Binary search.

`binarySearch f l` looks in a slice for an element whose comparison `f` with the
target is equal.  It keeps a window that holds such an element if the slice does,
and cuts it in half.

* `binarySearch_sound` — what it finds compares equal;
* `binarySearch_complete` — where the comparisons rise, it finds something.
-/
import Mathlib.Algebra.Order.Ring.Nat
import Mathlib.Data.List.Basic
import Mathlib.Order.Compare

variable {α : Type}

/-- Narrows the window of `size` elements from `base` down to one. -/
def bisect (f : α → Ordering) (l : List α) : (fuel size base : ℕ) → ℕ
  | 0, _, base => base
  | fuel + 1, size, base =>
    if 1 < size then
      let half := size / 2
      let mid := base + half
      bisect f l fuel (size - half) (if (l[mid]?).any (fun x => f x = .gt) then base else mid)
    else base

/-- `slice::binary_search_by(..).ok()`. -/
def binarySearch (f : α → Ordering) (l : List α) : Option ℕ :=
  let base := bisect f l l.length l.length 0
  if (l[base]?).any (fun x => f x = .eq) then some base else none

/-- The element at `i` compares equal. -/
def Hit (f : α → Ordering) (l : List α) (i : ℕ) : Prop := ∃ x, l[i]? = some x ∧ f x = .eq

/-- The comparisons go from less over equal to greater. -/
def Rising (f : α → Ordering) (l : List α) : Prop :=
  l.Pairwise fun a b => (f a = .gt → f b = .gt) ∧ (f b = .lt → f a = .lt)

/-- Elements in the order of a key rise against every key. -/
theorem Rising.of_lt {κ : Type} [LinearOrder κ] (key : α → κ) (target : κ) {l : List α}
    (h : l.Pairwise fun a b => key a < key b) : Rising (fun a => compare (key a) target) l := by
  refine h.imp fun {a b} hab => ⟨fun ha => ?_, fun hb => ?_⟩
  · exact compare_gt_iff_gt.mpr (lt_trans (compare_gt_iff_gt.mp ha) hab)
  · exact compare_lt_iff_lt.mpr (lt_trans hab (compare_lt_iff_lt.mp hb))

variable {f : α → Ordering} {l : List α}

theorem any_eq_iff_hit {i : ℕ} : (l[i]?).any (fun x => f x = .eq) = true ↔ Hit f l i := by
  simp [Hit, Option.any_eq_true]

theorem binarySearch_sound {i : ℕ} (h : binarySearch f l = some i) : Hit f l i := by
  rw [binarySearch] at h
  split_ifs at h with hhit
  obtain rfl := Option.some_inj.mp h
  exact any_eq_iff_hit.mp hhit

/-- Nothing compares equal behind a greater element. -/
theorem Rising.before (h : Rising f l) {i mid : ℕ} {x : α} (hmid : l[mid]? = some x)
    (hx : f x = .gt) (hi : Hit f l i) : i < mid := by
  obtain ⟨y, hy, heq⟩ := hi
  obtain ⟨hlen, rfl⟩ := List.getElem?_eq_some_iff.mp hmid
  obtain ⟨hi, rfl⟩ := List.getElem?_eq_some_iff.mp hy
  by_contra hle
  rcases Nat.lt_or_eq_of_le (Nat.not_lt.mp hle) with hlt | rfl
  · rw [(List.pairwise_iff_getElem.mp h mid i hlen hi hlt).1 hx] at heq
    cases heq
  · rw [hx] at heq
    cases heq

/-- Nothing compares equal before a lesser element. -/
theorem Rising.behind (h : Rising f l) {i mid : ℕ} {x : α} (hmid : l[mid]? = some x)
    (hx : f x = .lt) (hi : Hit f l i) : mid < i := by
  obtain ⟨y, hy, heq⟩ := hi
  obtain ⟨hlen, rfl⟩ := List.getElem?_eq_some_iff.mp hmid
  obtain ⟨hi, rfl⟩ := List.getElem?_eq_some_iff.mp hy
  by_contra hle
  rcases Nat.lt_or_eq_of_le (Nat.not_lt.mp hle) with hlt | rfl
  · rw [(List.pairwise_iff_getElem.mp h i mid hi hlen hlt).2 hx] at heq
    cases heq
  · rw [hx] at heq
    cases heq

/-- A window that holds a hit shrinks to one. -/
theorem bisect_hit (h : Rising f l) {fuel size base : ℕ} (hfuel : size ≤ fuel + 1)
    (hbound : base + size ≤ l.length) (hhit : ∃ i, base ≤ i ∧ i < base + size ∧ Hit f l i) :
    Hit f l (bisect f l fuel size base) := by
  induction fuel generalizing size base with
  | zero =>
    obtain ⟨i, hle, hlt, hi⟩ := hhit
    obtain rfl : i = base := by omega
    exact hi
  | succ fuel ih =>
    obtain ⟨i, hle, hlt, hi⟩ := hhit
    rw [bisect]
    split_ifs with hsize
    · have hmid : l[base + size / 2]? = some l[base + size / 2] := List.getElem?_eq_getElem _
      dsimp only
      rw [hmid, Option.any_some]
      cases hx : f l[base + size / 2] with
      | gt =>
        have hbefore := h.before hmid hx hi
        exact ih (by omega) (by simp; omega) ⟨i, by simpa using hle, by simp; omega, hi⟩
      | lt =>
        have hbehind := h.behind hmid hx hi
        exact ih (by omega) (by simp; omega) ⟨i, by simp; omega, by simp; omega, hi⟩
      | eq =>
        exact ih (by omega) (by simp; omega) ⟨base + size / 2, by simp, by simp; omega, _, hmid, hx⟩
    · obtain rfl : i = base := by omega
      exact hi

theorem binarySearch_complete (h : Rising f l) {x : α} (hmem : x ∈ l) (hx : f x = .eq) :
    (binarySearch f l).isSome = true := by
  obtain ⟨i, hi, rfl⟩ := List.getElem_of_mem hmem
  have hhit : Hit f l (bisect f l l.length l.length 0) :=
    bisect_hit h (Nat.le_succ _) (Nat.le_of_eq (Nat.zero_add _))
      ⟨i, Nat.zero_le i, by omega, _, List.getElem?_eq_getElem hi, hx⟩
  rw [binarySearch, if_pos (any_eq_iff_hit.mpr hhit)]
  rfl
