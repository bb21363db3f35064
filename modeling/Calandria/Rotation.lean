/-
Rotation through a linear order.

From a cursor the elements of a linear order are visited in rotated order: first
those beyond the cursor, then the others, each part from the least up (`place`).
`rotate` visits the first of a list in this order, and `visits` moves the cursor
along through a sequence of lists.

* `place_advance` — moving the cursor does not change the order of what is still
  to come before a given element;
* `visits_before` — so nothing is visited twice before an element that is in
  every list;
* `mem_visits` — and that element has its visit after a round at most.
-/
import Mathlib.Algebra.Order.Ring.Nat
import Mathlib.Data.List.Nodup
import Mathlib.Data.List.TakeWhile
import Mathlib.Data.List.Perm.Subperm
import Mathlib.Data.Prod.Lex
import Mathlib.Order.BooleanAlgebra.Basic
import Mathlib.Order.MinMax

variable {α : Type} [LinearOrder α]

/-- The place of an element in rotated order. -/
def place (cursor : Option α) (x : α) : Bool ×ₗ α := toLex (cursor.any (x ≤ ·), x)

/-- The first of a list in rotated order. -/
def rotate (cursor : Option α) (xs : List α) : Option α :=
  (cursor.bind fun c => (xs.filter (c < ·)).min?).or xs.min?

/-- The elements visited one after another. -/
def visits (cursor : Option α) : List (List α) → List α
  | [] => []
  | xs :: rest =>
    match rotate cursor xs with
    | none => visits cursor rest
    | some x => x :: visits (some x) rest

variable {cursor : Option α} {xs : List α} {x y z d : α}

theorem place_le_iff : place cursor x ≤ place cursor y ↔
    (cursor.any (x ≤ ·) < cursor.any (y ≤ ·)) ∨
      cursor.any (x ≤ ·) = cursor.any (y ≤ ·) ∧ x ≤ y :=
  Prod.Lex.toLex_le_toLex

theorem place_lt_iff : place cursor x < place cursor y ↔
    (cursor.any (x ≤ ·) < cursor.any (y ≤ ·)) ∨
      cursor.any (x ≤ ·) = cursor.any (y ≤ ·) ∧ x < y :=
  Prod.Lex.toLex_lt_toLex

theorem place_injective (cursor : Option α) : Function.Injective (place cursor) :=
  fun _ _ h => congrArg (fun p => (ofLex p).2) h

theorem exists_rotate (cursor : Option α) (h : xs ≠ []) : ∃ x, rotate cursor xs = some x := by
  have hmin : xs.min?.isSome := by
    rw [Option.isSome_iff_ne_none, ne_eq, List.min?_eq_none_iff]
    exact h
  refine Option.isSome_iff_exists.mp ?_
  rw [rotate, Option.isSome_or, hmin, Bool.or_true]

theorem rotate_spec (h : rotate cursor xs = some x) :
    x ∈ xs ∧ ∀ y ∈ xs, place cursor x ≤ place cursor y := by
  rw [rotate] at h
  -- the least beyond the cursor, and else the least of all
  cases cursor with
  | none =>
    obtain ⟨hmem, hle⟩ := List.min?_eq_some_iff.mp h
    exact ⟨hmem, fun y hy => place_le_iff.mpr (.inr ⟨rfl, hle y hy⟩)⟩
  | some c =>
    rw [Option.bind_some] at h
    cases hbeyond : (xs.filter (c < ·)).min? with
    | some first =>
      rw [hbeyond] at h
      obtain rfl := Option.some_inj.mp h
      obtain ⟨hmem, hle⟩ := List.min?_eq_some_iff.mp hbeyond
      obtain ⟨hmem, hlt⟩ := List.mem_filter.mp hmem
      have hlt := of_decide_eq_true hlt
      refine ⟨hmem, fun y hy => place_le_iff.mpr ?_⟩
      by_cases hy' : c < y
      · refine .inr ⟨?_, hle y (List.mem_filter.mpr ⟨hy, decide_eq_true hy'⟩)⟩
        simp [not_le.mpr hlt, not_le.mpr hy']
      · exact .inl (by simp [not_le.mpr hlt, not_lt.mp hy'])
    | none =>
      rw [hbeyond] at h
      obtain ⟨hmem, hle⟩ := List.min?_eq_some_iff.mp h
      have hnone : ∀ y ∈ xs, y ≤ c := fun y hy => by
        have hnil := List.filter_eq_nil_iff.mp (List.min?_eq_none_iff.mp hbeyond) y hy
        simpa using hnil
      refine ⟨hmem, fun y hy => place_le_iff.mpr (.inr ⟨?_, hle y hy⟩)⟩
      simp [hnone x hmem, hnone y hy]

theorem place_lt_none : place none x < place none y ↔ x < y := by
  simp [place_lt_iff]

theorem place_lt_some {c : α} : place (some c) x < place (some c) y ↔
    (c < x ∧ y ≤ c) ∨ (x ≤ c ↔ y ≤ c) ∧ x < y := by
  rw [place_lt_iff, Option.any_some, Option.any_some]
  by_cases hx : x ≤ c <;> by_cases hy : y ≤ c <;> simp [hx, hy, not_le.mp]

/-- With the cursor at `x`, the elements up to `d` are those that came behind `x`,
in the order in which they came. -/
theorem place_advance (hx : place cursor x < place cursor d)
    (hz : place (some x) z ≤ place (some x) d) :
    place cursor x < place cursor z ∧
    (place (some x) y < place (some x) z → place cursor y < place cursor z) := by
  have hz' : z = d ∨ place (some x) z < place (some x) d :=
    hz.eq_or_lt.imp_left fun heq => place_injective _ heq
  rw [place_lt_some] at *
  cases cursor with
  | none =>
    simp only [place_lt_none] at *
    grind
  | some c =>
    simp only [place_lt_some] at *
    grind

/-- Before an element that is in every list, each visit is further on its way. -/
theorem visits_before (cursor : Option α) {sets : List (List α)} (h : ∀ xs ∈ sets, d ∈ xs) :
    ((visits cursor sets).takeWhile (· ≠ d)).Pairwise
      (fun x y => place cursor x < place cursor y) ∧
    ∀ x ∈ (visits cursor sets).takeWhile (· ≠ d), place cursor x < place cursor d := by
  induction sets generalizing cursor with
  | nil => exact ⟨.nil, nofun⟩
  | cons xs rest ih =>
    have hd := h xs List.mem_cons_self
    obtain ⟨x, hx⟩ := exists_rotate cursor (List.ne_nil_of_mem hd)
    obtain ⟨-, hfirst⟩ := rotate_spec hx
    simp only [visits, hx]
    by_cases hne : x = d
    · rw [List.takeWhile_cons_of_neg (by simpa using hne)]
      exact ⟨.nil, nofun⟩
    · rw [List.takeWhile_cons_of_pos (by simpa using hne)]
      have hlt : place cursor x < place cursor d :=
        (hfirst d hd).lt_of_ne fun heq => hne (place_injective cursor heq)
      obtain ⟨hordered, hbefore⟩ := ih (some x) fun xs hxs => h xs (List.mem_cons_of_mem _ hxs)
      constructor
      · refine List.pairwise_cons.mpr ⟨fun y hy => ?_, hordered.imp_of_mem fun {y z} _ hz hyz => ?_⟩
        · exact (place_advance (y := y) hlt (hbefore y hy).le).1
        · exact (place_advance hlt (hbefore z hz).le).2 hyz
      · intro y hy
        rcases List.mem_cons.mp hy with rfl | hy
        · exact hlt
        · exact (place_advance hlt le_rfl).2 (hbefore y hy)

theorem visits_nodup (cursor : Option α) {sets : List (List α)} (h : ∀ xs ∈ sets, d ∈ xs) :
    ((visits cursor sets).takeWhile (· ≠ d)).Nodup :=
  (visits_before cursor h).1.imp fun hlt heq => absurd (heq ▸ hlt) (lt_irrefl _)

theorem visits_length (cursor : Option α) {sets : List (List α)} (h : ∀ xs ∈ sets, xs ≠ []) :
    (visits cursor sets).length = sets.length := by
  induction sets generalizing cursor with
  | nil => rfl
  | cons xs rest ih =>
    obtain ⟨x, hx⟩ := exists_rotate cursor (h xs List.mem_cons_self)
    simp only [visits, hx, List.length_cons, ih (some x) fun xs hxs => h xs (List.mem_cons_of_mem _ hxs)]

theorem mem_of_visits {sets : List (List α)} (h : x ∈ visits cursor sets) : ∃ xs ∈ sets, x ∈ xs := by
  induction sets generalizing cursor with
  | nil => cases h
  | cons xs rest ih =>
    rw [visits] at h
    cases hx : rotate cursor xs with
    | none =>
      rw [hx] at h
      obtain ⟨ys, hys, hmem⟩ := ih h
      exact ⟨ys, List.mem_cons_of_mem _ hys, hmem⟩
    | some y =>
      rw [hx] at h
      rcases List.mem_cons.mp h with rfl | h
      · exact ⟨xs, List.mem_cons_self, (rotate_spec hx).1⟩
      · obtain ⟨ys, hys, hmem⟩ := ih h
        exact ⟨ys, List.mem_cons_of_mem _ hys, hmem⟩

/-- **A round suffices**: with as many lists as there are elements, an element of
every list is visited. -/
theorem mem_visits (cursor : Option α) {sets : List (List α)} {all : List α} (hd : d ∈ all)
    (h : ∀ xs ∈ sets, d ∈ xs) (hall : ∀ xs ∈ sets, xs ⊆ all) (hlen : all.length ≤ sets.length) :
    d ∈ visits cursor sets := by
  by_contra hnot
  -- then no visit is cut off, and `d` itself is one element too many
  have hwhole : (visits cursor sets).takeWhile (· ≠ d) = visits cursor sets :=
    List.takeWhile_eq_self_iff.mpr fun x hx => by
      simpa using fun heq : x = d => hnot (heq ▸ hx)
  have hnodup := visits_nodup cursor h
  rw [hwhole] at hnodup
  have hsub : d :: visits cursor sets ⊆ all := by
    refine List.cons_subset.mpr ⟨hd, fun x hx => ?_⟩
    obtain ⟨xs, hxs, hmem⟩ := mem_of_visits hx
    exact hall xs hxs hmem
  have hle := (List.subperm_of_subset (List.nodup_cons.mpr ⟨hnot, hnodup⟩) hsub).length_le
  rw [List.length_cons, visits_length cursor fun xs hxs => List.ne_nil_of_mem (h xs hxs)] at hle
  omega
