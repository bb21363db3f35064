/-
Ordered checks.

An operation that checks a list of conditions before it does anything fails with
the first that is violated; `firstViolation` is that failure, and the rules below
compute it along a list.
-/
import Mathlib.Algebra.Order.Ring.Nat
import Mathlib.Data.List.Basic

variable {F G : Type}

/-- A condition that must not hold, and the failure it is reported as. -/
structure Check (F : Type) where
  violated : Bool
  failure : F

/-- The failure of the first check that is violated. -/
def firstViolation (checks : List (Check F)) : Option F :=
  (checks.find? Check.violated).map Check.failure

@[simp] theorem firstViolation_nil : firstViolation ([] : List (Check F)) = none := rfl

theorem firstViolation_cons (check : Check F) (rest : List (Check F)) :
    firstViolation (check :: rest)
      = if check.violated then some check.failure else firstViolation rest := by
  rw [firstViolation, List.find?_cons]
  cases check.violated <;> rfl

theorem firstViolation_violated {violated : Prop} [Decidable violated] (h : violated) (failure : F)
    (rest : List (Check F)) : firstViolation (⟨violated, failure⟩ :: rest) = some failure := by
  rw [firstViolation_cons]
  exact if_pos (decide_eq_true h)

theorem firstViolation_passed {violated : Prop} [Decidable violated] (h : ¬ violated) (failure : F)
    (rest : List (Check F)) :
    firstViolation (⟨violated, failure⟩ :: rest) = firstViolation rest := by
  rw [firstViolation_cons]
  exact if_neg (by simpa using h)

/-- The checks of a part are reported in the words of the whole. -/
theorem firstViolation_map (f : F → G) (checks : List (Check F)) :
    firstViolation (checks.map fun check => ⟨check.violated, f check.failure⟩)
      = (firstViolation checks).map f := by
  induction checks with
  | nil => rfl
  | cons check rest ih =>
    rw [List.map_cons, firstViolation_cons, firstViolation_cons, ih]
    cases check.violated <;> rfl
