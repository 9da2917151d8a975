import Mathlib.Data.Option.Basic

/-!
# Indeterminate conditions

A condition over memory that nobody has written may hold or not, from one evaluation to the next.
What is built from such conditions can be determined all the same: a disjunction holds as soon as
one side of it does. A condition is a `Bool` here, or `none` where it is indeterminate.
-/

namespace Cxx

/-- `||` of conditions. -/
def either : Option Bool → Option Bool → Option Bool
  | some true, _ => some true
  | _, some true => some true
  | some false, some false => some false
  | _, _ => none

/-- A condition is indeterminate when it neither holds nor fails. -/
theorem eq_none_iff_ne {a : Option Bool} : a = none ↔ a ≠ some true ∧ a ≠ some false := by
  rcases a with _ | _ | _ <;> simp

section Either

variable {a b : Option Bool}

/-- A disjunction holds exactly when one of its sides does. -/
@[simp] theorem either_eq_true_iff : either a b = some true ↔ a = some true ∨ b = some true := by
  rcases a with _ | _ | _ <;> rcases b with _ | _ | _ <;> simp [either]

/-- It does not hold exactly when neither side does. -/
@[simp] theorem either_eq_false_iff :
    either a b = some false ↔ a = some false ∧ b = some false := by
  rcases a with _ | _ | _ <;> rcases b with _ | _ | _ <;> simp [either]

end Either

end Cxx
