import Up2date.Cxx.Strings

/-!
# JSON values with checked accessors

The tree a JSON parser builds, and the accessors a program reads it with. An accessor used
outside its precondition (looking for a member of something that is not an object, reading
a number as a string) has no result, so a program that never uses one wrongly is a program
that never meets `none`. Members are found by name, the first of equal names winning.
-/

namespace Json

open Cxx

/-- A parsed document. Numbers without fraction and exponent are kept apart from the others. -/
inductive Value
  | null
  | bool (b : Bool)
  | int (i : ℤ)
  | double (mantissa exponent : ℤ)
  | string (s : Str)
  | array (items : List Value)
  | object (members : List (Str × Value))

namespace Value

/-- `HasMember`, asserted on objects only. -/
def hasMember (v : Value) (name : Str) : Option Bool :=
  match v with
  | .object members => some (members.lookup name).isSome
  | _ => none

/-- `operator[]`, asserted on objects and on members that exist. -/
def member (v : Value) (name : Str) : Option Value :=
  match v with
  | .object members => members.lookup name
  | _ => none

/-- `GetString` with its length, asserted on strings only. -/
def getString : Value → Option Str
  | .string s => some s
  | _ => none

/-- `GetInt`, asserted on numbers that fit an `int`. -/
def getInt : Value → Option ℤ
  | .int i => if intMin ≤ i ∧ i ≤ intMax then some i else none
  | _ => none

/-- The elements from `Begin` to `End`, asserted on arrays only. -/
def elements : Value → Option (List Value)
  | .array items => some items
  | _ => none

/-- The value is an object. -/
def IsObject (v : Value) : Prop := ∃ members, v = .object members

/-- The object has a member of this name with this value. -/
abbrev Has (v : Value) (name : Str) (w : Value) : Prop := v.member name = some w

/-- The object has no member of this name. -/
def Lacks (v : Value) (name : Str) : Prop := v.IsObject ∧ v.member name = none

/-- Only an object can be asked for a member. -/
theorem hasMember_eq_none_iff {v : Value} {name : Str} : v.hasMember name = none ↔ ¬ v.IsObject := by
  cases v <;> simp [hasMember, IsObject]

/-- It has the members that it is found to have. -/
theorem hasMember_eq_true_iff {v : Value} {name : Str} :
    v.hasMember name = some true ↔ ∃ w, v.Has name w := by
  cases v <;> simp [hasMember, Has, member, Option.isSome_iff_exists]

/-- It lacks those that it is found not to have. -/
theorem hasMember_eq_false_iff {v : Value} {name : Str} :
    v.hasMember name = some false ↔ v.Lacks name := by
  cases v <;> simp [hasMember, Lacks, member, IsObject]

/-- A member has one value. -/
theorem Has.unique {v w w' : Value} {name : Str} (h : v.Has name w) (h' : v.Has name w') : w = w' :=
  Option.some.inj (Eq.trans (Eq.symm h) h')

/-- A present member is not missing. -/
theorem Has.not_lacks {v w : Value} {name : Str} (h : v.Has name w) : ¬ v.Lacks name := fun hl =>
  absurd (hl.2.symm.trans h) (by simp)

end Value

/-- Looking for one member decides between the three cases. -/
theorem Value.member_cases (v : Value) (name : Str) :
    ¬ v.IsObject ∨ v.Lacks name ∨ ∃ w, v.Has name w := by
  rcases h : v.hasMember name with _ | _ | _
  · exact Or.inl (Value.hasMember_eq_none_iff.mp h)
  · exact Or.inr (Or.inl (Value.hasMember_eq_false_iff.mp h))
  · exact Or.inr (Or.inr (Value.hasMember_eq_true_iff.mp h))

end Json
