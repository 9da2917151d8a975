import Mathlib.Data.Multiset.AddSub
import Mathlib.Logic.Function.Basic

/-!
# Ownership of resources

A log of acquisitions and releases keeps account of what is held. It is balanced when nothing
is released that is not held, and nothing is held at its end. A program that keeps resources
in variables releases them all at its end, which balances its log exactly when the variables
contain what is held.
-/

namespace Cxx

variable {ρ ι : Type*}

/-- What is in the variables of a list. -/
def contents (order : List ι) (locals : ι → Option ρ) : Multiset ρ := order.filterMap locals

/-- Putting a resource into a variable adds it to the contents of the others. -/
theorem contents_update_some [DecidableEq ι] {order : List ι} (hnodup : order.Nodup) {x : ι}
    (hx : x ∈ order) (locals : ι → Option ρ) (r : ρ) :
    contents order (Function.update locals x (some r)) =
      r ::ₘ contents order (Function.update locals x none) := by
  have hother : ∀ (o : Option ρ) (rest : List ι), x ∉ rest →
      rest.filterMap (Function.update locals x o) = rest.filterMap locals := by
    intro o rest hrest
    refine List.filterMap_congr fun y hy => ?_
    have hne : y ≠ x := fun h => hrest (h ▸ hy)
    exact Function.update_of_ne hne _ _
  unfold contents
  induction order with
  | nil => cases hx
  | cons y rest ih =>
    obtain ⟨hy, hrest⟩ := List.nodup_cons.mp hnodup
    rcases List.mem_cons.mp hx with rfl | hx
    · simp [hother _ rest hy]
    · have hne : y ≠ x := fun h => hy (h ▸ hx)
      rw [List.filterMap_cons, List.filterMap_cons, Function.update_of_ne hne,
        Function.update_of_ne hne]
      cases locals y with
      | none => exact ih hrest hx
      | some r' =>
        simp only [← Multiset.cons_coe, ih hrest hx]
        exact Multiset.cons_swap _ _ _

/-- A change of ownership. -/
inductive Transfer (ρ : Type*)
  | acquire (r : ρ)
  | release (r : ρ)
deriving DecidableEq, Repr

variable [DecidableEq ρ]

/-- What is held after the transfers, unless something was released that was not held. -/
def held : Multiset ρ → List (Transfer ρ) → Option (Multiset ρ)
  | m, [] => some m
  | m, .acquire r :: rest => held (r ::ₘ m) rest
  | m, .release r :: rest => if r ∈ m then held (m.erase r) rest else none

/-- Everything acquired is released once, and nothing else is. -/
def Balanced (log : List (Transfer ρ)) : Prop := held 0 log = some 0

instance (log : List (Transfer ρ)) : Decidable (Balanced log) :=
  inferInstanceAs (Decidable (held 0 log = some 0))

/-- What is held after two logs is held after the second from the first. -/
theorem held_append (m : Multiset ρ) (first rest : List (Transfer ρ)) :
    held m (first ++ rest) = (held m first).bind fun m' => held m' rest := by
  induction first generalizing m with
  | nil => rfl
  | cons t first ih =>
    cases t with
    | acquire r => exact ih (r ::ₘ m)
    | release r =>
      by_cases hr : r ∈ m
      · simp only [List.cons_append, held, if_pos hr, ih]
      · simp only [List.cons_append, held, if_neg hr, Option.bind_none]

/-- What is held after the first log is what the second begins with. -/
theorem held_append_of_eq {m m' : Multiset ρ} {first : List (Transfer ρ)} (h : held m first = some m')
    (rest : List (Transfer ρ)) : held m (first ++ rest) = held m' rest := by
  rw [held_append, h, Option.bind_some]

/-- What is held can be released. -/
theorem held_release_cons (r : ρ) (m : Multiset ρ) : held (r ::ₘ m) [.release r] = some m := by
  simp [held]

/-- Releasing a list leaves nothing exactly when the list is what is held. -/
theorem held_releases_iff (m : Multiset ρ) (l : List ρ) :
    held m (l.map Transfer.release) = some 0 ↔ m = l := by
  induction l generalizing m with
  | nil => simp [held]
  | cons r rest ih =>
    rw [List.map_cons, held, ← Multiset.cons_coe]
    by_cases hr : r ∈ m
    · rw [if_pos hr, ih]
      constructor
      · intro h
        rw [← h, Multiset.cons_erase hr]
      · intro h
        rw [h, Multiset.erase_cons_head]
    · rw [if_neg hr]
      refine iff_of_false (fun h => by cases h) fun h => hr ?_
      rw [h]
      exact Multiset.mem_cons_self r _

/-- A log that ends in the release of a list is balanced when the list is what is held before. -/
theorem balanced_append_releases_iff (log : List (Transfer ρ)) (l : List ρ) :
    Balanced (log ++ l.map Transfer.release) ↔ held 0 log = some (l : Multiset ρ) := by
  rw [Balanced, held_append]
  cases held 0 log with
  | none => simp
  | some m => simp [held_releases_iff]

end Cxx
