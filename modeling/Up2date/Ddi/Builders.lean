import Up2date.Ddi.Poll
import Mathlib.Data.List.Lex

/-!
# The builders of responses

A handler answers with responses that builders make. `ConfigResponseBuilder` holds its data in a
`std::map`, into which a key is inserted once; `ResponseBuilder` does not initialise its two
enumerations, so a response is defined only when both have been set.
-/

namespace Up2date.Ddi

open Cxx
open Json (Value)

/-- `std::map::insert`, which leaves a key alone that is there. -/
def insertData (key value : Str) : List (Str × Str) → List (Str × Str)
  | [] => [(key, value)]
  | (k, v) :: rest =>
    if key < k then (key, value) :: (k, v) :: rest
    else if key = k then (k, v) :: rest
    else (k, v) :: insertData key value rest

/-- In the order of the keys, and each key once. -/
abbrev IsMap (data : List (Str × Str)) : Prop := data.Pairwise fun a b => a.1 < b.1

/-- What stands in a map with one more member is this member or stood there before. -/
theorem mem_insertData {key value : Str} {data : List (Str × Str)} {m : Str × Str}
    (h : m ∈ insertData key value data) : m = (key, value) ∨ m ∈ data := by
  induction data with
  | nil => exact Or.inl (List.mem_singleton.mp h)
  | cons d rest ih =>
    obtain ⟨k, v⟩ := d
    rw [insertData] at h
    split at h
    · exact List.mem_cons.mp h
    split at h
    · exact Or.inr h
    · rcases List.mem_cons.mp h with rfl | hrest
      · exact Or.inr List.mem_cons_self
      · exact (ih hrest).imp_right (List.mem_cons_of_mem _)

/-- The empty map. -/
theorem isMap_nil : IsMap [] := List.Pairwise.nil

/-- One more member leaves a map. -/
theorem isMap_insertData (key value : Str) {data : List (Str × Str)} (h : IsMap data) :
    IsMap (insertData key value data) := by
  induction data with
  | nil => exact List.pairwise_singleton _ _
  | cons d rest ih =>
    obtain ⟨k, v⟩ := d
    obtain ⟨hk, hrest⟩ := List.pairwise_cons.mp h
    rw [insertData]
    split
    next hlt =>
      refine List.pairwise_cons.mpr ⟨fun m hm => ?_, h⟩
      rcases List.mem_cons.mp hm with rfl | hm
      · exact hlt
      · exact lt_trans hlt (hk m hm)
    split
    · exact h
    next hlt hne =>
      refine List.pairwise_cons.mpr ⟨fun m hm => ?_, ih hrest⟩
      rcases mem_insertData hm with rfl | hm
      · exact lt_of_le_of_ne (not_lt.mp hlt) (Ne.symm hne)
      · exact hk m hm

/-- A key is found with the value that was inserted first. -/
theorem lookup_insertData (key value k : Str) {data : List (Str × Str)} (h : IsMap data) :
    (insertData key value data).lookup k = (data ++ [(key, value)]).lookup k := by
  induction data with
  | nil => rfl
  | cons d rest ih =>
    obtain ⟨k', v⟩ := d
    obtain ⟨hk, hrest⟩ := List.pairwise_cons.mp h
    rw [insertData]
    split
    next hlt =>
      have habsent : ((k', v) :: rest).lookup key = none := by
        refine List.lookup_eq_none_iff.mpr fun m hm => ?_
        rcases List.mem_cons.mp hm with rfl | hm
        · exact bne_iff_ne.mpr hlt.ne
        · exact bne_iff_ne.mpr (hlt.trans (hk m hm)).ne
      rw [List.lookup_append, List.lookup_cons]
      by_cases heq : k = key
      · subst heq
        rw [habsent]
        simp
      · simp [beq_eq_false_iff_ne.mpr heq]
    split
    next hlt heq =>
      subst heq
      rw [List.lookup_append, List.lookup_cons]
      by_cases heq : k = key
      · simp [heq]
      · simp [beq_eq_false_iff_ne.mpr heq]
    next hlt hne =>
      rw [List.cons_append, List.lookup_cons, List.lookup_cons, ih hrest]

/-- A document of strings is looked up like the strings. -/
theorem member_map_string (data : List (Str × Str)) (k : Str) :
    (Value.object (data.map fun m => (m.1, .string m.2))).member k =
      (data.lookup k).map Value.string := by
  unfold Value.member
  dsimp only
  induction data with
  | nil => rfl
  | cons m rest ih =>
    rw [List.map_cons, List.lookup_cons, List.lookup_cons, ih]
    cases k == m.1 <;> rfl

/-- `ConfigResponseBuilderImpl` -/
structure ConfigResponseBuilderImpl where
  data : List (Str × Str) := []
  sorted : IsMap data := by exact isMap_nil
  mode : Mode := .merge
  ignoreSleep : Bool := false

namespace ConfigResponseBuilderImpl

/-- A member of the data, unless its key is there. -/
def addData (key value : Str) (b : ConfigResponseBuilderImpl) : ConfigResponseBuilderImpl :=
  { b with data := insertData key value b.data, sorted := isMap_insertData key value b.sorted }

/-- The mode of the answer. -/
def setMode (mode : Mode) (b : ConfigResponseBuilderImpl) : ConfigResponseBuilderImpl :=
  { b with mode }

/-- The next poll does not wait. -/
def setIgnoreSleep (b : ConfigResponseBuilderImpl) : ConfigResponseBuilderImpl :=
  { b with ignoreSleep := true }

/-- The answer of the builder. -/
def build (b : ConfigResponseBuilderImpl) : ConfigResponse :=
  { data := b.data, sorted := b.sorted, mode := b.mode, ignoreSleep := b.ignoreSleep }

/-- Several calls of `addData`. -/
def addAll (b : ConfigResponseBuilderImpl) (calls : List (Str × Str)) : ConfigResponseBuilderImpl :=
  calls.foldl (fun b call => b.addData call.1 call.2) b

/-- Of several values for a key the first one stays. -/
theorem lookup_addAll (b : ConfigResponseBuilderImpl) (calls : List (Str × Str)) (k : Str) :
    (b.addAll calls).data.lookup k = (b.data ++ calls).lookup k := by
  induction calls generalizing b with
  | nil => rw [List.append_nil]; rfl
  | cons call rest ih =>
    have hcall : ((b.addData call.1 call.2).data ++ rest).lookup k =
        (b.data ++ call :: rest).lookup k := by
      rw [List.lookup_append, show (b.addData call.1 call.2).data.lookup k = _ from
        lookup_insertData call.1 call.2 k b.sorted, ← List.lookup_append, List.append_assoc]
      rfl
    exact (ih (b.addData call.1 call.2)).trans hcall

/-- The document of configuration data has each key once, with the value that was added first. -/
theorem configDocument_addAll (b : ConfigResponseBuilderImpl) (calls : List (Str × Str)) :
    ∃ document data, configDocument (b.addAll calls).build = .ok document ∧
      document.Has "data".toList (.object data) ∧ (data.Pairwise fun m m' => m.1 < m'.1) ∧
      ∀ k, (Value.object data).member k = ((b.data ++ calls).lookup k).map Value.string := by
  refine ⟨_, _, rfl, rfl, List.pairwise_map.mpr (b.addAll calls).sorted, fun k => ?_⟩
  rw [← lookup_addAll]
  exact member_map_string _ k

end ConfigResponseBuilderImpl

/-- `ConfigResponseBuilder::newInstance` -/
def ConfigResponseBuilder.newInstance : ConfigResponseBuilderImpl := {}

/-- `ResponseBuilderImpl`, whose constructor leaves the enumerations without a value. -/
structure ResponseBuilderImpl where
  finished : Option Finished := none
  execution : Option Execution := none
  details : List Str := []
  responseDeliveryListener : Option ResponseDeliveryListener := none
  ignoreSleep : Bool := false

namespace ResponseBuilderImpl

/-- One more detail. -/
def addDetail (detail : Str) (b : ResponseBuilderImpl) : ResponseBuilderImpl :=
  { b with details := b.details ++ [detail] }

/-- The result of the action. -/
def setFinished (finished : Finished) (b : ResponseBuilderImpl) : ResponseBuilderImpl :=
  { b with finished := some finished }

/-- The state of the action. -/
def setExecution (execution : Execution) (b : ResponseBuilderImpl) : ResponseBuilderImpl :=
  { b with execution := some execution }

/-- The listener for the delivery. -/
def setResponseDeliveryListener (listener : ResponseDeliveryListener) (b : ResponseBuilderImpl) :
    ResponseBuilderImpl :=
  { b with responseDeliveryListener := some listener }

/-- The next poll does not wait. -/
def setIgnoreSleep (b : ResponseBuilderImpl) : ResponseBuilderImpl :=
  { b with ignoreSleep := true }

/-- The response, when its enumerations have been set. -/
def build (b : ResponseBuilderImpl) : Option Response := do
  let finished ← b.finished
  let execution ← b.execution
  return { finished, execution, details := b.details,
           deliveryListener := b.responseDeliveryListener, ignoreSleep := b.ignoreSleep }

end ResponseBuilderImpl

/-- `ResponseBuilder::newInstance`, which gives one of the enumerations a value. -/
def ResponseBuilder.newInstance : ResponseBuilderImpl :=
  ({} : ResponseBuilderImpl).setFinished .none

end Up2date.Ddi
