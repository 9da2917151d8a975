import Mathlib.Order.Defs.LinearOrder
import Mathlib.Data.List.Basic
import Mathlib.Order.Lattice

/-!
# Ordered associative containers with equal keys

A `std::multimap` keeps its entries in key order and never replaces one: `insert` places
the new entry at the upper bound of its key, after every entry with the same key, and
`erase` removes all entries with the key. The order is a field of the structure, so no
operation can leave the container unsorted.
-/

namespace Cxx

variable {κ α : Type*} [LinearOrder κ]

/-- Place an entry before the first entry with a greater key. -/
def insertUpper (k : κ) (v : α) : List (κ × α) → List (κ × α)
  | [] => [(k, v)]
  | e :: rest => if e.1 ≤ k then e :: insertUpper k v rest else (k, v) :: e :: rest

/-- The entries after an insertion are the earlier ones and the new one. -/
theorem mem_insertUpper {k : κ} {v : α} {entries : List (κ × α)} {e : κ × α} :
    e ∈ insertUpper k v entries ↔ e = (k, v) ∨ e ∈ entries := by
  induction entries with
  | nil => simp [insertUpper]
  | cons head rest ih =>
    by_cases h : head.1 ≤ k
    · simp only [insertUpper, if_pos h, List.mem_cons, ih]
      exact or_left_comm
    · simp only [insertUpper, if_neg h, List.mem_cons]

/-- Insertion at the upper bound keeps the keys in order. -/
theorem insertUpper_sorted (k : κ) (v : α) (entries : List (κ × α))
    (h : entries.Pairwise fun a b => a.1 ≤ b.1) :
    (insertUpper k v entries).Pairwise fun a b => a.1 ≤ b.1 := by
  induction entries with
  | nil => simp [insertUpper]
  | cons head rest ih =>
    obtain ⟨hhead, hrest⟩ := List.pairwise_cons.mp h
    by_cases hk : head.1 ≤ k
    · simp only [insertUpper, if_pos hk]
      refine List.pairwise_cons.mpr ⟨fun e he => ?_, ih hrest⟩
      rcases mem_insertUpper.mp he with rfl | he
      · exact hk
      · exact hhead e he
    · simp only [insertUpper, if_neg hk]
      have hlt : k ≤ head.1 := le_of_lt (not_le.mp hk)
      refine List.pairwise_cons.mpr ⟨fun e he => ?_, h⟩
      rcases List.mem_cons.mp he with rfl | he
      · exact hlt
      · exact le_trans hlt (hhead e he)

/-- A `std::multimap`: entries in key order, equal keys allowed. -/
@[ext] structure Multimap (κ α : Type*) [LinearOrder κ] where
  entries : List (κ × α)
  sorted : entries.Pairwise fun a b => a.1 ≤ b.1
deriving DecidableEq

namespace Multimap

/-- The container without entries. -/
def empty : Multimap κ α := ⟨[], List.Pairwise.nil⟩

/-- `insert`: add an entry after those with the same key. -/
def insert (k : κ) (v : α) (m : Multimap κ α) : Multimap κ α :=
  ⟨insertUpper k v m.entries, insertUpper_sorted k v m.entries m.sorted⟩

/-- `erase`: remove every entry with the key. -/
def erase (k : κ) (m : Multimap κ α) : Multimap κ α :=
  ⟨m.entries.filter fun e => e.1 ≠ k, m.sorted.filter _⟩

/-- The values stored under a key, in insertion order. -/
def values (k : κ) (m : Multimap κ α) : List α :=
  (m.entries.filter fun e => e.1 = k).map Prod.snd

/-- The empty container stores nothing under any key. -/
@[simp] theorem values_empty (k : κ) : (empty : Multimap κ α).values k = [] := rfl

/-- Erasing a key leaves no value under it. -/
@[simp] theorem values_erase (k : κ) (m : Multimap κ α) : (m.erase k).values k = [] := by
  simp [values, erase, List.filter_filter]

/-- Erasing a key twice is erasing it once. -/
@[simp] theorem erase_erase (k : κ) (m : Multimap κ α) : (m.erase k).erase k = m.erase k := by
  ext1
  simp [erase, List.filter_filter]

/-- Erasing an absent key changes nothing. -/
theorem erase_of_values_nil {k : κ} {m : Multimap κ α} (h : m.values k = []) : m.erase k = m := by
  ext1
  simp only [values, List.map_eq_nil_iff, List.filter_eq_nil_iff, decide_eq_true_eq] at h
  simpa only [erase, List.filter_eq_self, decide_eq_true_eq] using h

/-- A new value comes after the values already stored under its key. -/
@[simp] theorem values_insert (k : κ) (v : α) (m : Multimap κ α) :
    (m.insert k v).values k = m.values k ++ [v] := by
  obtain ⟨entries, sorted⟩ := m
  simp only [values, insert]
  induction entries with
  | nil => simp [insertUpper]
  | cons head rest ih =>
    obtain ⟨hhead, hrest⟩ := List.pairwise_cons.mp sorted
    by_cases hk : head.1 ≤ k
    · simp only [insertUpper, if_pos hk, List.filter_cons]
      by_cases heq : head.1 = k
      · simp [heq, ih hrest]
      · simp [heq, ih hrest]
    · have hnone : ∀ e ∈ head :: rest, ¬ e.1 = k := by
        intro e he heq
        rcases List.mem_cons.mp he with rfl | he
        · exact hk (le_of_eq heq)
        · exact hk (heq ▸ hhead e he)
      have hfilter : (head :: rest).filter (fun e => decide (e.1 = k)) = [] :=
        List.filter_eq_nil_iff.mpr fun e he => by simpa using hnone e he
      simp [insertUpper, if_neg hk, hfilter, List.filter_cons_of_pos]

/-- Inserting under a key changes no entry with another key. -/
@[simp] theorem erase_insert (k : κ) (v : α) (m : Multimap κ α) :
    (m.insert k v).erase k = m.erase k := by
  obtain ⟨entries, sorted⟩ := m
  ext1
  simp only [erase, insert]
  induction entries with
  | nil => simp [insertUpper]
  | cons head rest ih =>
    by_cases hk : head.1 ≤ k
    · simp only [insertUpper, if_pos hk, List.filter_cons]
      rw [ih (List.pairwise_cons.mp sorted).2]
    · simp [insertUpper, if_neg hk]

/-- Inserting under a key changes no value under another key. -/
theorem values_insert_of_ne {k k' : κ} (h : k ≠ k') (v : α) (m : Multimap κ α) :
    (m.insert k v).values k' = m.values k' := by
  obtain ⟨entries, sorted⟩ := m
  simp only [values, insert]
  induction entries with
  | nil => simp [insertUpper, h]
  | cons head rest ih =>
    have hrest := ih (List.pairwise_cons.mp sorted).2
    by_cases hk : head.1 ≤ k
    · simp only [insertUpper, if_pos hk, List.filter_cons]
      by_cases heq : head.1 = k'
      · simp [heq, hrest]
      · simp [heq, hrest]
    · simp [insertUpper, hk, h]

/-- Behind the greatest key an entry is added at the end. -/
theorem insertUpper_of_forall_le {k : κ} {v : α} {entries : List (κ × α)}
    (h : ∀ e ∈ entries, e.1 ≤ k) : insertUpper k v entries = entries ++ [(k, v)] := by
  induction entries with
  | nil => rfl
  | cons head rest ih =>
    obtain ⟨hhead, hrest⟩ := List.forall_mem_cons.mp h
    rw [insertUpper, if_pos hhead, ih hrest, List.cons_append]

/-- Inserting entries in the order of their keys adds them at the end. -/
theorem foldl_insert_entries (rest : List (κ × α)) (m : Multimap κ α)
    (h : (m.entries ++ rest).Pairwise fun a b => a.1 ≤ b.1) :
    (rest.foldl (fun m e => m.insert e.1 e.2) m).entries = m.entries ++ rest := by
  induction rest generalizing m with
  | nil => simp
  | cons e rest ih =>
    have hle : ∀ e' ∈ m.entries, e'.1 ≤ e.1 := fun e' he' =>
      (List.pairwise_append.mp h).2.2 e' he' e List.mem_cons_self
    have hinsert : (m.insert e.1 e.2).entries = m.entries ++ [e] := insertUpper_of_forall_le hle
    rw [List.foldl_cons, ih _ (by rw [hinsert]; simpa using h), hinsert]
    simp

/-- A container is what inserting its entries in their order makes. -/
theorem foldl_insert_empty (m : Multimap κ α) :
    m.entries.foldl (fun m e => m.insert e.1 e.2) empty = m := by
  ext1
  exact foldl_insert_entries m.entries empty m.sorted

end Multimap

end Cxx
