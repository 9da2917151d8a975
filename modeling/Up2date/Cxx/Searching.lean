import Up2date.Cxx.Strings
import Mathlib.Data.List.Infix

/-!
# Searching in C strings

`strstr` looks for a pattern from the front of a string on, up to its null character, and
answers with what begins there. A pattern of which no proper end is a beginning cannot overlap
an occurrence of itself, so in a text without the pattern that is followed by one the search
ends at the latter.
-/

namespace Cxx

/-- `strstr`, with the text from the first occurrence on as a result. -/
def strstr (needle : Str) : Str → Option Str
  | [] => if needle = [] then some [] else none
  | c :: s =>
    if needle <+: c :: s then some (c :: s) else if c = nul then none else strstr needle s

/-- A C string goes on behind characters that are not null. -/
theorem cstr_append {s : Str} (h : nul ∉ s) (t : Str) : cstr (s ++ t) = s ++ cstr t := by
  refine List.takeWhile_append_of_pos fun c hc => ?_
  have hne : c ≠ nul := fun heq => h (heq ▸ hc)
  simpa using hne

/-- A C string can be entered at any of its characters. -/
theorem cstr_drop {s : Str} {n : ℕ} (h : n ≤ (cstr s).length) :
    cstr (s.drop n) = (cstr s).drop n := by
  induction n generalizing s with
  | zero => rfl
  | succ n ih =>
    cases s with
    | nil => rfl
    | cons c s =>
      have hc : c ≠ nul := by
        rintro rfl
        exact absurd h (Nat.not_succ_le_zero n)
      have hcons : cstr (c :: s) = c :: cstr s := List.takeWhile_cons_of_pos (by simpa using hc)
      rw [hcons] at h ⊢
      exact ih (Nat.le_of_succ_le_succ h)

/-- What is found is no longer than what is searched. -/
theorem strstr_length_le {needle s t : Str} (h : strstr needle s = some t) :
    t.length ≤ s.length := by
  induction s with
  | nil =>
    unfold strstr at h
    split at h
    · rw [← Option.some.inj h]
    · cases h
  | cons c s ih =>
    unfold strstr at h
    split at h
    · rw [← Option.some.inj h]
    · split at h
      · cases h
      · exact (ih h).trans (Nat.le_succ s.length)

/-- A pattern no proper end of which is a beginning of it. -/
def Unbordered (marker : Str) : Prop :=
  ∀ n < marker.length, 0 < n → ¬marker.drop n <+: marker

instance (marker : Str) : Decidable (Unbordered marker) :=
  inferInstanceAs (Decidable (∀ n < marker.length, 0 < n → ¬marker.drop n <+: marker))

/-- An unbordered pattern that begins before an occurrence of it ends before it. -/
theorem Unbordered.isPrefix {marker front rest : Str} (hmarker : Unbordered marker)
    (hfront : front ≠ []) (h : marker <+: front ++ (marker ++ rest)) : marker <+: front := by
  by_cases hlength : front.length < marker.length
  · obtain ⟨rest', hrest'⟩ := h
    have hdrop : marker.drop front.length ++ rest' = marker ++ rest := by
      rw [← List.drop_append_of_le_length hlength.le, hrest', List.drop_left]
    refine absurd ?_ (hmarker _ hlength (List.length_pos_iff.mpr hfront))
    exact List.prefix_of_prefix_length_le ⟨rest', hdrop⟩ ⟨rest, rfl⟩ (by simp)
  · exact List.prefix_of_prefix_length_le h ⟨marker ++ rest, rfl⟩ (not_lt.mp hlength)

/-- A text every end of which clashes with a pattern does not take part in an occurrence. -/
theorem not_isInfix_append {marker front rest : Str}
    (hclash : ∀ n < front.length, ¬marker <+: front.drop n ∧ ¬front.drop n <+: marker)
    (h : ¬marker <:+: rest) : ¬marker <:+: front ++ rest := by
  induction front with
  | nil => exact h
  | cons c front ih =>
    intro hinfix
    rcases List.infix_cons_iff.mp hinfix with hprefix | hinfix
    · obtain ⟨hmarker, hfront⟩ := hclash 0 (Nat.zero_lt_succ _)
      exact (List.prefix_or_prefix_of_prefix hprefix (List.prefix_append (c :: front) rest)).elim
        hmarker hfront
    · exact ih (fun n hn => hclash (n + 1) (Nat.succ_lt_succ hn)) hinfix

/-- A text without the first character of a pattern does not take part in an occurrence. -/
theorem not_isInfix_append_of_notMem {c : Char} {tail front rest : Str} (hc : c ∉ front)
    (h : ¬c :: tail <:+: rest) : ¬c :: tail <:+: front ++ rest := by
  induction front with
  | nil => exact h
  | cons d front ih =>
    obtain ⟨hne, hfront⟩ := List.ne_and_not_mem_of_not_mem_cons hc
    intro hinfix
    rcases List.infix_cons_iff.mp hinfix with hprefix | hinfix
    · exact hne (List.cons_prefix_cons.mp hprefix).1
    · exact ih hfront hinfix

section Search

variable {marker needle : Str} (hmarker : Unbordered marker) (hneedle : marker <+: needle)

include hmarker hneedle

/-- Behind a text without the marker, a needle that begins with the marker is found. -/
theorem strstr_append {front : Str} (hfront : ¬marker <:+: front) (hnul : nul ∉ front)
    (hne : needle ≠ []) (rest : Str) :
    strstr needle (front ++ (needle ++ rest)) = some (needle ++ rest) := by
  induction front with
  | nil =>
    obtain ⟨c, s, hc⟩ := List.exists_cons_of_ne_nil (List.append_ne_nil_of_left_ne_nil hne rest)
    rw [List.nil_append, hc, strstr, if_pos ⟨rest, hc⟩]
  | cons c front ih =>
    obtain ⟨tail, rfl⟩ := hneedle
    have hnot : ¬marker ++ tail <+: c :: front ++ (marker ++ tail ++ rest) := by
      intro h
      have hprefix : marker <+: c :: front ++ (marker ++ (tail ++ rest)) := by
        rw [← List.append_assoc marker]
        exact (List.prefix_append marker tail).trans h
      exact hfront (hmarker.isPrefix (List.cons_ne_nil c front) hprefix).isInfix
    have hc : c ≠ nul := fun h => hnul (h ▸ List.mem_cons_self)
    rw [List.cons_append] at hnot ⊢
    rw [strstr, if_neg hnot, if_neg hc]
    exact ih (fun h => hfront (h.trans (List.suffix_cons c front).isInfix))
      fun h => hnul (List.mem_cons_of_mem c h)

end Search

/-- Nothing is found in a C string without the pattern. -/
theorem strstr_eq_none {needle s : Str} (hne : needle ≠ []) (hnul : nul ∉ needle)
    (h : ¬needle <:+: cstr s) : strstr needle s = none := by
  induction s with
  | nil => rw [strstr, if_neg hne]
  | cons c s ih =>
    have hprefix : ¬needle <+: c :: s := by
      intro hp
      obtain ⟨rest, hrest⟩ := hp
      rw [← hrest, cstr_append hnul] at h
      exact h (List.prefix_append needle _).isInfix
    rw [strstr, if_neg hprefix]
    split
    · rfl
    next hc =>
      refine ih fun htail => h (htail.trans ?_)
      have hcstr : cstr (c :: s) = c :: cstr s := List.takeWhile_cons_of_pos (by simpa using hc)
      rw [hcstr]
      exact (List.suffix_cons c _).isInfix

end Cxx
