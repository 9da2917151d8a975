import Up2date.Httplib.Headers
import Mathlib.Data.List.Forall2

/-!
# The host of a certificate

A connection with TLS is taken when the certificate of the server names the host. Names are
compared component by component: both are split at dots, blanks around a component are dropped,
and so are empty components. A star stands for one whole component; behind other characters it
stands for nothing, so that no part of a component is ever left open.
-/

namespace Up2date.Httplib

open Cxx

/-! ### Components -/

/-- `trim`, which moves two positions of a text inwards. -/
def trim (s : Str) (left right : ℕ) : ℕ × ℕ :=
  (left + ((s.drop left).takeWhile isSpaceOrTab).length,
    right - ((s.take right).reverse.takeWhile isSpaceOrTab).length)

/-- The call of `split` for a part of a text, if anything is left of it. -/
def piece (s : Str) (beg i : ℕ) : List Str :=
  let r := trim s beg i
  if r.1 < r.2 then [(s.take r.2).drop r.1] else []

/-- The loop of `split` at position `i`, in front of the characters that are left. -/
def splitFrom (s : Str) (d : Char) : Str → ℕ → ℕ → List Str
  | [], i, beg => if i = 0 then [] else piece s beg i
  | c :: rest, i, beg =>
    if c = d then piece s beg i ++ splitFrom s d rest (i + 1) (i + 1)
    else splitFrom s d rest (i + 1) beg

/-- `split` -/
def split (s : Str) (d : Char) : List Str := splitFrom s d s 0 0

/-- A text without the blanks around it. -/
def strip (s : Str) : Str := (s.dropWhile isSpaceOrTab).rdropWhile isSpaceOrTab

/-- The components of a text that are left without blanks. -/
def components (s : Str) (d : Char) : List Str := ((s.splitOn d).map strip).filter (· ≠ [])

/-- Stripping takes blanks away on both sides, and no more. -/
theorem exists_strip (s : Str) :
    ∃ l r, s = l ++ strip s ++ r ∧ (∀ c ∈ l, isSpaceOrTab c = true) ∧
      (∀ c ∈ r, isSpaceOrTab c = true) ∧ Stops isSpaceOrTab (strip s) ∧
        Stops isSpaceOrTab (strip s).reverse := by
  let x := s.dropWhile isSpaceOrTab
  have hstrip : (strip s).reverse = x.reverse.dropWhile isSpaceOrTab := List.reverse_reverse _
  have hx : x = strip s ++ (x.reverse.takeWhile isSpaceOrTab).reverse := by
    apply List.reverse_injective
    rw [List.reverse_append, List.reverse_reverse, hstrip, List.takeWhile_append_dropWhile]
  have hstops : Stops isSpaceOrTab (strip s) := by
    intro c hc
    apply stops_dropWhile isSpaceOrTab s c
    change x.head? = some c
    rw [hx, List.head?_append, hc, Option.some_or]
  refine ⟨s.takeWhile isSpaceOrTab, (x.reverse.takeWhile isSpaceOrTab).reverse, ?_,
    fun c hc => List.mem_takeWhile_imp hc, fun c hc => ?_, hstops, ?_⟩
  · rw [List.append_assoc, ← hx]
    exact List.takeWhile_append_dropWhile.symm
  · exact List.mem_takeWhile_imp (List.mem_reverse.mp hc)
  · rw [hstrip]
    exact stops_dropWhile _ _

/-- The part of a text between two others. -/
theorem piece_eq (before seg : Str) {tail : Str} (htail : Stops isSpaceOrTab tail) :
    piece (before ++ seg ++ tail) before.length (before ++ seg).length =
      if strip seg = [] then [] else [strip seg] := by
  obtain ⟨l, r, hseg, hl, hr, hhead, hlast⟩ := exists_strip seg
  have hdrop : (before ++ seg ++ tail).drop before.length = seg ++ tail := by
    rw [List.append_assoc, List.drop_left]
  have htake : (before ++ seg ++ tail).take (before ++ seg).length = before ++ seg := List.take_left
  unfold piece trim
  rw [hdrop, htake]
  split
  next hempty =>
    rw [hempty, List.append_nil] at hseg
    have hblank : ∀ c ∈ seg, isSpaceOrTab c = true := by
      rw [hseg]
      exact List.forall_mem_append.mpr ⟨hl, hr⟩
    rw [takeWhile_append_of_stops hblank htail, ← List.length_append, if_neg]
    exact not_lt.mpr (Nat.sub_le _ _)
  next hne =>
    have hmiddle (tail : Str) : Stops isSpaceOrTab (strip seg ++ tail) := by
      intro c hc
      rw [List.head?_append_of_ne_nil _ hne] at hc
      exact hhead c hc
    have hlastMiddle (before : Str) : Stops isSpaceOrTab ((strip seg).reverse ++ before) := by
      intro c hc
      rw [List.head?_append_of_ne_nil _ (by simpa using hne)] at hc
      exact hlast c hc
    have hleft : ((seg ++ tail).takeWhile isSpaceOrTab) = l := by
      conv_lhs => rw [hseg, List.append_assoc, List.append_assoc]
      exact takeWhile_append_of_stops hl (hmiddle _)
    have hright : ((before ++ seg).reverse.takeWhile isSpaceOrTab) = r.reverse := by
      conv_lhs => rw [hseg]
      simp only [List.reverse_append, List.append_assoc]
      exact takeWhile_append_of_stops (fun c hc => hr c (List.mem_reverse.mp hc)) (hlastMiddle _)
    have hwhole : before ++ seg ++ tail = before ++ l ++ strip seg ++ (r ++ tail) := by
      conv_lhs => rw [hseg]
      simp only [List.append_assoc]
    have hend : (before ++ seg).length - r.reverse.length = (before ++ l ++ strip seg).length := by
      have hlength := congrArg List.length hseg
      simp only [List.length_append, List.length_reverse] at hlength ⊢
      omega
    rw [hleft, hright, hend, ← List.length_append, if_pos, hwhole, List.take_left, List.drop_left]
    exact (Nat.lt_add_of_pos_right (List.length_pos_of_ne_nil hne)).trans_eq List.length_append.symm

/-- The part up to a delimiter is a component, unless it is blank. -/
theorem components_cons {d : Char} {seg rest : Str} (hseg : d ∉ seg) :
    components (seg ++ d :: rest) d =
      (if strip seg = [] then [] else [strip seg]) ++ components rest d := by
  unfold components
  rw [List.splitOn_append_cons_self_of_not_mem hseg, List.map_cons, List.filter_cons]
  split <;> simp_all

/-- A text without the delimiter is one component, unless it is blank. -/
theorem components_of_not_mem {d : Char} {seg : Str} (hseg : d ∉ seg) :
    components seg d = if strip seg = [] then [] else [strip seg] := by
  unfold components
  rw [List.splitOn_eq_singleton hseg, List.map_singleton, List.filter_singleton]
  split <;> simp_all

/-- The loop of `split`, behind the last delimiter. -/
theorem splitFrom_eq {d : Char} (hd : isSpaceOrTab d = false) (before seg rest : Str) (hseg : d ∉ seg) :
    splitFrom (before ++ seg ++ rest) d rest (before ++ seg).length before.length =
      components (seg ++ rest) d := by
  induction rest generalizing before seg with
  | nil =>
    rw [splitFrom, List.append_nil seg, components_of_not_mem hseg, piece_eq before seg stops_nil]
    split
    next hempty =>
      obtain ⟨-, rfl⟩ := List.append_eq_nil_iff.mp (List.length_eq_zero_iff.mp hempty)
      rfl
    · rfl
  | cons c rest ih =>
    rw [splitFrom]
    split
    next heq =>
      subst heq
      have hnext := ih (before ++ seg ++ [c]) [] List.not_mem_nil
      rw [components_cons hseg, piece_eq before seg (stops_cons_iff.mpr hd)]
      simp only [List.append_assoc, List.append_nil, List.nil_append, List.singleton_append,
        List.length_append, List.length_singleton, Nat.add_assoc] at hnext ⊢
      rw [← hnext]
    next hne =>
      have hmore : d ∉ seg ++ [c] := by
        simpa [hseg] using Ne.symm hne
      have hnext := ih before (seg ++ [c]) hmore
      simp only [List.append_assoc, List.singleton_append, List.length_append,
        List.length_singleton] at hnext ⊢
      exact hnext

/-- The components of a text are those that are left without blanks. -/
theorem split_eq {d : Char} (hd : isSpaceOrTab d = false) (s : Str) : split s d = components s d := by
  have h := splitFrom_eq hd [] [] s List.not_mem_nil
  exact h

/-! ### Names -/

/-- The test of a component of the host against one of the pattern. -/
def componentMatches (h p : Str) : Bool :=
  p == h || p == "*".toList || (p.getLast? == some '*' && p.dropLast == h)

/-- `check_host_name` -/
def checkHostName (host pattern : Str) : Bool :=
  if host.length = pattern.length ∧ host = cstr pattern then true
  else
    let hostComponents := split host '.'
    let patternComponents := split pattern '.'
    if hostComponents.length ≠ patternComponents.length then false
    else (hostComponents.zip patternComponents).all fun m => componentMatches m.1 m.2

/-- A component of a pattern that stands for a component of a host: itself, a star, or the
component with a star behind it. -/
def Stands (h p : Str) : Prop := p = h ∨ p = "*".toList ∨ p = h ++ "*".toList

/-- A pattern names a host. -/
def Names (pattern host : Str) : Prop :=
  List.Forall₂ Stands (components host '.') (components pattern '.')

/-- The test of a component tells whether it stands for the other one. -/
theorem componentMatches_iff (h p : Str) : componentMatches h p = true ↔ Stands h p := by
  have hlast : p.getLast? = some '*' ∧ p.dropLast = h ↔ p = h ++ "*".toList := by
    constructor
    · rintro ⟨hstar, rfl⟩
      exact (List.dropLast_append_getLast? '*' hstar).symm
    · rintro rfl
      exact ⟨List.getLast?_concat, List.dropLast_concat⟩
  simp only [componentMatches, Stands, Bool.or_eq_true, Bool.and_eq_true, beq_iff_eq, or_assoc, hlast]

/-- Lists are related when they have one length and every pair of theirs is. -/
theorem forall₂_iff_zip_all {α β : Type} {R : α → β → Prop} {test : α × β → Bool}
    (htest : ∀ a b, test (a, b) = true ↔ R a b) (as : List α) (bs : List β) :
    List.Forall₂ R as bs ↔ as.length = bs.length ∧ (as.zip bs).all test = true := by
  rw [List.forall₂_iff_zip]
  simp [htest]

/-- A host is accepted when the pattern names it. -/
theorem checkHostName_iff (host pattern : Str) :
    checkHostName host pattern = true ↔ Names pattern host := by
  have hcomponents : Names pattern host ↔
      (split host '.').length = (split pattern '.').length ∧
        ((split host '.').zip (split pattern '.')).all (fun m => componentMatches m.1 m.2) = true := by
    rw [split_eq rfl, split_eq rfl]
    exact forall₂_iff_zip_all componentMatches_iff _ _
  unfold checkHostName
  split
  next hsame =>
    have heq : pattern = host := by
      have htake : cstr pattern <+: pattern := List.takeWhile_prefix _
      exact (htake.eq_of_length (by rw [← hsame.2, hsame.1])).symm.trans hsame.2.symm
    subst heq
    exact iff_of_true rfl (List.forall₂_same.mpr fun _ _ => Or.inl rfl)
  · rw [hcomponents]
    dsimp only
    split
    next hne => exact iff_of_false Bool.false_ne_true fun h => hne h.1
    next heq => exact (and_iff_right (not_not.mp heq)).symm

/-- The comment in `verify_host` has this one matched. -/
example : checkHostName "foo.com".toList "f*.com".toList = false := by decide

end Up2date.Httplib
