import Up2date.Cxx.Scanning
import Up2date.Modules.UriParse

/-!
# The grammar of URIs with an authority

Every string with two slashes at its head, or behind a scheme, is the text of one list of
parts: an optional scheme, an authority, a path that goes on where the authority ends, and
an optional query and fragment. The parser accepts exactly these strings, unless their
fragment holds a null character, and a fragment without a query is not kept.
-/

namespace Up2date.Uri

open Cxx

/-- The text of an optional scheme. -/
def schemeText : Option Str → Str
  | none => []
  | some scheme => scheme ++ ":".toList

/-- The text of an optional query or fragment behind its delimiter. -/
def delimited (c : Char) : Option Str → Str
  | none => []
  | some part => c :: part

/-- What the first group takes for a scheme. -/
def IsScheme (scheme : Str) : Prop := scheme ≠ [] ∧ ∀ c ∈ scheme, isSchemeChar c = true

/-- The parts of a string with an authority. -/
structure Parts where
  scheme : Option Str
  authority : Str
  path : Str
  query : Option Str
  fragment : Option Str
  isScheme : ∀ s, scheme = some s → IsScheme s
  authority_chars : ∀ c ∈ authority, isAuthorityChar c = true
  path_stops : Stops isAuthorityChar path
  path_chars : ∀ c ∈ path, isPathChar c = true
  query_chars : ∀ q, query = some q → ∀ c ∈ q, isQueryChar c = true

namespace Parts

/-- The query and the fragment as they are written behind the path. -/
def suffix (p : Parts) : Str := delimited '?' p.query ++ delimited '#' p.fragment

/-- A URI of the parts. -/
def text (p : Parts) : Str :=
  schemeText p.scheme ++ ("//".toList ++ (p.authority ++ (p.path ++ p.suffix)))

/-- The text of the fragment, empty when there is none. -/
def fragmentText (p : Parts) : Str := p.fragment.getD []

/-- The URI of the parts; a fragment is kept only behind a query. -/
def toURI (p : Parts) : URI where
  scheme := p.scheme.getD []
  authority := p.authority
  path := p.path
  query := p.query.getD []
  fragment := if p.query.isSome then p.fragmentText else []

end Parts

/-! ### Writing and matching single parts -/

/-- The part is determined by its text with the delimiter. -/
theorem delimited_injective (c : Char) : Function.Injective (delimited c) := by
  intro a b h
  cases a <;> cases b <;> simp_all [delimited]

/-- A run of characters that excludes the delimiter stops at it. -/
theorem stops_delimited {p : Char → Bool} {c : Char} (hc : p c = false) (part : Option Str) :
    Stops p (delimited c part) := by
  cases part with
  | none => exact stops_nil
  | some part => exact stops_cons_iff.mpr hc

/-- A scheme is found in front of the slashes. -/
theorem matchScheme_text {scheme : Option Str} (h : ∀ s, scheme = some s → IsScheme s) (rest : Str) :
    matchScheme (schemeText scheme ++ ("//".toList ++ rest)) = (scheme, "//".toList ++ rest) := by
  cases scheme with
  | none => rfl
  | some s =>
    obtain ⟨hne, hchars⟩ := h s rfl
    have hstops : Stops isSchemeChar (":".toList ++ ("//".toList ++ rest)) :=
      stops_cons_iff.mpr (by decide)
    simp only [matchScheme, schemeText, List.append_assoc, takeWhile_append_of_stops hchars hstops,
      dropWhile_append_of_stops hchars hstops, if_neg hne]
    rfl

/-- What is found is a scheme with its colon, in front of the rest. -/
theorem matchScheme_sound {s rest : Str} {scheme : Option Str} (h : matchScheme s = (scheme, rest)) :
    s = schemeText scheme ++ rest ∧ ∀ t, scheme = some t → IsScheme t := by
  unfold matchScheme at h
  split at h
  next afterColon hcolon =>
    by_cases hempty : s.takeWhile isSchemeChar = []
    · rw [if_pos hempty, Prod.mk.injEq] at h
      obtain ⟨rfl, rfl⟩ := h
      exact ⟨rfl, fun t ht => by cases ht⟩
    · rw [if_neg hempty, Prod.mk.injEq] at h
      obtain ⟨rfl, rfl⟩ := h
      refine ⟨?_, fun t ht => ?_⟩
      · rw [schemeText, List.append_assoc]
        change s = s.takeWhile isSchemeChar ++ ':' :: afterColon
        rw [← hcolon, List.takeWhile_append_dropWhile]
      · obtain rfl := Option.some.inj ht
        exact ⟨hempty, fun _ => List.mem_takeWhile_imp⟩
  next =>
    obtain ⟨rfl, rfl⟩ := Prod.mk.inj h
    exact ⟨rfl, fun t ht => by cases ht⟩

/-- An authority is found up to the first character that cannot belong to it. -/
theorem matchAuthority_text {authority rest : Str}
    (hchars : ∀ c ∈ authority, isAuthorityChar c = true) (hrest : Stops isAuthorityChar rest) :
    matchAuthority ("//".toList ++ (authority ++ rest)) = (some authority, rest) := by
  change (some ((authority ++ rest).takeWhile isAuthorityChar),
    (authority ++ rest).dropWhile isAuthorityChar) = _
  rw [takeWhile_append_of_stops hchars hrest, dropWhile_append_of_stops hchars hrest]

/-- An authority is found behind two slashes only. -/
theorem matchAuthority_sound {s rest authority : Str}
    (h : matchAuthority s = (some authority, rest)) :
    ∃ afterSlashes, s = "//".toList ++ afterSlashes := by
  unfold matchAuthority at h
  split at h
  next afterSlashes => exact ⟨afterSlashes, rfl⟩
  next => cases h

/-- A query is found up to the fragment. -/
theorem matchQuery_text {query : Option Str} (fragment : Option Str)
    (h : ∀ q, query = some q → ∀ c ∈ q, isQueryChar c = true) :
    matchQuery (delimited '?' query ++ delimited '#' fragment) =
      (query, delimited '#' fragment) := by
  cases query with
  | none => cases fragment <;> rfl
  | some q =>
    have hrest : Stops isQueryChar (delimited '#' fragment) := stops_delimited (by decide) fragment
    change (some ((q ++ _).takeWhile isQueryChar), (q ++ _).dropWhile isQueryChar) = _
    rw [takeWhile_append_of_stops (h q rfl) hrest, dropWhile_append_of_stops (h q rfl) hrest]

/-- A fragment is found unless it has a null character. -/
theorem matchFragment_text (fragment : Option Str) :
    matchFragment (delimited '#' fragment) =
      if nul ∈ fragment.getD [] then none else some fragment := by
  cases fragment <;> rfl

/-- What does not begin with a character of a path is a query and a fragment. -/
theorem exists_suffix {s : Str} (h : Stops isPathChar s) :
    ∃ query fragment, s = delimited '?' query ++ delimited '#' fragment ∧
      ∀ q, query = some q → ∀ c ∈ q, isQueryChar c = true := by
  have hfragment : ∀ t : Str, Stops isQueryChar t → ∃ fragment, t = delimited '#' fragment := by
    intro t ht
    cases t with
    | nil => exact ⟨none, rfl⟩
    | cons c t =>
      obtain rfl : c = '#' := by simpa [isQueryChar] using ht
      exact ⟨some t, rfl⟩
  cases s with
  | nil => exact ⟨none, none, rfl, fun q hq => by cases hq⟩
  | cons c s =>
    by_cases hmark : c = '?'
    · subst hmark
      obtain ⟨fragment, ht⟩ := hfragment _ (stops_dropWhile isQueryChar s)
      refine ⟨some (s.takeWhile isQueryChar), fragment, ?_, fun q hq => ?_⟩
      · rw [← ht]
        exact congrArg (List.cons '?') List.takeWhile_append_dropWhile.symm
      · obtain rfl := Option.some.inj hq
        exact fun _ => List.mem_takeWhile_imp
    · obtain rfl : c = '#' := by simpa [isPathChar, hmark] using h
      exact ⟨none, some s, rfl, fun q hq => by cases hq⟩

/-! ### Writing and matching whole strings -/

namespace Parts

/-- Behind the path there is no character of a path. -/
theorem stops_isPathChar (p : Parts) : Stops isPathChar p.suffix := by
  unfold suffix
  cases p.query with
  | none => exact stops_delimited (by decide) p.fragment
  | some q => exact stops_cons_iff.mpr (by decide)

/-- Behind the authority there is no character of an authority. -/
theorem stops_isAuthorityChar (p : Parts) : Stops isAuthorityChar (p.path ++ p.suffix) := by
  intro c hc
  cases hpath : p.path with
  | nil =>
    rw [hpath] at hc
    have hpathChar := p.stops_isPathChar c hc
    simp only [isPathChar, isAuthorityChar, Bool.and_eq_false_iff] at hpathChar ⊢
    obtain hmark | hhash := hpathChar
    · exact Or.inl (Or.inr hmark)
    · exact Or.inr hhash
  | cons d rest =>
    rw [hpath] at hc
    exact p.path_stops c (by rw [hpath]; exact hc)

/-- The scheme of a URI is found. -/
theorem matchScheme_eq (p : Parts) :
    matchScheme p.text = (p.scheme, "//".toList ++ (p.authority ++ (p.path ++ p.suffix))) :=
  matchScheme_text p.isScheme _

/-- The authority of a URI is found. -/
theorem matchAuthority_eq (p : Parts) :
    matchAuthority ("//".toList ++ (p.authority ++ (p.path ++ p.suffix))) =
      (some p.authority, p.path ++ p.suffix) :=
  matchAuthority_text p.authority_chars p.stops_isAuthorityChar

/-- The query of a URI is found. -/
theorem matchQuery_eq (p : Parts) : matchQuery p.suffix = (p.query, delimited '#' p.fragment) :=
  matchQuery_text p.fragment p.query_chars

/-- A string is the text of one list of parts at most. -/
theorem text_injective : Function.Injective text := by
  intro p p' h
  have hscheme := p.matchScheme_eq.symm.trans (h ▸ p'.matchScheme_eq)
  rw [Prod.mk.injEq] at hscheme
  have hauthority := p.matchAuthority_eq.symm.trans (hscheme.2 ▸ p'.matchAuthority_eq)
  rw [Prod.mk.injEq, Option.some.injEq] at hauthority
  obtain ⟨hpath, hsuffix⟩ := run_unique hauthority.2 p.path_chars p.stops_isPathChar p'.path_chars
    p'.stops_isPathChar
  have hquery := p.matchQuery_eq.symm.trans (hsuffix ▸ p'.matchQuery_eq)
  rw [Prod.mk.injEq] at hquery
  have hfragment := delimited_injective '#' hquery.2
  cases p
  cases p'
  simp_all

end Parts

/-- Two slashes, at the head or behind a scheme, begin an authority. -/
theorem exists_parts {scheme : Option Str} (h : ∀ s, scheme = some s → IsScheme s) (rest : Str) :
    ∃ p : Parts, p.text = schemeText scheme ++ ("//".toList ++ rest) ∧ p.scheme = scheme := by
  obtain ⟨query, fragment, hsuffix, hquery⟩ :=
    exists_suffix (stops_dropWhile isPathChar (rest.dropWhile isAuthorityChar))
  have hpath : (rest.dropWhile isAuthorityChar).takeWhile isPathChar ++
      (rest.dropWhile isAuthorityChar).dropWhile isPathChar = rest.dropWhile isAuthorityChar :=
    List.takeWhile_append_dropWhile
  have hstops : Stops isAuthorityChar ((rest.dropWhile isAuthorityChar).takeWhile isPathChar) := by
    intro c hc
    apply stops_dropWhile isAuthorityChar rest c
    rw [← hpath, List.head?_append, hc]
    rfl
  let p : Parts := ⟨scheme, rest.takeWhile isAuthorityChar, _, query, fragment, h,
    fun _ => List.mem_takeWhile_imp, hstops, fun _ => List.mem_takeWhile_imp, hquery⟩
  refine ⟨p, ?_, rfl⟩
  simp only [p, Parts.text, Parts.suffix]
  rw [← hsuffix, hpath, List.takeWhile_append_dropWhile]

/-- The parser takes the text of parts for their URI. -/
theorem fromString_text (p : Parts) :
    URI.fromString p.text =
      if nul ∈ p.fragmentText then .error (.runtimeError "Malformed url.".toList) else .ok p.toURI := by
  have hmatch : regexMatch p.text = if nul ∈ p.fragmentText then none else
      some ⟨p.scheme, some p.authority, p.path, p.query, p.fragment⟩ := by
    simp only [regexMatch, p.matchScheme_eq, p.matchAuthority_eq,
      takeWhile_append_of_stops p.path_chars p.stops_isPathChar,
      dropWhile_append_of_stops p.path_chars p.stops_isPathChar, p.matchQuery_eq,
      matchFragment_text, Parts.fragmentText]
    rw [apply_ite (Option.map _)]
    rfl
  unfold URI.fromString
  rw [hmatch]
  by_cases hnul : nul ∈ p.fragmentText
  · rw [if_pos hnul, if_pos hnul]
  · rw [if_neg hnul, if_neg hnul]
    unfold Parts.toURI Parts.fragmentText
    cases p.query with
    | none => rfl
    | some q => cases p.fragment <;> rfl

/-- The accepted strings are the texts of parts without a null character in the fragment. -/
theorem fromString_eq_ok_iff {s : Str} {u : URI} :
    URI.fromString s = .ok u ↔ ∃ p : Parts, p.text = s ∧ nul ∉ p.fragmentText ∧ p.toURI = u := by
  constructor
  · intro h
    have haccepted : ∃ m authority, regexMatch s = some m ∧ m.authority = some authority := by
      cases hmatch : regexMatch s with
      | none => simp [URI.fromString, hmatch] at h
      | some m =>
        cases hauthority : m.authority with
        | none => simp [URI.fromString, hmatch, hauthority] at h
        | some authority => exact ⟨m, authority, rfl, hauthority⟩
    obtain ⟨m, authority, hmatch, hauthority⟩ := haccepted
    obtain ⟨fragment, -, rfl⟩ := Option.map_eq_some_iff.mp hmatch
    obtain ⟨hs, hscheme⟩ := matchScheme_sound (s := s) rfl
    obtain ⟨rest, hrest⟩ := matchAuthority_sound (Prod.ext hauthority rfl)
    obtain ⟨p, htext, -⟩ := exists_parts hscheme rest
    obtain rfl : p.text = s := by rw [htext, ← hrest, ← hs]
    rw [fromString_text] at h
    by_cases hnul : nul ∈ p.fragmentText
    · rw [if_pos hnul] at h
      cases h
    · rw [if_neg hnul] at h
      exact ⟨p, rfl, hnul, Except.ok.inj h⟩
  · intro h
    obtain ⟨p, rfl, hnul, rfl⟩ := h
    rw [fromString_text, if_neg hnul]

end Up2date.Uri
