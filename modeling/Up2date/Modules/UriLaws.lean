import Up2date.Modules.UriGrammar

/-!
# What the parts of a URI are

A generic URI is its scheme, `:`, two slashes, its authority and its path, followed by a
query behind `?` and a fragment behind `#` exactly when it has them. The parser leaves out
the check of the scheme, ends an authority at a backslash, and returns before the fragment
when there is no query.
-/

namespace Up2date.Uri

open Cxx

/-- A question mark before any number sign begins a query. -/
def HasQueryPart (s : Str) : Prop := '?' ∈ s.takeWhile isQueryChar

/-- A number sign begins a fragment. -/
def HasFragmentPart (s : Str) : Prop := '#' ∈ s

instance : DecidablePred HasQueryPart := fun _ => inferInstanceAs (Decidable ('?' ∈ _))

instance : DecidablePred HasFragmentPart := fun _ => inferInstanceAs (Decidable ('#' ∈ _))

/-- The components of a URI are those of a string. -/
structure Decomposes (s : Str) (u : URI) : Prop where
  text : s = u.scheme ++ ("://".toList ++ (u.authority ++ (u.path ++
    ((if HasQueryPart s then '?' :: u.query else []) ++
      (if HasFragmentPart s then '#' :: u.fragment else [])))))
  authority_chars : ∀ c ∈ u.authority, c ≠ '/' ∧ c ≠ '?' ∧ c ≠ '#'
  path_chars : ∀ c ∈ u.path, c ≠ '?' ∧ c ≠ '#'
  path_head : u.path = [] ∨ u.path.head? = some '/'
  query_chars : '#' ∉ u.query

/-- The parts name a scheme, no backslash ends the authority, and a fragment of at least one
character follows a query. -/
structure Parts.IsGeneric (p : Parts) : Prop where
  scheme : p.scheme.isSome = true
  path_head : p.path.head? ≠ some backslash
  fragment : p.fragmentText ≠ [] → p.query.isSome = true

namespace Parts

/-- What is written before the query and the fragment. -/
def front (p : Parts) : Str := schemeText p.scheme ++ ("//".toList ++ (p.authority ++ p.path))

/-- The query and the fragment stand behind the front. -/
theorem text_eq_front (p : Parts) :
    p.text = p.front ++ (delimited '?' p.query ++ delimited '#' p.fragment) := by
  simp only [text, front, suffix, List.append_assoc]

/-- The characters in front of the query may stand in a path. -/
theorem isPathChar_of_mem_front {p : Parts} {c : Char} (h : c ∈ p.front) : isPathChar c = true := by
  have hscheme : c ∈ schemeText p.scheme → isPathChar c = true := by
    intro hc
    cases hs : p.scheme with
    | none =>
      rw [hs] at hc
      cases hc
    | some s =>
      rw [hs] at hc
      obtain hmem | hcolon := List.mem_append.mp hc
      · have hschemeChar := (p.isScheme s hs).2 c hmem
        simp only [isSchemeChar, Bool.and_eq_true] at hschemeChar
        simp only [isPathChar, hschemeChar.1.2, hschemeChar.2, Bool.and_self]
      · rw [List.mem_singleton.mp hcolon]
        decide
  simp only [front, List.mem_append] at h
  obtain hc | hc | hc | hc := h
  · exact hscheme hc
  · have hslashes : ∀ d ∈ "//".toList, isPathChar d = true :=
      List.all_eq_true.mp (by decide)
    exact hslashes c hc
  · have hauthorityChar := p.authority_chars c hc
    simp only [isAuthorityChar, Bool.and_eq_true] at hauthorityChar
    simp only [isPathChar, hauthorityChar.1.2, hauthorityChar.2, Bool.and_self]
  · exact p.path_chars c hc

/-- No question mark stands in front of the query. -/
theorem mark_notMem_front (p : Parts) : '?' ∉ p.front := fun h =>
  absurd (isPathChar_of_mem_front h) (by decide)

/-- What precedes a fragment holds no number sign. -/
theorem isQueryChar_of_mem {p : Parts} {c : Char} (h : c ∈ p.front ++ delimited '?' p.query) :
    isQueryChar c = true := by
  obtain hfront | hquery := List.mem_append.mp h
  · have hpathChar := isPathChar_of_mem_front hfront
    simp only [isPathChar, Bool.and_eq_true] at hpathChar
    exact hpathChar.2
  · cases hq : p.query with
    | none =>
      rw [hq] at hquery
      cases hquery
    | some q =>
      rw [hq] at hquery
      obtain rfl | hmem := List.mem_cons.mp hquery
      · decide
      · exact p.query_chars q hq c hmem

/-- The text holds a query part when a query is written. -/
theorem hasQueryPart_text (p : Parts) : HasQueryPart p.text ↔ p.query.isSome = true := by
  unfold HasQueryPart
  rw [text_eq_front, ← List.append_assoc, takeWhile_append_of_stops (fun _ => isQueryChar_of_mem)
    (stops_delimited (by decide) p.fragment), List.mem_append]
  cases p.query with
  | none => simp [p.mark_notMem_front, delimited]
  | some q => simp [delimited]

/-- The text holds a fragment part when a fragment is written. -/
theorem hasFragmentPart_text (p : Parts) : HasFragmentPart p.text ↔ p.fragment.isSome = true := by
  have hfront : '#' ∉ p.front ++ delimited '?' p.query := fun h =>
    absurd (isQueryChar_of_mem h) (by decide)
  unfold HasFragmentPart
  rw [text_eq_front, ← List.append_assoc, List.mem_append]
  cases p.fragment with
  | none => simpa [delimited] using hfront
  | some f => simp [delimited]

/-- What a URI writes behind its path. -/
def written (s : Str) (u : URI) : Str :=
  (if HasQueryPart s then '?' :: u.query else []) ++
    (if HasFragmentPart s then '#' :: u.fragment else [])

/-- The query and the fragment are kept unless a fragment of some length has no query. -/
theorem suffix_eq_written_iff (p : Parts) :
    p.suffix = written p.text p.toURI ↔ (p.fragmentText ≠ [] → p.query.isSome = true) := by
  simp only [written, hasQueryPart_text, hasFragmentPart_text, suffix, toURI, fragmentText]
  cases p.query <;> cases p.fragment <;> simp [delimited]

/-- With a scheme the text of parts begins with the scheme, the authority and the path. -/
theorem text_of_scheme {p : Parts} (h : p.scheme.isSome = true) :
    p.text = p.toURI.scheme ++ ("://".toList ++ (p.authority ++ (p.path ++ p.suffix))) := by
  obtain ⟨s, hs⟩ := Option.isSome_iff_exists.mp h
  simp only [text, toURI, hs, schemeText, Option.getD_some, List.append_assoc]
  rfl

/-- The text of generic parts is made of the components of their URI. -/
theorem IsGeneric.decomposes {p : Parts} (h : p.IsGeneric) : Decomposes p.text p.toURI where
  text := by
    have hwritten := p.suffix_eq_written_iff.mpr h.fragment
    have htext := text_of_scheme h.scheme
    rw [hwritten] at htext
    exact htext
  authority_chars := by
    intro c hc
    have hauthorityChar := p.authority_chars c hc
    simp only [isAuthorityChar, Bool.and_eq_true, bne_iff_ne] at hauthorityChar
    exact ⟨hauthorityChar.1.1.2, hauthorityChar.1.2, hauthorityChar.2⟩
  path_chars := by
    intro c hc
    have hpathChar := p.path_chars c hc
    simpa only [isPathChar, Bool.and_eq_true, bne_iff_ne] using hpathChar
  path_head := by
    cases hpath : p.path with
    | nil => exact Or.inl hpath
    | cons c rest =>
      have hstops := p.path_stops c (by rw [hpath]; rfl)
      have hpathChar := p.path_chars c (by rw [hpath]; exact List.mem_cons_self)
      have hbackslash : c ≠ backslash := by
        intro hc
        exact h.path_head (by rw [hpath, hc]; rfl)
      simp only [isPathChar, Bool.and_eq_true] at hpathChar
      simp only [isAuthorityChar, hpathChar.1, hpathChar.2, bne_iff_ne.mpr hbackslash, Bool.and_true,
        Bool.true_and, bne_eq_false_iff_eq] at hstops
      exact Or.inr (by rw [toURI, hpath, hstops]; rfl)
  query_chars := by
    cases hq : p.query with
    | none => simp [toURI, hq]
    | some q =>
      intro hmem
      have hquery : '#' ∈ q := by simpa [toURI, hq] using hmem
      exact absurd (p.query_chars q hq _ hquery) (by decide)

/-- Parts whose text is made of the components of their URI are generic. -/
theorem isGeneric_of_decomposes {p : Parts} (h : Decomposes p.text p.toURI) : p.IsGeneric := by
  have hscheme : p.scheme.isSome = true := by
    cases hs : p.scheme with
    | some s => rfl
    | none =>
      have htext := h.text
      simp [text, toURI, hs, schemeText] at htext
  refine ⟨hscheme, ?_, p.suffix_eq_written_iff.mp ?_⟩
  · intro hhead
    obtain hnil | hslash := h.path_head
    · have hpath : p.path = [] := hnil
      rw [hpath] at hhead
      cases hhead
    · have hpath : p.path.head? = some '/' := hslash
      rw [hpath] at hhead
      exact absurd hhead (by decide)
  · have htext := (text_of_scheme hscheme).symm.trans h.text
    exact List.append_cancel_left (List.append_cancel_left (List.append_cancel_left
      (List.append_cancel_left htext)))

end Parts

/-- The parser decomposes an accepted string exactly when its parts are generic. -/
theorem decomposes_iff (s : Str) :
    (∀ u, URI.fromString s = .ok u → Decomposes s u) ↔
      ∀ p : Parts, p.text = s → nul ∉ p.fragmentText → p.IsGeneric := by
  constructor
  · intro h p htext hnul
    subst htext
    exact Parts.isGeneric_of_decomposes (h _ (fromString_eq_ok_iff.mpr ⟨p, rfl, hnul, rfl⟩))
  · intro h u hu
    obtain ⟨p, rfl, hnul, rfl⟩ := fromString_eq_ok_iff.mp hu
    exact (h p rfl hnul).decomposes

/-- A fragment without a query is lost. -/
theorem fragment_without_query_not_decomposes :
    ¬∀ u, URI.fromString "http://h/p#f".toList = .ok u → Decomposes "http://h/p#f".toList u := by
  intro h
  have htext := (h ⟨"http".toList, "h".toList, "/p".toList, [], []⟩ (by decide)).text
  revert htext
  decide

/-! ### Base addresses and other paths -/

/-- The parts with another path and nothing behind it. -/
def Parts.withPath (p : Parts) (path : Str) (hstops : Stops isAuthorityChar path)
    (hchars : ∀ c ∈ path, isPathChar c = true) : Parts :=
  { p with
    path, query := none, fragment := none, path_stops := hstops, path_chars := hchars
    query_chars := fun q hq => by cases hq }

/-- A path written behind scheme and authority is parsed back. -/
theorem fromString_withPath {p : Parts} (h : p.scheme ≠ none) {path : Str}
    (hstops : Stops isAuthorityChar path) (hchars : ∀ c ∈ path, isPathChar c = true) :
    URI.fromString (p.toURI.scheme ++ "://".toList ++ p.authority ++ path) =
      .ok { scheme := p.toURI.scheme, authority := p.authority, path } := by
  have hscheme : (p.withPath path hstops hchars).scheme.isSome = true := Option.isSome_iff_ne_none.mpr h
  have htext := Parts.text_of_scheme hscheme
  have hparsed := fromString_text (p.withPath path hstops hchars)
  rw [htext] at hparsed
  simpa [Parts.withPath, Parts.suffix, Parts.fragmentText, Parts.toURI, delimited] using hparsed

/-- Without a scheme what is composed behind a colon is refused. -/
theorem fromString_colon (rest : Str) : ∃ e, URI.fromString (':' :: rest) = .error e := by
  cases h : URI.fromString (':' :: rest) with
  | error e => exact ⟨e, rfl⟩
  | ok u =>
    obtain ⟨p, htext, -, -⟩ := fromString_eq_ok_iff.mp h
    cases hs : p.scheme with
    | none => simp [Parts.text, hs, schemeText] at htext
    | some s =>
      obtain ⟨hne, hchars⟩ := p.isScheme s hs
      obtain ⟨c, s, rfl⟩ := List.exists_cons_of_ne_nil hne
      have hcolon : c = ':' := by
        simp only [Parts.text, hs, schemeText] at htext
        exact (List.cons.inj htext).1
      exact absurd (hchars c List.mem_cons_self) (by rw [hcolon]; decide)


end Up2date.Uri
