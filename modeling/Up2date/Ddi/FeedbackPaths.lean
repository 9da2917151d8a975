import Up2date.Ddi.PayloadShape
import Up2date.Ddi.Poll
import Up2date.Modules.UriGrammar

/-!
# Paths of feedback

Feedback is posted to the path of the link an action was read from, with `feedback` behind a
slash. The path of an accepted link is empty, begins with a slash, or begins with a backslash,
which the parser does not count among the characters of an authority. The last character of an
empty path is not defined, a backslash stays in front, and of two slashes at the end both are
kept.
-/

namespace Up2date.Ddi

open Cxx Uri
open Json (Value)

/-- A path is extended by `feedback` behind exactly one slash, its own or an added one. -/
structure AppendsFeedback (path result : Str) : Prop where
  rooted : result.head? = some '/'
  oneSlash : ∃ stem : Str, stem.getLast? ≠ some '/' ∧
    (path = stem ∨ path = stem ++ "/".toList) ∧ result = stem ++ "/feedback".toList
  added : path.getLast? ≠ some '/' → result = path ++ "/feedback".toList

/-- The feedback path of a link is defined, and extends the path of the link. -/
def FeedbackAppended (uri : URI) : Prop :=
  ∃ result, formatFeedbackPath uri = some result ∧ AppendsFeedback uri.path result

/-- The last character of an empty path is not there. -/
theorem formatFeedbackPath_of_nil {uri : URI} (h : uri.path = []) : formatFeedbackPath uri = none := by
  rw [formatFeedbackPath, h]
  rfl

/-- A path without a slash at its end gets one. -/
theorem formatFeedbackPath_of_ne {uri : URI} (hne : uri.path ≠ [])
    (h : uri.path.getLast? ≠ some '/') :
    formatFeedbackPath uri = some (uri.path ++ "/feedback".toList) := by
  obtain ⟨c, hc⟩ := Option.ne_none_iff_exists'.mp (mt List.getLast?_eq_none_iff.mp hne)
  have hslash : c ≠ '/' := fun heq => h (heq ▸ hc)
  simp only [formatFeedbackPath, hc, if_pos hslash, List.append_assoc]
  rfl

/-- A slash at the end of a path is the one before `feedback`. -/
theorem formatFeedbackPath_of_slash {uri : URI} {stem : Str} (h : uri.path = stem ++ "/".toList) :
    formatFeedbackPath uri = some (stem ++ "/feedback".toList) := by
  have hlast : uri.path.getLast? = some '/' := by rw [h]; exact List.getLast?_concat
  have hkept : ¬('/' : Char) ≠ '/' := fun hne => hne rfl
  simp only [formatFeedbackPath, hlast, if_neg hkept]
  rw [h, List.append_assoc]
  rfl

/-- A path that ends in a slash is a stem and that slash. -/
theorem exists_stem {path : Str} (h : path.getLast? = some '/') :
    ∃ stem, path = stem ++ "/".toList :=
  ⟨path.dropLast, (List.dropLast_append_getLast? '/' h).symm⟩

/-- A stem ends in a slash when the path ends in two. -/
theorem getLast?_stem_iff {stem : Str} :
    stem.getLast? = some '/' ↔ "//".toList <:+ stem ++ "/".toList := by
  constructor
  · intro h
    obtain ⟨front, rfl⟩ := exists_stem h
    exact ⟨front, (List.append_assoc front "/".toList "/".toList).symm⟩
  · intro h
    obtain ⟨front, hfront⟩ := h
    have hstem : front ++ "/".toList = stem := by
      refine (List.append_left_inj "/".toList).mp ?_
      rw [List.append_assoc]
      exact hfront
    rw [← hstem]
    exact List.getLast?_concat

/-- The path of a URI with an authority is empty or begins with what ends an authority. -/
theorem path_cases {p : Parts} :
    p.path = [] ∨ p.path.head? = some '/' ∨ p.path.head? = some backslash := by
  cases hpath : p.path with
  | nil => exact Or.inl rfl
  | cons c rest =>
    refine Or.inr ?_
    have hstop : isAuthorityChar c = false := p.path_stops c (by rw [hpath]; rfl)
    have hchar : isPathChar c = true := p.path_chars c (by rw [hpath]; exact List.mem_cons_self)
    simp only [isPathChar, Bool.and_eq_true, bne_iff_ne] at hchar
    simp only [isAuthorityChar, Bool.and_eq_false_iff, bne_eq_false_iff_eq, hchar.1, hchar.2,
      or_false] at hstop
    rw [List.head?_cons, Option.some.injEq, Option.some.injEq]
    exact hstop.symm

/-- A path that begins with a slash and does not end in two is extended as it should be. -/
theorem appendsFeedback_of_rooted {uri : URI} (hroot : uri.path.head? = some '/')
    (hend : ¬"//".toList <:+ uri.path) : FeedbackAppended uri := by
  by_cases hslash : uri.path.getLast? = some '/'
  · obtain ⟨stem, hstem⟩ := exists_stem hslash
    have hlast : stem.getLast? ≠ some '/' := fun h => hend (hstem ▸ getLast?_stem_iff.mp h)
    refine ⟨_, formatFeedbackPath_of_slash hstem, ⟨?_, ⟨stem, hlast, Or.inr hstem, rfl⟩, ?_⟩⟩
    · rw [hstem] at hroot
      cases stem with
      | nil => rfl
      | cons c rest => exact hroot
    · exact fun h => absurd hslash h
  · have hne : uri.path ≠ [] := fun h => by rw [h] at hroot; cases hroot
    refine ⟨_, formatFeedbackPath_of_ne hne hslash, ⟨?_, ⟨_, hslash, Or.inl rfl, rfl⟩, fun _ => rfl⟩⟩
    rw [List.head?_append, hroot]
    rfl

/-- What is extended as it should be begins with a slash and does not end in two. -/
theorem rooted_of_appendsFeedback {uri : URI} (h : FeedbackAppended uri) :
    uri.path.head? = some '/' ∧ ¬"//".toList <:+ uri.path := by
  obtain ⟨result, hresult, hrooted, ⟨stem, hlast, hpath, hstem⟩, -⟩ := h
  have hne : uri.path ≠ [] := by
    intro hempty
    rw [formatFeedbackPath_of_nil hempty] at hresult
    cases hresult
  rw [hstem] at hrooted
  rcases hpath with hpath | hpath
  · rw [hpath] at hne ⊢
    obtain ⟨c, rest, rfl⟩ := List.exists_cons_of_ne_nil hne
    refine ⟨hrooted, fun hend => hlast ?_⟩
    obtain ⟨front, hfront⟩ := hend
    rw [← hfront, List.getLast?_append]
    rfl
  · rw [hpath]
    refine ⟨?_, fun hend => hlast (getLast?_stem_iff.mpr hend)⟩
    cases stem with
    | nil => rfl
    | cons c rest => exact hrooted

/-- The feedback path of an accepted link is right when the path of the link is not empty, does
not begin with a backslash, and does not end in two slashes. -/
theorem feedbackAppended_iff {link : Value} {uri : URI} (h : parseHrefObject link = .ok uri) :
    FeedbackAppended uri ↔
      uri.path ≠ [] ∧ uri.path.head? ≠ some backslash ∧ ¬"//".toList <:+ uri.path := by
  constructor
  · intro happended
    obtain ⟨hroot, hend⟩ := rooted_of_appendsFeedback happended
    refine ⟨fun hempty => ?_, fun hback => ?_, hend⟩
    · rw [hempty] at hroot
      cases hroot
    · exact absurd (Option.some.inj (hroot.symm.trans hback)) (by decide)
  · intro hpath
    obtain ⟨hne, hback, hend⟩ := hpath
    obtain ⟨href, -, hparsed⟩ := parseHrefObject_eq_ok_iff.mp h
    obtain ⟨p, -, -, rfl⟩ := fromString_eq_ok_iff.mp hparsed
    have hroot : p.path.head? = some '/' :=
      (path_cases.resolve_left hne).resolve_right hback
    exact appendsFeedback_of_rooted hroot hend

/-- A link with this text. -/
def hrefLink (href : Str) : Value := .object [("href".toList, .string href)]

/-- An action is posted below its link. -/
theorem feedbackAppended_action :
    FeedbackAppended { scheme := "http".toList, authority := "h".toList, path := "/a/1".toList } :=
  @feedbackAppended_iff (hrefLink "http://h/a/1".toList) _ (by decide +kernel) |>.mpr
    (by decide +kernel)

/-- A link that ends behind its host is accepted, and its path has no last character. -/
theorem feedbackPath_of_host_undefined :
    ¬∀ link uri, parseHrefObject link = .ok uri → FeedbackAppended uri := by
  intro h
  have hparsed : parseHrefObject (hrefLink "http://h".toList) =
      .ok { scheme := "http".toList, authority := "h".toList, path := [] } := by decide +kernel
  obtain ⟨result, hresult, -⟩ := h _ _ hparsed
  rw [formatFeedbackPath_of_nil rfl] at hresult
  cases hresult

end Up2date.Ddi
