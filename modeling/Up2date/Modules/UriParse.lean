import Up2date.Cxx.Strings

/-!
# URI parsing

The parser matches the whole string against
`^(([^:\/?#]+):)?(//([^\/?#]*))?([^?#]*)(\?([^#]*))?(#(.*))?` in the POSIX extended
syntax. Inside brackets the backslash is an ordinary character there, so schemes and
authorities hold none, and the final `.` matches every character except the null
character. Every group takes the longest text it can and the character after it decides
the next group, so the match is computed from left to right without backtracking.
-/

namespace Up2date.Uri

open Cxx

/-- The backslash, an ordinary member of the bracket expressions. -/
def backslash : Char := Char.ofNat 92

/-- `[^:\/?#]` -/
def isSchemeChar (c : Char) : Bool :=
  c != ':' && c != backslash && c != '/' && c != '?' && c != '#'

/-- `[^\/?#]` -/
def isAuthorityChar (c : Char) : Bool := c != backslash && c != '/' && c != '?' && c != '#'

/-- `[^?#]` -/
def isPathChar (c : Char) : Bool := c != '?' && c != '#'

/-- `[^#]` -/
def isQueryChar (c : Char) : Bool := c != '#'

/-- The groups 2, 4, 5, 7 and 9 of a match; an optional group may take no part in it. -/
structure UrlMatch where
  scheme : Option Str
  authority : Option Str
  path : Str
  query : Option Str
  fragment : Option Str
deriving DecidableEq, Repr

/-- `(([^:\/?#]+):)?` -/
def matchScheme (s : Str) : Option Str × Str :=
  match s.dropWhile isSchemeChar with
  | ':' :: rest =>
    if s.takeWhile isSchemeChar = [] then (none, s) else (some (s.takeWhile isSchemeChar), rest)
  | _ => (none, s)

/-- `(//([^\/?#]*))?` -/
def matchAuthority : Str → Option Str × Str
  | '/' :: '/' :: rest => (some (rest.takeWhile isAuthorityChar), rest.dropWhile isAuthorityChar)
  | s => (none, s)

/-- `(\?([^#]*))?` -/
def matchQuery : Str → Option Str × Str
  | '?' :: rest => (some (rest.takeWhile isQueryChar), rest.dropWhile isQueryChar)
  | s => (none, s)

/-- `(#(.*))?` up to the end of the string. -/
def matchFragment : Str → Option (Option Str)
  | [] => some none
  | '#' :: rest => if nul ∈ rest then none else some (some rest)
  | _ => none

/-- `std::regex_match` of the whole string against the URI expression. -/
def regexMatch (s : Str) : Option UrlMatch :=
  let (scheme, afterScheme) := matchScheme s
  let (authority, afterAuthority) := matchAuthority afterScheme
  let (query, afterQuery) := matchQuery (afterAuthority.dropWhile isPathChar)
  (matchFragment afterQuery).map fun fragment =>
    { scheme, authority, path := afterAuthority.takeWhile isPathChar, query, fragment }

/-- `uri::URI` -/
structure URI where
  scheme : Str := []
  authority : Str := []
  path : Str := []
  query : Str := []
  fragment : Str := []
deriving DecidableEq, Repr

namespace URI

/-- `hasQuery`. -/
def hasQuery (u : URI) : Bool := !u.query.isEmpty

/-- `isEmpty`: no scheme or no authority. -/
def isEmpty (u : URI) : Bool := u.scheme.isEmpty || u.authority.isEmpty

/-- Decompose a string. A missing group 7 returns before the fragment is looked at. -/
def fromString (s : Str) : Except StdException URI :=
  match regexMatch s with
  | none => .error (.runtimeError "Malformed url.".toList)
  | some urlMatch =>
    match urlMatch.authority with
    | none => .error (.runtimeError "No scheme or authority".toList)
    | some authority =>
      let retUri : URI :=
        { scheme := urlMatch.scheme.getD [], authority := authority, path := urlMatch.path }
      match urlMatch.query with
      | none => .ok retUri
      | some query =>
        match urlMatch.fragment with
        | none => .ok { retUri with query := query }
        | some fragment => .ok { retUri with query := query, fragment := fragment }

example : fromString "https://h:1/t/c?q=1#f".toList =
    .ok ⟨"https".toList, "h:1".toList, "/t/c".toList, "q=1".toList, "f".toList⟩ := by decide

end URI

end Up2date.Uri
