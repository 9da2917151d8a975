import Up2date.Modules.HttpClient
import Up2date.Modules.UriAuthority

/-!
# The HTTP client on Unix

Both constructors of the client match their address against
`(?:([a-z]+):\/\/)?(?:\[([\d:]+)\]|([^:/?#]+))(?::(\d+))?`. Without a match the plain one takes
the whole address for a host, and the one with a key pair makes no implementation. The text
of a match determines its groups, so that it is computed from left to right, with the second
alternative where the first fails.
-/

namespace Up2date.Unix

open Cxx Uri Httpclient

/-! ### The pattern of an address -/

/-- `[\d:]` -/
def isAddressChar (c : Char) : Bool := c.isDigit || c == ':'

/-- `[^:/?#]` -/
def isHostChar (c : Char) : Bool := c != ':' && c != '/' && c != '?' && c != '#'

/-- The strings of the groups of a match, empty for a group that takes no part in it. -/
structure HostMatch where
  scheme : Str := []
  address : Str := []
  name : Str := []
  port : Str := []
deriving DecidableEq, Repr

/-- `(?::(\d+))?` up to the end of the string. -/
def matchPort : Str → Option Str
  | [] => some []
  | ':' :: ds => if ds ≠ [] ∧ ds.all Char.isDigit then some ds else none
  | _ => none

/-- `\[([\d:]+)\](?::(\d+))?` -/
def matchLiteral : Str → Option HostMatch
  | '[' :: rest =>
    match rest.dropWhile isAddressChar with
    | ']' :: tail =>
      if rest.takeWhile isAddressChar = [] then none
      else (matchPort tail).map fun port => { address := rest.takeWhile isAddressChar, port }
    | _ => none
  | _ => none

/-- `([^:/?#]+)(?::(\d+))?` -/
def matchName (s : Str) : Option HostMatch :=
  if s.takeWhile isHostChar = [] then none
  else (matchPort (s.dropWhile isHostChar)).map fun port => { name := s.takeWhile isHostChar, port }

/-- Both forms of a host, the literal one first. -/
def matchHost (s : Str) : Option HostMatch := (matchLiteral s).or (matchName s)

/-- The pattern with its scheme. -/
def matchScheme (s : Str) : Option HostMatch :=
  match s.dropWhile Char.isLower with
  | ':' :: '/' :: '/' :: rest =>
    if s.takeWhile Char.isLower = [] then none
    else (matchHost rest).map fun m => { m with scheme := s.takeWhile Char.isLower }
  | _ => none

/-- `std::regex_match` of the whole address. -/
def regexMatch (s : Str) : Option HostMatch := (matchScheme s).or (matchHost s)

/-! ### The constructors -/

/-- `httplib::ClientImpl`, or an `SSLClient` where it uses TLS. -/
structure ClientImpl where
  host : Str
  port : ℤ
  isSsl : Bool
  keyPair : Option MTLSKeyPair := none
  serverCertificateVerification : Bool := true
deriving DecidableEq, Repr

/-- The name that is looked up for a connection. -/
def ClientImpl.node (impl : ClientImpl) : Str := cstr impl.host

/-- `httplib::Client`, whose implementation may be missing. -/
structure Client where
  impl : Option ClientImpl := none
  isSsl : Bool := false
deriving DecidableEq, Repr

/-- The exception for a scheme that is not supported. -/
def unsupportedScheme (scheme : Str) : StdException :=
  .invalidArgument ("'".toList ++ scheme ++ "' scheme is not supported.".toList)

namespace HostMatch

/-- The address without its brackets, or the name. -/
def host (m : HostMatch) : Str := if m.address = [] then m.name else m.address

/-- The port that is written, or else the default one. -/
def portNumber (m : HostMatch) (default : ℤ) : Except StdException ℤ :=
  if m.port = [] then .ok default else stoi m.port

end HostMatch

namespace Client

/-- The constructor without a key pair. -/
def new (schemeHostPort : Str) : Except StdException Client :=
  match regexMatch schemeHostPort with
  | some m =>
    if m.scheme ≠ [] ∧ m.scheme ≠ "http".toList ∧ m.scheme ≠ "https".toList then
      .error (unsupportedScheme m.scheme)
    else do
      let isSsl := decide (m.scheme = "https".toList)
      let port ← m.portNumber (if isSsl then 443 else 80)
      return { impl := some { host := cstr m.host, port, isSsl }, isSsl }
  | none => return { impl := some { host := schemeHostPort, port := 80, isSsl := false } }

/-- The constructor with a key pair. -/
def newWithKeyPair (schemeHostPort : Str) (keyPair : MTLSKeyPair) : Except StdException Client :=
  match regexMatch schemeHostPort with
  | some m =>
    if m.scheme ≠ [] ∧ m.scheme ≠ "https".toList then .error (unsupportedScheme m.scheme)
    else do
      let port ← m.portNumber 443
      return { impl := some { host := cstr m.host, port, isSsl := true, keyPair := some keyPair },
               isSsl := true }
  | none => return {}

/-- `enable_server_certificate_verification`, through the implementation. -/
def enableServerCertificateVerification (enabled : Bool) (cli : Client) :
    Except (Fault StdException) Client :=
  match cli.impl with
  | some impl => .ok { cli with impl := some { impl with serverCertificateVerification := enabled } }
  | none => .error .undefined

end Client

/-! ### What the pattern takes -/

/-- The text of an optional port. -/
def portText (port : Str) : Str := if port = [] then [] else ':' :: port

/-- What matches a port is a colon with digits behind it. -/
theorem matchPort_sound {s port : Str} (h : matchPort s = some port) :
    s = portText port ∧ ∀ c ∈ port, c.isDigit = true := by
  unfold matchPort at h
  split at h
  · obtain rfl := Option.some.inj h
    exact ⟨rfl, fun c hc => absurd hc List.not_mem_nil⟩
  next ds =>
    obtain ⟨⟨hne, hdigits⟩, hds⟩ := Option.ite_none_right_eq_some.mp h
    obtain rfl := Option.some.inj hds
    exact ⟨(if_neg hne).symm, List.all_eq_true.mp hdigits⟩
  · cases h

/-- The two ways in which a host and a port match a text. -/
structure IsMatch (s : Str) (m : HostMatch) : Prop where
  scheme : m.scheme = []
  digits : ∀ c ∈ m.port, c.isDigit = true
  host : (m.name = [] ∧ m.address ≠ [] ∧ (∀ c ∈ m.address, isAddressChar c = true) ∧
      s = '[' :: (m.address ++ [']']) ++ portText m.port) ∨
    (m.address = [] ∧ m.name ≠ [] ∧ (∀ c ∈ m.name, isHostChar c = true) ∧
      s = m.name ++ portText m.port)

/-- What matches a literal has the form of a match. -/
theorem matchLiteral_sound {s : Str} {m : HostMatch} (h : matchLiteral s = some m) : IsMatch s m := by
  unfold matchLiteral at h
  split at h
  next rest =>
    split at h
    next tail hclose =>
      obtain ⟨hne, hmatch⟩ := Option.ite_none_left_eq_some.mp h
      obtain ⟨port, hport, rfl⟩ := Option.map_eq_some_iff.mp hmatch
      obtain ⟨htail, hdigits⟩ := matchPort_sound hport
      refine ⟨rfl, hdigits, Or.inl ⟨rfl, hne, fun _ => List.mem_takeWhile_imp, ?_⟩⟩
      have hsplit : rest = rest.takeWhile isAddressChar ++ ']' :: portText port := by
        rw [← htail, ← hclose, List.takeWhile_append_dropWhile]
      simpa using hsplit
    · cases h
  · cases h

/-- What matches a name has the form of a match. -/
theorem matchName_sound {s : Str} {m : HostMatch} (h : matchName s = some m) : IsMatch s m := by
  obtain ⟨hne, hmatch⟩ := Option.ite_none_left_eq_some.mp h
  obtain ⟨port, hport, rfl⟩ := Option.map_eq_some_iff.mp hmatch
  obtain ⟨htail, hdigits⟩ := matchPort_sound hport
  refine ⟨rfl, hdigits, Or.inr ⟨rfl, hne, fun _ => List.mem_takeWhile_imp, ?_⟩⟩
  rw [← htail, List.takeWhile_append_dropWhile]

/-- What matches a host has the form of a match. -/
theorem matchHost_sound {s : Str} {m : HostMatch} (h : matchHost s = some m) : IsMatch s m := by
  rcases Option.or_eq_some_iff.mp h with hliteral | ⟨-, hname⟩
  · exact matchLiteral_sound hliteral
  · exact matchName_sound hname

/-- Hosts and ports hold no slash. -/
theorem IsMatch.slash_notMem {s : Str} {m : HostMatch} (h : IsMatch s m) : '/' ∉ s := by
  have hport : '/' ∉ portText m.port := by
    have hdigits : '/' ∉ m.port := fun hmem => absurd (h.digits '/' hmem) (by decide)
    unfold portText
    split
    · exact List.not_mem_nil
    · simpa using hdigits
  rcases h.host with ⟨-, -, hchars, rfl⟩ | ⟨-, -, hchars, rfl⟩
  · have haddress : '/' ∉ m.address := fun hmem => absurd (hchars '/' hmem) (by decide)
    simp [haddress, hport]
  · have hname : '/' ∉ m.name := fun hmem => absurd (hchars '/' hmem) (by decide)
    simp [hname, hport]

/-- Digits and colons may stand in brackets. -/
theorem isLiteralChar_of_isAddressChar {c : Char} (h : isAddressChar c = true) :
    isLiteralChar c = true := by
  simp only [isLiteralChar, Bool.and_eq_true, bne_iff_ne]
  refine ⟨⟨⟨?_, ?_⟩, ?_⟩, ?_⟩ <;> rintro rfl <;> exact absurd h (by decide)

/-- An address of a scheme and an authority matches with this scheme. -/
theorem regexMatch_sound {scheme authority : Str} {m : HostMatch} (hscheme : ':' ∉ scheme)
    (h : regexMatch (scheme ++ "://".toList ++ authority) = some m) :
    m.scheme = scheme ∧ scheme ≠ [] ∧ IsMatch authority { m with scheme := [] } := by
  rcases Option.or_eq_some_iff.mp h with hmatch | ⟨-, hhost⟩
  · unfold matchScheme at hmatch
    split at hmatch
    next rest hdrop =>
      obtain ⟨hne, hmatch⟩ := Option.ite_none_left_eq_some.mp hmatch
      obtain ⟨m', hm', rfl⟩ := Option.map_eq_some_iff.mp hmatch
      have hsplit : (scheme ++ "://".toList ++ authority).takeWhile Char.isLower ++
          ':' :: '/' :: '/' :: rest = scheme ++ ':' :: '/' :: '/' :: authority := by
        rw [← hdrop, List.takeWhile_append_dropWhile]
        simp
      have hcolon : ∀ c ∈ (scheme ++ "://".toList ++ authority).takeWhile Char.isLower,
          decide (c ≠ ':') = true := by
        intro c hc
        refine decide_eq_true fun heq => ?_
        exact absurd (List.mem_takeWhile_imp (heq ▸ hc)) (by decide)
      have hcolon' : ∀ c ∈ scheme, decide (c ≠ ':') = true := fun c hc =>
        decide_eq_true fun heq => hscheme (heq ▸ hc)
      have hstops : ∀ t : Str, Stops (fun c => decide (c ≠ ':')) (':' :: t) :=
        fun t => stops_cons_iff.mpr (by simp)
      obtain ⟨htake, hrest⟩ := run_unique hsplit hcolon (hstops _) hcolon' (hstops _)
      obtain rfl : rest = authority := by simpa using hrest
      have hmatched := matchHost_sound hm'
      exact ⟨htake, htake ▸ hne, ⟨rfl, hmatched.digits, hmatched.host⟩⟩
    · cases hmatch
  · exact absurd (by simp) (matchHost_sound hhost).slash_notMem

/-! ### Ports -/

/-- The number of the port that is written, or else the default one. -/
def HostMatch.number (m : HostMatch) (default : ℕ) : ℕ :=
  if m.port = [] then default else digitsValue m.port

section Port

variable {m : HostMatch} (h : ∀ c ∈ m.port, c.isDigit = true) (default : ℕ)

include h

/-- A port is read when it fits an `int`. -/
theorem portNumber_of_le (hle : (digitsValue m.port : ℤ) ≤ intMax) :
    m.portNumber default = .ok (m.number default : ℤ) := by
  unfold HostMatch.portNumber HostMatch.number
  by_cases hempty : m.port = []
  · rw [if_pos hempty, if_pos hempty]
  · have hmin : intMin ≤ (digitsValue m.port : ℤ) := le_trans (by decide) (Int.natCast_nonneg _)
    simp only [if_neg hempty, stoi, strtol_digits hempty h, hmin, hle, and_self, if_true]

/-- A greater port is refused. -/
theorem portNumber_of_gt (hgt : intMax < digitsValue m.port) :
    m.portNumber default = .error (.outOfRange "stoi".toList) := by
  have hne : m.port ≠ [] := by
    intro hempty
    rw [hempty] at hgt
    exact absurd hgt (by decide)
  simp only [HostMatch.portNumber, if_neg hne, stoi, strtol_digits hne h, not_le.mpr hgt, and_false,
    if_false]

end Port

/-! ### What the constructors make of a match -/

namespace Client

variable {s : Str} {m : HostMatch}

/-- A text that does not match is the host itself, at port 80 and without TLS. -/
theorem new_of_none (h : regexMatch s = none) :
    new s = .ok { impl := some { host := s, port := 80, isSsl := false } } := by
  rw [new, h]
  rfl

/-- With a key pair a text that does not match gives no implementation. -/
theorem newWithKeyPair_of_none (h : regexMatch s = none) (keyPair : MTLSKeyPair) :
    newWithKeyPair s keyPair = .ok {} := by
  rw [newWithKeyPair, h]
  rfl

section Match

variable (h : regexMatch s = some m)

include h

/-- Any other scheme than the two is thrown. -/
theorem new_of_refused (hne : m.scheme ≠ [])
    (hrefused : m.scheme ≠ "http".toList ∧ m.scheme ≠ "https".toList) :
    new s = .error (unsupportedScheme m.scheme) := by
  rw [new, h]
  exact if_pos ⟨hne, hrefused⟩

/-- Without a key pair both schemes are taken, and none at all. -/
theorem new_of_not_refused
    (hnot : ¬(m.scheme ≠ [] ∧ m.scheme ≠ "http".toList ∧ m.scheme ≠ "https".toList)) :
    new s = (m.portNumber (if m.scheme = "https".toList then 443 else 80)).map fun port =>
      { impl := some { host := cstr m.host, port, isSsl := decide (m.scheme = "https".toList) },
        isSsl := decide (m.scheme = "https".toList) } := by
  rw [new, h]
  refine (if_neg hnot).trans ?_
  simp only [decide_eq_true_eq]
  cases m.portNumber (if m.scheme = "https".toList then 443 else 80) <;> rfl

/-- With a key pair any other scheme than https is thrown. -/
theorem newWithKeyPair_of_refused (hne : m.scheme ≠ []) (hrefused : m.scheme ≠ "https".toList)
    (keyPair : MTLSKeyPair) :
    newWithKeyPair s keyPair = .error (unsupportedScheme m.scheme) := by
  rw [newWithKeyPair, h]
  exact if_pos ⟨hne, hrefused⟩

/-- With a key pair the scheme https is taken. -/
theorem newWithKeyPair_of_supported (hsupported : m.scheme = "https".toList)
    (keyPair : MTLSKeyPair) :
    newWithKeyPair s keyPair = (m.portNumber 443).map fun port =>
      { impl := some { host := cstr m.host, port, isSsl := true, keyPair := some keyPair },
        isSsl := true } := by
  rw [newWithKeyPair, h]
  refine (if_neg fun hrefused => hrefused.2 hsupported).trans ?_
  cases m.portNumber 443 <;> rfl

end Match

/-- The plain client is never without an implementation. -/
theorem exists_impl_of_new {cli : Client} (h : new s = .ok cli) : ∃ impl, cli.impl = some impl := by
  cases hmatch : regexMatch s with
  | none =>
    rw [new_of_none hmatch] at h
    obtain rfl := Except.ok.inj h
    exact ⟨_, rfl⟩
  | some m =>
    by_cases hrefused : m.scheme ≠ [] ∧ m.scheme ≠ "http".toList ∧ m.scheme ≠ "https".toList
    · rw [new_of_refused hmatch hrefused.1 hrefused.2] at h
      cases h
    · rw [new_of_not_refused hmatch hrefused] at h
      cases hport : m.portNumber (if m.scheme = "https".toList then 443 else 80) with
      | error e =>
        rw [hport] at h
        cases h
      | ok port =>
        rw [hport] at h
        obtain rfl := Except.ok.inj h
        exact ⟨_, rfl⟩

end Client

end Up2date.Unix
