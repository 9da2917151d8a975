import Up2date.Modules.UriGrammar

/-!
# The host and the port of a URI

An authority is optional user information, a host and an optional port, where the host is a
name or an address in brackets. No other parts have the same text, so that the host and the
port a URI names are determined.
-/

namespace Up2date.Uri

open Cxx

/-- What an address in brackets may hold. -/
def isLiteralChar (c : Char) : Bool := c != '@' && c != '[' && c != ']' && c != nul

/-- What a name may hold. -/
def isNameChar (c : Char) : Bool := c != ':' && isLiteralChar c

/-- What user information may hold. -/
def isUserChar (c : Char) : Bool := c != '@' && c != nul

/-- The host of an authority. -/
inductive AuthorityHost
  | name (text : Str) (ne_nil : text ≠ []) (chars : ∀ c ∈ text, isNameChar c = true)
  | literal (text : Str) (chars : ∀ c ∈ text, isLiteralChar c = true)

namespace AuthorityHost

/-- A host as it stands in an authority. -/
def text : AuthorityHost → Str
  | name text _ _ => text
  | literal text _ => '[' :: (text ++ [']'])

/-- What is connected to. -/
def address : AuthorityHost → Str
  | name text _ _ => text
  | literal text _ => text

end AuthorityHost

/-- The port for a scheme with none written. -/
def defaultPort (scheme : Str) : Option ℕ :=
  if scheme = "http".toList then some 80 else if scheme = "https".toList then some 443 else none

/-- The parts of an authority. -/
structure Authority where
  userInfo : Option Str
  host : AuthorityHost
  port : Option Str
  userInfo_chars : ∀ u, userInfo = some u → ∀ c ∈ u, isUserChar c = true
  port_digits : ∀ p, port = some p → ∀ c ∈ p, c.isDigit = true

namespace Authority

/-- User information as it is written before the host. -/
def userText : Option Str → Str
  | none => []
  | some u => u ++ ['@']

/-- An authority as it stands in a URI. -/
def text (a : Authority) : Str := userText a.userInfo ++ (a.host.text ++ delimited ':' a.port)

/-- The port that is written, or else the default one. -/
def portNumber (a : Authority) (scheme : Str) : Option ℕ :=
  if a.port.getD [] = [] then defaultPort scheme else some (digitsValue (a.port.getD []))

end Authority

/-- The URI names a host and a port. -/
def URI.Names (uri : URI) (host : Str) (port : ℕ) : Prop :=
  nul ∉ uri.scheme ∧ port < 2 ^ 16 ∧
    ∃ a : Authority, a.text = uri.authority ∧ a.host.address = host ∧
      a.portNumber uri.scheme = some port

/-! ### One host and one port -/

/-- The characters of a name may stand in a literal. -/
theorem isLiteralChar_of_isNameChar {c : Char} (h : isNameChar c = true) :
    isLiteralChar c = true := by
  simp only [isNameChar, Bool.and_eq_true] at h
  exact h.2

namespace AuthorityHost

/-- The address of a host has characters of a literal only. -/
theorem isLiteralChar_of_mem (host : AuthorityHost) :
    ∀ c ∈ host.address, isLiteralChar c = true := by
  cases host with
  | name text ne_nil chars => exact fun c hc => isLiteralChar_of_isNameChar (chars c hc)
  | literal text chars => exact chars

/-- Apart from the brackets, the text of a host is its address. -/
theorem mem_address (host : AuthorityHost) {c : Char} (hopen : c ≠ '[') (hclose : c ≠ ']')
    (h : c ∈ host.text) : c ∈ host.address := by
  cases host with
  | name text ne_nil chars => exact h
  | literal text chars => simpa [AuthorityHost.text, AuthorityHost.address, hopen, hclose] using h

/-- The texts of a host and a port determine them. -/
theorem text_append_inj {host host' : AuthorityHost} {port port' : Option Str}
    (h : host.text ++ delimited ':' port = host'.text ++ delimited ':' port') :
    host = host' ∧ port = port' := by
  have hname : ∀ p : Option Str, Stops isNameChar (delimited ':' p) :=
    stops_delimited (by decide)
  have hclose : ∀ p : Option Str, Stops isLiteralChar ([']'] ++ delimited ':' p) :=
    fun p => stops_cons_iff.mpr (by decide)
  have hopen : ∀ text rest rest' : Str, text ≠ [] → (∀ c ∈ text, isNameChar c = true) →
      text ++ rest ≠ '[' :: rest' := by
    intro text rest rest' hne hchars heq
    obtain ⟨c, tail, rfl⟩ := List.exists_cons_of_ne_nil hne
    obtain rfl : c = '[' := (List.cons.inj heq).1
    exact absurd (hchars '[' List.mem_cons_self) (by decide)
  cases host with
  | name text ne_nil chars =>
    cases host' with
    | name text' ne_nil' chars' =>
      obtain ⟨rfl, hport⟩ := run_unique h chars (hname port) chars' (hname port')
      exact ⟨rfl, delimited_injective ':' hport⟩
    | literal text' chars' => exact absurd h (hopen text _ _ ne_nil chars)
  | literal text chars =>
    cases host' with
    | name text' ne_nil' chars' => exact absurd h.symm (hopen text' _ _ ne_nil' chars')
    | literal text' chars' =>
      have hinner : text ++ ([']'] ++ delimited ':' port) =
          text' ++ ([']'] ++ delimited ':' port') := by
        rw [← List.append_assoc, ← List.append_assoc]
        exact (List.cons.inj h).2
      obtain ⟨rfl, hport⟩ := run_unique hinner chars (hclose port) chars' (hclose port')
      exact ⟨rfl, delimited_injective ':' (List.append_cancel_left hport)⟩

end AuthorityHost

namespace Authority

/-- Behind the user information there is no at sign. -/
theorem at_notMem (a : Authority) : '@' ∉ a.host.text ++ delimited ':' a.port := by
  have hdigits : ∀ p, a.port = some p → '@' ∉ p := fun p hp hmem =>
    absurd (a.port_digits p hp '@' hmem) (by decide)
  have hport : '@' ∉ delimited ':' a.port := by
    cases hp : a.port with
    | none => exact List.not_mem_nil
    | some p => simpa [delimited] using hdigits p hp
  have hhost : '@' ∉ a.host.text := by
    intro hmem
    have haddress := a.host.mem_address (by decide) (by decide) hmem
    exact absurd (a.host.isLiteralChar_of_mem '@' haddress) (by decide)
  simp [hhost, hport]

/-- There is no null character in an authority. -/
theorem nul_notMem (a : Authority) : nul ∉ a.text := by
  have huser : nul ∉ userText a.userInfo := by
    cases hu : a.userInfo with
    | none => exact List.not_mem_nil
    | some u =>
      have hmem : nul ∉ u := fun hmem => absurd (a.userInfo_chars u hu nul hmem) (by decide)
      have hat : nul ≠ '@' := by decide
      simp [userText, hmem, hat]
  have hport : nul ∉ delimited ':' a.port := by
    cases hp : a.port with
    | none => exact List.not_mem_nil
    | some p =>
      have hmem : nul ∉ p := fun hmem => absurd (a.port_digits p hp nul hmem) (by decide)
      have hcolon : nul ≠ ':' := by decide
      simp [delimited, hmem, hcolon]
  have hhost : nul ∉ a.host.text := by
    intro hmem
    have haddress := a.host.mem_address (by decide) (by decide) hmem
    exact absurd (a.host.isLiteralChar_of_mem nul haddress) (by decide)
  simp [text, huser, hhost, hport]

/-- What is connected to is no longer than the authority. -/
theorem address_length_le (a : Authority) : a.host.address.length ≤ a.text.length := by
  have hhost : a.host.address.length ≤ a.host.text.length := by
    cases a.host with
    | name text ne_nil chars => exact le_refl text.length
    | literal text chars =>
      simp only [AuthorityHost.address, AuthorityHost.text, List.length_cons, List.length_append]
      omega
  simp only [text, List.length_append]
  omega

/-- User information ends at the only at sign. -/
theorem userText_append_inj {u u' : Option Str} {rest rest' : Str}
    (h : userText u ++ rest = userText u' ++ rest')
    (hu : ∀ v, u = some v → ∀ c ∈ v, isUserChar c = true)
    (hu' : ∀ v, u' = some v → ∀ c ∈ v, isUserChar c = true) (hrest : '@' ∉ rest)
    (hrest' : '@' ∉ rest') : u = u' ∧ rest = rest' := by
  cases u with
  | none =>
    cases u' with
    | none => exact ⟨rfl, h⟩
    | some v' =>
      have hrest : '@' ∉ v' ++ ['@'] ++ rest' := h ▸ hrest
      exact absurd (by simp) hrest
  | some v =>
    cases u' with
    | none =>
      have hrest' : '@' ∉ v ++ ['@'] ++ rest := h.symm ▸ hrest'
      exact absurd (by simp) hrest'
    | some v' =>
      simp only [userText, List.append_assoc, List.singleton_append] at h
      have hstops : ∀ t : Str, Stops isUserChar ('@' :: t) :=
        fun t => stops_cons_iff.mpr (by decide)
      obtain ⟨rfl, htail⟩ := run_unique h (hu v rfl) (hstops rest) (hu' v' rfl) (hstops rest')
      exact ⟨rfl, (List.cons.inj htail).2⟩

/-- A text is that of one authority at most. -/
theorem text_injective : Function.Injective text := by
  intro a b h
  obtain ⟨huser, hrest⟩ := userText_append_inj h a.userInfo_chars b.userInfo_chars a.at_notMem
    b.at_notMem
  obtain ⟨hhost, hport⟩ := AuthorityHost.text_append_inj hrest
  cases a
  cases b
  simp_all

end Authority

/-- A URI names one host and one port at most. -/
theorem URI.Names.unique {uri : URI} {host host' : Str} {port port' : ℕ} (h : uri.Names host port)
    (h' : uri.Names host' port') : host = host' ∧ port = port' := by
  obtain ⟨-, -, a, ha, hhost, hport⟩ := h
  obtain ⟨-, -, b, hb, hhost', hport'⟩ := h'
  obtain rfl := Authority.text_injective (ha.trans hb.symm)
  exact ⟨hhost.symm.trans hhost', Option.some.inj (hport.symm.trans hport')⟩

end Up2date.Uri
