import Up2date.Ddi.Attempts
import Up2date.Modules.UnixClient

/-!
# Clients on Unix

An accepted URI is more than the client on Unix can take. A client of the right host, port and
kind of connection is made, or none, when the address matches the pattern of the client, and
its host is a name without user information or an address of digits and colons. Of another
address the plain client makes a host, and the client with a key pair has no implementation.
-/

namespace Up2date.Ddi

open Cxx Uri Httpclient Unix

/-- `newHttpClient` with the client for Unix. -/
def newUnixClient (client : HawkbitCommunicationClient) (hostEndpoint : URI) :
    Except (Fault StdException) Unix.Client :=
  if client.mTLSKeypair.isSet then
    (Unix.Client.newWithKeyPair (baseAddress hostEndpoint)
      ⟨client.mTLSKeypair.crt, client.mTLSKeypair.key⟩).mapError Fault.thrown
  else do
    let cli ← (Unix.Client.new (baseAddress hostEndpoint)).mapError Fault.thrown
    cli.enableServerCertificateVerification client.serverCertificateVerify

/-- What an environment with the client for Unix makes of an address. -/
def connectOnUnix (endpoint : Str) : Option MTLSKeyPair → Except StdException Unit
  | none => (Unix.Client.new endpoint).map fun _ => ()
  | some keyPair => (Unix.Client.newWithKeyPair endpoint keyPair).map fun _ => ()

/-- In an environment with the client for Unix a request throws when its client does. -/
theorem newHttpClient_throws_iff {env : Environment} (hconnect : ∀ t, env.connect t = connectOnUnix)
    (x : Exchange) (a : Attempt) (uri : URI) (w : World) (e : StdException) :
    newHttpClient env x a uri w = .error (.thrown (.std e)) w ↔
      newUnixClient w.client uri = .error (.thrown e) := by
  rw [newHttpClient_apply, hconnect]
  unfold newUnixClient HawkbitCommunicationClient.keyPair
  cases w.client.mTLSKeypair.isSet with
  | true =>
    rw [if_pos rfl, if_pos rfl, connectOnUnix]
    cases Unix.Client.newWithKeyPair (baseAddress uri)
      ⟨w.client.mTLSKeypair.crt, w.client.mTLSKeypair.key⟩ with
    | error e' => simp [Except.map, Except.mapError]
    | ok cli => simp [Except.map, Except.mapError]
  | false =>
    rw [if_neg Bool.false_ne_true, if_neg Bool.false_ne_true, connectOnUnix]
    cases hnew : Unix.Client.new (baseAddress uri) with
    | error e' => simp [Except.map, Except.mapError, bind, Except.bind]
    | ok cli =>
      obtain ⟨impl, himpl⟩ := Unix.Client.exists_impl_of_new hnew
      simp [Except.map, Except.mapError, bind, Except.bind, himpl,
        Unix.Client.enableServerCertificateVerification]

/-- An implementation connects to the host and the port of a URI, with TLS for `https` only. -/
def ConnectsTo (uri : URI) (impl : ClientImpl) : Prop :=
  (∃ port : ℕ, uri.Names impl.node port ∧ impl.port = port) ∧
    (impl.isSsl = true ↔ uri.scheme = "https".toList)

/-- A client has an implementation that connects as the URI says. -/
def Serves (uri : URI) (cli : Unix.Client) : Prop :=
  ∃ impl, cli.impl = some impl ∧ ConnectsTo uri impl

/-- Making a client throws, or gives one that serves a URI. -/
def ServesOrThrows (uri : URI) : Except (Fault StdException) Unix.Client → Prop
  | .ok cli => Serves uri cli
  | .error (.thrown _) => True
  | .error .undefined => False

/-- The schemes of the constructors. -/
def Supports (keyPair : Bool) (scheme : Str) : Prop :=
  scheme = "https".toList ∨ keyPair = false ∧ scheme = "http".toList

/-- The address matches, and either its scheme or port is refused, or the port is one of 16 bits
and the name of the host holds no user information. -/
def HandledOnUnix (keyPair : Bool) (uri : URI) : Prop :=
  ∃ m, Unix.regexMatch (baseAddress uri) = some m ∧
    (¬Supports keyPair m.scheme ∨ intMax < digitsValue m.port ∨
      digitsValue m.port < 2 ^ 16 ∧ ∀ c ∈ m.name, isLiteralChar c = true)

/-! ### The host and the port of a match -/

/-- The port of an authority, which is written when the match has one. -/
def portOf (m : HostMatch) : Option Str := if m.port = [] then none else some m.port

/-- The text of a port is a colon with its digits, or nothing. -/
theorem portText_eq (m : HostMatch) : portText m.port = delimited ':' (portOf m) := by
  unfold portText portOf
  split <;> rfl

/-- The port of an authority has digits only. -/
theorem portOf_digits {m : HostMatch} (h : ∀ c ∈ m.port, c.isDigit = true) :
    ∀ p, portOf m = some p → ∀ c ∈ p, c.isDigit = true := by
  intro p hp
  obtain ⟨-, hp⟩ := Option.ite_none_left_eq_some.mp hp
  exact Option.some.inj hp ▸ h

/-- An authority without a port has the empty one. -/
theorem getD_portOf (m : HostMatch) : (portOf m).getD [] = m.port := by
  unfold portOf
  split
  next hempty => exact hempty.symm
  · rfl

section Match

variable {uri : URI} {m : HostMatch} (hmatch : IsMatch uri.authority { m with scheme := [] })

include hmatch

/-- A match without user information is an authority with its host and port. -/
theorem exists_authority (hname : ∀ c ∈ m.name, isLiteralChar c = true) :
    ∃ a : Authority, a.text = uri.authority ∧ a.host.address = m.host ∧ a.port = portOf m := by
  have hdigits := portOf_digits hmatch.digits
  have hnone : ∀ u, (none : Option Str) = some u → ∀ c ∈ u, isUserChar c = true :=
    fun u hu => by cases hu
  obtain ⟨-, hne, hchars, htext⟩ | ⟨hempty, hne, hchars, htext⟩ := hmatch.host
  · have hliteral : ∀ c ∈ m.address, isLiteralChar c = true := fun c hc =>
      isLiteralChar_of_isAddressChar (hchars c hc)
    refine ⟨⟨none, .literal m.address hliteral, portOf m, hnone, hdigits⟩, ?_,
      (if_neg hne).symm, rfl⟩
    rw [htext, portText_eq]
    rfl
  · have hnameChar : ∀ c ∈ m.name, isNameChar c = true := by
      intro c hc
      have hchar := hchars c hc
      simp only [isHostChar, Bool.and_eq_true] at hchar
      simp only [isNameChar, hname c hc, hchar.1.1.1, Bool.and_self]
    refine ⟨⟨none, .name m.name hne hnameChar, portOf m, hnone, hdigits⟩, ?_,
      (if_pos hempty).symm, rfl⟩
    rw [htext, portText_eq]
    rfl

/-- The name of a match is the host of an authority only if it holds no user information. -/
theorem isLiteralChar_of_address {a : Authority} (htext : a.text = uri.authority)
    (haddress : a.host.address = cstr m.host) : ∀ c ∈ m.name, isLiteralChar c = true := by
  obtain ⟨hempty, -, -, -⟩ | ⟨hempty, hne, hchars, hauthority⟩ := hmatch.host
  · intro c hc
    rw [hempty] at hc
    cases hc
  · have hnul : nul ∉ m.name := by
      intro hmem
      refine a.nul_notMem ?_
      rw [htext, hauthority]
      exact List.mem_append_left _ hmem
    have hhost : m.host = m.name := if_pos hempty
    rw [hhost, cstr_of_notMem hnul] at haddress
    rw [← haddress]
    exact a.host.isLiteralChar_of_mem

end Match

/-- A default port belongs to a scheme without null characters. -/
theorem nul_notMem_of_defaultPort {scheme : Str} {default : ℕ}
    (h : defaultPort scheme = some default) : nul ∉ scheme := by
  unfold defaultPort at h
  split at h
  next hhttp => exact hhttp ▸ by decide
  · split at h
    next hhttps => exact hhttps ▸ by decide
    · cases h

/-- A client of a match connects as the URI says when its port has 16 bits and its name holds no
user information. -/
theorem connectsTo_iff {uri : URI} {m : HostMatch}
    (hmatch : IsMatch uri.authority { m with scheme := [] }) {default : ℕ}
    (hdefault : defaultPort uri.scheme = some default) (hsmall : default < 2 ^ 16) {impl : ClientImpl}
    (hhost : impl.host = cstr m.host) (hport : impl.port = m.number default)
    (hssl : impl.isSsl = true ↔ uri.scheme = "https".toList) :
    ConnectsTo uri impl ↔ digitsValue m.port < 2 ^ 16 ∧ ∀ c ∈ m.name, isLiteralChar c = true := by
  have hnode : impl.node = cstr m.host := by rw [ClientImpl.node, hhost, cstr_cstr]
  constructor
  · intro h
    obtain ⟨⟨port, ⟨-, hlt, a, htext, haddress, -⟩, hnumber⟩, -⟩ := h
    refine ⟨?_, isLiteralChar_of_address hmatch htext (haddress.trans hnode)⟩
    by_cases hempty : m.port = []
    · rw [hempty]
      decide
    · have heq : m.number default = port := Int.ofNat.inj (hport.symm.trans hnumber)
      rwa [← heq, HostMatch.number, if_neg hempty] at hlt
  · intro h
    obtain ⟨hlt, hname⟩ := h
    obtain ⟨a, htext, haddress, haport⟩ := exists_authority hmatch hname
    have hnul : nul ∉ m.host := fun hmem =>
      absurd (a.host.isLiteralChar_of_mem nul (haddress ▸ hmem)) (by decide)
    refine ⟨⟨m.number default, ⟨nul_notMem_of_defaultPort hdefault, ?_, a, htext, ?_, ?_⟩, hport⟩,
      hssl⟩
    · unfold HostMatch.number
      split <;> assumption
    · rw [haddress, hnode, cstr_of_notMem hnul]
    · rw [Authority.portNumber, haport, getD_portOf, HostMatch.number, hdefault]
      split <;> rfl

/-! ### The clients of accepted URIs -/

/-- What the parser accepts has no colon in its scheme. -/
theorem colon_notMem_scheme {s : Str} {uri : URI} (h : URI.fromString s = .ok uri) :
    ':' ∉ uri.scheme := by
  obtain ⟨p, -, -, rfl⟩ := fromString_eq_ok_iff.mp h
  intro hmem
  cases hscheme : p.scheme with
  | none =>
    rw [Parts.toURI, hscheme] at hmem
    cases hmem
  | some scheme =>
    rw [Parts.toURI, hscheme] at hmem
    exact absurd ((p.isScheme scheme hscheme).2 ':' hmem) (by decide)

/-- An address without a match is not the host of its URI. -/
theorem not_connectsTo_baseAddress (uri : URI) {impl : ClientImpl}
    (hhost : impl.host = baseAddress uri) : ¬ConnectsTo uri impl := by
  intro h
  obtain ⟨⟨port, ⟨hscheme, -, a, htext, haddress, -⟩, -⟩, -⟩ := h
  have hnul : nul ∉ baseAddress uri := by
    have hauthority : nul ∉ uri.authority := htext ▸ a.nul_notMem
    have hslashes : nul ∉ "://".toList := by decide
    simp only [baseAddress, List.mem_append, hscheme, hauthority, hslashes, or_self,
      not_false_eq_true]
  have hlength := a.address_length_le
  rw [haddress, ClientImpl.node, hhost, cstr_of_notMem hnul, htext, baseAddress] at hlength
  simp only [List.length_append] at hlength
  have hslashes : "://".toList.length = 3 := rfl
  omega

/-- What is made of a match is refused, or connects as the URI says. -/
theorem servesOrThrows_iff {uri : URI} {m : HostMatch} {keyPair : Bool}
    {result : Except (Fault StdException) Unix.Client} {default : ℕ}
    (hmatch : IsMatch uri.authority { m with scheme := [] })
    (hrefused : ¬Supports keyPair m.scheme → ∃ e, result = .error (.thrown e))
    (hdefault : Supports keyPair m.scheme → defaultPort uri.scheme = some default ∧ default < 2 ^ 16)
    (hthrown : ∀ e, Supports keyPair m.scheme → m.portNumber default = .error e →
      result = .error (.thrown e))
    (hmade : ∀ port, Supports keyPair m.scheme → m.portNumber default = .ok port →
      ∃ cli impl, result = .ok cli ∧ cli.impl = some impl ∧ impl.host = cstr m.host ∧
        impl.port = port ∧ (impl.isSsl = true ↔ uri.scheme = "https".toList)) :
    ServesOrThrows uri result ↔ ¬Supports keyPair m.scheme ∨ intMax < digitsValue m.port ∨
      digitsValue m.port < 2 ^ 16 ∧ ∀ c ∈ m.name, isLiteralChar c = true := by
  by_cases hsupports : Supports keyPair m.scheme
  · by_cases hle : (digitsValue m.port : ℤ) ≤ intMax
    · obtain ⟨hport, hsmall⟩ := hdefault hsupports
      obtain ⟨cli, impl, rfl, himpl, hhost, hnumber, hssl⟩ :=
        hmade _ hsupports (portNumber_of_le hmatch.digits default hle)
      have hserves : Serves uri cli ↔ ConnectsTo uri impl := by
        constructor
        · intro h
          obtain ⟨impl', himpl', hconnects⟩ := h
          obtain rfl := Option.some.inj (himpl.symm.trans himpl')
          exact hconnects
        · exact fun h => ⟨impl, himpl, h⟩
      have hiff := connectsTo_iff hmatch hport hsmall hhost hnumber hssl
      simp only [hsupports, not_true_eq_false, not_lt.mpr hle, false_or]
      exact hserves.trans hiff
    · rw [hthrown _ hsupports (portNumber_of_gt hmatch.digits default (not_le.mp hle))]
      exact iff_of_true trivial (Or.inr (Or.inl (not_le.mp hle)))
  · obtain ⟨e, rfl⟩ := hrefused hsupports
    exact iff_of_true trivial (Or.inl hsupports)

/-- A URI whose base address matches is handled exactly when its scheme is refused, its port is out
of the bounds of an int, or port and name are right. -/
theorem handledOnUnix_iff {uri : URI} {m : HostMatch}
    (h : Unix.regexMatch (baseAddress uri) = some m) (keyPair : Bool) :
    HandledOnUnix keyPair uri ↔ ¬Supports keyPair m.scheme ∨ intMax < digitsValue m.port ∨
      digitsValue m.port < 2 ^ 16 ∧ ∀ c ∈ m.name, isLiteralChar c = true := by
  unfold HandledOnUnix
  simp only [h, Option.some.injEq, exists_eq_left']

/-- A URI whose base address does not match is not handled. -/
theorem not_handledOnUnix {uri : URI} (h : Unix.regexMatch (baseAddress uri) = none)
    (keyPair : Bool) : ¬HandledOnUnix keyPair uri := by
  unfold HandledOnUnix
  simp only [h, reduceCtorEq, false_and, exists_false, not_false_eq_true]

section Match

variable {uri : URI} {m : HostMatch} (hscheme : m.scheme = uri.scheme) (hne : m.scheme ≠ [])
  (hmatch : IsMatch uri.authority { m with scheme := [] })
  (h : Unix.regexMatch (baseAddress uri) = some m)

include hscheme hne hmatch h

/-- The client with a key pair of a URI that matches. -/
theorem servesOrThrows_newWithKeyPair (kp : MTLSKeyPair) :
    ServesOrThrows uri ((Unix.Client.newWithKeyPair (baseAddress uri) kp).mapError Fault.thrown) ↔
      HandledOnUnix true uri := by
  have hhttps : Supports true m.scheme ↔ m.scheme = "https".toList := by simp [Supports]
  rw [handledOnUnix_iff h]
  refine @servesOrThrows_iff uri m true _ 443 hmatch (fun hrefused => ?_) (fun hsupports => ?_)
    (fun e hsupports herror => ?_) fun port hsupports hport => ?_
  · rw [Unix.Client.newWithKeyPair_of_refused h hne fun heq => hrefused (hhttps.mpr heq)]
    exact ⟨_, rfl⟩
  · rw [← hscheme, hhttps.mp hsupports]
    exact ⟨rfl, by decide⟩
  · have hport : m.portNumber 443 = .error e := herror
    rw [Unix.Client.newWithKeyPair_of_supported h (hhttps.mp hsupports), hport]
    rfl
  · have hport : m.portNumber 443 = .ok port := hport
    rw [Unix.Client.newWithKeyPair_of_supported h (hhttps.mp hsupports), hport]
    refine ⟨_, _, rfl, rfl, rfl, rfl, ?_⟩
    rw [← hscheme, hhttps.mp hsupports]
    exact iff_of_true rfl rfl

/-- The client without a key pair of a URI that matches. -/
theorem servesOrThrows_new (verify : Bool) :
    ServesOrThrows uri (do
      let cli ← (Unix.Client.new (baseAddress uri)).mapError Fault.thrown
      cli.enableServerCertificateVerification verify) ↔ HandledOnUnix false uri := by
  have hweb : Supports false m.scheme ↔ m.scheme = "https".toList ∨ m.scheme = "http".toList := by
    simp [Supports]
  have hnot : Supports false m.scheme →
      ¬(m.scheme ≠ [] ∧ m.scheme ≠ "http".toList ∧ m.scheme ≠ "https".toList) :=
    fun hsupports hrefused => (hweb.mp hsupports).elim hrefused.2.2 hrefused.2.1
  rw [handledOnUnix_iff h]
  let default : ℕ := if m.scheme = "https".toList then 443 else 80
  have hcast : (default : ℤ) = if m.scheme = "https".toList then 443 else 80 := by
    simp only [default]
    split <;> rfl
  refine @servesOrThrows_iff uri m false _ default hmatch (fun hrefused => ?_) (fun hsupports => ?_)
    (fun e hsupports herror => ?_) fun port hsupports hport => ?_
  · rw [Unix.Client.new_of_refused h hne ⟨fun heq => hrefused (hweb.mpr (Or.inr heq)),
      fun heq => hrefused (hweb.mpr (Or.inl heq))⟩]
    exact ⟨_, rfl⟩
  · simp only [default, ← hscheme]
    rcases hweb.mp hsupports with hhttps | hhttp
    · rw [hhttps]
      exact ⟨rfl, by decide⟩
    · rw [hhttp]
      exact ⟨rfl, by decide⟩
  · rw [Unix.Client.new_of_not_refused h (hnot hsupports), ← hcast, herror]
    rfl
  · rw [Unix.Client.new_of_not_refused h (hnot hsupports), ← hcast, hport]
    refine ⟨_, _, rfl, rfl, rfl, rfl, ?_⟩
    rw [← hscheme]
    exact decide_eq_true_iff

end Match

/-- The client of a URI throws, or serves it, exactly when the URI is handled. -/
theorem unixClientServes_iff {s : Str} {uri : URI} (h : URI.fromString s = .ok uri)
    (client : HawkbitCommunicationClient) :
    ServesOrThrows uri (newUnixClient client uri) ↔ HandledOnUnix client.mTLSKeypair.isSet uri := by
  have hcolon := colon_notMem_scheme h
  unfold newUnixClient
  cases hkeyPair : client.mTLSKeypair.isSet with
  | true =>
    rw [if_pos rfl]
    cases hmatch : Unix.regexMatch (baseAddress uri) with
    | none =>
      refine iff_of_false ?_ (not_handledOnUnix hmatch _)
      rw [Unix.Client.newWithKeyPair_of_none hmatch]
      intro hserves
      obtain ⟨impl, himpl, -⟩ := hserves
      cases himpl
    | some m =>
      obtain ⟨hscheme, hne, hhost⟩ := regexMatch_sound hcolon hmatch
      exact servesOrThrows_newWithKeyPair hscheme (hscheme ▸ hne) hhost hmatch _
  | false =>
    cases hmatch : Unix.regexMatch (baseAddress uri) with
    | none =>
      refine iff_of_false ?_ (not_handledOnUnix hmatch _)
      rw [Unix.Client.new_of_none hmatch]
      intro hserves
      obtain ⟨impl, himpl, hconnects⟩ := hserves
      obtain rfl := Option.some.inj himpl
      exact not_connectsTo_baseAddress uri rfl hconnects
    | some m =>
      obtain ⟨hscheme, hne, hhost⟩ := regexMatch_sound hcolon hmatch
      exact servesOrThrows_new hscheme (hscheme ▸ hne) hhost hmatch _

/-- A name with a port is served with a key pair. -/
theorem unixClientServes_port :
    ServesOrThrows ({ scheme := "https".toList, authority := "h:8443".toList } : URI)
      (newUnixClient { mTLSKeypair := { isSet := true } }
        { scheme := "https".toList, authority := "h:8443".toList }) := by
  have haccepted : URI.fromString "https://h:8443".toList =
      .ok { scheme := "https".toList, authority := "h:8443".toList } := by decide
  refine (unixClientServes_iff haccepted _).mpr ⟨⟨"https".toList, [], "h".toList, "8443".toList⟩, ?_⟩
  exact ⟨by decide, Or.inr (Or.inr ⟨by decide, List.all_eq_true.mp (by decide)⟩)⟩

/-- A scheme in upper case leaves a client with a key pair without an implementation. -/
theorem uppercase_without_implementation :
    ¬∀ s uri client, URI.fromString s = .ok uri → ServesOrThrows uri (newUnixClient client uri) := by
  intro h
  have hserves := h "HTTPS://h".toList { scheme := "HTTPS".toList, authority := "h".toList }
    { mTLSKeypair := { isSet := true } } (by decide)
  have hmade : newUnixClient { mTLSKeypair := { isSet := true } }
      { scheme := "HTTPS".toList, authority := "h".toList } = .ok {} := by decide +kernel
  rw [hmade] at hserves
  obtain ⟨impl, himpl, -⟩ := hserves
  cases himpl

end Up2date.Ddi
