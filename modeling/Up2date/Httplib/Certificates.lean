import Up2date.Cxx.Indeterminate
import Up2date.Httplib.Exchanges
import Up2date.Httplib.HostNames
import Up2date.Modules.UnixClient

/-!
# The certificate of a server

`SSLClient` takes a connection when OpenSSL has verified the certificate of the server and the
certificate identifies the host. What OpenSSL finds in a handshake is a parameter. The address of
a host is written to one of two variables, and an address in a certificate is compared with both
of them, so that a comparison that fails with the one has read bytes of the other that nobody has
written.
-/

namespace Up2date.Httplib

open Cxx
open Httpclient (Error Failure)

/-! ### The certificate of a server -/

/-- An entry of `subjectAltName`. -/
inductive GeneralName
  | dns (name : Str)
  | ipAddress (bytes : Str)
  | other
deriving DecidableEq, Repr

/-- The names in a certificate; the common name as `X509_NAME_get_text_by_NID` gives it. -/
structure Certificate where
  altNames : Option (List GeneralName)
  commonName : Option Str
deriving DecidableEq, Repr

/-- `inet_pton` for `AF_INET6` and `AF_INET`. -/
structure InetPton where
  inet6 : Str → Option { bytes : Str // bytes.length = 16 }
  inet : Str → Option { bytes : Str // bytes.length = 4 }

/-- The address that a host is, in the variable of its family. -/
inductive HostAddress
  | inet6 (bytes : { bytes : Str // bytes.length = 16 })
  | inet (bytes : { bytes : Str // bytes.length = 4 })
deriving DecidableEq

namespace HostAddress

/-- `addr6`, if it was written. -/
def addr6 : HostAddress → Option Str
  | .inet6 bytes => some bytes
  | .inet _ => none

/-- `addr`, if it was written. -/
def addr : HostAddress → Option Str
  | .inet6 _ => none
  | .inet bytes => some bytes

/-- `addr_len` -/
def addrLen : HostAddress → ℕ
  | .inet6 _ => 16
  | .inet _ => 4

/-- The bytes of the address. -/
def bytes : HostAddress → Str
  | .inet6 bytes => bytes
  | .inet bytes => bytes

end HostAddress

/-- The calls of `inet_pton`, of which the second is made when the first one fails. -/
def InetPton.address (inetPton : InetPton) (host : Str) : Option HostAddress :=
  match inetPton.inet6 host with
  | some bytes => some (.inet6 bytes)
  | none => (inetPton.inet host).map .inet

/-- `!memcmp` of what was written to a variable with an entry, indeterminate where either of them
has fewer bytes. -/
def sameBytes (written : Option Str) (name : Str) (n : ℕ) : Option Bool :=
  match written with
  | some bytes =>
    if n ≤ bytes.length ∧ n ≤ name.length then some (bytes.take n == name.take n) else none
  | none => none

/-- The condition for an entry with an address. -/
def sameAddress (address : HostAddress) (name : Str) : Option Bool :=
  either (sameBytes address.addr6 name address.addrLen) (sameBytes address.addr name address.addrLen)

/-- The loop of `verify_host_with_subject_alt_name`. -/
def verifyAltNames (host : Str) (address : Option HostAddress) :
    List GeneralName → Option Bool → Option Bool
  | [], ipMatched => ipMatched
  | .dns name :: rest, ipMatched =>
    if address = none ∧ checkHostName host name = true then some true
    else verifyAltNames host address rest ipMatched
  | .ipAddress name :: rest, ipMatched =>
    match address with
    | none => verifyAltNames host none rest ipMatched
    | some address =>
      verifyAltNames host (some address) rest (either ipMatched (sameAddress address name))
  | .other :: rest, ipMatched => verifyAltNames host address rest ipMatched

/-- `verify_host_with_subject_alt_name` -/
def verifyHostWithSubjectAltName (inetPton : InetPton) (host : Str) (cert : Certificate) :
    Option Bool :=
  match cert.altNames with
  | none => some false
  | some names => verifyAltNames host (inetPton.address host) names (some false)

/-- `verify_host_with_common_name` -/
def verifyHostWithCommonName (host : Str) (cert : Certificate) : Bool :=
  match cert.commonName with
  | none => false
  | some name => checkHostName host name

/-- `verify_host` -/
def verifyHost (inetPton : InetPton) (host : Str) (cert : Certificate) : Option Bool :=
  either (verifyHostWithSubjectAltName inetPton host cert) (some (verifyHostWithCommonName host cert))

/-- A certificate identifies a host: by its name, by an entry that begins with its address if it
is one, or by the common name, whatever the other names are. -/
inductive Identifies (inetPton : InetPton) (cert : Certificate) (host : Str) : Prop
  | dns {names name} : cert.altNames = some names → .dns name ∈ names →
      inetPton.address host = none → Names name host → Identifies inetPton cert host
  | ipAddress {names bytes address} : cert.altNames = some names → .ipAddress bytes ∈ names →
      inetPton.address host = some address → address.bytes <+: bytes → Identifies inetPton cert host
  | commonName {name} : cert.commonName = some name → Names name host →
      Identifies inetPton cert host

/-- The host is an address, and the certificate has an entry that it is compared with. -/
def Compares (inetPton : InetPton) (cert : Certificate) (host : Str) : Prop :=
  inetPton.address host ≠ none ∧ ∃ names bytes, cert.altNames = some names ∧ .ipAddress bytes ∈ names

section Identification

variable {inetPton : InetPton} {host : Str} {cert : Certificate}

/-- The bytes of an address are as many as are compared. -/
theorem HostAddress.length_bytes (address : HostAddress) :
    address.bytes.length = address.addrLen := by
  cases address with
  | inet6 bytes => exact bytes.2
  | inet bytes => exact bytes.2

/-- All the bytes of a variable are found in an entry that begins with them. -/
theorem sameBytes_eq_true_iff {bytes name : Str} {n : ℕ} (h : bytes.length = n) :
    sameBytes (some bytes) name n = some true ↔ bytes <+: name := by
  subst h
  rw [List.prefix_iff_eq_take, sameBytes, List.take_length]
  by_cases hname : bytes.length ≤ name.length
  · rw [if_pos ⟨le_rfl, hname⟩, Option.some.injEq, beq_iff_eq]
  · rw [if_neg fun hle => hname hle.2]
    refine iff_of_false nofun fun heq => hname ?_
    rw [heq]
    exact List.length_take_le' _ _

/-- An entry is found to be the same when it begins with the address. -/
theorem sameAddress_eq_true_iff {address : HostAddress} {name : Str} :
    sameAddress address name = some true ↔ address.bytes <+: name := by
  have hwritten : sameBytes (some address.bytes) name address.addrLen = some true ↔
      address.bytes <+: name := sameBytes_eq_true_iff address.length_bytes
  rw [sameAddress, either_eq_true_iff, ← hwritten]
  cases address with
  | inet6 bytes => exact or_iff_left nofun
  | inet bytes => exact or_iff_right nofun

/-- It is never found to be another one, as the variable of the other family was not written. -/
theorem sameAddress_ne_false (address : HostAddress) (name : Str) :
    sameAddress address name ≠ some false := by
  rw [sameAddress, Ne, either_eq_false_iff]
  cases address with
  | inet6 bytes => exact fun h => nomatch h.2
  | inet bytes => exact fun h => nomatch h.1

/-- The loop looks for a name of a host that is no address. -/
theorem verifyAltNames_none (host : Str) (names : List GeneralName) :
    ∃ named, verifyAltNames host none names (some false) = some named ∧
      (named = true ↔ ∃ name, .dns name ∈ names ∧ Names name host) := by
  induction names with
  | nil => exact ⟨false, rfl, by simp⟩
  | cons entry rest ih =>
    obtain ⟨named, hrest, hnamed⟩ := ih
    cases entry with
    | dns name =>
      by_cases hname : checkHostName host name = true
      · refine ⟨true, if_pos ⟨rfl, hname⟩, ?_⟩
        exact iff_of_true rfl ⟨name, List.mem_cons_self, (checkHostName_iff host name).mp hname⟩
      · refine ⟨named, (if_neg fun h => hname h.2).trans hrest, hnamed.trans ?_⟩
        rw [checkHostName_iff] at hname
        simp [or_and_right, exists_or, hname]
    | ipAddress name => exact ⟨named, hrest, by simpa using hnamed⟩
    | other => exact ⟨named, hrest, by simpa using hnamed⟩

/-- The loop compares every address with that of the host. One that is the same settles it, and
any other one leaves it open. -/
theorem verifyAltNames_some (host : Str) (address : HostAddress) (names : List GeneralName)
    (ipMatched : Option Bool) :
    (verifyAltNames host (some address) names ipMatched = some true ↔
      ipMatched = some true ∨ ∃ bytes, .ipAddress bytes ∈ names ∧ address.bytes <+: bytes) ∧
    (verifyAltNames host (some address) names ipMatched = some false ↔
      ipMatched = some false ∧ ∀ bytes, .ipAddress bytes ∉ names) := by
  induction names generalizing ipMatched with
  | nil => simp [verifyAltNames]
  | cons entry rest ih =>
    cases entry with
    | dns name => simpa [verifyAltNames] using ih ipMatched
    | ipAddress name =>
      simp only [verifyAltNames, ih, either_eq_true_iff, either_eq_false_iff,
        sameAddress_eq_true_iff]
      constructor
      · simp [or_and_right, exists_or, or_assoc]
      · refine iff_of_false (fun h => sameAddress_ne_false _ _ h.1.2) fun h => ?_
        exact h.2 name List.mem_cons_self
    | other => simpa [verifyAltNames] using ih ipMatched

/-- A certificate identifies a host by one of its other names. -/
def IdentifiesByAltName (inetPton : InetPton) (cert : Certificate) (host : Str) : Prop :=
  ∃ names, cert.altNames = some names ∧
    ((inetPton.address host = none ∧ ∃ name, .dns name ∈ names ∧ Names name host) ∨
      ∃ address, inetPton.address host = some address ∧
        ∃ bytes, .ipAddress bytes ∈ names ∧ address.bytes <+: bytes)

/-- A certificate identifies a host by one of its other names or by the common name. -/
theorem identifies_iff : Identifies inetPton cert host ↔
    IdentifiesByAltName inetPton cert host ∨
      ∃ name, cert.commonName = some name ∧ Names name host := by
  constructor
  · rintro (⟨haltNames, hmem, haddress, hnames⟩ | ⟨haltNames, hmem, haddress, hprefix⟩ |
      ⟨hcommonName, hnames⟩)
    · exact Or.inl ⟨_, haltNames, Or.inl ⟨haddress, _, hmem, hnames⟩⟩
    · exact Or.inl ⟨_, haltNames, Or.inr ⟨_, haddress, _, hmem, hprefix⟩⟩
    · exact Or.inr ⟨_, hcommonName, hnames⟩
  · rintro (⟨_, haltNames, ⟨haddress, _, hmem, hnames⟩ | ⟨_, haddress, _, hmem, hprefix⟩⟩ |
      ⟨_, hcommonName, hnames⟩)
    · exact .dns haltNames hmem haddress hnames
    · exact .ipAddress haltNames hmem haddress hprefix
    · exact .commonName hcommonName hnames

/-- The other names are found to identify the host when they do, and found not to when no address
is compared either. -/
theorem verifyHostWithSubjectAltName_spec :
    (verifyHostWithSubjectAltName inetPton host cert = some true ↔
      IdentifiesByAltName inetPton cert host) ∧
    (verifyHostWithSubjectAltName inetPton host cert = some false ↔
      ¬IdentifiesByAltName inetPton cert host ∧ ¬Compares inetPton cert host) := by
  unfold verifyHostWithSubjectAltName IdentifiesByAltName Compares
  cases cert.altNames with
  | none => simp
  | some names =>
    cases haddress : inetPton.address host with
    | none =>
      obtain ⟨named, hloop, hnamed⟩ := verifyAltNames_none host names
      cases named <;> simp_all
    | some address =>
      have hloop := verifyAltNames_some host address names (some false)
      constructor
      · simpa using hloop.1
      · rw [hloop.2]
        constructor
        · rintro ⟨-, hnone⟩
          exact ⟨by simp [hnone], by simp [hnone]⟩
        · rintro ⟨-, hcompares⟩
          refine ⟨rfl, fun bytes hmem => hcompares ?_⟩
          exact ⟨Option.some_ne_none address, names, bytes, rfl, hmem⟩

/-- The common name is compared like any other one. -/
theorem verifyHostWithCommonName_iff :
    verifyHostWithCommonName host cert = true ↔
      ∃ name, cert.commonName = some name ∧ Names name host := by
  unfold verifyHostWithCommonName
  cases cert.commonName with
  | none => simp
  | some name => simp [checkHostName_iff]

/-- A certificate is taken for that of the host exactly when it identifies the host. -/
theorem verifyHost_eq_true_iff :
    verifyHost inetPton host cert = some true ↔ Identifies inetPton cert host := by
  rw [verifyHost, either_eq_true_iff, verifyHostWithSubjectAltName_spec.1, Option.some.injEq,
    verifyHostWithCommonName_iff, identifies_iff]

/-- It is refused exactly when it does not identify the host and no address is compared. -/
theorem verifyHost_eq_false_iff :
    verifyHost inetPton host cert = some false ↔
      ¬Identifies inetPton cert host ∧ ¬Compares inetPton cert host := by
  rw [verifyHost, either_eq_false_iff, verifyHostWithSubjectAltName_spec.2, Option.some.injEq,
    ← Bool.not_eq_true, verifyHostWithCommonName_iff, identifies_iff, not_or]
  exact and_right_comm

/-- Otherwise what is made of it depends on bytes that nobody has written. -/
theorem verifyHost_eq_none_iff :
    verifyHost inetPton host cert = none ↔
      ¬Identifies inetPton cert host ∧ Compares inetPton cert host := by
  rw [eq_none_iff_ne, Ne, verifyHost_eq_true_iff, Ne, verifyHost_eq_false_iff]
  refine and_congr_right fun hidentifies => ?_
  rw [not_and, not_not]
  exact forall_prop_of_true hidentifies

end Identification

/-! ### Handshakes -/

/-- What OpenSSL finds when a server is connected to: whether the handshake ends, whether the
chain of certificates is verified, and the certificate of the server. -/
structure Handshake where
  connects : Bool
  verifyResult : Bool
  peerCertificate : Option Certificate
deriving DecidableEq, Repr

/-- `SSLClient::create_and_connect_socket`, which sets no error when there is no context. -/
def createAndConnectSocket (impl : Unix.ClientImpl) (isValid : Bool)
    (socket : Except Failure Connection) : Except Error Connection :=
  if impl.isSsl && !isValid then .error .success else socket.mapError Subtype.val

/-- `SSLClient::initialize_ssl`. No paths of certificates are set, so that their loading does not
fail. -/
def initializeSsl (inetPton : InetPton) (impl : Unix.ClientImpl) (handshake : Handshake) :
    Option (Except Error Unit) :=
  if !handshake.connects then some (.error .sslConnection)
  else if !impl.serverCertificateVerification then some (.ok ())
  else if !handshake.verifyResult then some (.error .sslServerVerification)
  else
    match handshake.peerCertificate with
    | none => some (.error .sslServerVerification)
    | some cert => (verifyHost inetPton impl.host cert).map fun named =>
      if named then .ok () else .error .sslServerVerification

/-- What `send` does before the request is handled. -/
def connect (inetPton : InetPton) (impl : Unix.ClientImpl) (isValid : Bool) (handshake : Handshake)
    (socket : Except Failure Connection) : Option (Except Error Connection) :=
  match createAndConnectSocket impl isValid socket with
  | .error e => some (.error e)
  | .ok connection =>
    if impl.isSsl then
      (initializeSsl inetPton impl handshake).map fun r => r.map fun _ => connection
    else some (.ok connection)

/-- A handshake that proves the host. -/
structure Proves (inetPton : InetPton) (handshake : Handshake) (host : Str) : Prop where
  verified : handshake.verifyResult = true
  identified : ∃ cert, handshake.peerCertificate = some cert ∧ Identifies inetPton cert host

/-- A handshake that a client accepts. -/
structure Accepts (inetPton : InetPton) (impl : Unix.ClientImpl) (handshake : Handshake) :
    Prop where
  connects : handshake.connects = true
  proves : impl.serverCertificateVerification = true → Proves inetPton handshake impl.host

/-- A handshake whose certificate does not identify the host, but has an address that the one of
the host is compared with. -/
structure Confuses (inetPton : InetPton) (impl : Unix.ClientImpl) (handshake : Handshake) :
    Prop where
  connects : handshake.connects = true
  verifies : impl.serverCertificateVerification = true
  verified : handshake.verifyResult = true
  confused : ∃ cert, handshake.peerCertificate = some cert ∧
    ¬Identifies inetPton cert impl.host ∧ Compares inetPton cert impl.host

section Initialization

variable {inetPton : InetPton} {impl : Unix.ClientImpl} {handshake : Handshake}

/-- Where the call ends: at the handshake, without a verification, at the chain of certificates, or
with the host of the certificate. -/
theorem initializeSsl_cases (inetPton : InetPton) (impl : Unix.ClientImpl) (handshake : Handshake) :
    (handshake.connects = false ∧
      initializeSsl inetPton impl handshake = some (.error .sslConnection)) ∨
    (handshake.connects = true ∧ impl.serverCertificateVerification = false ∧
      initializeSsl inetPton impl handshake = some (.ok ())) ∨
    (handshake.connects = true ∧ impl.serverCertificateVerification = true ∧
      (handshake.verifyResult = false ∨ handshake.peerCertificate = none) ∧
      initializeSsl inetPton impl handshake = some (.error .sslServerVerification)) ∨
    ∃ cert, handshake.connects = true ∧ impl.serverCertificateVerification = true ∧
      handshake.verifyResult = true ∧ handshake.peerCertificate = some cert ∧
      initializeSsl inetPton impl handshake = (verifyHost inetPton impl.host cert).map
        fun named => if named then .ok () else .error .sslServerVerification := by
  unfold initializeSsl
  cases handshake.connects <;> cases impl.serverCertificateVerification <;>
    cases handshake.verifyResult <;> cases handshake.peerCertificate <;> simp

/-- The call succeeds exactly with the handshakes that the client accepts. -/
theorem initializeSsl_eq_ok_iff : initializeSsl inetPton impl handshake = some (.ok ()) ↔
    Accepts inetPton impl handshake := by
  obtain ⟨hconnects, h⟩ | ⟨hconnects, hverify, h⟩ | ⟨-, hverify, hcert, h⟩ |
    ⟨cert, hconnects, hverify, hverified, hcert, h⟩ := initializeSsl_cases inetPton impl handshake
  · rw [h]
    exact iff_of_false nofun fun haccepts => nomatch hconnects.symm.trans haccepts.connects
  · exact iff_of_true h ⟨hconnects, fun hverify' => nomatch hverify.symm.trans hverify'⟩
  · rw [h]
    refine iff_of_false nofun fun haccepts => ?_
    obtain ⟨hverified, cert, hpeer, -⟩ := haccepts.proves hverify
    rcases hcert with hfalse | hnone
    · cases hfalse.symm.trans hverified
    · cases hnone.symm.trans hpeer
  · have hmap : (∃ named, verifyHost inetPton impl.host cert = some named ∧
        (if named then Except.ok () else .error .sslServerVerification) =
          (Except.ok () : Except Error Unit)) ↔ verifyHost inetPton impl.host cert = some true := by
      simp
    rw [h, Option.map_eq_some_iff, hmap, verifyHost_eq_true_iff]
    constructor
    · intro hidentifies
      exact ⟨hconnects, fun _ => ⟨hverified, cert, hcert, hidentifies⟩⟩
    · intro haccepts
      obtain ⟨-, _, hpeer, hidentifies⟩ := haccepts.proves hverify
      cases hcert.symm.trans hpeer
      exact hidentifies

/-- What it does is indeterminate exactly with the handshakes that confuse the client. -/
theorem initializeSsl_eq_none_iff : initializeSsl inetPton impl handshake = none ↔
    Confuses inetPton impl handshake := by
  obtain ⟨hconnects, h⟩ | ⟨-, hverify, h⟩ | ⟨-, -, hcert, h⟩ |
    ⟨cert, hconnects, hverify, hverified, hcert, h⟩ := initializeSsl_cases inetPton impl handshake
  · rw [h]
    exact iff_of_false nofun fun hconfuses => nomatch hconnects.symm.trans hconfuses.connects
  · rw [h]
    exact iff_of_false nofun fun hconfuses => nomatch hverify.symm.trans hconfuses.verifies
  · rw [h]
    refine iff_of_false nofun fun hconfuses => ?_
    obtain ⟨-, -, hverified, cert, hpeer, -⟩ := hconfuses
    rcases hcert with hfalse | hnone
    · cases hfalse.symm.trans hverified
    · cases hnone.symm.trans hpeer
  · rw [h, Option.map_eq_none_iff, verifyHost_eq_none_iff]
    constructor
    · exact fun hconfused => ⟨hconnects, hverify, hverified, cert, hcert, hconfused⟩
    · rintro ⟨-, -, -, _, hpeer, hconfused⟩
      cases hcert.symm.trans hpeer
      exact hconfused

/-- It never fails without an error. -/
theorem initializeSsl_ne_success : initializeSsl inetPton impl handshake ≠ some (.error .success) := by
  obtain ⟨-, h⟩ | ⟨-, -, h⟩ | ⟨-, -, -, h⟩ | ⟨cert, -, -, -, -, h⟩ :=
    initializeSsl_cases inetPton impl handshake
  · rw [h]
    nofun
  · rw [h]
    nofun
  · rw [h]
    nofun
  · rw [h]
    cases verifyHost inetPton impl.host cert with
    | none => nofun
    | some named => cases named <;> nofun

end Initialization

/-! ### Connecting -/

section Connecting

variable {inetPton : InetPton} {impl : Unix.ClientImpl} {isValid : Bool} {handshake : Handshake}
  {socket : Except Failure Connection}

/-- Where connecting ends: without a context, without a socket, without TLS, or at the call of
`initialize_ssl`. -/
theorem connect_cases (inetPton : InetPton) (impl : Unix.ClientImpl) (isValid : Bool)
    (handshake : Handshake) (socket : Except Failure Connection) :
    (impl.isSsl = true ∧ isValid = false ∧
      connect inetPton impl isValid handshake socket = some (.error .success)) ∨
    ((impl.isSsl = true → isValid = true) ∧ ∃ e, socket = .error e ∧
      connect inetPton impl isValid handshake socket = some (.error e.val)) ∨
    (impl.isSsl = false ∧ ∃ connection, socket = .ok connection ∧
      connect inetPton impl isValid handshake socket = some (.ok connection)) ∨
    (impl.isSsl = true ∧ isValid = true ∧ ∃ connection, socket = .ok connection ∧
      connect inetPton impl isValid handshake socket =
        (initializeSsl inetPton impl handshake).map fun r => r.map fun _ => connection) := by
  unfold connect createAndConnectSocket
  cases impl.isSsl <;> cases isValid <;> cases socket <;> simp [Except.mapError]

/-- A connection is taken exactly when the socket connects and, with TLS, there is a context and
the client accepts the handshake. -/
theorem connect_eq_ok_iff {connection : Connection} :
    connect inetPton impl isValid handshake socket = some (.ok connection) ↔
      socket = .ok connection ∧
        (impl.isSsl = true → isValid = true ∧ Accepts inetPton impl handshake) := by
  obtain ⟨hssl, hvalid, h⟩ | ⟨-, e, rfl, h⟩ | ⟨hplain, c, rfl, h⟩ | ⟨hssl, hvalid, c, rfl, h⟩ :=
    connect_cases inetPton impl isValid handshake socket
  · rw [h]
    exact iff_of_false nofun fun htaken => nomatch hvalid.symm.trans (htaken.2 hssl).1
  · rw [h]
    exact iff_of_false nofun fun htaken => nomatch htaken.1
  · rw [h, hplain]
    simp
  · rw [h, ← initializeSsl_eq_ok_iff, Option.map_eq_some_iff]
    constructor
    · rintro ⟨r, hinitialized, hr⟩
      cases r with
      | error e => cases hr
      | ok _ =>
        cases hr
        exact ⟨rfl, fun _ => ⟨hvalid, hinitialized⟩⟩
    · rintro ⟨hconnection, htaken⟩
      cases hconnection
      exact ⟨.ok (), (htaken hssl).2, rfl⟩

/-- It fails without an error exactly when there is no context for a client that needs one. -/
theorem connect_eq_success_iff :
    connect inetPton impl isValid handshake socket = some (.error .success) ↔
      impl.isSsl = true ∧ isValid = false := by
  obtain ⟨hssl, hvalid, h⟩ | ⟨hvalid, e, -, h⟩ | ⟨hplain, c, -, h⟩ | ⟨hssl, hvalid, c, -, h⟩ :=
    connect_cases inetPton impl isValid handshake socket
  · exact iff_of_true h ⟨hssl, hvalid⟩
  · rw [h]
    refine iff_of_false (fun hsuccess => e.2 ?_) fun hrefused => ?_
    · exact Except.error.inj (Option.some.inj hsuccess)
    · cases hrefused.2.symm.trans (hvalid hrefused.1)
  · rw [h]
    exact iff_of_false nofun fun hrefused => nomatch hplain.symm.trans hrefused.1
  · rw [h, Option.map_eq_some_iff]
    refine iff_of_false ?_ fun hrefused => nomatch hvalid.symm.trans hrefused.2
    rintro ⟨r, hinitialized, hr⟩
    cases r with
    | ok _ => cases hr
    | error e =>
      cases hr
      exact initializeSsl_ne_success hinitialized

/-- What becomes of it is indeterminate exactly when the socket connects, and the handshake
confuses the client. -/
theorem connect_eq_none_iff :
    connect inetPton impl isValid handshake socket = none ↔
      impl.isSsl = true ∧ isValid = true ∧ (∃ connection, socket = .ok connection) ∧
        Confuses inetPton impl handshake := by
  obtain ⟨-, hvalid, h⟩ | ⟨-, e, rfl, h⟩ | ⟨hplain, c, -, h⟩ | ⟨hssl, hvalid, c, rfl, h⟩ :=
    connect_cases inetPton impl isValid handshake socket
  · rw [h]
    exact iff_of_false nofun fun hconfuses => nomatch hvalid.symm.trans hconfuses.2.1
  · rw [h]
    exact iff_of_false nofun fun ⟨_, _, ⟨_, hsocket⟩, _⟩ => nomatch hsocket
  · rw [h]
    exact iff_of_false nofun fun hconfuses => nomatch hplain.symm.trans hconfuses.1
  · rw [h, Option.map_eq_none_iff, initializeSsl_eq_none_iff]
    exact ⟨fun hconfuses => ⟨hssl, hvalid, ⟨c, rfl⟩, hconfuses⟩, fun hconfuses => hconfuses.2.2.2⟩

end Connecting

end Up2date.Httplib
