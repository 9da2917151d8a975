import Up2date.Ddi.OverBytes
import Up2date.Httplib.Certificates

/-!
# Runs over TLS

The connections of the Unix client, with the handshakes of those that use TLS. A request that
verifies is answered over TLS only by a server whose certificate OpenSSL has verified and that
identifies the host of the request. This holds of the requests whose connection is determined:
a client without an implementation or without a context makes none, and the comparison with an
address that no entry of the certificate begins with may turn out either way.
-/

namespace Up2date.Ddi

open Cxx Uri Httpclient
open Httplib (Accepts Confuses Connection Handshake InetPton Proves connect connect_eq_none_iff
  connect_eq_ok_iff connect_eq_success_iff wireOver_eq_answered)
open Unix (ClientImpl)

/-! ### The implementation behind a request -/

/-- The client that is made for a request. -/
def unixClientOf (request : Request) : Except StdException Unix.Client :=
  match request.keyPair with
  | none => Unix.Client.new request.endpoint
  | some keyPair => Unix.Client.newWithKeyPair request.endpoint keyPair

/-- A client for a request with a key pair is made with it. -/
theorem unixClientOf_of_some {request : Request} {keyPair : MTLSKeyPair}
    (h : request.keyPair = some keyPair) :
    unixClientOf request = Unix.Client.newWithKeyPair request.endpoint keyPair := by
  rw [unixClientOf, h]

/-- The implementation that sends a request, if its client has one. -/
def implementationOf (request : Request) : Option ClientImpl :=
  match unixClientOf request with
  | .error _ => none
  | .ok cli =>
    cli.impl.map fun impl => { impl with serverCertificateVerification := request.verify }

/-- A client that is made gives its implementation. -/
theorem implementationOf_of_ok {request : Request} {cli : Unix.Client}
    (h : unixClientOf request = .ok cli) :
    implementationOf request =
      cli.impl.map fun impl => { impl with serverCertificateVerification := request.verify } := by
  rw [implementationOf, h]

/-- The constructor with a key pair makes clients that use TLS and verify. -/
theorem impl_of_newWithKeyPair {s : Str} {keyPair : MTLSKeyPair} {cli : Unix.Client}
    {impl : ClientImpl} (h : Unix.Client.newWithKeyPair s keyPair = .ok cli)
    (himpl : cli.impl = some impl) :
    impl.isSsl = true ∧ impl.serverCertificateVerification = true := by
  cases hmatch : Unix.regexMatch s with
  | none =>
    rw [Unix.Client.newWithKeyPair_of_none hmatch] at h
    cases h
    cases himpl
  | some m =>
    unfold Unix.Client.newWithKeyPair at h
    rw [hmatch] at h
    simp only at h
    split at h
    · cases h
    · cases hport : m.portNumber 443 with
      | error e =>
        rw [hport] at h
        cases h
      | ok port =>
        rw [hport] at h
        cases h
        cases himpl
        exact ⟨rfl, rfl⟩

/-- The implementation of a request is that of its client, but for the verification. -/
theorem exists_of_implementationOf {request : Request} {impl : ClientImpl}
    (h : implementationOf request = some impl) :
    ∃ cli made, unixClientOf request = .ok cli ∧ cli.impl = some made ∧
      impl = { made with serverCertificateVerification := request.verify } := by
  cases hclient : unixClientOf request with
  | error e =>
    rw [implementationOf, hclient] at h
    cases h
  | ok cli =>
    rw [implementationOf_of_ok hclient, Option.map_eq_some_iff] at h
    obtain ⟨made, hmade, himpl⟩ := h
    exact ⟨cli, made, rfl, hmade, himpl.symm⟩

/-- A client with a key pair uses TLS. -/
theorem isSsl_of_keyPair {request : Request} {impl : ClientImpl}
    (hkeyPair : request.keyPair.isSome = true) (h : implementationOf request = some impl) :
    impl.isSsl = true := by
  obtain ⟨keyPair, hkeyPair⟩ := Option.isSome_iff_exists.mp hkeyPair
  obtain ⟨cli, made, hclient, hmade, rfl⟩ := exists_of_implementationOf h
  rw [unixClientOf_of_some hkeyPair] at hclient
  exact (impl_of_newWithKeyPair hclient hmade).1

/-- It verifies when the request does. -/
theorem verification_of_implementationOf {request : Request} {impl : ClientImpl}
    (h : implementationOf request = some impl) :
    impl.serverCertificateVerification = request.verify := by
  obtain ⟨cli, made, -, -, rfl⟩ := exists_of_implementationOf h
  rfl

/-! ### Servers with certificates -/

/-- What is behind the connections: sockets and OpenSSL, which may refuse a key pair. -/
structure OpenSsl where
  inetPton : InetPton
  context : Option MTLSKeyPair → Bool
  tcp : Connections
  handshake : List Event → Request → Handshake

/-- `toHttpLibResult` of a request that is not sent, which takes a response for the result when
there is no error, although there is none. -/
def toFailure {α : Type} : Except Error α → Option (Except Failure α)
  | .ok a => some (.ok a)
  | .error e => if h : e = .success then none else some (.error ⟨e, h⟩)

/-- Success is kept. -/
theorem toFailure_eq_ok_iff {α : Type} {r : Except Error α} {a : α} :
    toFailure r = some (.ok a) ↔ r = .ok a := by
  cases r with
  | ok _ => simp [toFailure]
  | error e =>
    unfold toFailure
    dsimp only
    split <;> exact iff_of_false nofun nofun

/-- Only a failure without an error has no result. -/
theorem toFailure_eq_none_iff {α : Type} {r : Except Error α} :
    toFailure r = none ↔ r = .error .success := by
  cases r with
  | ok _ => exact iff_of_false nofun nofun
  | error e => simp [toFailure]

namespace OpenSsl

/-- The connection of a request, where it is determined. Without an implementation there is
nothing to call. -/
def connection (ssl : OpenSsl) (trace : List Event) (request : Request) :
    Option (Except Failure Connection) := do
  let impl ← implementationOf request
  let connected ← connect ssl.inetPton impl (ssl.context impl.keyPair) (ssl.handshake trace request)
    (ssl.tcp trace request)
  toFailure connected

/-- The server of a request has proved to be its host. -/
def Proved (ssl : OpenSsl) (trace : List Event) (request : Request) : Prop :=
  ∃ impl, implementationOf request = some impl ∧
    Proves ssl.inetPton (ssl.handshake trace request) impl.host

section Connections

variable {ssl : OpenSsl} {trace : List Event} {request : Request} {connection : Connection}

/-- No client is connected without an implementation. -/
theorem connection_of_none (h : implementationOf request = none) :
    ssl.connection trace request = none := by
  rw [OpenSsl.connection, h]
  rfl

/-- The implementation connects. -/
theorem connection_of_some {impl : ClientImpl} (h : implementationOf request = some impl) :
    ssl.connection trace request = (connect ssl.inetPton impl (ssl.context impl.keyPair)
      (ssl.handshake trace request) (ssl.tcp trace request)).bind toFailure := by
  rw [OpenSsl.connection, h]
  rfl

/-- A connection is taken when its socket connects and its client accepts the handshake. -/
theorem connection_spec : ssl.connection trace request = some (.ok connection) ↔
    ssl.tcp trace request = .ok connection ∧
      ∃ impl, implementationOf request = some impl ∧ (impl.isSsl = true →
        ssl.context impl.keyPair = true ∧
          Accepts ssl.inetPton impl (ssl.handshake trace request)) := by
  simp only [OpenSsl.connection, Option.bind_eq_bind, Option.bind_eq_some_iff, toFailure_eq_ok_iff,
    exists_eq_right, connect_eq_ok_iff]
  rw [← exists_and_left]
  exact exists_congr fun _ => and_left_comm

/-- A connection with TLS is taken by a request that verifies only from a server that proves to
be its host. -/
theorem proved_of_connection (h : ssl.connection trace request = some (.ok connection))
    (hverify : request.verify = true)
    (hssl : ∀ impl, implementationOf request = some impl → impl.isSsl = true) :
    ssl.Proved trace request := by
  obtain ⟨-, impl, himpl, htaken⟩ := connection_spec.mp h
  exact ⟨impl, himpl, (htaken (hssl impl himpl)).2.proves
    ((verification_of_implementationOf himpl).trans hverify)⟩

end Connections

/-- Exactly these connections are taken: all those without TLS, and those with TLS whose handshake
ends and, if the request verifies, proves the host. -/
theorem connection_eq_ok_iff (ssl : OpenSsl) (trace : List Event) (request : Request)
    (connection : Connection) :
    ssl.connection trace request = some (.ok connection) ↔
      ssl.tcp trace request = .ok connection ∧
        ∃ impl, implementationOf request = some impl ∧ (impl.isSsl = true →
          ssl.context impl.keyPair = true ∧ (ssl.handshake trace request).connects = true ∧
            (request.verify = true → ssl.Proved trace request)) := by
  rw [connection_spec]
  refine and_congr_right fun _ => exists_congr fun impl => and_congr_right fun himpl =>
    forall_congr' fun _ => and_congr_right fun _ => ?_
  have hverify := verification_of_implementationOf himpl
  constructor
  · intro haccepts
    exact ⟨haccepts.connects, fun hrequest => ⟨impl, himpl, haccepts.proves (hverify.trans hrequest)⟩⟩
  · rintro ⟨hconnects, hproved⟩
    refine ⟨hconnects, fun himplVerify => ?_⟩
    obtain ⟨_, himpl', hproves⟩ := hproved (hverify.symm.trans himplVerify)
    cases himpl.symm.trans himpl'
    exact hproves

/-- The connection of a request is not determined in exactly three cases: its client has no
implementation, it uses TLS and OpenSSL refuses the key pair, or the socket connects and the
handshake confuses the client. -/
theorem connection_eq_none_iff (ssl : OpenSsl) (trace : List Event) (request : Request) :
    ssl.connection trace request = none ↔
      implementationOf request = none ∨ ∃ impl, implementationOf request = some impl ∧
        impl.isSsl = true ∧ (ssl.context impl.keyPair = false ∨
          (∃ connection, ssl.tcp trace request = .ok connection) ∧
            Confuses ssl.inetPton impl (ssl.handshake trace request)) := by
  cases himpl : implementationOf request with
  | none => exact iff_of_true (connection_of_none himpl) (Or.inl rfl)
  | some impl =>
    have hbind : ∀ connected : Option (Except Error Connection), connected.bind toFailure = none ↔
        connected = none ∨ connected = some (.error .success) := by
      rintro (_ | connected)
      · exact iff_of_true rfl (Or.inl rfl)
      · simp [toFailure_eq_none_iff]
    rw [connection_of_some himpl, hbind, connect_eq_none_iff, connect_eq_success_iff]
    simp only [reduceCtorEq, false_or, Option.some.injEq, exists_eq_left']
    cases ssl.context impl.keyPair <;> simp

end OpenSsl

/-- Servers, and what becomes of the connections that are not determined. -/
structure TlsServers extends OpenSsl where
  undetermined : Connections

namespace TlsServers

/-- The connections of the clients. -/
def connections (servers : TlsServers) : Connections := fun trace request =>
  (servers.connection trace request).getD (servers.undetermined trace request)

/-- The connection of a request is determined. -/
def Determined (servers : TlsServers) (trace : List Event) (request : Request) : Prop :=
  (servers.connection trace request).isSome = true

/-- A determined connection is the one of OpenSSL. -/
theorem connection_of_determined {servers : TlsServers} {trace : List Event} {request : Request}
    {connection : Connection} (hdetermined : servers.Determined trace request)
    (h : servers.connections trace request = .ok connection) :
    servers.connection trace request = some (.ok connection) := by
  obtain ⟨r, hr⟩ := Option.isSome_iff_exists.mp hdetermined
  rw [connections, hr] at h
  rw [hr]
  exact congrArg some h

end TlsServers

/-- In every run over these connections, a request that is answered was connected, if its connection
is determined. -/
theorem connection_of_answered {env : Environment} {servers : TlsServers}
    (h : RepliesOver env servers.connections) {schedule : ℕ → List Signal}
    {cli : HawkbitCommunicationClient} {n : ℕ} {pre post : List Event} {x : Exchange} {a : Attempt}
    {request : Request} {status : ℤ} {chunks : List Str} {cut : Option Failure}
    (htrace : (exec env schedule cli n).world.trace =
      pre ++ .sent x a request (.answered status chunks cut) :: post)
    (hdetermined : servers.Determined pre request) :
    ∃ connection, servers.connection pre request = some (.ok connection) := by
  have hwire : Wire.answered status chunks cut = (env.server pre request).wire :=
    answeredIn_of_exec htrace
  rw [h] at hwire
  obtain ⟨connection, hconnection, -, -⟩ := wireOver_eq_answered hwire.symm
  exact ⟨connection, TlsServers.connection_of_determined hdetermined hconnection⟩

end Up2date.Ddi
