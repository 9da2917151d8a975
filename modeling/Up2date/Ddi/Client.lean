import Up2date.Ddi.Exceptions
import Up2date.Modules.HttpClient

/-!
# The client and its settings

The settings of a `HawkbitCommunicationClient`: its endpoint, the headers and the key pair
that every request is sent with, and the flags of the polling loop. They are set by a
builder and afterwards by the calls of `AuthRestoreHandler`, which the client also offers
itself. The handlers a builder registers are user code and belong to the environment.
-/

namespace Up2date.Ddi

open Cxx Uri Httpclient

/-- The field that carries the credentials. -/
def AUTHORIZATION_HEADER : Str := "Authorization".toList

/-- The word in front of a gateway token. -/
def GATEWAY_TOKEN_HEADER : Str := "GatewayToken".toList

/-- The word in front of a device token. -/
def TARGET_TOKEN_HEADER : Str := "TargetToken".toList

/-- The value of the field: the kind of the token and the token. -/
def formatAuthHeader (authType val : Str) : Str := authType ++ " ".toList ++ val

/-- `ddi::hawkbitEndpointFrom` -/
def hawkbitEndpointFrom (endpoint controllerId tenant : Str) : Except StdException Str := do
  let hawkbitEndpoint ← URI.fromString endpoint
  return hawkbitEndpoint.scheme ++ "://".toList ++ hawkbitEndpoint.authority ++ "/".toList ++
    tenant ++ "/controller/v1/".toList ++ controllerId

/-- The key pair of a client, cleared when it is not set. -/
structure MTLSKeypair where
  crt : Str := []
  key : Str := []
  isSet : Bool := false
deriving DecidableEq, Repr

/-- `HawkbitCommunicationClient`, value-initialised by default. -/
structure HawkbitCommunicationClient where
  hawkbitURI : URI := {}
  defaultHeaders : Headers := .empty
  defaultSleepTime : ℤ := 0
  currentSleepTime : ℤ := 0
  ignoreSleep : Bool := false
  isRunning : Bool := false
  pollRequested : Bool := false
  serverCertificateVerify : Bool := true
  mTLSKeypair : MTLSKeypair := {}

namespace HawkbitCommunicationClient

/-- The key pair is set, and the Authorization fields go. -/
def setTLS (crt key : Str) (cli : HawkbitCommunicationClient) : HawkbitCommunicationClient :=
  { cli with
    mTLSKeypair := { crt, key, isSet := true }
    defaultHeaders := cli.defaultHeaders.erase AUTHORIZATION_HEADER }

/-- Both token setters, which differ in the type they write before the token. -/
def setToken (authType token : Str) (cli : HawkbitCommunicationClient) :
    HawkbitCommunicationClient :=
  { cli with
    defaultHeaders := cli.defaultHeaders.insert AUTHORIZATION_HEADER (formatAuthHeader authType token)
    mTLSKeypair := { crt := [], key := [], isSet := false } }

/-- The device token is one more Authorization field, and the key pair goes. -/
def setDeviceToken (token : Str) : HawkbitCommunicationClient → HawkbitCommunicationClient :=
  setToken TARGET_TOKEN_HEADER token

/-- The gateway token is one more Authorization field, and the key pair goes. -/
def setGatewayToken (token : Str) : HawkbitCommunicationClient → HawkbitCommunicationClient :=
  setToken GATEWAY_TOKEN_HEADER token

/-- An endpoint that is no URI throws before the client is changed. -/
def setEndpoint (endpoint : Str) (cli : HawkbitCommunicationClient) :
    Except StdException HawkbitCommunicationClient := do
  return { cli with hawkbitURI := ← URI.fromString endpoint }

/-- `setEndpoint` with a controller and a tenant. -/
def setEndpointOf (hawkbitEndpoint controllerId tenant : Str) (cli : HawkbitCommunicationClient) :
    Except StdException HawkbitCommunicationClient := do
  cli.setEndpoint (← hawkbitEndpointFrom hawkbitEndpoint controllerId tenant)

end HawkbitCommunicationClient

/-- The calls of `AuthRestoreHandler`. -/
inductive Setting
  | setTLS (crt key : Str)
  | setDeviceToken (token : Str)
  | setGatewayToken (token : Str)
  | setEndpoint (endpoint : Str)
  | setEndpointOf (hawkbitEndpoint controllerId tenant : Str)
deriving DecidableEq, Repr

/-- A call made on the client itself. -/
def HawkbitCommunicationClient.perform (cli : HawkbitCommunicationClient) :
    Setting → Except StdException HawkbitCommunicationClient
  | .setTLS crt key => .ok (cli.setTLS crt key)
  | .setDeviceToken token => .ok (cli.setDeviceToken token)
  | .setGatewayToken token => .ok (cli.setGatewayToken token)
  | .setEndpoint endpoint => cli.setEndpoint endpoint
  | .setEndpointOf hawkbitEndpoint controllerId tenant =>
    cli.setEndpointOf hawkbitEndpoint controllerId tenant

/-- The endpoint is changed exactly when the text is a URI. -/
theorem HawkbitCommunicationClient.setEndpoint_eq_map (cli : HawkbitCommunicationClient)
    (endpoint : Str) :
    cli.setEndpoint endpoint =
      (URI.fromString endpoint).map fun uri => { cli with hawkbitURI := uri } := by
  unfold HawkbitCommunicationClient.setEndpoint
  cases URI.fromString endpoint <;> rfl

/-- The composed endpoint is taken exactly when it is a URI. -/
theorem HawkbitCommunicationClient.setEndpointOf_eq_map (cli : HawkbitCommunicationClient)
    (hawkbitEndpoint controllerId tenant : Str) :
    cli.setEndpointOf hawkbitEndpoint controllerId tenant =
      (hawkbitEndpointFrom hawkbitEndpoint controllerId tenant >>= URI.fromString).map
        fun uri => { cli with hawkbitURI := uri } := by
  unfold HawkbitCommunicationClient.setEndpointOf
  cases hawkbitEndpointFrom hawkbitEndpoint controllerId tenant with
  | error e => rfl
  | ok endpoint => exact cli.setEndpoint_eq_map endpoint

/-- Settings are the endpoint, the headers and the key pair. -/
theorem HawkbitCommunicationClient.perform_frame {s : Setting}
    {cli cli' : HawkbitCommunicationClient} (h : cli.perform s = .ok cli') :
    ∃ uri headers keypair, cli' =
      { cli with hawkbitURI := uri, defaultHeaders := headers, mTLSKeypair := keypair } := by
  have hendpoint : ∀ parsed : Except StdException URI,
      parsed.map (fun uri => { cli with hawkbitURI := uri }) = .ok cli' →
      ∃ uri, cli' = { cli with hawkbitURI := uri } := by
    intro parsed hparsed
    cases parsed with
    | error e => cases hparsed
    | ok uri => exact ⟨uri, (Except.ok.inj hparsed).symm⟩
  cases s with
  | setTLS crt key => exact ⟨_, _, _, (Except.ok.inj h).symm⟩
  | setDeviceToken token => exact ⟨_, _, _, (Except.ok.inj h).symm⟩
  | setGatewayToken token => exact ⟨_, _, _, (Except.ok.inj h).symm⟩
  | setEndpoint endpoint =>
    obtain ⟨uri, huri⟩ := hendpoint _ ((cli.setEndpoint_eq_map endpoint).symm.trans h)
    exact ⟨uri, _, _, huri⟩
  | setEndpointOf hawkbitEndpoint controllerId tenant =>
    obtain ⟨uri, huri⟩ := hendpoint _ ((cli.setEndpointOf_eq_map _ _ _).symm.trans h)
    exact ⟨uri, _, _, huri⟩

/-- `AuthRestoreHandler_`, which holds a client. -/
structure AuthRestoreHandler where
  cli : HawkbitCommunicationClient

/-- Every method of `AuthRestoreHandler_` makes the same call on its client. -/
def AuthRestoreHandler.perform (restore : AuthRestoreHandler) :
    Setting → Except StdException HawkbitCommunicationClient
  | .setTLS crt key => .ok (restore.cli.setTLS crt key)
  | .setDeviceToken token => .ok (restore.cli.setDeviceToken token)
  | .setGatewayToken token => .ok (restore.cli.setGatewayToken token)
  | .setEndpoint endpoint => restore.cli.setEndpoint endpoint
  | .setEndpointOf hawkbitEndpoint controllerId tenant =>
    restore.cli.setEndpointOf hawkbitEndpoint controllerId tenant

/-- Calls on the restore handler are calls on its client. -/
theorem authRestoreHandler_perform (cli : HawkbitCommunicationClient) (s : Setting) :
    (AuthRestoreHandler.mk cli).perform s = cli.perform s := by
  cases s <;> rfl

/-- `AuthorizeVariants` -/
inductive AuthorizeVariants
  | notSet | gatewayToken | deviceToken | mTLSKeypair
deriving DecidableEq, Repr

/-- `DefaultClientBuilderImpl` -/
structure DefaultClientBuilderImpl where
  hawkbitUri : Str := []
  pollingTimeout : ℤ := 30000
  defaultHeaders : Headers := .empty
  token : Str := []
  crt : Str := []
  key : Str := []
  verifyServerCertificate : Bool := true
  authVariant : AuthorizeVariants := .notSet

namespace DefaultClientBuilderImpl

/-- The endpoint that the client starts with. -/
def setHawkbitEndpoint (endpoint : Str) (b : DefaultClientBuilderImpl) : DefaultClientBuilderImpl :=
  { b with hawkbitUri := endpoint }

/-- `setHawkbitEndpoint` with a controller and a tenant. -/
def setHawkbitEndpointOf (endpoint controllerId tenant : Str) (b : DefaultClientBuilderImpl) :
    Except StdException DefaultClientBuilderImpl := do
  return b.setHawkbitEndpoint (← hawkbitEndpointFrom endpoint controllerId tenant)

/-- The sleep time that the client starts with. -/
def setDefaultPollingTimeout (timeout : ℤ) (b : DefaultClientBuilderImpl) :
    DefaultClientBuilderImpl :=
  { b with pollingTimeout := timeout }

/-- A field that goes with every request. -/
def addHeader (k v : Str) (b : DefaultClientBuilderImpl) : DefaultClientBuilderImpl :=
  { b with defaultHeaders := b.defaultHeaders.insert k v }

/-- The certificate of the server is not checked. -/
def notVerifyServerCertificate (b : DefaultClientBuilderImpl) : DefaultClientBuilderImpl :=
  { b with verifyServerCertificate := false }

/-- The check that every setter of an authorisation begins with. -/
def requireNotSet (b : DefaultClientBuilderImpl) : Except StdException Unit :=
  if b.authVariant ≠ .notSet then
    .error (.runtimeError "Another authority type is already set".toList)
  else .ok ()

/-- A gateway token is taken when no credentials are set yet. -/
def setGatewayToken (token : Str) (b : DefaultClientBuilderImpl) :
    Except StdException DefaultClientBuilderImpl := do
  b.requireNotSet
  return { b with token := token, authVariant := .gatewayToken }

/-- A device token is taken when no credentials are set yet. -/
def setDeviceToken (token : Str) (b : DefaultClientBuilderImpl) :
    Except StdException DefaultClientBuilderImpl := do
  b.requireNotSet
  return { b with token := token, authVariant := .deviceToken }

/-- A key pair is taken when no credentials are set yet. -/
def setTLS (crt key : Str) (b : DefaultClientBuilderImpl) :
    Except StdException DefaultClientBuilderImpl := do
  b.requireNotSet
  return { b with crt := crt, key := key, authVariant := .mTLSKeypair }

/-- The fields that `build` copies from the builder. -/
def configure (b : DefaultClientBuilderImpl) (cli : HawkbitCommunicationClient) :
    HawkbitCommunicationClient :=
  { cli with
    defaultSleepTime := b.pollingTimeout
    currentSleepTime := b.pollingTimeout
    defaultHeaders := b.defaultHeaders
    serverCertificateVerify := b.verifyServerCertificate
    isRunning := false }

/-- The authorisation that `build` passes on last. -/
def authorise (b : DefaultClientBuilderImpl) (cli : HawkbitCommunicationClient) :
    HawkbitCommunicationClient :=
  match b.authVariant with
  | .mTLSKeypair => cli.setTLS b.crt b.key
  | .gatewayToken => cli.setGatewayToken b.token
  | .deviceToken => cli.setDeviceToken b.token
  | .notSet => cli

/-- The client with its credentials in place. -/
def build (b : DefaultClientBuilderImpl) : Except StdException HawkbitCommunicationClient := do
  let fresh : HawkbitCommunicationClient := {}
  let cli ← if b.hawkbitUri ≠ [] then fresh.setEndpoint b.hawkbitUri else pure fresh
  return b.authorise (b.configure cli)

end DefaultClientBuilderImpl

end Up2date.Ddi
