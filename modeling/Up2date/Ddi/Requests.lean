import Up2date.Ddi.World

/-!
# Requests

Every request of the client goes through `retryHandler`: it is attempted once, and once more
after `onAuthError` when the first attempt ended in `unauthorized_exception`. An HTTP client
is made for each attempt, from the URI `retryHandler` was given and the key pair in force;
the function that sends the request reads the headers, and for a poll the path, when it runs.
-/

namespace Up2date.Ddi

open Cxx Uri Httpclient

/-- `httpclient::Client`, together with the attempt it was made for. -/
structure HttpClient where
  endpoint : Str
  keyPair : Option MTLSKeyPair
  verify : Bool
  exchange : Exchange
  attempt : Attempt

/-- The request a client makes of a path, read as a C string, and of what goes with it. -/
def HttpClient.request (cli : HttpClient) (method : Method) (path : Str) (headers : Headers)
    (body contentType : Str) : Request :=
  { method, endpoint := cli.endpoint, target := cstr path, keyPair := cli.keyPair,
    verify := cli.verify, headers, body, contentType }

/-- Send one request through the backend, while other threads may make calls. -/
def HttpClient.send (env : Environment) (cli : HttpClient) (request : Request) : Program Wire := do
  let w ← get
  let reply := env.server w.trace request
  record (.sent cli.exchange cli.attempt request reply.wire)
  modify fun w => reply.signals.foldl World.signal w
  return reply.wire

/-- The result of a request whose body is collected. -/
def collect (wire : Wire) : Program Httpclient.Result :=
  Effect.ofExcept (wire.collect.mapError Exn.std)

/-- `Get` -/
def HttpClient.get (env : Environment) (cli : HttpClient) (path : Str) (headers : Headers) :
    Program Httpclient.Result := do
  collect (← cli.send env (cli.request .get path headers [] []))

/-- `Put` -/
def HttpClient.put (env : Environment) (cli : HttpClient) (path : Str) (headers : Headers)
    (body contentType : Str) : Program Httpclient.Result := do
  collect (← cli.send env (cli.request .put path headers body contentType))

/-- `Post` -/
def HttpClient.post (env : Environment) (cli : HttpClient) (path : Str) (headers : Headers)
    (body contentType : Str) : Program Httpclient.Result := do
  collect (← cli.send env (cli.request .post path headers body contentType))

/-- `Get` with a response handler and a content receiver. -/
def HttpClient.getTo (env : Environment) (cli : HttpClient) (path : Str) (headers : Headers)
    (handler : Httpclient.Response → Except Exn Unit) (receive : Str → Program Bool) :
    Program Httpclient.Result := do
  let wire ← cli.send env (cli.request .get path headers [] [])
  wire.stream Exn.std handler receive

/-- The base address an HTTP client connects to. -/
def baseAddress (uri : URI) : Str := uri.scheme ++ "://".toList ++ uri.authority

/-- A key pair leaves the certificate check of the backend on. -/
def newHttpClient (env : Environment) (exchange : Exchange) (attempt : Attempt)
    (hostEndpoint : URI) : Program HttpClient := do
  let w ← get
  let endpoint := baseAddress hostEndpoint
  if w.client.mTLSKeypair.isSet then
    let keyPair := some ⟨w.client.mTLSKeypair.crt, w.client.mTLSKeypair.key⟩
    Effect.ofExcept ((env.connect w.trace endpoint keyPair).mapError Exn.std)
    return { endpoint, keyPair, verify := true, exchange, attempt }
  else
    Effect.ofExcept ((env.connect w.trace endpoint none).mapError Exn.std)
    return { endpoint, keyPair := none, verify := w.client.serverCertificateVerify, exchange, attempt }

/-- The checks that `wrappedRequest` makes of a result. -/
def checkResult : Httpclient.Result → Except Exn Httpclient.Response
  | .failed e => .error (.httpLibError e.val.toInt)
  | .response r => (checkHttpCode r.status HTTP_OK).map fun _ => r

/-- `wrappedRequest`, whose outcome is recorded. -/
def wrappedRequest (env : Environment) (exchange : Exchange) (attempt : Attempt) (reqUri : URI)
    (func : HttpClient → Program Httpclient.Result) : Program Httpclient.Response :=
  Effect.noting (do
    let cli ← newHttpClient env exchange attempt reqUri
    let resp ← func cli
    Effect.ofExcept (checkResult resp))
    fun r w => w.log (.ended exchange attempt (outcome r))

/-- What `retryHandler` does about an exception of the first attempt: only
`unauthorized_exception` is caught, and the second attempt is outside of the `try` block. -/
def retryAfter (env : Environment) (exchange : Exchange) (reqUri : URI)
    (func : HttpClient → Program Httpclient.Result) : Exn → Option (Program Httpclient.Response)
  | .unauthorizedException => some do
    match env.authErrorHandler with
    | none => Effect.raise .unauthorizedException
    | some onAuthError => callOnAuthError (some exchange) onAuthError
    wrappedRequest env exchange .second reqUri func
  | _ => none

/-- `retryHandler`, whose beginning and outcome are recorded. -/
def retryHandler (env : Environment) (exchange : Exchange) (reqUri : URI)
    (func : HttpClient → Program Httpclient.Result) : Program Httpclient.Response :=
  Effect.noting (do
    record (.issued exchange)
    Effect.catching (wrappedRequest env exchange .first reqUri func)
      (retryAfter env exchange reqUri func))
    fun r w => w.log (.concluded exchange (outcome r))

end Up2date.Ddi
