import Up2date.Modules.HttpClient
import Up2date.Modules.UriParse

/-!
# The Windows backend

A request of the Windows backend is a sequence of calls of the WinHTTP API that ends at the
first call that fails. Host, port and the choice of TLS come from the authority and the
scheme of the base address, both read as C strings. What the API does with a call is not part
of the program: any of them may fail.
-/

namespace Up2date.Win

open Cxx Uri Httpclient

/-- The port without TLS. -/
def INTERNET_DEFAULT_HTTP_PORT : ℤ := 80

/-- The port with TLS. -/
def INTERNET_DEFAULT_HTTPS_PORT : ℤ := 443

/-- The error of a response whose status cannot be queried. -/
def ERROR_API_UNAVAILABLE : ℕ := 15841

/-- `atoi`: the nearest `int` to the number, and 0 without one. -/
def atoi (s : Str) : ℤ :=
  match strtol s with
  | none => 0
  | some (n, _) => max intMin (min intMax n)

/-- The outputs of `extractDataFromHost`. -/
structure HostData where
  host : Str
  port : ℤ
  isHttps : Bool
deriving DecidableEq, Repr

/-- The host is split at the first colon; the scheme counts without a colon only. -/
def extractDataFromHost (host scheme : Str) : HostData :=
  match host.dropWhile (fun c => c ≠ ':') with
  | [] =>
    if scheme = "https".toList then
      { host, port := INTERNET_DEFAULT_HTTPS_PORT, isHttps := true }
    else { host, port := INTERNET_DEFAULT_HTTP_PORT, isHttps := false }
  | _ :: port => { host := host.takeWhile (fun c => c ≠ ':'), port := atoi port, isHttps := false }

/-- The conversion of an `int` to an `INTERNET_PORT`, which has 16 bits. -/
def toInternetPort (port : ℤ) : ℤ := port % 2 ^ 16

/-- The flags given to `WinHttpOpenRequest`. -/
inductive RequestFlag
  | refresh | secure
deriving DecidableEq, Repr

/-- A certificate context of the system. -/
structure CertContext where
  handle : ℕ
deriving DecidableEq, Repr

/-- The calls of a request up to its status code. -/
inductive WinCall
  | winHttpOpen
  | winHttpConnect (serverName : Str) (serverPort : ℤ)
  | winHttpOpenRequest (verb objectName : Str) (flags : List RequestFlag)
  | setClientCertContext (ctx : Option CertContext)
  | setSecurityFlags
  | winHttpSendRequest (headers body : Str)
  | winHttpReceiveResponse
  | queryStatusCode
deriving DecidableEq, Repr

/-- The API: the code of a call's failure after the calls before it, and the certificate context
made from a key pair or the code of a failure to make one. -/
structure WinApi where
  lastError : List WinCall → WinCall → Option ℕ
  certContext : MTLSKeyPair → Except ℕ CertContext

/-- Computations that make calls and end early with the code of a failure. -/
abbrev Calling (α : Type) := Effect ℕ (List WinCall) α

/-- Make a call, and end with its code if it fails. -/
def WinApi.call (api : WinApi) (c : WinCall) : Calling Unit := do
  let calls ← get
  set (calls ++ [c])
  match api.lastError calls c with
  | none => return ()
  | some code => Effect.raise code

/-- `struct request_config`, without the callbacks that read the response. -/
structure RequestConfig where
  scheme : Str
  host : Str
  path : Str
  method : Str
  headers : Str
  body : Str
  verifyServerCrt : Bool

/-- `do_http_request_ctx` up to the status code, which it asks for last. -/
def sendHttpRequestCtx (api : WinApi) (config : RequestConfig) (ctx : Option CertContext) :
    Calling Unit := do
  api.call .winHttpOpen
  let data := extractDataFromHost config.host config.scheme
  api.call (.winHttpConnect data.host (toInternetPort data.port))
  let flags := if data.isHttps then [RequestFlag.refresh, .secure] else [RequestFlag.refresh]
  api.call (.winHttpOpenRequest config.method config.path flags)
  if data.isHttps then api.call (.setClientCertContext ctx)
  if !config.verifyServerCrt then api.call .setSecurityFlags
  api.call (.winHttpSendRequest config.headers config.body)
  api.call .winHttpReceiveResponse
  Effect.catching (api.call .queryStatusCode) fun _ => some (Effect.raise ERROR_API_UNAVAILABLE)

/-- `formatHeaders` -/
def formatHeaders (headers : Headers) : Str :=
  (headers.entries.map fun header => header.1 ++ ": ".toList ++ header.2 ++ "\r\n".toList).flatten ++
    "\r\n".toList

/-- `WINHttpLibClientImpl` -/
structure WINHttpLibClientImpl where
  baseAddress : URI
  kp : Option MTLSKeyPair := none
  serverVerify : Bool := true

/-- The constructor parses its endpoint. -/
def WINHttpLibClientImpl.new (endpoint : Str) (kp : Option MTLSKeyPair) :
    Except StdException WINHttpLibClientImpl := do
  return { baseAddress := ← URI.fromString endpoint, kp }

/-- `doHttpWinRequest`, whose strings are passed on as C strings. -/
def WINHttpLibClientImpl.doHttpWinRequest (cli : WINHttpLibClientImpl) (api : WinApi)
    (method path : Str) (headers : Headers) (body : Str) : Calling Unit :=
  let config : RequestConfig :=
    { scheme := cstr cli.baseAddress.scheme, host := cstr cli.baseAddress.authority, path, method
      headers := cstr (formatHeaders headers), body, verifyServerCrt := cli.serverVerify }
  match cli.kp with
  | some kp => do
    let ctx ← Effect.ofExcept (api.certContext kp)
    sendHttpRequestCtx api config (some ctx)
  | none => sendHttpRequestCtx api config none

end Up2date.Win
