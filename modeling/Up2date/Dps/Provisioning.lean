import Up2date.Cxx.Effects
import Up2date.Json.Value
import Up2date.Modules.HttpClient
import Up2date.Modules.UriParse

/-!
# The provisioning client and the token exchanger

Each of the two sends one `POST` request with a JSON object of one member, and reads strings
from the JSON object of the reply. The JSON library and the service are parameters: a parser
reads a null-terminated string, a writer may write anything, and the request may end with any
result or with an exception of the HTTP client made for it.
-/

namespace Up2date.Dps

open Cxx Uri Httpclient
open Json (Value)

/-- The status of the token exchange and of a provisioning. -/
def HTTP_OK : ℤ := 200

/-- The other status of a provisioning. -/
def HTTP_CREATED : ℤ := 201

/-- The exceptions of the module, and those of the HTTP client. -/
inductive Exn
  | httplibError (errorNum : ℤ)
  | provisioningError (errorNum : ℤ)
  | up2dateCloudError (msg : Str)
  | std (e : StdException)
deriving DecidableEq, Repr

/-- How a call ends. -/
abbrev Outcome (α : Type) := Except (Fault Exn) α

/-- Throw an exception. -/
def raise {α : Type} (e : Exn) : Outcome α := .error (.thrown e)

/-- Use an accessor; outside its precondition the behaviour is undefined. -/
def demand {α : Type} : Option α → Outcome α
  | some a => .ok a
  | none => .error .undefined

/-- The JSON library. -/
structure JsonLibrary where
  parse : Str → Option Value
  write : Value → Str

/-- What a `Post` of a new HTTP client ends with. -/
abbrev Service := Request → Except StdException Httpclient.Result

/-- The request a new client makes of a URI. -/
def postRequest (uri : URI) (headers : Headers) (body : Str) : Request :=
  { method := .post, endpoint := uri.scheme ++ "://".toList ++ uri.authority, target := cstr uri.path
    keyPair := none, verify := true, headers, body, contentType := "application/json".toList }

/-- `Post` on a new client. -/
def post (service : Service) (request : Request) : Outcome Httpclient.Result :=
  (service request).mapError fun e => .thrown (.std e)

/-- The exception for a body that is no document of the right shape. -/
def badPayload : Exn := .up2dateCloudError "Bad payload received from DPS".toList

/-- `!document.HasMember(name)` for one of the names, tested in order until one is missing. -/
def lacksMember (document : Value) : List Str → Outcome Bool
  | [] => pure false
  | name :: rest => do
    if ← demand (document.hasMember name) then lacksMember document rest else pure true

/-- What both calls do with a result before they read its members. -/
def checkedDocument (json : JsonLibrary) (unexpected : ℤ → Bool) (names : List Str) :
    Httpclient.Result → Outcome Value
  | .failed e => raise (.httplibError e.val.toInt)
  | .response resp =>
    if unexpected resp.status then raise (.provisioningError resp.status)
    else
      match json.parse (cstr resp.body) with
      | none => raise badPayload
      | some document => do
        if ← lacksMember document names then raise badPayload else pure document

/-- `document[name].GetString()` -/
def memberText (document : Value) (name : Str) : Outcome Str := do
  let member ← demand (document.member name)
  let text ← demand member.getString
  return cstr text

/-- `ProvisioningData_impl` -/
structure ProvisioningData where
  keyPair : MTLSKeyPair
  up2DateEndpoint : Str
deriving DecidableEq, Repr

/-- `ProvisioningClient_impl` -/
structure ProvisioningClient where
  crt : Str
  provisioningURI : URI
  provisioningHeaders : Headers

/-- The document of a provisioning request. -/
def ProvisioningClient.formatCertificateUpdatePayload (cli : ProvisioningClient)
    (json : JsonLibrary) : Str :=
  cstr (json.write (.object [("tq".toList, .string cli.crt)]))

/-- The request of a provisioning. -/
def ProvisioningClient.request (cli : ProvisioningClient) (json : JsonLibrary) : Request :=
  postRequest cli.provisioningURI cli.provisioningHeaders (cli.formatCertificateUpdatePayload json)

/-- The members that `doProvisioning` asks for, in the order of the tests. -/
def provisioningMembers : List Str := ["crt".toList, "endpoint".toList, "key".toList]

/-- A provisioning: the request, its checks and the data that is read. -/
def ProvisioningClient.doProvisioning (cli : ProvisioningClient) (json : JsonLibrary)
    (service : Service) : Outcome ProvisioningData := do
  let resp ← post service (cli.request json)
  let document ← checkedDocument json (fun status => status != HTTP_OK && status != HTTP_CREATED)
    provisioningMembers resp
  let crt ← memberText document "crt".toList
  let key ← memberText document "key".toList
  let endpoint ← memberText document "endpoint".toList
  return { keyPair := { crt, key }, up2DateEndpoint := endpoint }

/-- The member with the token. -/
def OTT_FIELD_NAME : Str := "oneTimeToken".toList

/-- The member with the certificate. -/
def CERTIFICATE_FIELD_NAME : Str := "crt".toList

/-- `TokenExchanger_impl` -/
structure TokenExchanger where
  url : URI
  ott : Str

/-- The request of a token exchange. -/
def TokenExchanger.request (exchanger : TokenExchanger) (json : JsonLibrary) : Request :=
  postRequest exchanger.url Multimap.empty
    (cstr (json.write (.object [(OTT_FIELD_NAME, .string exchanger.ott)])))

/-- The status is compared with `HTTP_OK` twice. -/
def TokenExchanger.exchange (exchanger : TokenExchanger) (json : JsonLibrary) (service : Service) :
    Outcome Str := do
  let resp ← post service (exchanger.request json)
  let responseDocument ← checkedDocument json
    (fun status => status != HTTP_OK && status != HTTP_OK) [CERTIFICATE_FIELD_NAME] resp
  memberText responseDocument CERTIFICATE_FIELD_NAME

end Up2date.Dps
