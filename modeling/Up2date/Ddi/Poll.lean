import Up2date.Ddi.Downloads

/-!
# One poll

`doPoll` asks the server what to do and follows the link it is given: configuration data is
sent back, or the action is fetched, handed to the event handler, and the response of the
handler is posted as feedback.
-/

namespace Up2date.Ddi

open Cxx Uri Httpclient
open Json (Value)

/-- `Response::finishedToString` -/
def Finished.toText : Finished → Str
  | .success => "success".toList
  | .failure => "failure".toList
  | .none => "none".toList

/-- `Response::executionToString` -/
def Execution.toText : Execution → Str
  | .closed => "closed".toList
  | .proceeding => "proceeding".toList
  | .canceled => "canceled".toList
  | .scheduled => "scheduled".toList
  | .rejected => "rejected".toList
  | .resumed => "resumed".toList
  | .download => "download".toList
  | .downloaded => "downloaded".toList

/-- `ConfigResponse::modeToString` -/
def Mode.toText : Mode → Str
  | .merge => "merge".toList
  | .replace => "replace".toList
  | .remove => "remove".toList

/-- Add the members `status` and `id` to the members of a document. -/
def fillResponseDocument (response : Option Response) (document : List (Str × Value))
    (actionId : ℤ) : Except Exn (List (Str × Value)) :=
  match response with
  | none => .error .wrongResponse
  | some response =>
    let status := Value.object
      [("result".toList, .object [("finished".toList, .string response.finished.toText)]),
        ("execution".toList, .string response.execution.toText),
        ("details".toList, .array (response.details.map Value.string))]
    let document := document ++ [("status".toList, status)]
    .ok (if actionId ≥ 0 then document ++ [("id".toList, .string (stdToString actionId))]
      else document)

/-- The type of the documents. -/
def applicationJson : Str := "application/json".toList

/-- The document that answers a request for configuration data. -/
def configDocument (req : ConfigResponse) : Except Exn Value := do
  let data := Value.object (req.data.map fun val => (val.1, .string val.2))
  let document ← fillResponseDocument (some { finished := .success, execution := .closed })
    [("data".toList, data), ("mode".toList, .string req.mode.toText)] (-1)
  return .object document

/-- `followConfigData`: the handler is asked for data, which is sent unless there is none. -/
def followConfigData (env : Environment) (followURI : URI) : Program Unit := do
  let req ← callback env .onConfigRequest env.handler.onConfigRequest .config
  let req ← ofDecoder (Decoder.demand req)
  if req.data = [] then return
  let document ← Effect.ofExcept (configDocument req)
  let _ ← retryHandler env .configData followURI fun cli => do
    let w ← get
    cli.put env followURI.path w.client.defaultHeaders (cstr (env.write document)) applicationJson
  modify fun w => { w with client := { w.client with ignoreSleep := req.ignoreSleep } }

/-- `formatFeedbackPath`; the last character of an empty path is not defined. -/
def formatFeedbackPath (uri : URI) : Option Str :=
  match uri.path.getLast? with
  | none => none
  | some c =>
    let path := if c ≠ '/' then uri.path ++ "/".toList else uri.path
    some (path ++ "feedback".toList)

/-- The member of a listener that is called with an outcome. -/
def callListener (env : Environment) (cliResp : Response) (c : Callback)
    (member : ResponseDeliveryListener → UserCode Unit) : Program Unit :=
  match cliResp.deliveryListener with
  | some listener => callback env c (fun _ => member listener) fun _ => .void
  | none => pure ()

/-- The request that posts feedback. -/
def postFeedback (env : Environment) (followURI : URI) (document : Value) :
    Program Httpclient.Response :=
  retryHandler env .feedback followURI fun cli => do
    let path ← ofDecoder (Decoder.demand (formatFeedbackPath followURI))
    let w ← get
    cli.post env path w.client.defaultHeaders (cstr (env.write document)) applicationJson

/-- The handler of a failed delivery, which catches only unexpected codes. -/
def deliveryFailed (env : Environment) (cliResp : Response) : Exn → Option (Program Unit)
  | .httpUnexpectedCodeException presented expected => some <|
    match cliResp.deliveryListener with
    | some _ => callListener env cliResp .onError ResponseDeliveryListener.onError
    | none => Effect.raise (.httpUnexpectedCodeException presented expected)
  | _ => none

/-- The `try` block that posts feedback and tells the listener. -/
def deliverFeedback (env : Environment) (followURI : URI) (cliResp : Response)
    (document : Value) : Program Unit :=
  Effect.catching (do
    let _ ← postFeedback env followURI document
    callListener env cliResp .onSuccessfulDelivery ResponseDeliveryListener.onSuccessfulDelivery)
    (deliveryFailed env cliResp)

/-- What follows the callback of an action. -/
def answerAction (env : Environment) (followURI : URI) (actionId : ℤ)
    (cliResp : Option Response) : Program Unit := do
  let document ← Effect.ofExcept (fillResponseDocument cliResp [] actionId)
  let cliResp ← ofDecoder (Decoder.demand cliResp)
  deliverFeedback env followURI cliResp (.object document)
  modify fun w => { w with client := { w.client with ignoreSleep := cliResp.ignoreSleep } }

/-- The request that fetches an action. -/
def getAction (env : Environment) (followURI : URI) : Program Httpclient.Response :=
  retryHandler env .action followURI fun cli => do
    let w ← get
    cli.get env followURI.path w.client.defaultHeaders

/-- `followCancelAction`: the action is fetched, handled and answered. -/
def followCancelAction (env : Environment) (followURI : URI) : Program Unit := do
  let resp ← getAction env followURI
  let cancelAction ← ofDecoder (CancelAction.fromString env.parse resp.body)
  let cliResp ← callback env (.onCancelAction cancelAction)
    (fun trace => env.handler.onCancelAction trace cancelAction) .response
  answerAction env followURI cancelAction.id cliResp

/-- `followDeploymentBase`: the deployment is fetched, handled and answered. -/
def followDeploymentBase (env : Environment) (followURI : URI) : Program Unit := do
  let resp ← getAction env followURI
  let deploymentBase ← ofDecoder (DeploymentBase.from env.parse resp.body)
  let cliResp ← callback env (.onDeploymentAction deploymentBase)
    (fun trace => env.handler.onDeploymentAction trace deploymentBase) .response
  answerAction env followURI deploymentBase.id cliResp

/-- What the two have in common: an action is fetched, decoded, handed to its callback and answered. -/
def followAction {α : Type} (env : Environment) (decode : Str → Decoder α) (c : α → Callback)
    (code : List Event → α → UserCode (Option Response)) (actionId : α → ℤ) (followURI : URI) :
    Program Unit := do
  let resp ← getAction env followURI
  let action ← ofDecoder (decode resp.body)
  let cliResp ← callback env (c action) (fun trace => code trace action) .response
  answerAction env followURI (actionId action) cliResp

/-- A cancel action is followed as an action. -/
theorem followCancelAction_eq (env : Environment) (followURI : URI) :
    followCancelAction env followURI =
      followAction env (CancelAction.fromString env.parse) .onCancelAction
        env.handler.onCancelAction CancelAction.id followURI := rfl

/-- A deployment is followed as an action. -/
theorem followDeploymentBase_eq (env : Environment) (followURI : URI) :
    followDeploymentBase env followURI =
      followAction env (DeploymentBase.from env.parse) .onDeploymentAction
        env.handler.onDeploymentAction DeploymentBase.id followURI := rfl

/-- The request that polls; path and headers are those of the client when it is sent. -/
def getPoll (env : Environment) (reqUri : URI) : Program Httpclient.Response :=
  retryHandler env .poll reqUri fun cli => do
    let w ← get
    cli.get env w.client.hawkbitURI.path w.client.defaultHeaders

/-- Without a sleep time of the server the default one is used. -/
def setSleepTime (sleepTime : ℤ) (cli : HawkbitCommunicationClient) :
    HawkbitCommunicationClient :=
  { cli with currentSleepTime := if sleepTime > 0 then sleepTime else cli.defaultSleepTime }

/-- What the polling data asks for. -/
def follow (env : Environment) (polingData : PollingData) : Program Unit :=
  match polingData.action with
  | .none => callback env .onNoActions env.handler.onNoActions fun _ => .void
  | .getConfigData => followConfigData env polingData.followURI
  | .cancelAction => followCancelAction env polingData.followURI
  | .deploymentBase => followDeploymentBase env polingData.followURI

/-- `doPoll`: the poll is requested and understood, and its first link is followed. -/
def doPoll (env : Environment) : Program Unit := do
  let w ← get
  let resp ← getPoll env w.client.hawkbitURI
  let polingData ← ofDecoder (PollingData.fromString env.parse resp.body)
  modify fun w => { w with client := setSleepTime polingData.sleepTime w.client }
  follow env polingData

end Up2date.Ddi
