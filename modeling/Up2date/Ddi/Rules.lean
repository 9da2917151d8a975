import Up2date.Ddi.Attempts
import Up2date.Ddi.Poll

/-!
# Relations that a poll respects

A reflexive and transitive relation between states holds across a whole poll as soon as it
holds across its parts: logging, the calls made on the client, the data of downloads, the
two settings a poll writes, and its requests. Requests come under the same rules when the
relation does not tell the events of a request apart.
-/

namespace Up2date.Ddi

open Cxx Uri Httpclient Computability
open Json (Value)

/-- The functions that send a request of an exchange. -/
inductive Sending (env : Environment) : Exchange → (HttpClient → Program Httpclient.Result) → Prop
  | collected (x : Exchange) (method : Method) (path : World → Str) (body contentType : Str) :
      Sending env x (fun cli => do
        let w ← get
        collect (← cli.send env
          (cli.request method (path w) w.client.defaultHeaders body contentType)))
  | feedback (followURI : URI) (document : Value) : Sending env .feedback (fun cli => do
      let path ← ofDecoder (Decoder.demand (formatFeedbackPath followURI))
      let w ← get
      cli.post env path w.client.defaultHeaders (cstr (env.write document)) applicationJson)
  | toFile (path : Str) : Sending env .download (fun cli => do
      let w ← get
      cli.getTo env path w.client.defaultHeaders acceptOk (writeFile env))
  | toReceiver (path : Str) (func : ContentReceiver) : Sending env .download (fun cli => do
      let w ← get
      cli.getTo env path w.client.defaultHeaders acceptOk (receiveChunk func))

/-- What a relation must hold across for requests to respect it. -/
structure RequestRules (R : World → World → Prop) : Prop where
  log : ∀ e w, (∀ s, e ≠ .signal s) → R w (w.log e)
  signal : ∀ s w, R w (w.signal s)
  setting : ∀ s w cli, w.client.perform s = .ok cli → R w { w with client := cli }
  data : ∀ w received file files, R w { w with received := received, file := file, files := files }

/-- What a relation must hold across for `onAuthError` to respect it. -/
structure RestoreRules (R : World → World → Prop) : Prop where
  log : ∀ e w, (∀ s, e ≠ .signal s) → R w (w.log e)
  signal : ∀ s w, R w (w.signal s)
  setting : ∀ s w cli, w.client.perform s = .ok cli → R w { w with client := cli }

/-- `onAuthError` is called in the course of requests. -/
theorem RequestRules.restoreRules {R : World → World → Prop} (h : RequestRules R) :
    RestoreRules R where
  log := h.log
  signal := h.signal
  setting := h.setting

/-- What a relation must hold across for an attempt to respect it. -/
structure AttemptRules (R : World → World → Prop) : Prop where
  log : ∀ e w, (∀ s, e ≠ .signal s) → (∀ s, e ≠ .set s) → R w (w.log e)
  signal : ∀ s w, R w (w.signal s)
  data : ∀ w received file files, R w { w with received := received, file := file, files := files }

/-- No setting is made in an attempt. -/
theorem RequestRules.attemptRules {R : World → World → Prop} (h : RequestRules R) :
    AttemptRules R where
  log e w hsignal _ := h.log e w hsignal
  signal := h.signal
  data := h.data

/-- The events that mark where requests and callbacks begin and end. -/
def Event.IsMark : Event → Prop
  | .sent _ _ _ _ => False
  | .set _ => False
  | .signal _ => False
  | _ => True

/-- What a relation must hold across for what surrounds the attempts of a request. -/
structure MarkRules (R : World → World → Prop) : Prop where
  log : ∀ e w, Event.IsMark e → R w (w.log e)
  restore : ∀ call, Respects R (performRestore call)

/-- What a relation must hold across for what surrounds the attempts of a request, with a call
of `onAuthError` as a whole. -/
structure RetryRules (env : Environment) (R : World → World → Prop) : Prop where
  issued : ∀ x w, R w (w.log (.issued x))
  concluded : ∀ x r w, R w (w.log (.concluded x r))
  handler : ∀ d onAuthError, env.authErrorHandler = some onAuthError →
    Respects R (callOnAuthError d onAuthError)

/-- What a relation must hold across for a call of `onAuthError` to respect it, where a setting
and its event are one. -/
structure HandlerRules (R : World → World → Prop) : Prop where
  log : ∀ e w, (∀ s, e ≠ .signal s) → (∀ s, e ≠ .set s) → R w (w.log e)
  restore : ∀ call, Respects R (performRestore call)

/-- What a relation must hold across for the calls of user code to respect it. -/
structure CallRules (env : Environment) (R : World → World → Prop) : Prop where
  restore : ∀ call, Respects R (performRestore call)
  download : ∀ uri d, Respects R (performCall env (.download uri d))

/-- What a relation must hold across for callbacks to respect it. -/
structure CallbackRules (env : Environment) (R : World → World → Prop) : Prop extends
    CallRules env R where
  called : ∀ c w, R w (w.log (.called c))
  returned : ∀ c a w, R w (w.log (.returned c a))

/-- What a relation must hold across for the callbacks of a listener to respect it. -/
structure ListenerRules (env : Environment) (R : World → World → Prop) : Prop extends
    CallRules env R where
  called : ∀ c w, R w (w.log (.called c))
  returned : ∀ c w, R w (w.log (.returned c .void))

/-- A listener is called like any other callback. -/
theorem CallbackRules.listenerRules {env : Environment} {R : World → World → Prop}
    (h : CallbackRules env R) : ListenerRules env R where
  toCallRules := h.toCallRules
  called := h.called
  returned c := h.returned c .void

/-- What a relation must hold across for following one link to respect it. -/
structure LinkRules (env : Environment) (R : World → World → Prop) (uri : URI) : Prop extends
    CallbackRules env R where
  config : ∀ body, Respects R (retryHandler env .configData uri fun cli => do
    let w ← get
    cli.put env uri.path w.client.defaultHeaders body applicationJson)
  action : Respects R (getAction env uri)
  feedback : ∀ document, Respects R (postFeedback env uri document)
  ignoreSleep : ∀ w b, R w { w with client := { w.client with ignoreSleep := b } }

/-- What a relation must hold across for everything that follows a poll request to respect it. -/
structure FollowRules (env : Environment) (R : World → World → Prop) : Prop extends
    CallbackRules env R where
  request : ∀ x uri func, x ≠ .poll → x ≠ .download → Sending env x func →
    Respects R (retryHandler env x uri func)
  ignoreSleep : ∀ w b, R w { w with client := { w.client with ignoreSleep := b } }

/-- What a relation must hold across for a poll to respect it. -/
structure PollRules (env : Environment) (R : World → World → Prop) : Prop extends
    FollowRules env R where
  poll : ∀ uri func, Sending env .poll func → Respects R (retryHandler env .poll uri func)
  sleepTime : ∀ w t, R w { w with client := setSleepTime t w.client }

/-- The requests of the three downloads, from one URI, and what surrounds them. -/
structure DownloadRules (env : Environment) (R : World → World → Prop) (uri : URI) : Prop where
  recorded : ∀ d w, R w (w.log (.download uri d))
  toFile : Respects R (retryHandler env .download uri fun cli => do
    let w ← get
    cli.getTo env (formatDownloadPath uri) w.client.defaultHeaders acceptOk (writeFile env))
  body : Respects R (retryHandler env .download uri fun cli => do
    let w ← get
    cli.get env (formatDownloadPath uri) w.client.defaultHeaders)
  toReceiver : ∀ func, Respects R (retryHandler env .download uri fun cli => do
    let w ← get
    cli.getTo env (formatDownloadPath uri) w.client.defaultHeaders acceptOk (receiveChunk func))
  data : ∀ w received file files, R w { w with received := received, file := file, files := files }

/-- Following any link is part of what follows a poll request. -/
theorem FollowRules.linkRules {env : Environment} {R : World → World → Prop}
    (h : FollowRules env R) (uri : URI) : LinkRules env R uri where
  toCallbackRules := h.toCallbackRules
  config _ := h.request .configData uri _ nofun nofun (.collected .configData .put _ _ _)
  action := h.request .action uri _ nofun nofun (.collected .action .get _ [] [])
  feedback document := h.request .feedback uri _ nofun nofun (.feedback uri document)
  ignoreSleep := h.ignoreSleep

/-- A decoder touches no state. -/
theorem ofDecoder_respects {R : World → World → Prop} [Std.Refl R] {α : Type} (d : Decoder α) :
    Respects R (ofDecoder d) := by
  cases d with
  | ok a => exact Respects.pure a
  | error f => exact Respects.throw f

/-- The construction of a client touches no state. -/
theorem newHttpClient_respects {R : World → World → Prop} [Std.Refl R] (env : Environment)
    (x : Exchange) (a : Attempt) (uri : URI) : Respects R (newHttpClient env x a uri) := by
  intro w
  rw [newHttpClient_apply]
  cases env.connect w.trace (baseAddress uri) w.client.keyPair <;> exact refl_of R w

section Requests

variable {R : World → World → Prop} [Std.Refl R] [IsTrans World R]

/-- Calls of other threads respect what each of them respects. -/
theorem foldl_signal_respects (h : ∀ s w, R w (w.signal s)) (signals : List Signal) (w : World) :
    R w (signals.foldl World.signal w) := by
  induction signals generalizing w with
  | nil => exact refl_of R w
  | cons s rest ih => exact trans_of R (h s w) (ih (w.signal s))

/-- Signals that arrive during a request are respected one by one. -/
theorem AttemptRules.foldl_signal (h : AttemptRules R) (signals : List Signal) (w : World) :
    R w (signals.foldl World.signal w) := foldl_signal_respects h.signal signals w

/-- A call that `onAuthError` makes on the client. -/
theorem RestoreRules.performRestore (h : RestoreRules R) (call : Setting ⊕ Signal) :
    Respects R (performRestore call) := by
  cases call with
  | inr s => exact Respects.modify (h.signal s)
  | inl s =>
    refine Respects.bind (Respects.modify fun w => h.log _ w nofun) fun _ => ?_
    intro w
    rw [Effect.bind_of_ok (Effect.get_apply w), authRestoreHandler_perform]
    cases hperform : w.client.perform s with
    | error e => exact refl_of R w
    | ok cli => exact h.setting s w cli hperform

/-- A setting and its event are respected together when they are one by one. -/
theorem RestoreRules.handlerRules (h : RestoreRules R) : HandlerRules R where
  log e w hsignal _ := h.log e w hsignal
  restore := h.performRestore

omit [Std.Refl R] [IsTrans World R] in
/-- The marks are among the events that are no settings. -/
theorem HandlerRules.markRules (h : HandlerRules R) : MarkRules R where
  log e w he := by
    apply h.log
    · rintro s rfl
      exact he
    · rintro s rfl
      exact he
  restore := h.restore

/-- A call of `onAuthError` between its marks. -/
theorem MarkRules.callOnAuthError (h : MarkRules R) (d : Option Exchange)
    (onAuthError : List Event → RestoreCode) : Respects R (callOnAuthError d onAuthError) := by
  refine Respects.bind (Respects.modify fun w => h.log _ w trivial) fun _ => ?_
  refine Respects.bind Respects.get fun w => ?_
  refine Respects.bind (Interaction.run_respects h.restore _) fun _ => ?_
  refine Respects.bind Respects.get fun w => ?_
  exact Respects.modify fun w => h.log _ w trivial

/-- A call of `onAuthError`, with any rule for events that are no settings. -/
theorem HandlerRules.callOnAuthError (h : HandlerRules R) (d : Option Exchange)
    (onAuthError : List Event → RestoreCode) : Respects R (callOnAuthError d onAuthError) :=
  h.markRules.callOnAuthError d onAuthError

/-- The sending of one request is respected. -/
theorem AttemptRules.send (h : AttemptRules R) (env : Environment) (cli : HttpClient)
    (request : Request) : Respects R (cli.send env request) := by
  refine Respects.bind Respects.get fun w => ?_
  refine Respects.bind (Respects.modify fun w => h.log _ w nofun nofun) fun _ => ?_
  refine Respects.bind (Respects.modify fun w => h.foldl_signal _ w) fun _ => ?_
  exact Respects.pure _

/-- A request whose body is collected is respected. -/
theorem AttemptRules.collected (h : AttemptRules R) (env : Environment) (cli : HttpClient)
    (request : Request) : Respects R (do collect (← cli.send env request)) :=
  Respects.bind (h.send env cli request) fun _ => Respects.ofExcept _

/-- A request whose body goes to a receiver is respected when the receiver is. -/
theorem AttemptRules.streamed (h : AttemptRules R) (env : Environment) (cli : HttpClient)
    (path : Str) (headers : Headers) {receive : Str → Program Bool}
    (hreceive : ∀ chunk, Respects R (receive chunk)) :
    Respects R (cli.getTo env path headers acceptOk receive) :=
  Respects.bind (h.send env cli _) fun wire => stream_respects hreceive acceptOk wire

/-- Writing to a file changes the data of a download only. -/
theorem writeFile_respects (hdata : ∀ w received file files,
      R w { w with received := received, file := file, files := files })
    (env : Environment) (chunk : Str) : Respects R (writeFile env chunk) := by
  refine Respects.bind Respects.get fun w => ?_
  split
  · exact Respects.pure _
  · refine Respects.bind (Respects.modify fun w => ?_) fun _ => Respects.pure _
    exact hdata w w.received _ w.files

/-- Giving a chunk to a receiver changes the data of a download only. -/
theorem receiveChunk_respects (hdata : ∀ w received file files,
      R w { w with received := received, file := file, files := files })
    (func : ContentReceiver) (chunk : Str) : Respects R (receiveChunk func chunk) := by
  refine Respects.bind Respects.get fun w => ?_
  refine Respects.bind (Respects.modify fun w => hdata w _ w.file w.files) fun _ => ?_
  split
  · exact Respects.pure _
  · exact Respects.pure _
  · exact Respects.throw _

/-- Every request that the client sends is respected. -/
theorem AttemptRules.sending (h : AttemptRules R) {env : Environment} {x : Exchange}
    {func : HttpClient → Program Httpclient.Result} (hfunc : Sending env x func)
    (cli : HttpClient) : Respects R (func cli) := by
  cases hfunc with
  | collected _ method path body contentType =>
    exact Respects.bind Respects.get fun w => h.collected env cli _
  | feedback followURI document =>
    refine Respects.bind (ofDecoder_respects _) fun path => ?_
    exact Respects.bind Respects.get fun w => h.collected env cli _
  | toFile path =>
    exact Respects.bind Respects.get fun w => h.streamed env cli path _ (writeFile_respects h.data env)
  | toReceiver path func =>
    exact Respects.bind Respects.get fun w =>
      h.streamed env cli path _ (receiveChunk_respects h.data func)

/-- One attempt of a request is respected. -/
theorem AttemptRules.wrappedRequest (h : AttemptRules R) {env : Environment} {x : Exchange}
    {func : HttpClient → Program Httpclient.Result} (hfunc : Sending env x func) (a : Attempt)
    (uri : URI) : Respects R (wrappedRequest env x a uri func) := by
  refine Respects.noting ?_ fun r w => h.log _ w nofun nofun
  refine Respects.bind (newHttpClient_respects env x a uri) fun cli => ?_
  exact Respects.bind (h.sending hfunc cli) fun resp => Respects.ofExcept _

/-- A request respects what its attempts and `onAuthError` respect. -/
theorem RetryRules.retryHandler {env : Environment} (h : RetryRules env R) {x : Exchange}
    {func : HttpClient → Program Httpclient.Result} {uri : URI}
    (hattempt : ∀ a, Respects R (wrappedRequest env x a uri func)) :
    Respects R (retryHandler env x uri func) := by
  refine Respects.noting ?_ fun r w => h.concluded x (outcome r) w
  refine Respects.bind (Respects.modify fun w => h.issued x w) fun _ => ?_
  refine Respects.catching (hattempt .first) fun e handler he => ?_
  unfold retryAfter at he
  split at he
  · cases he
    cases henv : env.authErrorHandler with
    | none => exact Respects.throw _
    | some onAuthError =>
      refine Respects.bind (h.handler _ onAuthError henv) fun _ => ?_
      exact hattempt .second
  · cases he

/-- The call of `onAuthError` follows from the rules for marks. -/
theorem MarkRules.retryRules (h : MarkRules R) (env : Environment) : RetryRules env R where
  issued x w := h.log (.issued x) w trivial
  concluded x r w := h.log (.concluded x r) w trivial
  handler d onAuthError _ := h.callOnAuthError d onAuthError

/-- A request whose attempts are respected. -/
theorem MarkRules.retryHandler (h : MarkRules R) {env : Environment} {x : Exchange}
    {func : HttpClient → Program Httpclient.Result} {uri : URI}
    (hattempt : ∀ a, Respects R (wrappedRequest env x a uri func)) :
    Respects R (retryHandler env x uri func) :=
  (h.retryRules env).retryHandler hattempt

/-- The retry, with any rule for events that are no settings. -/
theorem HandlerRules.retryHandler (h : HandlerRules R) {env : Environment} {x : Exchange}
    {func : HttpClient → Program Httpclient.Result} {uri : URI}
    (hattempt : ∀ a, Respects R (wrappedRequest env x a uri func)) :
    Respects R (retryHandler env x uri func) :=
  h.markRules.retryHandler hattempt

/-- A request with its retry is respected. -/
theorem RequestRules.retryHandler (h : RequestRules R) {env : Environment} {x : Exchange}
    {func : HttpClient → Program Httpclient.Result} (hfunc : Sending env x func) (uri : URI) :
    Respects R (retryHandler env x uri func) :=
  h.restoreRules.handlerRules.retryHandler fun a => h.attemptRules.wrappedRequest hfunc a uri

end Requests

section Polls

variable {env : Environment} {R : World → World → Prop} [Std.Refl R] [IsTrans World R]

/-- A download to a file is its request between the opening and the closing of the file. -/
theorem downloadTo_respects (hdata : ∀ w received file files,
      R w { w with received := received, file := file, files := files })
    {uri : URI} (hrequest : Respects R (retryHandler env .download uri fun cli => do
      let w ← get
      cli.getTo env (formatDownloadPath uri) w.client.defaultHeaders acceptOk (writeFile env)))
    (path : Str) : Respects R (downloadTo env uri path) := by
  have hopen : Respects R (openFile env path) := by
    intro w
    change R w (if _ then _ else _)
    split
    · exact hdata w w.received _ _
    · exact hdata w w.received _ w.files
  have hclose : ∀ w, R w (closeFile env w) := by
    intro w
    unfold closeFile
    split
    · exact refl_of R w
    · exact hdata w w.received w.file _
  apply Respects.bind hopen
  intro _
  apply Respects.noting
  · apply Respects.bind hrequest
    intro _
    exact Respects.pure _
  · intro _ w
    exact hclose w

/-- A download into a string is respected when its request is. -/
theorem getBody_respects {uri : URI}
    (hrequest : Respects R (retryHandler env .download uri fun cli => do
      let w ← get
      cli.get env (formatDownloadPath uri) w.client.defaultHeaders)) :
    Respects R (getBody env uri) := by
  apply Respects.bind hrequest
  intro _
  exact Respects.pure _

/-- A download with a receiver is its request after the receiver was started anew. -/
theorem downloadWithReceiver_respects (hdata : ∀ w received file files,
      R w { w with received := received, file := file, files := files })
    {uri : URI} {func : ContentReceiver}
    (hrequest : Respects R (retryHandler env .download uri fun cli => do
      let w ← get
      cli.getTo env (formatDownloadPath uri) w.client.defaultHeaders acceptOk (receiveChunk func))) :
    Respects R (downloadWithReceiver env uri func) := by
  apply Respects.bind (Respects.modify fun w => hdata w [] w.file w.files)
  intro _
  apply Respects.bind hrequest
  intro _
  exact Respects.pure _

/-- A call of a download is recorded and performed. -/
theorem DownloadRules.performCall {uri : URI} (h : DownloadRules env R uri) (d : Download) :
    Respects R (performCall env (.download uri d)) := by
  apply Respects.bind (Respects.modify fun w => h.recorded d w)
  intro _
  cases d with
  | downloadTo path =>
    exact Respects.bind (downloadTo_respects h.data h.toFile path) fun _ => Respects.pure _
  | getBody => exact Respects.bind (getBody_respects h.body) fun _ => Respects.pure _
  | downloadWithReceiver func =>
    exact Respects.bind (downloadWithReceiver_respects h.data (h.toReceiver func)) fun _ =>
      Respects.pure _

/-- Calls of user code respect what its settings and the requests of downloads respect. -/
theorem callRules_of_requests (hrestore : ∀ call, Respects R (performRestore call))
    (hrecorded : ∀ uri d w, R w (w.log (.download uri d)))
    (hrequest : ∀ uri func, Sending env .download func →
      Respects R (retryHandler env .download uri func))
    (hdata : ∀ w received file files,
      R w { w with received := received, file := file, files := files }) : CallRules env R where
  restore := hrestore
  download uri d :=
    have hrules : DownloadRules env R uri :=
      { recorded := hrecorded uri
        toFile := hrequest uri _ (.toFile _)
        body := hrequest uri _ (.collected .download .get _ [] [])
        toReceiver := fun func => hrequest uri _ (.toReceiver _ func)
        data := hdata }
    hrules.performCall d

/-- Everything user code can call. -/
theorem CallRules.performCall (h : CallRules env R) (call : UserCall) :
    Respects R (performCall env call) := by
  cases call with
  | set s => exact Respects.bind (h.restore (.inl s)) fun _ => Respects.pure _
  | signal s => exact Respects.bind (h.restore (.inr s)) fun _ => Respects.pure _
  | download uri d => exact h.download uri d

/-- A callback is its calls between two events. -/
theorem CallRules.callback (h : CallRules env R) {α : Type} {c : Callback} {answer : α → Answer}
    (hcalled : ∀ w, R w (w.log (.called c))) (hreturned : ∀ a w, R w (w.log (.returned c (answer a))))
    (code : List Event → UserCode α) : Respects R (callback env c code answer) := by
  apply Respects.bind (Respects.modify hcalled)
  intro _
  refine Respects.bind Respects.get fun w => ?_
  apply Respects.bind (Interaction.run_respects h.performCall (code w.trace))
  intro a
  apply Respects.bind (Respects.modify (hreturned a))
  intro _
  exact Respects.pure a

/-- A callback of the user is respected. -/
theorem CallbackRules.callback (h : CallbackRules env R) {α : Type} (c : Callback)
    (code : List Event → UserCode α) (answer : α → Answer) :
    Respects R (callback env c code answer) :=
  h.toCallRules.callback (h.called c) (fun a => h.returned c (answer a)) code

/-- A call of the listener of a response is respected. -/
theorem ListenerRules.callListener (h : ListenerRules env R) (cliResp : Response) (c : Callback)
    (member : ResponseDeliveryListener → UserCode Unit) :
    Respects R (callListener env cliResp c member) := by
  unfold Up2date.Ddi.callListener
  split
  · exact h.toCallRules.callback (h.called c) (fun _ => h.returned c) _
  · exact Respects.pure _

/-- A delivery is the request that posts feedback and calls of the listener. -/
theorem ListenerRules.deliverFeedback (h : ListenerRules env R) {uri : URI} {document : Value}
    (hpost : Respects R (postFeedback env uri document)) (cliResp : Response) :
    Respects R (deliverFeedback env uri cliResp document) := by
  apply Respects.catching
  · apply Respects.bind hpost
    intro _
    exact h.callListener _ _ _
  · intro e handler he
    unfold deliveryFailed at he
    split at he
    · cases he
      split
      · exact h.callListener _ _ _
      · exact Respects.throw _
    · cases he

/-- The answer to a config request is respected. -/
theorem LinkRules.followConfigData {uri : URI} (h : LinkRules env R uri) :
    Respects R (followConfigData env uri) := by
  apply Respects.bind (h.callback _ _ _)
  intro req
  refine Respects.bind (ofDecoder_respects _) fun req => ?_
  split
  · exact Respects.pure _
  · refine Respects.bind (Respects.ofExcept _) fun document => ?_
    apply Respects.bind (h.config _)
    intro _
    exact Respects.modify fun w => h.ignoreSleep w _

/-- The feedback for an action is respected. -/
theorem LinkRules.answerAction {uri : URI} (h : LinkRules env R uri) (actionId : ℤ)
    (cliResp : Option Response) : Respects R (answerAction env uri actionId cliResp) := by
  refine Respects.bind (Respects.ofExcept _) fun document => ?_
  refine Respects.bind (ofDecoder_respects _) fun cliResp => ?_
  apply Respects.bind (h.listenerRules.deliverFeedback (h.feedback _) cliResp)
  intro _
  exact Respects.modify fun w => h.ignoreSleep w _

/-- The action behind a link is respected, from its document to its feedback. -/
theorem LinkRules.followAction {uri : URI} (h : LinkRules env R uri) {α : Type}
    (decode : Str → Decoder α) (c : α → Callback)
    (code : List Event → α → UserCode (Option Response)) (actionId : α → ℤ) :
    Respects R (followAction env decode c code actionId uri) := by
  apply Respects.bind h.action
  intro resp
  refine Respects.bind (ofDecoder_respects _) fun action => ?_
  apply Respects.bind (h.callback _ _ _)
  intro cliResp
  exact h.answerAction _ cliResp

/-- The cancel action behind a link is respected. -/
theorem LinkRules.followCancelAction {uri : URI} (h : LinkRules env R uri) :
    Respects R (followCancelAction env uri) := h.followAction _ _ _ _

/-- The deployment behind a link is respected. -/
theorem LinkRules.followDeploymentBase {uri : URI} (h : LinkRules env R uri) :
    Respects R (followDeploymentBase env uri) := h.followAction _ _ _ _

/-- What a poll asks for. -/
theorem FollowRules.follow (h : FollowRules env R) (polingData : PollingData) :
    Respects R (follow env polingData) := by
  unfold Up2date.Ddi.follow
  split
  · exact h.toCallbackRules.callback _ _ _
  · exact (h.linkRules _).followConfigData
  · exact (h.linkRules _).followCancelAction
  · exact (h.linkRules _).followDeploymentBase

/-- A poll respects every relation that its parts respect. -/
theorem PollRules.doPoll (h : PollRules env R) : Respects R (doPoll env) := by
  refine Respects.bind Respects.get fun w => ?_
  apply Respects.bind (h.poll _ _ (.collected .poll .get _ [] []))
  intro resp
  refine Respects.bind (ofDecoder_respects _) fun polingData => ?_
  apply Respects.bind (Respects.modify fun w => h.sleepTime w _)
  intro _
  exact h.follow polingData

/-- The rules for requests give those for a poll. -/
theorem RequestRules.pollRules (h : RequestRules R) (env : Environment)
    (hignoreSleep : ∀ w b, R w { w with client := { w.client with ignoreSleep := b } })
    (hsleepTime : ∀ w t, R w { w with client := setSleepTime t w.client }) : PollRules env R where
  toCallRules := callRules_of_requests h.restoreRules.performRestore
    (fun _ _ w => h.log _ w nofun) (fun uri _ hfunc => h.retryHandler hfunc uri) h.data
  called _ w := h.log _ w nofun
  returned _ _ w := h.log _ w nofun
  request _ uri _ _ _ hfunc := h.retryHandler hfunc uri
  poll uri _ hfunc := h.retryHandler hfunc uri
  ignoreSleep := hignoreSleep
  sleepTime := hsleepTime

end Polls

/-! ### Rejected requests -/

/-- The status 401, with its whole body. -/
def Rejected (wire : Wire) : Prop := ∃ chunks, wire = .answered HTTP_UNAUTHORIZED chunks none

/-- A collected reply ends an attempt so exactly when its status is 401. -/
theorem checked_collected_unauthorized_iff (wire : Wire) :
    checked (collected wire) = unauthorized ↔ Rejected wire := by
  constructor
  · intro h
    cases wire with
    | threw e => cases h
    | failed e => cases h
    | answered status chunks cut =>
      cases cut with
      | some e => cases h
      | none =>
        have hcheck : checkHttpCode status HTTP_OK = .error .unauthorizedException := by
          cases hc : checkHttpCode status HTTP_OK with
          | ok _ => simp [checked, collected, Wire.collect, checkResult, hc, unauthorized, bind,
              Except.bind, Except.mapError, Except.map] at h
          | error e => simpa [checked, collected, Wire.collect, checkResult, hc, unauthorized, bind,
              Except.bind, Except.mapError, Except.map] using h
        exact ⟨chunks, by rw [(checkHttpCode_unauthorized_iff status).mp hcheck]⟩
  · intro h
    obtain ⟨chunks, rfl⟩ := h
    rfl

/-- What is sent under a contract is sent under a weaker one. -/
theorem Sends.mono {C D : Contract} {func : HttpClient → Program Httpclient.Result}
    (h : Sends C func)
    (hCD : ∀ w request wire result, C w request wire result → D w request wire result) :
    Sends D func := by
  intro cli w
  obtain hundefined | ⟨request, wire, signals, htrace, hendpoint, hkeyPair, hheaders, hC⟩ := h cli w
  · exact Or.inl hundefined
  · exact Or.inr ⟨request, wire, signals, htrace, hendpoint, hkeyPair, hheaders, hCD _ _ _ _ hC⟩

/-- Feedback is sent to the path that its link gives. -/
theorem sends_feedback {C : Contract} {env : Environment} {followURI : URI} {body : Str}
    (h : ∀ path, formatFeedbackPath followURI = some path → Sends C (fun cli => do
      let w ← get
      cli.post env path w.client.defaultHeaders body applicationJson)) :
    Sends C (fun cli => do
      let path ← ofDecoder (Decoder.demand (formatFeedbackPath followURI))
      let w ← get
      cli.post env path w.client.defaultHeaders body applicationJson) := by
  cases hpath : formatFeedbackPath followURI with
  | none => exact fun cli w => Or.inl rfl
  | some path => exact h path hpath

/-- Every sending function sends its request under a contract. -/
theorem Sending.exists_sends {env : Environment} {x : Exchange}
    {func : HttpClient → Program Httpclient.Result} (h : Sending env x func) :
    ∃ C, Sends C func := by
  cases h with
  | collected _ method path body contentType =>
    exact ⟨_, sends_collected env method path body contentType⟩
  | feedback followURI document =>
    have hunrestricted : ∀ path, Sends (fun _ _ _ _ => True) (fun cli => do
        let w ← get
        cli.post env path w.client.defaultHeaders (cstr (env.write document)) applicationJson) :=
      fun path => (sends_collected env .post (fun _ => path) _ applicationJson).mono
        fun _ _ _ _ _ => trivial
    exact ⟨_, sends_feedback fun path _ => hunrestricted path⟩
  | toFile path =>
    exact ⟨_, sends_streamed env path _ (writeFile_respects (fun _ _ _ _ => rfl) env)⟩
  | toReceiver path func =>
    exact ⟨_, sends_streamed env path _ (receiveChunk_respects (fun _ _ _ _ => rfl) func)⟩

/-! ### Parts of a trace -/

section Parts

variable {P : Event → Bool} (env : Environment)

/-- A request does not change a part of the trace that none of its events belongs to. -/
theorem retryHandler_filter {x : Exchange} (hP : ∀ e : Event, e.IsOf x → P e = false)
    {func : HttpClient → Program Httpclient.Result} (hfunc : Sending env x func) (uri : URI) :
    Respects (Keeps fun w => w.trace.filter P) (retryHandler env x uri func) := by
  intro w
  obtain ⟨C, hsends⟩ := hfunc.exists_sends
  obtain ⟨seg, htrace, hrequest⟩ := retryHandler_trace hsends env x uri w
  have hseg : seg.filter P = [] := by
    rw [List.filter_eq_nil_iff]
    intro e he
    rw [hP e (hrequest.isOf e he)]
    nofun
  change (finalState (retryHandler env x uri func w)).trace.filter P = w.trace.filter P
  rw [htrace, List.filter_append, hseg, List.append_nil]

/-- Neither do the calls of user code when no event of a download belongs to it. -/
theorem callRules_filter (hP : ∀ e : Event, e.IsOf .download → P e = false)
    (hdownload : ∀ uri d, P (.download uri d) = false) :
    CallRules env (Keeps fun w => w.trace.filter P) := by
  apply callRules_of_requests
  · intro call
    refine Respects.mono ?_ (performRestore_respects call)
    intro w w' h
    obtain ⟨quiet, hquiet, htrace⟩ := h
    have hseg : quiet.filter P = [] := by
      rw [List.filter_eq_nil_iff]
      intro e he
      rw [hP e ((mem_letters_kstar.mp hquiet e he).isOf .download)]
      nofun
    change w'.trace.filter P = w.trace.filter P
    rw [htrace, List.filter_append, hseg, List.append_nil]
  · intro uri d w
    change (w.trace ++ [_]).filter P = w.trace.filter P
    rw [List.filter_append, List.filter_cons_of_neg (by simp [hdownload])]
    exact List.append_nil _
  · exact fun uri _ hfunc => retryHandler_filter env hP hfunc uri
  · exact fun _ _ _ _ => rfl

end Parts

section Letters

variable (env : Environment) {P : Event → Prop}

/-- A request appends events with a property that its events have. -/
theorem retryHandler_letters {x : Exchange} (hof : ∀ e, Event.IsOf x e → P e)
    {func : HttpClient → Program Httpclient.Result} (hfunc : Sending env x func) (uri : URI) :
    Respects (GrowsBy World.trace (letters P)∗) (retryHandler env x uri func) := by
  intro w
  obtain ⟨C, hsends⟩ := hfunc.exists_sends
  obtain ⟨seg, htrace, hrequest⟩ := retryHandler_trace hsends env x uri w
  exact ⟨seg, mem_letters_kstar.mpr fun e he => hof e (hrequest.isOf e he), htrace⟩

/-- So do callbacks, with the events of downloads. -/
theorem callbackRules_letters (hcalled : ∀ c, P (.called c)) (hreturned : ∀ c a, P (.returned c a))
    (hdownload : ∀ uri d, P (.download uri d)) (hof : ∀ e, Event.IsOf .download e → P e) :
    CallbackRules env (GrowsBy World.trace (letters P)∗) where
  toCallRules := by
    apply callRules_of_requests
    · intro call
      refine Respects.mono ?_ (performRestore_respects call)
      intro w w' h
      apply h.mono
      apply kstar_mono
      intro seg hseg
      obtain ⟨e, he, rfl⟩ := hseg
      exact ⟨e, hof e (he.isOf .download), rfl⟩
    · exact fun uri d w => GrowsBy.block ⟨.download uri d, hdownload uri d, rfl⟩ rfl
    · exact fun uri _ hfunc => retryHandler_letters env hof hfunc uri
    · exact fun _ _ _ _ => GrowsBy.unchanged rfl
  called c w := GrowsBy.block ⟨.called c, hcalled c, rfl⟩ rfl
  returned c a w := GrowsBy.block ⟨.returned c a, hreturned c a, rfl⟩ rfl

/-- So does what follows a poll request, with the events of other requests. -/
theorem followRules_letters (hcalled : ∀ c, P (.called c)) (hreturned : ∀ c a, P (.returned c a))
    (hdownload : ∀ uri d, P (.download uri d)) (hof : ∀ e x, x ≠ .poll → Event.IsOf x e → P e) :
    FollowRules env (GrowsBy World.trace (letters P)∗) where
  toCallbackRules := callbackRules_letters env hcalled hreturned hdownload fun e he =>
    hof e .download nofun he
  request x uri _ hx _ hfunc := retryHandler_letters env (fun e => hof e x hx) hfunc uri
  ignoreSleep _ _ := GrowsBy.unchanged rfl

end Letters

end Up2date.Ddi
