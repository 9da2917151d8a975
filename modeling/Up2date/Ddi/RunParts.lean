import Up2date.Ddi.Run

/-!
# The parts of a run

A relation between states holds across a whole run as soon as it holds across its parts: the
attempts of requests, the calls of `onAuthError`, the callbacks of the event handler and of the
listeners, and changes that concern neither the trace nor the settings. A callback and a call of
`onAuthError` are parts as a whole here, so that a relation may be about what the code of a
certain handler does.
-/

namespace Up2date.Ddi

open Cxx Uri Httpclient Computability
open Json (Value)

/-- The settings of a client. -/
structure Settings where
  hawkbitURI : URI
  defaultHeaders : Headers
  mTLSKeypair : MTLSKeypair
  serverCertificateVerify : Bool

/-- The settings of a client that decide where a request goes and with what. -/
def HawkbitCommunicationClient.settings (cli : HawkbitCommunicationClient) : Settings :=
  ⟨cli.hawkbitURI, cli.defaultHeaders, cli.mTLSKeypair, cli.serverCertificateVerify⟩

/-- A listener of a response that the event handler returns. -/
inductive Environment.Listens (env : Environment) (listener : ResponseDeliveryListener) : Prop
  | onCancelAction {trace action w response w'} :
      (env.handler.onCancelAction trace action).run (performCall env) w = .ok (some response) w' →
      response.deliveryListener = some listener → Listens env listener
  | onDeploymentAction {trace action w response w'} :
      (env.handler.onDeploymentAction trace action).run (performCall env) w = .ok (some response) w' →
      response.deliveryListener = some listener → Listens env listener

/-- What a relation must hold across for the event handler of an environment to respect it. -/
structure EventRules (env : Environment) (R : World → World → Prop) : Prop where
  onConfigRequest : Respects R (callback env .onConfigRequest env.handler.onConfigRequest .config)
  onCancelAction : ∀ action, Respects R (callback env (.onCancelAction action)
    (fun trace => env.handler.onCancelAction trace action) .response)
  onDeploymentAction : ∀ action, Respects R (callback env (.onDeploymentAction action)
    (fun trace => env.handler.onDeploymentAction trace action) .response)
  onNoActions : Respects R (callback env .onNoActions env.handler.onNoActions fun _ => .void)
  onSuccessfulDelivery : ∀ listener, env.Listens listener → Respects R
    (callback env .onSuccessfulDelivery (fun _ => listener.onSuccessfulDelivery) fun _ => .void)
  onError : ∀ listener, env.Listens listener →
    Respects R (callback env .onError (fun _ => listener.onError) fun _ => .void)

/-- What a relation must hold across for an attempt to respect it: its request is sent by a client
that was made from the settings in force. -/
structure SendRules (env : Environment) (R : World → World → Prop) : Prop where
  sent : ∀ x a (w : World) (request : Request), request.keyPair = w.client.keyPair →
    request.headers = w.client.defaultHeaders → request.verify = w.client.verify →
    R w (w.log (.sent x a request (env.server w.trace request).wire))
  ended : ∀ x a o w, R w (w.log (.ended x a o))
  signal : ∀ s w, R w (w.signal s)
  same : ∀ w w' : World, w'.trace = w.trace → w'.client.settings = w.client.settings → R w w'

/-- What a relation must hold across for a run to respect it. -/
structure PartRules (env : Environment) (R : World → World → Prop) : Prop extends
    SendRules env R, RetryRules env R, EventRules env R

section Parts

variable {env : Environment} {R : World → World → Prop} [Std.Refl R] [IsTrans World R]

/-- When every call of user code respects a relation, so does every callback. -/
theorem CallbackRules.eventRules (h : CallbackRules env R) : EventRules env R where
  onConfigRequest := h.callback _ _ _
  onCancelAction _ := h.callback _ _ _
  onDeploymentAction _ := h.callback _ _ _
  onNoActions := h.callback _ _ _
  onSuccessfulDelivery _ _ := h.callback _ _ _
  onError _ _ := h.callback _ _ _

namespace SendRules

omit [Std.Refl R] [IsTrans World R] in
/-- The data of a download is respected. -/
theorem data (h : SendRules env R) (w : World) (received : List Str) (file : FileStream)
    (files : Str → Option Str) : R w { w with received := received, file := file, files := files } :=
  h.same w _ rfl rfl

/-- A request of a client with the settings in force is respected. -/
theorem send (h : SendRules env R) (cli : HttpClient) {request : Request} {w : World}
    (hkeyPair : request.keyPair = w.client.keyPair)
    (hheaders : request.headers = w.client.defaultHeaders)
    (hverify : request.verify = w.client.verify) :
    R w (finalState (cli.send env request w)) :=
  trans_of R (h.sent cli.exchange cli.attempt w request hkeyPair hheaders hverify)
    (foldl_signal_respects h.signal _ _)

/-- A sending function whose client was made from the settings in force. -/
theorem sending (h : SendRules env R) {x : Exchange} {func : HttpClient → Program Httpclient.Result}
    (hfunc : Sending env x func) {cli : HttpClient} {w : World}
    (hkeyPair : cli.keyPair = w.client.keyPair) (hverify : cli.verify = w.client.verify) :
    R w (finalState (func cli w)) := by
  have hsend : ∀ method path body contentType, R w (finalState
      (cli.send env (cli.request method path w.client.defaultHeaders body contentType) w)) :=
    fun _ _ _ _ => h.send cli hkeyPair rfl hverify
  cases hfunc with
  | collected _ method path body contentType =>
    beta_reduce
    rw [Effect.bind_of_ok (Effect.get_apply w)]
    exact Respects.bind_at (hsend _ _ _ _) fun _ => Respects.ofExcept _
  | feedback followURI document =>
    cases hpath : formatFeedbackPath followURI with
    | none => exact refl_of R w
    | some path =>
      change R w (finalState ((cli.send env (cli.request .post path w.client.defaultHeaders
        (cstr (env.write document)) applicationJson) >>= collect) w))
      exact Respects.bind_at (hsend _ _ _ _) fun _ => Respects.ofExcept _
  | toFile path =>
    beta_reduce
    rw [Effect.bind_of_ok (Effect.get_apply w)]
    exact Respects.bind_at (hsend _ _ _ _) fun wire =>
      stream_respects (writeFile_respects h.data env) acceptOk wire
  | toReceiver path func =>
    beta_reduce
    rw [Effect.bind_of_ok (Effect.get_apply w)]
    exact Respects.bind_at (hsend _ _ _ _) fun wire =>
      stream_respects (receiveChunk_respects h.data func) acceptOk wire

/-- An attempt makes its client from the settings in force. -/
theorem wrappedRequest (h : SendRules env R) {x : Exchange}
    {func : HttpClient → Program Httpclient.Result} (hfunc : Sending env x func) (a : Attempt)
    (uri : URI) : Respects R (wrappedRequest env x a uri func) := by
  apply Respects.noting
  · intro w
    have hclient := newHttpClient_apply env x a uri w
    cases hconnect : env.connect w.trace (baseAddress uri) w.client.keyPair with
    | error e =>
      simp only [hconnect] at hclient
      rw [Effect.bind_of_error hclient]
      exact refl_of R w
    | ok _ =>
      simp only [hconnect] at hclient
      rw [Effect.bind_of_ok hclient]
      exact Respects.bind_at (h.sending hfunc rfl rfl) fun _ => Respects.ofExcept _
  · intro r w
    exact h.ended x a (outcome r) w

end SendRules

/-- Downloads concern neither the trace nor the settings beyond their requests. -/
theorem SendRules.performDownload (h : SendRules env R) (hretry : RetryRules env R)
    (hrecorded : ∀ uri d w, R w (w.log (.download uri d))) (uri : URI) (d : Download) :
    Respects R (performCall env (.download uri d)) := by
  have hrequest : ∀ func, Sending env .download func →
      Respects R (retryHandler env .download uri func) := fun _ hfunc =>
    hretry.retryHandler fun a => h.wrappedRequest hfunc a uri
  have hrules : DownloadRules env R uri := {
    recorded := hrecorded uri
    toFile := hrequest _ (.toFile _)
    body := hrequest _ (.collected .download .get _ [] [])
    toReceiver := fun func => hrequest _ (.toReceiver _ func)
    data := h.data }
  exact hrules.performCall d

/-- Downloads are requests of user code. -/
theorem SendRules.callRules (h : SendRules env R) (hretry : RetryRules env R)
    (hrestore : ∀ call, Respects R (performRestore call))
    (hrecorded : ∀ uri d w, R w (w.log (.download uri d))) : CallRules env R where
  restore := hrestore
  download := h.performDownload hretry hrecorded

omit [Std.Refl R] in
/-- A callback whose return respects the relation after the run of its code. -/
theorem callback_respects {α : Type} {c : Callback} {code : List Event → UserCode α}
    {answer : α → Answer} (hcalled : ∀ w, R w (w.log (.called c)))
    (hcode : ∀ trace, Respects R ((code trace).run (performCall env)))
    (hreturned : ∀ (w : World) a w', (code (w.log (.called c)).trace).run (performCall env)
      (w.log (.called c)) = .ok a w' → R w' (w'.log (.returned c (answer a)))) :
    Respects R (callback env c code answer) := by
  intro w
  have hrespects := hcode (w.log (.called c)).trace (w.log (.called c))
  unfold callback
  rw [Effect.bind_of_ok (record_apply _ w), Effect.bind_of_ok (Effect.get_apply _)]
  cases hrun : (code (w.log (.called c)).trace).run (performCall env) (w.log (.called c)) with
  | error f w' =>
    rw [hrun] at hrespects
    rw [Effect.bind_of_error hrun]
    exact trans_of R (hcalled w) hrespects
  | ok a w' =>
    rw [hrun] at hrespects
    rw [Effect.bind_of_ok hrun, Effect.bind_of_ok (record_apply _ w')]
    exact trans_of R (hcalled w) (trans_of R hrespects (hreturned w a w' hrun))

omit [Std.Refl R] [IsTrans World R] in
/-- What a callback returns its code has returned. -/
theorem run_of_callback_eq_ok {α : Type} {c : Callback} {code : List Event → UserCode α}
    {answer : α → Answer} {a : α} {w w' : World} (h : callback env c code answer w = .ok a w') :
    ∃ trace s s', (code trace).run (performCall env) s = .ok a s' := by
  unfold callback at h
  rw [Effect.bind_of_ok (record_apply _ w), Effect.bind_of_ok (Effect.get_apply _)] at h
  obtain ⟨b, s, hrun, h⟩ := Effect.bind_eq_ok h
  rw [Effect.bind_of_ok (record_apply _ s)] at h
  cases h
  exact ⟨_, _, _, hrun⟩

namespace PartRules

/-- A request with its retry is respected. -/
theorem request (h : PartRules env R) {x : Exchange} {func : HttpClient → Program Httpclient.Result}
    (hfunc : Sending env x func) (uri : URI) : Respects R (retryHandler env x uri func) :=
  h.toRetryRules.retryHandler fun a => h.wrappedRequest hfunc a uri

/-- The delivery of feedback is respected. -/
theorem deliverFeedback (h : PartRules env R) (uri : URI) {cliResp : Response} (document : Value)
    (hlistens : ∀ listener, cliResp.deliveryListener = some listener → env.Listens listener) :
    Respects R (deliverFeedback env uri cliResp document) := by
  apply Respects.catching
  · apply Respects.bind (h.request (.feedback uri document) uri)
    intro _
    unfold callListener
    cases hlistener : cliResp.deliveryListener with
    | none => exact Respects.pure _
    | some listener => exact h.onSuccessfulDelivery listener (hlistens listener hlistener)
  · intro e handler he
    unfold deliveryFailed at he
    split at he
    · cases he
      unfold callListener
      cases hlistener : cliResp.deliveryListener with
      | none => exact Respects.throw _
      | some listener => exact h.onError listener (hlistens listener hlistener)
    · cases he

omit [Std.Refl R] [IsTrans World R] in
/-- The flag is respected. -/
theorem ignoreSleep (h : PartRules env R) (b : Bool) : Respects R
    (modify fun w => { w with client := { w.client with ignoreSleep := b } } : Program Unit) :=
  Respects.modify fun w => h.same w _ rfl rfl

omit [Std.Refl R] [IsTrans World R] in
/-- The sleep time is respected. -/
theorem sleepTime (h : PartRules env R) (t : ℤ) : Respects R
    (modify fun w => { w with client := setSleepTime t w.client } : Program Unit) :=
  Respects.modify fun w => h.same w _ rfl rfl

/-- The answer to a config request is respected. -/
theorem followConfigData (h : PartRules env R) (uri : URI) :
    Respects R (followConfigData env uri) := by
  apply Respects.bind h.onConfigRequest
  intro req
  refine Respects.bind (ofDecoder_respects _) fun req => ?_
  split
  · exact Respects.pure _
  · refine Respects.bind (Respects.ofExcept _) fun document => ?_
    apply Respects.bind (h.request (.collected .configData .put _ _ _) uri)
    intro _
    exact h.ignoreSleep req.ignoreSleep

/-- An action is fetched, handed to its callback and answered. -/
theorem followAction (h : PartRules env R) (uri : URI) {α : Type} (decode : Str → Decoder α)
    {c : α → Callback} {code : List Event → α → UserCode (Option Response)} (actionId : α → ℤ)
    (hcallback : ∀ action, Respects R
      (callback env (c action) (fun trace => code trace action) .response))
    (hlistens : ∀ trace action w response w' listener,
      (code trace action).run (performCall env) w = .ok (some response) w' →
        response.deliveryListener = some listener → env.Listens listener) :
    Respects R (followAction env decode c code actionId uri) := by
  apply Respects.bind (h.request (.collected .action .get _ [] []) uri)
  intro resp
  refine Respects.bind (ofDecoder_respects _) fun action => ?_
  refine Respects.bind_returned (hcallback action) fun _ cliResp _ hreturned => ?_
  obtain ⟨trace, w, w', hrun⟩ := run_of_callback_eq_ok hreturned
  refine Respects.bind (Respects.ofExcept _) fun document => ?_
  cases cliResp with
  | none => exact fun w => refl_of R w
  | some response =>
    apply Respects.bind (h.deliverFeedback uri _ fun _ => hlistens _ _ _ _ _ _ hrun)
    intro _
    exact h.ignoreSleep response.ignoreSleep

/-- What a poll asks for is respected. -/
theorem follow (h : PartRules env R) (polingData : PollingData) :
    Respects R (follow env polingData) := by
  unfold Up2date.Ddi.follow
  split
  · exact h.onNoActions
  · exact h.followConfigData _
  · exact h.followAction _ _ _ h.onCancelAction fun _ _ _ _ _ _ => .onCancelAction
  · exact h.followAction _ _ _ h.onDeploymentAction fun _ _ _ _ _ _ => .onDeploymentAction

/-- A poll respects every relation that its parts respect. -/
theorem doPoll (h : PartRules env R) : Respects R (doPoll env) := by
  refine Respects.bind Respects.get fun w => ?_
  apply Respects.bind (h.request (.collected .poll .get _ [] []) _)
  intro resp
  refine Respects.bind (ofDecoder_respects _) fun polingData => ?_
  apply Respects.bind (h.sleepTime polingData.sleepTime)
  intro _
  exact h.follow polingData

/-- So does every step of a run. -/
theorem step (h : PartRules env R) (m : Machine) : R m.world (step env m).world := by
  unfold Up2date.Ddi.step
  cases hpc : m.pc with
  | restoreAuth =>
    cases henv : env.authErrorHandler with
    | none => exact h.same _ _ rfl rfl
    | some onAuthError =>
      simp only [call_world]
      exact h.handler none onAuthError henv m.world
  | poll =>
    simp only [call_world]
    exact h.doPoll m.world
  | _ => exact h.same _ _ rfl rfl

/-- And so does every run, with the calls of other threads. -/
theorem exec (h : PartRules env R) (schedule : ℕ → List Signal) (cli : HawkbitCommunicationClient)
    (n : ℕ) : R (launch cli).world (exec env schedule cli n).world := by
  induction n with
  | zero => exact foldl_signal_respects h.signal _ _
  | succ n ih =>
    apply trans_of R ih
    apply trans_of R (h.step _)
    exact foldl_signal_respects h.signal _ _

end PartRules

end Parts

/-! ### What is recorded -/

/-- Every event that is appended has a property, given the trace before it. -/
abbrev Chronicles (P : List Event → Event → Prop) : World → World → Prop :=
  Accounts World.trace (fun trace e => trace ++ [e]) P World.trace

section Chronicles

variable {P : List Event → Event → Prop}

/-- Events that are appended one by one are appended together. -/
theorem foldl_concat_eq (trace seg : List Event) :
    seg.foldl (fun trace e => trace ++ [e]) trace = trace ++ seg := by
  induction seg generalizing trace with
  | nil => exact (List.append_nil trace).symm
  | cons e rest ih => rw [List.foldl_cons, ih, List.append_assoc, List.singleton_append]

/-- An event that is logged is recorded. -/
theorem chronicles_log {e : Event} {w : World} (h : P w.trace e) : Chronicles P w (w.log e) :=
  ⟨[e], rfl, rfl, h, trivial⟩

/-- A signal that arrives is recorded. -/
theorem chronicles_signal {s : Signal} {w : World} (h : P w.trace (.signal s)) :
    Chronicles P w (w.signal s) := ⟨[.signal s], rfl, rfl, h, trivial⟩

/-- Nothing is recorded where the trace stays. -/
theorem chronicles_same {w w' : World} (h : w'.trace = w.trace) : Chronicles P w w' :=
  ⟨[], h.trans (List.append_nil _).symm, h, trivial⟩

/-- Events that have the property whatever was before them. -/
theorem chronicles_of_forall {w w' : World} {seg : List Event} (htrace : w'.trace = w.trace ++ seg)
    (h : ∀ e ∈ seg, ∀ trace, P trace e) : Chronicles P w w' :=
  ⟨seg, htrace, htrace.trans (foldl_concat_eq _ _).symm, allowed_of_forall h⟩

/-- Calls on an `AuthRestoreHandler_` are settings and signals. -/
theorem chronicles_performRestore (hset : ∀ trace s, P trace (.set s))
    (hsignal : ∀ trace s, P trace (.signal s)) (call : Setting ⊕ Signal) :
    Respects (Chronicles P) (performRestore call) := by
  refine Respects.mono ?_ (performRestore_respects call)
  intro w w' h
  obtain ⟨seg, hquiet, htrace⟩ := h
  refine chronicles_of_forall htrace fun e he trace => ?_
  have hof := mem_letters_kstar.mp hquiet e he
  cases e with
  | set s => exact hset trace s
  | signal s => exact hsignal trace s
  | _ => exact hof.elim

/-- So are those of `onAuthError`, between two events of their own. -/
theorem chronicles_callOnAuthError (honAuthError : ∀ trace d, P trace (.onAuthError d))
    (hset : ∀ trace s, P trace (.set s)) (hsignal : ∀ trace s, P trace (.signal s))
    (hrestored : ∀ trace d cli, P trace (.restored d cli)) (d : Option Exchange)
    (onAuthError : List Event → RestoreCode) :
    Respects (Chronicles P) (callOnAuthError d onAuthError) := by
  refine Respects.bind (Respects.modify fun w => chronicles_log (honAuthError _ d)) fun _ => ?_
  refine Respects.bind Respects.get fun w => ?_
  refine Respects.bind (Interaction.run_respects (chronicles_performRestore hset hsignal) _) fun _ => ?_
  refine Respects.bind Respects.get fun w => ?_
  exact Respects.modify fun w => chronicles_log (hrestored _ d _)

/-- An event of a run has the property. -/
theorem PartRules.chronicled {env : Environment} (h : PartRules env (Chronicles P))
    {schedule : ℕ → List Signal} {cli : HawkbitCommunicationClient} {n : ℕ} {pre post : List Event}
    {e : Event} (htrace : (Up2date.Ddi.exec env schedule cli n).world.trace = pre ++ e :: post) :
    P pre e := by
  obtain ⟨seg, hseg, -, hallowed⟩ := h.exec schedule cli n
  obtain rfl : seg = pre ++ e :: post := hseg.symm.trans htrace
  have hP := hallowed.of_append
  rwa [foldl_concat_eq] at hP

end Chronicles

end Up2date.Ddi
