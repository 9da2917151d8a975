import Up2date.Ddi.Rules
import Up2date.Json.Text

/-!
# What a delivery listener is told

A poll that fetches an action ends in the delivery of feedback. The listener of the response
is told when the feedback was accepted, and when the server answered with an unexpected
status. It is not told of other failures, the status 401 among them, and a listener whose
`onSuccessfulDelivery` throws the exception for unexpected statuses is told twice.
-/

namespace Up2date.Ddi

open Cxx Uri Httpclient Computability
open Json (Value)

/-- The calls of a listener. -/
def Event.isListenerCall : Event → Bool
  | .called .onSuccessfulDelivery => true
  | .called .onError => true
  | _ => false

/-- A poll from a state fetches the body of an action and reaches the delivery of feedback. -/
inductive Delivers (env : Environment) (w : World) : Str → URI → Response → Value → World → Prop
  | cancelAction {resp w₁ polingData resp' w₂ action cliResp w₃ document} :
      getPoll env w.client.hawkbitURI w = .ok resp w₁ →
      PollingData.fromString env.parse resp.body = .ok polingData →
      polingData.action = .cancelAction →
      getAction env polingData.followURI
        { w₁ with client := setSleepTime polingData.sleepTime w₁.client } = .ok resp' w₂ →
      CancelAction.fromString env.parse resp'.body = .ok action →
      callback env (.onCancelAction action) (fun trace => env.handler.onCancelAction trace action)
        .response w₂ = .ok (some cliResp) w₃ →
      fillResponseDocument (some cliResp) [] action.id = .ok document →
      Delivers env w resp'.body polingData.followURI cliResp (.object document) w₃
  | deploymentBase {resp w₁ polingData resp' w₂ action cliResp w₃ document} :
      getPoll env w.client.hawkbitURI w = .ok resp w₁ →
      PollingData.fromString env.parse resp.body = .ok polingData →
      polingData.action = .deploymentBase →
      getAction env polingData.followURI
        { w₁ with client := setSleepTime polingData.sleepTime w₁.client } = .ok resp' w₂ →
      DeploymentBase.from env.parse resp'.body = .ok action →
      callback env (.onDeploymentAction action)
        (fun trace => env.handler.onDeploymentAction trace action) .response w₂ =
          .ok (some cliResp) w₃ →
      fillResponseDocument (some cliResp) [] action.id = .ok document →
      Delivers env w resp'.body polingData.followURI cliResp (.object document) w₃

/-- The calls a listener should see: one, which says whether the feedback was accepted. -/
def expectedCalls (cliResp : Response) (exchange : Except (Fault Exn) Httpclient.Response) :
    List Event :=
  match cliResp.deliveryListener, exchange with
  | none, _ => []
  | some _, .ok _ => [.called .onSuccessfulDelivery]
  | some _, .error _ => [.called .onError]

/-- The listener of a response is told once, and rightly; without a listener a failed delivery
ends the poll. -/
def Told (env : Environment) (w : World) (followURI : URI) (cliResp : Response) (document : Value)
    (w' : World) : Prop :=
  (∃ seg, (finalState (doPoll env w)).trace = w'.trace ++ seg ∧
    seg.filter Event.isListenerCall =
      expectedCalls cliResp (ending (postFeedback env followURI document w'))) ∧
  (cliResp.deliveryListener.isSome = false →
    ∀ f, ending (postFeedback env followURI document w') = .error f →
      ending (doPoll env w) = .error f)

/-- The listeners of a poll are told. -/
def DeliveriesTold (env : Environment) (w : World) : Prop :=
  ∀ body followURI cliResp document w', Delivers env w body followURI cliResp document w' →
    Told env w followURI cliResp document w'

/-- The exception for an unexpected status. -/
def Exn.IsUnexpectedCode : Exn → Prop
  | .httpUnexpectedCodeException _ _ => True
  | _ => False

/-- A result other than the exception for an unexpected status. -/
def Unraised {α : Type} (r : Except (Fault Exn) α) : Prop :=
  ∀ e : Exn, r = .error (.thrown e) → ¬ e.IsUnexpectedCode

/-- The deliveries that listeners are told of: feedback that was accepted, unless the listener
throws what is caught, and feedback that was answered with an unexpected status. -/
def Heard (env : Environment) (followURI : URI) (cliResp : Response) (document : Value)
    (w : World) : Prop :=
  cliResp.deliveryListener.isSome = true →
    match postFeedback env followURI document w with
    | .ok _ w' => Unraised (ending (callListener env cliResp .onSuccessfulDelivery
        ResponseDeliveryListener.onSuccessfulDelivery w'))
    | .error f _ => ∃ e : Exn, f = .thrown e ∧ e.IsUnexpectedCode

/-! ### One delivery -/

/-- The events of a request are no calls of the listener. -/
theorem isListenerCall_of_isOf {e : Event} {x : Exchange} (h : e.IsOf x) :
    e.isListenerCall = false := by
  cases e with
  | called c => exact h.elim
  | _ => rfl

/-- The part of a trace a listener sees. -/
def World.listenerCalls (w : World) : List Event := w.trace.filter Event.isListenerCall

/-- The feedback request calls no listener. -/
theorem postFeedback_listenerCalls (env : Environment) (followURI : URI) (document : Value) :
    Respects (Keeps World.listenerCalls) (postFeedback env followURI document) :=
  retryHandler_filter env (fun _ => isListenerCall_of_isOf) (.feedback followURI document) followURI

/-- A listener sees the call of its method. -/
theorem callListener_listenerCalls (env : Environment) {cliResp : Response} (c : Callback)
    (hc : (Event.called c).isListenerCall = true)
    (hlistener : cliResp.deliveryListener.isSome = true)
    (member : ResponseDeliveryListener → UserCode Unit) (w : World) :
    (finalState (callListener env cliResp c member w)).listenerCalls =
      w.listenerCalls ++ [.called c] := by
  obtain ⟨listener, hsome⟩ := Option.isSome_iff_exists.mp hlistener
  have hcalled : (w.log (.called c)).listenerCalls = w.listenerCalls ++ [.called c] := by
    change (w.trace ++ [_]).filter Event.isListenerCall = _
    rw [List.filter_append, List.filter_cons_of_pos hc]
    rfl
  have hreturned : ∀ w : World, Keeps World.listenerCalls w (w.log (.returned c .void)) := by
    intro w
    change (w.trace ++ [_]).filter Event.isListenerCall = w.trace.filter Event.isListenerCall
    rw [List.filter_append]
    exact List.append_nil _
  have hcode : Respects (Keeps World.listenerCalls) (do
      let a ← (member listener).run (performCall env)
      record (.returned c (Answer.void))
      return a) := by
    apply Respects.bind (Interaction.run_respects
      (callRules_filter env (fun _ => isListenerCall_of_isOf) fun _ _ => rfl).performCall
        (member listener))
    intro a
    apply Respects.bind (Respects.modify hreturned)
    intro _
    exact Respects.pure a
  unfold callListener
  rw [hsome, ← hcalled]
  exact hcode (w.log (.called c))

/-- The delivery when its exchange returned: the listener is called inside the `try` block. -/
theorem deliverFeedback_of_ok {env : Environment} {followURI : URI} {cliResp : Response}
    {document : Value} {w w' : World} {resp : Httpclient.Response}
    (h : postFeedback env followURI document w = .ok resp w') :
    deliverFeedback env followURI cliResp document w =
      Effect.catching (callListener env cliResp .onSuccessfulDelivery
        ResponseDeliveryListener.onSuccessfulDelivery) (deliveryFailed env cliResp) w' := by
  unfold deliverFeedback Effect.catching
  rw [Effect.bind_of_ok h]

/-- Exceptions for unexpected statuses are caught, no others. -/
theorem deliveryFailed_eq_none {env : Environment} {cliResp : Response} {e : Exn}
    (h : ¬ e.IsUnexpectedCode) : deliveryFailed env cliResp e = none := by
  cases e <;> first | rfl | exact absurd trivial h

/-- The listener is told of an unexpected status. -/
theorem deliveryFailed_of_unexpectedCode {env : Environment} {cliResp : Response} {e : Exn}
    (h : e.IsUnexpectedCode) (hlistener : cliResp.deliveryListener.isSome = true) :
    deliveryFailed env cliResp e =
      some (callListener env cliResp .onError ResponseDeliveryListener.onError) := by
  obtain ⟨listener, hsome⟩ := Option.isSome_iff_exists.mp hlistener
  cases e with
  | httpUnexpectedCodeException presented expected => simp only [deliveryFailed, hsome]
  | _ => exact h.elim

/-- Without a listener the delivery ends as its exchange does. -/
theorem deliverFeedback_unheard (env : Environment) {cliResp : Response}
    (hlistener : cliResp.deliveryListener.isSome = false) (followURI : URI) (document : Value)
    (w : World) :
    ending (deliverFeedback env followURI cliResp document w) =
        outcome (ending (postFeedback env followURI document w)) ∧
      finalState (deliverFeedback env followURI cliResp document w) =
        finalState (postFeedback env followURI document w) := by
  have hnone : cliResp.deliveryListener = none := by simpa using hlistener
  cases hpost : postFeedback env followURI document w with
  | ok resp w' =>
    have hcall : callListener env cliResp .onSuccessfulDelivery
        ResponseDeliveryListener.onSuccessfulDelivery w' = .ok () w' := by
      unfold callListener
      rw [hnone]
      rfl
    rw [deliverFeedback_of_ok hpost, Effect.catching_of_ok hcall]
    exact ⟨rfl, rfl⟩
  | error f w' =>
    unfold deliverFeedback
    have hblock : (postFeedback env followURI document >>= fun _ => callListener env cliResp
        .onSuccessfulDelivery ResponseDeliveryListener.onSuccessfulDelivery) w = .error f w' :=
      Effect.bind_of_error hpost
    cases f with
    | undefined =>
      rw [Effect.catching_of_undefined hblock]
      exact ⟨rfl, rfl⟩
    | thrown e =>
      cases e with
      | httpUnexpectedCodeException presented expected =>
        rw [Effect.catching_of_handled hblock rfl, hnone]
        exact ⟨rfl, rfl⟩
      | _ =>
        rw [Effect.catching_of_unhandled hblock rfl]
        exact ⟨rfl, rfl⟩

/-- A listener is called once, for the success or for the failure. -/
theorem expectedCalls_of_listener {cliResp : Response}
    (hlistener : cliResp.deliveryListener.isSome = true) :
    (∀ resp, expectedCalls cliResp (.ok resp) = [.called .onSuccessfulDelivery]) ∧
      ∀ f, expectedCalls cliResp (.error f) = [.called .onError] := by
  obtain ⟨listener, hsome⟩ := Option.isSome_iff_exists.mp hlistener
  constructor <;> intro _ <;> simp only [expectedCalls, hsome]

/-- A listener that was told of the success is called once more when it throws what is caught. -/
theorem heard_of_ok {env : Environment} {cliResp : Response}
    (hlistener : cliResp.deliveryListener.isSome = true) {followURI : URI} {document : Value}
    {w w' : World} {resp : Httpclient.Response}
    (hpost : postFeedback env followURI document w = .ok resp w') :
    (finalState (deliverFeedback env followURI cliResp document w)).listenerCalls =
        w.listenerCalls ++ [.called .onSuccessfulDelivery] ↔
      Unraised (ending (callListener env cliResp .onSuccessfulDelivery
        ResponseDeliveryListener.onSuccessfulDelivery w')) := by
  have hkeeps := postFeedback_listenerCalls env followURI document w
  have hcalls := callListener_listenerCalls env .onSuccessfulDelivery rfl hlistener
    ResponseDeliveryListener.onSuccessfulDelivery w'
  rw [hpost] at hkeeps
  rw [show w'.listenerCalls = w.listenerCalls from hkeeps] at hcalls
  rw [deliverFeedback_of_ok hpost]
  cases hcall : callListener env cliResp .onSuccessfulDelivery
      ResponseDeliveryListener.onSuccessfulDelivery w' with
  | ok u w'' =>
    rw [hcall] at hcalls
    rw [Effect.catching_of_ok hcall]
    exact iff_of_true hcalls nofun
  | error f w'' =>
    rw [hcall] at hcalls
    cases f with
    | undefined =>
      rw [Effect.catching_of_undefined hcall]
      exact iff_of_true hcalls nofun
    | thrown e =>
      by_cases he : e.IsUnexpectedCode
      · rw [Effect.catching_of_handled hcall (deliveryFailed_of_unexpectedCode he hlistener),
          callListener_listenerCalls env .onError rfl hlistener _ w'',
          show w''.listenerCalls = _ from hcalls]
        refine iff_of_false (fun h => ?_) fun h => h e rfl he
        rw [List.append_assoc] at h
        cases List.append_cancel_left h
      · rw [Effect.catching_of_unhandled hcall (deliveryFailed_eq_none he)]
        refine iff_of_true hcalls fun e' he' => ?_
        cases he'
        exact he

/-- A listener is told of a failure that is caught. -/
theorem heard_of_error {env : Environment} {cliResp : Response}
    (hlistener : cliResp.deliveryListener.isSome = true) {followURI : URI} {document : Value}
    {w w' : World} {f : Fault Exn} (hpost : postFeedback env followURI document w = .error f w') :
    (finalState (deliverFeedback env followURI cliResp document w)).listenerCalls =
        w.listenerCalls ++ [.called .onError] ↔ ∃ e : Exn, f = .thrown e ∧ e.IsUnexpectedCode := by
  have hkeeps := postFeedback_listenerCalls env followURI document w
  rw [hpost] at hkeeps
  have hblock : (postFeedback env followURI document >>= fun _ => callListener env cliResp
      .onSuccessfulDelivery ResponseDeliveryListener.onSuccessfulDelivery) w = .error f w' :=
    Effect.bind_of_error hpost
  have hsilent : w.listenerCalls ≠ w.listenerCalls ++ [Event.called .onError] :=
    fun h => nomatch List.self_eq_append_right.mp h
  unfold deliverFeedback
  cases f with
  | undefined =>
    rw [Effect.catching_of_undefined hblock, finalState_error,
      show w'.listenerCalls = w.listenerCalls from hkeeps]
    exact iff_of_false hsilent fun h => nomatch h
  | thrown e =>
    by_cases he : e.IsUnexpectedCode
    · rw [Effect.catching_of_handled hblock (deliveryFailed_of_unexpectedCode he hlistener),
        callListener_listenerCalls env .onError rfl hlistener _ w',
        show w'.listenerCalls = w.listenerCalls from hkeeps]
      exact iff_of_true rfl ⟨e, rfl, he⟩
    · rw [Effect.catching_of_unhandled hblock (deliveryFailed_eq_none he), finalState_error,
        show w'.listenerCalls = w.listenerCalls from hkeeps]
      refine iff_of_false hsilent fun h => ?_
      obtain ⟨e', he', hunexpected⟩ := h
      cases he'
      exact he hunexpected

/-- What a listener sees of a delivery. -/
theorem deliverFeedback_heard {env : Environment} {cliResp : Response}
    (hlistener : cliResp.deliveryListener.isSome = true) (followURI : URI) (document : Value)
    (w : World) :
    (finalState (deliverFeedback env followURI cliResp document w)).listenerCalls =
        w.listenerCalls ++
          expectedCalls cliResp (ending (postFeedback env followURI document w)) ↔
      Heard env followURI cliResp document w := by
  obtain ⟨hsuccess, hfailure⟩ := expectedCalls_of_listener hlistener
  unfold Heard
  rw [forall_prop_of_true hlistener]
  cases hpost : postFeedback env followURI document w with
  | ok resp w' =>
    rw [ending_ok, hsuccess]
    exact heard_of_ok hlistener hpost
  | error f w' =>
    rw [ending_error, hfailure]
    exact heard_of_error hlistener hpost

/-! ### The delivery of a poll -/

/-- An action is answered by delivering the document of the response. -/
theorem answerAction_of_document {env : Environment} {followURI : URI} {actionId : ℤ}
    {cliResp : Response} {document : List (Str × Value)}
    (h : fillResponseDocument (some cliResp) [] actionId = .ok document) (w : World) :
    answerAction env followURI actionId (some cliResp) w =
      (deliverFeedback env followURI cliResp (.object document) >>= fun _ =>
        modify fun w => { w with client := { w.client with ignoreSleep := cliResp.ignoreSleep } }) w := by
  unfold answerAction
  rw [h]
  rfl

/-- An action that was fetched and handled is answered. -/
theorem followAction_of_ok {env : Environment} {α : Type} {decode : Str → Decoder α}
    {c : α → Callback} {code : List Event → α → UserCode (Option Response)} {actionId : α → ℤ}
    {followURI : URI} {w w₁ w₂ : World} {resp : Httpclient.Response} {action : α}
    {cliResp : Option Response} (hget : getAction env followURI w = .ok resp w₁)
    (hdecode : decode resp.body = .ok action)
    (hcallback : callback env (c action) (fun trace => code trace action) .response w₁ =
      .ok cliResp w₂) :
    followAction env decode c code actionId followURI w =
      answerAction env followURI (actionId action) cliResp w₂ := by
  unfold followAction
  rw [Effect.bind_of_ok hget, hdecode]
  change (callback env (c action) _ _ >>= fun cliResp =>
    answerAction env followURI (actionId action) cliResp) w₁ = _
  rw [Effect.bind_of_ok hcallback]

/-- A poll follows the reply to its request. -/
theorem doPoll_of_ok {env : Environment} {w w₁ : World} {resp : Httpclient.Response}
    {polingData : PollingData} (hpoll : getPoll env w.client.hawkbitURI w = .ok resp w₁)
    (hdecode : PollingData.fromString env.parse resp.body = .ok polingData) :
    doPoll env w = follow env polingData
      { w₁ with client := setSleepTime polingData.sleepTime w₁.client } := by
  unfold doPoll
  rw [Effect.bind_of_ok (Effect.get_apply w), Effect.bind_of_ok hpoll, hdecode]
  rfl

/-- A poll that delivers ends as its delivery does. -/
theorem doPoll_of_delivers {env : Environment} {w w' : World} {body : Str} {followURI : URI}
    {cliResp : Response} {document : Value} (h : Delivers env w body followURI cliResp document w') :
    ending (doPoll env w) = ending (deliverFeedback env followURI cliResp document w') ∧
      (finalState (doPoll env w)).trace =
        (finalState (deliverFeedback env followURI cliResp document w')).trace := by
  have hfollow : doPoll env w = (deliverFeedback env followURI cliResp document >>= fun _ =>
      modify fun w => { w with client := { w.client with ignoreSleep := cliResp.ignoreSleep } }) w' := by
    cases h with
    | @cancelAction _ _ polingData _ w₂ action _ _ _ hpoll hdecode haction hget hdecode' hcallback
        hdocument =>
      rw [doPoll_of_ok hpoll hdecode, ← answerAction_of_document hdocument]
      simp only [follow, haction, followCancelAction_eq]
      exact followAction_of_ok hget hdecode' hcallback
    | @deploymentBase _ _ polingData _ w₂ action _ _ _ hpoll hdecode haction hget hdecode' hcallback
        hdocument =>
      rw [doPoll_of_ok hpoll hdecode, ← answerAction_of_document hdocument]
      simp only [follow, haction, followDeploymentBase_eq]
      exact followAction_of_ok hget hdecode' hcallback
  rw [hfollow]
  cases hdeliver : deliverFeedback env followURI cliResp document w' with
  | ok u w'' =>
    rw [Effect.bind_of_ok hdeliver]
    exact ⟨rfl, rfl⟩
  | error f w'' =>
    rw [Effect.bind_of_error hdeliver]
    exact ⟨rfl, rfl⟩

/-- A poll delivers feedback once. -/
theorem Delivers.unique {env : Environment} {w w' v' : World} {body body' : Str}
    {followURI followURI' : URI} {cliResp cliResp' : Response} {document document' : Value}
    (h : Delivers env w body followURI cliResp document w')
    (h' : Delivers env w body' followURI' cliResp' document' v') :
    body = body' ∧ followURI = followURI' ∧ cliResp = cliResp' ∧ document = document' ∧ w' = v' := by
  cases h with
  | cancelAction hpoll hdecode haction hget hdecode' hcallback hdocument =>
    cases h' with
    | cancelAction hpoll₂ hdecode₂ haction₂ hget₂ hdecode'₂ hcallback₂ hdocument₂ =>
      cases hpoll.symm.trans hpoll₂
      cases hdecode.symm.trans hdecode₂
      cases hget.symm.trans hget₂
      cases hdecode'.symm.trans hdecode'₂
      cases hcallback.symm.trans hcallback₂
      cases hdocument.symm.trans hdocument₂
      exact ⟨rfl, rfl, rfl, rfl, rfl⟩
    | deploymentBase hpoll₂ hdecode₂ haction₂ =>
      cases hpoll.symm.trans hpoll₂
      cases hdecode.symm.trans hdecode₂
      cases haction.symm.trans haction₂
  | deploymentBase hpoll hdecode haction hget hdecode' hcallback hdocument =>
    cases h' with
    | deploymentBase hpoll₂ hdecode₂ haction₂ hget₂ hdecode'₂ hcallback₂ hdocument₂ =>
      cases hpoll.symm.trans hpoll₂
      cases hdecode.symm.trans hdecode₂
      cases hget.symm.trans hget₂
      cases hdecode'.symm.trans hdecode'₂
      cases hcallback.symm.trans hcallback₂
      cases hdocument.symm.trans hdocument₂
      exact ⟨rfl, rfl, rfl, rfl, rfl⟩
    | cancelAction hpoll₂ hdecode₂ haction₂ =>
      cases hpoll.symm.trans hpoll₂
      cases hdecode.symm.trans hdecode₂
      cases haction.symm.trans haction₂

/-- The listener of a delivery is told if and only if it is heard. -/
theorem told_iff {env : Environment} {w w' : World} {body : Str} {followURI : URI}
    {cliResp : Response} {document : Value} (h : Delivers env w body followURI cliResp document w') :
    Told env w followURI cliResp document w' ↔ Heard env followURI cliResp document w' := by
  obtain ⟨hending, htrace⟩ := doPoll_of_delivers h
  have hrules : FollowRules env (GrowsBy World.trace (letters fun _ => True)∗) :=
    followRules_letters env (fun _ => trivial) (fun _ _ => trivial) (fun _ _ => trivial)
      fun _ _ _ _ => trivial
  obtain ⟨seg, _, hseg⟩ := hrules.toCallbackRules.listenerRules.deliverFeedback
    ((hrules.linkRules followURI).feedback document) cliResp w'
  have hcalls : (finalState (deliverFeedback env followURI cliResp document w')).listenerCalls =
      w'.listenerCalls ++ seg.filter Event.isListenerCall := by
    unfold World.listenerCalls
    rw [hseg, List.filter_append]
  have hseen : (∃ seg, (finalState (doPoll env w)).trace = w'.trace ++ seg ∧
      seg.filter Event.isListenerCall =
        expectedCalls cliResp (ending (postFeedback env followURI document w'))) ↔
      (finalState (deliverFeedback env followURI cliResp document w')).listenerCalls =
        w'.listenerCalls ++
          expectedCalls cliResp (ending (postFeedback env followURI document w')) := by
    rw [htrace, exists_append_iff hseg, hcalls]
    exact List.append_cancel_left_eq _ _ _ ▸ Iff.rfl
  unfold Told
  rw [hseen]
  cases hlistener : cliResp.deliveryListener.isSome with
  | true =>
    rw [deliverFeedback_heard hlistener]
    exact and_iff_left nofun
  | false =>
    obtain ⟨hunheard, hfinal⟩ := deliverFeedback_unheard env hlistener followURI document w'
    have hsilent : expectedCalls cliResp (ending (postFeedback env followURI document w')) = [] := by
      unfold expectedCalls
      rw [show cliResp.deliveryListener = none by simpa using hlistener]
    refine iff_of_true ⟨?_, fun _ f hf => ?_⟩ fun hsome => nomatch hlistener.symm.trans hsome
    · rw [hfinal, hsilent, List.append_nil]
      exact postFeedback_listenerCalls env followURI document w'
    · rw [hending, hunheard, hf]
      rfl

/-- Listeners are told of the deliveries of a poll if and only if they are heard. -/
theorem deliveriesTold_iff (env : Environment) (w : World) :
    DeliveriesTold env w ↔ ∀ body followURI cliResp document w',
      Delivers env w body followURI cliResp document w' → Heard env followURI cliResp document w' :=
  forall_congr' fun _ => forall₄_congr fun _ _ _ _ => forall_congr' fun h => told_iff h

/-! ### A cancelation -/

/-- A request that is answered with 200 returns its body. -/
theorem retryHandler_answered {env : Environment} {x : Exchange} {uri : URI} {method : Method}
    {path : World → Str} {body contentType answer : Str} {w : World}
    (hconnect : ∀ trace endpoint keyPair, env.connect trace endpoint keyPair = .ok ())
    (hserver : ∀ trace request, request.method = method →
      request.target = cstr (path (w.log (.issued x))) →
        (env.server trace request).wire = .answered HTTP_OK [answer] none) :
    ending (retryHandler env x uri (fun cli => do
      let w ← get
      collect (← cli.send env
        (cli.request method (path w) w.client.defaultHeaders body contentType))) w) =
      .ok ⟨HTTP_OK, answer⟩ := by
  generalize hissued : w.log (.issued x) = w₁ at hserver
  let func : HttpClient → Program Httpclient.Result := fun cli => do
    let w ← get
    collect (← cli.send env
      (cli.request method (path w) w.client.defaultHeaders body contentType))
  have hfunc : ∀ cli, ending (func cli w₁) = .ok (.response ⟨HTTP_OK, answer⟩) := by
    intro cli
    let request := cli.request method (path w₁) w₁.client.defaultHeaders body contentType
    have hsend : ∃ w₂, cli.send env request w₁ = .ok (env.server w₁.trace request).wire w₂ :=
      ⟨_, rfl⟩
    obtain ⟨w₂, hsend⟩ := hsend
    change ending ((cli.send env request >>= collect) w₁) = _
    rw [Effect.bind_of_ok hsend, hserver w₁.trace request rfl rfl]
    change Except.ok (Result.response ⟨HTTP_OK, [answer].flatten⟩) = _
    rw [List.flatten_singleton]
  have hattempt : ending (wrappedRequest env x .first uri func w₁) = .ok ⟨HTTP_OK, answer⟩ := by
    have hclient := newHttpClient_apply env x .first uri w₁
    rw [hconnect] at hclient
    unfold wrappedRequest
    rw [(Effect.noting_spec _ _ _).1, Effect.bind_of_ok hclient,
      (Effect.bind_ofExcept_spec _ checkResult _).1, hfunc]
    rfl
  have honce : env.authErrorHandler.isSome = true →
      ending (wrappedRequest env x .first uri func (w.log (.issued x))) ≠ unauthorized := by
    rw [hissued, hattempt]
    nofun
  rw [(retryHandler_of_once honce).1, hissued]
  exact hattempt

/-- A poll is answered with the link of a cancelation. -/
def linkDocument : Value :=
  .object [("_links".toList, .object [("cancelAction".toList,
    .object [("href".toList, .string "http://h/c".toList)])])]

/-- The link of the action. -/
def linkURI : URI := { scheme := "http".toList, authority := "h".toList, path := "/c".toList }

/-- The cancelation of the action with an id. -/
def cancelDocument (id : Str) : Value :=
  .object [("id".toList, .string id),
    ("cancelAction".toList, .object [("stopId".toList, .string id)])]

/-- A server that cancels an action, an answer of the handler, and the reply to the feedback. -/
def cancelEnvironment (id : Str) (response : Response) (reply : Wire) : Environment :=
  { idleEnvironment with
    parse := Json.parse
    write := Json.write
    server := fun _ request =>
      { wire :=
          if request.method = .post then reply
          else if request.target = linkURI.path then
            .answered HTTP_OK [Json.write (cancelDocument id)] none
          else .answered HTTP_OK [Json.write linkDocument] none }
    handler := { idleEnvironment.handler with onCancelAction := fun _ _ => .done (some response) } }

/-- The document of the action is exact. -/
theorem isExact_cancelDocument (id : Str) : (cancelDocument id).IsExact := by
  simp only [cancelDocument, Value.isExact_object_iff, List.forall_mem_cons, Value.IsExact.string,
    List.not_mem_nil, IsEmpty.forall_iff, implies_true, and_self]

/-- The state in which the reply to a poll is followed. -/
def afterPoll (env : Environment) (w : World) (sleepTime : ℤ) : World :=
  let w₁ := finalState (getPoll env w.client.hawkbitURI w)
  { w₁ with client := setSleepTime sleepTime w₁.client }

/-- A poll delivers when its requests and decoders end so. -/
theorem delivers_of_endings {env : Environment} {w : World} {resp resp' : Httpclient.Response}
    {polingData : PollingData} {action : CancelAction} {cliResp : Response}
    {document : List (Str × Value)}
    (hpoll : ending (getPoll env w.client.hawkbitURI w) = .ok resp)
    (hdecode : PollingData.fromString env.parse resp.body = .ok polingData)
    (haction : polingData.action = .cancelAction)
    (hget : ending (getAction env polingData.followURI (afterPoll env w polingData.sleepTime)) =
      .ok resp')
    (hdecode' : CancelAction.fromString env.parse resp'.body = .ok action)
    (hhandler : ∀ trace, env.handler.onCancelAction trace action = .done (some cliResp))
    (hdocument : fillResponseDocument (some cliResp) [] action.id = .ok document) :
    ∃ w', Delivers env w resp'.body polingData.followURI cliResp (.object document) w' := by
  obtain ⟨w₁, hw₁⟩ := eq_ok_of_ending hpoll
  obtain ⟨w₂, hw₂⟩ := eq_ok_of_ending hget
  unfold afterPoll at hw₂
  rw [hw₁] at hw₂
  have hcallback : ∃ w₃, callback env (.onCancelAction action)
      (fun trace => env.handler.onCancelAction trace action) .response w₂ =
        .ok (some cliResp) w₃ := by
    unfold callback
    rw [Effect.bind_of_ok (record_apply _ w₂), Effect.bind_of_ok (Effect.get_apply _)]
    beta_reduce
    rw [hhandler]
    exact ⟨_, rfl⟩
  obtain ⟨w₃, hw₃⟩ := hcallback
  exact ⟨w₃, .cancelAction hw₁ hdecode haction hw₂ hdecode' hw₃ hdocument⟩

/-- Every cancelation with an id that is a number is answered with feedback. -/
theorem cancelEnvironment_delivers {id : Str} {n : ℤ} (hid : stoi (cstr id) = .ok n)
    (response : Response) (reply : Wire) :
    ∃ document w', Delivers (cancelEnvironment id response reply) { client := endpointClient }
      (Json.write (cancelDocument id)) linkURI response document w' := by
  let env := cancelEnvironment id response reply
  let w : World := { client := endpointClient }
  have hpoll : ending (getPoll env w.client.hawkbitURI w) =
      .ok ⟨HTTP_OK, Json.write linkDocument⟩ := by
    apply retryHandler_answered (fun _ _ _ => rfl)
    intro trace request hmethod htarget
    have hother : cstr (w.log (.issued .poll)).client.hawkbitURI.path ≠ linkURI.path := by
      change cstr endpointClient.hawkbitURI.path ≠ linkURI.path
      decide
    change (if request.method = .post then _ else if request.target = _ then _ else _) = _
    rw [hmethod, htarget, if_neg nofun, if_neg hother]
  have hdecode : PollingData.fromString Json.parse (Json.write linkDocument) =
      .ok ⟨-1, .cancelAction, linkURI⟩ := by decide +kernel
  have hget : ending (getAction env linkURI (afterPoll env w (-1))) =
      .ok ⟨HTTP_OK, Json.write (cancelDocument id)⟩ := by
    apply retryHandler_answered (fun _ _ _ => rfl)
    intro trace request hmethod htarget
    have hsame : cstr linkURI.path = linkURI.path := by decide
    change (if request.method = .post then _ else if request.target = _ then _ else _) = _
    rw [hmethod, htarget, if_neg nofun, if_pos hsame]
  have hparse := Json.readsBack_parse_write _ (isExact_cancelDocument id)
  have hdecode' : CancelAction.fromString Json.parse (Json.write (cancelDocument id)) =
      .ok ⟨n, n⟩ := by
    simp only [CancelAction.fromString, parseDocument, hparse]
    change (do
      let stopId ← Decoder.ofStd (stoi (cstr id))
      let id ← Decoder.ofStd (stoi (cstr id))
      pure { id, stopId : CancelAction }) = _
    rw [hid]
    rfl
  obtain ⟨w', hdelivers⟩ :=
    delivers_of_endings hpoll hdecode rfl hget hdecode' (fun _ => rfl) rfl
  exact ⟨_, w', hdelivers⟩

/-- A response with a listener that does nothing. -/
def listenedResponse : Response :=
  { finished := .success, execution := .closed
    deliveryListener := some ⟨.done (), .done ()⟩ }

/-- A listener is not told of feedback that was answered with 401. -/
theorem rejectedFeedback_not_told :
    ¬ DeliveriesTold (cancelEnvironment "7".toList listenedResponse
      (.answered HTTP_UNAUTHORIZED [] none)) { client := endpointClient } := by
  intro h
  let env := cancelEnvironment "7".toList listenedResponse (.answered HTTP_UNAUTHORIZED [] none)
  let w : World := { client := endpointClient }
  have hid : stoi (cstr "7".toList) = .ok 7 := by decide
  obtain ⟨document, w', hdelivers⟩ :=
    cancelEnvironment_delivers hid listenedResponse (.answered HTTP_UNAUTHORIZED [] none)
  obtain ⟨⟨seg, htrace, hseg⟩, _⟩ := h _ _ _ _ _ hdelivers
  have hsilent : (finalState (doPoll env w)).trace.countP Event.isListenerCall = 0 := by
    decide +kernel
  have hlength : ∀ exchange, (expectedCalls listenedResponse exchange).length = 1 := by
    intro exchange
    cases exchange <;> rfl
  have hcount : seg.countP Event.isListenerCall = 1 := by
    rw [List.countP_eq_length_filter, hseg, hlength]
  rw [htrace, List.countP_append, hcount] at hsilent
  omega

end Up2date.Ddi
