import Up2date.Cxx.Machines
import Up2date.Ddi.Poll

/-!
# The DDI protocol

What a device does with one poll, as a machine over the exchanges and the callbacks. Each
stage is one exchange of one or two attempts; the reply to a poll says which callback or
which action comes next, an action is fetched before its callback is called, and the
callback returns before feedback is sent. Downloads are not part of the protocol.
-/

namespace Up2date.Ddi

open Cxx Uri Httpclient
open Json (Value)

/-- An action as it was received. -/
inductive Received
  | cancel (action : CancelAction)
  | deployment (action : DeploymentBase)

namespace Received

/-- The identifier that the action has. -/
def id : Received → ℤ
  | .cancel action => action.id
  | .deployment action => action.id

/-- The callback that is given the action. -/
def callback : Received → Callback
  | .cancel action => .onCancelAction action
  | .deployment action => .onDeploymentAction action

/-- The action is the one that a body describes. -/
def IsIn (env : Environment) (body : Str) : Received → Prop
  | .cancel action => CancelAction.fromString env.parse body = .ok action
  | .deployment action => DeploymentBase.from env.parse body = .ok action

end Received

/-- The exchanges of the protocol, with what they are about. -/
inductive Stage
  | poll
  | configData (followURI : URI) (req : ConfigResponse)
  | cancelAction (followURI : URI)
  | deploymentBase (followURI : URI)
  | feedback (followURI : URI) (action : Received) (response : Response)

/-- The callbacks of the protocol, with what they are about. -/
inductive Call
  | noActions
  | configRequest (followURI : URI)
  | action (followURI : URI) (action : Received)
  | delivered (response : Response)
  | undelivered (response : Response)

/-- Where a poll is: an exchange can be ready for its first attempt, rejected in it, restored
for its second one, or failed; a callback can be due or under way. -/
inductive Phase
  | ready (s : Stage)
  | rejected (s : Stage)
  | restored (s : Stage)
  | failed (s : Stage)
  | due (c : Call)
  | inside (c : Call)
  | aborted
  | finished

/-- The kind of request of a stage. -/
def Stage.exchange : Stage → Exchange
  | .poll => .poll
  | .configData _ _ => .configData
  | .cancelAction _ => .action
  | .deploymentBase _ => .action
  | .feedback _ _ _ => .feedback

/-- The callback of a call. -/
def Call.callback : Call → Callback
  | .noActions => .onNoActions
  | .configRequest _ => .onConfigRequest
  | .action _ received => received.callback
  | .delivered _ => .onSuccessfulDelivery
  | .undelivered _ => .onError

/-- The request of a stage. -/
def Stage.Requests (env : Environment) : Stage → Request → Prop
  | .poll, request => request.method = .get
  | .configData followURI req, request => request.method = .put ∧
      request.endpoint = baseAddress followURI ∧ request.target = cstr followURI.path ∧
      ∃ document, configDocument req = .ok document ∧ request.body = cstr (env.write document)
  | .cancelAction followURI, request => request.method = .get ∧
      request.endpoint = baseAddress followURI ∧ request.target = cstr followURI.path
  | .deploymentBase followURI, request => request.method = .get ∧
      request.endpoint = baseAddress followURI ∧ request.target = cstr followURI.path
  | .feedback followURI action response, request => request.method = .post ∧
      request.endpoint = baseAddress followURI ∧
      (∃ path, formatFeedbackPath followURI = some path ∧ request.target = cstr path) ∧
      ∃ document, fillResponseDocument (some response) [] action.id = .ok document ∧
        request.body = cstr (env.write (.object document))

/-- The action a server asks for: configuration data before a cancelation, and a cancelation
before a deployment. -/
def linkedAction (document : Value) : Actions :=
  match document.member "_links".toList with
  | none => .none
  | some links =>
    if (links.member "configData".toList).isSome then .getConfigData
    else if (links.member "cancelAction".toList).isSome then .cancelAction
    else if (links.member "deploymentBase".toList).isSome then .deploymentBase
    else .none

/-- What comes after the reply to a poll. -/
def asked (action : Actions) (followURI : URI) : Phase :=
  match action with
  | .none => .due .noActions
  | .getConfigData => .due (.configRequest followURI)
  | .cancelAction => .ready (.cancelAction followURI)
  | .deploymentBase => .ready (.deploymentBase followURI)

/-- What comes after a stage that was answered with the status 200 and a body. -/
def Stage.accepted (env : Environment) (body : Str) : Stage → Phase
  | .poll =>
    match env.parse (cstr body), PollingData.fromString env.parse body with
    | some document, .ok polingData => asked (linkedAction document) polingData.followURI
    | _, _ => .aborted
  | .configData _ _ => .finished
  | .cancelAction followURI =>
    match CancelAction.fromString env.parse body with
    | .ok action => .due (.action followURI (.cancel action))
    | .error _ => .aborted
  | .deploymentBase followURI =>
    match DeploymentBase.from env.parse body with
    | .ok action => .due (.action followURI (.deployment action))
    | .error _ => .aborted
  | .feedback _ _ response =>
    if response.deliveryListener.isSome then .due (.delivered response) else .finished

/-- What comes after the reply to an attempt: only the first one is followed by another. -/
def Stage.replied (env : Environment) (s : Stage) (a : Attempt) : Wire → Phase
  | .answered status chunks none =>
    if status = HTTP_OK then s.accepted env chunks.flatten
    else if status = HTTP_UNAUTHORIZED ∧ a = .first then .rejected s
    else .failed s
  | _ => .failed s

/-- What comes after a callback. -/
def Call.answered : Call → Answer → Phase
  | .configRequest followURI, .config (some req) =>
    if req.data = [] then .finished else .ready (.configData followURI req)
  | .action followURI received, .response (some response) =>
    .ready (.feedback followURI received response)
  | .noActions, .void => .finished
  | .delivered _, .void => .finished
  | .undelivered _, .void => .finished
  | _, _ => .aborted

/-- The feedback of a response was not delivered, or its listener failed to take notice. -/
inductive Phase.Undelivered (response : Response) : Phase → Prop
  | failed {followURI action} : Undelivered response (.failed (.feedback followURI action response))
  | restored {followURI action} :
      Undelivered response (.restored (.feedback followURI action response))
  | inside : Undelivered response (.inside (.delivered response))

/-- One event of the protocol. -/
inductive Phase.Step (env : Environment) : Phase → Event → Phase → Prop
  | first {s request wire} : s.Requests env request →
      Step env (.ready s) (.sent s.exchange .first request wire) (s.replied env .first wire)
  | restore {s} : Step env (.rejected s) (.onAuthError (some s.exchange)) (.restored s)
  | second {s request wire} : s.Requests env request →
      Step env (.restored s) (.sent s.exchange .second request wire) (s.replied env .second wire)
  | call {c} : Step env (.due c) (.called c.callback) (.inside c)
  | answer {c answer} : Step env (.inside c) (.returned c.callback answer) (c.answered answer)
  | undelivered {p response} : p.Undelivered response → response.deliveryListener.isSome = true →
      Step env p (.called .onError) (.inside (.undelivered response))

/-- The events of the protocol: the attempts that were sent, between them the calls of
`onAuthError`, and the callbacks. -/
def Event.isProtocol : Event → Bool
  | .sent x _ _ _ => x != .download
  | .onAuthError (some x) => x != .download
  | .called _ => true
  | .returned _ _ => true
  | _ => false

/-- The protocol's part of a trace. -/
def World.conversation (w : World) : List Event := w.trace.filter Event.isProtocol

/-! ### What the protocol guarantees -/

/-- The exchange was answered with the status 200 and this body. -/
def AnsweredWith (x : Exchange) (body : Str) (seg : List Event) : Prop :=
  ∃ a request chunks, .sent x a request (.answered HTTP_OK chunks none) ∈ seg ∧ chunks.flatten = body

/-- The action was fetched. -/
def Fetched (env : Environment) (received : Received) (seg : List Event) : Prop :=
  ∃ body, AnsweredWith .action body seg ∧ received.IsIn env body

/-- What has happened before a stage. -/
def Stage.Follows (env : Environment) (seg : List Event) : Stage → Prop
  | .poll => True
  | .configData _ req => .returned .onConfigRequest (.config (some req)) ∈ seg ∧ req.data ≠ []
  | .cancelAction _ => ∃ body, AnsweredWith .poll body seg
  | .deploymentBase _ => ∃ body, AnsweredWith .poll body seg
  | .feedback _ received response => (∃ body, AnsweredWith .poll body seg) ∧
      Fetched env received seg ∧ .returned received.callback (.response (some response)) ∈ seg

/-- What has happened before a callback. -/
def Call.Follows (env : Environment) (seg : List Event) : Call → Prop
  | .noActions => ∃ body, AnsweredWith .poll body seg
  | .configRequest _ => ∃ body, AnsweredWith .poll body seg
  | .action _ received => (∃ body, AnsweredWith .poll body seg) ∧ Fetched env received seg
  | .delivered _ => ∃ body, AnsweredWith .poll body seg
  | .undelivered _ => ∃ body, AnsweredWith .poll body seg

/-- What has happened before a phase. -/
def Phase.Follows (env : Environment) (seg : List Event) : Phase → Prop
  | .ready s => s.Follows env seg
  | .rejected s => s.Follows env seg
  | .restored s => s.Follows env seg
  | .failed s => s.Follows env seg
  | .due c => c.Follows env seg
  | .inside c => c.Follows env seg
  | .aborted => True
  | .finished => True

/-- A request that was answered stays answered. -/
theorem AnsweredWith.mono {x : Exchange} {body : Str} {seg : List Event}
    (h : AnsweredWith x body seg) (rest : List Event) : AnsweredWith x body (seg ++ rest) := by
  obtain ⟨a, request, chunks, hmem, hbody⟩ := h
  exact ⟨a, request, chunks, List.mem_append_left rest hmem, hbody⟩

/-- An action that was fetched stays fetched. -/
theorem Fetched.mono {env : Environment} {received : Received} {seg : List Event}
    (h : Fetched env received seg) (rest : List Event) : Fetched env received (seg ++ rest) := by
  obtain ⟨body, hanswered, hin⟩ := h
  exact ⟨body, hanswered.mono rest, hin⟩

/-- What a stage follows from stays in front of it. -/
theorem Stage.Follows.mono {env : Environment} {s : Stage} {seg : List Event}
    (h : s.Follows env seg) (rest : List Event) : s.Follows env (seg ++ rest) := by
  cases s with
  | poll => trivial
  | configData _ req => exact ⟨List.mem_append_left rest h.1, h.2⟩
  | cancelAction _ => exact h.imp fun _ hbody => hbody.mono rest
  | deploymentBase _ => exact h.imp fun _ hbody => hbody.mono rest
  | feedback _ received response =>
    obtain ⟨hpoll, hfetched, hreturned⟩ := h
    exact ⟨hpoll.imp fun _ hbody => hbody.mono rest, hfetched.mono rest,
      List.mem_append_left rest hreturned⟩

/-- What a call follows from stays in front of it. -/
theorem Call.Follows.mono {env : Environment} {c : Call} {seg : List Event}
    (h : c.Follows env seg) (rest : List Event) : c.Follows env (seg ++ rest) := by
  cases c with
  | action _ received => exact ⟨h.1.imp fun _ hbody => hbody.mono rest, h.2.mono rest⟩
  | _ => exact h.imp fun _ hbody => hbody.mono rest

/-- After a stage was answered with 200. -/
theorem Stage.Follows.accepted {env : Environment} {s : Stage} {seg : List Event} {body : Str}
    (h : s.Follows env seg) (hbody : AnsweredWith s.exchange body seg) :
    (s.accepted env body).Follows env seg := by
  cases s with
  | poll =>
    unfold Stage.accepted
    cases env.parse (cstr body) with
    | none => trivial
    | some document =>
      cases PollingData.fromString env.parse body with
      | error f => trivial
      | ok polingData =>
        simp only
        cases linkedAction document <;> exact ⟨body, hbody⟩
  | configData => trivial
  | cancelAction followURI =>
    unfold Stage.accepted
    cases hdecode : CancelAction.fromString env.parse body with
    | error f => trivial
    | ok action => exact ⟨h, body, hbody, hdecode⟩
  | deploymentBase followURI =>
    unfold Stage.accepted
    cases hdecode : DeploymentBase.from env.parse body with
    | error f => trivial
    | ok action => exact ⟨h, body, hbody, hdecode⟩
  | feedback followURI action response =>
    simp only [Stage.accepted]
    split
    · exact h.1
    · trivial

/-- After an attempt of a stage. -/
theorem Stage.Follows.replied {env : Environment} {s : Stage} {seg : List Event} {a : Attempt}
    {request : Request} {wire : Wire} (h : s.Follows env seg) :
    (s.replied env a wire).Follows env (seg ++ [.sent s.exchange a request wire]) := by
  have hlater := h.mono [.sent s.exchange a request wire]
  unfold Stage.replied
  cases wire with
  | threw e => exact hlater
  | failed e => exact hlater
  | answered status chunks cut =>
    cases cut with
    | some e => exact hlater
    | none =>
      simp only
      split
      · rename_i hstatus
        subst hstatus
        exact hlater.accepted
          ⟨a, request, chunks, List.mem_append_right _ (List.mem_singleton_self _), rfl⟩
      · split <;> exact hlater

/-- After a callback. -/
theorem Call.Follows.answered {env : Environment} {c : Call} {answer : Answer} {seg : List Event}
    (h : c.Follows env seg) :
    (c.answered answer).Follows env (seg ++ [.returned c.callback answer]) := by
  have hreturned : Event.returned c.callback answer ∈ seg ++ [.returned c.callback answer] :=
    List.mem_append_right _ (List.mem_singleton_self _)
  have hlater := h.mono [.returned c.callback answer]
  unfold Call.answered
  split
  · split
    · trivial
    · exact ⟨hreturned, ‹_›⟩
  · exact ⟨hlater.1, hlater.2, hreturned⟩
  all_goals trivial

/-- Every step of the protocol keeps what has happened before. -/
theorem Phase.Step.follows {env : Environment} {p q : Phase} {e : Event} {seg : List Event}
    (hstep : Phase.Step env p e q) (h : p.Follows env seg) : q.Follows env (seg ++ [e]) := by
  cases hstep with
  | first => exact Stage.Follows.replied h
  | restore => exact Stage.Follows.mono h _
  | second => exact Stage.Follows.replied h
  | call => exact Call.Follows.mono h _
  | answer => exact Call.Follows.answered h
  | undelivered hundelivered =>
    cases hundelivered with
    | failed => exact h.1.imp fun _ hbody => hbody.mono _
    | restored => exact h.1.imp fun _ hbody => hbody.mono _
    | inside => exact h.imp fun _ hbody => hbody.mono _

/-- Before every event of a poll, what its phase requires has happened. -/
theorem follows_of_run {env : Environment} {pre post : List Event} {e : Event} {r : Phase}
    (h : Follows (Phase.Step env) (.ready .poll) (pre ++ e :: post) r) :
    ∃ p q, p.Follows env pre ∧ Phase.Step env p e q := by
  obtain ⟨p, q, hpre, hstep, _⟩ := h.split
  refine ⟨p, q, ?_, hstep⟩
  apply hpre.invariant trivial
  intro pre p e q hp hpq
  exact hpq.follows hp

/-! ### Feedback is accepted once -/

/-- Feedback that a server answered with the status 200. -/
def Event.isAcceptedFeedback : Event → Bool
  | .sent .feedback _ _ (.answered status _ _) => status == HTTP_OK
  | _ => false

/-- The feedback that may have been accepted before a phase. -/
def Phase.acceptedFeedback : Phase → ℕ
  | .ready _ => 0
  | .rejected _ => 0
  | .restored _ => 0
  | .due (.noActions) => 0
  | .due (.configRequest _) => 0
  | .due (.action _ _) => 0
  | .inside (.noActions) => 0
  | .inside (.configRequest _) => 0
  | .inside (.action _ _) => 0
  | _ => 1

/-- The phase behind a reply allows for the feedback that the reply accepted. -/
theorem acceptedFeedback_replied (env : Environment) (s : Stage) (a : Attempt) (request : Request)
    (wire : Wire) :
    [Event.sent s.exchange a request wire].countP Event.isAcceptedFeedback ≤
      (s.replied env a wire).acceptedFeedback := by
  cases s with
  | feedback followURI action response =>
    cases wire with
    | threw e => exact Nat.zero_le _
    | failed e => exact Nat.zero_le _
    | answered status chunks cut =>
      cases cut with
      | some e => exact List.countP_le_length
      | none =>
        by_cases hstatus : status = HTTP_OK
        · have haccepted : (Stage.accepted env chunks.flatten
              (.feedback followURI action response)).acceptedFeedback = 1 := by
            simp only [Stage.accepted]
            split <;> rfl
          simp only [Stage.replied, if_pos hstatus, haccepted]
          exact List.countP_le_length
        · have hnone : [Event.sent .feedback a request (.answered status chunks none)].countP
              Event.isAcceptedFeedback = 0 := by
            simp [Event.isAcceptedFeedback, hstatus]
          exact hnone.le.trans (Nat.zero_le _)
  | _ => exact Nat.zero_le _

/-- A step accepts feedback at most as often as its phases allow. -/
theorem Phase.Step.acceptedFeedback_le {env : Environment} {p q : Phase} {e : Event}
    (h : Phase.Step env p e q) :
    p.acceptedFeedback + [e].countP Event.isAcceptedFeedback ≤ q.acceptedFeedback := by
  cases h with
  | first => exact (Nat.zero_add _).le.trans (acceptedFeedback_replied _ _ _ _ _)
  | restore => exact Nat.le_refl 0
  | second => exact (Nat.zero_add _).le.trans (acceptedFeedback_replied _ _ _ _ _)
  | @call c => cases c <;> exact Nat.le_refl _
  | @answer c answer =>
    cases c with
    | delivered response => cases answer <;> exact Nat.le_refl 1
    | undelivered response => cases answer <;> exact Nat.le_refl 1
    | _ => exact Nat.zero_le _
  | undelivered hundelivered =>
    cases hundelivered with
    | failed => exact Nat.le_refl 1
    | restored => exact Nat.zero_le 1
    | inside => exact Nat.le_refl 1

/-- A poll has at most one feedback accepted. -/
theorem acceptedFeedback_le_one {env : Environment} {seg : List Event} {q : Phase}
    (h : Follows (Phase.Step env) (.ready .poll) seg q) :
    seg.countP Event.isAcceptedFeedback ≤ 1 := by
  have hcount : seg.countP Event.isAcceptedFeedback ≤ q.acceptedFeedback := by
    apply h.invariant (Nat.le_refl 0)
    intro pre p e q hp hstep
    rw [List.countP_append]
    have hle := hstep.acceptedFeedback_le
    omega
  apply hcount.trans
  unfold Phase.acceptedFeedback
  split <;> omega

end Up2date.Ddi
