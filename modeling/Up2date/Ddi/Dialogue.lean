import Up2date.Ddi.Conversation

/-!
# What a finished poll looks like

The protocol read as a grammar: the events of a poll that returns are an answered poll
request, followed by what the server asked for. Together with what the protocol guarantees
of every poll this is what the server and the handlers can rely on.
-/

namespace Up2date.Ddi

open Cxx Uri Httpclient
open Json (Value)

variable {env : Environment}

/-- An exchange that was answered with the status 200, in its first or its second attempt. -/
inductive Answered (env : Environment) (s : Stage) : List Event → Str → Prop
  | first {request chunks} : s.Requests env request →
      Answered env s [.sent s.exchange .first request (.answered HTTP_OK chunks none)] chunks.flatten
  | second {request wire request' chunks} : s.Requests env request → Rejected wire →
      s.Requests env request' →
      Answered env s [.sent s.exchange .first request wire, .onAuthError (some s.exchange),
        .sent s.exchange .second request' (.answered HTTP_OK chunks none)] chunks.flatten

/-- An exchange that was not. -/
inductive Unanswered (env : Environment) (s : Stage) : List Event → Prop
  | first {request wire} : s.Requests env request → s.replied env .first wire = .failed s →
      Unanswered env s [.sent s.exchange .first request wire]
  | restored {request wire} : s.Requests env request → Rejected wire →
      Unanswered env s [.sent s.exchange .first request wire, .onAuthError (some s.exchange)]
  | second {request wire request' wire'} : s.Requests env request → Rejected wire →
      s.Requests env request' → s.replied env .second wire' = .failed s →
      Unanswered env s [.sent s.exchange .first request wire, .onAuthError (some s.exchange),
        .sent s.exchange .second request' wire']

/-- A callback that returned. -/
def exchangeOf (c : Callback) (answer : Answer) : List Event := [.called c, .returned c answer]

/-- One feedback request, and what the listener of the response is told about it. -/
inductive Reported (env : Environment) (followURI : URI) (received : Received)
    (response : Response) : List Event → Prop
  | unheard {post body} : Answered env (.feedback followURI received response) post body →
      response.deliveryListener.isSome = false → Reported env followURI received response post
  | delivered {post body} : Answered env (.feedback followURI received response) post body →
      response.deliveryListener.isSome = true →
      Reported env followURI received response (post ++ exchangeOf .onSuccessfulDelivery .void)
  | unnoticed {post body} : Answered env (.feedback followURI received response) post body →
      response.deliveryListener.isSome = true →
      Reported env followURI received response
        (post ++ .called .onSuccessfulDelivery :: exchangeOf .onError .void)
  | undelivered {post} : Unanswered env (.feedback followURI received response) post →
      response.deliveryListener.isSome = true →
      Reported env followURI received response (post ++ exchangeOf .onError .void)

/-- A body asks for an action, and refers to a URI. -/
def Asks (env : Environment) (body : Str) (action : Actions) (followURI : URI) : Prop :=
  ∃ document polingData, env.parse (cstr body) = some document ∧
    PollingData.fromString env.parse body = .ok polingData ∧
    linkedAction document = action ∧ polingData.followURI = followURI

/-- A poll that returned. -/
inductive Dialogue (env : Environment) : List Event → Prop
  | noActions {poll body followURI} : Answered env .poll poll body → Asks env body .none followURI →
      Dialogue env (poll ++ exchangeOf .onNoActions .void)
  | noData {poll body followURI req} : Answered env .poll poll body →
      Asks env body .getConfigData followURI → req.data = [] →
      Dialogue env (poll ++ exchangeOf .onConfigRequest (.config (some req)))
  | configData {poll body followURI req put reply} : Answered env .poll poll body →
      Asks env body .getConfigData followURI → req.data ≠ [] →
      Answered env (.configData followURI req) put reply →
      Dialogue env (poll ++ exchangeOf .onConfigRequest (.config (some req)) ++ put)
  | cancelAction {poll body followURI get reply action response report} :
      Answered env .poll poll body → Asks env body .cancelAction followURI →
      Answered env (.cancelAction followURI) get reply →
      CancelAction.fromString env.parse reply = .ok action →
      Reported env followURI (.cancel action) response report →
      Dialogue env (poll ++ get ++ exchangeOf (.onCancelAction action) (.response (some response)) ++
        report)
  | deploymentBase {poll body followURI get reply action response report} :
      Answered env .poll poll body → Asks env body .deploymentBase followURI →
      Answered env (.deploymentBase followURI) get reply →
      DeploymentBase.from env.parse reply = .ok action →
      Reported env followURI (.deployment action) response report →
      Dialogue env (poll ++ get ++
        exchangeOf (.onDeploymentAction action) (.response (some response)) ++ report)

/-! ### Reading a finished run -/

/-- A run of the protocol to its end. -/
abbrev Ends (env : Environment) (p : Phase) (seg : List Event) : Prop :=
  Follows (Phase.Step env) p seg .finished

/-- Nothing is said behind the end of a dialogue. -/
theorem ends_finished {seg : List Event} (h : Ends env .finished seg) : seg = [] := by
  cases h with
  | nil => rfl
  | cons hstep _ =>
    cases hstep with
    | undelivered h => cases h

/-- A dialogue that was aborted has no end. -/
theorem not_ends_aborted {seg : List Event} : ¬ Ends env .aborted seg := by
  intro h
  cases h with
  | cons hstep _ =>
    cases hstep with
    | undelivered h => cases h

/-- A callback that is due comes next. -/
theorem ends_due {c : Call} {seg : List Event} (h : Ends env (.due c) seg) :
    ∃ rest, seg = .called c.callback :: rest ∧ Ends env (.inside c) rest := by
  cases h with
  | cons hstep hrest =>
    cases hstep with
    | call => exact ⟨_, rfl, hrest⟩
    | undelivered h => cases h

/-- A callback returns, unless it tells a listener that its feedback was delivered. -/
theorem ends_inside {c : Call} {seg : List Event} (h : Ends env (.inside c) seg) :
    (∃ answer rest, seg = .returned c.callback answer :: rest ∧ Ends env (c.answered answer) rest) ∨
      ∃ response rest, c = .delivered response ∧ response.deliveryListener.isSome = true ∧
        seg = .called .onError :: rest ∧ Ends env (.inside (.undelivered response)) rest := by
  cases h with
  | cons hstep hrest =>
    cases hstep with
    | answer => exact Or.inl ⟨_, _, rfl, hrest⟩
    | undelivered h hsome =>
      cases h with
      | inside => exact Or.inr ⟨_, _, rfl, hsome, rfl, hrest⟩

/-- The end of a poll whose feedback was not delivered. -/
theorem ends_undelivered {response : Response} {seg : List Event}
    (h : Ends env (.inside (.undelivered response)) seg) : seg = [.returned .onError .void] := by
  obtain ⟨answer, rest, rfl, hrest⟩ | ⟨_, _, hc, _⟩ := ends_inside h
  · cases answer with
    | void => rw [ends_finished hrest]; rfl
    | _ => exact absurd hrest not_ends_aborted
  · cases hc

/-- What follows an exchange that was not answered with 200. -/
def Excused (s : Stage) (seg : List Event) : Prop :=
  ∃ followURI received response, s = .feedback followURI received response ∧
    response.deliveryListener.isSome = true ∧ seg = exchangeOf .onError .void

/-- A stage that failed ends with an excuse. -/
theorem ends_failed {s : Stage} {seg : List Event} (h : Ends env (.failed s) seg) :
    Excused s seg := by
  cases h with
  | cons hstep hrest =>
    cases hstep with
    | undelivered h hsome =>
      cases h with
      | failed => exact ⟨_, _, _, rfl, hsome, by rw [ends_undelivered hrest]; rfl⟩

/-- Behind `onAuthError` the request is sent again, or the stage ends with an excuse. -/
theorem ends_restored {s : Stage} {seg : List Event} (h : Ends env (.restored s) seg) :
    Excused s seg ∨ ∃ request wire rest, s.Requests env request ∧
      Ends env (s.replied env .second wire) rest ∧
      seg = .sent s.exchange .second request wire :: rest := by
  cases h with
  | cons hstep hrest =>
    cases hstep with
    | second hrequests => exact Or.inr ⟨_, _, _, hrequests, hrest, rfl⟩
    | undelivered h hsome =>
      cases h with
      | restored => exact Or.inl ⟨_, _, _, rfl, hsome, by rw [ends_undelivered hrest]; rfl⟩

/-- What a reply leads to. -/
theorem replied_cases (env : Environment) (s : Stage) (a : Attempt) (wire : Wire) :
    (∃ chunks, wire = .answered HTTP_OK chunks none ∧
        s.replied env a wire = s.accepted env chunks.flatten) ∨
      (a = .first ∧ Rejected wire) ∨ s.replied env a wire = .failed s := by
  cases wire with
  | threw e => exact Or.inr (Or.inr rfl)
  | failed e => exact Or.inr (Or.inr rfl)
  | answered status chunks cut =>
    cases cut with
    | some e => exact Or.inr (Or.inr rfl)
    | none =>
      by_cases hok : status = HTTP_OK
      · exact Or.inl ⟨chunks, by rw [hok], if_pos hok⟩
      · by_cases h401 : status = HTTP_UNAUTHORIZED ∧ a = .first
        · exact Or.inr (Or.inl ⟨h401.2, chunks, by rw [h401.1]⟩)
        · exact Or.inr (Or.inr ((if_neg hok).trans (if_neg h401)))

/-- An exchange is answered and the poll goes on, or it was feedback and the poll is over. -/
theorem ends_ready {s : Stage} {seg : List Event} (h : Ends env (.ready s) seg) :
    ∃ first rest, seg = first ++ rest ∧
      ((∃ body, Answered env s first body ∧ Ends env (s.accepted env body) rest) ∨
        Unanswered env s first ∧ Excused s rest) := by
  cases h with
  | cons hstep hrest =>
    cases hstep with
    | undelivered h => cases h
    | @first _ request wire hrequests =>
      obtain ⟨chunks, rfl, haccepted⟩ | ⟨_, hrejected⟩ | hfailed := replied_cases env s .first wire
      · rw [haccepted] at hrest
        exact ⟨[_], _, rfl, Or.inl ⟨_, .first hrequests, hrest⟩⟩
      · rw [replied_of_rejected hrejected] at hrest
        cases hrest with
        | cons hstep hrest =>
          cases hstep with
          | undelivered h => cases h
          | restore =>
            obtain hexcused | ⟨request', wire', rest, hrequests', hlast, rfl⟩ := ends_restored hrest
            · exact ⟨[_, _], _, rfl, Or.inr ⟨.restored hrequests hrejected, hexcused⟩⟩
            · obtain ⟨chunks, rfl, haccepted⟩ | ⟨hsecond, _⟩ | hfailed :=
                replied_cases env s .second wire'
              · rw [haccepted] at hlast
                exact ⟨[_, _, _], _, rfl,
                  Or.inl ⟨_, .second hrequests hrejected hrequests', hlast⟩⟩
              · cases hsecond
              · rw [hfailed] at hlast
                exact ⟨[_, _, _], _, rfl,
                  Or.inr ⟨.second hrequests hrejected hrequests' hfailed, ends_failed hlast⟩⟩
      · rw [hfailed] at hrest
        exact ⟨[_], _, rfl, Or.inr ⟨.first hrequests hfailed, ends_failed hrest⟩⟩

/-- Every exchange but feedback is answered. -/
theorem ends_answered {s : Stage} {seg : List Event} (h : Ends env (.ready s) seg)
    (hs : s.exchange ≠ .feedback) :
    ∃ first body rest, seg = first ++ rest ∧ Answered env s first body ∧
      Ends env (s.accepted env body) rest := by
  obtain ⟨first, rest, hseg, ⟨body, hanswered, hrest⟩ | ⟨_, hexcused⟩⟩ := ends_ready h
  · exact ⟨first, body, rest, hseg, hanswered, hrest⟩
  · obtain ⟨_, _, _, rfl, _⟩ := hexcused
    exact absurd rfl hs

/-- Feedback is reported. -/
theorem ends_feedback {followURI : URI} {received : Received} {response : Response}
    {seg : List Event} (h : Ends env (.ready (.feedback followURI received response)) seg) :
    Reported env followURI received response seg := by
  obtain ⟨post, rest, rfl, ⟨body, hanswered, hrest⟩ | ⟨hunanswered, hexcused⟩⟩ := ends_ready h
  · simp only [Stage.accepted] at hrest
    split at hrest
    · obtain ⟨rest, rfl, hinside⟩ := ends_due hrest
      obtain ⟨answer, rest, rfl, hnext⟩ | ⟨_, rest, hc, _, rfl, hnext⟩ := ends_inside hinside
      · cases answer with
        | void =>
          rw [ends_finished hnext]
          exact .delivered hanswered ‹_›
        | _ => exact absurd hnext not_ends_aborted
      · cases hc
        rw [ends_undelivered hnext]
        exact .unnoticed hanswered ‹_›
    · rw [ends_finished hrest, List.append_nil]
      exact .unheard hanswered (Bool.eq_false_iff.mpr ‹_›)
  · obtain ⟨_, _, _, hs, hsome, rfl⟩ := hexcused
    cases hs
    exact .undelivered hunanswered hsome

/-- An action's callback is followed by feedback. -/
theorem ends_action {followURI : URI} {received : Received} {seg : List Event}
    (h : Ends env (.due (.action followURI received)) seg) :
    ∃ response report, Reported env followURI received response report ∧
      seg = exchangeOf received.callback (.response (some response)) ++ report := by
  obtain ⟨rest, rfl, hinside⟩ := ends_due h
  obtain ⟨answer, rest, rfl, hnext⟩ | ⟨_, _, hc, _⟩ := ends_inside hinside
  · cases answer with
    | response response =>
      cases response with
      | some response => exact ⟨response, rest, ends_feedback hnext, rfl⟩
      | none => exact absurd hnext not_ends_aborted
    | _ => exact absurd hnext not_ends_aborted
  · cases hc

/-- What follows the reply to a poll. -/
theorem ends_accepted_poll {body : Str} {seg : List Event}
    (h : Ends env (Stage.poll.accepted env body) seg) :
    ∃ action followURI, Asks env body action followURI ∧ Ends env (asked action followURI) seg := by
  simp only [Stage.accepted] at h
  cases hparse : env.parse (cstr body) with
  | none =>
    simp only [hparse] at h
    exact absurd h not_ends_aborted
  | some document =>
    cases hdecode : PollingData.fromString env.parse body with
    | error f =>
      simp only [hparse, hdecode] at h
      exact absurd h not_ends_aborted
    | ok polingData =>
      simp only [hparse, hdecode] at h
      exact ⟨_, _, ⟨document, polingData, hparse, hdecode, rfl, rfl⟩, h⟩

/-- The events of a poll that has finished are a dialogue. -/
theorem dialogue_of_ends {seg : List Event} (h : Ends env (.ready .poll) seg) : Dialogue env seg := by
  obtain ⟨poll, body, rest, rfl, hpoll, haccepted⟩ := ends_answered h nofun
  obtain ⟨action, followURI, hasks, hasked⟩ := ends_accepted_poll haccepted
  cases action with
  | none =>
    obtain ⟨rest, rfl, hinside⟩ := ends_due hasked
    obtain ⟨answer, rest, rfl, hnext⟩ | ⟨_, _, hc, _⟩ := ends_inside hinside
    · cases answer with
      | void =>
        rw [ends_finished hnext]
        exact .noActions hpoll hasks
      | _ => exact absurd hnext not_ends_aborted
    · cases hc
  | getConfigData =>
    obtain ⟨rest, rfl, hinside⟩ := ends_due hasked
    obtain ⟨answer, rest, rfl, hnext⟩ | ⟨_, _, hc, _⟩ := ends_inside hinside
    · cases answer with
      | config req =>
        cases req with
        | none => exact absurd hnext not_ends_aborted
        | some req =>
          by_cases hdata : req.data = []
          · simp only [Call.answered, if_pos hdata] at hnext
            rw [ends_finished hnext]
            exact .noData hpoll hasks hdata
          · simp only [Call.answered, if_neg hdata] at hnext
            obtain ⟨put, reply, rest, rfl, hput, hlast⟩ := ends_answered hnext nofun
            rw [ends_finished hlast, List.append_nil]
            have hdialogue := Dialogue.configData hpoll hasks hdata hput
            rw [List.append_assoc] at hdialogue
            exact hdialogue
      | _ => exact absurd hnext not_ends_aborted
    · cases hc
  | cancelAction =>
    obtain ⟨get, reply, rest, rfl, hget, hnext⟩ := ends_answered hasked nofun
    simp only [Stage.accepted] at hnext
    cases hdecode : CancelAction.fromString env.parse reply with
    | error f =>
      simp only [hdecode] at hnext
      exact absurd hnext not_ends_aborted
    | ok action =>
      simp only [hdecode] at hnext
      obtain ⟨response, report, hreported, rfl⟩ := ends_action hnext
      rw [← List.append_assoc, ← List.append_assoc]
      exact .cancelAction hpoll hasks hget hdecode hreported
  | deploymentBase =>
    have hstage : (Stage.deploymentBase followURI).exchange ≠ .feedback := Exchange.noConfusion
    obtain ⟨get, reply, rest, rfl, hget, hnext⟩ := ends_answered hasked hstage
    simp only [Stage.accepted] at hnext
    cases hdecode : DeploymentBase.from env.parse reply with
    | error f =>
      simp only [hdecode] at hnext
      exact absurd hnext not_ends_aborted
    | ok action =>
      simp only [hdecode] at hnext
      obtain ⟨response, report, hreported, rfl⟩ := ends_action hnext
      rw [← List.append_assoc, ← List.append_assoc]
      exact .deploymentBase hpoll hasks hget hdecode hreported

/-! ### Every poll -/

/-- What holds of every poll, however it ends. -/
structure Guarded (env : Environment) (seg : List Event) : Prop where
  configData : ∀ pre a request wire post, seg = pre ++ .sent .configData a request wire :: post →
    ∃ req, .returned .onConfigRequest (.config (some req)) ∈ pre ∧ req.data ≠ []
  feedback : ∀ pre a request wire post, seg = pre ++ .sent .feedback a request wire :: post →
    ∃ received response, Fetched env received pre ∧
      .returned received.callback (.response (some response)) ∈ pre
  called : ∀ pre c post, seg = pre ++ .called c :: post → ∃ body, AnsweredWith .poll body pre
  action : ∀ pre received post, seg = pre ++ .called (Received.callback received) :: post →
    Fetched env received pre
  accepted : seg.countP Event.isAcceptedFeedback ≤ 1

/-- A request is sent from one of two phases of its stage. -/
theorem sent_of_step {p q : Phase} {x : Exchange} {a : Attempt} {request : Request} {wire : Wire}
    (h : Phase.Step env p (.sent x a request wire) q) :
    ∃ s : Stage, s.exchange = x ∧ ∀ pre, p.Follows env pre → s.Follows env pre := by
  generalize hevent : Event.sent x a request wire = e at h
  cases h with
  | first => exact ⟨_, (Event.sent.inj hevent).1.symm, fun _ => id⟩
  | second => exact ⟨_, (Event.sent.inj hevent).1.symm, fun _ => id⟩
  | _ => cases hevent

/-- A callback is called when it is due, or to tell a listener. -/
theorem called_of_step {p q : Phase} {cb : Callback} (h : Phase.Step env p (.called cb) q) :
    (∃ c, c.callback = cb ∧ p = .due c) ∨ ∃ response, cb = .onError ∧ p.Undelivered response := by
  generalize hevent : Event.called cb = e at h
  cases h with
  | call => exact Or.inl ⟨_, (Event.called.inj hevent).symm, rfl⟩
  | undelivered h => exact Or.inr ⟨_, Event.called.inj hevent, h⟩
  | _ => cases hevent

/-- Every callback follows an answered poll request. -/
theorem Call.Follows.answeredPoll {c : Call} {seg : List Event} (h : c.Follows env seg) :
    ∃ body, AnsweredWith .poll body seg := by
  cases c with
  | action => exact h.1
  | _ => exact h

/-- A response that is not delivered yet follows a poll that was answered. -/
theorem Phase.Undelivered.answeredPoll {p : Phase} {response : Response} {seg : List Event}
    (hp : p.Undelivered response) (h : p.Follows env seg) : ∃ body, AnsweredWith .poll body seg := by
  cases hp with
  | failed => exact h.1
  | restored => exact h.1
  | inside => exact h

/-- Every run of the protocol is guarded. -/
theorem guarded_of_run {seg : List Event} {q : Phase}
    (h : Follows (Phase.Step env) (.ready .poll) seg q) : Guarded env seg where
  configData pre a request wire post hseg := by
    obtain ⟨p, q, hp, hstep⟩ := follows_of_run (hseg ▸ h)
    obtain ⟨s, hs, hfollows⟩ := sent_of_step hstep
    cases s with
    | configData followURI req => exact ⟨req, hfollows pre hp⟩
    | _ => cases hs
  feedback pre a request wire post hseg := by
    obtain ⟨p, q, hp, hstep⟩ := follows_of_run (hseg ▸ h)
    obtain ⟨s, hs, hfollows⟩ := sent_of_step hstep
    cases s with
    | feedback followURI received response => exact ⟨received, response, (hfollows pre hp).2⟩
    | _ => cases hs
  called pre c post hseg := by
    obtain ⟨p, q, hp, hstep⟩ := follows_of_run (hseg ▸ h)
    obtain ⟨c, _, rfl⟩ | ⟨response, _, hundelivered⟩ := called_of_step hstep
    · exact Call.Follows.answeredPoll hp
    · exact hundelivered.answeredPoll hp
  action pre received post hseg := by
    obtain ⟨p, q, hp, hstep⟩ := follows_of_run (hseg ▸ h)
    obtain ⟨c, hc, rfl⟩ | ⟨response, hc, _⟩ := called_of_step hstep
    · cases c with
      | action followURI received' =>
        obtain rfl : received' = received := by
          cases received' <;> cases received <;> cases hc <;> rfl
        exact hp.2
      | _ => cases received <;> cases hc
    · cases received <;> cases hc
  accepted := acceptedFeedback_le_one h

/-- The exchanges and the callbacks of a poll that returns are a dialogue, and those of every
poll are guarded. -/
theorem doPoll_protocol (env : Environment) (w : World) :
    ∃ seg, (finalState (doPoll env w)).conversation = w.conversation ++ seg ∧
      (ending (doPoll env w) = .ok () → Dialogue env seg) ∧ Guarded env seg := by
  obtain ⟨seg, q, hlog, hrun, hfinished⟩ := doPoll_conducts env w
  refine ⟨seg, hlog, fun hok => ?_, guarded_of_run hrun⟩
  rw [hfinished hok] at hrun
  exact dialogue_of_ends hrun

end Up2date.Ddi
