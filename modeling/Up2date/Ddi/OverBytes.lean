import Up2date.Ddi.Delivery
import Up2date.Ddi.RoundTrip
import Up2date.Ddi.RunRules
import Up2date.Ddi.Sessions
import Up2date.Ddi.UnixDownloads

/-!
# Runs over bytes

When all a server can do is to send bytes over the connections of the requests, everything that
a run makes of its replies comes from complete responses: an action is handed to its callback
only when a complete response with the status 200 held it, and a listener is told of a delivery
only when such a response has come to the feedback.
-/

namespace Up2date.Ddi

open Cxx Uri Httpclient Computability
open Httplib (IsResponse)

/-- A complete response with the status 200 came over the connection of an attempt. -/
def CameOver (conn : Connections) (trace : List Event) (x : Exchange) (body : Str) : Prop :=
  ∃ before a request wire after connection head tail,
    trace = before ++ .sent x a request wire :: after ∧
      conn before request = .ok connection ∧ connection.accepted = true ∧
      head.line.status = HTTP_OK ∧
      IsResponse connection.strm.broken connection.strm.content (head, body) tail

/-- What the callbacks of a run are called about came over its connections. -/
structure HeardOver (env : Environment) (conn : Connections) (schedule : ℕ → List Signal)
    (cli : HawkbitCommunicationClient) (n : ℕ) : Prop where
  polled : ∀ pre c post, (exec env schedule cli n).world.trace = pre ++ .called c :: post →
    ∃ body, CameOver conn pre .poll body
  action : ∀ pre (received : Received) post,
    (exec env schedule cli n).world.trace = pre ++ .called received.callback :: post →
    ∃ body, CameOver conn pre .action body ∧ received.IsIn env body
  delivered : ∀ pre post,
    (exec env schedule cli n).world.trace = pre ++ .called .onSuccessfulDelivery :: post →
    ∃ body, CameOver conn pre .feedback body

/-! ### Replies and the trace -/

/-- The reply to a request is that of the server after the events before it. -/
def Event.AnsweredIn (env : Environment) (trace : List Event) : Event → Prop
  | .sent _ _ request wire => wire = (env.server trace request).wire
  | _ => True

/-- Every request of a run is answered by the environment. -/
theorem runRules_answeredIn (env : Environment) : RunRules env (Chronicles (Event.AnsweredIn env)) where
  log e w he := by
    apply chronicles_log
    cases e <;> first | exact he.elim | trivial
  restore := chronicles_performRestore (fun _ _ => trivial) fun _ _ => trivial
  sent _ _ _ _ _ _ _ := chronicles_log rfl
  signal _ _ := chronicles_signal trivial
  same _ _ htrace _ := chronicles_same htrace

section Steps

variable {env : Environment} {schedule : ℕ → List Signal} {cli : HawkbitCommunicationClient}

/-- A reply in the trace of a run is that of the server after the events before it. -/
theorem answeredIn_of_exec {n : ℕ} {pre post : List Event} {e : Event}
    (h : (exec env schedule cli n).world.trace = pre ++ e :: post) : e.AnsweredIn env pre :=
  (runRules_answeredIn env).parts.chronicled h

/-- What a poll was answered with came over a connection. -/
theorem cameOver_of_answeredWith {conn : Connections} (h : RepliesOver env conn) {n : ℕ}
    {earlier pre' post : List Event} {e : Event} {x : Exchange} {body : Str}
    (htrace : (exec env schedule cli n).world.trace = earlier ++ pre' ++ e :: post)
    (hanswered : AnsweredWith x body (pre'.filter Event.isProtocol)) :
    CameOver conn (earlier ++ pre') x body := by
  obtain ⟨a, request, chunks, hmem, rfl⟩ := hanswered
  obtain ⟨mid, after, rfl⟩ := List.append_of_mem (List.mem_of_mem_filter hmem)
  have hsplit : (exec env schedule cli n).world.trace = (earlier ++ mid) ++
      .sent x a request (.answered HTTP_OK chunks none) :: (after ++ e :: post) := by
    rw [htrace]
    simp only [List.append_assoc, List.cons_append]
  have hwire : Wire.answered HTTP_OK chunks none = (env.server (earlier ++ mid) request).wire :=
    answeredIn_of_exec hsplit
  rw [h] at hwire
  obtain ⟨connection, head, tail, hconn, haccepted, hstatus, hresponse⟩ :=
    Httplib.isResponse_of_answered hwire.symm
  exact ⟨earlier ++ mid, a, request, _, after, connection, head, tail,
    (List.append_assoc _ _ _).symm, hconn, haccepted, hstatus, hresponse⟩

end Steps

/-! ### Deliveries -/

/-- A listener is told of a delivery only when the server has answered the feedback. -/
def Phase.Told (seg : List Event) : Phase → Prop
  | .due (.delivered _) => ∃ body, AnsweredWith .feedback body seg
  | _ => True

/-- The stage behind an answer was told by it. -/
theorem Stage.accepted_told {env : Environment} {s : Stage} {body : Str} {seg : List Event}
    (h : AnsweredWith s.exchange body seg) : (s.accepted env body).Told seg := by
  cases s with
  | poll =>
    unfold Stage.accepted
    cases env.parse (cstr body) with
    | none => trivial
    | some document =>
      cases PollingData.fromString env.parse body with
      | error f => trivial
      | ok polingData =>
        simp only
        cases linkedAction document <;> trivial
  | configData => trivial
  | cancelAction =>
    unfold Stage.accepted
    cases CancelAction.fromString env.parse body <;> trivial
  | deploymentBase =>
    unfold Stage.accepted
    cases DeploymentBase.from env.parse body <;> trivial
  | feedback =>
    simp only [Stage.accepted]
    split
    · exact ⟨body, h⟩
    · trivial

/-- The stage behind a reply was told by the requests so far. -/
theorem Stage.replied_told (env : Environment) (s : Stage) (a : Attempt) (request : Request)
    (wire : Wire) (seg : List Event) :
    (s.replied env a wire).Told (seg ++ [.sent s.exchange a request wire]) := by
  obtain ⟨chunks, rfl, haccepted⟩ | ⟨rfl, hrejected⟩ | hfailed := replied_cases env s a wire
  · rw [haccepted]
    exact Stage.accepted_told
      ⟨a, request, chunks, List.mem_append_right _ (List.mem_singleton_self _), rfl⟩
  · rw [replied_of_rejected hrejected]
    trivial
  · rw [hfailed]
    trivial

/-- The phase behind a step was told by the requests so far. -/
theorem Phase.Step.told {env : Environment} {p q : Phase} {e : Event} (seg : List Event)
    (h : Phase.Step env p e q) : q.Told (seg ++ [e]) := by
  cases h with
  | first => exact Stage.replied_told _ _ _ _ _ _
  | second => exact Stage.replied_told _ _ _ _ _ _
  | @answer c answer =>
    unfold Call.answered
    split
    · split <;> trivial
    all_goals trivial
  | _ => trivial

/-- A poll tells a listener of a delivery when feedback was answered with the status 200. -/
theorem answeredWith_of_delivered {env : Environment} {pre post : List Event} {r : Phase}
    (h : Follows (Phase.Step env) (.ready .poll) (pre ++ .called .onSuccessfulDelivery :: post) r) :
    ∃ body, AnsweredWith .feedback body pre := by
  obtain ⟨p, q, hpre, hstep, -⟩ := h.split
  have htold : p.Told pre := by
    apply hpre.invariant (show Phase.Told [] (.ready .poll) from trivial)
    intro seg p e q _ hpq
    exact hpq.told seg
  obtain ⟨c, hc, rfl⟩ | ⟨response, hc, -⟩ := called_of_step hstep
  · cases c with
    | delivered response => exact htold
    | action followURI received => cases received <;> cases hc
    | _ => cases hc
  · cases hc

section Calls

variable {env : Environment} {conn : Connections} {schedule : ℕ → List Signal}
  {cli : HawkbitCommunicationClient} {n : ℕ} {pre post : List Event}

/-- Before a callback a poll was answered. -/
theorem cameOver_of_called (h : RepliesOver env conn) {c : Callback}
    (htrace : (exec env schedule cli n).world.trace = pre ++ .called c :: post) :
    ∃ body, CameOver conn pre .poll body := by
  obtain ⟨k, pre', post', rfl, hsaid⟩ := exists_saidIn rfl htrace
  obtain ⟨body, hanswered⟩ := (guarded_saidIn k).called _ c post' hsaid
  exact ⟨body, cameOver_of_answeredWith h htrace hanswered⟩

/-- Before the callback of an action the action was described. -/
theorem cameOver_of_received (h : RepliesOver env conn) {received : Received}
    (htrace : (exec env schedule cli n).world.trace = pre ++ .called received.callback :: post) :
    ∃ body, CameOver conn pre .action body ∧ received.IsIn env body := by
  obtain ⟨k, pre', post', rfl, hsaid⟩ := exists_saidIn rfl htrace
  obtain ⟨body, hanswered, hin⟩ := (guarded_saidIn k).action _ received post' hsaid
  exact ⟨body, cameOver_of_answeredWith h htrace hanswered, hin⟩

end Calls

/-- Connections over which the texts of a server are sent, with the status 200. -/
def serving (texts : Str → Str) : Connections := fun _ request =>
  .ok ⟨true, InStream.pushFront (Httplib.headText 200)
    (InStream.pushFront (texts request.target) []), false⟩

/-- An environment with the JSON library, whose handler wants to know of its feedback. -/
def listeningEnvironment : Environment := { idleEnvironment with
  parse := Json.parse
  write := Json.write
  handler := { idleEnvironment.handler with
    onDeploymentAction := fun _ _ => .done (some listenedResponse) } }

/-- A listener is told of a delivery. -/
def Event.isDelivery : Event → Bool
  | .called .onSuccessfulDelivery => true
  | _ => false

end Up2date.Ddi
