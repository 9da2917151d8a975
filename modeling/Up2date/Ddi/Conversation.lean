import Up2date.Ddi.Protocol
import Up2date.Ddi.Rules

/-!
# A poll follows the protocol

Each part of `doPoll` simulates the protocol from the phase it begins in, and the
postconditions say in which phase it can end: an exchange that returns was answered with
the status 200, a poll that returns is finished.
-/

namespace Up2date.Ddi

open Cxx Uri Httpclient
open Json (Value)

/-- Simulation of the protocol. -/
abbrev Conducts (env : Environment) {α : Type} (p : Phase) (m : Program α)
    (Q : Except (Fault Exn) α → Phase → Prop) : Prop :=
  Simulates World.conversation (Phase.Step env) p m Q

/-! ### Exchanges -/

/-- The contract of a sending function of a stage. -/
def Meets (env : Environment) (uri : URI) (s : Stage) : Contract := fun _ request wire result =>
  (request.endpoint = baseAddress uri → s.Requests env request) ∧ result = collected wire

/-- Where an exchange can be left by an exception. -/
inductive Stopped (s : Stage) : Fault Exn → Phase → Prop
  | unsent {f} : IsUnsent f → Stopped s f (.ready s)
  | rejected : Stopped s (.thrown .unauthorizedException) (.rejected s)
  | restored {f} : Stopped s f (.restored s)
  | failed {f} : Stopped s f (.failed s)

/-- Where an exchange can end. -/
def Exchanged (env : Environment) (s : Stage) :
    Except (Fault Exn) Httpclient.Response → Phase → Prop
  | .ok resp, q => q = s.accepted env resp.body
  | .error f, q => Stopped s f q

/-- An attempt returns when it was answered with 200, and is rejected when it was with 401. -/
theorem exchanged_replied (env : Environment) (s : Stage) (a : Attempt) (wire : Wire) :
    Exchanged env s (checked (collected wire)) (s.replied env a wire) := by
  cases wire with
  | threw e => exact .failed
  | failed e => exact .failed
  | answered status chunks cut =>
    cases cut with
    | some e => exact .failed
    | none =>
      have hchecked : checked (collected (.answered status chunks none)) =
          (checkHttpCode status HTTP_OK).mapError .thrown >>= fun _ => .ok ⟨status, chunks.flatten⟩ := by
        simp only [checked, collected, Wire.collect, Except.mapError, checkResult]
        change (Except.mapError _ (Except.map _ _)) = _
        cases checkHttpCode status HTTP_OK <;> rfl
      rw [hchecked]
      by_cases hok : status = HTTP_OK
      · rw [(checkHttpCode_ok_iff status).mpr hok, Stage.replied, if_pos hok]
        exact rfl
      · rw [Stage.replied, if_neg hok]
        by_cases h401 : status = HTTP_UNAUTHORIZED
        · rw [(checkHttpCode_unauthorized_iff status).mpr h401]
          split
          · exact .rejected
          · exact .failed
        · rw [if_neg fun h => h401 h.1]
          cases hcheck : checkHttpCode status HTTP_OK with
          | ok _ => exact absurd ((checkHttpCode_ok_iff status).mp hcheck) hok
          | error e => exact .failed

/-- A rejected first attempt leads to the call of a handler. -/
theorem replied_of_rejected {wire : Wire} (h : Rejected wire) (env : Environment) (s : Stage) :
    s.replied env .first wire = .rejected s := by
  obtain ⟨chunks, rfl⟩ := h
  simp only [Stage.replied]
  rw [if_neg (by decide), if_pos ⟨trivial, trivial⟩]

/-- Quiet events are no part of the conversation. -/
theorem conversation_quiet {quiet : List Event} (h : ∀ e ∈ quiet, Event.IsQuiet e) :
    quiet.filter Event.isProtocol = [] := by
  rw [List.filter_eq_nil_iff]
  intro e he
  have hquiet := h e he
  cases e <;> first | exact hquiet.elim | simp [Event.isProtocol]

/-- The request of a stage is part of the conversation. -/
theorem isProtocol_sent (s : Stage) (a : Attempt) (request : Request) (wire : Wire) :
    (Event.sent s.exchange a request wire).isProtocol = true := by
  cases s <;> rfl

/-- A call of `onAuthError` in a stage is part of the conversation. -/
theorem isProtocol_onAuthError (s : Stage) :
    (Event.onAuthError (some s.exchange)).isProtocol = true := by
  cases s <;> rfl

/-- The protocol's part of an attempt. -/
theorem AttemptTrace.conversation {env : Environment} {s : Stage} {uri : URI} {a : Attempt}
    {w : World} {seg : List Event} {r : Except (Fault Exn) Httpclient.Response}
    (h : AttemptTrace (Meets env uri s) s.exchange a uri w seg r) :
    (seg.filter Event.isProtocol = [] ∧ ∃ f, IsUnsent f ∧ r = .error f) ∨
      ∃ request wire, seg.filter Event.isProtocol = [.sent s.exchange a request wire] ∧
        s.Requests env request ∧ r = checked (collected wire) := by
  cases h with
  | @unsent f hf => exact Or.inl ⟨rfl, f, hf, rfl⟩
  | @sent request wire signals result hsent hC =>
    obtain ⟨hrequests, rfl⟩ := hC
    have hquiet : ∀ e ∈ signals.map Event.signal, Event.IsQuiet e := by
      intro e he
      obtain ⟨s, _, rfl⟩ := List.mem_map.mp he
      trivial
    refine Or.inr ⟨request, wire, ?_, hrequests hsent.endpoint, rfl⟩
    rw [List.cons_append, List.filter_cons_of_pos (isProtocol_sent _ _ _ _), List.filter_append,
      conversation_quiet hquiet]
    rfl

/-- An exchange conducts its stage. -/
theorem retryHandler_conducts {env : Environment} {s : Stage} {x : Exchange} {uri : URI}
    {func : HttpClient → Program Httpclient.Result} (hx : s.exchange = x)
    (hfunc : Sends (Meets env uri s) func) :
    Conducts env (.ready s) (retryHandler env x uri func) (Exchanged env s) := by
  subst hx
  intro w
  obtain ⟨seg, htrace, hrequest⟩ := retryHandler_trace hfunc env s.exchange uri w
  have hlog : (finalState (retryHandler env s.exchange uri func w)).conversation =
      w.conversation ++ seg.filter Event.isProtocol := by
    unfold World.conversation
    rw [htrace, List.filter_append]
  suffices h : ∃ q, Follows (Phase.Step env) (.ready s) (seg.filter Event.isProtocol) q ∧
      Exchanged env s (ending (retryHandler env s.exchange uri func w)) q by
    obtain ⟨q, hrun, hQ⟩ := h
    exact ⟨_, q, hlog, hrun, hQ⟩
  generalize ending (retryHandler env s.exchange uri func w) = r at hrequest
  have hfirst : ∀ {w seg}, AttemptTrace (Meets env uri s) s.exchange .first uri w seg unauthorized →
      Follows (Phase.Step env) (.ready s) (seg.filter Event.isProtocol) (.rejected s) := by
    intro w seg h
    obtain ⟨_, f, hf, hr⟩ | ⟨request, wire, hseg, hrequests, hr⟩ := h.conversation
    · cases hr
      exact hf.elim
    · have hrejected := (checked_collected_unauthorized_iff wire).mp hr.symm
      rw [hseg, ← replied_of_rejected hrejected env s]
      exact .single (.first hrequests)
  have hissued : ∀ seg, (Event.issued s.exchange :: seg).filter Event.isProtocol =
      seg.filter Event.isProtocol := fun _ => rfl
  have hconcluded : ∀ o, [Event.concluded s.exchange o].filter Event.isProtocol = [] := fun _ => rfl
  have honAuthError : ∀ quiet : List Event, (∀ e ∈ quiet, Event.IsQuiet e) →
      (Event.onAuthError (some s.exchange) :: quiet).filter Event.isProtocol =
        [.onAuthError (some s.exchange)] := by
    intro quiet hquiet
    rw [List.filter_cons_of_pos (isProtocol_onAuthError s), conversation_quiet hquiet]
  cases hrequest with
  | once hattempt hr =>
    rw [List.filter_append, hissued, hconcluded, List.append_nil]
    obtain ⟨hseg, f, hf, rfl⟩ | ⟨request, wire, hseg, hrequests, rfl⟩ := hattempt.conversation
    · rw [hseg]
      exact ⟨.ready s, .nil _, .unsent hf⟩
    · rw [hseg]
      exact ⟨_, .single (.first hrequests), exchanged_replied env s .first wire⟩
  | abandoned hhandler hattempt hquiet herror =>
    rw [List.filter_append, List.filter_append, hissued, honAuthError _ hquiet, hconcluded,
      List.append_nil]
    exact ⟨.restored s, (hfirst hattempt).append (.single .restore), .restored⟩
  | @twice seg quiet w₂ seg' r hregistered hattempt hquiet hsecond =>
    have hrestored : (Event.restored (some s.exchange) w₂.client :: seg').filter Event.isProtocol =
        seg'.filter Event.isProtocol := rfl
    rw [List.filter_append, List.filter_append, List.filter_append, hissued, honAuthError _ hquiet,
      hrestored, hconcluded, List.append_nil]
    have hrun := (hfirst hattempt).append (.single .restore)
    obtain ⟨hseg, f, hf, rfl⟩ | ⟨request, wire, hseg, hrequests, rfl⟩ := hsecond.conversation
    · rw [hseg, List.append_nil]
      exact ⟨.restored s, hrun, .restored⟩
    · rw [hseg]
      exact ⟨_, hrun.append (.single (.second hrequests)), exchanged_replied env s .second wire⟩

/-! ### Callbacks -/

/-- Downloads are not part of the protocol. -/
theorem isProtocol_of_isOf {e : Event} (h : e.IsOf .download) : e.isProtocol = false := by
  cases e <;> simp_all [Event.IsOf, Event.isProtocol]

/-- Where a callback can end. -/
def CalledBack {α : Type} (c : Call) (answer : α → Answer) : Except (Fault Exn) α → Phase → Prop
  | .ok a, q => q = c.answered (answer a)
  | .error _, q => q = .inside c

/-- A callback conducts itself once its phase lets it begin. -/
theorem callback_conducts {env : Environment} {α : Type} {p : Phase} (c : Call) {cb : Callback}
    (hcb : c.callback = cb) (hcall : Phase.Step env p (.called cb) (.inside c))
    (code : List Event → UserCode α) (answer : α → Answer) :
    Conducts env p (callback env cb code answer) (CalledBack c answer) := by
  subst hcb
  have hlog : ∀ e, e.isProtocol = true → ∀ w : World,
      (w.log e).conversation = w.conversation ++ [e] := by
    intro e he w
    change (w.trace ++ [e]).filter Event.isProtocol = _
    rw [List.filter_append, List.filter_cons_of_pos he]
    rfl
  have hcode : ∀ trace, Conducts env (.inside c) ((code trace).run (performCall env))
      (fun _ q => q = .inside c) := by
    intro trace
    have hrun := Interaction.run_respects
      (callRules_filter env (fun _ => isProtocol_of_isOf) fun _ _ => rfl).performCall (code trace)
    exact Simulates.unlogged hrun fun _ => rfl
  apply Simulates.emit_bind (hlog _ rfl) hcall
  apply Simulates.get_bind
  intro w
  apply (hcode w.trace).bind
  · intro a q hq
    subst hq
    apply Simulates.emit_bind (hlog _ rfl) .answer
    exact Simulates.pure rfl
  · intro f q hq
    exact hq

/-! ### The parts of a poll -/

/-- One turn of the search for an action link. -/
theorem decodeAction_cons {links : Value} {name : Str} {action : Actions}
    {rest : List (Str × Actions)} {found : Actions × URI}
    (h : decodeAction links ((name, action) :: rest) = .ok found) :
    if (links.member name).isSome then found.1 = action else decodeAction links rest = .ok found := by
  unfold decodeAction at h
  obtain ⟨present, hpresent, hrest⟩ := Decoder.bind_eq_ok_iff.mp h
  have hmember : (links.member name).isSome = present := by
    cases links with
    | object members => exact Option.some.inj (Decoder.demand_eq_ok_iff.mp hpresent)
    | _ => cases hpresent
  rw [hmember]
  cases present with
  | true =>
    obtain ⟨link, _, hlink⟩ := Decoder.bind_eq_ok_iff.mp hrest
    obtain ⟨uri, _, hfound⟩ := Decoder.bind_eq_ok_iff.mp hlink
    rw [← Except.ok.inj hfound]
    rfl
  | false => exact hrest

/-- The first link that is there is followed, in the order of the source. -/
theorem decodeAction_actionLinks {links : Value} {found : Actions × URI}
    (h : decodeAction links actionLinks = .ok found) :
    found.1 = if (links.member "configData".toList).isSome then .getConfigData
      else if (links.member "cancelAction".toList).isSome then .cancelAction
      else if (links.member "deploymentBase".toList).isSome then .deploymentBase
      else .none := by
  have hconfigData := decodeAction_cons h
  split at hconfigData
  · rw [hconfigData, if_pos ‹_›]
  · have hcancelAction := decodeAction_cons hconfigData
    rw [if_neg ‹_›]
    split at hcancelAction
    · rw [hcancelAction, if_pos ‹_›]
    · have hdeploymentBase := decodeAction_cons hcancelAction
      rw [if_neg ‹_›]
      split at hdeploymentBase
      · rw [hdeploymentBase, if_pos ‹_›]
      · rw [if_neg ‹_›, ← Except.ok.inj hdeploymentBase]

/-- The decoder takes the first of the links that is there. -/
theorem fromString_linkedAction {parse : Str → Option Value} {body : Str} {data : PollingData}
    (h : PollingData.fromString parse body = .ok data) :
    ∃ document, parse (cstr body) = some document ∧ data.action = linkedAction document := by
  unfold PollingData.fromString at h
  obtain ⟨document, hparse, hdocument⟩ := Decoder.bind_eq_ok_iff.mp h
  obtain ⟨sleep, _, hsleep⟩ := Decoder.bind_eq_ok_iff.mp hdocument
  obtain ⟨sleepTime, _, htime⟩ := Decoder.bind_eq_ok_iff.mp hsleep
  obtain ⟨present, hpresent, hlinks⟩ := Decoder.bind_eq_ok_iff.mp htime
  refine ⟨document, ?_, ?_⟩
  · unfold parseDocument at hparse
    cases hvalue : parse (cstr body) with
    | none => rw [hvalue] at hparse; cases hparse
    | some value => rw [hvalue] at hparse; rw [Except.ok.inj hparse]
  · have hpresent := Decoder.demand_eq_ok_iff.mp hpresent
    cases present with
    | false =>
      rw [← Except.ok.inj hlinks, linkedAction, (Value.hasMember_eq_false_iff.mp hpresent).2]
    | true =>
      obtain ⟨links, hmember, hrest⟩ := Decoder.bind_eq_ok_iff.mp hlinks
      obtain ⟨found, hfound, hdata⟩ := Decoder.bind_eq_ok_iff.mp hrest
      rw [← Except.ok.inj hdata, linkedAction, Decoder.demand_eq_ok_iff.mp hmember]
      exact decodeAction_actionLinks hfound

/-- Sending functions meet the contract of the stages whose request they send. -/
theorem sends_meets {env : Environment} {uri : URI} {s : Stage} {method : Method}
    {path : World → Str} {body contentType : Str}
    (h : ∀ w request, request.method = method → request.endpoint = baseAddress uri →
      request.target = cstr (path w) → request.body = body → s.Requests env request) :
    Sends (Meets env uri s) (fun cli => do
      let w ← get
      collect (← cli.send env
        (cli.request method (path w) w.client.defaultHeaders body contentType))) := by
  apply (sends_collected env method path body contentType).mono
  intro w request wire result hC
  obtain ⟨hmethod, htarget, hbody, _, hresult⟩ := hC
  exact ⟨fun hendpoint => h w request hmethod hendpoint htarget hbody, hresult⟩

/-- A request for configuration data is finished when nothing or a document was sent. -/
theorem followConfigData_conducts (env : Environment) (uri : URI) :
    Conducts env (.due (.configRequest uri)) (followConfigData env uri)
      (fun r q => r = .ok () → q = .finished) := by
  unfold followConfigData
  apply (callback_conducts (.configRequest uri) rfl .call _ _).bind
  · intro req q hq
    cases req with
    | none => exact Simulates.throw nofun
    | some req =>
      change Conducts env q (if req.data = [] then _ else _) _
      change q = if req.data = [] then _ else _ at hq
      split at hq
      · rw [if_pos ‹_›]
        exact Simulates.pure fun _ => hq
      · rw [if_neg ‹_›, hq]
        have hdocument : ∃ document, configDocument req = .ok document := ⟨_, rfl⟩
        obtain ⟨document, hdocument⟩ := hdocument
        rw [hdocument]
        have hput : Sends (Meets env uri (.configData uri req)) (fun cli => do
            let w ← get
            cli.put env uri.path w.client.defaultHeaders (cstr (env.write document))
              applicationJson) :=
          sends_meets fun w request hmethod hendpoint htarget hbody =>
            ⟨hmethod, hendpoint, htarget, document, hdocument, hbody⟩
        apply (retryHandler_conducts rfl hput).bind
        · intro resp q hq
          exact Simulates.unlogged (fun _ => rfl) fun _ _ => hq
        · intro f q _ h
          cases h
  · intro f q _ h
    cases h

/-- Telling a listener is finished when it returns. -/
theorem callListener_conducts {env : Environment} {cliResp : Response} {p : Phase} (c : Call)
    {cb : Callback} (hcb : c.callback = cb) (hanswered : c.answered .void = .finished)
    (hsome : cliResp.deliveryListener.isSome = true → Phase.Step env p (.called cb) (.inside c))
    (hnone : cliResp.deliveryListener.isSome = false → p = .finished)
    (member : ResponseDeliveryListener → UserCode Unit) :
    Conducts env p (callListener env cliResp cb member)
      (fun r q => (r = .ok () → q = .finished) ∧
        (r ≠ .ok () → cliResp.deliveryListener.isSome = true ∧ q = .inside c)) := by
  unfold callListener
  cases hlistener : cliResp.deliveryListener with
  | none =>
    rw [hlistener] at hnone
    exact Simulates.pure ⟨fun _ => hnone rfl, fun h => absurd rfl h⟩
  | some listener =>
    rw [hlistener] at hsome
    apply (callback_conducts c hcb (hsome rfl) _ _).mono
    intro r q hq
    cases r with
    | ok a => exact ⟨fun _ => hq.trans hanswered, fun h => absurd rfl h⟩
    | error f => exact ⟨nofun, fun _ => ⟨rfl, hq⟩⟩

/-- The delivery of feedback is finished when it was accepted or its failure was taken notice of. -/
theorem deliverFeedback_conducts (env : Environment) (uri : URI) (received : Received)
    (cliResp : Response) {document : List (Str × Value)}
    (hdocument : fillResponseDocument (some cliResp) [] received.id = .ok document) :
    Conducts env (.ready (.feedback uri received cliResp))
      (deliverFeedback env uri cliResp (.object document))
      (fun r q => r = .ok () → q = .finished) := by
  have hpost : Sends (Meets env uri (.feedback uri received cliResp)) (fun cli => do
      let path ← ofDecoder (Decoder.demand (formatFeedbackPath uri))
      let w ← get
      cli.post env path w.client.defaultHeaders (cstr (env.write (.object document)))
        applicationJson) := by
    apply sends_feedback
    intro path hpath
    exact sends_meets fun w request hmethod hendpoint htarget hbody =>
      ⟨hmethod, hendpoint, ⟨path, hpath, htarget⟩, document, hdocument, hbody⟩
  have hblock : Conducts env (.ready (.feedback uri received cliResp)) (do
      let _ ← postFeedback env uri (.object document)
      callListener env cliResp .onSuccessfulDelivery ResponseDeliveryListener.onSuccessfulDelivery)
      (fun r q => (r = .ok () → q = .finished) ∧ (∀ presented expected,
        r = .error (.thrown (.httpUnexpectedCodeException presented expected)) →
          q.Undelivered cliResp)) := by
    apply (retryHandler_conducts rfl hpost).bind
    · intro resp q hq
      change q = if _ then _ else _ at hq
      apply (callListener_conducts (.delivered cliResp) rfl rfl _ _ _).mono
      · intro r q h
        refine ⟨h.1, fun presented expected hr => ?_⟩
        rw [(h.2 (by rw [hr]; nofun)).2]
        exact .inside
      · intro hsome
        rw [hq, if_pos hsome]
        exact .call
      · intro hnone
        rw [hq, if_neg (by rw [hnone]; nofun)]
    · intro f q hq
      refine ⟨nofun, fun presented expected hf => ?_⟩
      cases hf
      cases hq with
      | unsent hunsent => exact hunsent.elim
      | restored => exact .restored
      | failed => exact .failed
  apply hblock.catching
  · intro a q h
    exact h.1
  · intro e q handler h hselect
    unfold deliveryFailed at hselect
    split at hselect
    · have hundelivered := h.2 _ _ rfl
      cases hselect
      cases hlistener : cliResp.deliveryListener with
      | none => exact Simulates.throw nofun
      | some listener =>
        have hsome : cliResp.deliveryListener.isSome = true := by rw [hlistener]; rfl
        apply (callListener_conducts (.undelivered cliResp) rfl rfl _ _ _).mono
        · intro r q h
          exact h.1
        · exact .undelivered hundelivered
        · intro hnone
          rw [hsome] at hnone
          cases hnone
    · cases hselect
  · intro f q _ h
    cases h

/-- What follows the callback of an action is finished with the delivery of feedback. -/
theorem answerAction_conducts (env : Environment) (uri : URI) (received : Received)
    (cliResp : Option Response) {q : Phase}
    (hq : q = (Call.action uri received).answered (.response cliResp)) :
    Conducts env q (answerAction env uri received.id cliResp)
      (fun r q => r = .ok () → q = .finished) := by
  unfold answerAction
  cases cliResp with
  | none => exact Simulates.throw nofun
  | some cliResp =>
    have hdocument : ∃ document,
        fillResponseDocument (some cliResp) [] received.id = .ok document := ⟨_, rfl⟩
    obtain ⟨document, hdocument⟩ := hdocument
    rw [hdocument, hq]
    apply (deliverFeedback_conducts env uri received cliResp hdocument).bind
    · intro _ q hq
      exact Simulates.unlogged (fun _ => rfl) fun _ _ => hq rfl
    · intro f q _ h
      cases h

/-- An action that was fetched, handled and answered is finished. -/
theorem followAction_conducts {env : Environment} {uri : URI} {s : Stage} {α : Type}
    (decode : Str → Decoder α) (c : α → Callback) (received : α → Received)
    (code : List Event → α → UserCode (Option Response)) (hexchange : s.exchange = .action)
    (hrequests : ∀ request : Request, request.method = .get → request.endpoint = baseAddress uri →
      request.target = cstr uri.path → s.Requests env request)
    (haccepted : ∀ body action, decode body = .ok action →
      s.accepted env body = .due (.action uri (received action)))
    (hcallback : ∀ action, (received action).callback = c action) :
    Conducts env (.ready s)
      (followAction env decode c code (fun action => (received action).id) uri)
      (fun r q => r = .ok () → q = .finished) := by
  have hget : Sends (Meets env uri s) (fun cli => do
      let w ← get
      cli.get env uri.path w.client.defaultHeaders) :=
    sends_meets fun _ request hmethod hendpoint htarget _ => hrequests request hmethod hendpoint htarget
  apply (retryHandler_conducts hexchange hget).bind
  · intro resp q hq
    have hq : q = s.accepted env resp.body := hq
    cases hdecode : decode resp.body with
    | error f => exact Simulates.throw nofun
    | ok action =>
      have hcall : Phase.Step env (.due (.action uri (received action))) (.called (c action))
          (.inside (.action uri (received action))) := by
        rw [← hcallback]
        exact .call
      rw [hq, haccepted _ _ hdecode]
      apply (callback_conducts (.action uri (received action)) (hcallback action) hcall _ _).bind
      · intro cliResp q hq
        exact answerAction_conducts env uri (received action) cliResp hq
      · intro f q _ h
        cases h
  · intro f q _ h
    cases h

/-- A cancel action that is followed to its end is finished. -/
theorem followCancelAction_conducts (env : Environment) (uri : URI) :
    Conducts env (.ready (.cancelAction uri)) (followCancelAction env uri)
      (fun r q => r = .ok () → q = .finished) := by
  have haccepted : ∀ body action, CancelAction.fromString env.parse body = .ok action →
      (Stage.cancelAction uri).accepted env body = .due (.action uri (.cancel action)) := by
    intro body action hdecode
    simp only [Stage.accepted, hdecode]
  rw [followCancelAction_eq]
  exact followAction_conducts _ .onCancelAction .cancel env.handler.onCancelAction rfl
    (fun _ hmethod hendpoint htarget => ⟨hmethod, hendpoint, htarget⟩) haccepted fun _ => rfl

/-- A deployment that is followed to its end is finished. -/
theorem followDeploymentBase_conducts (env : Environment) (uri : URI) :
    Conducts env (.ready (.deploymentBase uri)) (followDeploymentBase env uri)
      (fun r q => r = .ok () → q = .finished) := by
  have haccepted : ∀ body action, DeploymentBase.from env.parse body = .ok action →
      (Stage.deploymentBase uri).accepted env body = .due (.action uri (.deployment action)) := by
    intro body action hdecode
    simp only [Stage.accepted, hdecode]
  rw [followDeploymentBase_eq]
  exact followAction_conducts _ .onDeploymentAction .deployment env.handler.onDeploymentAction rfl
    (fun _ hmethod hendpoint htarget => ⟨hmethod, hendpoint, htarget⟩) haccepted fun _ => rfl

/-- What a poll asks for is finished when it returns. -/
theorem follow_conducts (env : Environment) (polingData : PollingData) :
    Conducts env (asked polingData.action polingData.followURI) (follow env polingData)
      (fun r q => r = .ok () → q = .finished) := by
  unfold follow asked
  cases polingData.action with
  | none =>
    apply (callback_conducts .noActions rfl .call _ _).mono
    intro r q hq hr
    subst hr
    exact hq
  | getConfigData => exact followConfigData_conducts env _
  | cancelAction => exact followCancelAction_conducts env _
  | deploymentBase => exact followDeploymentBase_conducts env _

/-- A poll conducts the protocol from its beginning. -/
theorem doPoll_conducts (env : Environment) :
    Conducts env (.ready .poll) (doPoll env) (fun r q => r = .ok () → q = .finished) := by
  unfold doPoll
  apply Simulates.get_bind
  intro w
  have hpoll : Sends (Meets env w.client.hawkbitURI .poll) (fun cli => do
      let w ← get
      cli.get env w.client.hawkbitURI.path w.client.defaultHeaders) :=
    sends_meets fun w request hmethod _ _ _ => hmethod
  apply (retryHandler_conducts rfl hpoll).bind
  · intro resp q hq
    cases hdecode : PollingData.fromString env.parse resp.body with
    | error f => exact Simulates.throw nofun
    | ok polingData =>
      obtain ⟨document, hparse, haction⟩ := fromString_linkedAction hdecode
      have hasked : q = asked polingData.action polingData.followURI := by
        rw [hq, haction]
        simp only [Stage.accepted, hparse, hdecode]
      rw [hasked]
      exact fun w => follow_conducts env polingData
        { w with client := setSleepTime polingData.sleepTime w.client }
  · intro f q _ h
    cases h

end Up2date.Ddi
