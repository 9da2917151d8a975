import Up2date.Ddi.Rules

/-!
# The endpoint of a poll

A poll is sent to the base address of the endpoint that was in force when the poll began,
while its path, its headers and its key pair are those in force when each attempt is made.
The two agree in the first attempt. A second attempt follows the endpoint in force exactly
when `onAuthError` has kept scheme and authority.
-/

namespace Up2date.Ddi

open Cxx Uri Httpclient Computability

/-- The settings in force after a part of the trace of a poll request. -/
def HawkbitCommunicationClient.inForce (cli : HawkbitCommunicationClient) :
    Event → HawkbitCommunicationClient
  | .restored _ restored => restored
  | _ => cli

/-- A poll request with the endpoint and the credentials of a client. -/
structure PolledBy (cli : HawkbitCommunicationClient) (request : Request) : Prop where
  sent : SentBy cli cli.hawkbitURI request
  target : request.target = cstr cli.hawkbitURI.path

/-- Every poll request in a trace is made by the client in force. -/
def Obeys : HawkbitCommunicationClient → List Event → Prop
  | _, [] => True
  | cli, .sent .poll _ request _ :: rest => PolledBy cli request ∧ Obeys cli rest
  | cli, e :: rest => Obeys (cli.inForce e) rest

/-- A poll sends its requests to the endpoint in force. -/
def EndpointObeyed (env : Environment) (w : World) : Prop :=
  ∃ seg, (finalState (doPoll env w)).trace = w.trace ++ seg ∧ Obeys w.client seg

/-- Any event but a poll request. -/
def Event.IsOther : Event → Prop
  | .sent .poll _ _ _ => False
  | _ => True

/-- An event that is no request leaves only its effect on the client. -/
theorem obeys_cons_of_isOther {e : Event} (h : e.IsOther) (cli : HawkbitCommunicationClient)
    (rest : List Event) : Obeys cli (e :: rest) ↔ Obeys (cli.inForce e) rest := by
  cases e with
  | sent x => cases x <;> first | exact h.elim | exact Iff.rfl
  | _ => exact Iff.rfl

/-- A trace without poll requests obeys. -/
theorem obeys_of_isOther {seg : List Event} (h : ∀ e ∈ seg, Event.IsOther e)
    (cli : HawkbitCommunicationClient) : Obeys cli seg := by
  induction seg generalizing cli with
  | nil => trivial
  | cons e rest ih =>
    rw [obeys_cons_of_isOther (h e List.mem_cons_self)]
    exact ih (fun x hx => h x (List.mem_cons_of_mem _ hx)) _

/-- A trace obeys when its first part does and its second part does behind it. -/
theorem obeys_append (cli : HawkbitCommunicationClient) (seg seg' : List Event) :
    Obeys cli (seg ++ seg') ↔ Obeys cli seg ∧ Obeys (seg.foldl .inForce cli) seg' := by
  induction seg generalizing cli with
  | nil => exact (and_iff_right trivial).symm
  | cons e rest ih =>
    by_cases he : e.IsOther
    · rw [List.cons_append, obeys_cons_of_isOther he, obeys_cons_of_isOther he, ih]
      rfl
    · cases e with
      | sent x =>
        cases x with
        | poll =>
          simp only [List.cons_append, Obeys, ih, and_assoc]
          exact Iff.rfl
        | _ => exact absurd trivial he
      | _ => exact absurd trivial he

/-- Quiet events leave the client. -/
theorem foldl_inForce_of_isQuiet {quiet : List Event} (h : ∀ e ∈ quiet, Event.IsQuiet e)
    (cli : HawkbitCommunicationClient) : quiet.foldl .inForce cli = cli := by
  induction quiet with
  | nil => rfl
  | cons e rest ih =>
    have he : cli.inForce e = cli := by
      have hquiet := h e List.mem_cons_self
      cases e <;> first | rfl | exact hquiet.elim
    rw [List.foldl_cons, he, ih fun x hx => h x (List.mem_cons_of_mem _ hx)]

/-- A quiet event is no request. -/
theorem Event.IsQuiet.isOther {e : Event} (h : e.IsQuiet) : e.IsOther := by
  cases e <;> trivial

/-- After a poll request was sent. -/
theorem obeys_quiet_append {quiet : List Event} (h : ∀ e ∈ quiet, Event.IsQuiet e)
    (cli : HawkbitCommunicationClient) (seg : List Event) :
    Obeys cli (quiet ++ seg) ↔ Obeys cli seg := by
  rw [obeys_append, foldl_inForce_of_isQuiet h]
  exact and_iff_right (obeys_of_isOther (fun e he => (h e he).isOther) cli)

/-! ### What follows the poll request -/

/-- Downloads, actions and feedback are no poll requests. -/
theorem Event.IsOf.isOther {e : Event} {x : Exchange} (h : e.IsOf x) (hx : x ≠ .poll) :
    e.IsOther := by
  cases e with
  | sent y =>
    obtain rfl : y = x := h
    cases y <;> trivial
  | _ => trivial

/-- Reading the reply to a poll and following it sends no poll request. -/
theorem afterPoll_isOther (env : Environment) (resp : Httpclient.Response) :
    Respects (GrowsBy World.trace (letters Event.IsOther)∗) (do
      let polingData ← ofDecoder (PollingData.fromString env.parse resp.body)
      modify fun w => { w with client := setSleepTime polingData.sleepTime w.client }
      follow env polingData) := by
  refine Respects.bind (ofDecoder_respects _) fun polingData => ?_
  refine Respects.bind (Respects.modify fun w => GrowsBy.unchanged rfl) fun _ => ?_
  have hrules := followRules_letters env (fun _ => trivial) (fun _ _ => trivial)
    (fun _ _ => trivial) fun e x hx (he : e.IsOf x) => he.isOther hx
  exact hrules.follow polingData

/-! ### The attempts of a poll request -/

/-- The function that sends a poll request. -/
def sendPoll (env : Environment) (cli : HttpClient) : Program Httpclient.Result := do
  let w ← get
  cli.get env w.client.hawkbitURI.path w.client.defaultHeaders

/-- The request of an attempt that is made with the base address of a URI. -/
def pollRequest (uri : URI) (cli : HawkbitCommunicationClient) : Request :=
  { method := .get, endpoint := baseAddress uri, target := cstr cli.hawkbitURI.path,
    keyPair := cli.keyPair, verify := cli.verify, headers := cli.defaultHeaders,
    body := [], contentType := [] }

/-- What an attempt whose request is sent leaves behind. -/
def afterPolling (env : Environment) (a : Attempt) (uri : URI) (w : World) : World :=
  let reply := env.server w.trace (pollRequest uri w.client)
  (reply.signals.foldl World.signal
    (w.log (.sent .poll a (pollRequest uri w.client) reply.wire))).log
      (.ended .poll a (outcome (checked (collected reply.wire))))

/-- An attempt whose connection cannot be made sends nothing. -/
theorem pollAttempt_of_error {env : Environment} {uri : URI} {w : World} {e : StdException}
    (h : env.connect w.trace (baseAddress uri) w.client.keyPair = .error e) (a : Attempt) :
    wrappedRequest env .poll a uri (sendPoll env) w =
      .error (.thrown (.std e)) (w.log (.ended .poll a (.error (.thrown (.std e))))) := by
  have hclient := newHttpClient_apply env .poll a uri w
  rw [h] at hclient
  exact Effect.noting_of_error (Effect.bind_of_error hclient)

/-- Otherwise one request is sent. -/
theorem pollAttempt_of_ok {env : Environment} {uri : URI} {w : World}
    (h : env.connect w.trace (baseAddress uri) w.client.keyPair = .ok ()) (a : Attempt) :
    ending (wrappedRequest env .poll a uri (sendPoll env) w) =
        checked (collected (env.server w.trace (pollRequest uri w.client)).wire) ∧
      finalState (wrappedRequest env .poll a uri (sendPoll env) w) = afterPolling env a uri w := by
  have hclient := newHttpClient_apply env .poll a uri w
  rw [h] at hclient
  let cli : HttpClient := ⟨baseAddress uri, w.client.keyPair, w.client.verify, .poll, a⟩
  let reply := env.server w.trace (pollRequest uri w.client)
  let sent := reply.signals.foldl World.signal
    (w.log (.sent .poll a (pollRequest uri w.client) reply.wire))
  have hsend : sendPoll env cli w = collect reply.wire sent := rfl
  have hcollect : ending (collect reply.wire sent) = collected reply.wire ∧
      finalState (collect reply.wire sent) = sent := by
    unfold collect collected
    cases reply.wire.collect <;> exact ⟨rfl, rfl⟩
  obtain ⟨hending, hfinal⟩ := Effect.noting_spec (do
    let cli ← newHttpClient env .poll a uri
    let resp ← sendPoll env cli
    Effect.ofExcept (checkResult resp)) (fun r w => w.log (.ended .poll a (outcome r))) w
  obtain ⟨hcheck, hstate⟩ := Effect.bind_ofExcept_spec (sendPoll env cli) checkResult w
  unfold wrappedRequest
  rw [hending, hfinal, Effect.bind_of_ok hclient, hcheck, hstate, hsend, hcollect.1, hcollect.2]
  exact ⟨rfl, rfl⟩

/-- The first attempt of a poll is rejected, the handler returns, and a second attempt is made
in the state it leaves. -/
structure RetriesPoll (env : Environment) (w w₂ : World) : Prop where
  connected : env.connect (w.log (.issued .poll)).trace (baseAddress w.client.hawkbitURI)
    w.client.keyPair = .ok ()
  rejected : Rejected (env.server (w.log (.issued .poll)).trace
    (pollRequest w.client.hawkbitURI w.client)).wire
  restored : ∃ onAuthError, env.authErrorHandler = some onAuthError ∧
    callOnAuthError (some .poll) onAuthError
      (afterPolling env .first w.client.hawkbitURI (w.log (.issued .poll))) = .ok () w₂
  reconnected : env.connect w₂.trace (baseAddress w.client.hawkbitURI) w₂.client.keyPair = .ok ()

/-- An attempt obeys when it sends nothing, or to the base address in force. -/
theorem pollAttempt_obeys (env : Environment) (a : Attempt) (uri : URI) (w : World) :
    ∃ seg, (finalState (wrappedRequest env .poll a uri (sendPoll env) w)).trace = w.trace ++ seg ∧
      ∀ rest, Obeys w.client (seg ++ rest) ↔
        (env.connect w.trace (baseAddress uri) w.client.keyPair = .ok () →
          baseAddress uri = baseAddress w.client.hawkbitURI) ∧ Obeys w.client rest := by
  cases hconnect : env.connect w.trace (baseAddress uri) w.client.keyPair with
  | error e =>
    rw [pollAttempt_of_error hconnect]
    exact ⟨[_], rfl, fun rest => (and_iff_right nofun).symm⟩
  | ok _ =>
    rw [(pollAttempt_of_ok hconnect a).2]
    let reply := env.server w.trace (pollRequest uri w.client)
    have hsignals := foldl_signal_trace reply.signals
      (w.log (.sent .poll a (pollRequest uri w.client) reply.wire))
    have hquiet : ∀ e ∈ reply.signals.map Event.signal, Event.IsQuiet e := by
      intro e he
      obtain ⟨s, _, rfl⟩ := List.mem_map.mp he
      trivial
    refine ⟨_, World.log_trace (hsignals.trans (List.append_assoc _ _ _)) _, ?_⟩
    intro rest
    have hpolled : PolledBy w.client (pollRequest uri w.client) ↔
        baseAddress uri = baseAddress w.client.hawkbitURI :=
      ⟨fun h => h.sent.endpoint, fun h => ⟨⟨h, rfl, rfl⟩, rfl⟩⟩
    simp only [List.cons_append, List.nil_append, List.append_assoc, Obeys, hpolled,
      obeys_quiet_append hquiet, forall_const]
    exact Iff.rfl

/-- A first attempt that ends in `unauthorized_exception` was rejected. -/
theorem pollAttempt_unauthorized {env : Environment} {a : Attempt} {uri : URI} {w w₁ : World}
    (h : wrappedRequest env .poll a uri (sendPoll env) w =
      .error (.thrown .unauthorizedException) w₁) :
    env.connect w.trace (baseAddress uri) w.client.keyPair = .ok () ∧
      Rejected (env.server w.trace (pollRequest uri w.client)).wire ∧
      w₁ = afterPolling env a uri w := by
  cases hconnect : env.connect w.trace (baseAddress uri) w.client.keyPair with
  | error e =>
    rw [pollAttempt_of_error hconnect] at h
    cases h
  | ok _ =>
    obtain ⟨hending, hfinal⟩ := pollAttempt_of_ok hconnect a
    rw [h] at hending hfinal
    exact ⟨rfl, (checked_collected_unauthorized_iff _).mp hending.symm, hfinal⟩

/-- The first attempt of a poll request obeys. -/
theorem firstAttempt_obeys (env : Environment) (w : World) :
    ∃ first, (finalState (wrappedRequest env .poll .first w.client.hawkbitURI (sendPoll env)
        (w.log (.issued .poll)))).trace = w.trace ++ .issued .poll :: first ∧
      ∀ rest, Obeys w.client (.issued .poll :: first ++ rest) ↔ Obeys w.client rest := by
  obtain ⟨first, htrace, hfirst⟩ :=
    pollAttempt_obeys env .first w.client.hawkbitURI (w.log (.issued .poll))
  have hlog : (w.log (.issued .poll)).trace ++ first = w.trace ++ .issued .poll :: first :=
    List.append_assoc _ _ _
  rw [hlog] at htrace
  exact ⟨first, htrace, fun rest => (hfirst rest).trans (and_iff_right fun _ => rfl)⟩

/-- A poll request of one attempt obeys, and is not retried. -/
theorem getPoll_obeys_of_once {env : Environment} {w : World}
    (honce : env.authErrorHandler.isSome = true →
      ending (wrappedRequest env .poll .first w.client.hawkbitURI (sendPoll env)
        (w.log (.issued .poll))) ≠ unauthorized) :
    (∃ seg, (finalState (getPoll env w.client.hawkbitURI w)).trace = w.trace ++ seg ∧
      Obeys w.client seg) ∧ ∀ w₂, ¬ RetriesPoll env w w₂ := by
  obtain ⟨first, htrace, hfirst⟩ := firstAttempt_obeys env w
  constructor
  · change ∃ seg, (finalState (retryHandler env .poll _ (sendPoll env) w)).trace = _ ∧ _
    rw [(retryHandler_of_once honce).2]
    exact ⟨_, World.log_trace htrace _, (hfirst _).mpr trivial⟩
  · intro w₂ h
    obtain ⟨onAuthError, hhandler, _⟩ := h.restored
    refine absurd ?_ (honce (by rw [hhandler]; rfl))
    rw [(pollAttempt_of_ok h.connected .first).1]
    exact (checked_collected_unauthorized_iff _).mpr h.rejected

/-- A rejected poll request obeys as its second attempt does, when `onAuthError` returns. -/
theorem getPoll_obeys_of_unauthorized {env : Environment} {w w₁ : World}
    {onAuthError : List Event → RestoreCode} (hhandler : env.authErrorHandler = some onAuthError)
    (herror : wrappedRequest env .poll .first w.client.hawkbitURI (sendPoll env)
      (w.log (.issued .poll)) = .error (.thrown .unauthorizedException) w₁) :
    ∃ seg, (finalState (getPoll env w.client.hawkbitURI w)).trace = w.trace ++ seg ∧
      (Obeys w.client seg ↔ ∀ w₂, RetriesPoll env w w₂ →
        baseAddress w₂.client.hawkbitURI = baseAddress w.client.hawkbitURI) := by
  change ∃ seg, (finalState (retryHandler env .poll _ (sendPoll env) w)).trace = _ ∧ _
  obtain ⟨first, htrace, hfirst⟩ := firstAttempt_obeys env w
  obtain ⟨hconnected, hrejected, rfl⟩ := pollAttempt_unauthorized herror
  have hretries : ∀ w₂, RetriesPoll env w w₂ →
      callOnAuthError (some .poll) onAuthError
        (afterPolling env .first w.client.hawkbitURI (w.log (.issued .poll))) = .ok () w₂ := by
    intro w₂ h
    obtain ⟨_, hsome, hcall⟩ := h.restored
    rw [Option.some.inj (hhandler.symm.trans hsome)]
    exact hcall
  rw [herror] at htrace
  rw [retryHandler_of_unauthorized hhandler herror, (Effect.noting_spec _ _ _).2]
  obtain ⟨quiet, hquiet, hcall⟩ := callOnAuthError_trace (some .poll) onAuthError
    (afterPolling env .first w.client.hawkbitURI (w.log (.issued .poll)))
  rw [show World.trace (afterPolling env .first _ _) = _ from htrace] at hcall
  simp only [List.append_assoc] at hcall
  obtain ⟨f, w₂, herror₂, htrace₂⟩ | ⟨w₂, hok, htrace₂⟩ := hcall
  · rw [Effect.bind_of_error herror₂]
    refine ⟨_, World.log_trace htrace₂ _, ?_⟩
    rw [List.append_assoc, hfirst]
    refine iff_of_true ?_ fun w₂ h => ?_
    · exact (obeys_quiet_append hquiet _ _).mpr trivial
    · rw [hretries w₂ h] at herror₂
      cases herror₂
  · rw [Effect.bind_of_ok hok]
    obtain ⟨second, htrace', hsecond⟩ := pollAttempt_obeys env .second w.client.hawkbitURI w₂
    rw [htrace₂, List.append_assoc] at htrace'
    refine ⟨_, World.log_trace htrace' _, ?_⟩
    have hrestored : ∀ rest, Obeys w.client (.onAuthError (some .poll) :: (quiet ++
        .restored (some .poll) w₂.client :: rest)) ↔ Obeys w₂.client rest :=
      fun rest => obeys_quiet_append hquiet w.client (.restored (some .poll) w₂.client :: rest)
    simp only [List.append_assoc, List.cons_append, List.nil_append] at hfirst hrestored ⊢
    rw [hfirst, hrestored, hsecond]
    constructor
    · intro h w₃ hw₃
      obtain rfl : w₂ = w₃ := by
        have hsame := hok.symm.trans (hretries w₃ hw₃)
        cases hsame
        rfl
      exact (h.1 hw₃.reconnected).symm
    · intro h
      have hbase := fun hreconnected => (h w₂ ⟨hconnected, hrejected,
        ⟨onAuthError, hhandler, hok⟩, hreconnected⟩).symm
      exact ⟨hbase, trivial⟩

/-- A poll request obeys, unless its second attempt is sent elsewhere. -/
theorem getPoll_obeys (env : Environment) (w : World) :
    ∃ seg, (finalState (getPoll env w.client.hawkbitURI w)).trace = w.trace ++ seg ∧
      (Obeys w.client seg ↔ ∀ w₂, RetriesPoll env w w₂ →
        baseAddress w₂.client.hawkbitURI = baseAddress w.client.hawkbitURI) := by
  by_cases hretried : env.authErrorHandler.isSome = true ∧
      ending (wrappedRequest env .poll .first w.client.hawkbitURI (sendPoll env)
        (w.log (.issued .poll))) = unauthorized
  · obtain ⟨hregistered, hunauthorized⟩ := hretried
    obtain ⟨onAuthError, hhandler⟩ := Option.isSome_iff_exists.mp hregistered
    obtain ⟨w₁, herror⟩ := eq_error_of_ending hunauthorized
    exact getPoll_obeys_of_unauthorized hhandler herror
  · have honce := fun hregistered hunauthorized => hretried ⟨hregistered, hunauthorized⟩
    obtain ⟨⟨seg, htrace, hobeys⟩, hnever⟩ := getPoll_obeys_of_once honce
    exact ⟨seg, htrace, iff_of_true hobeys fun w₂ h => absurd h (hnever w₂)⟩

/-- A poll obeys exactly as its request does. -/
theorem doPoll_obeys (env : Environment) (w : World) :
    ∃ seg, (finalState (doPoll env w)).trace = w.trace ++ seg ∧
      (Obeys w.client seg ↔ ∀ w₂, RetriesPoll env w w₂ →
        baseAddress w₂.client.hawkbitURI = baseAddress w.client.hawkbitURI) := by
  obtain ⟨seg, htrace, hobeys⟩ := getPoll_obeys env w
  unfold doPoll
  rw [Effect.bind_of_ok (Effect.get_apply w)]
  cases hpoll : getPoll env w.client.hawkbitURI w with
  | error f w' =>
    rw [hpoll] at htrace
    rw [Effect.bind_of_error hpoll]
    exact ⟨seg, htrace, hobeys⟩
  | ok resp w' =>
    rw [hpoll] at htrace
    rw [Effect.bind_of_ok hpoll]
    obtain ⟨rest, hrest, hgrows⟩ := afterPoll_isOther env resp w'
    refine ⟨seg ++ rest, ?_, ?_⟩
    · rw [hgrows, show w'.trace = _ from htrace, List.append_assoc]
    · rw [← hobeys, obeys_append]
      exact and_iff_left (obeys_of_isOther (mem_letters_kstar.mp hrest) _)

/-- A poll sends its requests to the endpoint in force if and only if a handler that is called
between two attempts of the poll request leaves an endpoint with the same base address. -/
theorem endpointObeyed_iff (env : Environment) (w : World) :
    EndpointObeyed env w ↔ ∀ w₂, RetriesPoll env w w₂ →
      baseAddress w₂.client.hawkbitURI = baseAddress w.client.hawkbitURI := by
  obtain ⟨seg, htrace, hobeys⟩ := doPoll_obeys env w
  exact (exists_append_iff htrace).trans hobeys

/-- A handler that moves the client to another endpoint. -/
def moveAway : List Event → RestoreCode := fun _ =>
  .call (.inl (.setEndpoint "http://new/q".toList)) fun _ => .done ()

/-- A server that rejects every request of a client with this handler. -/
def movingEnvironment : Environment := { idleEnvironment with
  server := fun _ _ => { wire := .answered HTTP_UNAUTHORIZED [] none }
  authErrorHandler := some moveAway }

/-- A client of the endpoint it is moved away from. -/
def movedClient : HawkbitCommunicationClient :=
  { hawkbitURI := { scheme := "http".toList, authority := "old".toList, path := "/p".toList } }

/-- The second attempt asks the host of the old endpoint for the path of the new one. -/
theorem movingEnvironment_not_obeyed :
    ¬ EndpointObeyed movingEnvironment { client := movedClient } := by
  intro h
  obtain ⟨seg, htrace, hobeys⟩ := doPoll_obeys movingEnvironment { client := movedClient }
  have hkept := hobeys.mp ((exists_append_iff htrace).mp h)
  let rejected := afterPolling movingEnvironment .first movedClient.hawkbitURI
    (World.log (.issued .poll) { client := movedClient })
  let restored := callOnAuthError (some .poll) moveAway rejected
  have hnew : baseAddress (finalState restored).client.hawkbitURI = "http://new".toList := by
    decide +kernel
  have hreturned : ending restored = .ok () := by decide +kernel
  obtain ⟨w₂, hok⟩ := eq_ok_of_ending hreturned
  rw [hok] at hnew
  have hsame := hkept w₂ ⟨rfl, ⟨[], rfl⟩, ⟨moveAway, rfl, hok⟩, rfl⟩
  have hdiffer := hnew.symm.trans hsame
  revert hdiffer
  decide

end Up2date.Ddi
