import Up2date.Dps.Classification
import Up2date.Ddi.RunSettings
import Up2date.Example.Installations

/-!
# A client that provisions itself

`up2date_client`: the handler of authorisation errors asks the provisioning service for a key
pair and an endpoint until the client has taken both. The client is built without an endpoint, so
the handler is called before the first poll. Every request of its runs presents the key pair of
one payload, the one that the last call of the handler ended with, and no token.
-/

namespace Up2date.Example

open Cxx Uri Httpclient Ddi

/-- `DPSInfoReloadHandler`, with the replies of the provisioning service to the turns of the loop
in a call. The loop ends with a payload whose endpoint is a URI. -/
structure DPSInfoReloadHandler where
  client : Dps.ProvisioningClient
  json : Dps.JsonLibrary
  replies : List Event → List Dps.Service
  defined : ∀ trace, ∀ service ∈ replies trace,
    client.doProvisioning json service ≠ .error .undefined
  ends : ∀ trace, ∃ service ∈ replies trace, ∃ payload uri,
    client.doProvisioning json service = .ok payload ∧
      URI.fromString payload.up2DateEndpoint = .ok uri

/-- A turn of the loop; every exception is caught, and the loop goes on. -/
def turn (payload : Dps.Outcome Dps.ProvisioningData) (later : RestoreCode) : RestoreCode :=
  match payload with
  | .error _ => later
  | .ok payload => Interaction.catching (fun _ => later) do
    let _ ← Interaction.invoke (.inl (.setTLS payload.keyPair.crt payload.keyPair.key))
    Interaction.invoke (.inl (.setEndpoint payload.up2DateEndpoint))

/-- `DPSInfoReloadHandler::onAuthError` -/
def DPSInfoReloadHandler.onAuthError (h : DPSInfoReloadHandler) (trace : List Event) : RestoreCode :=
  ((h.replies trace).map (h.client.doProvisioning h.json)).foldr turn (.done ())

/-- The program `up2date_client` among servers and files. -/
def up2dateClient (env : Environment) (h : DPSInfoReloadHandler) : Environment :=
  { env with handler := basicHandler, authErrorHandler := some h.onAuthError }

/-- A client with the key pair and the endpoint of a payload that the service has sent during a
call of the handler, and without a token. -/
structure Provided (h : DPSInfoReloadHandler) (trace : List Event) (payload : Dps.ProvisioningData)
    (cli : HawkbitCommunicationClient) : Prop where
  sent : ∃ service ∈ h.replies trace, h.client.doProvisioning h.json service = .ok payload
  endpoint : URI.fromString payload.up2DateEndpoint = .ok cli.hawkbitURI
  keyPair : cli.mTLSKeypair = ⟨payload.keyPair.crt, payload.keyPair.key, true⟩
  tokens : cli.defaultHeaders.values AUTHORIZATION_HEADER = []

/-! ### A call of the handler -/

/-- The state after a payload whose endpoint was refused. -/
def tried (payload : Dps.ProvisioningData) (w : World) : World :=
  let crt := payload.keyPair.crt
  let key := payload.keyPair.key
  { (w.log (.set (.setTLS crt key))).log (.set (.setEndpoint payload.up2DateEndpoint)) with
    client := w.client.setTLS crt key }

/-- Both settings are tried, and an endpoint that is no URI leaves the loop running. -/
theorem run_turn (payload : Dps.ProvisioningData) (later : RestoreCode) (w : World) :
    (turn (.ok payload) later).run performRestore w =
      (Effect.catching (performSetting (.setEndpoint payload.up2DateEndpoint)) fun _ =>
        some (later.run performRestore))
          { w.log (.set (.setTLS payload.keyPair.crt payload.keyPair.key)) with
            client := w.client.setTLS payload.keyPair.crt payload.keyPair.key } := by
  have hsetTLS : performSetting (.setTLS payload.keyPair.crt payload.keyPair.key) w = _ :=
    performSetting_of_ok rfl
  unfold turn
  rw [Interaction.run_catching, Interaction.run_bind, Interaction.run_invoke]
  simp only [Interaction.run_invoke, performRestore]
  unfold Effect.catching
  rw [Effect.bind_of_ok hsetTLS]

/-- A payload whose endpoint is a URI ends the loop. -/
theorem run_turn_of_ok {payload : Dps.ProvisioningData} {uri : URI}
    (h : URI.fromString payload.up2DateEndpoint = .ok uri) (later : RestoreCode) (w : World) :
    (turn (.ok payload) later).run performRestore w =
      .ok () { tried payload w with client := { (tried payload w).client with hawkbitURI := uri } } := by
  have hset : (w.client.setTLS payload.keyPair.crt payload.keyPair.key).perform
      (.setEndpoint payload.up2DateEndpoint) = .ok { (tried payload w).client with hawkbitURI := uri } := by
    rw [HawkbitCommunicationClient.perform, HawkbitCommunicationClient.setEndpoint_eq_map, h]
    rfl
  rw [run_turn, Effect.catching, performSetting_of_ok hset]
  rfl

/-- Any other one is tried, and the loop goes on. -/
theorem run_turn_of_error {payload : Dps.ProvisioningData} {e : StdException}
    (h : URI.fromString payload.up2DateEndpoint = .error e) (later : RestoreCode) (w : World) :
    (turn (.ok payload) later).run performRestore w = later.run performRestore (tried payload w) := by
  have hset : (w.client.setTLS payload.keyPair.crt payload.keyPair.key).perform
      (.setEndpoint payload.up2DateEndpoint) = .error e := by
    rw [HawkbitCommunicationClient.perform, HawkbitCommunicationClient.setEndpoint_eq_map, h]
    rfl
  rw [run_turn, Effect.catching, performSetting_of_error hset]
  rfl

/-- The settings of a client after a payload. -/
structure Takes (payload : Dps.ProvisioningData) (uri : URI) (cli cli' : HawkbitCommunicationClient) :
    Prop where
  uri : cli'.hawkbitURI = uri
  keyPair : cli'.mTLSKeypair = ⟨payload.keyPair.crt, payload.keyPair.key, true⟩
  headers : cli'.defaultHeaders = cli.defaultHeaders.erase AUTHORIZATION_HEADER

/-- The loop ends with the first payload whose endpoint is a URI; nothing of the payloads before
it is left. -/
theorem run_turns {payloads : List (Dps.Outcome Dps.ProvisioningData)}
    (h : ∃ payload uri, .ok payload ∈ payloads ∧ URI.fromString payload.up2DateEndpoint = .ok uri)
    (w : World) :
    ∃ payload uri w', .ok payload ∈ payloads ∧ URI.fromString payload.up2DateEndpoint = .ok uri ∧
      (payloads.foldr turn (.done ())).run performRestore w = .ok () w' ∧
        Takes payload uri w.client w'.client := by
  induction payloads generalizing w with
  | nil =>
    obtain ⟨payload, uri, hmem, -⟩ := h
    cases hmem
  | cons first rest ih =>
    obtain ⟨payload, uri, hmem, huri⟩ := h
    rw [List.foldr_cons]
    cases first with
    | error f =>
      have hrest : .ok payload ∈ rest := (List.mem_cons.mp hmem).resolve_left nofun
      obtain ⟨payload, uri, w', hmem, huri, hrun, htakes⟩ := ih ⟨payload, uri, hrest, huri⟩ w
      exact ⟨payload, uri, w', List.mem_cons_of_mem _ hmem, huri, hrun, htakes⟩
    | ok tested =>
      cases htested : URI.fromString tested.up2DateEndpoint with
      | ok uri =>
        exact ⟨tested, uri, _, List.mem_cons_self, htested, run_turn_of_ok htested _ w, rfl, rfl, rfl⟩
      | error e =>
        have hrest : .ok payload ∈ rest := by
          refine (List.mem_cons.mp hmem).resolve_left fun heq => ?_
          cases heq
          cases htested.symm.trans huri
        obtain ⟨payload, uri, w', hmem, huri, hrun, htakes⟩ :=
          ih ⟨payload, uri, hrest, huri⟩ (tried tested w)
        refine ⟨payload, uri, w', List.mem_cons_of_mem _ hmem, huri,
          (run_turn_of_error htested _ w).trans hrun, htakes.uri, htakes.keyPair, ?_⟩
        exact htakes.headers.trans (Multimap.erase_erase _ _)

/-- The handler returns, and leaves a client that was provided for. -/
theorem callOnAuthError_provided (h : DPSInfoReloadHandler) (d : Option Exchange) (w : World) :
    ∃ w' quiet payload, callOnAuthError d h.onAuthError w = .ok () w' ∧
      w'.trace = w.trace ++ (.onAuthError d :: quiet ++ [.restored d w'.client]) ∧
      (∀ e ∈ quiet, Event.IsQuiet e) ∧
      Provided h (w.trace ++ [.onAuthError d]) payload w'.client := by
  obtain ⟨service, hservice, payload, uri, hpayload, huri⟩ := h.ends (w.trace ++ [.onAuthError d])
  have husable : ∃ payload uri, .ok payload ∈ (h.replies (w.trace ++ [.onAuthError d])).map
      (h.client.doProvisioning h.json) ∧ URI.fromString payload.up2DateEndpoint = .ok uri :=
    ⟨payload, uri, List.mem_map.mpr ⟨service, hservice, hpayload⟩, huri⟩
  obtain ⟨payload, uri, w₁, hmem, huri, hrun, htakes⟩ :=
    run_turns husable (w.log (.onAuthError d))
  have hcall : callOnAuthError d h.onAuthError w = .ok () (w₁.log (.restored d w₁.client)) := by
    unfold callOnAuthError
    rw [Effect.bind_of_ok (record_apply _ w), Effect.bind_of_ok (Effect.get_apply _)]
    exact Effect.bind_of_ok hrun
  have hprovided : Provided h (w.trace ++ [.onAuthError d]) payload w₁.client := by
    refine ⟨List.mem_map.mp hmem, huri.trans (by rw [htakes.uri]), htakes.keyPair, ?_⟩
    rw [htakes.headers]
    exact Multimap.values_erase _ _
  obtain ⟨quiet, hquiet, ⟨f, w', herror, -⟩ | ⟨w', hok, htrace⟩⟩ :=
    callOnAuthError_trace d h.onAuthError w
  · cases herror.symm.trans hcall
  · cases hok.symm.trans hcall
    exact ⟨_, quiet, payload, hcall, htrace, hquiet, hprovided⟩

/-! ### Every run -/

/-- The settings that an event restores. -/
def restoredSettings : Event → Option Settings
  | .restored _ cli => some cli.settings
  | _ => none

/-- A trace and the settings restored last in it, after one more event. -/
def recount (past : List Event × Settings) (e : Event) : List Event × Settings :=
  (past.1 ++ [e], (restoredSettings e).getD past.2)

/-- A request carries the settings restored last, and what is restored was provided. -/
def Accountable (h : DPSInfoReloadHandler) (past : List Event × Settings) : Event → Prop
  | .restored d cli => ∃ earlier quiet payload, past.1 = earlier ++ .onAuthError d :: quiet ∧
      (∀ e ∈ quiet, Event.IsQuiet e) ∧ Provided h (earlier ++ [.onAuthError d]) payload cli
  | e => past.2.Carried e

/-- The settings of a client are those restored last. -/
abbrev Recounts (h : DPSInfoReloadHandler) : World → World → Prop :=
  Accounts World.trace recount (Accountable h) fun w => (w.trace, w.client.settings)

/-- The count over a part of a trace leaves the settings restored last in it. -/
theorem foldl_recount (past : List Event × Settings) (seg : List Event) :
    seg.foldl recount past =
      (past.1 ++ seg, seg.foldl (fun s e => (restoredSettings e).getD s) past.2) := by
  induction seg generalizing past with
  | nil => rw [List.append_nil]; rfl
  | cons e rest ih => rw [List.foldl_cons, ih, recount, List.append_assoc]; rfl

/-- The settings restored last stay. -/
theorem foldl_restoredSettings {seg : List Event} (hseg : ∀ e ∈ seg, restoredSettings e = none)
    (s : Settings) : seg.foldl (fun s e => (restoredSettings e).getD s) s = s := by
  induction seg with
  | nil => rfl
  | cons e rest ih =>
    rw [List.foldl_cons, hseg e List.mem_cons_self]
    exact ih fun x hx => hseg x (List.mem_cons_of_mem _ hx)

section Rules

variable {h : DPSInfoReloadHandler} {env : Environment}

/-- An event that restores nothing leaves the settings. -/
theorem recounts_log {e : Event} (hsettings : restoredSettings e = none) {w : World}
    (hok : Accountable h (w.trace, w.client.settings) e) : Recounts h w (w.log e) := by
  refine ⟨[e], rfl, ?_, hok, trivial⟩
  rw [List.foldl_cons, List.foldl_nil, recount, hsettings]
  rfl

/-- A request leaves the settings and carries them. -/
theorem sendRules_recounts : SendRules env (Recounts h) where
  sent _ _ _ _ hkeyPair hheaders hverify := recounts_log rfl ⟨hkeyPair, hheaders, hverify⟩
  ended _ _ _ _ := recounts_log rfl trivial
  signal s _ := ⟨[.signal s], rfl, by cases s <;> rfl, trivial, trivial⟩
  same _ _ htrace hsettings :=
    ⟨[], htrace.trans (List.append_nil _).symm, Prod.ext htrace hsettings, trivial⟩

/-- A call of the handler restores what was provided. -/
theorem callOnAuthError_recounts (d : Option Exchange) :
    Respects (Recounts h) (callOnAuthError d h.onAuthError) := by
  intro w
  obtain ⟨w', quiet, payload, hcall, htrace, hquiet, hprovided⟩ := callOnAuthError_provided h d w
  rw [hcall]
  have hbefore : ∀ e ∈ Event.onAuthError d :: quiet, ∀ past, Accountable h past e := by
    intro e he past
    rcases List.mem_cons.mp he with rfl | he
    · trivial
    · have hof := hquiet e he
      cases e with
      | set s => trivial
      | signal s => trivial
      | _ => exact hof.elim
  refine ⟨_, htrace, ?_, (allowed_append _ _ _).mpr ⟨allowed_of_forall hbefore, ?_, trivial⟩⟩
  · rw [foldl_recount]
    exact Prod.ext htrace (by rw [List.foldl_append]; rfl)
  · rw [foldl_recount]
    exact ⟨w.trace, quiet, payload, rfl, hquiet, hprovided⟩

/-- A call of `onAuthError` leaves the settings it restores last. -/
theorem retryRules_recounts : RetryRules (up2dateClient env h) (Recounts h) where
  issued _ _ := recounts_log rfl trivial
  concluded _ _ _ := recounts_log rfl trivial
  handler d onAuthError henv := by
    cases henv
    exact callOnAuthError_recounts d

/-- Callbacks that make downloads only do not change the settings. -/
theorem callback_recounts {α : Type} {c : Callback} {code : List Event → UserCode α}
    {answer : α → Answer} (hcode : ∀ trace, (code trace).Makes IsDownload) :
    Respects (Recounts h) (callback (up2dateClient env h) c code answer) := by
  have hperform : ∀ op, IsDownload op →
      Respects (Recounts h) (performCall (up2dateClient env h) op) := by
    intro op hop
    cases op with
    | download uri d =>
      exact sendRules_recounts.performDownload retryRules_recounts
        (fun _ _ _ => recounts_log rfl trivial) uri d
    | _ => exact hop.elim
  exact callback_respects (fun _ => recounts_log rfl trivial)
    (fun trace => (hcode trace).run_respects _ hperform) fun _ _ _ _ => recounts_log rfl trivial

/-- The listeners of the handler's responses write to the console. -/
theorem listens_up2dateClient {listener : ResponseDeliveryListener}
    (hlistens : (up2dateClient env h).Listens listener) : listener = feedbackDeliveryListener := by
  cases hlistens with
  | onCancelAction hrun hlistener =>
    cases hrun
    cases hlistener
    rfl
  | onDeploymentAction hrun hlistener =>
    obtain ⟨_, _, -, -, -, hresponse⟩ := installed_of_ok hrun
    cases hresponse
    cases hlistener
    rfl

/-- Every part of a run keeps the count. -/
theorem partRules_recounts : PartRules (up2dateClient env h) (Recounts h) where
  toSendRules := sendRules_recounts
  toRetryRules := retryRules_recounts
  onConfigRequest := callback_recounts fun _ => .pure _
  onCancelAction _ := callback_recounts fun _ => .pure _
  onDeploymentAction dp := callback_recounts fun _ => onDeploymentAction_makes dp
  onNoActions := callback_recounts fun _ => .pure _
  onSuccessfulDelivery _ hlistens := by
    rw [listens_up2dateClient hlistens]
    exact callback_recounts fun _ => .pure _
  onError _ hlistens := by
    rw [listens_up2dateClient hlistens]
    exact callback_recounts fun _ => .pure _

end Rules

/-- A request presents a payload: that of the call of the handler before it which was the last. -/
def PresentsLast (h : DPSInfoReloadHandler) (pre : List Event) (request : Request) : Prop :=
  ∃ earlier d quiet cli later payload,
    pre = earlier ++ .onAuthError d :: quiet ++ .restored d cli :: later ∧
      (∀ e ∈ quiet, Event.IsQuiet e) ∧ (∀ e ∈ later, restoredSettings e = none) ∧
        Provided h (earlier ++ [.onAuthError d]) payload cli ∧
          request.keyPair = some payload.keyPair ∧ request.verify = true ∧
            request.headers.values AUTHORIZATION_HEADER = []

section Runs

variable {h : DPSInfoReloadHandler} {env : Environment} {schedule : ℕ → List Signal}
  {cli : HawkbitCommunicationClient}

/-- The trace of a run grows. -/
theorem exec_trace_mono {env : Environment} {m n : ℕ} (hmn : m ≤ n) :
    (exec env schedule cli m).world.trace <+: (exec env schedule cli n).world.trace := by
  induction n, hmn using Nat.le_induction with
  | base => exact List.prefix_rfl
  | succ n _ ih => exact ih.trans ⟨_, (exec_trace_succ n).symm⟩

/-- Start-up ends with a call of the handler, before anything is sent. -/
theorem trace_startUp (env : Environment) (h : DPSInfoReloadHandler) (schedule : ℕ → List Signal)
    (hempty : cli.hawkbitURI.isEmpty = true) :
    ∃ quiet cli' after,
      (exec (up2dateClient env h) schedule cli 2).world.trace =
        quiet ++ .restored none cli' :: after ∧
      ∀ e ∈ quiet ++ after, ∀ x a request wire, e ≠ .sent x a request wire := by
  have hpc := (exec_pc_restoreAuth (up2dateClient env h) schedule cli 1).mpr ⟨rfl, hempty⟩
  obtain ⟨w', quiet, payload, hcall, htrace, hquiet, -⟩ :=
    callOnAuthError_provided h none (exec (up2dateClient env h) schedule cli 1).world
  have hstep : (step (up2dateClient env h) (exec (up2dateClient env h) schedule cli 1)).world = w' := by
    unfold step
    rw [hpc]
    simp only [up2dateClient, call_world]
    exact congrArg finalState hcall
  have hzero : (exec (up2dateClient env h) schedule cli 0).world.trace =
      (schedule 0).map Event.signal := foldl_signal_trace _ _
  have hone : (exec (up2dateClient env h) schedule cli 1).world.trace =
      (schedule 0 ++ schedule 1).map Event.signal := by
    rw [List.map_append, ← hzero]
    exact foldl_signal_trace _ _
  have htwo : (exec (up2dateClient env h) schedule cli 2).world.trace =
      w'.trace ++ (schedule 2).map Event.signal := by
    rw [← hstep]
    exact foldl_signal_trace _ _
  refine ⟨(schedule 0 ++ schedule 1).map Event.signal ++ .onAuthError none :: quiet, w'.client,
    (schedule 2).map Event.signal, ?_, ?_⟩
  · rw [htwo, htrace, hone]
    simp only [List.append_assoc, List.cons_append, List.nil_append]
  · rintro e he x a request wire rfl
    simp only [List.mem_append, List.mem_cons, List.mem_map, reduceCtorEq, and_false, exists_false,
      false_or, or_false] at he
    exact hquiet _ he

/-- A request is sent after a call of the handler. -/
theorem exists_restored (hempty : cli.hawkbitURI.isEmpty = true) {n : ℕ} {pre post : List Event}
    {x : Exchange} {a : Attempt} {request : Request} {wire : Wire}
    (htrace : (exec (up2dateClient env h) schedule cli n).world.trace =
      pre ++ .sent x a request wire :: post) :
    ∃ d cli', .restored d cli' ∈ pre := by
  obtain ⟨quiet, cli', after, htwo, hsilent⟩ := trace_startUp env h schedule hempty
  have hrestored : .restored none cli' ∈ (exec (up2dateClient env h) schedule cli 2).world.trace := by
    rw [htwo]
    exact List.mem_append_right _ List.mem_cons_self
  have hsent : pre ++ [.sent x a request wire] <+:
      (exec (up2dateClient env h) schedule cli (n + 2)).world.trace := by
    refine List.IsPrefix.trans ⟨post, ?_⟩ (exec_trace_mono (Nat.le_add_right n 2))
    rw [htrace, List.append_assoc, List.singleton_append]
  rcases List.prefix_or_prefix_of_prefix (exec_trace_mono (Nat.le_add_left 2 n)) hsent with hle | hle
  · refine ⟨none, cli', ?_⟩
    simpa using hle.subset hrestored
  · have hmem := hle.subset (List.mem_append_right pre List.mem_cons_self)
    rw [htwo, List.mem_append, List.mem_cons] at hmem
    rcases hmem with hmem | heq | hmem
    · exact absurd rfl (hsilent _ (List.mem_append_left _ hmem) x a request wire)
    · cases heq
    · exact absurd rfl (hsilent _ (List.mem_append_right _ hmem) x a request wire)

/-- What a request carries was restored last before it, at the end of a call of the handler. -/
theorem carried_of_trace (hempty : cli.hawkbitURI.isEmpty = true) {n : ℕ}
    {pre post : List Event} {x : Exchange} {a : Attempt} {request : Request} {wire : Wire}
    (htrace : (exec (up2dateClient env h) schedule cli n).world.trace =
      pre ++ .sent x a request wire :: post) :
    ∃ before d cli' later, pre = before ++ .restored d cli' :: later ∧
      (∀ e ∈ later, restoredSettings e = none) ∧
        cli'.settings.Carried (.sent x a request wire) ∧
          ∃ earlier quiet payload, before = earlier ++ .onAuthError d :: quiet ∧
            (∀ e ∈ quiet, Event.IsQuiet e) ∧ Provided h (earlier ++ [.onAuthError d]) payload cli' := by
  obtain ⟨d, cli', hmem⟩ := exists_restored hempty htrace
  obtain ⟨before, e, later, rfl, he, hlater⟩ := exists_last_of_mem (p := fun e =>
    restoredSettings e ≠ none) hmem nofun
  have hrules : PartRules (up2dateClient env h) (Recounts h) := partRules_recounts
  obtain ⟨seg, hseg, -, hallowed⟩ := hrules.exec schedule cli n
  obtain rfl : seg = before ++ e :: later ++ .sent x a request wire :: post := hseg.symm.trans htrace
  have hcarried := hallowed.of_append
  rw [List.append_assoc] at hallowed
  have hprovided := hallowed.of_append
  cases e with
  | restored d cli' =>
    have hlater : ∀ e ∈ later, restoredSettings e = none := fun e he => not_not.mp (hlater e he)
    rw [foldl_recount, List.foldl_append, List.foldl_cons, foldl_restoredSettings hlater] at hcarried
    rw [foldl_recount] at hprovided
    exact ⟨before, d, cli', later, rfl, hlater, hcarried, hprovided⟩
  | _ => exact absurd rfl he

/-- A request that carries what was provided presents its key pair, verifies, and has no token. -/
theorem Provided.carried {trace : List Event} {payload : Dps.ProvisioningData}
    (hprovided : Provided h trace payload cli) {x : Exchange} {a : Attempt} {request : Request}
    {wire : Wire} (hcarried : cli.settings.Carried (.sent x a request wire)) :
    request.keyPair = some payload.keyPair ∧ request.verify = true ∧
      request.headers.values AUTHORIZATION_HEADER = [] := by
  obtain ⟨hkeyPair, hheaders, hverify⟩ := hcarried
  have hpair : cli.keyPair = some payload.keyPair := by
    rw [HawkbitCommunicationClient.keyPair, hprovided.keyPair]
    rfl
  have hverified : (cli.mTLSKeypair.isSet || cli.serverCertificateVerify) = true := by
    rw [hprovided.keyPair]
    rfl
  exact ⟨hkeyPair.trans hpair, hverify.trans hverified, hheaders ▸ hprovided.tokens⟩

end Runs

/-- In every run of the example every request presents the key pair of one payload: the one with
which the last call of the handler before it ended. -/
theorem exec_presentsLast (env : Environment) (h : DPSInfoReloadHandler)
    (schedule : ℕ → List Signal) {cli : HawkbitCommunicationClient}
    (hempty : cli.hawkbitURI.isEmpty = true) {n : ℕ} {pre post : List Event} {x : Exchange}
    {a : Attempt} {request : Request} {wire : Wire}
    (htrace : (exec (up2dateClient env h) schedule cli n).world.trace =
      pre ++ .sent x a request wire :: post) :
    PresentsLast h pre request := by
  obtain ⟨before, d, cli', later, rfl, hlater, hcarried, earlier, quiet, payload, rfl, hquiet,
    hprovided⟩ := carried_of_trace hempty htrace
  exact ⟨earlier, d, quiet, cli', later, payload, rfl, hquiet, hlater, hprovided,
    hprovided.carried hcarried⟩

/-- Provisioning data with a key pair of its own for every endpoint. -/
def provisioned (endpoint : Str) : Dps.ProvisioningData := ⟨⟨endpoint, endpoint⟩, endpoint⟩

/-- The texts of the data have no null character. -/
theorem texts_provisioned {endpoint : Str} (h : nul ∉ endpoint) :
    ∀ text ∈ (provisioned endpoint).texts, nul ∉ text := by
  simpa [Dps.ProvisioningData.texts, provisioned] using h

/-- A service that cannot be reached, and then sends these data with one endpoint after the other. -/
def services (endpoints : List Str) : List Dps.Service :=
  (fun _ => .error (.runtimeError [])) ::
    endpoints.map fun endpoint => Dps.dataService Dps.HTTP_OK (provisioned endpoint)

/-- What is done in a turn of the loop is defined. -/
theorem services_defined {endpoints : List Str} (hnul : ∀ endpoint ∈ endpoints, nul ∉ endpoint) :
    ∀ service ∈ services endpoints,
      Dps.provisioningClient.doProvisioning Dps.jsonLibrary service ≠ .error .undefined := by
  refine List.forall_mem_cons.mpr ⟨nofun, List.forall_mem_map.mpr fun endpoint hmem => ?_⟩
  rw [Dps.doProvisioning_dataService _ (texts_provisioned (hnul endpoint hmem))]
  nofun

/-- An endpoint that is a URI ends the loop. -/
theorem services_end {endpoints : List Str} {endpoint : Str} {uri : URI} (hmem : endpoint ∈ endpoints)
    (hnul : nul ∉ endpoint) (huri : URI.fromString endpoint = .ok uri) :
    ∃ service ∈ services endpoints, ∃ payload uri,
      Dps.provisioningClient.doProvisioning Dps.jsonLibrary service = .ok payload ∧
        URI.fromString payload.up2DateEndpoint = .ok uri :=
  ⟨_, List.mem_cons_of_mem _ (List.mem_map_of_mem hmem), provisioned endpoint, uri,
    Dps.doProvisioning_dataService _ (texts_provisioned hnul), huri⟩

/-- An endpoint that is no URI, and one that is. -/
def twoEndpoints : List Str := ["e".toList, "https://h/p".toList]

/-- Neither endpoint has a null character. -/
theorem twoEndpoints_nul : ∀ endpoint ∈ twoEndpoints, nul ∉ endpoint := by decide

/-- The second endpoint is a URI. -/
theorem fromString_last : URI.fromString "https://h/p".toList =
    .ok { scheme := "https".toList, authority := "h".toList, path := "/p".toList } := by
  decide +kernel

/-- A handler that gets its payload in the third turn. -/
def thirdTimeHandler : DPSInfoReloadHandler where
  client := Dps.provisioningClient
  json := Dps.jsonLibrary
  replies _ := services twoEndpoints
  defined _ := services_defined twoEndpoints_nul
  ends _ := services_end (List.mem_cons_of_mem _ (List.mem_singleton_self _))
    (twoEndpoints_nul _ (List.mem_cons_of_mem _ (List.mem_singleton_self _))) fromString_last

/-- The client that is built by default. -/
def freshClient : HawkbitCommunicationClient := { defaultSleepTime := 30000, currentSleepTime := 30000 }

/-- A request to an endpoint that presents a key pair. -/
def Event.presents (endpoint : Str) (keyPair : MTLSKeyPair) : Event → Bool
  | .sent _ _ request _ => request.endpoint == endpoint && request.keyPair == some keyPair
  | _ => false

/-- The first request goes to the endpoint of the third reply, with its key pair. -/
theorem exec_presentsLast_thirdTime : ∃ pre x a request wire post,
    (exec (up2dateClient idleEnvironment thirdTimeHandler) (fun _ => []) freshClient
      6).world.trace = pre ++ .sent x a request wire :: post ∧
    request.keyPair = some (provisioned "https://h/p".toList).keyPair ∧
    PresentsLast thirdTimeHandler pre request := by
  have hpresents : (exec (up2dateClient idleEnvironment thirdTimeHandler) (fun _ => []) freshClient
      6).world.trace.any (Event.presents "https://h".toList
        (provisioned "https://h/p".toList).keyPair) = true := by decide +kernel
  obtain ⟨e, hmem, he⟩ := List.any_eq_true.mp hpresents
  obtain ⟨pre, post, htrace⟩ := List.append_of_mem hmem
  cases e with
  | sent x a request wire =>
    have hkeyPair := (Bool.and_eq_true_iff.mp he).2
    exact ⟨pre, x, a, request, wire, post, htrace, eq_of_beq hkeyPair,
      exec_presentsLast idleEnvironment thirdTimeHandler (fun _ => [])
        (show freshClient.hawkbitURI.isEmpty = true from rfl) htrace⟩
  | _ => cases he

end Up2date.Example
