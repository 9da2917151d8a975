import Up2date.Ddi.Credentials
import Up2date.Ddi.Retrying
import Up2date.Ddi.RunRules

/-!
# The settings in force

A client changes its settings only by the calls of `AuthRestoreHandler`, and the trace records
each call before it is made. The settings in force at an event are those of the client after the
calls recorded before it, and every request of a run carries them: the key pair, the headers and
the decision to verify the server's certificate.
-/

namespace Up2date.Ddi

open Cxx Uri Httpclient

/-- A client with these settings. -/
def Settings.client (s : Settings) : HawkbitCommunicationClient :=
  { hawkbitURI := s.hawkbitURI, defaultHeaders := s.defaultHeaders, mTLSKeypair := s.mTLSKeypair,
    serverCertificateVerify := s.serverCertificateVerify }

/-- The call that an event records. -/
def Event.call? : Event → Option (Via × Setting)
  | .set s => some (.authRestoreHandler, s)
  | _ => none

/-- The calls that a part of a trace records. -/
def callsIn (seg : List Event) : List (Via × Setting) := seg.filterMap Event.call?

/-- The settings after an event. -/
def Settings.after (s : Settings) (e : Event) : Settings :=
  match e.call? with
  | some call => (s.client.after call).settings
  | none => s

/-- A request that is sent carries the settings. -/
def Settings.Carried (s : Settings) : Event → Prop
  | .sent _ _ request _ => request.keyPair = s.client.keyPair ∧
      request.headers = s.defaultHeaders ∧ request.verify = s.client.verify
  | _ => True

/-! ### Settings and calls -/

/-- A call makes of a client's settings what it makes of the client. -/
theorem settings_after (cli : HawkbitCommunicationClient) (call : Via × Setting) :
    (cli.after call).settings = (cli.settings.client.after call).settings := by
  obtain ⟨via, s⟩ := call
  unfold HawkbitCommunicationClient.after
  simp only [authRestoreHandler_perform]
  cases s with
  | setEndpoint endpoint =>
    simp only [HawkbitCommunicationClient.perform, HawkbitCommunicationClient.setEndpoint_eq_map]
    cases URI.fromString endpoint <;> cases via <;> rfl
  | setEndpointOf endpoint controllerId tenant =>
    simp only [HawkbitCommunicationClient.perform, HawkbitCommunicationClient.setEndpointOf_eq_map]
    cases hawkbitEndpointFrom endpoint controllerId tenant >>= URI.fromString <;> cases via <;> rfl
  | _ => cases via <;> rfl

/-- The settings after the events of a trace are those after the calls it records. -/
theorem foldl_settings_after (cli : HawkbitCommunicationClient) (seg : List Event) :
    seg.foldl Settings.after cli.settings = (cli.afterAll (callsIn seg)).settings := by
  induction seg generalizing cli with
  | nil => rfl
  | cons e rest ih =>
    rw [List.foldl_cons]
    cases he : e.call? with
    | none =>
      simp only [Settings.after, he]
      rw [ih, callsIn, callsIn, List.filterMap_cons_none he]
    | some call =>
      simp only [Settings.after, he]
      rw [← settings_after, ih, callsIn, callsIn, List.filterMap_cons_some he]
      rfl

/-- No call on the client changes whether certificates are verified. -/
theorem perform_serverCertificateVerify {s : Setting} {cli cli' : HawkbitCommunicationClient}
    (h : cli.perform s = .ok cli') : cli'.serverCertificateVerify = cli.serverCertificateVerify := by
  obtain ⟨_, _, _, rfl⟩ := HawkbitCommunicationClient.perform_frame h
  rfl

/-- No call changes whether certificates are verified. -/
theorem afterAll_serverCertificateVerify (cli : HawkbitCommunicationClient)
    (calls : List (Via × Setting)) :
    (cli.afterAll calls).serverCertificateVerify = cli.serverCertificateVerify := by
  induction calls generalizing cli with
  | nil => rfl
  | cons call rest ih =>
    refine (ih (cli.after call)).trans ?_
    obtain ⟨via, s⟩ := call
    cases via with
    | client =>
      unfold HawkbitCommunicationClient.after
      cases h : cli.perform s with
      | error e => rfl
      | ok cli' => exact perform_serverCertificateVerify h
    | authRestoreHandler =>
      unfold HawkbitCommunicationClient.after
      cases h : cli.perform s with
      | error e => simp only [authRestoreHandler_perform, h]
      | ok cli' => simp only [authRestoreHandler_perform, h, perform_serverCertificateVerify h]

/-! ### Every request carries the settings in force -/

/-- The settings are what the trace makes of them, and every request carries them. -/
abbrev Carries : World → World → Prop :=
  Accounts World.trace Settings.after Settings.Carried fun w => w.client.settings

/-- A mark leaves the settings and carries none. -/
theorem carries_mark {e : Event} (he : e.IsMark) (w : World) : Carries w (w.log e) := by
  have hcall : e.call? = none := by cases e <;> first | rfl | exact he.elim
  have hsent : w.client.settings.Carried e := by cases e <;> trivial
  refine ⟨[e], rfl, ?_, hsent, trivial⟩
  simp only [List.foldl_cons, List.foldl_nil, Settings.after, hcall]
  rfl

/-- A setting that is accepted. -/
theorem performSetting_of_ok {s : Setting} {w : World} {cli : HawkbitCommunicationClient}
    (h : w.client.perform s = .ok cli) :
    performSetting s w = .ok () { w.log (.set s) with client := cli } := by
  have hperform : (AuthRestoreHandler.mk (w.log (.set s)).client).perform s = .ok cli :=
    (authRestoreHandler_perform w.client s).trans h
  unfold performSetting
  rw [Effect.bind_of_ok (record_apply _ w), Effect.bind_of_ok (Effect.get_apply _), hperform]
  rfl

/-- A setting that throws. -/
theorem performSetting_of_error {s : Setting} {w : World} {e : StdException}
    (h : w.client.perform s = .error e) :
    performSetting s w = .error (.thrown (.std e)) (w.log (.set s)) := by
  have hperform : (AuthRestoreHandler.mk (w.log (.set s)).client).perform s = .error e :=
    (authRestoreHandler_perform w.client s).trans h
  unfold performSetting
  rw [Effect.bind_of_ok (record_apply _ w), Effect.bind_of_ok (Effect.get_apply _), hperform]
  rfl

/-- A setting is one event, whether it is accepted or throws. -/
theorem performRestore_carries (call : Setting ⊕ Signal) :
    Respects Carries (performRestore call) := by
  cases call with
  | inr s => exact Respects.modify fun w => ⟨[.signal s], rfl, by cases s <;> rfl, trivial, trivial⟩
  | inl s =>
    intro w
    have hafter := settings_after w.client (.authRestoreHandler, s)
    rw [HawkbitCommunicationClient.after] at hafter
    simp only [authRestoreHandler_perform] at hafter
    change Carries w (finalState (performSetting s w))
    cases hperform : w.client.perform s with
    | error e =>
      rw [performSetting_of_error hperform]
      simp only [hperform] at hafter
      exact ⟨[.set s], rfl, hafter, trivial, trivial⟩
    | ok cli =>
      rw [performSetting_of_ok hperform]
      simp only [hperform] at hafter
      exact ⟨[.set s], rfl, hafter, trivial, trivial⟩

/-- A client that was made from the settings in force sends requests that carry them. -/
theorem runRules_carries (env : Environment) : RunRules env Carries where
  log _ w he := carries_mark he w
  restore := performRestore_carries
  sent _ _ _ _ hkeyPair hheaders hverify :=
    ⟨[_], rfl, rfl, ⟨hkeyPair, hheaders, hverify⟩, trivial⟩
  signal s := performRestore_carries (.inr s)
  same _ _ htrace hsettings := ⟨[], htrace.trans (List.append_nil _).symm, hsettings, trivial⟩

/-- A request of a run carries the settings of the client after the calls recorded before it. -/
theorem carried_of_exec {env : Environment} {schedule : ℕ → List Signal}
    {cli : HawkbitCommunicationClient} {n : ℕ} {pre post : List Event} {e : Event}
    (h : (exec env schedule cli n).world.trace = pre ++ e :: post) :
    (cli.afterAll (callsIn pre)).settings.Carried e := by
  obtain ⟨seg, htrace, -, hallowed⟩ := (runRules_carries env).parts.exec schedule cli n
  obtain rfl : seg = pre ++ e :: post := htrace.symm.trans h
  rw [← foldl_settings_after]
  exact hallowed.of_append

/-- The key pair with which the credentials authenticate a connection. -/
def Credentials.pair : Credentials → Option MTLSKeyPair
  | .keyPair crt key => some ⟨crt, key⟩
  | _ => none

/-- The key pair of the client is the one of its credentials. -/
theorem keyPair_of_mTLSKeypair {cli : HawkbitCommunicationClient} {c : Credentials}
    (h : cli.mTLSKeypair = c.keypair) : cli.keyPair = c.pair := by
  unfold HawkbitCommunicationClient.keyPair
  rw [h]
  cases c <;> rfl

/-- A key pair goes with a request when it is set. -/
theorem isSome_keyPair (cli : HawkbitCommunicationClient) :
    cli.keyPair.isSome = cli.mTLSKeypair.isSet := by
  unfold HawkbitCommunicationClient.keyPair
  cases cli.mTLSKeypair.isSet <;> rfl

/-- What a request presents after calls on the client of a builder. -/
structure Presents (b : DefaultClientBuilderImpl) (calls : List (Via × Setting)) (request : Request) :
    Prop where
  keyPair : request.keyPair = (lastCredentials b.credentials calls).pair
  tokens : request.headers.values AUTHORIZATION_HEADER =
    presentedHeaders (b.defaultHeaders.values AUTHORIZATION_HEADER) (b.given ++ laterCredentials calls)
  others : request.headers.erase AUTHORIZATION_HEADER = b.defaultHeaders.erase AUTHORIZATION_HEADER
  verify : request.verify = (request.keyPair.isSome || b.verifyServerCertificate)

/-- The client verifies certificates when its builder says so. -/
theorem build_serverCertificateVerify {b : DefaultClientBuilderImpl} {cli : HawkbitCommunicationClient}
    (hbuild : b.build = .ok cli) : cli.serverCertificateVerify = b.verifyServerCertificate := by
  obtain ⟨fresh, -, rfl⟩ := build_eq_ok hbuild
  unfold DefaultClientBuilderImpl.authorise
  cases b.authVariant <;> rfl

/-- In a run of a built client every request, whatever it is for and whatever threads do
meanwhile, presents the key pair set last, the tokens set since the last key pair (behind the
builder's own values, if no key pair was set) and the headers of the builder, and leaves the
server's certificate unverified only if the builder was told so and there is no key pair. -/
theorem exec_presents {b : DefaultClientBuilderImpl} {cli : HawkbitCommunicationClient}
    (hbuild : b.build = .ok cli)
    {env : Environment} {schedule : ℕ → List Signal} {n : ℕ} {pre post : List Event} {x : Exchange}
    {a : Attempt} {request : Request} {wire : Wire}
    (h : (exec env schedule cli n).world.trace = pre ++ .sent x a request wire :: post) :
    Presents b (callsIn pre) request := by
  obtain ⟨hkeypair, hvalues, hothers⟩ := build_spec hbuild
  obtain ⟨hkeypairs, hvaluess, hotherss, -⟩ := afterAll_spec cli (callsIn pre) _ hkeypair
  obtain ⟨hpair, hsent, hverify⟩ := carried_of_exec h
  have hclient : (cli.afterAll (callsIn pre)).settings.client.keyPair =
      (cli.afterAll (callsIn pre)).keyPair := rfl
  have hsettings : (cli.afterAll (callsIn pre)).settings.client.verify =
      (cli.afterAll (callsIn pre)).verify := rfl
  rw [hclient] at hpair
  refine ⟨hpair.trans (keyPair_of_mTLSKeypair hkeypairs), ?_, ?_, ?_⟩
  · rw [hsent]
    refine hvaluess.trans ?_
    rw [hvalues, ← presentedHeaders_append]
  · rw [hsent]
    exact hotherss.trans hothers
  · rw [hverify, hsettings, hpair, isSome_keyPair, HawkbitCommunicationClient.verify,
      afterAll_serverCertificateVerify, build_serverCertificateVerify hbuild]

/-- A client that does not verify certificates, and what it is built by. -/
def carelessBuilder : DefaultClientBuilderImpl := { verifyServerCertificate := false }

/-- The client that it builds. -/
def carelessClient : HawkbitCommunicationClient :=
  { defaultSleepTime := 30000, currentSleepTime := 30000, serverCertificateVerify := false }

/-- Headers with a token. -/
def tokenHeaders : Headers :=
  Multimap.empty.insert AUTHORIZATION_HEADER "TargetToken t".toList

/-- The events of its run before the first poll request: `onAuthError` sets a token. -/
def tokenEvents : List Event :=
  [.onAuthError none, .set (.setDeviceToken "t".toList),
    .restored none { carelessClient with defaultHeaders := tokenHeaders }, .issued .poll]

/-- A request with the token. -/
def tokenRequest : Request :=
  { method := .get, endpoint := "://".toList, target := [], keyPair := none, verify := false
    headers := tokenHeaders, body := [], contentType := [] }

/-- The first request after a token was set presents the token. -/
theorem exec_presents_token : Presents carelessBuilder (callsIn tokenEvents) tokenRequest := by
  have htrace : (exec rejectingEnvironment (fun _ => []) carelessClient 6).world.trace =
      tokenEvents ++ .sent .poll .first tokenRequest (.answered HTTP_UNAUTHORIZED [] none) ::
        (exec rejectingEnvironment (fun _ => []) carelessClient 6).world.trace.drop 5 := rfl
  exact exec_presents (show carelessBuilder.build = .ok carelessClient from rfl) htrace

end Up2date.Ddi
