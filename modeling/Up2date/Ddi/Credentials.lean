import Up2date.Ddi.Client

/-!
# The credentials of a client

The last setter called should decide how every later request is authenticated. Key pairs
are replaced and every setter clears those of the other kind, but a token is inserted into
a container that never replaces an entry, and only `setTLS` erases entries: the client
presents every token set since the last key pair. The last setter decides alone exactly
when it does not set a token right after another token.
-/

namespace Up2date.Ddi

open Cxx Uri Httpclient

/-- What a client authenticates itself with. -/
inductive Credentials
  | anonymous
  | keyPair (crt key : Str)
  | deviceToken (token : Str)
  | gatewayToken (token : Str)
deriving DecidableEq, Repr

namespace Credentials

/-- The `Authorization` header that presents the credentials. -/
def header : Credentials → Option Str
  | .anonymous => none
  | .keyPair _ _ => none
  | .deviceToken token => some ("TargetToken ".toList ++ token)
  | .gatewayToken token => some ("GatewayToken ".toList ++ token)

/-- The key pair that presents the credentials. -/
def keypair : Credentials → MTLSKeypair
  | .keyPair crt key => { crt, key, isSet := true }
  | _ => {}

/-- The client presents exactly these credentials. -/
def PresentedBy (c : Credentials) (cli : HawkbitCommunicationClient) : Prop :=
  cli.mTLSKeypair = c.keypair ∧
    cli.defaultHeaders.values AUTHORIZATION_HEADER = c.header.toList

end Credentials

/-- The credentials a call sets, if it sets any. -/
def Setting.credentials : Setting → Option Credentials
  | .setTLS crt key => some (.keyPair crt key)
  | .setDeviceToken token => some (.deviceToken token)
  | .setGatewayToken token => some (.gatewayToken token)
  | .setEndpoint _ => none
  | .setEndpointOf _ _ _ => none

/-- The endpoint a call sets, if it sets one and does not throw. -/
def Setting.endpoint : Setting → Option URI
  | .setEndpoint endpoint => (URI.fromString endpoint).toOption
  | .setEndpointOf hawkbitEndpoint controllerId tenant =>
    (hawkbitEndpointFrom hawkbitEndpoint controllerId tenant >>= URI.fromString).toOption
  | _ => none

/-- The credentials that a builder was given. -/
def DefaultClientBuilderImpl.credentials (b : DefaultClientBuilderImpl) : Credentials :=
  match b.authVariant with
  | .notSet => .anonymous
  | .gatewayToken => .gatewayToken b.token
  | .deviceToken => .deviceToken b.token
  | .mTLSKeypair => .keyPair b.crt b.key

/-- The object a setter is called on. -/
inductive Via
  | client | authRestoreHandler
deriving DecidableEq, Repr

/-- The client after a call, unchanged when the call throws. -/
def HawkbitCommunicationClient.after (cli : HawkbitCommunicationClient) (call : Via × Setting) :
    HawkbitCommunicationClient :=
  let outcome := match call.1 with
    | .client => cli.perform call.2
    | .authRestoreHandler => (AuthRestoreHandler.mk cli).perform call.2
  match outcome with
  | .ok cli' => cli'
  | .error _ => cli

/-- The client after some calls. -/
def HawkbitCommunicationClient.afterAll (cli : HawkbitCommunicationClient)
    (calls : List (Via × Setting)) : HawkbitCommunicationClient :=
  calls.foldl HawkbitCommunicationClient.after cli

/-- The credentials set after the first ones, in order. -/
def laterCredentials (calls : List (Via × Setting)) : List Credentials :=
  calls.filterMap fun call => call.2.credentials

/-- The headers of the tokens set since the last key pair. -/
def presentedHeaders (headers : List Str) : List Credentials → List Str
  | [] => headers
  | c :: rest =>
    presentedHeaders (match c.header with | none => [] | some h => headers ++ [h]) rest

/-- Both endpoint setters store a parsed URI, or throw. -/
theorem perform_of_credentials_eq_none {s : Setting} (h : s.credentials = none)
    (cli : HawkbitCommunicationClient) :
    ∃ parsed : Except StdException URI, s.endpoint = parsed.toOption ∧
      cli.perform s = parsed.map fun uri => { cli with hawkbitURI := uri } := by
  cases s with
  | setTLS crt key => cases h
  | setDeviceToken token => cases h
  | setGatewayToken token => cases h
  | setEndpoint endpoint => exact ⟨_, rfl, cli.setEndpoint_eq_map endpoint⟩
  | setEndpointOf hawkbitEndpoint controllerId tenant =>
    exact ⟨_, rfl, cli.setEndpointOf_eq_map hawkbitEndpoint controllerId tenant⟩

/-- What one call does to the credentials, the other headers and the endpoint. -/
theorem after_spec (cli : HawkbitCommunicationClient) (call : Via × Setting) :
    (cli.after call).mTLSKeypair =
        (call.2.credentials.map Credentials.keypair).getD cli.mTLSKeypair ∧
      (cli.after call).defaultHeaders.values AUTHORIZATION_HEADER =
        presentedHeaders (cli.defaultHeaders.values AUTHORIZATION_HEADER)
          call.2.credentials.toList ∧
      (cli.after call).defaultHeaders.erase AUTHORIZATION_HEADER =
        cli.defaultHeaders.erase AUTHORIZATION_HEADER ∧
      (cli.after call).hawkbitURI = call.2.endpoint.getD cli.hawkbitURI := by
  obtain ⟨via, s⟩ := call
  have hvia : cli.after (via, s) = cli.after (.client, s) := by
    cases via with
    | client => rfl
    | authRestoreHandler =>
      unfold HawkbitCommunicationClient.after
      simp only [authRestoreHandler_perform]
  rw [hvia]
  cases hs : s.credentials with
  | none =>
    obtain ⟨parsed, hparsed, hperform⟩ := perform_of_credentials_eq_none hs cli
    unfold HawkbitCommunicationClient.after
    simp only [hperform, hparsed]
    cases parsed <;> exact ⟨rfl, rfl, rfl, rfl⟩
  | some c =>
    cases s with
    | setTLS crt key =>
      cases hs
      exact ⟨rfl, Multimap.values_erase _ _, Multimap.erase_erase _ _, rfl⟩
    | setDeviceToken token =>
      cases hs
      exact ⟨rfl, Multimap.values_insert _ _ _, Multimap.erase_insert _ _ _, rfl⟩
    | setGatewayToken token =>
      cases hs
      exact ⟨rfl, Multimap.values_insert _ _ _, Multimap.erase_insert _ _ _, rfl⟩
    | setEndpoint endpoint => cases hs
    | setEndpointOf hawkbitEndpoint controllerId tenant => cases hs

/-- What is presented after more credentials starts from what was presented before. -/
theorem presentedHeaders_append (headers : List Str) (cs ds : List Credentials) :
    presentedHeaders headers (cs ++ ds) = presentedHeaders (presentedHeaders headers cs) ds := by
  induction cs generalizing headers with
  | nil => rfl
  | cons c rest ih => exact ih _

/-- The last of the optional values of a list, an earlier one standing in for a missing one. -/
theorem filterMap_cons_getLastD {α β : Type} (f : α → Option β) (a : α) (as : List α) (d : β) :
    ((a :: as).filterMap f).getLastD d = (as.filterMap f).getLastD ((f a).getD d) := by
  cases h : f a with
  | none => rw [List.filterMap_cons_none h, Option.getD_none]
  | some b => rw [List.filterMap_cons_some h, List.getLastD_cons, Option.getD_some]

/-- The credentials set last, by the builder when no call sets any. -/
def lastCredentials (first : Credentials) (calls : List (Via × Setting)) : Credentials :=
  (laterCredentials calls).getLastD first

/-- The endpoint set last, or the first one when no call sets any. -/
def lastEndpoint (first : URI) (calls : List (Via × Setting)) : URI :=
  (calls.filterMap fun call => call.2.endpoint).getLastD first

/-- What a sequence of calls does to the credentials, the other headers and the endpoint. -/
theorem afterAll_spec (cli : HawkbitCommunicationClient) (calls : List (Via × Setting))
    (first : Credentials) (hfirst : cli.mTLSKeypair = first.keypair) :
    (cli.afterAll calls).mTLSKeypair = (lastCredentials first calls).keypair ∧
      (cli.afterAll calls).defaultHeaders.values AUTHORIZATION_HEADER =
        presentedHeaders (cli.defaultHeaders.values AUTHORIZATION_HEADER)
          (laterCredentials calls) ∧
      (cli.afterAll calls).defaultHeaders.erase AUTHORIZATION_HEADER =
        cli.defaultHeaders.erase AUTHORIZATION_HEADER ∧
      (cli.afterAll calls).hawkbitURI = lastEndpoint cli.hawkbitURI calls := by
  induction calls generalizing cli first with
  | nil => exact ⟨hfirst, rfl, rfl, rfl⟩
  | cons call rest ih =>
    obtain ⟨hkeypair, hvalues, hothers, hendpoint⟩ := after_spec cli call
    have hnext : (cli.after call).mTLSKeypair = (call.2.credentials.getD first).keypair := by
      rw [hkeypair, hfirst]
      cases call.2.credentials <;> rfl
    obtain ⟨hkeypairs, hvaluess, hotherss, hendpoints⟩ := ih (cli.after call) _ hnext
    have hlater : laterCredentials (call :: rest) =
        call.2.credentials.toList ++ laterCredentials rest := by
      unfold laterCredentials
      cases h : call.2.credentials with
      | none => simp only [List.filterMap_cons, h, Option.toList_none, List.nil_append]
      | some c => simp only [List.filterMap_cons, h, Option.toList_some, List.singleton_append]
    have hcons : cli.afterAll (call :: rest) = (cli.after call).afterAll rest := rfl
    rw [hcons, hlater, presentedHeaders_append, ← hvalues, ← hothers]
    refine ⟨?_, hvaluess, hotherss, ?_⟩
    · rw [hkeypairs, lastCredentials, lastCredentials, laterCredentials, laterCredentials,
        filterMap_cons_getLastD]
    · rw [hendpoints, lastEndpoint, lastEndpoint, filterMap_cons_getLastD, hendpoint]

/-- A client is built from a fresh one without a key pair. -/
theorem build_eq_ok {b : DefaultClientBuilderImpl} {cli : HawkbitCommunicationClient}
    (hbuild : b.build = .ok cli) :
    ∃ fresh : HawkbitCommunicationClient, fresh.mTLSKeypair = {} ∧
      b.authorise (b.configure fresh) = cli := by
  unfold DefaultClientBuilderImpl.build at hbuild
  simp only at hbuild
  split at hbuild
  · cases h : URI.fromString b.hawkbitUri with
    | error e =>
      simp only [HawkbitCommunicationClient.setEndpoint, h] at hbuild
      cases hbuild
    | ok uri =>
      simp only [HawkbitCommunicationClient.setEndpoint, h] at hbuild
      exact ⟨{ hawkbitURI := uri }, rfl, Except.ok.inj hbuild⟩
  · exact ⟨{}, rfl, Except.ok.inj hbuild⟩

/-- The credentials that a builder sets, if any. -/
def DefaultClientBuilderImpl.given (b : DefaultClientBuilderImpl) : List Credentials :=
  match b.authVariant with
  | .notSet => []
  | _ => [b.credentials]

/-- A client just built presents the credentials of its builder, among its own headers. -/
theorem build_spec {b : DefaultClientBuilderImpl} {cli : HawkbitCommunicationClient}
    (hbuild : b.build = .ok cli) :
    cli.mTLSKeypair = b.credentials.keypair ∧
      cli.defaultHeaders.values AUTHORIZATION_HEADER =
        presentedHeaders (b.defaultHeaders.values AUTHORIZATION_HEADER) b.given ∧
      cli.defaultHeaders.erase AUTHORIZATION_HEADER =
        b.defaultHeaders.erase AUTHORIZATION_HEADER := by
  obtain ⟨fresh, hfresh, rfl⟩ := build_eq_ok hbuild
  have hconfigure : (b.configure fresh).mTLSKeypair = {} := hfresh
  unfold DefaultClientBuilderImpl.authorise DefaultClientBuilderImpl.given
    DefaultClientBuilderImpl.credentials
  cases b.authVariant with
  | notSet => exact ⟨hconfigure, rfl, rfl⟩
  | mTLSKeypair => exact ⟨rfl, Multimap.values_erase _ _, Multimap.erase_erase _ _⟩
  | gatewayToken => exact ⟨rfl, Multimap.values_insert _ _ _, Multimap.erase_insert _ _ _⟩
  | deviceToken => exact ⟨rfl, Multimap.values_insert _ _ _, Multimap.erase_insert _ _ _⟩

/-- Without headers of this name of its own it presents nothing else. -/
theorem presentedHeaders_given (b : DefaultClientBuilderImpl) :
    presentedHeaders [] b.given = presentedHeaders [] [b.credentials] := by
  unfold DefaultClientBuilderImpl.given DefaultClientBuilderImpl.credentials
  cases b.authVariant <;> rfl

/-- The last two credentials are both tokens. -/
def TokenAfterToken (history : List Credentials) : Prop :=
  ∃ earlier c d, history = earlier ++ [c, d] ∧ c.header.isSome ∧ d.header.isSome

/-- A key pair clears what is presented, and a token is one more. -/
theorem presentedHeaders_concat (headers : List Str) (cs : List Credentials) (c : Credentials) :
    presentedHeaders headers (cs ++ [c]) =
      match c.header with
      | none => []
      | some h => presentedHeaders headers cs ++ [h] := by
  rw [presentedHeaders_append]
  rfl

/-- Nothing is presented in a header exactly when the last credentials are no token. -/
theorem presentedHeaders_concat_eq_nil_iff (headers : List Str) (cs : List Credentials)
    (c : Credentials) : presentedHeaders headers (cs ++ [c]) = [] ↔ c.header = none := by
  rw [presentedHeaders_concat]
  cases c.header <;> simp

/-- The last credentials are presented alone unless they are a token after a token. -/
theorem presentedHeaders_eq_header_iff (first : Credentials) (later : List Credentials) :
    presentedHeaders [] (first :: later) = (later.getLastD first).header.toList ↔
      ¬ TokenAfterToken (first :: later) := by
  obtain rfl | ⟨init, d, rfl⟩ := later.eq_nil_or_concat
  · have hnot : ¬ TokenAfterToken [first] := by
      intro ⟨earlier, c, d, h, _⟩
      have hlength := congrArg List.length h
      simp at hlength
    refine iff_of_true ?_ hnot
    cases h : first.header <;> simp [presentedHeaders, h]
  · obtain ⟨earlier, c, hc⟩ : ∃ earlier c, first :: init = earlier ++ [c] :=
      ⟨_, _, (List.dropLast_append_getLast (List.cons_ne_nil first init)).symm⟩
    have htoken : TokenAfterToken (earlier ++ [c] ++ [d]) ↔ c.header.isSome ∧ d.header.isSome := by
      refine ⟨?_, fun h => ⟨earlier, c, d, by simp, h⟩⟩
      intro ⟨earlier', c', d', h, hheaders⟩
      have hsplit : earlier ++ [c, d] = earlier' ++ [c', d'] := by simpa using h
      obtain ⟨_, hcd⟩ := List.append_inj' hsplit rfl
      obtain ⟨rfl, hd⟩ := List.cons.inj hcd
      obtain ⟨rfl, _⟩ := List.cons.inj hd
      exact hheaders
    rw [List.concat_eq_append, ← List.cons_append, hc, htoken, presentedHeaders_concat,
      List.getLastD_concat]
    cases hd : d.header with
    | none => simp
    | some h =>
      have hnil := presentedHeaders_concat_eq_nil_iff [] earlier c
      simp [hnil]

/-- A client presents exactly the credentials set last, its other headers are those of the
builder and its endpoint is the one set last, unless the last two credentials set, those of
the builder included, are both tokens. -/
theorem credentials_after_iff (b : DefaultClientBuilderImpl) (cli : HawkbitCommunicationClient)
    (hbuild : b.build = .ok cli) (hheaders : b.defaultHeaders.values AUTHORIZATION_HEADER = [])
    (calls : List (Via × Setting)) :
    ((lastCredentials b.credentials calls).PresentedBy (cli.afterAll calls) ∧
        (cli.afterAll calls).defaultHeaders.erase AUTHORIZATION_HEADER = b.defaultHeaders ∧
        (cli.afterAll calls).hawkbitURI = lastEndpoint cli.hawkbitURI calls) ↔
      ¬ TokenAfterToken (b.credentials :: laterCredentials calls) := by
  obtain ⟨hkeypair, hvalues, hothers⟩ := build_spec hbuild
  rw [Multimap.erase_of_values_nil hheaders] at hothers
  obtain ⟨hkeypairs, hvaluess, hotherss, hendpoints⟩ := afterAll_spec cli calls _ hkeypair
  have hpresented : (cli.afterAll calls).defaultHeaders.values AUTHORIZATION_HEADER =
      presentedHeaders [] (b.credentials :: laterCredentials calls) := by
    rw [hvaluess, hvalues, hheaders, presentedHeaders_given, ← presentedHeaders_append]
    rfl
  rw [← presentedHeaders_eq_header_iff, ← hpresented]
  refine ⟨fun h => h.1.2, fun h => ⟨⟨hkeypairs, h⟩, ?_, hendpoints⟩⟩
  rw [hotherss, hothers]

/-- A client built with a key pair. -/
def keyPairClient : HawkbitCommunicationClient :=
  { defaultSleepTime := 30000, currentSleepTime := 30000,
    mTLSKeypair := ⟨"c".toList, "k".toList, true⟩ }

/-- A client built with a key pair keeps only the token set after it. -/
theorem keyPairClient_presents_token :
    (Credentials.deviceToken "b".toList).PresentedBy
      (keyPairClient.afterAll [(.authRestoreHandler, .setDeviceToken "b".toList)]) := by
  have hcondition : ¬ TokenAfterToken [.keyPair "c".toList "k".toList, .deviceToken "b".toList] := by
    intro ⟨earlier, c, d, h, hc, _⟩
    obtain ⟨_, hcd⟩ := List.append_inj' (show [] ++ [_, _] = earlier ++ [c, d] from h) rfl
    obtain ⟨rfl, _⟩ := List.cons.inj hcd
    cases hc
  have hiff := credentials_after_iff
    { crt := "c".toList, key := "k".toList, authVariant := .mTLSKeypair } keyPairClient rfl rfl
    [(.authRestoreHandler, .setDeviceToken "b".toList)]
  exact (hiff.mpr hcondition).1

/-- A builder with a device token. -/
def tokenBuilder : DefaultClientBuilderImpl :=
  { token := "a".toList, authVariant := .deviceToken }

/-- After a second token the first one is still presented. -/
theorem token_after_token_presents_both :
    ∃ cli, tokenBuilder.build = .ok cli ∧
      tokenBuilder.defaultHeaders.values AUTHORIZATION_HEADER = [] ∧
      (cli.afterAll [(.authRestoreHandler, .setDeviceToken "b".toList)]).defaultHeaders.values
        AUTHORIZATION_HEADER = ["TargetToken a".toList, "TargetToken b".toList] ∧
      ¬ (lastCredentials tokenBuilder.credentials
        [(.authRestoreHandler, .setDeviceToken "b".toList)]).PresentedBy
          (cli.afterAll [(.authRestoreHandler, .setDeviceToken "b".toList)]) := by
  refine ⟨_, rfl, rfl, by decide, ?_⟩
  intro ⟨_, h⟩
  revert h
  decide

end Up2date.Ddi
