import Up2date.Cxx.Logs
import Up2date.Ddi.Downloads

/-!
# What a request leaves in the trace

A request sends at most one HTTP request in each of its attempts. The trace it leaves is
described once for every request of the client: what an attempt sends, how an attempt ends,
and when `onAuthError` and a second attempt follow. A contract says what the sending
function of a request puts into the HTTP request and what it makes of the reply.
-/

namespace Up2date.Ddi

open Cxx Uri Httpclient Computability

/-- The events that are neither requests nor callbacks. -/
def Event.IsQuiet : Event → Prop
  | .set _ => True
  | .signal _ => True
  | _ => False

/-- What a sending function makes of the state, its request and the reply. -/
abbrev Contract := World → Request → Wire → Except (Fault Exn) Httpclient.Result → Prop

/-- The result of a request whose body is collected. -/
def collected (wire : Wire) : Except (Fault Exn) Httpclient.Result :=
  wire.collect.mapError fun e => .thrown (.std e)

/-- The checks of `wrappedRequest` applied to the outcome of its function. -/
def checked (r : Except (Fault Exn) Httpclient.Result) :
    Except (Fault Exn) Httpclient.Response :=
  r >>= fun result => (checkResult result).mapError .thrown

/-- `unauthorized_exception` -/
def unauthorized {α : Type} : Except (Fault Exn) α := .error (.thrown .unauthorizedException)

/-- The outcome is unauthorized exactly when the exception is. -/
theorem outcome_eq_unauthorized_iff {α : Type} {r : Except (Fault Exn) α} :
    outcome r = unauthorized ↔ r = unauthorized := by
  cases r <;> simp [outcome, unauthorized, Except.map]

/-- The key pair a client authenticates its connections with. -/
def HawkbitCommunicationClient.keyPair (cli : HawkbitCommunicationClient) : Option MTLSKeyPair :=
  if cli.mTLSKeypair.isSet then some ⟨cli.mTLSKeypair.crt, cli.mTLSKeypair.key⟩ else none

/-- The request goes to an endpoint with the credentials of a client. -/
structure SentBy (cli : HawkbitCommunicationClient) (uri : URI) (request : Request) : Prop where
  endpoint : request.endpoint = baseAddress uri
  keyPair : request.keyPair = cli.keyPair
  headers : request.headers = cli.defaultHeaders

/-- The function sends one request under the contract, or is undefined before sending. -/
def Sends (C : Contract) (func : HttpClient → Program Httpclient.Result) : Prop :=
  ∀ cli w, func cli w = .error .undefined w ∨
    ∃ request wire signals,
      (finalState (func cli w)).trace = w.trace ++
        (.sent cli.exchange cli.attempt request wire :: List.map Event.signal signals) ∧
      request.endpoint = cli.endpoint ∧ request.keyPair = cli.keyPair ∧
      request.headers = w.client.defaultHeaders ∧ C w request wire (ending (func cli w))

/-- What can end an attempt before its request is sent. -/
def IsUnsent : Fault Exn → Prop
  | .undefined => True
  | .thrown (.std _) => True
  | _ => False

/-- The trace of one attempt from a state, and how it ends. -/
inductive AttemptTrace (C : Contract) (x : Exchange) (a : Attempt) (uri : URI) (w : World) :
    List Event → Except (Fault Exn) Httpclient.Response → Prop
  | unsent {f} : IsUnsent f →
      AttemptTrace C x a uri w [.ended x a (.error f)] (.error f)
  | sent {request wire signals result} : SentBy w.client uri request → C w request wire result →
      AttemptTrace C x a uri w (.sent x a request wire :: List.map Event.signal signals ++
        [.ended x a (outcome (checked result))]) (checked result)

/-- The trace of a request from a state, and how it ends. -/
inductive RequestTrace (env : Environment) (C : Contract) (x : Exchange) (uri : URI) (w : World) :
    List Event → Except (Fault Exn) Httpclient.Response → Prop
  | once {seg r} : AttemptTrace C x .first uri (w.log (.issued x)) seg r →
      (env.authErrorHandler.isSome = true → r ≠ unauthorized) →
      RequestTrace env C x uri w (.issued x :: seg ++ [.concluded x (outcome r)]) r
  | abandoned {seg quiet onAuthError w₁ f w₂} : env.authErrorHandler = some onAuthError →
      AttemptTrace C x .first uri (w.log (.issued x)) seg unauthorized →
      (∀ e ∈ quiet, Event.IsQuiet e) → callOnAuthError (some x) onAuthError w₁ = .error f w₂ →
      RequestTrace env C x uri w (.issued x :: seg ++ .onAuthError (some x) :: quiet ++
        [.concluded x (.error f)]) (.error f)
  | twice {seg quiet w₂ seg' r} : env.authErrorHandler.isSome = true →
      AttemptTrace C x .first uri (w.log (.issued x)) seg unauthorized →
      (∀ e ∈ quiet, Event.IsQuiet e) → AttemptTrace C x .second uri w₂ seg' r →
      RequestTrace env C x uri w (.issued x :: seg ++ .onAuthError (some x) :: quiet ++
        .restored (some x) w₂.client :: seg' ++ [.concluded x (outcome r)]) r

/-- The events a request of an exchange can append. -/
def Event.IsOf (x : Exchange) : Event → Prop
  | .issued y => y = x
  | .sent y _ _ _ => y = x
  | .ended y _ _ => y = x
  | .concluded y _ => y = x
  | .onAuthError during => during = some x
  | .restored during _ => during = some x
  | .called _ => False
  | .returned _ _ => False
  | .set _ => True
  | .signal _ => True
  | .download _ _ => False

/-- A request that was sent under a contract. -/
def Event.Fulfils (C : Contract) : Event → Prop
  | .sent _ _ request wire => ∃ w result, C w request wire result
  | _ => True

/-- A quiet event belongs to any request. -/
theorem Event.IsQuiet.isOf {e : Event} (h : e.IsQuiet) (x : Exchange) : e.IsOf x := by
  cases e <;> trivial

/-- A quiet event breaks no contract. -/
theorem Event.IsQuiet.fulfils {e : Event} (h : e.IsQuiet) (C : Contract) : e.Fulfils C := by
  cases e <;> trivial

/-- Every event of an attempt belongs to its request and keeps the contract. -/
theorem AttemptTrace.mem {C : Contract} {x : Exchange} {a : Attempt} {uri : URI} {w : World}
    {seg : List Event} {r : Except (Fault Exn) Httpclient.Response}
    (h : AttemptTrace C x a uri w seg r) : ∀ e ∈ seg, e.IsOf x ∧ e.Fulfils C := by
  intro e he
  cases h with
  | unsent =>
    rw [List.mem_singleton.mp he]
    exact ⟨rfl, trivial⟩
  | sent _ hC =>
    simp only [List.cons_append, List.mem_cons, List.mem_append, List.mem_map, List.not_mem_nil,
      or_false] at he
    obtain rfl | ⟨s, _, rfl⟩ | rfl := he
    · exact ⟨rfl, _, _, hC⟩
    · exact ⟨trivial, trivial⟩
    · exact ⟨rfl, trivial⟩

/-- A request appends its own events only, and is sent under its contract. -/
theorem RequestTrace.mem {env : Environment} {C : Contract} {x : Exchange} {uri : URI} {w : World}
    {seg : List Event} {r : Except (Fault Exn) Httpclient.Response}
    (h : RequestTrace env C x uri w seg r) : ∀ e ∈ seg, e.IsOf x ∧ e.Fulfils C := by
  intro e he
  cases h with
  | once hfirst =>
    simp only [List.cons_append, List.mem_cons, List.mem_append, List.not_mem_nil, or_false] at he
    obtain rfl | he | rfl := he
    · exact ⟨rfl, trivial⟩
    · exact hfirst.mem e he
    · exact ⟨rfl, trivial⟩
  | abandoned _ hfirst hquiet =>
    simp only [List.cons_append, List.append_assoc, List.mem_cons, List.mem_append,
      List.not_mem_nil, or_false] at he
    obtain rfl | he | rfl | he | rfl := he
    · exact ⟨rfl, trivial⟩
    · exact hfirst.mem e he
    · exact ⟨rfl, trivial⟩
    · exact ⟨(hquiet e he).isOf x, (hquiet e he).fulfils C⟩
    · exact ⟨rfl, trivial⟩
  | twice _ hfirst hquiet hsecond =>
    simp only [List.cons_append, List.append_assoc, List.mem_cons, List.mem_append,
      List.not_mem_nil, or_false] at he
    obtain rfl | he | rfl | he | rfl | he | rfl := he
    · exact ⟨rfl, trivial⟩
    · exact hfirst.mem e he
    · exact ⟨rfl, trivial⟩
    · exact ⟨(hquiet e he).isOf x, (hquiet e he).fulfils C⟩
    · exact ⟨rfl, trivial⟩
    · exact hsecond.mem e he
    · exact ⟨rfl, trivial⟩

/-- A contract together with where the request goes and with which credentials. -/
def Contract.addressed (C : Contract) (uri : URI) : Contract := fun w request wire result =>
  SentBy w.client uri request ∧ C w request wire result

/-- The request of an attempt goes to its address with the credentials in force. -/
theorem AttemptTrace.addressed {C : Contract} {x : Exchange} {a : Attempt} {uri : URI} {w : World}
    {seg : List Event} {r : Except (Fault Exn) Httpclient.Response}
    (h : AttemptTrace C x a uri w seg r) : AttemptTrace (C.addressed uri) x a uri w seg r := by
  cases h with
  | unsent hf => exact .unsent hf
  | sent hsent hC => exact .sent hsent ⟨hsent, hC⟩

/-- The attempts of a request all go to its URI. -/
theorem RequestTrace.addressed {env : Environment} {C : Contract} {x : Exchange} {uri : URI}
    {w : World} {seg : List Event} {r : Except (Fault Exn) Httpclient.Response}
    (h : RequestTrace env C x uri w seg r) : RequestTrace env (C.addressed uri) x uri w seg r := by
  cases h with
  | once hfirst hr => exact .once hfirst.addressed hr
  | abandoned henv hfirst hquiet hcall => exact .abandoned henv hfirst.addressed hquiet hcall
  | twice henv hfirst hquiet hsecond => exact .twice henv hfirst.addressed hquiet hsecond.addressed

/-- Every event of a request belongs to it. -/
theorem RequestTrace.isOf {env : Environment} {C : Contract} {x : Exchange} {uri : URI} {w : World}
    {seg : List Event} {r : Except (Fault Exn) Httpclient.Response}
    (h : RequestTrace env C x uri w seg r) : ∀ e ∈ seg, e.IsOf x := fun e he => (h.mem e he).1

/-! ### Sending functions -/

/-- Calls of other threads add themselves to the trace. -/
theorem foldl_signal_trace (signals : List Signal) (w : World) :
    (signals.foldl World.signal w).trace = w.trace ++ signals.map Event.signal := by
  induction signals generalizing w with
  | nil => exact (List.append_nil w.trace).symm
  | cons s rest ih =>
    rw [List.foldl_cons, ih (w.signal s)]
    exact List.append_assoc _ [Event.signal s] _

/-- Sending appends the request and the calls of other threads. -/
theorem send_spec (env : Environment) (cli : HttpClient) (request : Request) (w : World) :
    ∃ wire signals w', cli.send env request w = .ok wire w' ∧
      w'.trace = w.trace ++ (.sent cli.exchange cli.attempt request wire ::
        List.map Event.signal signals) := by
  have htrace := foldl_signal_trace (env.server w.trace request).signals
    (w.log (.sent cli.exchange cli.attempt request (env.server w.trace request).wire))
  exact ⟨_, _, _, rfl, htrace.trans (List.append_assoc _ _ _)⟩

/-- The contract of a request whose body is collected. -/
def Collected (method : Method) (target : World → Str) (body contentType : Str) : Contract :=
  fun w request wire result => request.method = method ∧ request.target = target w ∧
    request.body = body ∧ request.contentType = contentType ∧ result = collected wire

/-- `Get`, `Put` and `Post` send one request and return its reply. -/
theorem sends_collected (env : Environment) (method : Method) (path : World → Str)
    (body contentType : Str) :
    Sends (Collected method (fun w => cstr (path w)) body contentType) (fun cli => do
      let w ← get
      collect (← cli.send env
        (cli.request method (path w) w.client.defaultHeaders body contentType))) := by
  intro cli w
  let request := cli.request method (path w) w.client.defaultHeaders body contentType
  obtain ⟨wire, signals, w', hsend, htrace⟩ := send_spec env cli request w
  beta_reduce
  rw [Effect.bind_of_ok (Effect.get_apply w), Effect.bind_of_ok hsend]
  refine Or.inr ⟨request, wire, signals, ?_, rfl, rfl, rfl, rfl, rfl, rfl, rfl, ?_⟩
  · rw [← htrace]
    unfold collect
    cases wire.collect <;> rfl
  · unfold collect collected
    cases wire.collect <;> rfl

/-- The contract of a streaming download. -/
def Streamed (target : Str) (receive : Str → Program Bool) : Contract :=
  fun _ request wire result => request.method = .get ∧ request.target = target ∧
    request.body = [] ∧ ∃ s : World, result = ending (wire.stream Exn.std acceptOk receive s)

/-- The delivery of chunks is respected when each of them is. -/
theorem deliver_respects {R : World → World → Prop} [Std.Refl R] [IsTrans World R]
    {receive : Str → Program Bool} (h : ∀ chunk, Respects R (receive chunk)) (chunks : List Str) :
    Respects R (deliver receive chunks) := by
  induction chunks with
  | nil => exact Respects.pure true
  | cons chunk rest ih =>
    apply Respects.bind (h chunk)
    intro accepted
    cases accepted with
    | true => exact ih
    | false => exact Respects.pure false

/-- The streaming of a reply is respected when its chunks are. -/
theorem stream_respects {R : World → World → Prop} [Std.Refl R] [IsTrans World R]
    {receive : Str → Program Bool} (h : ∀ chunk, Respects R (receive chunk))
    (handler : Httpclient.Response → Except Exn Unit) (wire : Wire) :
    Respects R (wire.stream Exn.std handler receive) := by
  cases wire with
  | threw e => exact Respects.throw _
  | failed e => exact Respects.pure _
  | answered status chunks cut =>
    simp only [Wire.stream]
    refine Respects.bind (Respects.ofExcept (handler ⟨status, []⟩)) fun _ => ?_
    refine Respects.bind (deliver_respects h chunks) fun accepted => ?_
    cases accepted with
    | true => cases cut <;> exact Respects.pure _
    | false => exact Respects.pure _

/-- A streaming `Get` sends one request. -/
theorem sends_streamed (env : Environment) (path : Str) (receive : Str → Program Bool)
    (hreceive : ∀ chunk, Respects (Keeps World.trace) (receive chunk)) :
    Sends (Streamed (cstr path) receive) (fun cli => do
      let w ← get
      cli.getTo env path w.client.defaultHeaders acceptOk receive) := by
  intro cli w
  let request := cli.request .get path w.client.defaultHeaders [] []
  obtain ⟨wire, signals, w', hsend, htrace⟩ := send_spec env cli request w
  have hkeep : (finalState (wire.stream Exn.std acceptOk receive w')).trace = w'.trace :=
    stream_respects hreceive acceptOk wire w'
  beta_reduce
  rw [Effect.bind_of_ok (Effect.get_apply w)]
  unfold HttpClient.getTo
  rw [Effect.bind_of_ok hsend]
  refine Or.inr ⟨request, wire, signals, ?_, rfl, rfl, rfl, rfl, rfl, rfl, w', rfl⟩
  rw [hkeep, htrace]

/-! ### Attempts and requests -/

/-- The certificate check is on when there is a key pair. -/
def HawkbitCommunicationClient.verify (cli : HawkbitCommunicationClient) : Bool :=
  cli.mTLSKeypair.isSet || cli.serverCertificateVerify

/-- Making an HTTP client changes nothing; it may throw an exception of the backend. -/
theorem newHttpClient_apply (env : Environment) (x : Exchange) (a : Attempt) (uri : URI)
    (w : World) :
    newHttpClient env x a uri w =
      match env.connect w.trace (baseAddress uri) w.client.keyPair with
      | .error e => .error (.thrown (.std e)) w
      | .ok _ => .ok ⟨baseAddress uri, w.client.keyPair, w.client.verify, x, a⟩ w := by
  unfold newHttpClient HawkbitCommunicationClient.verify HawkbitCommunicationClient.keyPair
  rw [Effect.bind_of_ok (Effect.get_apply w)]
  cases hset : w.client.mTLSKeypair.isSet with
  | true =>
    simp only [if_true, Bool.true_or]
    cases env.connect w.trace (baseAddress uri)
      (some ⟨w.client.mTLSKeypair.crt, w.client.mTLSKeypair.key⟩) <;> rfl
  | false =>
    simp only [Bool.false_or, Bool.false_eq_true, if_false]
    cases env.connect w.trace (baseAddress uri) none <;> rfl

/-- Every attempt leaves the trace of an attempt. -/
theorem wrappedRequest_trace {C : Contract} {func : HttpClient → Program Httpclient.Result}
    (hfunc : Sends C func) (env : Environment) (x : Exchange) (a : Attempt) (uri : URI) (w : World) :
    ∃ seg, (finalState (wrappedRequest env x a uri func w)).trace = w.trace ++ seg ∧
      AttemptTrace C x a uri w seg (ending (wrappedRequest env x a uri func w)) := by
  unfold wrappedRequest
  obtain ⟨hending, hfinal⟩ := Effect.noting_spec (do
    let cli ← newHttpClient env x a uri
    let resp ← func cli
    Effect.ofExcept (checkResult resp)) (fun r w => w.log (.ended x a (outcome r))) w
  rw [hending, hfinal]
  have hclient := newHttpClient_apply env x a uri w
  cases hconnect : env.connect w.trace (baseAddress uri) w.client.keyPair with
  | error e =>
    simp only [hconnect] at hclient
    rw [Effect.bind_of_error hclient]
    exact ⟨_, rfl, .unsent trivial⟩
  | ok _ =>
    simp only [hconnect] at hclient
    rw [Effect.bind_of_ok hclient]
    have hcli := hfunc ⟨baseAddress uri, w.client.keyPair, w.client.verify, x, a⟩ w
    obtain hundefined | ⟨request, wire, signals, htrace, hendpoint, hkeyPair, hheaders, hC⟩ := hcli
    · rw [Effect.bind_of_error hundefined]
      exact ⟨_, rfl, .unsent trivial⟩
    · obtain ⟨hcheck, hstate⟩ := Effect.bind_ofExcept_spec
        (func ⟨baseAddress uri, w.client.keyPair, w.client.verify, x, a⟩) checkResult w
      have hsent : AttemptTrace C x a uri w
          (.sent x a request wire :: List.map Event.signal signals ++ [.ended x a _]) (checked _) :=
        .sent ⟨hendpoint, hkeyPair, hheaders⟩ hC
      rw [hcheck, hstate]
      refine ⟨_, ?_, hsent⟩
      rw [← List.append_assoc, ← htrace]
      rfl

/-- Calls on the restore handler are quiet. -/
theorem performRestore_respects (call : Setting ⊕ Signal) :
    Respects (GrowsBy World.trace (letters Event.IsQuiet)∗) (performRestore call) := by
  cases call with
  | inl s =>
    refine Respects.bind (Respects.modify fun w => ?_) fun _ => ?_
    · exact GrowsBy.block ⟨.set s, trivial, rfl⟩ rfl
    · refine Respects.bind Respects.get fun w => ?_
      refine Respects.bind (Respects.ofExcept _) fun cli => ?_
      exact Respects.modify fun w => GrowsBy.unchanged rfl
  | inr s => exact Respects.modify fun w => GrowsBy.block ⟨.signal s, trivial, rfl⟩ rfl

/-- `onAuthError` makes quiet calls, and what the client is left with is recorded. -/
theorem callOnAuthError_trace (d : Option Exchange) (onAuthError : List Event → RestoreCode)
    (w : World) :
    ∃ quiet, (∀ e ∈ quiet, Event.IsQuiet e) ∧
      ((∃ f w', callOnAuthError d onAuthError w = .error f w' ∧
          w'.trace = w.trace ++ .onAuthError d :: quiet) ∨
        ∃ w', callOnAuthError d onAuthError w = .ok () w' ∧
          w'.trace = w.trace ++ (.onAuthError d :: quiet ++ [.restored d w'.client])) := by
  unfold callOnAuthError
  rw [Effect.bind_of_ok (record_apply _ w), Effect.bind_of_ok (Effect.get_apply _)]
  have hrun := Interaction.run_respects performRestore_respects
    (onAuthError (w.log (.onAuthError d)).trace) (w.log (.onAuthError d))
  obtain ⟨quiet, hquiet, htrace⟩ := hrun
  refine ⟨quiet, mem_letters_kstar.mp hquiet, ?_⟩
  cases h : Interaction.run performRestore (onAuthError (w.log (.onAuthError d)).trace)
      (w.log (.onAuthError d)) with
  | error f w' =>
    rw [h] at htrace
    exact Or.inl ⟨f, w', Effect.bind_of_error h, htrace.trans (List.append_assoc _ _ _)⟩
  | ok u w' =>
    rw [h] at htrace
    refine Or.inr ⟨w'.log (.restored d w'.client), Effect.bind_of_ok h, ?_⟩
    exact World.log_trace (htrace.trans (List.append_assoc _ _ _)) _

/-- Without a retry a request is its first attempt. -/
theorem retryHandler_of_once {env : Environment} {x : Exchange} {uri : URI}
    {func : HttpClient → Program Httpclient.Result} {w : World}
    (h : env.authErrorHandler.isSome = true →
      ending (wrappedRequest env x .first uri func (w.log (.issued x))) ≠ unauthorized) :
    ending (retryHandler env x uri func w) =
        ending (wrappedRequest env x .first uri func (w.log (.issued x))) ∧
      finalState (retryHandler env x uri func w) =
        (finalState (wrappedRequest env x .first uri func (w.log (.issued x)))).log
          (.concluded x (outcome (ending (retryHandler env x uri func w)))) := by
  unfold retryHandler
  obtain ⟨hending, hfinal⟩ := Effect.noting_spec (do
    record (.issued x)
    Effect.catching (wrappedRequest env x .first uri func) (retryAfter env x uri func))
    (fun r w => w.log (.concluded x (outcome r))) w
  rw [hfinal, hending, Effect.bind_of_ok (record_apply _ w)]
  cases hfirst : wrappedRequest env x .first uri func (w.log (.issued x)) with
  | ok response w₁ =>
    rw [Effect.catching_of_ok hfirst]
    exact ⟨rfl, rfl⟩
  | error f w₁ =>
    cases f with
    | undefined =>
      rw [Effect.catching_of_undefined hfirst]
      exact ⟨rfl, rfl⟩
    | thrown e =>
      by_cases he : e = .unauthorizedException
      · subst he
        rw [Effect.catching_of_handled hfirst rfl]
        cases hhandler : env.authErrorHandler with
        | none => exact ⟨rfl, rfl⟩
        | some onAuthError =>
          rw [hfirst, hhandler] at h
          exact absurd rfl (h rfl)
      · have hnone : retryAfter env x uri func e = none := by
          cases e <;> first | rfl | exact absurd rfl he
        rw [Effect.catching_of_unhandled hfirst hnone]
        exact ⟨rfl, rfl⟩

/-- After an unauthorized first attempt a request is what follows the call of a handler. -/
theorem retryHandler_of_unauthorized {env : Environment} {x : Exchange} {uri : URI}
    {func : HttpClient → Program Httpclient.Result} {w w₁ : World}
    {onAuthError : List Event → RestoreCode} (henv : env.authErrorHandler = some onAuthError)
    (hfirst : wrappedRequest env x .first uri func (w.log (.issued x)) =
      .error (.thrown .unauthorizedException) w₁) :
    retryHandler env x uri func w = Effect.noting (do
      callOnAuthError (some x) onAuthError
      wrappedRequest env x .second uri func)
      (fun r w => w.log (.concluded x (outcome r))) w₁ := by
  unfold retryHandler Effect.noting
  beta_reduce
  rw [Effect.bind_of_ok (record_apply _ w), Effect.catching_of_handled hfirst rfl]
  simp only [henv]

/-- Every request leaves the trace of a request. -/
theorem retryHandler_trace {C : Contract} {func : HttpClient → Program Httpclient.Result}
    (hfunc : Sends C func) (env : Environment) (x : Exchange) (uri : URI) (w : World) :
    ∃ seg, (finalState (retryHandler env x uri func w)).trace = w.trace ++ seg ∧
      RequestTrace env C x uri w seg
        (ending (retryHandler env x uri func w)) := by
  obtain ⟨seg, htrace, hfirst⟩ := wrappedRequest_trace hfunc env x .first uri (w.log (.issued x))
  have hlog : (w.log (.issued x)).trace ++ seg = w.trace ++ .issued x :: seg :=
    List.append_assoc _ _ _
  rw [hlog] at htrace
  by_cases hretried : env.authErrorHandler.isSome = true ∧
      ending (wrappedRequest env x .first uri func (w.log (.issued x))) = unauthorized
  · obtain ⟨hregistered, hunauthorized⟩ := hretried
    obtain ⟨onAuthError, hhandler⟩ := Option.isSome_iff_exists.mp hregistered
    obtain ⟨w₁, herror⟩ := eq_error_of_ending hunauthorized
    rw [herror] at htrace hfirst
    rw [retryHandler_of_unauthorized hhandler herror]
    obtain ⟨hending, hfinal⟩ := Effect.noting_spec (do
      callOnAuthError (some x) onAuthError
      wrappedRequest env x .second uri func) (fun r w => w.log (.concluded x (outcome r))) w₁
    rw [hending, hfinal]
    obtain ⟨quiet, hquiet, hcall⟩ := callOnAuthError_trace (some x) onAuthError w₁
    obtain ⟨f, w₂, herror₂, htrace₂⟩ | ⟨w₂, hok, htrace₂⟩ := hcall
    · rw [Effect.bind_of_error herror₂]
      rw [show w₁.trace = _ from htrace, List.append_assoc] at htrace₂
      exact ⟨_, World.log_trace htrace₂ _, .abandoned hhandler hfirst hquiet herror₂⟩
    · obtain ⟨seg', htrace', hsecond⟩ := wrappedRequest_trace hfunc env x .second uri w₂
      rw [Effect.bind_of_ok hok]
      rw [htrace₂, show w₁.trace = _ from htrace] at htrace'
      refine ⟨_, ?_, .twice hregistered hfirst hquiet hsecond⟩
      change World.trace (finalState _) ++ [_] = _
      rw [htrace']
      simp only [List.append_assoc, List.cons_append, List.nil_append]
  · have honce := fun hregistered hunauthorized => hretried ⟨hregistered, hunauthorized⟩
    obtain ⟨hending, hfinal⟩ := retryHandler_of_once honce
    rw [hfinal, hending]
    exact ⟨_, World.log_trace htrace _, .once hfirst honce⟩

end Up2date.Ddi
