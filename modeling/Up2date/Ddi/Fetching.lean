import Up2date.Cxx.Coupling
import Up2date.Ddi.Rules

/-!
# The attempts of a download

The three downloads send the same request and differ in what they make of the reply, so their
runs are described together, for any consumer of a reply: what an attempt meets, the state it
meets it in, and what follows a first attempt that ends unauthorized. Nothing that a run
depends on is changed by the data of a download.
-/

namespace Up2date.Ddi

open Cxx Uri Httpclient

/-- What a download makes of a reply. -/
abbrev Consumer := Wire → Program Httpclient.Result

/-- The function that sends the request of a download. -/
def fetch (env : Environment) (uri : URI) (consume : Consumer) (cli : HttpClient) :
    Program Httpclient.Result := do
  let w ← get
  consume (← cli.send env (cli.request .get (formatDownloadPath uri) w.client.defaultHeaders [] []))

/-- The request of a download in a state. -/
def fetchRequest (uri : URI) (w : World) : Request :=
  { method := .get, endpoint := baseAddress uri, target := cstr (formatDownloadPath uri)
    keyPair := w.client.keyPair, verify := w.client.verify, headers := w.client.defaultHeaders
    body := [], contentType := [] }

/-- What an attempt meets: the exception of a client that cannot be made, or a reply. -/
def met (env : Environment) (uri : URI) (w : World) : Wire :=
  match env.connect w.trace (baseAddress uri) w.client.keyPair with
  | .error e => .threw e
  | .ok _ => (env.server w.trace (fetchRequest uri w)).wire

/-- The state in which an attempt meets it. -/
def meeting (env : Environment) (a : Attempt) (uri : URI) (w : World) : World :=
  match env.connect w.trace (baseAddress uri) w.client.keyPair with
  | .error _ => w
  | .ok _ => (env.server w.trace (fetchRequest uri w)).signals.foldl World.signal
      (w.log (.sent .download a (fetchRequest uri w) (met env uri w)))

/-- An exception of the backend passes a consumer. -/
def PassesThrown (consume : Consumer) : Prop :=
  ∀ e w, consume (.threw e) w = .error (.thrown (.std e)) w

/-- What an attempt makes of what it meets. -/
def consumed (env : Environment) (a : Attempt) (uri : URI) (consume : Consumer) (w : World) :
    Except (Fault Exn) Httpclient.Response :=
  checked (ending (consume (met env uri w) (meeting env a uri w)))

/-- The state an attempt leaves. -/
def consumedState (env : Environment) (a : Attempt) (uri : URI) (consume : Consumer) (w : World) :
    World :=
  (finalState (consume (met env uri w) (meeting env a uri w))).log
    (.ended .download a (outcome (consumed env a uri consume w)))

section Attempts

variable {env : Environment} {uri : URI} {consume : Consumer}

/-- An attempt of a download is what its consumer makes of what it meets. -/
theorem wrappedRequest_fetch (env : Environment) (uri : URI) (hconsume : PassesThrown consume)
    (a : Attempt) (w : World) :
    ending (wrappedRequest env .download a uri (fetch env uri consume) w) =
        consumed env a uri consume w ∧
      finalState (wrappedRequest env .download a uri (fetch env uri consume) w) =
        consumedState env a uri consume w := by
  unfold wrappedRequest
  obtain ⟨hending, hfinal⟩ := Effect.noting_spec (do
    let cli ← newHttpClient env .download a uri
    let resp ← fetch env uri consume cli
    Effect.ofExcept (checkResult resp)) (fun r w => w.log (.ended .download a (outcome r))) w
  have hrun : (do
      let cli ← newHttpClient env .download a uri
      let resp ← fetch env uri consume cli
      Effect.ofExcept (checkResult resp) : Program Httpclient.Response) w = (do
      let resp ← consume (met env uri w)
      Effect.ofExcept (checkResult resp) : Program Httpclient.Response) (meeting env a uri w) := by
    have hclient := newHttpClient_apply env .download a uri w
    unfold meeting met
    cases hconnect : env.connect w.trace (baseAddress uri) w.client.keyPair with
    | error e =>
      simp only [hconnect] at hclient
      rw [Effect.bind_of_error hclient, Effect.bind_of_error (hconsume e w)]
    | ok _ =>
      simp only [hconnect] at hclient
      rw [Effect.bind_of_ok hclient]
      rfl
  obtain ⟨hcheck, hstate⟩ := Effect.bind_ofExcept_spec (consume (met env uri w)) checkResult
    (meeting env a uri w)
  rw [hending, hfinal, hrun, hcheck, hstate]
  exact ⟨rfl, rfl⟩

/-- Without a retry a download is its first attempt. -/
theorem fetch_once {w : World} (hconsume : PassesThrown consume)
    (h : env.authErrorHandler.isSome = true →
      consumed env .first uri consume (w.log (.issued .download)) ≠ unauthorized) :
    ending (retryHandler env .download uri (fetch env uri consume) w) =
        consumed env .first uri consume (w.log (.issued .download)) ∧
      finalState (retryHandler env .download uri (fetch env uri consume) w) =
        (consumedState env .first uri consume (w.log (.issued .download))).log
          (.concluded .download
            (outcome (consumed env .first uri consume (w.log (.issued .download))))) := by
  obtain ⟨hfirst, hstate⟩ :=
    wrappedRequest_fetch env uri hconsume .first (w.log (.issued .download))
  rw [← hfirst] at h
  obtain ⟨hending, hfinal⟩ := retryHandler_of_once h
  rw [hfinal, hending, hfirst, hstate]
  exact ⟨rfl, rfl⟩

/-- After a first attempt that ends unauthorized `onAuthError` is called. -/
theorem fetch_retried {w : World} (hconsume : PassesThrown consume)
    {onAuthError : List Event → RestoreCode} (henv : env.authErrorHandler = some onAuthError)
    (h : consumed env .first uri consume (w.log (.issued .download)) = unauthorized) :
    retryHandler env .download uri (fetch env uri consume) w = Effect.noting (do
      callOnAuthError (some .download) onAuthError
      wrappedRequest env .download .second uri (fetch env uri consume))
      (fun r w => w.log (.concluded .download (outcome r)))
      (consumedState env .first uri consume (w.log (.issued .download))) := by
  obtain ⟨hfirst, hstate⟩ :=
    wrappedRequest_fetch env uri hconsume .first (w.log (.issued .download))
  rw [h] at hfirst
  obtain ⟨w₁, hrun⟩ := eq_error_of_ending hfirst
  rw [hrun, finalState_error] at hstate
  subst hstate
  exact retryHandler_of_unauthorized henv hrun

/-- An exception of `onAuthError` ends a download. -/
theorem fetch_abandoned {w w₂ : World} {f : Fault Exn} (hconsume : PassesThrown consume)
    {onAuthError : List Event → RestoreCode} (henv : env.authErrorHandler = some onAuthError)
    (h : consumed env .first uri consume (w.log (.issued .download)) = unauthorized)
    (hcall : callOnAuthError (some .download) onAuthError
      (consumedState env .first uri consume (w.log (.issued .download))) = .error f w₂) :
    ending (retryHandler env .download uri (fetch env uri consume) w) = .error f ∧
      finalState (retryHandler env .download uri (fetch env uri consume) w) =
        w₂.log (.concluded .download (.error f)) := by
  rw [fetch_retried hconsume henv h, Effect.noting_of_error (Effect.bind_of_error hcall)]
  exact ⟨rfl, rfl⟩

/-- After `onAuthError` returned a download is its second attempt. -/
theorem fetch_twice {w w₂ : World} (hconsume : PassesThrown consume)
    {onAuthError : List Event → RestoreCode} (henv : env.authErrorHandler = some onAuthError)
    (h : consumed env .first uri consume (w.log (.issued .download)) = unauthorized)
    (hcall : callOnAuthError (some .download) onAuthError
      (consumedState env .first uri consume (w.log (.issued .download))) = .ok () w₂) :
    ending (retryHandler env .download uri (fetch env uri consume) w) =
        consumed env .second uri consume w₂ ∧
      finalState (retryHandler env .download uri (fetch env uri consume) w) =
        (consumedState env .second uri consume w₂).log
          (.concluded .download (outcome (consumed env .second uri consume w₂))) := by
  obtain ⟨hsecond, hstate⟩ := wrappedRequest_fetch env uri hconsume .second w₂
  rw [fetch_retried hconsume henv h]
  obtain ⟨hending, hfinal⟩ := Effect.noting_spec (do
    callOnAuthError (some .download) onAuthError
    wrappedRequest env .download .second uri (fetch env uri consume))
    (fun r w => w.log (.concluded .download (outcome r)))
    (consumedState env .first uri consume (w.log (.issued .download)))
  rw [hending, hfinal, Effect.bind_of_ok hcall, hsecond, hstate]
  exact ⟨rfl, rfl⟩

/-- How a download goes: without a retry, with a handler that throws, or with a second attempt. -/
inductive FetchRun (env : Environment) (uri : URI) (consume : Consumer) (w : World) : Prop
  | once : (env.authErrorHandler.isSome = true →
        consumed env .first uri consume (w.log (.issued .download)) ≠ unauthorized) →
      FetchRun env uri consume w
  | abandoned {onAuthError f w₂} : env.authErrorHandler = some onAuthError →
      consumed env .first uri consume (w.log (.issued .download)) = unauthorized →
      callOnAuthError (some .download) onAuthError
        (consumedState env .first uri consume (w.log (.issued .download))) = .error f w₂ →
      FetchRun env uri consume w
  | twice {onAuthError w₂} : env.authErrorHandler = some onAuthError →
      consumed env .first uri consume (w.log (.issued .download)) = unauthorized →
      callOnAuthError (some .download) onAuthError
        (consumedState env .first uri consume (w.log (.issued .download))) = .ok () w₂ →
      FetchRun env uri consume w

/-- Every download goes in one of these ways. -/
theorem fetchRun (env : Environment) (uri : URI) (consume : Consumer) (w : World) :
    FetchRun env uri consume w := by
  by_cases hretried : env.authErrorHandler.isSome = true ∧
      consumed env .first uri consume (w.log (.issued .download)) = unauthorized
  · obtain ⟨hregistered, hunauthorized⟩ := hretried
    obtain ⟨onAuthError, henv⟩ := Option.isSome_iff_exists.mp hregistered
    cases hcall : callOnAuthError (some .download) onAuthError
        (consumedState env .first uri consume (w.log (.issued .download))) with
    | error f w₂ => exact .abandoned henv hunauthorized hcall
    | ok u w₂ => exact .twice henv hunauthorized hcall
  · exact .once fun hregistered hunauthorized => hretried ⟨hregistered, hunauthorized⟩

end Attempts

/-- The status 401, whatever follows it. -/
def StatusUnauthorized (wire : Wire) : Prop :=
  ∃ chunks cut, wire = .answered HTTP_UNAUTHORIZED chunks cut

/-- The attempts of a download and the states they start in: a second one is made after the
status 401 when `onAuthError` returns. -/
inductive AttemptedIn (env : Environment) (uri : URI) (w : World) : Attempt → World → Prop
  | first : AttemptedIn env uri w .first (w.log (.issued .download))
  | second {onAuthError w₂} : StatusUnauthorized (met env uri (w.log (.issued .download))) →
      env.authErrorHandler = some onAuthError →
      callOnAuthError (some .download) onAuthError
        ((meeting env .first uri (w.log (.issued .download))).log
          (.ended .download .first unauthorized)) = .ok () w₂ →
      AttemptedIn env uri w .second w₂

/-- The reply that an event records. -/
def Event.reply? : Event → Option Wire
  | .sent _ _ _ wire => some wire
  | _ => none

/-- The trace of an attempt before its end, with the request if one is sent. -/
theorem meeting_trace (env : Environment) (a : Attempt) (uri : URI) (w : World) :
    (∃ e, met env uri w = .threw e ∧ meeting env a uri w = w) ∨
      ∃ signals, (meeting env a uri w).trace =
        w.trace ++ (.sent .download a (fetchRequest uri w) (met env uri w) ::
          List.map Event.signal signals) := by
  unfold meeting
  cases hconnect : env.connect w.trace (baseAddress uri) w.client.keyPair with
  | error e => exact Or.inl ⟨e, by simp only [met, hconnect], rfl⟩
  | ok _ =>
    refine Or.inr ⟨(env.server w.trace (fetchRequest uri w)).signals, ?_⟩
    exact (foldl_signal_trace _ _).trans (List.append_assoc _ _ _)

/-! ### Streams -/

/-- A status other than 200 is refused before the receiver is given anything. -/
theorem acceptOk_error {status : ℤ} (h : status ≠ HTTP_OK) :
    ∃ e, acceptOk ⟨status, []⟩ = .error e ∧
      (e = .unauthorizedException ∧ status = HTTP_UNAUTHORIZED ∨
        e = .httpUnexpectedCodeException status HTTP_OK ∧ status ≠ HTTP_UNAUTHORIZED) := by
  unfold acceptOk checkHttpCode
  by_cases h401 : status = HTTP_UNAUTHORIZED
  · exact ⟨_, if_pos h401, Or.inl ⟨rfl, h401⟩⟩
  · refine ⟨.httpUnexpectedCodeException status HTTP_OK, ?_, Or.inr ⟨rfl, h401⟩⟩
    simp only [if_neg h401, if_pos h]

/-- Nothing is streamed of a response that is refused by its status. -/
theorem stream_of_error {status : ℤ} {e : Exn} (h : acceptOk ⟨status, []⟩ = .error e)
    (receive : Str → Program Bool) (chunks : List Str) (cut : Option Failure) (w : World) :
    (Wire.answered status chunks cut).stream Exn.std acceptOk receive w = .error (.thrown e) w := by
  simp only [Wire.stream, h]
  rfl

/-- With the status 200 a stream ends as its receiver makes it end, or with the connection. -/
theorem stream_ok_apply (receive : Str → Program Bool) (chunks : List Str) (cut : Option Failure)
    (w : World) :
    (Wire.answered HTTP_OK chunks cut).stream Exn.std acceptOk receive w =
      match deliver receive chunks w with
      | .ok true t => .ok (match cut with
          | some e => .failed e
          | none => .response ⟨HTTP_OK, []⟩) t
      | .ok false t => .ok (.failed ⟨.canceled, by decide⟩) t
      | .error f t => .error f t := by
  change (deliver receive chunks >>= fun taken => if taken = true then _ else _) w = _
  cases h : deliver receive chunks w with
  | error f t => exact Effect.bind_of_error h
  | ok taken t =>
    rw [Effect.bind_of_ok h]
    cases taken <;> cases cut <;> rfl

/-- It leaves what its receiver leaves. -/
theorem finalState_stream_ok (receive : Str → Program Bool) (chunks : List Str)
    (cut : Option Failure) (w : World) :
    finalState ((Wire.answered HTTP_OK chunks cut).stream Exn.std acceptOk receive w) =
      finalState (deliver receive chunks w) := by
  rw [stream_ok_apply]
  cases deliver receive chunks w with
  | error f t => rfl
  | ok taken t => cases taken <;> rfl

/-! ### The data of a download -/

/-- The data of downloads in a state. -/
def World.data (w : World) : List Str × FileStream × (Str → Option Str) :=
  (w.received, w.file, w.files)

/-- `onAuthError` does not change it. -/
theorem restoreRules_data : RestoreRules (Keeps World.data) where
  log _ _ _ := rfl
  signal _ _ := rfl
  setting _ _ _ _ := rfl

/-- A request leaves the data of the download. -/
theorem meeting_data (env : Environment) (a : Attempt) (uri : URI) (w : World) :
    (meeting env a uri w).data = w.data := by
  unfold meeting
  cases env.connect w.trace (baseAddress uri) w.client.keyPair with
  | error e => rfl
  | ok _ =>
    generalize (env.server w.trace (fetchRequest uri w)).signals = signals
    induction signals using List.reverseRecOn with
    | nil => rfl
    | append_singleton rest s ih =>
      simp only [List.foldl_append]
      exact ih

/-- Two states that differ in the data of a download only. -/
def Alike (w w' : World) : Prop := w.client = w'.client ∧ w.trace = w'.trace

instance Alike.instRefl : Std.Refl Alike := ⟨fun _ => ⟨rfl, rfl⟩⟩

instance Alike.instIsTrans : IsTrans World Alike :=
  ⟨fun _ _ _ h h' => ⟨h.1.trans h'.1, h.2.trans h'.2⟩⟩

/-- Alike is symmetric. -/
theorem Alike.symm {w w' : World} (h : Alike w w') : Alike w' w := ⟨h.1.symm, h.2.symm⟩

/-- Alike states stay so behind an event. -/
theorem Alike.log {w w' : World} (h : Alike w w') (e : Event) : Alike (w.log e) (w'.log e) :=
  ⟨h.1, congrArg (· ++ [e]) h.2⟩

/-- Alike states stay so behind signals. -/
theorem Alike.foldl_signal {w w' : World} (h : Alike w w') (signals : List Signal) :
    Alike (signals.foldl World.signal w) (signals.foldl World.signal w') := by
  induction signals generalizing w w' with
  | nil => exact h
  | cons s rest ih =>
    apply ih
    exact ⟨congrArg (HawkbitCommunicationClient.signal · s) h.1, (h.log (.signal s)).2⟩

/-- What `onAuthError` does is independent of the data of a download. -/
theorem callOnAuthError_coupled (d : Option Exchange) (onAuthError : List Event → RestoreCode) :
    Coupled Alike (callOnAuthError d onAuthError) (callOnAuthError d onAuthError) := by
  have hrecord (e : Event) : Coupled Alike (record e) (record e) :=
    Coupled.modify fun _ _ h => h.log e
  have hperform (call : Setting ⊕ Signal) :
      Coupled Alike (performRestore call) (performRestore call) := by
    cases call with
    | inl s =>
      refine Coupled.bind (hrecord _) fun _ => ?_
      refine Coupled.get_bind fun w w' h => ?_
      rw [h.1]
      refine Coupled.bind (Coupled.ofExcept _) fun cli => ?_
      exact Coupled.modify fun _ _ h => ⟨rfl, h.2⟩
    | inr s =>
      exact Coupled.modify fun _ _ h => Alike.foldl_signal h [s]
  refine Coupled.bind (hrecord _) fun _ => ?_
  refine Coupled.get_bind fun w w' h => ?_
  rw [h.2]
  refine Coupled.bind (Coupled.run hperform _) fun _ => ?_
  refine Coupled.get_bind fun w w' h => ?_
  rw [h.1]
  exact hrecord _

section Alike

variable {env : Environment} {uri : URI} {w w' : World}

/-- Alike states meet the same reply. -/
theorem met_eq_of_alike (h : Alike w w') : met env uri w = met env uri w' := by
  simp only [met, fetchRequest, h.1, h.2]

/-- Alike states stay so behind a request. -/
theorem meeting_alike (h : Alike w w') (a : Attempt) :
    Alike (meeting env a uri w) (meeting env a uri w') := by
  have hrequest : fetchRequest uri w = fetchRequest uri w' := by
    simp only [fetchRequest, h.1]
  unfold meeting
  rw [← met_eq_of_alike h, ← hrequest, ← h.1, ← h.2]
  cases env.connect w.trace (baseAddress uri) w.client.keyPair with
  | error e => exact h
  | ok _ => exact (h.log _).foldl_signal _

/-- Attempts with the same outcome leave alike states. -/
theorem consumedState_alike (h : Alike w w') {a : Attempt} {consume consume' : Consumer}
    (hc : ∀ wire, Respects Alike (consume wire)) (hc' : ∀ wire, Respects Alike (consume' wire))
    (houtcome : outcome (consumed env a uri consume w) = outcome (consumed env a uri consume' w')) :
    Alike (consumedState env a uri consume w) (consumedState env a uri consume' w') := by
  unfold consumedState
  rw [houtcome]
  apply Alike.log
  calc Alike _ (meeting env a uri w) := (hc _ _).symm
    Alike _ (meeting env a uri w') := meeting_alike h a
    Alike _ _ := hc' _ _

end Alike

end Up2date.Ddi
