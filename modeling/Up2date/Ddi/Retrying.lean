import Up2date.Cxx.Interactions
import Up2date.Ddi.DownloadPaths
import Up2date.Ddi.FileDownloads
import Up2date.Ddi.RoundTrip
import Up2date.Ddi.Run
import Mathlib.Algebra.GroupWithZero.Nat

/-!
# Retries over a whole run

The trace of a run is made of logical requests and of events outside of them. A logical
request is one attempt, or two with a call of `onAuthError` between them when the first one
ended in `unauthorized_exception` and a handler is registered; the second attempt presents
what the client was left with, and its outcome is the outcome of the request. Which replies
end an attempt so depends on who reads them: the status 401 does, with its whole body where the
body is collected, and in `downloadWithReceiver` so does a receiver that throws the exception
itself. Counting over the blocks, `onAuthError` is called once for each first attempt with such
a reply, and once more when the client started without an endpoint.
-/

namespace Up2date.Ddi

open Cxx Uri Httpclient Computability

/-! ### The replies that end an attempt in `unauthorized_exception` -/

/-- The status 401, with its whole body. -/
def isRejected : Wire → Bool
  | .answered status _ none => status == HTTP_UNAUTHORIZED
  | _ => false

/-- A receiver throws `unauthorized_exception` at one of the chunks after earlier ones. -/
def throwsUnauthorized (receiver : ContentReceiver) : List Str → List Str → Bool
  | _, [] => false
  | earlier, chunk :: rest =>
    match receiver earlier chunk with
    | .more => throwsUnauthorized receiver (earlier ++ [chunk]) rest
    | .raise .unauthorizedException => true
    | _ => false

/-- The replies that end an attempt of a download in `unauthorized_exception`, when its receiver
was given some chunks before. -/
def Download.rejects : Download → List Str → Wire → Bool
  | .downloadTo _, _, .answered status _ _ => status == HTTP_UNAUTHORIZED
  | .getBody, _, wire => isRejected wire
  | .downloadWithReceiver receiver, earlier, .answered status chunks _ =>
    status == HTTP_UNAUTHORIZED || status == HTTP_OK && throwsUnauthorized receiver earlier chunks
  | _, _, _ => false

/-- The chunks that a receiver is given after earlier ones, up to one that it does not take. -/
def givenChunks (receiver : ContentReceiver) : List Str → List Str → List Str
  | _, [] => []
  | earlier, chunk :: rest =>
    match receiver earlier chunk with
    | .more => chunk :: givenChunks receiver (earlier ++ [chunk]) rest
    | _ => [chunk]

/-- The chunks that the receiver of a download was given, behind one more reply. -/
def Download.given : Download → List Str → Wire → List Str
  | .downloadWithReceiver receiver, earlier, .answered status chunks _ =>
    if status = HTTP_OK then earlier ++ givenChunks receiver earlier chunks else earlier
  | _, earlier, _ => earlier

/-- An attempt made with the credentials of a client. -/
inductive Attempted (rejects : Wire → Bool) (x : Exchange) (a : Attempt)
    (cli : HawkbitCommunicationClient) : List Event → Outcome → Prop
  | unsent {f} : IsUnsent f → Attempted rejects x a cli [.ended x a (.error f)] (.error f)
  | sent {request wire signals o} : request.keyPair = cli.keyPair →
      request.headers = cli.defaultHeaders → (o = unauthorized ↔ rejects wire = true) →
      Attempted rejects x a cli
        (.sent x a request wire :: List.map Event.signal signals ++ [.ended x a o]) o

/-- A logical request: one attempt, or two around a call of `onAuthError`. The second reply is
read by a receiver that the first one has given some chunks to. -/
inductive LogicalRequest (registered : Bool) (rejects : List Str → Wire → Bool)
    (given : Wire → List Str) (x : Exchange) : List Event → Prop
  | once {cli seg o} : Attempted (rejects []) x .first cli seg o →
      (registered = true → o ≠ unauthorized) →
      LogicalRequest registered rejects given x (.issued x :: seg ++ [.concluded x o])
  | twice {cli seg request wire quiet cli' seg' o} : registered = true →
      Attempted (rejects []) x .first cli seg unauthorized → .sent x .first request wire ∈ seg →
      (∀ e ∈ quiet, Event.IsQuiet e) → Attempted (rejects (given wire)) x .second cli' seg' o →
      LogicalRequest registered rejects given x (.issued x :: seg ++ .onAuthError (some x) ::
        quiet ++ .restored (some x) cli' :: seg' ++ [.concluded x o])

/-- The events outside of requests. -/
def Event.IsPlain : Event → Prop
  | .called _ => True
  | .returned _ _ => True
  | .set _ => True
  | .signal _ => True
  | _ => False

/-- The logical requests as a language; that of a download follows the call of its method. -/
def requests (registered : Bool) : Language Event :=
  {seg | (∃ x, x ≠ .download ∧
      LogicalRequest registered (fun _ => isRejected) (fun _ => []) x seg) ∨
    ∃ uri d seg', LogicalRequest registered (Download.rejects d) (Download.given d []) .download
      seg' ∧ seg = .download uri d :: seg'}

/-- The blocks of a trace. -/
def blocks (registered : Bool) : Language Event := requests registered + letters Event.IsPlain

/-- A registered handler returns normally from every state. -/
def AuthErrorHandlerReturns (env : Environment) : Prop :=
  ∀ onAuthError, env.authErrorHandler = some onAuthError → ∀ w : World,
    ∃ w', (onAuthError w.trace).run performRestore w = .ok () w'

/-- A handler that returns leaves `onAuthError` normally. -/
theorem callOnAuthError_returns {env : Environment} (h : AuthErrorHandlerReturns env)
    {onAuthError : List Event → RestoreCode} (henv : env.authErrorHandler = some onAuthError)
    (d : Option Exchange) (w : World) : ∃ w', callOnAuthError d onAuthError w = .ok () w' := by
  obtain ⟨w', hw'⟩ := h onAuthError henv (w.log (.onAuthError d))
  unfold callOnAuthError
  rw [Effect.bind_of_ok (record_apply _ w), Effect.bind_of_ok (Effect.get_apply _),
    Effect.bind_of_ok hw']
  exact ⟨_, rfl⟩

/-- The contract that says which replies end an attempt in `unauthorized_exception`. -/
def RejectedBy (rejects : Wire → Bool) : Contract := fun _ _ wire result =>
  checked result = unauthorized ↔ rejects wire = true

/-- An attempt is described by the credentials of the client it is made with. -/
theorem AttemptTrace.attempted {rejects : Wire → Bool} {x : Exchange} {a : Attempt}
    {uri : URI} {w : World} {seg : List Event} {r : Except (Fault Exn) Httpclient.Response}
    (h : AttemptTrace (RejectedBy rejects) x a uri w seg r) :
    Attempted rejects x a w.client seg (outcome r) := by
  cases h with
  | unsent hf => exact .unsent hf
  | sent hsent hC => exact .sent hsent.keyPair hsent.headers (outcome_eq_unauthorized_iff.trans hC)

/-- An attempt that ends in `unauthorized_exception` has sent its request. -/
theorem Attempted.exists_sent {rejects : Wire → Bool} {x : Exchange} {a : Attempt}
    {cli : HawkbitCommunicationClient} {seg : List Event}
    (h : Attempted rejects x a cli seg unauthorized) :
    ∃ request wire, .sent x a request wire ∈ seg := by
  generalize ho : unauthorized = o at h
  cases h with
  | unsent hf =>
    cases ho
    exact hf.elim
  | @sent request wire => exact ⟨request, wire, List.mem_cons_self⟩

/-- With handlers that return, every request is a logical request. -/
theorem RequestTrace.logicalRequest {env : Environment} (henv : AuthErrorHandlerReturns env)
    {rejects : Wire → Bool} {x : Exchange} {uri : URI} {w : World} {seg : List Event}
    {r : Except (Fault Exn) Httpclient.Response}
    (h : RequestTrace env (RejectedBy rejects) x uri w seg r) :
    LogicalRequest env.authErrorHandler.isSome (fun _ => rejects) (fun _ => []) x seg := by
  cases h with
  | once hattempt hr =>
    apply LogicalRequest.once hattempt.attempted
    intro hregistered hunauthorized
    exact hr hregistered (outcome_eq_unauthorized_iff.mp hunauthorized)
  | abandoned hhandler _ _ herror =>
    obtain ⟨w', hok⟩ := callOnAuthError_returns henv hhandler _ _
    rw [hok] at herror
    cases herror
  | twice hregistered hfirst hquiet hsecond =>
    obtain ⟨request, wire, hsent⟩ := hfirst.attempted.exists_sent
    exact .twice hregistered hfirst.attempted hsent hquiet hsecond.attempted

/-! ### Which replies a request rejects -/

/-- The status 401 with its whole body. -/
theorem isRejected_iff (wire : Wire) : isRejected wire = true ↔ Rejected wire := by
  constructor
  · intro h
    cases wire with
    | answered status chunks cut =>
      cases cut with
      | none => exact ⟨chunks, by rw [eq_of_beq h]⟩
      | some e => cases h
    | _ => cases h
  · intro h
    obtain ⟨chunks, rfl⟩ := h
    rfl

/-- A collected reply is rejected when its status is 401. -/
theorem Sends.rejectedBy_collected {method : Method} {target : World → Str} {body contentType : Str}
    {func : HttpClient → Program Httpclient.Result}
    (h : Sends (Collected method target body contentType) func) :
    Sends (RejectedBy isRejected) func := by
  apply h.mono
  intro w request wire result hC
  obtain ⟨_, _, _, _, rfl⟩ := hC
  exact (checked_collected_unauthorized_iff wire).trans (isRejected_iff wire).symm

/-- So is the reply to every request but a download. -/
theorem Sending.rejectedBy {env : Environment} {x : Exchange}
    {func : HttpClient → Program Httpclient.Result} (h : Sending env x func) (hx : x ≠ .download) :
    Sends (RejectedBy isRejected) func := by
  cases h with
  | collected _ method path body contentType =>
    exact (sends_collected env method path body contentType).rejectedBy_collected
  | feedback followURI document =>
    exact sends_feedback fun path _ =>
      (sends_collected env .post (fun _ => path) _ applicationJson).rejectedBy_collected
  | toFile path => exact absurd rfl hx
  | toReceiver path func => exact absurd rfl hx

/-- A streamed reply ends so when its status is 401, or when its receiver throws. -/
theorem checked_stream_unauthorized_iff (receive : Str → Program Bool) (status : ℤ)
    (chunks : List Str) (cut : Option Failure) (s : World) :
    checked (ending ((Wire.answered status chunks cut).stream Exn.std acceptOk receive s)) =
        unauthorized ↔
      status = HTTP_UNAUTHORIZED ∨ status = HTTP_OK ∧
        ending (deliver receive chunks s) = .error (.thrown .unauthorizedException) := by
  by_cases hok : status = HTTP_OK
  · subst hok
    rw [stream_ok_apply]
    cases hdeliver : deliver receive chunks s with
    | ok taken t =>
      refine iff_of_false ?_ nofun
      cases taken with
      | false => nofun
      | true => cases cut <;> nofun
    | error f t =>
      constructor
      · intro h
        exact Or.inr ⟨rfl, congrArg Except.error (Except.error.inj h)⟩
      · intro h
        exact congrArg Except.error (Except.error.inj (h.resolve_left nofun).2)
  · obtain ⟨e, he, hcases⟩ := acceptOk_error hok
    rw [stream_of_error he]
    obtain ⟨rfl, h401⟩ | ⟨rfl, h401⟩ := hcases
    · exact iff_of_true rfl (Or.inl h401)
    · exact iff_of_false nofun (not_or.mpr ⟨h401, fun h => hok h.1⟩)

/-- A receiver that is given chunks throws `unauthorized_exception` at one of them. -/
theorem deliver_receiveChunk_unauthorized_iff (receiver : ContentReceiver) (chunks : List Str)
    (s : World) :
    ending (deliver (receiveChunk receiver) chunks s) =
        .error (.thrown .unauthorizedException) ↔
      throwsUnauthorized receiver s.received chunks = true := by
  induction chunks generalizing s with
  | nil => exact iff_of_false (fun h => by cases h) Bool.false_ne_true
  | cons chunk rest ih =>
    have hchunk := receiveChunk_apply receiver chunk s
    unfold deliver throwsUnauthorized
    cases hverdict : receiver s.received chunk with
    | more =>
      simp only [hverdict] at hchunk
      rw [Effect.bind_of_ok hchunk]
      exact ih (s.receive [chunk])
    | refuse =>
      simp only [hverdict] at hchunk
      rw [Effect.bind_of_ok hchunk]
      exact iff_of_false (fun h => by cases h) Bool.false_ne_true
    | raise e =>
      simp only [hverdict] at hchunk
      rw [Effect.bind_of_error hchunk]
      cases e <;> first
        | exact iff_of_true rfl rfl
        | exact iff_of_false (fun h => by cases h) Bool.false_ne_true

/-- A receiver is given these chunks. -/
theorem finalState_deliver_receiveChunk (receiver : ContentReceiver) (chunks : List Str)
    (s : World) :
    finalState (deliver (receiveChunk receiver) chunks s) =
      s.receive (givenChunks receiver s.received chunks) := by
  induction chunks generalizing s with
  | nil => exact (receive_nil s).symm
  | cons chunk rest ih =>
    have hchunk := receiveChunk_apply receiver chunk s
    unfold deliver givenChunks
    cases hverdict : receiver s.received chunk with
    | more =>
      simp only [hverdict] at hchunk
      rw [Effect.bind_of_ok hchunk]
      exact (ih (s.receive [chunk])).trans (receive_receive s _ _)
    | refuse =>
      simp only [hverdict] at hchunk
      rw [Effect.bind_of_ok hchunk]
      rfl
    | raise e =>
      simp only [hverdict] at hchunk
      rw [Effect.bind_of_error hchunk]
      rfl

/-- The receiver of `downloadTo` throws nothing. -/
theorem deliver_writeFile_ne_error (env : Environment) (chunks : List Str) (s : World)
    (f : Fault Exn) : ending (deliver (writeFile env) chunks s) ≠ .error f := by
  induction chunks generalizing s with
  | nil =>
    intro h
    cases h
  | cons chunk rest ih =>
    obtain ⟨taken, t, hwrite⟩ : ∃ taken t, writeFile env chunk s = .ok taken t := by
      unfold writeFile
      rw [Effect.bind_of_ok (Effect.get_apply s)]
      split <;> exact ⟨_, _, rfl⟩
    unfold deliver
    rw [Effect.bind_of_ok hwrite]
    cases taken with
    | true => exact ih t
    | false =>
      intro h
      cases h

/-- What a download makes of a reply. -/
def Download.consumer (env : Environment) : Download → Consumer
  | .downloadTo _ => streamFile env
  | .getBody => collect
  | .downloadWithReceiver receiver => streamTo receiver

/-- The chunks that the receiver of a download has been given in a state. -/
def Download.seen (w : World) : Download → List Str
  | .downloadWithReceiver _ => w.received
  | _ => []

/-- An exception of the backend passes every download. -/
theorem Download.passesThrown (env : Environment) (d : Download) :
    PassesThrown (d.consumer env) := by
  cases d with
  | downloadTo path => exact passesThrown_streamFile env
  | getBody => exact passesThrown_collect
  | downloadWithReceiver receiver => exact passesThrown_streamTo receiver

/-- A download records nothing while it reads a reply. -/
theorem Download.consumer_respects (env : Environment) (d : Download) (wire : Wire) :
    Respects (Keeps World.trace) (d.consumer env wire) := by
  cases d with
  | downloadTo path =>
    exact stream_respects (writeFile_respects (fun _ _ _ _ => rfl) env) acceptOk wire
  | getBody => exact Respects.ofExcept _
  | downloadWithReceiver receiver =>
    exact stream_respects (receiveChunk_respects (fun _ _ _ _ => rfl) receiver) acceptOk wire

section Downloads

variable (env : Environment) (uri : URI) (d : Download)

/-- A download rejects the replies that the method that was called does. -/
theorem Download.checked_unauthorized_iff (wire : Wire) (s : World) :
    checked (ending (d.consumer env wire s)) = unauthorized ↔
      d.rejects (d.seen s) wire = true := by
  cases d with
  | downloadTo path =>
    cases wire with
    | threw e => exact iff_of_false nofun Bool.false_ne_true
    | failed e => exact iff_of_false nofun Bool.false_ne_true
    | answered status chunks cut =>
      have hnone := deliver_writeFile_ne_error env chunks s (.thrown .unauthorizedException)
      have hstream := checked_stream_unauthorized_iff (writeFile env) status chunks cut s
      refine hstream.trans ?_
      simp [Download.rejects, hnone]
  | getBody =>
    have hcollect : ending (collect wire s) = collected wire := by
      unfold collect collected
      cases wire.collect <;> rfl
    change checked (ending (collect wire s)) = unauthorized ↔ isRejected wire = true
    rw [hcollect, checked_collected_unauthorized_iff, isRejected_iff]
  | downloadWithReceiver receiver =>
    cases wire with
    | threw e => exact iff_of_false nofun Bool.false_ne_true
    | failed e => exact iff_of_false nofun Bool.false_ne_true
    | answered status chunks cut =>
      have hthrows := deliver_receiveChunk_unauthorized_iff receiver chunks s
      have hstream := checked_stream_unauthorized_iff (receiveChunk receiver) status chunks cut s
      refine hstream.trans ?_
      simp [Download.rejects, Download.seen, hthrows]

/-- The receiver of a download is given the chunks that the method that was called gives it. -/
theorem Download.seen_finalState (wire : Wire) (s : World) :
    d.seen (finalState (d.consumer env wire s)) = d.given (d.seen s) wire := by
  cases d with
  | downloadTo path => cases wire <;> rfl
  | getBody => cases wire <;> rfl
  | downloadWithReceiver receiver =>
    cases wire with
    | threw e => rfl
    | failed e => rfl
    | answered status chunks cut =>
      by_cases hstatus : status = HTTP_OK
      · subst hstatus
        have hfinal : finalState (streamTo receiver (.answered HTTP_OK chunks cut) s) =
            s.receive (givenChunks receiver s.received chunks) :=
          (finalState_stream_ok _ chunks cut s).trans (finalState_deliver_receiveChunk _ chunks s)
        rw [Download.given, if_pos rfl]
        exact congrArg World.received hfinal
      · obtain ⟨e, he, -⟩ := acceptOk_error hstatus
        have hfinal : finalState (streamTo receiver (.answered status chunks cut) s) = s := by
          rw [streamTo, stream_of_error he]
          rfl
        rw [Download.given, if_neg hstatus]
        exact congrArg World.received hfinal

/-- What the receiver has been given is not changed by what changes no data. -/
theorem Download.seen_eq {w w' : World} (h : w'.data = w.data) : d.seen w' = d.seen w := by
  cases d with
  | downloadWithReceiver receiver => exact congrArg Prod.fst h
  | _ => rfl

/-- An attempt of a download, with the reply that it meets. -/
theorem Download.attempted (a : Attempt) (w : World) :
    ∃ seg, (consumedState env a uri (d.consumer env) w).trace = w.trace ++ seg ∧
      Attempted (d.rejects (d.seen w)) .download a w.client seg
        (outcome (consumed env a uri (d.consumer env) w)) ∧
      (consumed env a uri (d.consumer env) w = unauthorized →
        .sent .download a (fetchRequest uri w) (met env uri w) ∈ seg) := by
  have hkeep : (finalState (d.consumer env (met env uri w) (meeting env a uri w))).trace =
      (meeting env a uri w).trace := d.consumer_respects env (met env uri w) (meeting env a uri w)
  have hrejects := d.checked_unauthorized_iff env (met env uri w) (meeting env a uri w)
  rw [d.seen_eq (meeting_data env a uri w)] at hrejects
  have htrace : (consumedState env a uri (d.consumer env) w).trace =
      (meeting env a uri w).trace ++
        [.ended .download a (outcome (consumed env a uri (d.consumer env) w))] :=
    congrArg (· ++ [_]) hkeep
  obtain ⟨e, hmet, hmeeting⟩ | ⟨signals, hmeeting⟩ := meeting_trace env a uri w
  · have hthrown : consumed env a uri (d.consumer env) w = .error (.thrown (.std e)) := by
      rw [consumed, hmet, d.passesThrown env]
      rfl
    rw [hmeeting, hthrown] at htrace
    rw [hthrown]
    exact ⟨_, htrace, .unsent trivial, fun hunauthorized => by cases hunauthorized⟩
  · rw [hmeeting, List.append_assoc] at htrace
    exact ⟨_, htrace, .sent rfl rfl (outcome_eq_unauthorized_iff.trans hrejects),
      fun _ => List.mem_cons_self⟩

variable {env uri d}

/-- A second attempt begins with the chunks that the first reply gave. -/
theorem Download.seen_second {onAuthError : List Event → RestoreCode} {w w₂ : World}
    (hok : callOnAuthError (some .download) onAuthError
      (consumedState env .first uri (d.consumer env) w) = .ok () w₂) :
    d.seen w₂ = d.given (d.seen w) (met env uri w) := by
  have hdata : w₂.data = (consumedState env .first uri (d.consumer env) w).data := by
    have hkeeps := restoreRules_data.handlerRules.callOnAuthError (some .download) onAuthError
      (consumedState env .first uri (d.consumer env) w)
    rwa [hok] at hkeeps
  have hgiven := d.seen_finalState env (met env uri w) (meeting env .first uri w)
  rw [d.seen_eq (meeting_data env .first uri w)] at hgiven
  rw [d.seen_eq hdata]
  exact hgiven

variable (uri)

/-- With handlers that return, the request of a download whose receiver has been given nothing
is a logical request. -/
theorem Download.logicalRequest (henv : AuthErrorHandlerReturns env) {w : World}
    (hstart : d.seen w = []) :
    ∃ seg, (finalState (retryHandler env .download uri (fetch env uri (d.consumer env)) w)).trace =
        w.trace ++ seg ∧
      LogicalRequest env.authErrorHandler.isSome d.rejects (d.given []) .download seg := by
  have hpasses := d.passesThrown env
  obtain ⟨seg, hseg, hfirst, hsent⟩ := d.attempted env uri .first (w.log (.issued .download))
  have hissued : (w.log (.issued .download)).trace ++ seg =
      w.trace ++ .issued .download :: seg := List.append_assoc _ _ _
  have hissuedSeen : d.seen (w.log (.issued .download)) = [] := hstart
  rw [hissuedSeen] at hfirst
  rw [hissued] at hseg
  cases fetchRun env uri (d.consumer env) w with
  | once honce =>
    rw [(fetch_once hpasses honce).2]
    refine ⟨_, World.log_trace hseg _, .once hfirst fun hregistered hunauthorized => ?_⟩
    exact honce hregistered (outcome_eq_unauthorized_iff.mp hunauthorized)
  | abandoned hhandler _ herror =>
    obtain ⟨w', hok⟩ := callOnAuthError_returns henv hhandler _ _
    rw [hok] at herror
    cases herror
  | @twice onAuthError w₂ hhandler hunauthorized hok =>
    have hregistered : env.authErrorHandler.isSome = true := by rw [hhandler]; rfl
    rw [hunauthorized] at hfirst
    have hseen := d.seen_second hok
    rw [hissuedSeen] at hseen
    obtain ⟨quiet, hquiet, hcall⟩ := callOnAuthError_trace (some .download) onAuthError
      (consumedState env .first uri (d.consumer env) (w.log (.issued .download)))
    obtain ⟨f, w', herror, -⟩ | ⟨w', hok', hrestored⟩ := hcall
    · rw [hok] at herror
      cases herror
    · obtain rfl : w₂ = w' := by
        rw [hok] at hok'
        cases hok'
        rfl
      obtain ⟨seg', hseg', hsecond, -⟩ := d.attempted env uri .second w₂
      rw [hseen] at hsecond
      rw [(fetch_twice hpasses hhandler hunauthorized hok).2]
      rw [hrestored, hseg] at hseg'
      refine ⟨_, ?_, .twice hregistered hfirst (hsent hunauthorized) hquiet hsecond⟩
      change World.trace (consumedState _ _ _ _ _) ++ [_] = _
      rw [hseg']
      simp only [List.append_assoc, List.cons_append, List.nil_append]

end Downloads

/-- A download is its request, in which its receiver has been given nothing yet. -/
theorem performDownload_trace (env : Environment) (uri : URI) (d : Download) (w : World) :
    ∃ w₁ : World, w₁.trace = w.trace ∧ d.seen w₁ = [] ∧
      (finalState (performDownload env uri d w)).trace =
        (finalState (retryHandler env .download uri (fetch env uri (d.consumer env)) w₁)).trace := by
  have hreturn : ∀ {α β : Type} (m : Program α) (a : α → β) (s : World),
      finalState ((m >>= fun x => pure (a x)) s) = finalState (m s) := by
    intro α β m a s
    cases h : m s with
    | ok x t => rw [Effect.bind_of_ok h]; rfl
    | error f t => rw [Effect.bind_of_error h]; rfl
  cases d with
  | downloadTo path =>
    refine ⟨opened env path w, ?_, rfl, ?_⟩
    · unfold opened
      split <;> rfl
    · change (finalState ((downloadTo env uri path >>= fun _ => pure none) w)).trace = _
      rw [hreturn, downloadTo_eq, Effect.bind_of_ok (openFile_apply env path w),
        (Effect.noting_spec _ _ _).2, closeFile_trace, hreturn]
      rfl
  | getBody =>
    refine ⟨w, rfl, rfl, ?_⟩
    change (finalState ((getBody env uri >>= fun body => pure (some body)) w)).trace = _
    rw [hreturn, (getBody_spec env uri w).2]
    rfl
  | downloadWithReceiver receiver =>
    refine ⟨{ w with received := [] }, rfl, rfl, ?_⟩
    change (finalState ((downloadWithReceiver env uri receiver >>= fun _ => pure none) w)).trace = _
    rw [hreturn, (downloadWithReceiver_spec env uri receiver w).2]
    rfl

section Blocks

variable {env : Environment}

/-- A plain event is a block. -/
theorem growsBy_plain (registered : Bool) (e : Event) (he : e.IsPlain) (w : World) :
    GrowsBy World.trace (blocks registered)∗ w (w.log e) :=
  GrowsBy.block (Or.inr ⟨e, he, rfl⟩) rfl

/-- Quiet events are plain. -/
theorem quiet_le_blocks (registered : Bool) : letters Event.IsQuiet ≤ blocks registered := by
  intro seg hseg
  obtain ⟨e, he, rfl⟩ := hseg
  refine Or.inr ⟨e, ?_, rfl⟩
  cases e <;> trivial

/-- A request other than a download is one block. -/
theorem retryHandler_blocks (henv : AuthErrorHandlerReturns env) {x : Exchange} (hx : x ≠ .download)
    {func : HttpClient → Program Httpclient.Result} (hfunc : Sending env x func) (uri : URI) :
    Respects (GrowsBy World.trace (blocks env.authErrorHandler.isSome)∗)
      (retryHandler env x uri func) := by
  intro w
  obtain ⟨seg, htrace, hrequest⟩ := retryHandler_trace (hfunc.rejectedBy hx) env x uri w
  exact GrowsBy.block (Or.inl (Or.inl ⟨x, hx, hrequest.logicalRequest henv⟩)) htrace

/-- The call of a download and its request are one block. -/
theorem performCall_blocks (henv : AuthErrorHandlerReturns env) (uri : URI) (d : Download) :
    Respects (GrowsBy World.trace (blocks env.authErrorHandler.isSome)∗)
      (performCall env (.download uri d)) := by
  intro w
  obtain ⟨w₁, hlogged, hstart, hperform⟩ :=
    performDownload_trace env uri d (w.log (.download uri d))
  obtain ⟨seg, htrace, hrequest⟩ := Download.logicalRequest uri henv hstart
  refine GrowsBy.block (Or.inl (Or.inr ⟨uri, d, seg, hrequest, rfl⟩)) ?_
  change (finalState (performDownload env uri d (w.log (.download uri d)))).trace = _
  rw [hperform, htrace, hlogged]
  exact List.append_assoc _ _ _

/-- A poll appends logical requests and plain events. -/
theorem pollRules_blocks (henv : AuthErrorHandlerReturns env) :
    PollRules env (GrowsBy World.trace (blocks env.authErrorHandler.isSome)∗) where
  called c w := growsBy_plain _ (.called c) trivial w
  returned c a w := growsBy_plain _ (.returned c a) trivial w
  restore call := by
    refine Respects.mono ?_ (performRestore_respects call)
    intro w w' h
    exact h.mono (kstar_mono (quiet_le_blocks _))
  download := performCall_blocks henv
  request x uri func _ hx hfunc := retryHandler_blocks henv hx hfunc uri
  poll uri func hfunc := retryHandler_blocks henv (x := .poll) nofun hfunc uri
  ignoreSleep w b := GrowsBy.unchanged rfl
  sleepTime w t := GrowsBy.unchanged rfl

/-- The trace of `onAuthError` at start-up. -/
def restoring : Language Event :=
  {seg | ∃ quiet cli, (∀ e ∈ quiet, Event.IsQuiet e) ∧
    seg = .onAuthError none :: quiet ++ [.restored none cli]}

/-- Other threads append plain events. -/
theorem interrupt_blocks (registered : Bool) (signals : List Signal) (m : Machine) :
    GrowsBy World.trace (blocks registered)∗ m.world (m.interrupt signals).world := by
  have hquiet : ∀ e ∈ signals.map Event.signal, Event.IsQuiet e := by
    intro e he
    obtain ⟨s, _, rfl⟩ := List.mem_map.mp he
    trivial
  exact ⟨signals.map Event.signal,
    kstar_mono (quiet_le_blocks registered) (mem_letters_kstar.mpr hquiet),
    foldl_signal_trace signals m.world⟩

/-- Every step but the one that restores the authorisation appends blocks. -/
theorem step_blocks (henv : AuthErrorHandlerReturns env) (m : Machine) (hpc : m.pc ≠ .restoreAuth) :
    GrowsBy World.trace (blocks env.authErrorHandler.isSome)∗ m.world (step env m).world := by
  unfold step
  cases hm : m.pc with
  | restoreAuth => exact absurd hm hpc
  | poll =>
    rw [call_world]
    exact (pollRules_blocks henv).doPoll m.world
  | _ => exact GrowsBy.unchanged rfl

/-- Restoring the authorisation calls a registered handler once. -/
theorem step_restoring (henv : AuthErrorHandlerReturns env) (m : Machine)
    (hpc : m.pc = .restoreAuth) :
    ∃ start ∈ (if env.authErrorHandler.isSome then restoring else 1),
      (step env m).world.trace = m.world.trace ++ start := by
  unfold step
  simp only [hpc]
  cases hhandler : env.authErrorHandler with
  | none => exact ⟨[], rfl, (List.append_nil _).symm⟩
  | some onAuthError =>
    obtain ⟨quiet, hquiet, hcall⟩ := callOnAuthError_trace none onAuthError m.world
    obtain ⟨w', hok⟩ := callOnAuthError_returns henv hhandler none m.world
    obtain ⟨f, w₁, herror, _⟩ | ⟨w₁, hok₁, htrace⟩ := hcall
    · rw [hok] at herror
      cases herror
    · refine ⟨_, ⟨quiet, w₁.client, hquiet, rfl⟩, ?_⟩
      simp only
      rw [call_world, hok₁]
      exact htrace

/-- What has been appended to the trace at start-up. -/
def startUp (env : Environment) (cli : HawkbitCommunicationClient) (n : ℕ) : Language Event :=
  if env.authErrorHandler.isSome = true ∧ cli.hawkbitURI.isEmpty = true ∧ 2 ≤ n then restoring else 1

/-- Only the second step of a client without an endpoint is that of the start-up. -/
theorem startUp_succ (env : Environment) {cli : HawkbitCommunicationClient} {n : ℕ}
    (h : ¬ (n = 1 ∧ cli.hawkbitURI.isEmpty = true)) : startUp env cli (n + 1) = startUp env cli n := by
  unfold startUp
  apply if_congr _ rfl rfl
  have hlater : cli.hawkbitURI.isEmpty = true → (2 ≤ n + 1 ↔ 2 ≤ n) := by
    intro hempty
    have hn : n ≠ 1 := fun hn => h ⟨hn, hempty⟩
    omega
  constructor
  · intro hafter
    obtain ⟨hhandler, hempty, hn⟩ := hafter
    exact ⟨hhandler, hempty, (hlater hempty).mp hn⟩
  · intro hbefore
    obtain ⟨hhandler, hempty, hn⟩ := hbefore
    exact ⟨hhandler, hempty, (hlater hempty).mpr hn⟩

/-- The trace of a run: blocks, around one call of `onAuthError` at start-up. -/
theorem exec_blocks (henv : AuthErrorHandlerReturns env) (schedule : ℕ → List Signal)
    (cli : HawkbitCommunicationClient) (n : ℕ) :
    ∃ before start after, (exec env schedule cli n).world.trace = before ++ start ++ after ∧
      before ∈ (blocks env.authErrorHandler.isSome)∗ ∧ start ∈ startUp env cli n ∧
      after ∈ (blocks env.authErrorHandler.isSome)∗ := by
  induction n with
  | zero =>
    obtain ⟨seg, hseg, htrace⟩ :=
      interrupt_blocks env.authErrorHandler.isSome (schedule 0) (launch cli)
    have hnone : startUp env cli 0 = 1 := if_neg (by omega)
    refine ⟨seg, [], [], ?_, hseg, hnone ▸ rfl, Language.nil_mem_kstar _⟩
    rw [List.append_nil, List.append_nil]
    exact htrace
  | succ n ih =>
    obtain ⟨before, start, after, htrace, hbefore, hstart, hafter⟩ := ih
    obtain ⟨seg, hseg, hinterrupt⟩ := interrupt_blocks env.authErrorHandler.isSome
      (schedule (n + 1)) (step env (exec env schedule cli n))
    rw [← exec_succ] at hinterrupt
    by_cases hpc : (exec env schedule cli n).pc = .restoreAuth
    · obtain ⟨start', hstart', hstep⟩ := step_restoring henv _ hpc
      obtain ⟨rfl, hempty⟩ := (exec_pc_restoreAuth env schedule cli n).mp hpc
      have hnone : start = [] := by
        rw [startUp, if_neg (by omega)] at hstart
        exact hstart
      refine ⟨before ++ after, start', seg, ?_, append_mem_kstar hbefore hafter, ?_, hseg⟩
      · rw [hinterrupt, hstep, htrace, hnone, List.append_nil]
      · unfold startUp
        simpa [hempty] using hstart'
    · obtain ⟨seg', hseg', hstep⟩ := step_blocks henv _ hpc
      refine ⟨before, start, after ++ (seg' ++ seg), ?_, hbefore, ?_,
        append_mem_kstar hafter (append_mem_kstar hseg' hseg)⟩
      · rw [hinterrupt, hstep, htrace]
        simp only [List.append_assoc]
      · rw [exec_pc_restoreAuth] at hpc
        rw [startUp_succ env hpc]
        exact hstart

end Blocks

/-! ### Counting calls of `onAuthError` -/

/-- A call of `onAuthError`. -/
def Event.isOnAuthError : Event → Bool
  | .onAuthError _ => true
  | _ => false

/-- Whether the reply to a first attempt is rejected; a download is read as its call says. -/
def isRejectedFirst (called : Option Download) : Exchange → Wire → Bool
  | .download, wire => called.any fun d => d.rejects [] wire
  | _, wire => isRejected wire

/-- The number of first attempts whose replies are rejected, after the call of a download. -/
def rejections : Option Download → List Event → ℕ
  | _, [] => 0
  | _, .download _ d :: rest => rejections (some d) rest
  | called, .sent x .first _ wire :: rest =>
    (if isRejectedFirst called x wire then 1 else 0) + rejections called rest
  | called, _ :: rest => rejections called rest

/-- The calls of `onAuthError` and the rejections of a trace. -/
def tally (called : Option Download) (seg : List Event) : ℕ × ℕ :=
  (seg.countP Event.isOnAuthError, rejections called seg)

/-- A part of a trace adds to the counts of what follows it, and leaves a download as the last
one called. -/
def Tallies (called called' : Option Download) (seg : List Event) (n : ℕ × ℕ) : Prop :=
  ∀ rest, tally called (seg ++ rest) = n + tally called' rest

/-- Parts are counted one after the other. -/
theorem Tallies.append {called called' called'' : Option Download} {seg seg' : List Event}
    {n n' : ℕ × ℕ} (h : Tallies called called' seg n) (h' : Tallies called' called'' seg' n') :
    Tallies called called'' (seg ++ seg') (n + n') := by
  intro rest
  rw [List.append_assoc, h, h', add_assoc]

/-- Everything but calls of `onAuthError` and of downloads and the replies to first attempts. -/
def Event.IsUncounted : Event → Prop
  | .sent _ .first _ _ => False
  | .onAuthError _ => False
  | .download _ _ => False
  | _ => True

/-- Such an event counts nothing. -/
theorem tallies_uncounted {e : Event} (h : e.IsUncounted) (called : Option Download) :
    Tallies called called [e] 0 := by
  intro rest
  rw [zero_add]
  cases e with
  | sent x a request wire =>
    cases a with
    | first => exact h.elim
    | second => rfl
  | onAuthError during => exact h.elim
  | download uri d => exact h.elim
  | _ => rfl

/-- Neither do the settings and the calls of other threads. -/
theorem tallies_quiet {quiet : List Event} (h : ∀ e ∈ quiet, Event.IsQuiet e)
    (called : Option Download) : Tallies called called quiet 0 := by
  induction quiet with
  | nil => exact fun rest => (zero_add _).symm
  | cons e quiet ih =>
    have he : e.IsUncounted := by
      have hquiet := h e List.mem_cons_self
      cases e <;> trivial
    exact (tallies_uncounted he called).append (ih fun x hx => h x (List.mem_cons_of_mem _ hx))

/-- Signals count for nothing. -/
theorem tallies_signals (signals : List Signal) (called : Option Download) :
    Tallies called called (signals.map Event.signal) 0 := by
  apply tallies_quiet
  intro e he
  obtain ⟨s, _, rfl⟩ := List.mem_map.mp he
  trivial

/-- A call of `onAuthError` counts once. -/
theorem tallies_onAuthError (during : Option Exchange) (called : Option Download) :
    Tallies called called [.onAuthError during] (1, 0) := by
  intro rest
  rw [tally, List.singleton_append, List.countP_cons_of_pos rfl, Nat.add_comm]
  exact Prod.ext rfl (Nat.zero_add _).symm

/-- A first attempt counts when it ends in `unauthorized_exception`. -/
theorem Attempted.tallies_first {called : Option Download} {x : Exchange}
    {cli : HawkbitCommunicationClient} {seg : List Event} {o : Outcome}
    (h : Attempted (isRejectedFirst called x) x .first cli seg o) :
    (o = unauthorized → Tallies called called seg (0, 1)) ∧
      (o ≠ unauthorized → Tallies called called seg 0) := by
  cases h with
  | @unsent f hf =>
    have hended := tallies_uncounted (e := .ended x .first (.error f)) trivial called
    refine ⟨fun hunauthorized => ?_, fun _ => hended⟩
    cases hunauthorized
    exact hf.elim
  | @sent request wire signals o _ _ hiff =>
    have hrest := (tallies_signals signals called).append
      (tallies_uncounted (e := .ended x .first o) trivial called)
    have hsent : Tallies called called [.sent x .first request wire]
        (0, if isRejectedFirst called x wire then 1 else 0) := by
      intro rest
      simp [tally, rejections, Event.isOnAuthError]
    constructor
    · intro hunauthorized
      rw [if_pos (hiff.mp hunauthorized)] at hsent
      exact hsent.append hrest
    · intro hother
      rw [if_neg fun hrejected => hother (hiff.mpr hrejected)] at hsent
      exact hsent.append hrest

/-- A second attempt does not. -/
theorem Attempted.tallies_second {rejects : Wire → Bool} {x : Exchange}
    {cli : HawkbitCommunicationClient} {seg : List Event} {o : Outcome}
    (h : Attempted rejects x .second cli seg o) (called : Option Download) :
    Tallies called called seg 0 := by
  cases h with
  | @unsent f hf => exact tallies_uncounted (e := .ended x .second (.error f)) trivial called
  | @sent request wire signals o =>
    exact (tallies_uncounted (e := .sent x .second request wire) trivial called).append
      ((tallies_signals signals called).append
        (tallies_uncounted (e := .ended x .second o) trivial called))

/-- The calls of `onAuthError` are as many as the rejections if a handler is registered, and
none otherwise. -/
def Balanced (registered : Bool) (n : ℕ × ℕ) : Prop := n.1 = if registered then n.2 else 0

/-- Two balanced counts are balanced together. -/
theorem Balanced.add {registered : Bool} {n m : ℕ × ℕ} (hn : Balanced registered n)
    (hm : Balanced registered m) : Balanced registered (n + m) := by
  unfold Balanced at *
  rw [Prod.fst_add, Prod.snd_add, hn, hm]
  cases registered <;> rfl

/-- A request calls `onAuthError` once for a first attempt that ended so. -/
theorem LogicalRequest.tallies {registered : Bool} {called : Option Download} {x : Exchange}
    {rejects : List Str → Wire → Bool} {given : Wire → List Str} {seg : List Event}
    (h : LogicalRequest registered rejects given x seg)
    (hrejects : rejects [] = isRejectedFirst called x) :
    ∃ n, Balanced registered n ∧ Tallies called called seg n := by
  have hissued := tallies_uncounted (e := .issued x) trivial called
  have hconcluded : ∀ o, Tallies called called [.concluded x o] 0 := fun o =>
    tallies_uncounted (e := .concluded x o) trivial called
  cases h with
  | @once cli attempt o hattempted ho =>
    rw [hrejects] at hattempted
    obtain ⟨hunauthorized, hother⟩ := hattempted.tallies_first
    by_cases hfirst : o = unauthorized
    · have hregistered : registered = false :=
        Bool.eq_false_of_not_eq_true fun hregistered => ho hregistered hfirst
      subst hregistered
      have hbalanced : Balanced false (0 + (0, 1) + 0) := rfl
      exact ⟨_, hbalanced, (hissued.append (hunauthorized hfirst)).append (hconcluded o)⟩
    · refine ⟨_, ?_, (hissued.append (hother hfirst)).append (hconcluded o)⟩
      cases registered <;> rfl
  | @twice cli attempt request wire quiet cli' attempt' o hregistered hfirst _ hquiet hsecond =>
    subst hregistered
    rw [hrejects] at hfirst
    have hcall := (tallies_onAuthError (some x) called).append (tallies_quiet hquiet called)
    have hrestored := (tallies_uncounted (e := .restored (some x) cli') trivial called).append
      (hsecond.tallies_second called)
    have hwhole := (((hissued.append (hfirst.tallies_first.1 rfl)).append hcall).append
      hrestored).append (hconcluded o)
    have hbalanced : Balanced true (0 + (0, 1) + ((1, 0) + 0) + (0 + 0) + 0) := rfl
    exact ⟨_, hbalanced, hwhole⟩

/-- So do the blocks of a trace. -/
theorem tallies_blocks {registered : Bool} {seg : List Event} (h : seg ∈ (blocks registered)∗) :
    ∀ called, ∃ called' n, Balanced registered n ∧ Tallies called called' seg n := by
  apply kstar_induction _ _ h
  · intro called
    refine ⟨called, 0, ?_, fun rest => (zero_add _).symm⟩
    cases registered <;> rfl
  · intro block rest hblock ih called
    have hfirst : ∃ called' n, Balanced registered n ∧ Tallies called called' block n := by
      obtain (⟨x, hx, hrequest⟩ | ⟨uri, d, seg, hrequest, rfl⟩) | ⟨e, he, rfl⟩ := hblock
      · have hrejects : isRejected = isRejectedFirst called x := by
          cases x <;> first | rfl | exact absurd rfl hx
        obtain ⟨n, hn, htallies⟩ := hrequest.tallies hrejects
        exact ⟨called, n, hn, htallies⟩
      · have hrejects : d.rejects [] = isRejectedFirst (some d) .download := rfl
        obtain ⟨n, hn, htallies⟩ := hrequest.tallies hrejects
        exact ⟨some d, n, hn, htallies⟩
      · have huncounted : e.IsUncounted := by
          cases e <;> trivial
        refine ⟨called, 0, ?_, tallies_uncounted huncounted called⟩
        cases registered <;> rfl
    obtain ⟨called', n, hn, htallies⟩ := hfirst
    obtain ⟨called'', m, hm, hrest⟩ := ih called'
    exact ⟨called'', n + m, hn.add hm, htallies.append hrest⟩

/-- Start-up calls `onAuthError` once when the client has no endpoint. -/
theorem tallies_startUp {env : Environment} {cli : HawkbitCommunicationClient} {n : ℕ}
    {start : List Event} (h : start ∈ startUp env cli n) (called : Option Download) :
    Tallies called called start
      (if env.authErrorHandler.isSome = true ∧ cli.hawkbitURI.isEmpty = true ∧ 2 ≤ n
        then 1 else 0, 0) := by
  unfold startUp at h
  split at h
  · obtain ⟨quiet, cli', hquiet, rfl⟩ := h
    rw [if_pos ‹_›]
    exact ((tallies_onAuthError none called).append (tallies_quiet hquiet called)).append
      (tallies_uncounted (e := .restored none cli') trivial called)
  · rw [show start = [] from h, if_neg ‹_›]
    exact fun rest => (zero_add _).symm

/-- With handlers that return, the trace of every run is made of logical requests, and
`onAuthError` is called once for each first attempt whose reply is rejected, plus once when the
endpoint was empty at start-up. -/
theorem exec_requests (env : Environment) (henv : AuthErrorHandlerReturns env)
    (schedule : ℕ → List Signal) (cli : HawkbitCommunicationClient) (n : ℕ) :
    (∃ before start after, (exec env schedule cli n).world.trace = before ++ start ++ after ∧
      before ∈ (blocks env.authErrorHandler.isSome)∗ ∧ start ∈ startUp env cli n ∧
      after ∈ (blocks env.authErrorHandler.isSome)∗) ∧
    (exec env schedule cli n).world.trace.countP Event.isOnAuthError =
      if env.authErrorHandler.isSome then
        rejections none (exec env schedule cli n).world.trace +
          (if cli.hawkbitURI.isEmpty = true ∧ 2 ≤ n then 1 else 0)
      else 0 := by
  obtain ⟨before, start, after, htrace, hbefore, hstart, hafter⟩ :=
    exec_blocks henv schedule cli n
  refine ⟨⟨before, start, after, htrace, hbefore, hstart, hafter⟩, ?_⟩
  obtain ⟨called, nb, hnb, hbeforeTally⟩ := tallies_blocks hbefore none
  obtain ⟨called', na, hna, hafterTally⟩ := tallies_blocks hafter called
  have htally := ((hbeforeTally.append (tallies_startUp hstart called)).append hafterTally) []
  rw [← htrace, List.append_nil] at htally
  have hcalls := congrArg Prod.fst htally
  have hrejections := congrArg Prod.snd htally
  simp only [tally, Prod.fst_add, Prod.snd_add, List.countP_nil, rejections] at hcalls hrejections
  unfold Balanced at hnb hna
  rw [hcalls, hrejections, hnb, hna]
  by_cases hregistered : env.authErrorHandler.isSome = true
  · simp only [hregistered, true_and, if_true]
    omega
  · simp only [hregistered, Bool.false_eq_true, false_and, if_false]

/-- Servers that reject every request, and a handler that sets a new token each time. -/
def rejectingEnvironment : Environment := { idleEnvironment with
  server := fun _ _ => { wire := .answered HTTP_UNAUTHORIZED [] none }
  authErrorHandler := some fun _ => .call (.inl (.setDeviceToken "t".toList)) fun _ => .done () }

/-- The first poll of a client without an endpoint calls `onAuthError` a second time. -/
theorem rejected_onAuthError_twice :
    (exec rejectingEnvironment (fun _ => []) {} 6).world.trace.countP Event.isOnAuthError = 2 := by
  have hreturns : AuthErrorHandlerReturns rejectingEnvironment := by
    intro onAuthError h w
    obtain rfl := Option.some.inj h
    exact ⟨_, rfl⟩
  have hcount := (exec_requests rejectingEnvironment hreturns (fun _ => []) {} 6).2
  exact hcount.trans (by decide)

/-- The status 401 in the reply to a first attempt. -/
def Event.isFirstUnauthorized : Event → Bool
  | .sent _ .first _ (.answered status _ _) => status == HTTP_UNAUTHORIZED
  | _ => false

/-- `onAuthError` is called once for each status 401 in the reply to a first attempt, plus once
when the endpoint was empty at start-up. -/
def CalledForUnauthorized (env : Environment) (schedule : ℕ → List Signal)
    (cli : HawkbitCommunicationClient) (n : ℕ) : Prop :=
  (exec env schedule cli n).world.trace.countP Event.isOnAuthError =
    if env.authErrorHandler.isSome then
      (exec env schedule cli n).world.trace.countP Event.isFirstUnauthorized +
        (if cli.hawkbitURI.isEmpty = true ∧ 2 ≤ n then 1 else 0)
    else 0

/-- Give every artifact of a deployment to a receiver that throws `unauthorized_exception`. -/
def rejectArtifacts (dp : DeploymentBase) : UserCode (Option Response) := do
  (dp.chunks.flatMap Chunk.artifacts).forM fun artifact => do
    let _ ← Interaction.invoke (.download artifact.downloadURI
      (.downloadWithReceiver fun _ _ => .raise .unauthorizedException))
  return some { finished := .success, execution := .closed }

/-- A server that answers every request with the status 200, and a handler whose receiver throws. -/
def throwingEnvironment : Environment := { idleEnvironment with
  parse := Json.parse
  server := fun _ request =>
    { wire := .answered HTTP_OK [firmwareServer request.target] none }
  handler := { idleEnvironment.handler with
    onDeploymentAction := fun _ dp => rejectArtifacts dp }
  authErrorHandler := some fun _ => .done () }

/-- The receiver alone makes the client call `onAuthError` and send its request again. -/
theorem throwingReceiver_calls_onAuthError :
    AuthErrorHandlerReturns throwingEnvironment ∧
      ¬ CalledForUnauthorized throwingEnvironment (fun _ => []) endpointClient 5 := by
  constructor
  · intro onAuthError h w
    obtain rfl := Option.some.inj h
    exact ⟨_, rfl⟩
  · unfold CalledForUnauthorized
    decide +kernel

end Up2date.Ddi
