import Up2date.Ddi.Fetching

/-!
# A body and a receiver

`getBody` looks at the status after the whole exchange, and `downloadWithReceiver` before the
first byte of the body. They agree on everything that can be observed unless a response with
another status than 200 is cut by a failure of the connection: the one then reports the
failure and the other the status. What a receiver is given is part of responses with the
status 200, and a receiver that refuses a chunk makes the download throw.
-/

namespace Up2date.Ddi

open Cxx Uri Httpclient

/-- A response with another status than 200 that a failure cuts. -/
def CutRejection (wire : Wire) : Prop :=
  ∃ status chunks e, wire = .answered status chunks (some e) ∧ status ≠ HTTP_OK

/-- One of the attempts of a download meets such a response. -/
def MeetsCutRejection (env : Environment) (uri : URI) (w : World) : Prop :=
  ∃ a s, AttemptedIn env uri w a s ∧ CutRejection (met env uri s)

/-- A receiver that never throws and takes every chunk. -/
def Accepting (receiver : ContentReceiver) : Prop := ∀ earlier chunk, receiver earlier chunk = .more

/-- A request or a call of `onAuthError`. -/
def Event.isVisible : Event → Bool
  | .sent _ _ _ _ => true
  | .onAuthError _ => true
  | _ => false

/-- The two downloads agree from a state. -/
structure DownloadsAgree (env : Environment) (uri : URI) (receiver : ContentReceiver) (w : World) :
    Prop where
  visible : (finalState (getBody env uri w)).trace.filter Event.isVisible =
    (finalState (downloadWithReceiver env uri receiver w)).trace.filter Event.isVisible
  throws : ∀ f, ending (getBody env uri w) = .error f ↔
    ending (downloadWithReceiver env uri receiver w) = .error f
  returns : ∀ body, ending (getBody env uri w) = .ok body →
    ending (downloadWithReceiver env uri receiver w) = .ok () ∧
      (finalState (downloadWithReceiver env uri receiver w)).received.flatten = body

/-- The chunks of a response with the status 200. -/
def okBody : Wire → List Str
  | .answered status chunks _ => if status = HTTP_OK then chunks else []
  | _ => []

/-- The chunks of a response with the status 200. -/
def Event.okChunks (e : Event) : List Str := (e.reply?.map okBody).getD []

/-- A receiver is given chunks of responses with the status 200 only. -/
def OkBytesOnly (env : Environment) (uri : URI) (receiver : ContentReceiver) (w : World) : Prop :=
  ∃ seg, (finalState (downloadWithReceiver env uri receiver w)).trace = w.trace ++ seg ∧
    (finalState (downloadWithReceiver env uri receiver w)).received.Sublist (seg.flatMap Event.okChunks)

/-- A download whose receiver refused a chunk throws. -/
def ThrowsWhenRefused (env : Environment) (uri : URI) (receiver : ContentReceiver) (w : World) :
    Prop :=
  ∀ earlier chunk,
    (earlier ++ [chunk]).IsPrefix (finalState (downloadWithReceiver env uri receiver w)).received →
    receiver earlier chunk = .refuse →
      ∃ e, ending (downloadWithReceiver env uri receiver w) = .error (.thrown e)

/-! ### Replies -/

/-- The consumer of `downloadWithReceiver`. -/
def streamTo (receiver : ContentReceiver) : Consumer := fun wire =>
  wire.stream Exn.std acceptOk (receiveChunk receiver)

/-- An exception of the backend passes the collection of a body. -/
theorem passesThrown_collect : PassesThrown collect := fun _ _ => rfl

/-- It passes the streaming to a receiver. -/
theorem passesThrown_streamTo (receiver : ContentReceiver) : PassesThrown (streamTo receiver) :=
  fun _ _ => rfl

/-- `getBody` is a request whose body is collected. -/
theorem getBody_eq (env : Environment) (uri : URI) :
    getBody env uri = (do
      let resp ← retryHandler env .download uri (fetch env uri collect)
      return resp.body) := rfl

/-- `downloadWithReceiver` is a request whose body is streamed. -/
theorem downloadWithReceiver_eq (env : Environment) (uri : URI) (receiver : ContentReceiver) :
    downloadWithReceiver env uri receiver = (do
      modify fun w => { w with received := [] }
      let _ ← retryHandler env .download uri (fetch env uri (streamTo receiver))) := rfl

/-- The collection of a body touches no state. -/
theorem collect_respects (wire : Wire) : Respects Alike (collect wire) := Respects.ofExcept _

/-- The streaming of a body touches only what the receiver was given. -/
theorem streamTo_respects (receiver : ContentReceiver) (wire : Wire) :
    Respects Alike (streamTo receiver wire) :=
  stream_respects (receiveChunk_respects (fun _ _ _ _ => ⟨rfl, rfl⟩) receiver) acceptOk wire

/-! ### The chunks a receiver is given -/

/-- A receiver refuses none of the chunks it is given after earlier ones. -/
def Unrefused (receiver : ContentReceiver) : List Str → List Str → Prop
  | _, [] => True
  | earlier, chunk :: rest =>
    receiver earlier chunk ≠ .refuse ∧ Unrefused receiver (earlier ++ [chunk]) rest

/-- A receiver refuses none of some chunks when it refuses none of either part. -/
theorem unrefused_append {receiver : ContentReceiver} {earlier first second : List Str} :
    Unrefused receiver earlier (first ++ second) ↔
      Unrefused receiver earlier first ∧ Unrefused receiver (earlier ++ first) second := by
  induction first generalizing earlier with
  | nil => simp [Unrefused]
  | cons chunk rest ih =>
    simp only [List.cons_append, Unrefused, ih, and_assoc]
    rw [List.append_assoc, List.singleton_append]

/-- The state after a receiver was given chunks. -/
def World.receive (w : World) (given : List Str) : World := { w with received := w.received ++ given }

/-- A chunk counts as given, whatever the receiver makes of it. -/
theorem receiveChunk_apply (receiver : ContentReceiver) (chunk : Str) (w : World) :
    receiveChunk receiver chunk w = match receiver w.received chunk with
      | .more => .ok true (w.receive [chunk])
      | .refuse => .ok false (w.receive [chunk])
      | .raise e => .error (.thrown e) (w.receive [chunk]) := by
  unfold receiveChunk
  rw [Effect.bind_of_ok (Effect.get_apply w), Effect.bind_of_ok (Effect.modify_apply _ w)]
  cases receiver w.received chunk <;> rfl

/-- Chunks are given one after the other. -/
theorem receive_receive (w : World) (first second : List Str) :
    (w.receive first).receive second = w.receive (first ++ second) := by
  simp only [World.receive, List.append_assoc]

/-- No chunks change nothing. -/
theorem receive_nil (w : World) : w.receive [] = w := by
  simp only [World.receive, List.append_nil]

/-- A receiver is given chunks in order, up to one that it refuses or throws at. -/
theorem deliver_receiveChunk (receiver : ContentReceiver) (chunks : List Str) (w : World) :
    ∃ given, given.IsPrefix chunks ∧
      finalState (deliver (receiveChunk receiver) chunks w) = w.receive given ∧
      (ending (deliver (receiveChunk receiver) chunks w) ≠ .ok false →
        Unrefused receiver w.received given) := by
  induction chunks generalizing w with
  | nil => exact ⟨[], List.nil_prefix, (receive_nil w).symm, fun _ => trivial⟩
  | cons chunk rest ih =>
    have hchunk := receiveChunk_apply receiver chunk w
    have hone : [chunk].IsPrefix (chunk :: rest) := List.prefix_append [chunk] rest
    unfold deliver
    cases hverdict : receiver w.received chunk with
    | more =>
      simp only [hverdict] at hchunk
      rw [Effect.bind_of_ok hchunk]
      obtain ⟨given, hprefix, hfinal, hunrefused⟩ := ih (w.receive [chunk])
      refine ⟨chunk :: given, List.cons_prefix_cons.mpr ⟨rfl, hprefix⟩, ?_, ?_⟩
      · exact hfinal.trans (receive_receive w [chunk] given)
      · intro h
        exact ⟨by simp [hverdict], hunrefused h⟩
    | refuse =>
      simp only [hverdict] at hchunk
      rw [Effect.bind_of_ok hchunk]
      exact ⟨[chunk], hone, rfl, fun h => absurd rfl h⟩
    | raise e =>
      simp only [hverdict] at hchunk
      rw [Effect.bind_of_error hchunk]
      exact ⟨[chunk], hone, rfl, fun _ => ⟨by simp [hverdict], trivial⟩⟩

/-- A refusal ends a download in the error of a canceled request. -/
def canceled {α : Type} : Except (Fault Exn) α :=
  .error (.thrown (.httpLibError Httpclient.Error.canceled.toInt))

/-- What a receiver is given of a reply. -/
theorem streamTo_spec (receiver : ContentReceiver) (wire : Wire) (w : World) :
    ∃ given, given.IsPrefix (okBody wire) ∧
      finalState (streamTo receiver wire w) = w.receive given ∧
      (checked (ending (streamTo receiver wire w)) ≠ canceled →
        Unrefused receiver w.received given) := by
  cases wire with
  | threw e => exact ⟨[], List.nil_prefix, (receive_nil w).symm, fun _ => trivial⟩
  | failed e => exact ⟨[], List.nil_prefix, (receive_nil w).symm, fun _ => trivial⟩
  | answered status chunks cut =>
    by_cases hstatus : status = HTTP_OK
    · subst hstatus
      obtain ⟨given, hprefix, hfinal, hunrefused⟩ := deliver_receiveChunk receiver chunks w
      have hstream := stream_ok_apply (receiveChunk receiver) chunks cut w
      refine ⟨given, hprefix, ?_, ?_⟩
      · rw [← hfinal, streamTo, finalState_stream_ok]
      · intro hcanceled
        apply hunrefused
        intro hfalse
        obtain ⟨t, ht⟩ := eq_ok_of_ending hfalse
        apply hcanceled
        rw [streamTo, hstream, ht]
        rfl
    · obtain ⟨e, he, -⟩ := acceptOk_error hstatus
      rw [streamTo, stream_of_error he]
      exact ⟨[], List.nil_prefix, (receive_nil w).symm, fun _ => trivial⟩

/-- What a receiver is given in an attempt. -/
theorem consumedState_received (env : Environment) (a : Attempt) (uri : URI)
    (receiver : ContentReceiver) (w : World) :
    ∃ given, given.IsPrefix (okBody (met env uri w)) ∧
      (consumedState env a uri (streamTo receiver) w).received = w.received ++ given ∧
      (consumed env a uri (streamTo receiver) w ≠ canceled → Unrefused receiver w.received given) := by
  obtain ⟨given, hprefix, hfinal, hunrefused⟩ :=
    streamTo_spec receiver (met env uri w) (meeting env a uri w)
  have hreceived : (meeting env a uri w).received = w.received :=
    congrArg Prod.fst (meeting_data env a uri w)
  rw [hreceived] at hunrefused
  refine ⟨given, hprefix, ?_, hunrefused⟩
  unfold consumedState
  rw [hfinal]
  exact congrArg (· ++ given) hreceived

/-- The chunks given in a part of a run come from its responses with the status 200. -/
def GivesOkBytes (w w' : World) : Prop :=
  ∃ seg given, w'.trace = w.trace ++ seg ∧ w'.received = w.received ++ given ∧
    given.Sublist (seg.flatMap Event.okChunks)

instance GivesOkBytes.instRefl : Std.Refl GivesOkBytes :=
  ⟨fun _ => ⟨[], [], (List.append_nil _).symm, (List.append_nil _).symm, List.Sublist.slnil⟩⟩

instance GivesOkBytes.instIsTrans : IsTrans World GivesOkBytes where
  trans := by
    intro s t u hst htu
    obtain ⟨seg, given, htrace, hreceived, hsub⟩ := hst
    obtain ⟨seg', given', htrace', hreceived', hsub'⟩ := htu
    refine ⟨seg ++ seg', given ++ given', ?_, ?_, ?_⟩
    · rw [htrace', htrace, List.append_assoc]
    · rw [hreceived', hreceived, List.append_assoc]
    · rw [List.flatMap_append]
      exact hsub.append hsub'

/-- `onAuthError` gives a receiver nothing. -/
theorem restoreRules_givesOkBytes : RestoreRules GivesOkBytes where
  log e _ _ := ⟨[e], [], rfl, (List.append_nil _).symm, List.nil_sublist _⟩
  signal s _ := ⟨[.signal s], [], rfl, (List.append_nil _).symm, List.nil_sublist _⟩
  setting _ _ _ _ :=
    ⟨[], [], (List.append_nil _).symm, (List.append_nil _).symm, List.nil_sublist _⟩

/-- An attempt gives its receiver chunks of the reply it records. -/
theorem consumedState_givesOkBytes (env : Environment) (a : Attempt) (uri : URI)
    (receiver : ContentReceiver) (w : World) :
    GivesOkBytes w (consumedState env a uri (streamTo receiver) w) := by
  obtain ⟨given, hprefix, hreceived, -⟩ := consumedState_received env a uri receiver w
  have hkeep : (finalState (streamTo receiver (met env uri w) (meeting env a uri w))).trace =
      (meeting env a uri w).trace :=
    (streamTo_respects receiver (met env uri w) (meeting env a uri w)).2.symm
  have htrace : (consumedState env a uri (streamTo receiver) w).trace = (meeting env a uri w).trace ++
      [.ended .download a (outcome (consumed env a uri (streamTo receiver) w))] :=
    congrArg (· ++ [_]) hkeep
  obtain ⟨e, hmet, hstate⟩ | ⟨signals, hsent⟩ := meeting_trace env a uri w
  · rw [hmet] at hprefix
    rw [hstate] at htrace
    exact ⟨_, given, htrace, hreceived, List.prefix_nil.mp hprefix ▸ List.nil_sublist _⟩
  · rw [hsent, List.append_assoc] at htrace
    refine ⟨_, given, htrace, hreceived, hprefix.sublist.trans ?_⟩
    rw [List.cons_append, List.flatMap_cons]
    exact List.sublist_append_left _ _

/-- A download with a receiver ends as its request does. -/
theorem downloadWithReceiver_spec (env : Environment) (uri : URI) (receiver : ContentReceiver)
    (w : World) :
    ending (downloadWithReceiver env uri receiver w) =
        (ending (retryHandler env .download uri (fetch env uri (streamTo receiver))
          { w with received := [] })).map (fun _ => ()) ∧
      finalState (downloadWithReceiver env uri receiver w) =
        finalState (retryHandler env .download uri (fetch env uri (streamTo receiver))
          { w with received := [] }) := by
  rw [downloadWithReceiver_eq, Effect.bind_of_ok (Effect.modify_apply _ w)]
  cases h : retryHandler env .download uri (fetch env uri (streamTo receiver))
      { w with received := [] } with
  | ok resp t => rw [Effect.bind_of_ok h]; exact ⟨rfl, rfl⟩
  | error f t => rw [Effect.bind_of_error h]; exact ⟨rfl, rfl⟩

/-- Every download with a receiver gives it chunks of responses with the status 200 only. -/
theorem okBytesOnly (env : Environment) (uri : URI) (receiver : ContentReceiver) (w : World) :
    OkBytesOnly env uri receiver w := by
  have hattempt (a : Attempt) : Respects GivesOkBytes
      (wrappedRequest env .download a uri (fetch env uri (streamTo receiver))) := by
    intro s
    rw [(wrappedRequest_fetch env uri (passesThrown_streamTo receiver) a s).2]
    exact consumedState_givesOkBytes env a uri receiver s
  obtain ⟨seg, given, htrace, hreceived, hsub⟩ :=
    restoreRules_givesOkBytes.handlerRules.retryHandler hattempt { w with received := [] }
  rw [← (downloadWithReceiver_spec env uri receiver w).2] at htrace hreceived
  exact ⟨seg, htrace, hreceived ▸ hsub⟩

/-- `onAuthError` gives a receiver nothing. -/
theorem callOnAuthError_received (d : Option Exchange) (onAuthError : List Event → RestoreCode)
    (w : World) : (finalState (callOnAuthError d onAuthError w)).received = w.received :=
  congrArg Prod.fst (restoreRules_data.handlerRules.callOnAuthError d onAuthError w)

/-- A download with a receiver is canceled, or none of the chunks it gave was refused. -/
theorem canceled_or_unrefused (env : Environment) (uri : URI) (receiver : ContentReceiver)
    {w : World} (hw : w.received = []) :
    ending (retryHandler env .download uri (fetch env uri (streamTo receiver)) w) = canceled ∨
      Unrefused receiver []
        (finalState
          (retryHandler env .download uri (fetch env uri (streamTo receiver)) w)).received := by
  have hpasses := passesThrown_streamTo receiver
  have hstart : (w.log (.issued .download)).received = [] := hw
  obtain ⟨first, -, hreceived, hunrefused⟩ :=
    consumedState_received env .first uri receiver (w.log (.issued .download))
  rw [hstart, List.nil_append] at hreceived
  rw [hstart] at hunrefused
  cases fetchRun env uri (streamTo receiver) w with
  | once honce =>
    obtain ⟨hending, hfinal⟩ := fetch_once hpasses honce
    rw [hending, hfinal]
    by_cases hcanceled :
        consumed env .first uri (streamTo receiver) (w.log (.issued .download)) = canceled
    · exact Or.inl hcanceled
    · exact Or.inr (Eq.subst hreceived.symm (hunrefused hcanceled))
  | @abandoned onAuthError f w₂ henv hunauthorized hcall =>
    have hfirst := hunrefused (by rw [hunauthorized]; nofun)
    have hcalled := callOnAuthError_received (some .download) onAuthError
      (consumedState env .first uri (streamTo receiver) (w.log (.issued .download)))
    rw [hreceived, hcall] at hcalled
    rw [(fetch_abandoned hpasses henv hunauthorized hcall).2]
    exact Or.inr (Eq.subst hcalled.symm hfirst)
  | @twice onAuthError w₂ henv hunauthorized hcall =>
    have hfirst := hunrefused (by rw [hunauthorized]; nofun)
    have hcalled := callOnAuthError_received (some .download) onAuthError
      (consumedState env .first uri (streamTo receiver) (w.log (.issued .download)))
    rw [hreceived, hcall] at hcalled
    obtain ⟨hending, hfinal⟩ := fetch_twice hpasses henv hunauthorized hcall
    obtain ⟨second, -, hreceived₂, hunrefused₂⟩ :=
      consumedState_received env .second uri receiver w₂
    rw [hending, hfinal]
    by_cases hcanceled : consumed env .second uri (streamTo receiver) w₂ = canceled
    · exact Or.inl hcanceled
    · refine Or.inr ?_
      have hsecond := hunrefused₂ hcanceled
      rw [show w₂.received = first from hcalled] at hreceived₂ hsecond
      change Unrefused receiver [] (consumedState env .second uri (streamTo receiver) w₂).received
      rw [hreceived₂]
      exact unrefused_append.mpr ⟨hfirst, hsecond⟩

/-- Every download whose receiver refused a chunk throws. -/
theorem throwsWhenRefused (env : Environment) (uri : URI) (receiver : ContentReceiver) (w : World) :
    ThrowsWhenRefused env uri receiver w := by
  intro earlier chunk hprefix hrefuse
  obtain ⟨hending, hfinal⟩ := downloadWithReceiver_spec env uri receiver w
  rw [hfinal] at hprefix
  obtain ⟨rest, hrest⟩ := hprefix
  cases canceled_or_unrefused env uri receiver (w := { w with received := [] }) rfl with
  | inl hcanceled =>
    rw [hending, hcanceled]
    exact ⟨_, rfl⟩
  | inr hunrefused =>
    rw [← hrest, List.append_assoc, unrefused_append] at hunrefused
    exact absurd hrefuse hunrefused.2.1

/-! ### Agreement -/

section Agreement

variable {env : Environment} {uri : URI} {receiver : ContentReceiver} {w w' : World}

/-- An accepting receiver is given all chunks. -/
theorem deliver_of_accepting (h : Accepting receiver) (chunks : List Str) (w : World) :
    deliver (receiveChunk receiver) chunks w = .ok true (w.receive chunks) := by
  induction chunks generalizing w with
  | nil => rw [receive_nil]; rfl
  | cons chunk rest ih =>
    have hchunk := receiveChunk_apply receiver chunk w
    simp only [h w.received chunk] at hchunk
    unfold deliver
    rw [Effect.bind_of_ok hchunk]
    exact (ih _).trans (congrArg _ (receive_receive w [chunk] rest))

/-- A body that is collected leaves the state alone. -/
theorem consumed_collect (env : Environment) (uri : URI) (a : Attempt) (w : World) :
    consumed env a uri collect w = checked (collected (met env uri w)) ∧
      finalState (collect (met env uri w) (meeting env a uri w)) = meeting env a uri w := by
  unfold consumed collect collected
  cases (met env uri w).collect <;> exact ⟨rfl, rfl⟩

/-- A whole response ends an attempt in the same way when it is collected and when it is streamed. -/
theorem streamTo_agrees (h : Accepting receiver) {wire : Wire} (hcut : ¬ CutRejection wire)
    (w : World) :
    outcome (checked (collected wire)) = outcome (checked (ending (streamTo receiver wire w))) ∧
      finalState (streamTo receiver wire w) = w.receive (okBody wire) ∧
      ∀ resp, checked (collected wire) = .ok resp → (okBody wire).flatten = resp.body := by
  cases wire with
  | threw e => exact ⟨rfl, (receive_nil w).symm, fun _ hok => by cases hok⟩
  | failed e => exact ⟨rfl, (receive_nil w).symm, fun _ hok => by cases hok⟩
  | answered status chunks cut =>
    by_cases hstatus : status = HTTP_OK
    · subst hstatus
      have hstream := stream_ok_apply (receiveChunk receiver) chunks cut w
      rw [deliver_of_accepting h] at hstream
      rw [streamTo, hstream]
      cases cut with
      | some e => exact ⟨rfl, rfl, fun _ hok => by cases hok⟩
      | none =>
        exact ⟨rfl, rfl, fun _ hok => congrArg Httpclient.Response.body (Except.ok.inj hok)⟩
    · obtain ⟨e, he, -⟩ := acceptOk_error hstatus
      have hcheck : checkHttpCode status HTTP_OK = .error e := he
      have hnone : okBody (.answered status chunks cut) = [] := if_neg hstatus
      rw [streamTo, stream_of_error he, hnone, receive_nil]
      cases cut with
      | some cause => exact absurd ⟨status, chunks, cause, rfl, hstatus⟩ hcut
      | none =>
        have hcollected : checked (collected (.answered status chunks none)) = .error (.thrown e) := by
          simp only [checked, collected, Wire.collect, Except.mapError, bind, Except.bind, checkResult,
            hcheck, Except.map]
        rw [hcollected]
        exact ⟨rfl, rfl, fun _ hok => by cases hok⟩

/-- A cut response with another status ends the two in different exceptions. -/
theorem streamTo_disagrees {wire : Wire} (hcut : CutRejection wire) (receiver : ContentReceiver)
    (w : World) :
    ∃ n e, checked (collected wire) = .error (.thrown (.httpLibError n)) ∧
      checked (ending (streamTo receiver wire w)) = .error (.thrown e) ∧ e ≠ .httpLibError n := by
  obtain ⟨status, chunks, cause, rfl, hstatus⟩ := hcut
  obtain ⟨e, he, hcases⟩ := acceptOk_error hstatus
  rw [streamTo, stream_of_error he]
  refine ⟨_, e, rfl, rfl, ?_⟩
  obtain ⟨rfl, -⟩ | ⟨rfl, -⟩ := hcases <;> nofun

/-- Attempts from alike states agree, and the receiver has then been given the body. -/
theorem attempt_agrees (h : Accepting receiver) (hw : Alike w w') (hstart : w'.received = [])
    (a : Attempt) (hcut : ¬ CutRejection (met env uri w)) :
    outcome (consumed env a uri collect w) = outcome (consumed env a uri (streamTo receiver) w') ∧
      Alike (consumedState env a uri collect w) (consumedState env a uri (streamTo receiver) w') ∧
      (consumedState env a uri (streamTo receiver) w').received = okBody (met env uri w) ∧
      ∀ resp, consumed env a uri collect w = .ok resp →
        (okBody (met env uri w)).flatten = resp.body := by
  obtain ⟨houtcome, hfinal, hbody⟩ := streamTo_agrees h hcut (meeting env a uri w')
  obtain ⟨hcollect, -⟩ := consumed_collect env uri a w
  have hconsumed : outcome (consumed env a uri collect w) =
      outcome (consumed env a uri (streamTo receiver) w') := by
    rw [hcollect, houtcome, consumed, met_eq_of_alike hw]
  refine ⟨hconsumed, consumedState_alike hw collect_respects (streamTo_respects receiver) hconsumed,
    ?_, fun resp hresp => hbody resp (hcollect.symm.trans hresp)⟩
  have hreceived : (meeting env a uri w').received = [] :=
    (congrArg Prod.fst (meeting_data env a uri w')).trans hstart
  rw [consumedState, ← met_eq_of_alike hw, hfinal]
  change (meeting env a uri w').received ++ _ = _
  rw [hreceived, List.nil_append]

/-- After a first attempt that both end unauthorized, both call `onAuthError` from alike states. -/
theorem rejected_agrees (h : Accepting receiver) (hw : Alike w w') (hstart : w'.received = [])
    (hunauthorized : consumed env .first uri collect w = unauthorized) :
    Rejected (met env uri w) ∧
      consumedState env .first uri collect w =
        (meeting env .first uri w).log (.ended .download .first unauthorized) ∧
      consumed env .first uri (streamTo receiver) w' = unauthorized ∧
      Alike (consumedState env .first uri collect w)
        (consumedState env .first uri (streamTo receiver) w') ∧
      (consumedState env .first uri (streamTo receiver) w').received = [] := by
  obtain ⟨hcollect, hstate⟩ := consumed_collect env uri .first w
  have hrejected : Rejected (met env uri w) :=
    (checked_collected_unauthorized_iff _).mp (hcollect.symm.trans hunauthorized)
  obtain ⟨chunks, hmet⟩ := hrejected
  have hcut : ¬ CutRejection (met env uri w) := by
    intro hcut
    obtain ⟨status, chunks', e, heq, -⟩ := hcut
    rw [hmet] at heq
    cases heq
  obtain ⟨houtcome, halike, hreceived, -⟩ := attempt_agrees h hw hstart .first hcut
  rw [hunauthorized] at houtcome
  rw [hmet] at hreceived
  refine ⟨⟨chunks, hmet⟩, ?_, outcome_eq_unauthorized_iff.mp houtcome.symm, halike, hreceived⟩
  rw [consumedState, hstate, hunauthorized]
  rfl

/-- Unless an attempt meets a cut rejection, the requests of the two downloads agree. -/
theorem fetch_agrees (h : Accepting receiver) (hw : Alike w w') (hstart : w'.received = [])
    (hcut : ¬ MeetsCutRejection env uri w) :
    outcome (ending (retryHandler env .download uri (fetch env uri collect) w)) =
        outcome (ending (retryHandler env .download uri (fetch env uri (streamTo receiver)) w')) ∧
      Alike (finalState (retryHandler env .download uri (fetch env uri collect) w))
        (finalState (retryHandler env .download uri (fetch env uri (streamTo receiver)) w')) ∧
      ∀ resp, ending (retryHandler env .download uri (fetch env uri collect) w) = .ok resp →
        (finalState
          (retryHandler env .download uri (fetch env uri (streamTo receiver)) w')).received.flatten =
            resp.body := by
  have hpasses := passesThrown_streamTo receiver
  have hissued : Alike (w.log (.issued .download)) (w'.log (.issued .download)) := hw.log _
  have hfirst : ¬ CutRejection (met env uri (w.log (.issued .download))) := fun hmet =>
    hcut ⟨.first, _, .first, hmet⟩
  obtain ⟨houtcome, halike, hreceived, hbody⟩ := attempt_agrees h hissued hstart .first hfirst
  cases fetchRun env uri collect w with
  | once honce =>
    have honce' : env.authErrorHandler.isSome = true →
        consumed env .first uri (streamTo receiver) (w'.log (.issued .download)) ≠ unauthorized := by
      intro hregistered hunauthorized'
      rw [hunauthorized'] at houtcome
      exact honce hregistered (outcome_eq_unauthorized_iff.mp houtcome)
    obtain ⟨hending, hfinal⟩ := fetch_once passesThrown_collect honce
    obtain ⟨hending', hfinal'⟩ := fetch_once hpasses honce'
    rw [hending, hfinal, hending', hfinal', ← houtcome]
    refine ⟨rfl, halike.log _, fun resp hresp => ?_⟩
    rw [← hbody resp hresp, ← hreceived]
    rfl
  | @abandoned onAuthError f w₂ henv hunauthorized hcall =>
    obtain ⟨-, -, hunauthorized', halike, -⟩ := rejected_agrees h hissued hstart hunauthorized
    have hcoupled := callOnAuthError_coupled (some .download) onAuthError _ _ halike
    rw [hcall] at hcoupled
    obtain ⟨w₂', hcall'⟩ := eq_error_of_ending hcoupled.1.symm
    rw [hcall'] at hcoupled
    obtain ⟨hending, hfinal⟩ := fetch_abandoned passesThrown_collect henv hunauthorized hcall
    obtain ⟨hending', hfinal'⟩ := fetch_abandoned hpasses henv hunauthorized' hcall'
    rw [hending, hfinal, hending', hfinal']
    exact ⟨rfl, hcoupled.2.log _, nofun⟩
  | @twice onAuthError w₂ henv hunauthorized hcall =>
    obtain ⟨⟨chunks, hmet⟩, hstate, hunauthorized', halike, hnothing⟩ :=
      rejected_agrees h hissued hstart hunauthorized
    have hcoupled := callOnAuthError_coupled (some .download) onAuthError _ _ halike
    have hcalled := callOnAuthError_received (some .download) onAuthError
      (consumedState env .first uri (streamTo receiver) (w'.log (.issued .download)))
    rw [hnothing] at hcalled
    rw [hcall] at hcoupled
    obtain ⟨w₂', hcall'⟩ := eq_ok_of_ending hcoupled.1.symm
    rw [hcall'] at hcoupled hcalled
    have hsecond : ¬ CutRejection (met env uri w₂) := fun hmet₂ =>
      hcut ⟨.second, w₂, .second ⟨chunks, none, hmet⟩ henv (hstate ▸ hcall), hmet₂⟩
    have halike₁ : Alike w₂ w₂' := hcoupled.2
    have hempty : w₂'.received = [] := hcalled
    obtain ⟨houtcome₂, halike₂, hreceived₂, hbody₂⟩ :=
      attempt_agrees h halike₁ hempty .second hsecond
    obtain ⟨hending, hfinal⟩ := fetch_twice passesThrown_collect henv hunauthorized hcall
    obtain ⟨hending', hfinal'⟩ := fetch_twice hpasses henv hunauthorized' hcall'
    rw [hending, hfinal, hending', hfinal', ← houtcome₂]
    refine ⟨rfl, halike₂.log _, fun resp hresp => ?_⟩
    rw [← hbody₂ resp hresp, ← hreceived₂]
    rfl

/-! ### Disagreement -/

/-- The requests and the calls of `onAuthError` in a state. -/
def World.visible (w : World) : List Event := w.trace.filter Event.isVisible

/-- An event is added to what is visible when it is visible itself. -/
theorem visible_log (w : World) (e : Event) :
    (w.log e).visible = w.visible ++ [e].filter Event.isVisible := List.filter_append _ _

/-- They only become more. -/
theorem requestRules_visible : RequestRules (fun w w' => w.visible.length ≤ w'.visible.length) where
  log e w _ := by
    rw [visible_log, List.length_append]
    omega
  signal s w :=
    le_of_eq (congrArg List.length ((visible_log w (.signal s)).trans (List.append_nil _)).symm)
  setting _ _ _ _ := le_refl _
  data _ _ _ _ := le_refl _

instance : Std.Refl (fun w w' : World => w.visible.length ≤ w'.visible.length) := ⟨fun _ => le_refl _⟩

instance : IsTrans World (fun w w' => w.visible.length ≤ w'.visible.length) :=
  ⟨fun _ _ _ h h' => le_trans h h'⟩

/-- A call of `onAuthError` is one more. -/
theorem callOnAuthError_visible (d : Option Exchange) (onAuthError : List Event → RestoreCode)
    (w : World) :
    w.visible.length < (finalState (callOnAuthError d onAuthError w)).visible.length := by
  have hmore : ∃ more, (finalState (callOnAuthError d onAuthError w)).trace =
      w.trace ++ .onAuthError d :: more := by
    obtain ⟨quiet, -, hcall⟩ := callOnAuthError_trace d onAuthError w
    obtain ⟨f, w', hrun, htrace⟩ | ⟨w', hrun, htrace⟩ := hcall <;>
    · rw [hrun]
      exact ⟨_, htrace⟩
  obtain ⟨more, htrace⟩ := hmore
  simp only [World.visible, htrace, List.filter_append, List.filter_cons, Event.isVisible, if_true,
    List.length_append, List.length_cons]
  omega

/-- In alike states the same is visible. -/
theorem Alike.visible_eq (hw : Alike w w') : w.visible = w'.visible :=
  congrArg (List.filter Event.isVisible) hw.2

/-- What consumes a reply adds nothing that is visible. -/
theorem consumedState_visible {a : Attempt} {consume : Consumer}
    (h : ∀ wire, Respects Alike (consume wire)) :
    (consumedState env a uri consume w).visible = (meeting env a uri w).visible := by
  have hkeep : Alike (meeting env a uri w) _ := h (met env uri w) (meeting env a uri w)
  rw [consumedState, visible_log, ← hkeep.visible_eq]
  exact List.append_nil _

/-- After a first attempt that met a cut rejection, only `downloadWithReceiver` can go on, and
does so with a call of `onAuthError`. -/
theorem first_disagrees (hw : Alike w w')
    (hcut : CutRejection (met env uri (w.log (.issued .download))))
    (hagree : outcome (ending (retryHandler env .download uri (fetch env uri collect) w)) =
      outcome (ending (retryHandler env .download uri (fetch env uri (streamTo receiver)) w'))) :
    (finalState (retryHandler env .download uri (fetch env uri collect) w)).visible.length <
      (finalState
        (retryHandler env .download uri (fetch env uri (streamTo receiver)) w')).visible.length := by
  have hpasses := passesThrown_streamTo receiver
  have hissued : Alike (w.log (.issued .download)) (w'.log (.issued .download)) := hw.log _
  obtain ⟨n, e, hfailed, hthrown, hne⟩ := streamTo_disagrees hcut receiver
    (meeting env .first uri (w'.log (.issued .download)))
  have hcollect := (consumed_collect env uri .first (w.log (.issued .download))).1
  have hconsumed : consumed env .first uri (streamTo receiver) (w'.log (.issued .download)) =
      .error (.thrown e) := by
    rw [consumed, ← met_eq_of_alike hissued]
    exact hthrown
  have hnever : env.authErrorHandler.isSome = true →
      consumed env .first uri collect (w.log (.issued .download)) ≠ unauthorized := by
    intro _
    rw [hcollect, hfailed]
    nofun
  obtain ⟨hending, hfinal⟩ := fetch_once passesThrown_collect hnever
  rw [hending, hcollect, hfailed] at hagree
  have hfirst : (finalState (retryHandler env .download uri (fetch env uri collect) w)).visible =
      (consumedState env .first uri (streamTo receiver) (w'.log (.issued .download))).visible := by
    rw [hfinal, visible_log, consumedState_visible collect_respects,
      consumedState_visible (streamTo_respects receiver), (meeting_alike hissued .first).visible_eq]
    exact List.append_nil _
  rw [hfirst]
  cases fetchRun env uri (streamTo receiver) w' with
  | once honce =>
    rw [(fetch_once hpasses honce).1, hconsumed] at hagree
    exact absurd (Fault.thrown.inj (Except.error.inj hagree)).symm hne
  | @abandoned onAuthError f w₂ henv hunauthorized hcall =>
    have hcalled := callOnAuthError_visible (some .download) onAuthError
      (consumedState env .first uri (streamTo receiver) (w'.log (.issued .download)))
    rw [hcall] at hcalled
    rw [(fetch_abandoned hpasses henv hunauthorized hcall).2, visible_log]
    exact lt_of_lt_of_le hcalled (List.length_append ▸ Nat.le_add_right _ _)
  | @twice onAuthError w₂ henv hunauthorized hcall =>
    have hcalled := callOnAuthError_visible (some .download) onAuthError
      (consumedState env .first uri (streamTo receiver) (w'.log (.issued .download)))
    rw [hcall] at hcalled
    have hsending : Sending env .download (fetch env uri (streamTo receiver)) :=
      .toReceiver (formatDownloadPath uri) receiver
    have hsecond := requestRules_visible.attemptRules.wrappedRequest hsending .second uri w₂
    rw [(fetch_twice hpasses henv hunauthorized hcall).2, visible_log,
      ← (wrappedRequest_fetch env uri hpasses .second w₂).2]
    exact lt_of_lt_of_le hcalled (hsecond.trans (List.length_append ▸ Nat.le_add_right _ _))

/-- A second attempt that meets a cut rejection ends the two downloads in different exceptions. -/
theorem second_disagrees (h : Accepting receiver) (hw : Alike w w') (hstart : w'.received = [])
    {onAuthError : List Event → RestoreCode} {w₂ : World}
    (hrejected : Rejected (met env uri (w.log (.issued .download))))
    (henv : env.authErrorHandler = some onAuthError)
    (hcall : callOnAuthError (some .download) onAuthError
      ((meeting env .first uri (w.log (.issued .download))).log
        (.ended .download .first unauthorized)) = .ok () w₂)
    (hcut : CutRejection (met env uri w₂)) :
    outcome (ending (retryHandler env .download uri (fetch env uri collect) w)) ≠
      outcome (ending (retryHandler env .download uri (fetch env uri (streamTo receiver)) w')) := by
  have hpasses := passesThrown_streamTo receiver
  have hissued : Alike (w.log (.issued .download)) (w'.log (.issued .download)) := hw.log _
  have hunauthorized : consumed env .first uri collect (w.log (.issued .download)) = unauthorized :=
    (consumed_collect env uri .first _).1.trans ((checked_collected_unauthorized_iff _).mpr hrejected)
  obtain ⟨-, hstate, hunauthorized', halike, -⟩ := rejected_agrees h hissued hstart hunauthorized
  rw [← hstate] at hcall
  have hcoupled := callOnAuthError_coupled (some .download) onAuthError _ _ halike
  rw [hcall] at hcoupled
  obtain ⟨w₂', hcall'⟩ := eq_ok_of_ending hcoupled.1.symm
  rw [hcall'] at hcoupled
  have halike₂ : Alike w₂ w₂' := hcoupled.2
  obtain ⟨n, e, hfailed, hthrown, hne⟩ := streamTo_disagrees hcut receiver
    (meeting env .second uri w₂')
  have hconsumed : consumed env .second uri (streamTo receiver) w₂' = .error (.thrown e) := by
    rw [consumed, ← met_eq_of_alike halike₂]
    exact hthrown
  rw [(fetch_twice passesThrown_collect henv hunauthorized hcall).1,
    (fetch_twice hpasses henv hunauthorized' hcall').1, (consumed_collect env uri .second w₂).1,
    hfailed, hconsumed]
  intro hagree
  exact hne (Fault.thrown.inj (Except.error.inj hagree)).symm

/-- `getBody` ends as its request does, with the body of the response. -/
theorem getBody_spec (env : Environment) (uri : URI) (w : World) :
    ending (getBody env uri w) =
        (ending (retryHandler env .download uri (fetch env uri collect) w)).map
          Httpclient.Response.body ∧
      finalState (getBody env uri w) =
        finalState (retryHandler env .download uri (fetch env uri collect) w) := by
  rw [getBody_eq]
  cases h : retryHandler env .download uri (fetch env uri collect) w with
  | ok resp t => rw [Effect.bind_of_ok h]; exact ⟨rfl, rfl⟩
  | error f t => rw [Effect.bind_of_error h]; exact ⟨rfl, rfl⟩

/-- The outcome does not depend on what is returned. -/
theorem outcome_map {α β : Type} (r : Except (Fault Exn) α) (f : α → β) :
    outcome (r.map f) = outcome r := by
  cases r <;> rfl

/-- Outcomes are equal when the same faults end both. -/
theorem outcome_eq_iff {α β : Type} {r : Except (Fault Exn) α} {r' : Except (Fault Exn) β} :
    outcome r = outcome r' ↔ ∀ f, r = .error f ↔ r' = .error f := by
  cases r with
  | ok a =>
    cases r' with
    | ok b => simp [outcome, Except.map]
    | error f' => simp [outcome, Except.map]
  | error f =>
    cases r' with
    | ok b => simp [outcome, Except.map]
    | error f' =>
      constructor
      · intro h g
        obtain rfl : f = f' := Except.error.inj h
        simp only [Except.error.injEq]
      · intro h
        exact congrArg Except.error (Except.error.inj ((h f).mp rfl)).symm

/-- Without a rejection that is cut both downloads agree. -/
theorem downloadsAgree_of_not_cut (h : Accepting receiver) (hcut : ¬ MeetsCutRejection env uri w) :
    DownloadsAgree env uri receiver w := by
  obtain ⟨hbody, hbodyState⟩ := getBody_spec env uri w
  obtain ⟨hstream, hstreamState⟩ := downloadWithReceiver_spec env uri receiver w
  have hstart : Alike w { w with received := [] } := ⟨rfl, rfl⟩
  obtain ⟨houtcome, halike, hreceived⟩ := fetch_agrees h hstart rfl hcut
  have hsame : outcome (ending (getBody env uri w)) =
      outcome (ending (downloadWithReceiver env uri receiver w)) := by
    rw [hbody, hstream, outcome_map, outcome_map, houtcome]
  constructor
  · rw [hbodyState, hstreamState]
    exact halike.visible_eq
  · exact outcome_eq_iff.mp hsame
  · intro body hok
    rw [hok] at hsame
    refine ⟨?_, ?_⟩
    · cases hends : ending (downloadWithReceiver env uri receiver w) with
      | ok u => rfl
      | error f => rw [hends] at hsame; cases hsame
    · rw [hbody] at hok
      rw [hstreamState]
      cases hresp : ending (retryHandler env .download uri (fetch env uri collect) w) with
      | error f => rw [hresp] at hok; cases hok
      | ok resp =>
        rw [hresp] at hok
        exact (hreceived resp hresp).trans (Except.ok.inj hok)

/-- Where both downloads agree, no attempt meets a rejection that is cut. -/
theorem not_cut_of_downloadsAgree (h : Accepting receiver)
    (hagree : DownloadsAgree env uri receiver w) : ¬ MeetsCutRejection env uri w := by
  obtain ⟨hbody, hbodyState⟩ := getBody_spec env uri w
  obtain ⟨hstream, hstreamState⟩ := downloadWithReceiver_spec env uri receiver w
  have hsame : outcome (ending (retryHandler env .download uri (fetch env uri collect) w)) =
      outcome (ending (retryHandler env .download uri (fetch env uri (streamTo receiver))
        { w with received := [] })) := by
    have hends := outcome_eq_iff.mpr hagree.throws
    rwa [hbody, hstream, outcome_map, outcome_map] at hends
  have hstart : Alike w { w with received := [] } := ⟨rfl, rfl⟩
  intro hmeets
  obtain ⟨a, s, hattempt, hcut⟩ := hmeets
  have hfirst : ¬ CutRejection (met env uri (w.log (.issued .download))) := by
    intro hcut
    have hmore := first_disagrees hstart hcut hsame
    have hvisible := congrArg List.length hagree.visible
    rw [hbodyState, hstreamState] at hvisible
    exact absurd hvisible (ne_of_lt hmore)
  cases hattempt with
  | first => exact hfirst hcut
  | second hunauthorized henv hcall =>
    obtain ⟨chunks, cut, hmet⟩ := hunauthorized
    have hrejected : Rejected (met env uri (w.log (.issued .download))) := by
      cases cut with
      | none => exact ⟨chunks, hmet⟩
      | some e => exact absurd ⟨_, chunks, e, hmet, by decide⟩ hfirst
    exact second_disagrees h hstart rfl hrejected henv hcall hcut hsame

end Agreement

/-- The two downloads agree exactly when no attempt meets a response with another status than
200 that a failure cuts; a receiver is given bytes of responses with the status 200 only, and
the download throws when it refuses some. -/
theorem downloadsAgree_iff (env : Environment) (uri : URI) (w : World) :
    ((∀ receiver, Accepting receiver → DownloadsAgree env uri receiver w) ↔
        ¬ MeetsCutRejection env uri w) ∧
      (∀ receiver, OkBytesOnly env uri receiver w) ∧
      ∀ receiver, ThrowsWhenRefused env uri receiver w := by
  refine ⟨⟨fun hagree => ?_, fun hcut receiver h => downloadsAgree_of_not_cut h hcut⟩,
    fun receiver => okBytesOnly env uri receiver w,
    fun receiver => throwsWhenRefused env uri receiver w⟩
  have haccepting : Accepting fun _ _ => .more := fun _ _ => rfl
  exact not_cut_of_downloadsAgree haccepting (hagree _ haccepting)

/-- A server that cuts a response with the status 401. -/
def cuttingEnvironment : Environment := { idleEnvironment with
  server := fun _ _ => { wire := .answered HTTP_UNAUTHORIZED [] (some ⟨.read, by decide⟩) } }

/-- `getBody` reports the failure of the connection, and `downloadWithReceiver` the status. -/
theorem cut_unauthorized_disagrees :
    ¬ ∀ receiver, Accepting receiver → DownloadsAgree cuttingEnvironment
      endpointClient.hawkbitURI receiver { client := endpointClient } := by
  intro hagree
  have hthrows := (hagree (fun _ _ => .more) fun _ _ => rfl).throws
    (.thrown .unauthorizedException)
  exact absurd (hthrows.mpr rfl) nofun

end Up2date.Ddi
