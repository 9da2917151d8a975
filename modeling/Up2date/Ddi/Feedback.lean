import Up2date.Ddi.Delivery
import Up2date.Ddi.PayloadShape

/-!
# What the feedback says of its action

The id of an action is a JSON string. It is read by `std::stoi`, and `std::to_string` writes
it again unless it is negative, so the feedback carries the id that was received exactly when
this was a canonical numeral. The other parts of the response arrive as they were given.
-/

namespace Up2date.Ddi

open Cxx Uri Httpclient Computability
open Json (Value ReadsBack)

/-- The id of the action in a body. -/
def ActionId (env : Environment) (body id : Str) : Prop :=
  ∃ document, env.parse (cstr body) = some document ∧ document.Has "id".toList (.string id)

/-- A document that reports a response to the action with an id. -/
structure Reports (document : Value) (id : Str) (response : Response) : Prop where
  id : document.Has "id".toList (.string id)
  finished : ∃ status result, document.Has "status".toList status ∧
    status.Has "result".toList result ∧
    result.Has "finished".toList (.string response.finished.toText)
  execution : ∃ status, document.Has "status".toList status ∧
    status.Has "execution".toList (.string response.execution.toText)
  details : ∃ status, document.Has "status".toList status ∧
    status.Has "details".toList (.array (response.details.map Value.string))

/-- Feedback is posted with a text. -/
def Event.Posts (text : Str) : Event → Prop
  | .sent .feedback _ request _ => request.method = .post ∧ request.body = text
  | _ => True

/-- The feedback of a delivery is posted with one text, which reads as a report of the response
to the action that was received. -/
def Faithful (env : Environment) (w : World) (body : Str) (cliResp : Response) (document : Value)
    (w' : World) : Prop :=
  (∃ seg, (finalState (doPoll env w)).trace = w'.trace ++ seg ∧
    ∀ e ∈ seg, Event.Posts (cstr (env.write document)) e) ∧
  ∃ id posted, ActionId env body id ∧ env.parse (cstr (env.write document)) = some posted ∧
    Reports posted id cliResp

/-- The feedback of a poll is faithful. -/
def FeedbackFaithful (env : Environment) (w : World) : Prop :=
  ∀ body followURI cliResp document w', Delivers env w body followURI cliResp document w' →
    Faithful env w body cliResp document w'

/-- A decimal numeral without sign, blanks and leading zeros. -/
def Canonical (id : Str) : Prop := ∃ n, id = decimal n

/-! ### The text of the feedback -/

/-- The events of other requests post nothing. -/
theorem Event.IsOf.posts {e : Event} {x : Exchange} (h : e.IsOf x) (hx : x ≠ .feedback) (text : Str) :
    e.Posts text := by
  cases e with
  | sent y =>
    obtain rfl : y = x := h
    cases y <;> trivial
  | _ => trivial

/-- The request that posts feedback posts the text of its document. -/
theorem postFeedback_posts (env : Environment) (followURI : URI) (document : Value) :
    Respects (GrowsBy World.trace (letters (Event.Posts (cstr (env.write document))))∗)
      (postFeedback env followURI document) := by
  intro w
  let text := cstr (env.write document)
  let Posted : Contract := fun _ request _ _ => request.method = .post ∧ request.body = text
  have hsends : Sends Posted (fun cli => do
      let path ← ofDecoder (Decoder.demand (formatFeedbackPath followURI))
      let w ← get
      cli.post env path w.client.defaultHeaders text applicationJson) := by
    apply sends_feedback
    intro path _
    apply (sends_collected env .post (fun _ => path) text applicationJson).mono
    intro w request wire result hC
    exact ⟨hC.1, hC.2.2.1⟩
  obtain ⟨seg, htrace, hrequest⟩ := retryHandler_trace hsends env .feedback followURI w
  refine ⟨seg, mem_letters_kstar.mpr fun e he => ?_, htrace⟩
  have hfulfils := (hrequest.mem e he).2
  cases e with
  | sent x a request wire =>
    obtain ⟨w, result, hposted⟩ := hfulfils
    cases x <;> first | exact hposted | trivial
  | _ => trivial

/-- Behind the handler a poll posts nothing but the document of its response. -/
theorem doPoll_posts {env : Environment} {w w' : World} {body : Str} {followURI : URI}
    {cliResp : Response} {document : Value} (h : Delivers env w body followURI cliResp document w') :
    ∃ seg, (finalState (doPoll env w)).trace = w'.trace ++ seg ∧
      ∀ e ∈ seg, Event.Posts (cstr (env.write document)) e := by
  have hrules : CallbackRules env
      (GrowsBy World.trace (letters (Event.Posts (cstr (env.write document))))∗) :=
    callbackRules_letters env (fun _ => trivial) (fun _ _ => trivial) (fun _ _ => trivial)
      fun e he => he.posts nofun _
  obtain ⟨seg, hseg, htrace⟩ :=
    hrules.listenerRules.deliverFeedback (postFeedback_posts env followURI document) cliResp w'
  rw [(doPoll_of_delivers h).2]
  exact ⟨seg, htrace, mem_letters_kstar.mp hseg⟩

/-! ### The id -/

/-- The identifier of a cancel action is read from its text. -/
theorem cancelAction_id {env : Environment} {body id : Str} {action : CancelAction}
    (h : CancelAction.fromString env.parse body = .ok action) (hid : ActionId env body id) :
    stoi (cstr id) = .ok action.id := by
  obtain ⟨document, hparse, hmember⟩ := hid
  simp only [CancelAction.fromString, parseDocument, hparse, Decoder.bind_eq_ok_iff,
    Decoder.pure_eq_ok_iff, stoiMember_eq_ok_iff, Except.ok.injEq] at h
  obtain ⟨_, rfl, _, _, _, _, _, _, _, _, n, ⟨text, htext, hn⟩, rfl⟩ := h
  rw [Value.string.inj (hmember.unique htext)]
  exact hn

/-- The identifier of a deployment is read from its text. -/
theorem deploymentBase_id {env : Environment} {body id : Str} {action : DeploymentBase}
    (h : DeploymentBase.from env.parse body = .ok action) (hid : ActionId env body id) :
    stoi (cstr id) = .ok action.id := by
  obtain ⟨document, hparse, hmember⟩ := hid
  simp only [DeploymentBase.from, parseDocument, hparse, Decoder.bind_eq_ok_iff,
    Decoder.pure_eq_ok_iff, stoiMember_eq_ok_iff, Except.ok.injEq] at h
  obtain ⟨_, rfl, _, _, _, _, _, _, n, ⟨text, htext, hn⟩, h⟩ := h
  obtain ⟨_, _, _, _, _, _, _, _, _, _, _, _, rfl⟩ := h
  rw [Value.string.inj (hmember.unique htext)]
  exact hn

/-- The document of a delivery is filled with the number that the received id begins with. -/
theorem Delivers.filled {env : Environment} {w w' : World} {body : Str} {followURI : URI}
    {cliResp : Response} {document : Value} (h : Delivers env w body followURI cliResp document w') :
    ∃ actionId members, document = .object members ∧
      fillResponseDocument (some cliResp) [] actionId = .ok members ∧
      ∀ id, ActionId env body id → stoi (cstr id) = .ok actionId := by
  cases h with
  | cancelAction _ _ _ _ hdecode _ hdocument =>
    exact ⟨_, _, rfl, hdocument, fun id hid => cancelAction_id hdecode hid⟩
  | deploymentBase _ _ _ _ hdecode _ hdocument =>
    exact ⟨_, _, rfl, hdocument, fun id hid => deploymentBase_id hdecode hid⟩

/-- The members of a filled document. -/
theorem fillResponseDocument_members {cliResp : Response} {actionId : ℤ}
    {members : List (Str × Value)}
    (h : fillResponseDocument (some cliResp) [] actionId = .ok members) :
    members = ("status".toList, .object
      [("result".toList, .object [("finished".toList, .string cliResp.finished.toText)]),
        ("execution".toList, .string cliResp.execution.toText),
        ("details".toList, .array (cliResp.details.map Value.string))]) ::
      if actionId ≥ 0 then [("id".toList, .string (stdToString actionId))] else [] := by
  rw [← Except.ok.inj h]
  split <;> rfl

/-- A filled document has an exact text. -/
theorem isExact_filled {cliResp : Response} {actionId : ℤ} {members : List (Str × Value)}
    (h : fillResponseDocument (some cliResp) [] actionId = .ok members) :
    (Value.object members).IsExact := by
  rw [fillResponseDocument_members h]
  split <;>
    simp only [Value.isExact_object_iff, List.forall_mem_cons, Value.IsExact.string,
      Value.isExact_array_map Value.IsExact.string, List.not_mem_nil, IsEmpty.forall_iff,
      implies_true, and_self]

/-- Only canonical ids are written as they were read. -/
theorem stdToString_eq_iff {id : Str} {actionId : ℤ} (h : stoi (cstr id) = .ok actionId) :
    actionId ≥ 0 ∧ stdToString actionId = id ↔ Canonical id := by
  constructor
  · intro ⟨hnonneg, hid⟩
    obtain ⟨n, rfl⟩ := Int.eq_ofNat_of_zero_le hnonneg
    exact ⟨n, hid.symm⟩
  · intro ⟨n, hn⟩
    rw [hn, cstr_decimal, stoi_decimal] at h
    split at h
    · cases h
      exact ⟨Int.natCast_nonneg n, hn.symm⟩
    · cases h

/-- A filled document reports the response, and the id when it was canonical. -/
theorem reports_filled_iff {cliResp : Response} {actionId : ℤ} {members : List (Str × Value)}
    {id : Str} (h : fillResponseDocument (some cliResp) [] actionId = .ok members)
    (hid : stoi (cstr id) = .ok actionId) :
    Reports (.object members) id cliResp ↔ Canonical id := by
  rw [fillResponseDocument_members h, ← stdToString_eq_iff hid]
  constructor
  · intro hreports
    have hmember := hreports.id
    split at hmember
    next hnonneg =>
      have hwritten := Option.some.inj hmember
      exact ⟨hnonneg, Value.string.inj hwritten⟩
    next => cases hmember
  · intro ⟨hnonneg, hwritten⟩
    rw [if_pos hnonneg, hwritten]
    exact ⟨rfl, ⟨_, _, rfl, rfl, rfl⟩, ⟨_, rfl, rfl⟩, ⟨_, rfl, rfl⟩⟩

/-- The feedback of a delivery is faithful if and only if the id was canonical. -/
theorem faithful_iff {env : Environment} (hjson : ReadsBack env.parse env.write) {w w' : World}
    {body : Str} {followURI : URI} {cliResp : Response} {document : Value}
    (h : Delivers env w body followURI cliResp document w') :
    Faithful env w body cliResp document w' ↔ ∃ id, ActionId env body id ∧ Canonical id := by
  obtain ⟨actionId, members, rfl, hfilled, hstoi⟩ := h.filled
  have hparse := hjson _ (isExact_filled hfilled)
  apply (and_iff_right (doPoll_posts h)).trans
  constructor
  · intro ⟨id, posted, hid, hposted, hreports⟩
    rw [Option.some.inj (hposted.symm.trans hparse)] at hreports
    exact ⟨id, hid, (reports_filled_iff hfilled (hstoi id hid)).mp hreports⟩
  · intro ⟨id, hid, hcanonical⟩
    exact ⟨id, _, hid, hparse, (reports_filled_iff hfilled (hstoi id hid)).mpr hcanonical⟩

/-- The feedback of a poll is faithful if and only if the ids of its actions are canonical. -/
theorem feedbackFaithful_iff (env : Environment) (hjson : ReadsBack env.parse env.write)
    (w : World) :
    FeedbackFaithful env w ↔ ∀ body followURI cliResp document w',
      Delivers env w body followURI cliResp document w' →
        ∃ id, ActionId env body id ∧ Canonical id :=
  forall_congr' fun _ => forall₄_congr fun _ _ _ _ => forall_congr' fun h => faithful_iff hjson h

/-- The id in the text of a cancelation. -/
theorem actionId_cancelDocument_iff (id id' : Str) (response : Response) (reply : Wire) :
    ActionId (cancelEnvironment id response reply) (Json.write (cancelDocument id)) id' ↔ id' = id := by
  have hparse := Json.readsBack_parse_write _ (isExact_cancelDocument id)
  constructor
  · intro ⟨document, hdocument, hmember⟩
    obtain rfl : cancelDocument id = document := Option.some.inj (hparse.symm.trans hdocument)
    have hid := Option.some.inj hmember
    exact (Value.string.inj hid).symm
  · rintro rfl
    exact ⟨_, hparse, rfl⟩

/-- The feedback on the cancelation of action 7 is faithful. -/
theorem cancelEnvironment_seven_faithful :
    FeedbackFaithful (cancelEnvironment "7".toList listenedResponse (.answered HTTP_OK [] none))
      { client := endpointClient } := by
  apply (feedbackFaithful_iff _ Json.readsBack_parse_write _).mpr
  intro body followURI cliResp document w' h
  have hseven : stoi (cstr "7".toList) = .ok 7 := by decide
  obtain ⟨_, _, hdelivers⟩ :=
    cancelEnvironment_delivers hseven listenedResponse (.answered HTTP_OK [] none)
  obtain ⟨rfl, _⟩ := hdelivers.unique h
  exact ⟨"7".toList, (actionId_cancelDocument_iff _ _ _ _).mpr rfl, 7, by decide⟩

/-- The feedback on the cancelation of action 007 is about action 7. -/
theorem cancelEnvironment_zeros_not_faithful :
    ¬ FeedbackFaithful (cancelEnvironment "007".toList listenedResponse
      (.answered HTTP_OK [] none)) { client := endpointClient } := by
  intro h
  have hzeros : stoi (cstr "007".toList) = .ok 7 := by decide
  obtain ⟨_, _, hdelivers⟩ :=
    cancelEnvironment_delivers hzeros listenedResponse (.answered HTTP_OK [] none)
  have hfaithful := h _ _ _ _ _ hdelivers
  obtain ⟨id, hid, n, hn⟩ := (faithful_iff Json.readsBack_parse_write hdelivers).mp hfaithful
  rw [(actionId_cancelDocument_iff _ _ _ _).mp hid] at hn
  have hseven : n = 7 := by
    rw [← digitsValue_decimal n, ← hn]
    decide
  rw [hseven] at hn
  revert hn
  decide

end Up2date.Ddi
