import Up2date.Dps.Provisioning
import Up2date.Json.Text

/-!
# How replies are classified

A reply of the provisioning service is a transport error, an unexpected status, or a body that
is a JSON object with the strings asked for, or is not. Both calls tell these apart when the
body is not JSON, or lacks a member, or has strings without null characters for members. The
presence of a member says nothing about its type, a document that is not an object has no
members to look for, and the token exchanger refuses the status 201.
-/

namespace Up2date.Dps

open Cxx Uri Httpclient
open Json (Value)

/-- The document of a body; JSON has no null characters. -/
def bodyDocument (parse : Str → Option Value) (body : Str) : Option Value :=
  if nul ∈ body then none else parse body

/-- The string of a member. -/
def stringOf (document : Value) (name : Str) : Option Str :=
  (document.member name).bind Value.getString

/-- The classification of a result for the members asked for. -/
def classify (parse : Str → Option Value) (names : List Str) :
    Httpclient.Result → Except Exn (List Str)
  | .failed e => .error (.httplibError e.val.toInt)
  | .response resp =>
    if resp.status = HTTP_OK ∨ resp.status = HTTP_CREATED then
      match (bodyDocument parse resp.body).bind fun document => names.mapM (stringOf document) with
      | some texts => .ok texts
      | none => .error badPayload
    else .error (.provisioningError resp.status)

/-- The outcome of a call is that of the classification. -/
def Classified {α : Type} (outcome : Outcome α) (texts : α → List Str)
    (expected : Except Exn (List Str)) : Prop :=
  outcome.map texts = expected.mapError .thrown

/-- The members of provisioning data, in the order of the tests. -/
def ProvisioningData.texts (data : ProvisioningData) : List Str :=
  [data.keyPair.crt, data.up2DateEndpoint, data.keyPair.key]

/-- A document is an object that lacks a member. -/
def Incomplete (document : Value) (names : List Str) : Prop :=
  ∃ name ∈ names, document.Lacks name

/-- A document has a string without null characters for every member. -/
def HasTexts (document : Value) (names : List Str) : Prop :=
  ∀ name ∈ names, ∃ s, document.Has name (.string s) ∧ nul ∉ s

/-- A body is not JSON, or lacks a member, or has all strings asked for. -/
def ReadableBody (parse : Str → Option Value) (names : List Str) (body : Str) : Prop :=
  ∀ document, parse (cstr body) = some document →
    Incomplete document names ∨ nul ∉ body ∧ HasTexts document names

/-- A reply that both calls classify well for the members they ask for. -/
def WellAnswered (parse : Str → Option Value) (names : List Str) (result : Httpclient.Result) : Prop :=
  ∀ resp, result = .response resp → resp.status = HTTP_OK ∨ resp.status = HTTP_CREATED →
    ReadableBody parse names resp.body

/-! ### Reading the members of a document -/

section Members

variable {document : Value} {names : List Str}

/-- The members of a document that is no object cannot be tested. -/
theorem lacksMember_of_not_isObject (h : ¬document.IsObject) (hne : names ≠ []) :
    lacksMember document names = .error .undefined := by
  obtain ⟨name, rest, rfl⟩ := List.exists_cons_of_ne_nil hne
  rw [lacksMember, Value.hasMember_eq_none_iff.mpr h]
  rfl

/-- A document with all members lacks none. -/
theorem lacksMember_of_hasAll (h : ∀ name ∈ names, ∃ w, document.Has name w) :
    lacksMember document names = .ok false := by
  induction names with
  | nil => rfl
  | cons name rest ih =>
    obtain ⟨hname, hrest⟩ := List.forall_mem_cons.mp h
    rw [lacksMember, Value.hasMember_eq_true_iff.mpr hname]
    exact ih hrest

/-- An incomplete document lacks a member. -/
theorem lacksMember_of_incomplete (h : Incomplete document names) :
    lacksMember document names = .ok true := by
  induction names with
  | nil =>
    obtain ⟨name, hmem, -⟩ := h
    cases hmem
  | cons name rest ih =>
    obtain ⟨other, hmem, hlacks⟩ := h
    rcases document.member_cases name with hobj | hl | hw
    · exact absurd hlacks.1 hobj
    · rw [lacksMember, Value.hasMember_eq_false_iff.mpr hl]
      rfl
    · rw [lacksMember, Value.hasMember_eq_true_iff.mpr hw]
      rcases List.mem_cons.mp hmem with rfl | hmem
      · obtain ⟨w, hw⟩ := hw
        exact absurd hlacks hw.not_lacks
      · exact ih ⟨other, hmem, hlacks⟩

/-- A document is no object, lacks a member, or has all members. -/
theorem document_cases (document : Value) (names : List Str) :
    ¬document.IsObject ∨ Incomplete document names ∨ ∀ name ∈ names, ∃ w, document.Has name w := by
  by_cases hall : ∀ name ∈ names, ∃ w, document.Has name w
  · exact Or.inr (Or.inr hall)
  · push Not at hall
    obtain ⟨name, hmem, hnone⟩ := hall
    rcases document.member_cases name with hobj | hl | ⟨w, hw⟩
    · exact Or.inl hobj
    · exact Or.inr (Or.inl ⟨name, hmem, hl⟩)
    · exact absurd hw (hnone w)

/-- A document with all members is not incomplete. -/
theorem not_incomplete_of_hasAll (h : ∀ name ∈ names, ∃ w, document.Has name w) :
    ¬Incomplete document names := by
  intro hincomplete
  obtain ⟨name, hmem, hlacks⟩ := hincomplete
  obtain ⟨w, hw⟩ := h name hmem
  exact hw.not_lacks hlacks

/-- The strings of the members, read as C strings. -/
def textsOf (document : Value) (names : List Str) : Option (List Str) :=
  names.mapM fun name => (stringOf document name).map cstr

/-- The text of a member is its string up to the first null character. -/
theorem memberText_eq (document : Value) (name : Str) :
    memberText document name = demand ((stringOf document name).map cstr) := by
  cases hmember : document.member name with
  | none => simp [memberText, stringOf, hmember, demand, bind, Except.bind]
  | some w =>
    cases hstring : w.getString <;>
      simp [memberText, stringOf, hmember, hstring, demand, bind, Except.bind, pure, Except.pure]

/-- The string of a member is the one that the document has. -/
theorem stringOf_eq_some_iff {name s : Str} :
    stringOf document name = some s ↔ document.Has name (.string s) := by
  simp only [stringOf, Option.bind_eq_some_iff]
  constructor
  · intro h
    obtain ⟨w, hw, hs⟩ := h
    cases w with
    | string t =>
      obtain rfl : t = s := Option.some.inj hs
      exact hw
    | _ => cases hs
  · exact fun h => ⟨_, h, rfl⟩

/-- Reading C strings cuts every string at its null character. -/
theorem textsOf_eq (document : Value) (names : List Str) :
    textsOf document names = (names.mapM (stringOf document)).map (List.map cstr) := by
  unfold textsOf
  induction names with
  | nil => rfl
  | cons name rest ih =>
    rw [List.mapM_cons, List.mapM_cons, ih]
    cases stringOf document name with
    | none => rfl
    | some s => cases rest.mapM (stringOf document) <;> rfl

/-- A document has texts exactly when all strings are there and none has a null character. -/
theorem hasTexts_iff :
    HasTexts document names ↔
      ∃ texts, names.mapM (stringOf document) = some texts ∧ ∀ s ∈ texts, nul ∉ s := by
  unfold HasTexts
  induction names with
  | nil => exact iff_of_true (fun name hmem => absurd hmem List.not_mem_nil) ⟨[], rfl, by simp⟩
  | cons name rest ih =>
    rw [List.forall_mem_cons, ih]
    simp only [← stringOf_eq_some_iff, List.mapM_cons]
    cases stringOf document name with
    | none => simp
    | some s =>
      cases rest.mapM (stringOf document) with
      | none => simp
      | some texts => simp

/-- A document with a missing member does not have strings for all members. -/
theorem mapM_stringOf_of_incomplete (h : Incomplete document names) :
    names.mapM (stringOf document) = none := by
  obtain ⟨name, hmem, -, hlacks⟩ := h
  induction names with
  | nil => cases hmem
  | cons other rest ih =>
    rw [List.mapM_cons]
    rcases List.mem_cons.mp hmem with rfl | hmem
    · rw [stringOf, hlacks]
      rfl
    · rw [ih hmem]
      cases stringOf document other <;> rfl

/-- Strings read as C strings are the same when they have no null characters. -/
theorem map_cstr_eq_self_iff {texts : List Str} : texts.map cstr = texts ↔ ∀ s ∈ texts, nul ∉ s := by
  induction texts with
  | nil => simp
  | cons s rest ih => simp [ih, cstr_eq_self_iff]

end Members

/-! ### Reading a reply -/

/-- Check a result, and read the members asked for. -/
def readTexts (json : JsonLibrary) (unexpected : ℤ → Bool) (names : List Str)
    (result : Httpclient.Result) : Outcome (List Str) :=
  checkedDocument json unexpected names result >>= fun document => demand (textsOf document names)

/-- The classification of a body with an expected status. -/
def classifyBody (parse : Str → Option Value) (names : List Str) (body : Str) :
    Except Exn (List Str) :=
  match (bodyDocument parse body).bind fun document => names.mapM (stringOf document) with
  | some texts => .ok texts
  | none => .error badPayload

section Reading

variable {json : JsonLibrary} {unexpected : ℤ → Bool} {names : List Str} {resp : Response}

/-- An unexpected status is thrown as a provisioning error. -/
theorem readTexts_of_unexpected (h : unexpected resp.status = true) :
    readTexts json unexpected names (.response resp) = raise (.provisioningError resp.status) := by
  rw [readTexts, checkedDocument, if_pos h]
  rfl

/-- A body that is no document is thrown as a bad payload. -/
theorem readTexts_of_parse_none (h : unexpected resp.status = false)
    (hparse : json.parse (cstr resp.body) = none) :
    readTexts json unexpected names (.response resp) = raise badPayload := by
  rw [readTexts, checkedDocument, if_neg (Bool.not_eq_true _ ▸ h), hparse]
  rfl

/-- A parsed document is tested for its members before they are read. -/
theorem readTexts_of_parse_some (h : unexpected resp.status = false) {document : Value}
    (hparse : json.parse (cstr resp.body) = some document) :
    readTexts json unexpected names (.response resp) =
      lacksMember document names >>= fun lacks =>
        if lacks then raise badPayload else demand (textsOf document names) := by
  rw [readTexts, checkedDocument, if_neg (Bool.not_eq_true _ ▸ h), hparse]
  cases hlacks : lacksMember document names with
  | error fault => simp [bind, Except.bind, hlacks]
  | ok lacks => cases lacks <;> simp [bind, Except.bind, hlacks, raise, pure, Except.pure]

/-- A body that is no document is classified as a bad payload. -/
theorem classifyBody_of_none {parse : Str → Option Value} {body : Str}
    (h : parse (cstr body) = none) : classifyBody parse names body = .error badPayload := by
  have hnone : bodyDocument parse body = none := by
    unfold bodyDocument
    split
    · rfl
    next hnul => rw [cstr_of_notMem hnul] at h; exact h
  rw [classifyBody, hnone]
  rfl

/-- An incomplete document is reported whether or not the body goes on behind it. -/
theorem classifyBody_of_incomplete {parse : Str → Option Value} {body : Str} {document : Value}
    (hparse : parse (cstr body) = some document) (h : Incomplete document names) :
    classifyBody parse names body = .error badPayload := by
  have hnone : (bodyDocument parse body).bind (fun document => names.mapM (stringOf document)) =
      none := by
    unfold bodyDocument
    split
    · rfl
    next hnul =>
      rw [cstr_of_notMem hnul] at hparse
      rw [hparse]
      exact mapM_stringOf_of_incomplete h
  rw [classifyBody, hnone]

/-- Two outcomes of a reader differ when one is undefined. -/
theorem undefined_ne_mapError {expected : Except Exn (List Str)} :
    (.error .undefined : Outcome (List Str)) ≠ expected.mapError .thrown := by
  cases expected with
  | ok texts => intro h; cases h
  | error e => intro h; cases h

/-- A document that is no object is neither incomplete nor has it strings. -/
theorem not_readable_of_not_isObject {document : Value} (h : ¬document.IsObject) (hne : names ≠ []) :
    ¬Incomplete document names ∧ ¬HasTexts document names := by
  refine ⟨?_, fun htexts => ?_⟩
  · intro hincomplete
    obtain ⟨name, -, hlacks⟩ := hincomplete
    exact h hlacks.1
  · obtain ⟨name, rest, rfl⟩ := List.exists_cons_of_ne_nil hne
    obtain ⟨s, hs, -⟩ := htexts name List.mem_cons_self
    cases document with
    | object members => exact h ⟨members, rfl⟩
    | _ => cases hs

/-- A document with all members is read as it should be when they are strings of a body, and
none of them has a null character. -/
theorem demand_textsOf_eq_iff {parse : Str → Option Value} {body : Str} {document : Value}
    (hparse : parse (cstr body) = some document) :
    demand (textsOf document names) = (classifyBody parse names body).mapError .thrown ↔
      nul ∉ body ∧ HasTexts document names := by
  rw [textsOf_eq, hasTexts_iff, classifyBody, bodyDocument]
  cases htexts : names.mapM (stringOf document) with
  | none =>
    refine iff_of_false undefined_ne_mapError fun h => ?_
    obtain ⟨-, texts, hsome, -⟩ := h
    cases hsome
  | some texts =>
    by_cases hnul : nul ∈ body
    · rw [if_pos hnul]
      exact iff_of_false (fun h => by cases h) fun h => h.1 hnul
    · rw [cstr_of_notMem hnul] at hparse
      rw [if_neg hnul, hparse, Option.bind_some, htexts]
      constructor
      · intro h
        exact ⟨hnul, texts, rfl, map_cstr_eq_self_iff.mp (Except.ok.inj h)⟩
      · intro h
        obtain ⟨-, texts', hsome, htexts'⟩ := h
        obtain rfl := Option.some.inj hsome
        exact congrArg Except.ok (map_cstr_eq_self_iff.mpr htexts')

/-- A reply with an expected status is read as it is classified when its body is readable. -/
theorem readTexts_eq_iff (h : unexpected resp.status = false) (hne : names ≠ []) :
    readTexts json unexpected names (.response resp) =
        (classifyBody json.parse names resp.body).mapError .thrown ↔
      ReadableBody json.parse names resp.body := by
  cases hparse : json.parse (cstr resp.body) with
  | none =>
    rw [readTexts_of_parse_none h hparse, classifyBody_of_none hparse]
    refine iff_of_true rfl fun document hsome => ?_
    rw [hparse] at hsome
    cases hsome
  | some document =>
    have hreadable : ReadableBody json.parse names resp.body ↔
        Incomplete document names ∨ nul ∉ resp.body ∧ HasTexts document names := by
      simp only [ReadableBody, hparse, Option.some.injEq, forall_eq']
    rw [hreadable, readTexts_of_parse_some h hparse]
    rcases document_cases document names with hobj | hincomplete | hall
    · obtain ⟨hcomplete, htexts⟩ := not_readable_of_not_isObject hobj hne
      rw [lacksMember_of_not_isObject hobj hne]
      exact iff_of_false undefined_ne_mapError fun h =>
        h.elim hcomplete fun h => htexts h.2
    · rw [lacksMember_of_incomplete hincomplete, classifyBody_of_incomplete hparse hincomplete]
      exact iff_of_true rfl (Or.inl hincomplete)
    · rw [lacksMember_of_hasAll hall, or_iff_right (not_incomplete_of_hasAll hall)]
      exact demand_textsOf_eq_iff hparse

end Reading

/-! ### The two calls -/

/-- A call that reads a result ends as it is classified exactly when the reply is well answered
and no status is refused that is expected. -/
theorem readTexts_classified_iff (json : JsonLibrary) {unexpected : ℤ → Bool} {names : List Str}
    (hne : names ≠ [])
    (hother : ∀ status, status ≠ HTTP_OK → status ≠ HTTP_CREATED → unexpected status = true)
    (result : Httpclient.Result) :
    readTexts json unexpected names result = (classify json.parse names result).mapError .thrown ↔
      WellAnswered json.parse names result ∧
        ∀ resp, result = .response resp → resp.status = HTTP_OK ∨ resp.status = HTTP_CREATED →
          unexpected resp.status = false := by
  cases result with
  | failed e =>
    refine iff_of_true rfl ⟨fun resp h => ?_, fun resp h => ?_⟩
    · cases h
    · cases h
  | response resp =>
    by_cases hstatus : resp.status = HTTP_OK ∨ resp.status = HTTP_CREATED
    · have hclassify : classify json.parse names (.response resp) =
          classifyBody json.parse names resp.body := if_pos hstatus
      simp only [WellAnswered, Httpclient.Result.response.injEq, forall_eq', hstatus, forall_const]
      rw [hclassify]
      cases hunexpected : unexpected resp.status with
      | true =>
        rw [readTexts_of_unexpected hunexpected]
        refine iff_of_false (fun h => ?_) fun h => Bool.noConfusion h.2
        unfold classifyBody at h
        split at h <;> cases h
      | false =>
        rw [readTexts_eq_iff hunexpected hne]
        exact (and_iff_left rfl).symm
    · have hclassify : classify json.parse names (.response resp) =
          .error (.provisioningError resp.status) := if_neg hstatus
      obtain ⟨hok, hcreated⟩ := not_or.mp hstatus
      rw [hclassify, readTexts_of_unexpected (hother resp.status hok hcreated)]
      refine iff_of_true rfl ⟨fun reply h hexpected => ?_, fun reply h hexpected => ?_⟩
      · obtain rfl := Httpclient.Result.response.inj h
        exact absurd hexpected hstatus
      · obtain rfl := Httpclient.Result.response.inj h
        exact absurd hexpected hstatus

/-- Three members are read, or one of them is no string. -/
theorem provisioningTexts_eq (document : Value) :
    (do
      let crt ← memberText document "crt".toList
      let key ← memberText document "key".toList
      let endpoint ← memberText document "endpoint".toList
      return ({ keyPair := { crt, key }, up2DateEndpoint := endpoint } : ProvisioningData)
      : Outcome ProvisioningData).map ProvisioningData.texts =
      demand (textsOf document provisioningMembers) := by
  simp only [memberText_eq, textsOf, provisioningMembers, List.mapM_cons, List.mapM_nil]
  cases (stringOf document "crt".toList).map cstr <;>
    cases (stringOf document "key".toList).map cstr <;>
      cases (stringOf document "endpoint".toList).map cstr <;> rfl

/-- After its request `doProvisioning` checks the result and reads three members. -/
theorem doProvisioning_texts {json : JsonLibrary} {service : Service} {cli : ProvisioningClient}
    {result : Httpclient.Result} (h : service (cli.request json) = .ok result) :
    (cli.doProvisioning json service).map ProvisioningData.texts =
      readTexts json (fun status => status != HTTP_OK && status != HTTP_CREATED) provisioningMembers
        result := by
  rw [ProvisioningClient.doProvisioning, post, h, readTexts]
  change Except.map _ (checkedDocument json _ _ result >>= _) = _
  cases checkedDocument json (fun status => status != HTTP_OK && status != HTTP_CREATED)
      provisioningMembers result with
  | error fault => rfl
  | ok document => exact provisioningTexts_eq document

/-- After its request `exchange` checks the result and reads one member. -/
theorem exchange_texts {json : JsonLibrary} {service : Service} {exchanger : TokenExchanger}
    {result : Httpclient.Result} (h : service (exchanger.request json) = .ok result) :
    (exchanger.exchange json service).map (fun crt => [crt]) =
      readTexts json (fun status => status != HTTP_OK && status != HTTP_OK) [CERTIFICATE_FIELD_NAME]
        result := by
  rw [TokenExchanger.exchange, post, h, readTexts]
  change Except.map _ (checkedDocument json _ _ result >>= _) = _
  cases checkedDocument json (fun status => status != HTTP_OK && status != HTTP_OK)
      [CERTIFICATE_FIELD_NAME] result with
  | error fault => rfl
  | ok document =>
    change (memberText document CERTIFICATE_FIELD_NAME).map _ = demand _
    rw [memberText_eq, textsOf, List.mapM_cons, List.mapM_nil]
    cases (stringOf document CERTIFICATE_FIELD_NAME).map cstr <;> rfl

/-- `doProvisioning` classifies well exactly the replies that are well answered. -/
theorem doProvisioning_classified_iff {json : JsonLibrary} {service : Service}
    {cli : ProvisioningClient} {result : Httpclient.Result}
    (h : service (cli.request json) = .ok result) :
    Classified (cli.doProvisioning json service) ProvisioningData.texts
        (classify json.parse provisioningMembers result) ↔
      WellAnswered json.parse provisioningMembers result := by
  rw [Classified, doProvisioning_texts h,
    readTexts_classified_iff json (by decide) (fun status hok hcreated => by simp [hok, hcreated])]
  refine and_iff_left fun resp _ hexpected => ?_
  rcases hexpected with hok | hcreated
  · simp [hok]
  · simp [hcreated]

/-- `exchange` classifies well those replies that are well answered and are not created. -/
theorem exchange_classified_iff {json : JsonLibrary} {service : Service}
    {exchanger : TokenExchanger} {result : Httpclient.Result}
    (h : service (exchanger.request json) = .ok result) :
    Classified (exchanger.exchange json service) (fun crt => [crt])
        (classify json.parse [CERTIFICATE_FIELD_NAME] result) ↔
      WellAnswered json.parse [CERTIFICATE_FIELD_NAME] result ∧
        ∀ resp, result = .response resp → resp.status ≠ HTTP_CREATED := by
  rw [Classified, exchange_texts h,
    readTexts_classified_iff json (by decide) (fun status hok _ => by simp [hok])]
  refine and_congr_right fun _ => forall_congr' fun resp => forall_congr' fun _ => ?_
  constructor
  · intro haccepted hcreated
    have hrefused := haccepted (Or.inr hcreated)
    rw [hcreated] at hrefused
    exact absurd hrefused (by decide)
  · intro hne hexpected
    simp [hexpected.resolve_right hne]

/-- Both calls classify the results of their requests well exactly when both replies are well
answered, and the status of the token exchanger's is not 201. -/
theorem classified_iff {json : JsonLibrary} {service : Service} {cli : ProvisioningClient}
    {exchanger : TokenExchanger} {provisioned exchanged : Httpclient.Result}
    (hprovisioned : service (cli.request json) = .ok provisioned)
    (hexchanged : service (exchanger.request json) = .ok exchanged) :
    Classified (cli.doProvisioning json service) ProvisioningData.texts
          (classify json.parse provisioningMembers provisioned) ∧
        Classified (exchanger.exchange json service) (fun crt => [crt])
          (classify json.parse [CERTIFICATE_FIELD_NAME] exchanged) ↔
      WellAnswered json.parse provisioningMembers provisioned ∧
        WellAnswered json.parse [CERTIFICATE_FIELD_NAME] exchanged ∧
          ∀ resp, exchanged = .response resp → resp.status ≠ HTTP_CREATED :=
  and_congr (doProvisioning_classified_iff hprovisioned) (exchange_classified_iff hexchanged)

/-! ### A service that provisions -/

/-- The parser and the writer of JSON texts. -/
def jsonLibrary : JsonLibrary where
  parse := Json.parse
  write := Json.write

/-- The document of a reply with provisioning data. -/
def ProvisioningData.document (data : ProvisioningData) : Value :=
  .object [("crt".toList, .string data.keyPair.crt),
    ("endpoint".toList, .string data.up2DateEndpoint), ("key".toList, .string data.keyPair.key)]

/-- A service that answers every request with a status and provisioning data. -/
def dataService (status : ℤ) (data : ProvisioningData) : Service := fun _ =>
  .ok (.response { status, body := Json.write data.document })

/-- A client without settings of its own. -/
def provisioningClient : ProvisioningClient :=
  { crt := [], provisioningURI := {}, provisioningHeaders := Multimap.empty }

/-- An exchanger without settings of its own. -/
def tokenExchanger : TokenExchanger := { url := {}, ott := [] }

/-- A key pair and an endpoint. -/
def someData : ProvisioningData := ⟨⟨"c".toList, "k".toList⟩, "https://b/p".toList⟩

/-- Provisioning data is written exactly. -/
theorem isExact_document (data : ProvisioningData) : data.document.IsExact := by
  simp only [ProvisioningData.document, Value.isExact_object_iff, List.forall_mem_cons,
    Value.IsExact.string, List.not_mem_nil, IsEmpty.forall_iff, implies_true, and_self]

/-- The text of provisioning data has every string that is asked for. -/
theorem wellAnswered_document {data : ProvisioningData} (h : ∀ text ∈ data.texts, nul ∉ text)
    {names : List Str} (hnames : ∀ name ∈ names, name ∈ provisioningMembers) (status : ℤ) :
    WellAnswered jsonLibrary.parse names
      (.response { status, body := Json.write data.document }) := by
  intro resp hresp _ document hdocument
  obtain rfl := Httpclient.Result.response.inj hresp
  have hread : Json.parse (cstr (Json.write data.document)) = some data.document :=
    Json.readsBack_parse_write _ (isExact_document data)
  obtain rfl := Option.some.inj (hread.symm.trans hdocument)
  refine Or.inr ⟨Json.nul_notMem_write (isExact_document data), fun name hname => ?_⟩
  simp only [ProvisioningData.texts, List.forall_mem_cons] at h
  obtain ⟨hcrt, hendpoint, hkey, -⟩ := h
  rcases List.mem_cons.mp (hnames name hname) with rfl | hname
  · exact ⟨data.keyPair.crt, rfl, hcrt⟩
  · rcases List.mem_cons.mp hname with rfl | hname
    · exact ⟨data.up2DateEndpoint, rfl, hendpoint⟩
    · obtain rfl := List.mem_singleton.mp hname
      exact ⟨data.keyPair.key, rfl, hkey⟩

/-- A provisioning client takes the data that are sent to it. -/
theorem doProvisioning_dataService (cli : ProvisioningClient) {data : ProvisioningData}
    (h : ∀ text ∈ data.texts, nul ∉ text) :
    cli.doProvisioning jsonLibrary (dataService HTTP_OK data) = .ok data := by
  have hread : Json.parse (cstr (Json.write data.document)) = some data.document :=
    Json.readsBack_parse_write _ (isExact_document data)
  have htext : ∀ name text, data.document.Has name (.string text) → nul ∉ text →
      memberText data.document name = .ok text := by
    intro name text hhas hnul
    rw [memberText_eq, stringOf_eq_some_iff.mpr hhas, Option.map_some, cstr_of_notMem hnul]
    rfl
  have hchecked : checkedDocument jsonLibrary (fun status => status != HTTP_OK && status != HTTP_CREATED)
      provisioningMembers (.response { status := HTTP_OK, body := Json.write data.document }) =
        .ok data.document := by
    simp only [checkedDocument, jsonLibrary, hread]
    rfl
  simp only [ProvisioningData.texts, List.forall_mem_cons] at h
  obtain ⟨hcrt, hendpoint, hkey, -⟩ := h
  have hbind : ∀ {α β : Type} {m : Outcome α} {a : α} (k : α → Outcome β), m = .ok a →
      (m >>= k) = k a := by
    rintro _ _ _ _ _ rfl
    rfl
  rw [ProvisioningClient.doProvisioning, hbind _ (show post _ _ = .ok _ from rfl), hbind _ hchecked,
    hbind _ (htext "crt".toList _ rfl hcrt), hbind _ (htext "key".toList _ rfl hkey),
    hbind _ (htext "endpoint".toList _ rfl hendpoint)]
  rfl

/-- Provisioning data are taken by both calls with the status 200. -/
theorem classified_ok :
    Classified (provisioningClient.doProvisioning jsonLibrary (dataService 200 someData))
          ProvisioningData.texts (classify jsonLibrary.parse provisioningMembers
            (.response { status := 200, body := Json.write someData.document })) ∧
        Classified (tokenExchanger.exchange jsonLibrary (dataService 200 someData))
          (fun crt => [crt]) (classify jsonLibrary.parse [CERTIFICATE_FIELD_NAME]
            (.response { status := 200, body := Json.write someData.document })) := by
  have htexts : ∀ text ∈ someData.texts, nul ∉ text := by decide
  refine (classified_iff rfl rfl).mpr ⟨wellAnswered_document htexts (fun _ => id) 200,
    wellAnswered_document htexts (by decide) 200, fun resp hresp => ?_⟩
  obtain rfl := Httpclient.Result.response.inj hresp
  decide

/-- The status 201 is an error to the token exchanger, whatever the body. -/
theorem exchange_created_refused :
    ¬∀ (json : JsonLibrary) (service : Service) (exchanger : TokenExchanger)
        (result : Httpclient.Result), service (exchanger.request json) = .ok result →
      Classified (exchanger.exchange json service) (fun crt => [crt])
        (classify json.parse [CERTIFICATE_FIELD_NAME] result) := by
  intro h
  have hclassified := h jsonLibrary (dataService 201 someData) tokenExchanger _ rfl
  obtain ⟨-, hne⟩ := (exchange_classified_iff rfl).mp hclassified
  exact hne _ rfl rfl

end Up2date.Dps
