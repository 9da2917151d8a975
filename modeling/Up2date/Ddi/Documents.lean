import Up2date.Ddi.Sessions
import Up2date.Ddi.Feedback
import Up2date.Httplib.Requests

/-!
# What the server is told

Configuration data and feedback are JSON documents in the bodies of requests. A server that reads
a request from the bytes on its connection, and the document from the body, gets what the
callback of the same poll has returned before: the data with its mode, or the response to the
action that was fetched.
-/

namespace Up2date.Ddi

open Cxx Uri Httpclient
open Json (Value ReadsBack)
open Httplib (Sendable readMessage writeRequest requestLine methodText encodeUrl decodeUrl)
open Unix (ClientImpl)

/-- A document with configuration data. -/
structure Configures (document : Value) (req : ConfigResponse) : Prop where
  data : document.Has "data".toList (.object (req.data.map fun val => (val.1, .string val.2)))
  mode : document.Has "mode".toList (.string req.mode.toText)
  finished : ∃ status result, document.Has "status".toList status ∧
    status.Has "result".toList result ∧ result.Has "finished".toList (.string "success".toList)
  execution : ∃ status, document.Has "status".toList status ∧
    status.Has "execution".toList (.string "closed".toList)

/-- A document with a response to an action. -/
structure Conveys (document : Value) (received : Received) (response : Response) : Prop where
  id : received.id ≥ 0 → document.Has "id".toList (.string (stdToString received.id))
  finished : ∃ status result, document.Has "status".toList status ∧
    status.Has "result".toList result ∧
    result.Has "finished".toList (.string response.finished.toText)
  execution : ∃ status, document.Has "status".toList status ∧
    status.Has "execution".toList (.string response.execution.toText)
  details : ∃ status, document.Has "status".toList status ∧
    status.Has "details".toList (.array (response.details.map Value.string))

/-- A server reads the request from the bytes that are written for it, and the document from its
body. -/
structure Arrives (env : Environment) (request : Request) (document : Value) : Prop where
  line : (requestLine request).splitOn ' ' =
    [methodText request.method, encodeUrl request.target, "HTTP/1.1".toList ++ Httplib.crlf]
  path : '%' ∉ request.target → (∀ c ∈ request.target, c.toNat < 256) →
    decodeUrl (encodeUrl request.target) false = cstr request.target
  message : ∀ (cli : ClientImpl) (strm : InStream Char) tail, Sendable cli request →
    strm.content = writeRequest cli request ++ tail →
    ∃ headers rest, readMessage strm = some ((requestLine request, headers, request.body), rest) ∧
      rest.content = tail
  document : env.parse request.body = some document

/-- The documents that the steps of a run send. -/
structure Documented (env : Environment) (schedule : ℕ → List Signal)
    (cli : HawkbitCommunicationClient) : Prop where
  configData : ∀ k pre a request wire post,
    saidIn env schedule cli k = pre ++ .sent .configData a request wire :: post →
    ∃ req document, .returned .onConfigRequest (.config (some req)) ∈ pre ∧ request.method = .put ∧
      Arrives env request document ∧ Configures document req
  feedback : ∀ k pre a request wire post,
    saidIn env schedule cli k = pre ++ .sent .feedback a request wire :: post →
    ∃ received response document, Fetched env received pre ∧
      .returned received.callback (.response (some response)) ∈ pre ∧ request.method = .post ∧
      Arrives env request document ∧ Conveys document received response

/-! ### Requests and their documents -/

/-- Every request is read back from its bytes. -/
theorem arrives_of_parse {env : Environment} {request : Request} {document : Value}
    (h : env.parse request.body = some document) : Arrives env request document where
  line := Httplib.splitOn_requestLine request
  path := Httplib.decodeUrl_encodeUrl
  message cli strm tail hsendable hstrm := by
    obtain ⟨rest, hread, htail⟩ := hsendable.readMessage_eq hstrm
    exact ⟨_, rest, hread, htail⟩
  document := h

/-- The members of a document with configuration data. -/
theorem configDocument_members {req : ConfigResponse} {document : Value}
    (h : configDocument req = .ok document) :
    document = .object [("data".toList, .object (req.data.map fun val => (val.1, .string val.2))),
      ("mode".toList, .string req.mode.toText),
      ("status".toList, .object
        [("result".toList, .object [("finished".toList, .string "success".toList)]),
          ("execution".toList, .string "closed".toList), ("details".toList, .array [])])] :=
  (Except.ok.inj h).symm

/-- The document of a configuration is exact. -/
theorem isExact_configDocument {req : ConfigResponse} {document : Value}
    (h : configDocument req = .ok document) : document.IsExact := by
  have hdata : (Value.object (req.data.map fun val => (val.1, .string val.2))).IsExact := by
    apply Value.IsExact.object
    intro m hm
    obtain ⟨val, _, rfl⟩ := List.mem_map.mp hm
    exact .string val.2
  have hdetails : (Value.array []).IsExact := .array fun _ hv => absurd hv List.not_mem_nil
  rw [configDocument_members h]
  simp only [Value.isExact_object_iff, List.forall_mem_cons, hdata, hdetails, Value.IsExact.string,
    List.not_mem_nil, IsEmpty.forall_iff, implies_true, and_self]

/-- The document of a configuration says what the response does. -/
theorem configures_configDocument {req : ConfigResponse} {document : Value}
    (h : configDocument req = .ok document) : Configures document req := by
  rw [configDocument_members h]
  exact ⟨rfl, rfl, ⟨_, _, rfl, rfl, rfl⟩, ⟨_, rfl, rfl⟩⟩

/-- The document of a feedback says what the response does. -/
theorem conveys_filled {received : Received} {response : Response} {members : List (Str × Value)}
    (h : fillResponseDocument (some response) [] received.id = .ok members) :
    Conveys (.object members) received response := by
  rw [fillResponseDocument_members h]
  refine ⟨fun hid => ?_, ⟨_, _, rfl, rfl, rfl⟩, ⟨_, rfl, rfl⟩, ⟨_, rfl, rfl⟩⟩
  rw [if_pos hid]
  rfl

/-- A request is sent in a stage whose request it is, after what the stage follows. -/
theorem requests_of_step {env : Environment} {p q : Phase} {x : Exchange} {a : Attempt}
    {request : Request} {wire : Wire} (h : Phase.Step env p (.sent x a request wire) q) :
    ∃ s : Stage, s.exchange = x ∧ s.Requests env request ∧
      ∀ pre, p.Follows env pre → s.Follows env pre := by
  generalize hevent : Event.sent x a request wire = e at h
  cases h with
  | first hrequests =>
    obtain ⟨rfl, rfl, rfl, rfl⟩ := Event.sent.inj hevent
    exact ⟨_, rfl, hrequests, fun _ => id⟩
  | second hrequests =>
    obtain ⟨rfl, rfl, rfl, rfl⟩ := Event.sent.inj hevent
    exact ⟨_, rfl, hrequests, fun _ => id⟩
  | _ => cases hevent

section Steps

variable {env : Environment} {schedule : ℕ → List Signal} {cli : HawkbitCommunicationClient}

/-- A request of a run is that of its stage. -/
theorem stage_of_saidIn {k : ℕ} {pre post : List Event} {x : Exchange} {a : Attempt}
    {request : Request} {wire : Wire}
    (h : saidIn env schedule cli k = pre ++ .sent x a request wire :: post) :
    ∃ s : Stage, s.exchange = x ∧ s.Requests env request ∧ s.Follows env pre := by
  obtain ⟨q, hrun⟩ := follows_of_saidIn h
  obtain ⟨p, p', hp, hstep⟩ := follows_of_run hrun
  obtain ⟨s, hs, hrequests, hfollows⟩ := requests_of_step hstep
  exact ⟨s, hs, hrequests, hfollows pre hp⟩

end Steps

end Up2date.Ddi
