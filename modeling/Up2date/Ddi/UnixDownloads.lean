import Up2date.Ddi.FileDownloads
import Up2date.Ddi.DownloadPaths
import Up2date.Httplib.Exchanges

/-!
# Downloads over bytes

The downloads of an artifact when the Unix backend reads the responses: every request is sent
over a connection, and the bytes that come back are all a server decides. What the library makes
of them is what it makes of the replies of its interface, so a download that returns has got a
complete response with the status 200, and the file holds its body.
-/

namespace Up2date.Ddi

open Cxx Uri Httpclient
open Httplib (Connection handleRequest wireOver IsResponse ResponseHead)

/-- The connections over which requests are sent. -/
abbrev Connections := List Event → Request → Except Failure Connection

/-- The replies of an environment are those that come over its connections. -/
def RepliesOver (env : Environment) (conn : Connections) : Prop :=
  ∀ trace request, (env.server trace request).wire = wireOver request.target (conn trace request)

/-- The environment with the replies that come over connections. -/
def Environment.over (env : Environment) (conn : Connections) : Environment :=
  { env with server := fun trace request =>
      { env.server trace request with wire := wireOver request.target (conn trace request) } }

/-- An environment over connections replies over them. -/
theorem repliesOver_over (env : Environment) (conn : Connections) :
    RepliesOver (env.over conn) conn := fun _ _ => rfl

/-- `Get` with a response handler and a content receiver, over a connection. -/
def getToOver (env : Environment) (conn : Connections) (cli : HttpClient) (path : Str)
    (headers : Headers) (handler : Httpclient.Response → Except Exn Unit)
    (receive : Str → Program Bool) : Program Httpclient.Result := do
  let w ← get
  let request := cli.request .get path headers [] []
  let _ ← cli.send env request
  handleRequest request.target (Httplib.getTo handler receive) (conn w.trace request)

/-- The function that sends the request of a download over a connection. -/
def fetchOver (env : Environment) (conn : Connections) (uri : URI) (receive : Str → Program Bool)
    (cli : HttpClient) : Program Httpclient.Result := do
  let w ← get
  getToOver env conn cli (formatDownloadPath uri) w.client.defaultHeaders acceptOk receive

/-- `downloadTo` over connections. -/
def downloadToOver (env : Environment) (conn : Connections) (uri : URI) (path : Str) :
    Program Unit := do
  openFile env path
  Effect.noting (do
    let _ ← retryHandler env .download uri (fetchOver env conn uri (writeFile env)))
    fun _ w => closeFile env w

/-- `downloadWithReceiver` over connections. -/
def downloadWithReceiverOver (env : Environment) (conn : Connections) (uri : URI)
    (func : ContentReceiver) : Program Unit := do
  modify fun w => { w with received := [] }
  let _ ← retryHandler env .download uri (fetchOver env conn uri (receiveChunk func))

section Bytes

variable {env : Environment} {conn : Connections}

/-- The status 204 is refused by the response handler as it is by the check of the result. -/
theorem checkResult_noContent :
    acceptOk ⟨Httplib.HTTP_NO_CONTENT, []⟩ =
        .error (.httpUnexpectedCodeException Httplib.HTTP_NO_CONTENT HTTP_OK) ∧
      checkResult (.response ⟨Httplib.HTTP_NO_CONTENT, []⟩) =
        .error (.httpUnexpectedCodeException Httplib.HTTP_NO_CONTENT HTTP_OK) :=
  ⟨rfl, rfl⟩

/-- What a request ends in, when its response is read from bytes. -/
theorem getToOver_check (h : RepliesOver env conn) (cli : HttpClient) (path : Str) (headers : Headers)
    (receive : Str → Program Bool) :
    (getToOver env conn cli path headers acceptOk receive >>= fun r =>
        Effect.ofExcept (checkResult r)) =
      (cli.getTo env path headers acceptOk receive >>= fun r => Effect.ofExcept (checkResult r)) := by
  obtain ⟨hhandler, hcheck⟩ := checkResult_noContent
  funext w
  let request := cli.request .get path headers [] []
  let sent := (env.server w.trace request).signals.foldl World.signal
    (w.log (.sent cli.exchange cli.attempt request (env.server w.trace request).wire))
  have hover : (getToOver env conn cli path headers acceptOk receive >>= fun r =>
      Effect.ofExcept (checkResult r)) w =
    (handleRequest request.target (Httplib.getTo acceptOk receive) (conn w.trace request) >>= fun r =>
      Effect.ofExcept (checkResult r)) sent := rfl
  have hget : (cli.getTo env path headers acceptOk receive >>= fun r =>
      Effect.ofExcept (checkResult r)) w =
    ((env.server w.trace request).wire.stream Exn.std acceptOk receive >>= fun r =>
      Effect.ofExcept (checkResult r)) sent := rfl
  rw [hover, hget, h w.trace request, Httplib.handleRequest_getTo Exn.std hhandler hcheck]

/-- An attempt over a connection is an attempt with the reply that its bytes are. -/
theorem wrappedRequest_over (h : RepliesOver env conn) (exchange : Exchange) (a : Attempt)
    (uri downloadURI : URI) (receive : Str → Program Bool) :
    wrappedRequest env exchange a uri (fetchOver env conn downloadURI receive) =
      wrappedRequest env exchange a uri (fetch env downloadURI fun wire =>
        wire.stream Exn.std acceptOk receive) := by
  have hfunc : ∀ cli : HttpClient, (fetchOver env conn downloadURI receive cli >>= fun r =>
        Effect.ofExcept (checkResult r)) =
      (fetch env downloadURI (fun wire => wire.stream Exn.std acceptOk receive) cli >>= fun r =>
        Effect.ofExcept (checkResult r)) := by
    intro cli
    have hchecked := fun w : World => getToOver_check h cli (formatDownloadPath downloadURI)
      w.client.defaultHeaders receive
    simp only [fetchOver, bind_assoc, hchecked]
    rfl
  simp only [wrappedRequest, hfunc]

/-- A request that is retried goes over bytes as it goes over replies. -/
theorem retryHandler_over (h : RepliesOver env conn) (exchange : Exchange) (uri downloadURI : URI)
    (receive : Str → Program Bool) :
    retryHandler env exchange uri (fetchOver env conn downloadURI receive) =
      retryHandler env exchange uri (fetch env downloadURI fun wire =>
        wire.stream Exn.std acceptOk receive) := by
  have hafter : retryAfter env exchange uri (fetchOver env conn downloadURI receive) =
      retryAfter env exchange uri (fetch env downloadURI fun wire =>
        wire.stream Exn.std acceptOk receive) := by
    funext e
    cases e <;> simp only [retryAfter, wrappedRequest_over h]
  simp only [retryHandler, wrappedRequest_over h, hafter]

/-- A download to a file over bytes is that of the library. -/
theorem downloadToOver_eq (h : RepliesOver env conn) (uri : URI) (path : Str) :
    downloadToOver env conn uri path = downloadTo env uri path := by
  rw [downloadTo_eq]
  simp only [downloadToOver, retryHandler_over h]
  rfl

/-- A reply that is not an exception comes over a connection. -/
theorem met_over (h : RepliesOver env conn) {uri : URI} {s : World} {status : ℤ} {chunks : List Str}
    (hmet : met env uri s = .answered status chunks none) :
    ∃ connection head tail, conn s.trace (fetchRequest uri s) = .ok connection ∧
      connection.accepted = true ∧ head.line.status = status ∧
      IsResponse connection.strm.broken connection.strm.content (head, chunks.flatten) tail := by
  unfold met at hmet
  split at hmet
  · cases hmet
  · rw [h] at hmet
    exact Httplib.isResponse_of_answered hmet

/-- Connections over which every request is answered with the status 200 and the same body. -/
def answering (body : { s : Str // s ≠ [] }) : Connections := fun _ _ =>
  .ok ⟨true, InStream.pushFront (Httplib.headText 200) [body], false⟩

/-- It is not empty. -/
theorem emptyObject_ne_nil : emptyObject ≠ [] := by decide

/-- The body `{}`. -/
def emptyObjectPiece : { s : Str // s ≠ [] } := ⟨emptyObject, emptyObject_ne_nil⟩

/-- Every request with a target is answered with the empty object. -/
theorem wireOver_answering (target : Str) (trace : List Event) (request : Request) :
    wireOver target (answering emptyObjectPiece trace request) =
      if target = [] then .failed ⟨.connection, by decide⟩
      else .answered HTTP_OK [emptyObject] none := by
  have hpieces : Httplib.IsPieces ([emptyObjectPiece].map Subtype.val) := by
    intro c hc
    obtain rfl := List.mem_singleton.mp hc
    exact ⟨emptyObject_ne_nil, by decide⟩
  have hwire := Httplib.wireOf_headText (show 200 < 1000 by decide) (by decide) (by decide) hpieces false
  simp only [wireOver, answering, if_true, hwire]
  rfl

/-- The downloads over bytes are the downloads of the library. -/
theorem downloads_over (h : RepliesOver env conn) :
    (∀ uri path, downloadToOver env conn uri path = downloadTo env uri path) ∧
      ∀ uri func, downloadWithReceiverOver env conn uri func = downloadWithReceiver env uri func := by
  refine ⟨downloadToOver_eq h, fun uri func => ?_⟩
  rw [downloadWithReceiver_eq]
  simp only [downloadWithReceiverOver, retryHandler_over h]
  rfl

/-- The downloads over connections of this kind. -/
theorem downloads_over_emptyObject :
    (∀ uri path, downloadToOver (idleEnvironment.over (answering emptyObjectPiece))
        (answering emptyObjectPiece) uri path =
      downloadTo (idleEnvironment.over (answering emptyObjectPiece)) uri path) ∧
    ∀ uri func, downloadWithReceiverOver (idleEnvironment.over (answering emptyObjectPiece))
        (answering emptyObjectPiece) uri func =
      downloadWithReceiver (idleEnvironment.over (answering emptyObjectPiece)) uri func :=
  downloads_over (repliesOver_over _ _)

end Bytes

end Up2date.Ddi
