import Up2date.Httplib.Arrivals

/-!
# Responses

A response begins with a status line, behind any number of lines that ask to continue, and its
headers; then its content follows. A client reads it to its end, and makes a result of it: for
the interface of the library a response is what happens to a request, a status and the pieces
of a body that may be cut.
-/

namespace Up2date.Httplib

open Cxx
open Httpclient (Failure Wire deliver)

/-! ### The head of a response -/

/-- The groups of a status line. -/
structure StatusLine where
  version : Str
  status : ℤ
  reason : Str
deriving DecidableEq, Repr

/-- `.` -/
def isReasonChar (c : Char) : Bool := c != '\r' && c != '\n'

/-- `(?: (.*?))?\r\n` -/
def matchReason (s : Str) : Option Str :=
  if s = crlf then some []
  else
    match s with
    | ' ' :: rest =>
      if rest.dropWhile isReasonChar = crlf then some (rest.takeWhile isReasonChar) else none
    | _ => none

/-- What a status line begins with. -/
def httpVersion : Str := "HTTP/1.".toList

/-- `std::regex_match` against `(HTTP/1\.[01]) (\d{3})(?: (.*?))?\r\n` -/
def matchStatusLine (s : Str) : Option StatusLine :=
  if httpVersion <+: s then
    match s.drop httpVersion.length with
    | minor :: ' ' :: a :: b :: c :: rest =>
      if (minor = '0' ∨ minor = '1') ∧ [a, b, c].all Char.isDigit then
        (matchReason rest).map fun reason =>
          { version := httpVersion ++ [minor], status := digitsValue [a, b, c], reason }
      else none
    | _ => none
  else none

/-- Skip the status lines that ask to continue, each with one line behind it. -/
def skipContinue (line : StatusLine) (strm : InStream Char) : Option (StatusLine × InStream Char) :=
  if line.status = 100 then
    match _h : getline strm with
    | none => none
    | some (_, rest) =>
      match _h' : getline rest with
      | none => none
      | some (text, rest) =>
        match matchStatusLine (cstr text) with
        | none => none
        | some line => skipContinue line rest
  else some (line, strm)
termination_by strm.content.length
decreasing_by exact (getline_length _h').trans (getline_length _h)

/-- `read_response_line` of a request other than `CONNECT`. -/
def readResponseLine (strm : InStream Char) : Option (StatusLine × InStream Char) :=
  (getline strm).bind fun r =>
    match matchStatusLine (cstr r.1) with
    | none => none
    | some line => skipContinue line r.2

/-- A response up to its content. -/
structure ResponseHead where
  line : StatusLine
  headers : Headers

/-- The status line and the headers of a response. -/
def readHead : Reader Char ResponseHead := fun strm =>
  (readResponseLine strm).bind fun r =>
    (readHeaders .empty r.2).map fun r' => (⟨r.1, r'.1⟩, r'.2)

/-! ### Reading a response -/

/-- The status of a response without a body. -/
def HTTP_NO_CONTENT : ℤ := 204

section Processing

variable {ε σ : Type}

/-- `process_request` behind the writing of the request: the status, or why there is none. -/
def processResponse (responseHandler : Option (ℤ → Effect ε σ Bool))
    (contentReceiver : Str → Effect ε σ Bool) (strm : InStream Char) :
    Effect ε σ (Except Failure ℤ) :=
  match readHead strm with
  | none => return .error readFailure
  | some (head, rest) =>
    let status := head.line.status
    if status = HTTP_NO_CONTENT then return .ok status
    else do
      let accepted ←
        match responseHandler with
        | some handler => handler status
        | none => pure true
      if accepted then
        match ← readContent head.headers contentReceiver rest with
        | .ok _ => return .ok status
        | .error e => return .error e
      else return .error canceled

/-- `HttpLibClientImpl::Get` with a response handler and a content receiver. -/
def getTo (handler : Httpclient.Response → Except ε Unit) (receive : Str → Effect ε σ Bool)
    (strm : InStream Char) : Effect ε σ Httpclient.Result := do
  let responseHandler : ℤ → Effect ε σ Bool := fun status => do
    Effect.ofExcept (handler ⟨status, []⟩)
    return true
  match ← processResponse (some responseHandler) receive strm with
  | .ok status => return .response ⟨status, []⟩
  | .error e => return .failed e

/-- The receiver that adds to the body of a response. -/
def appendBody (buf : Str) : Effect ε Str Bool := do
  modify (· ++ buf)
  return true

/-- `HttpLibClientImpl::Get`, `Post` and `Put`, which collect the body. -/
def collectResponse (strm : InStream Char) : Effect ε Str Httpclient.Result := do
  match ← processResponse none appendBody strm with
  | .ok status => do
    let body ← get
    return .response ⟨status, body⟩
  | .error e => return .failed e

end Processing

/-! ### What a stream is for the interface -/

/-- A content that is not complete is cut by a failure to read. -/
def Arrival.cut (a : Arrival) : Option Failure := if a.rest.isSome then none else some readFailure

/-- What happens to a request that a stream of bytes answers. -/
def wireOf (strm : InStream Char) : Wire :=
  match readHead strm with
  | none => .failed readFailure
  | some (head, rest) =>
    if head.line.status = HTTP_NO_CONTENT then .answered head.line.status [] none
    else
      let a := contentArrival head.headers rest
      .answered head.line.status a.chunks a.cut

/-! ### The client sees what arrives -/

section Refinement

variable {ε σ : Type}

/-- Without content a response is its status. -/
theorem processResponse_noContent {strm rest : InStream Char} {head : ResponseHead}
    (h : readHead strm = some (head, rest)) (hstatus : head.line.status = HTTP_NO_CONTENT)
    (handler : Option (ℤ → Effect ε σ Bool)) (out : Str → Effect ε σ Bool) :
    processResponse handler out strm = pure (.ok HTTP_NO_CONTENT) := by
  simp only [processResponse, h, hstatus, if_true]

/-- Giving pieces to a receiver that collects them collects them. -/
theorem deliver_appendBody (chunks : List Str) (body : Str) :
    deliver (appendBody (ε := ε)) chunks body = .ok true (body ++ chunks.flatten) := by
  induction chunks generalizing body with
  | nil => simp [deliver]
  | cons chunk chunks ih =>
    have happend : appendBody (ε := ε) chunk body = .ok true (body ++ chunk) := rfl
    rw [deliver, Effect.bind_of_ok happend, if_pos rfl, ih, List.flatten_cons, List.append_assoc]

/-- Receiving what arrives, and then going on with a status or a failure. -/
theorem receive_status (a : Arrival) (out : Str → Effect ε σ Bool) (status : ℤ) :
    (do match ← a.receive out with
      | .ok _ => return .ok status
      | .error e => return .error e : Effect ε σ (Except Failure ℤ)) = (do
      if ← deliver out a.chunks then
        match a.cut with
        | none => return .ok status
        | some e => return .error e
      else return .error canceled) := by
  simp only [Arrival.receive, bind_assoc]
  refine bind_congr fun more => ?_
  obtain ⟨chunks, rest⟩ := a
  cases more <;> cases rest <;> simp [Arrival.cut]

/-- A collected response is what the interface makes of its stream. -/
theorem collectResponse_eq (ofStd : StdException → ε) (strm : InStream Char) :
    ending (collectResponse strm []) =
      ((wireOf strm).collect.mapError ofStd).mapError Fault.thrown := by
  unfold collectResponse wireOf
  cases hhead : readHead strm with
  | none => simp [processResponse, hhead]; rfl
  | some r =>
    obtain ⟨head, rest⟩ := r
    by_cases hstatus : head.line.status = HTTP_NO_CONTENT
    · rw [processResponse_noContent hhead hstatus]
      simp [hstatus]; rfl
    · simp only [processResponse, hhead, if_neg hstatus, readContent_eq, pure_bind, if_true,
        receive_status, bind_assoc]
      rw [Effect.bind_of_ok (deliver_appendBody _ _)]
      simp only [if_true, List.nil_append]
      cases (contentArrival head.headers rest).cut with
      | none => rfl
      | some e => rfl

/-- The response handler is not called for a response without content. -/
theorem getTo_noContent {strm rest : InStream Char} {head : ResponseHead}
    (h : readHead strm = some (head, rest)) (hstatus : head.line.status = HTTP_NO_CONTENT)
    (handler : Httpclient.Response → Except ε Unit) (receive : Str → Effect ε σ Bool) :
    getTo handler receive strm = pure (.response ⟨HTTP_NO_CONTENT, []⟩) := by
  simp only [getTo, processResponse_noContent h hstatus, pure_bind]

/-- Any other streamed response is what the interface makes of its stream. -/
theorem getTo_eq {strm : InStream Char}
    (h : ∀ head rest, readHead strm = some (head, rest) → head.line.status ≠ HTTP_NO_CONTENT)
    (ofStd : StdException → ε) (handler : Httpclient.Response → Except ε Unit)
    (receive : Str → Effect ε σ Bool) :
    getTo handler receive strm = (wireOf strm).stream ofStd handler receive := by
  unfold getTo wireOf
  cases hhead : readHead strm with
  | none => simp [processResponse, hhead, Wire.stream]
  | some r =>
    obtain ⟨head, rest⟩ := r
    have hstatus := h head rest hhead
    simp only [processResponse, hhead, if_neg hstatus, readContent_eq, receive_status, bind_assoc,
      pure_bind, if_true, Wire.stream]
    refine bind_congr fun _ => bind_congr fun more => ?_
    cases more with
    | false => simp [canceled]
    | true => cases (contentArrival head.headers rest).cut <;> simp

end Refinement

end Up2date.Httplib
