import Up2date.Httplib.Wires

/-!
# Exchanges over a connection

A request is sent over a connection and its response is read from it. No connection may be
made, a request without a path is not sent, and its bytes may not all be accepted; otherwise
the bytes that come back decide what the interface of the library sees.
-/

namespace Up2date.Httplib

open Cxx
open Httpclient (Failure Wire deliver)

/-- What becomes of the bytes of a request, and what comes back. -/
structure Connection where
  accepted : Bool
  strm : InStream Char

/-- `send` and `handle_request`, with what processes the response. -/
def handleRequest {ε σ : Type} (target : Str) (process : InStream Char → Effect ε σ Httpclient.Result) :
    Except Failure Connection → Effect ε σ Httpclient.Result
  | .error e => return .failed e
  | .ok connection =>
    if target = [] then return .failed ⟨.connection, by decide⟩
    else if connection.accepted then process connection.strm
    else return .failed ⟨.write, by decide⟩

/-- What happens to a request that is sent over a connection. -/
def wireOver (target : Str) : Except Failure Connection → Wire
  | .error e => .failed e
  | .ok connection =>
    if target = [] then .failed ⟨.connection, by decide⟩
    else if connection.accepted then wireOf connection.strm
    else .failed ⟨.write, by decide⟩

/-- A request that is answered is answered over its connection. -/
theorem wireOver_eq_answered {target : Str} {connection : Except Failure Connection} {status : ℤ}
    {chunks : List Str} {cut : Option Failure}
    (h : wireOver target connection = .answered status chunks cut) :
    ∃ c, connection = .ok c ∧ c.accepted = true ∧ wireOf c.strm = .answered status chunks cut := by
  cases connection with
  | error e => cases h
  | ok c =>
    simp only [wireOver] at h
    split at h
    · cases h
    split at h
    next haccepted => exact ⟨c, rfl, haccepted, h⟩
    · cases h

/-- A request that is answered completely has got a complete response. -/
theorem isResponse_of_answered {target : Str} {connection : Except Failure Connection} {status : ℤ}
    {chunks : List Str} (h : wireOver target connection = .answered status chunks none) :
    ∃ c head tail, connection = .ok c ∧ c.accepted = true ∧ head.line.status = status ∧
      IsResponse c.strm.broken c.strm.content (head, chunks.flatten) tail := by
  obtain ⟨c, rfl, haccepted, hwire⟩ := wireOver_eq_answered h
  have hcollect : (wireOf c.strm).collect = .ok (.response ⟨status, chunks.flatten⟩) := by
    rw [hwire]
    rfl
  obtain ⟨head, tail, hstatus, hresponse⟩ :=
    (collect_eq_response_iff c.strm ⟨status, chunks.flatten⟩).mp hcollect
  exact ⟨c, head, tail, rfl, haccepted, hstatus, hresponse⟩

section Refinement

variable {ε σ : Type}

/-- A collected response is what the interface makes of its connection. -/
theorem handleRequest_collect (ofStd : StdException → ε) (target : Str)
    (connection : Except Failure Connection) :
    ending (handleRequest target collectResponse connection []) =
      ((wireOver target connection).collect.mapError ofStd).mapError Fault.thrown := by
  cases connection with
  | error e => rfl
  | ok connection =>
    simp only [handleRequest, wireOver]
    split
    · rfl
    split
    · exact collectResponse_eq ofStd connection.strm
    · rfl

/-- Nothing follows an exception. -/
theorem raise_bind {α β : Type} (e : ε) (k : α → Effect ε σ β) :
    (Effect.raise e >>= k) = Effect.raise e := rfl

/-- The response handler is not called for a response without content, which does not matter
when the handler ends as what is made of the result. -/
theorem getTo_check {α : Type} (ofStd : StdException → ε)
    {handler : Httpclient.Response → Except ε Unit} {check : Httpclient.Result → Except ε α} {e : ε}
    (hhandler : handler ⟨HTTP_NO_CONTENT, []⟩ = .error e)
    (hcheck : check (.response ⟨HTTP_NO_CONTENT, []⟩) = .error e)
    (receive : Str → Effect ε σ Bool) (strm : InStream Char) :
    (getTo handler receive strm >>= fun r => Effect.ofExcept (check r)) =
      ((wireOf strm).stream ofStd handler receive >>= fun r => Effect.ofExcept (check r)) := by
  by_cases hno : ∃ head rest, readHead strm = some (head, rest) ∧ head.line.status = HTTP_NO_CONTENT
  · obtain ⟨head, rest, hhead, hstatus⟩ := hno
    have hwire : wireOf strm = .answered HTTP_NO_CONTENT [] none := by
      rw [wireOf, hhead]
      simp only [hstatus, if_true]
    simp only [getTo_noContent hhead hstatus, hwire, Wire.stream, hhandler, pure_bind, hcheck,
      Effect.ofExcept, raise_bind]
  · rw [getTo_eq fun head rest hhead hstatus => hno ⟨head, rest, hhead, hstatus⟩]

/-- A streamed response is what the interface makes of its connection. -/
theorem handleRequest_getTo {α : Type} (ofStd : StdException → ε)
    {handler : Httpclient.Response → Except ε Unit} {check : Httpclient.Result → Except ε α} {e : ε}
    (hhandler : handler ⟨HTTP_NO_CONTENT, []⟩ = .error e)
    (hcheck : check (.response ⟨HTTP_NO_CONTENT, []⟩) = .error e)
    (receive : Str → Effect ε σ Bool) (target : Str) (connection : Except Failure Connection) :
    (handleRequest target (getTo handler receive) connection >>= fun r => Effect.ofExcept (check r)) =
      ((wireOver target connection).stream ofStd handler receive >>= fun r =>
        Effect.ofExcept (check r)) := by
  cases connection with
  | error e => rfl
  | ok connection =>
    simp only [handleRequest, wireOver]
    split
    · rfl
    split
    · exact getTo_check ofStd hhandler hcheck receive connection.strm
    · rfl

end Refinement

end Up2date.Httplib
