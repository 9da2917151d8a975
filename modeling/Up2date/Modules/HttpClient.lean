import Up2date.Cxx.Effects
import Up2date.Cxx.Multimap
import Up2date.Cxx.Strings
import Mathlib.Data.List.Lex
import Mathlib.Order.Lex
import Mathlib.Data.Char

/-!
# The HTTP client interface

The data the library exchanges with an HTTP backend, and the contract every backend keeps:
what a server does with one request decides the result of `Get`, `Put` and `Post`, and the
calls of the response handler and the content receiver of a streaming `Get`. The server
itself is not part of the program; any reply, any chunking of a body and a failure after
any number of chunks are possible.
-/

namespace Up2date.Httpclient

open Cxx

/-- `httpclient::Error` -/
inductive Error
  | success | unknown | connection | bindIPAddress | read | write | exceedRedirectCount
  | canceled | sslConnection | sslLoadingCerts | sslServerVerification
  | unsupportedMultipartBoundaryChars | compression
deriving DecidableEq, Repr

/-- The number of an error, `Success` being 0. -/
def Error.toInt : Error → ℤ
  | .success => 0
  | .unknown => 1
  | .connection => 2
  | .bindIPAddress => 3
  | .read => 4
  | .write => 5
  | .exceedRedirectCount => 6
  | .canceled => 7
  | .sslConnection => 8
  | .sslLoadingCerts => 9
  | .sslServerVerification => 10
  | .unsupportedMultipartBoundaryChars => 11
  | .compression => 12

/-- An error other than `Success`. -/
abbrev Failure := { e : Error // e ≠ .success }

/-- `httpclient::Headers` -/
abbrev Headers := Multimap Str Str

/-- `httpclient::mTLSKeyPair` -/
structure MTLSKeyPair where
  crt : Str
  key : Str
deriving DecidableEq, Repr

/-- `httpclient::Response` -/
structure Response where
  status : ℤ
  body : Str
deriving DecidableEq, Repr

/-- `httpclient::Result`: a response, present exactly when there was no error. -/
inductive Result
  | response (r : Response)
  | failed (e : Failure)
deriving DecidableEq, Repr

/-- `Result::error` -/
def Result.error : Result → Error
  | .response _ => .success
  | .failed e => e.val

/-- The request line method. -/
inductive Method
  | get | put | post
deriving DecidableEq, Repr

/-- One request as it is handed to the backend. -/
structure Request where
  method : Method
  endpoint : Str
  target : Str
  keyPair : Option MTLSKeyPair
  verify : Bool
  headers : Headers
  body : Str
  contentType : Str
deriving DecidableEq

/-- What happens to one request: the backend throws, nothing is received, or a status and
body chunks arrive, after which the connection may still fail. -/
inductive Wire
  | threw (e : StdException)
  | failed (e : Failure)
  | answered (status : ℤ) (chunks : List Str) (cut : Option Failure)
deriving DecidableEq, Repr

/-- The result of a request whose whole body is collected. -/
def Wire.collect : Wire → Except StdException Result
  | .threw e => .error e
  | .failed e => .ok (.failed e)
  | .answered _ _ (some e) => .ok (.failed e)
  | .answered status chunks none => .ok (.response ⟨status, chunks.flatten⟩)

/-- Give chunks to a content receiver until it answers false, throws, or has seen them all. -/
def deliver {ε σ : Type} (receive : Str → Effect ε σ Bool) : List Str → Effect ε σ Bool
  | [] => pure true
  | chunk :: rest => do
    if ← receive chunk then deliver receive rest else pure false

/-- The result of a streaming `Get`: the response handler sees the status before any content,
an exception it throws propagates, and a false from the receiver is an error. -/
def Wire.stream {ε σ : Type} (ofStd : StdException → ε) (handler : Response → Except ε Unit)
    (receive : Str → Effect ε σ Bool) : Wire → Effect ε σ Result
  | .threw e => Effect.raise (ofStd e)
  | .failed e => pure (.failed e)
  | .answered status chunks cut => do
    Effect.ofExcept (handler ⟨status, []⟩)
    if ← deliver receive chunks then
      match cut with
      | some e => pure (.failed e)
      | none => pure (.response ⟨status, []⟩)
    else pure (.failed ⟨.canceled, by decide⟩)

end Up2date.Httpclient
