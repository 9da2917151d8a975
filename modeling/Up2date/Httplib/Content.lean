import Up2date.Httplib.Headers
import Up2date.Modules.HttpClient
import Mathlib.Data.List.Infix

/-!
# The content of a message

The content follows the headers: as many bytes as their `Content-Length` says, or chunks with
their lengths before them, or everything up to the end of the connection. It is given to a
receiver in pieces as it arrives, until it is complete, the connection fails, or the receiver
refuses a piece. What arrives does not depend on the receiver, which only ends the reading.
-/

namespace Up2date.Httplib

open Cxx
open Httpclient (Failure deliver)

/-- The size of the buffer for what is received. -/
def CPPHTTPLIB_RECV_BUFSIZ : ℕ := 4096

/-- The greatest length. -/
def ULONG_MAX : ℕ := 2 ^ 64 - 1

/-! ### Numbers -/

/-- The value of a conversion to 64 bits without a sign. -/
def toUnsignedLong (negative : Bool) (n : ℕ) : ℕ :=
  if ULONG_MAX < n then ULONG_MAX else if negative then (2 ^ 64 - n) % 2 ^ 64 else n

/-- A hexadecimal digit. -/
def isHexDigit (c : Char) : Bool := (hexValue c).isSome

/-- The number a run of hexadecimal digits denotes. -/
def hexDigitsValue (ds : Str) : ℕ := ds.foldl (fun n c => n * 16 + (hexValue c).getD 0) 0

/-- The optional prefix of a hexadecimal number. -/
def dropHexPrefix : Str → Str
  | '0' :: x :: c :: rest =>
    if (x = 'x' ∨ x = 'X') ∧ isHexDigit c = true then c :: rest else '0' :: x :: c :: rest
  | s => s

/-- `strtoul` in base 16, or no conversion. -/
def strtoulHex (s : Str) : Option ℕ :=
  let signed := takeSign (s.dropWhile isSpace)
  let digits := (dropHexPrefix signed.2).takeWhile isHexDigit
  if digits = [] then none else some (toUnsignedLong signed.1 (hexDigitsValue digits))

/-- `strtoull` in base 10, which is 0 without a number. -/
def strtoull (s : Str) : ℕ :=
  match strtol s with
  | none => 0
  | some (n, _) => toUnsignedLong (decide (n < 0)) n.natAbs

/-! ### Reading -/

/-- The error of a failure to read is an error. -/
theorem read_ne_success : Httpclient.Error.read ≠ .success := by decide

/-- The error of a receiver that refuses is an error. -/
theorem canceled_ne_success : Httpclient.Error.canceled ≠ .success := by decide

/-- The failure of a connection that breaks off. -/
def readFailure : Failure := ⟨.read, read_ne_success⟩

/-- The failure of a receiver that does not want more. -/
def canceled : Failure := ⟨.canceled, canceled_ne_success⟩

variable {ε σ : Type}

/-- `read_content_with_length`: the stream behind the content, or why there is none. -/
def readContentWithLength (out : Str → Effect ε σ Bool) (len r : ℕ) (strm : InStream Char) :
    Effect ε σ (Except Failure (InStream Char)) :=
  if _hr : r < len then
    match _h : strm.read (min (len - r) CPPHTTPLIB_RECV_BUFSIZ) with
    | .data buf rest => do
      if ← out buf then readContentWithLength out len (r + buf.length) rest
      else return .error canceled
    | _ => return .error readFailure
  else return .ok strm
termination_by strm.content.length
decreasing_by
  have hpos : 0 < min (len - r) CPPHTTPLIB_RECV_BUFSIZ := by
    simp only [CPPHTTPLIB_RECV_BUFSIZ]
    omega
  obtain ⟨hne, -, hcontent, -⟩ := InStream.read_data hpos _h
  rw [hcontent, List.length_append]
  exact Nat.lt_add_of_pos_left (List.length_pos_iff.mpr hne)

/-- `read_content_without_length` -/
def readContentWithoutLength (out : Str → Effect ε σ Bool) (strm : InStream Char) :
    Effect ε σ (Except Failure (InStream Char)) :=
  match _h : strm.read CPPHTTPLIB_RECV_BUFSIZ with
  | .failed => return .error readFailure
  | .closed => return .ok strm
  | .data buf rest => do
    if ← out buf then readContentWithoutLength out rest else return .error canceled
termination_by strm.content.length
decreasing_by
  obtain ⟨hne, -, hcontent, -⟩ := InStream.read_data (by decide) _h
  rw [hcontent, List.length_append]
  exact Nat.lt_add_of_pos_left (List.length_pos_iff.mpr hne)

/-- The length of a chunk, which the line before it begins with. -/
def chunkLength (line : Str) : Option ℕ := (strtoulHex (cstr line)).filter (· ≠ ULONG_MAX)

/-- Read a line, and test whether it is empty. -/
def readBlank : Reader Char Bool := fun strm =>
  (getline strm).map fun r => (decide (cstr r.1 = crlf), r.2)

/-- A turn of the loop of `read_content_chunked`: a line with a length, and a chunk of this
length with an empty line behind it. The loop is left without a failure when another line
follows the chunk. -/
def readChunk (out : Str → Effect ε σ Bool)
    (next : Str → InStream Char → Effect ε σ (Except Failure (InStream Char)))
    (line : Str) (strm : InStream Char) : Effect ε σ (Except Failure (InStream Char)) :=
  match chunkLength line with
  | none => return .error readFailure
  | some 0 =>
    match readBlank strm with
    | some (true, rest) => return .ok rest
    | _ => return .error readFailure
  | some len => do
    match ← readContentWithLength out len 0 strm with
    | .error e => return .error e
    | .ok rest =>
      match readBlank rest with
      | none => return .error readFailure
      | some (false, rest) => return .ok rest
      | some (true, rest) =>
        match getline rest with
        | none => return .error readFailure
        | some (line, rest) => next line rest

/-- The loop, in at most so many turns. -/
def readChunks (out : Str → Effect ε σ Bool) :
    ℕ → Str → InStream Char → Effect ε σ (Except Failure (InStream Char))
  | 0 => fun _ _ => throw .undefined
  | turns + 1 => readChunk out (readChunks out turns)

/-- `read_content_chunked`. Every turn reads a line at least, so there are no more turns than
bytes to come. -/
def readContentChunked (out : Str → Effect ε σ Bool) (strm : InStream Char) :
    Effect ε σ (Except Failure (InStream Char)) :=
  match getline strm with
  | none => return .error readFailure
  | some (line, rest) => readChunks out (rest.content.length + 1) line rest

/-- `is_chunked_transfer_encoding` -/
def isChunkedTransferEncoding (headers : Headers) : Bool :=
  decide (fold (headers.getHeaderValue "Transfer-Encoding".toList []) = "chunked".toList)

/-- The content codings for which a decompressor is missing. -/
def isCompressed (headers : Headers) : Bool :=
  let encoding := headers.getHeaderValue "Content-Encoding".toList []
  decide (encoding = "gzip".toList ∨ encoding = "deflate".toList ∨ "br".toList <:+: encoding)

/-- The header with the length of the body. -/
def contentLengthName : Str := "Content-Length".toList

/-- `get_header_value<uint64_t>` -/
def contentLength (headers : Headers) : ℕ :=
  strtoull (headers.getHeaderValue contentLengthName [])

/-- `read_content`, with the greatest `size_t` for the length of a payload. -/
def readContent (headers : Headers) (out : Str → Effect ε σ Bool) (strm : InStream Char) :
    Effect ε σ (Except Failure (InStream Char)) :=
  if isCompressed headers then return .error readFailure
  else if isChunkedTransferEncoding headers then readContentChunked out strm
  else if !headers.hasHeader contentLengthName then readContentWithoutLength out strm
  else if contentLength headers > ULONG_MAX then return .error readFailure
  else readContentWithLength out (contentLength headers) 0 strm

end Up2date.Httplib
