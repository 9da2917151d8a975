import Up2date.Ddi.Requests

/-!
# Downloads and the other calls of user code

The three download methods of an artifact, and through them everything that user code can
call from an event callback.
-/

namespace Up2date.Ddi

open Cxx Uri Httpclient

/-- `formatDownloadPath`. -/
def formatDownloadPath (downloadUri : URI) : Str :=
  if downloadUri.hasQuery then downloadUri.path ++ "?".toList ++ downloadUri.query
  else downloadUri.path

/-- The response handler of a streaming download. -/
def acceptOk (r : Httpclient.Response) : Except Exn Unit := checkHttpCode r.status HTTP_OK

/-- Open a file for writing, which empties it; a failure sets `failbit` only. -/
def openFile (env : Environment) (path : Str) : Program Unit :=
  modify fun w =>
    if env.fileOpens w.trace path then
      { w with file := { path }, files := Function.update w.files path (some []) }
    else { w with file := { path, failbit := true } }

/-- Write to the open file: nothing happens on a stream that is not good, and a failure sets
`badbit`. The answer is the one of the content receiver of `downloadTo`. -/
def writeFile (env : Environment) (chunk : Str) : Program Bool := do
  let w ← get
  if w.file.failbit || w.file.badbit then return !w.file.badbit
  let file := { w.file with
    writes := w.file.writes ++ [chunk]
    badbit := !env.fileWrites w.trace w.file chunk }
  modify fun w => { w with file }
  return !file.badbit

/-- Closing an opened file writes what is still buffered, all of it or a first part. -/
def closeFile (env : Environment) (w : World) : World :=
  if w.file.failbit then w
  else
    let content := w.file.writes.flatten
    let stored := match env.fileFlushes w.trace w.file with
      | none => content
      | some n => content.take n
    { w with files := Function.update w.files w.file.path (some stored) }

/-- `downloadTo`; the stream is closed when the function is left. -/
def downloadTo (env : Environment) (downloadURI : URI) (path : Str) : Program Unit := do
  openFile env path
  Effect.noting (do
    let _ ← retryHandler env .download downloadURI fun cli => do
      let w ← get
      cli.getTo env (formatDownloadPath downloadURI) w.client.defaultHeaders acceptOk (writeFile env))
    fun _ w => closeFile env w

/-- `getBody`: the body of the response. -/
def getBody (env : Environment) (downloadURI : URI) : Program Str := do
  let resp ← retryHandler env .download downloadURI fun cli => do
    let w ← get
    cli.get env (formatDownloadPath downloadURI) w.client.defaultHeaders
  return resp.body

/-- Give one chunk to a user's receiver, which has seen the earlier ones. -/
def receiveChunk (receiver : ContentReceiver) (chunk : Str) : Program Bool := do
  let w ← get
  modify fun w => { w with received := w.received ++ [chunk] }
  match receiver w.received chunk with
  | .more => return true
  | .refuse => return false
  | .raise e => Effect.raise e

/-- `downloadWithReceiver`: the body goes to a receiver of the user. -/
def downloadWithReceiver (env : Environment) (downloadURI : URI) (func : ContentReceiver) :
    Program Unit := do
  modify fun w => { w with received := [] }
  let _ ← retryHandler env .download downloadURI fun cli => do
    let w ← get
    cli.getTo env (formatDownloadPath downloadURI) w.client.defaultHeaders acceptOk
      (receiveChunk func)

/-- A call of one of the three download methods. -/
def performDownload (env : Environment) (downloadURI : URI) : Download → Program Reply
  | .downloadTo path => do
    downloadTo env downloadURI path
    return none
  | .getBody => do
    let body ← getBody env downloadURI
    return some body
  | .downloadWithReceiver receiver => do
    downloadWithReceiver env downloadURI receiver
    return none

/-- A call made by an implementation of an event callback. -/
def performCall (env : Environment) : UserCall → Program Reply
  | .set s => do
    performSetting s
    return none
  | .signal s => do
    modify fun w => w.signal s
    return none
  | .download downloadURI d => do
    record (.download downloadURI d)
    performDownload env downloadURI d

/-- Run a callback; what it returns is recorded. -/
def callback {α : Type} (env : Environment) (c : Callback) (code : List Event → UserCode α)
    (answer : α → Answer) : Program α := do
  record (.called c)
  let w ← get
  let a ← (code w.trace).run (performCall env)
  record (.returned c (answer a))
  return a

end Up2date.Ddi
