import Up2date.Ddi.Actions
import Up2date.Ddi.Client

/-!
# The client in its environment

The state of a running program is its client together with a trace of everything that has
happened: the attempts of every request, the callbacks, and the calls made on the client.
What the servers, the user's handlers and the file system do next is a function of that
trace, so an environment describes every behaviour they can show. User code is a tree of
calls on the objects it was given; other threads call `stop` and `requestToPoll` while a
request is under way.
-/

namespace Up2date.Ddi

open Cxx Uri Httpclient
open Json (Value)

/-- What a request issued through `retryHandler` is for. -/
inductive Exchange
  | poll | configData | action | feedback | download
deriving DecidableEq, Repr

/-- The two calls of `wrappedRequest` in `retryHandler`. -/
inductive Attempt
  | first | second
deriving DecidableEq, Repr

/-- The calls another thread may make. -/
inductive Signal
  | stop | requestToPoll
deriving DecidableEq, Repr

/-- A content receiver's answer to one chunk. -/
inductive Verdict
  | more | refuse | raise (e : Exn)

/-- A user's content receiver, as a function of the chunks given before and of the next one. -/
abbrev ContentReceiver := List Str → Str → Verdict

/-- The three download methods of an artifact. -/
inductive Download
  | downloadTo (path : Str)
  | getBody
  | downloadWithReceiver (receiver : ContentReceiver)

/-- The calls of user code: on an `AuthRestoreHandler`, on the client, on an artifact. -/
inductive UserCall
  | set (s : Setting)
  | signal (s : Signal)
  | download (downloadURI : URI) (d : Download)

/-- What a call returns, the content of a body included. -/
abbrev Reply := Option Str

/-- A user's implementation of an event callback. -/
abbrev UserCode (α : Type) := Interaction Exn UserCall Reply α

/-- A user's implementation of `onAuthError`. -/
abbrev RestoreCode := Interaction Exn (Setting ⊕ Signal) Unit Unit

/-- `Response::Finished` -/
inductive Finished
  | success | failure | none
deriving DecidableEq, Repr

/-- `Response::Execution` -/
inductive Execution
  | closed | proceeding | canceled | scheduled | rejected | resumed | download | downloaded
deriving DecidableEq, Repr

/-- `ResponseDeliveryListener` -/
structure ResponseDeliveryListener where
  onSuccessfulDelivery : UserCode Unit
  onError : UserCode Unit

/-- `ddi::Response` -/
structure Response where
  finished : Finished
  execution : Execution
  details : List Str := []
  deliveryListener : Option ResponseDeliveryListener := none
  ignoreSleep : Bool := false

/-- `ConfigResponse::Mode` -/
inductive Mode
  | merge | replace | remove
deriving DecidableEq, Repr

/-- `ddi::ConfigResponse`, whose data is a `std::map`: keys are unique and in order. -/
structure ConfigResponse where
  data : List (Str × Str)
  sorted : data.Pairwise fun a b => a.1 < b.1
  mode : Mode := .merge
  ignoreSleep : Bool := false

/-- The callbacks of an `EventHandler` and of a listener, with their arguments. -/
inductive Callback
  | onConfigRequest
  | onCancelAction (action : CancelAction)
  | onDeploymentAction (action : DeploymentBase)
  | onNoActions
  | onSuccessfulDelivery
  | onError

/-- What a callback returns. -/
inductive Answer
  | void
  | config (r : Option ConfigResponse)
  | response (r : Option Response)

/-- How a computation ended, when its value does not matter. -/
abbrev Outcome := Except (Fault Exn) Unit

/-- Everything that can be observed of a run. -/
inductive Event
  | issued (exchange : Exchange)
  | sent (exchange : Exchange) (attempt : Attempt) (request : Request) (wire : Wire)
  | ended (exchange : Exchange) (attempt : Attempt) (outcome : Outcome)
  | concluded (exchange : Exchange) (outcome : Outcome)
  | onAuthError (during : Option Exchange)
  | restored (during : Option Exchange) (cli : HawkbitCommunicationClient)
  | called (callback : Callback)
  | returned (callback : Callback) (answer : Answer)
  | set (s : Setting)
  | signal (s : Signal)
  | download (downloadURI : URI) (d : Download)

/-- A `std::ofstream` and the writes made on it. -/
structure FileStream where
  path : Str := []
  writes : List Str := []
  failbit : Bool := false
  badbit : Bool := false
deriving DecidableEq, Repr

/-- The state of the program, of the receiver of the current download and of the files. -/
structure World where
  client : HawkbitCommunicationClient
  trace : List Event := []
  received : List Str := []
  file : FileStream := {}
  files : Str → Option Str := fun _ => none

/-- What a server does with a request, and what other threads call meanwhile. -/
structure ServerReply where
  wire : Wire
  signals : List Signal := []

/-- `ddi::EventHandler`, each callback as a function of the trace before it. -/
structure EventHandler where
  onConfigRequest : List Event → UserCode (Option ConfigResponse)
  onCancelAction : List Event → CancelAction → UserCode (Option Response)
  onDeploymentAction : List Event → DeploymentBase → UserCode (Option Response)
  onNoActions : List Event → UserCode Unit

/-- Everything outside the client: the JSON library, the constructor of the HTTP backend, the
servers, the file system and the handlers. -/
structure Environment where
  parse : Str → Option Value
  write : Value → Str
  connect : List Event → Str → Option MTLSKeyPair → Except StdException Unit
  server : List Event → Request → ServerReply
  fileOpens : List Event → Str → Bool
  fileWrites : List Event → FileStream → Str → Bool
  fileFlushes : List Event → FileStream → Option ℕ
  handler : EventHandler
  authErrorHandler : Option (List Event → RestoreCode)

/-- The text of a JSON object without members. -/
def emptyObject : Str := "\x7b\x7d".toList

/-- An environment in which nothing fails and the server asks for nothing. -/
def idleEnvironment : Environment where
  parse s := if s = emptyObject then some (.object []) else none
  write _ := emptyObject
  connect _ _ _ := .ok ()
  server _ _ := { wire := .answered HTTP_OK [emptyObject] none }
  fileOpens _ _ := true
  fileWrites _ _ _ := true
  fileFlushes _ _ := none
  handler :=
    { onConfigRequest := fun _ => .done none
      onCancelAction := fun _ _ => .done none
      onDeploymentAction := fun _ _ => .done none
      onNoActions := fun _ => .done () }
  authErrorHandler := none

/-- A client with an endpoint. -/
def endpointClient : HawkbitCommunicationClient :=
  { hawkbitURI := { scheme := "http".toList, authority := "h".toList, path := "/p".toList },
    defaultSleepTime := 30000, currentSleepTime := 30000 }

/-- Computations of the client. -/
abbrev Program (α : Type) := Effect Exn World α

/-- Forget the value of an outcome. -/
def outcome {α : Type} (r : Except (Fault Exn) α) : Outcome := r.map fun _ => ()

/-- Add an event to the trace. -/
def World.log (e : Event) (w : World) : World := { w with trace := w.trace ++ [e] }

/-- An event is recorded. -/
def record (e : Event) : Program Unit := modify (World.log e)

/-- An event after a known extension of a trace. -/
theorem World.log_trace {w : World} {earlier seg : List Event} (h : w.trace = earlier ++ seg)
    (e : Event) : (w.log e).trace = earlier ++ (seg ++ [e]) := by
  rw [← List.append_assoc, ← h]
  rfl

/-- It only makes the trace longer. -/
@[simp] theorem record_apply (e : Event) (w : World) : record e w = .ok () (w.log e) := rfl

/-- `stop` and `requestToPoll` set one flag each. -/
def HawkbitCommunicationClient.signal (cli : HawkbitCommunicationClient) :
    Signal → HawkbitCommunicationClient
  | .stop => { cli with isRunning := false }
  | .requestToPoll => { cli with pollRequested := true }

/-- The state after a call of `stop` or `requestToPoll`. -/
def World.signal (w : World) (s : Signal) : World :=
  { w.log (.signal s) with client := w.client.signal s }

/-- A call on an `AuthRestoreHandler_` of the client. -/
def performSetting (s : Setting) : Program Unit := do
  record (.set s)
  let w ← get
  let cli ← Effect.ofExcept (((AuthRestoreHandler.mk w.client).perform s).mapError Exn.std)
  modify fun w => { w with client := cli }

/-- A call made by an implementation of `onAuthError`. -/
def performRestore : Setting ⊕ Signal → Program Unit
  | .inl s => performSetting s
  | .inr s => modify fun w => w.signal s

/-- Call `onAuthError` with an `AuthRestoreHandler_` of the client. -/
def callOnAuthError (during : Option Exchange) (onAuthError : List Event → RestoreCode) :
    Program Unit := do
  record (.onAuthError during)
  let w ← get
  (onAuthError w.trace).run performRestore
  let w ← get
  record (.restored during w.client)

/-- Use the outcome of a decoder. -/
def ofDecoder {α : Type} : Decoder α → Program α
  | .ok a => pure a
  | .error f => throw f

end Up2date.Ddi
