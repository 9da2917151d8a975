import Up2date.Ddi.TlsServers
import Up2date.Example.Reloading

/-!
# The servers of a client that provisions itself

`up2date_client` sends nothing without a key pair, and a key pair makes its clients use TLS and
verify. So nothing that a run takes for an answer comes from a server that has not proved to be
the host of the request, as far as the connections are determined.
-/

namespace Up2date.Example

open Cxx Uri Httpclient Ddi
open Httplib (IsResponse)

/-- The connections of all requests in a trace are determined. -/
def DeterminedIn (servers : TlsServers) (trace : List Event) : Prop :=
  ∀ pre x a request wire post, trace = pre ++ .sent x a request wire :: post →
    servers.Determined pre request

/-- A complete response with the status 200 came from a server that had proved to be its host. -/
def CameFrom (servers : TlsServers) (trace : List Event) (x : Exchange) (body : Str) : Prop :=
  ∃ before a request wire after connection head tail,
    trace = before ++ .sent x a request wire :: after ∧ servers.Proved before request ∧
      servers.tcp before request = .ok connection ∧ head.line.status = HTTP_OK ∧
        IsResponse connection.strm.broken connection.strm.content (head, body) tail

section Runs

variable {env : Environment} {h : DPSInfoReloadHandler} {servers : TlsServers}
  {schedule : ℕ → List Signal} {cli : HawkbitCommunicationClient} {n : ℕ} {pre post : List Event}
  {x : Exchange} {a : Attempt} {request : Request}

/-- Every request verifies, and uses TLS. -/
theorem verifies_of_trace {wire : Wire} (hempty : cli.hawkbitURI.isEmpty = true)
    (htrace : (exec (up2dateClient env h) schedule cli n).world.trace =
      pre ++ .sent x a request wire :: post) :
    request.verify = true ∧ ∀ impl, implementationOf request = some impl → impl.isSsl = true := by
  obtain ⟨_, _, _, _, -, -, hcarried, _, _, payload, -, -, hprovided⟩ :=
    carried_of_trace hempty htrace
  obtain ⟨hkeyPair, hverify, -⟩ := hprovided.carried hcarried
  have hisSome : request.keyPair.isSome = true := by
    rw [hkeyPair]
    rfl
  exact ⟨hverify, fun _ => isSsl_of_keyPair hisSome⟩

/-- The example among these servers is answered over their connections. -/
theorem repliesOver_up2dateClient :
    RepliesOver (up2dateClient (env.over servers.connections) h) servers.connections :=
  fun _ _ => rfl

/-- A request of the example that is connected is connected to a server that has proved to be its
host. -/
theorem proved_of_connected {wire : Wire} {connection : Httplib.Connection}
    (hempty : cli.hawkbitURI.isEmpty = true)
    (htrace : (exec (up2dateClient env h) schedule cli n).world.trace =
      pre ++ .sent x a request wire :: post)
    (hconnection : servers.connection pre request = some (.ok connection)) :
    servers.Proved pre request := by
  obtain ⟨hverify, hssl⟩ := verifies_of_trace hempty htrace
  exact OpenSsl.proved_of_connection hconnection hverify hssl

/-- What came over the connections came from proved servers. -/
theorem cameFrom_of_cameOver {body : Str} (hempty : cli.hawkbitURI.isEmpty = true)
    (hdetermined : DeterminedIn servers
      (exec (up2dateClient (env.over servers.connections) h) schedule cli n).world.trace)
    (htrace : (exec (up2dateClient (env.over servers.connections) h) schedule cli n).world.trace =
      pre ++ post) (hover : CameOver servers.connections pre x body) :
    CameFrom servers pre x body := by
  obtain ⟨before, a, request, wire, after, connection, head, tail, rfl, hconnected, -, hstatus,
    hresponse⟩ := hover
  have hsplit : (exec (up2dateClient (env.over servers.connections) h) schedule cli n).world.trace =
      before ++ .sent x a request wire :: (after ++ post) := by
    rw [htrace, List.append_assoc]
    rfl
  have hconnection := TlsServers.connection_of_determined
    (hdetermined before x a request wire _ hsplit) hconnected
  exact ⟨before, a, request, wire, after, connection, head, tail, rfl,
    proved_of_connected hempty hsplit hconnection, (OpenSsl.connection_spec.mp hconnection).1,
    hstatus, hresponse⟩

end Runs

/-- In every run of the example over TLS every request that is answered, over a connection that is
determined, is answered by a server that has proved to be its host. -/
theorem exec_proved (env : Environment) (h : DPSInfoReloadHandler) (servers : TlsServers)
    (schedule : ℕ → List Signal) {cli : HawkbitCommunicationClient}
    (hempty : cli.hawkbitURI.isEmpty = true) {n : ℕ} {pre post : List Event} {x : Exchange}
    {a : Attempt} {request : Request} {status : ℤ} {chunks : List Str} {cut : Option Failure}
    (htrace : (exec (up2dateClient (env.over servers.connections) h) schedule cli n).world.trace =
      pre ++ .sent x a request (.answered status chunks cut) :: post)
    (hdetermined : servers.Determined pre request) : servers.Proved pre request := by
  obtain ⟨connection, hconnection⟩ :=
    connection_of_answered repliesOver_up2dateClient htrace hdetermined
  exact proved_of_connected hempty htrace hconnection

/-- A file of two bytes, to be downloaded over TLS. -/
def secureFirmware : DeploymentDescription :=
  firmwareAt ⟨"https://h/f".toList,
    { scheme := "https".toList, authority := "h".toList, path := "/f".toList },
    by decide +kernel⟩ 2

/-- The error of a connection that fails is an error. -/
theorem connection_ne_success : Httpclient.Error.connection ≠ .success := by decide

/-- Servers with a certificate for every name of one component, and a deployment. -/
def starServers : TlsServers where
  inetPton := { inet6 := fun _ => none, inet := fun _ => none }
  context _ := true
  tcp := serving (deployingServer "https://h/d".toList secureFirmware)
  handshake _ _ := ⟨true, true, some ⟨some [.dns "*".toList], none⟩⟩
  undetermined _ _ := .error ⟨.connection, connection_ne_success⟩

/-- An environment with the JSON library. -/
def jsonEnvironment : Environment :=
  { idleEnvironment with parse := Json.parse, write := Json.write }

/-- A run of the example among these servers. -/
def starTrace : List Event :=
  (exec (up2dateClient (jsonEnvironment.over starServers.connections) thirdTimeHandler) (fun _ => [])
    freshClient 6).world.trace

/-- A request that is connected without doubt. -/
def Event.isDetermined : Event → Bool
  | .sent _ _ request _ => (starServers.connection [] request).isSome
  | _ => true

/-- Every request of the run has a handshake that is determined. -/
theorem starTrace_determined : starTrace.all Event.isDetermined = true := by decide +kernel

/-- The run is determined. -/
theorem determinedIn_starTrace : DeterminedIn starServers starTrace := by
  intro pre x a request wire post htrace
  have hmem : .sent x a request wire ∈ starTrace := by
    rw [htrace]
    exact List.mem_append_right _ List.mem_cons_self
  exact List.all_eq_true.mp starTrace_determined _ hmem

/-- An artifact that is downloaded. -/
def Event.isDownloaded : Event → Bool
  | .sent .download _ _ (.answered _ _ _) => true
  | _ => false

/-- An artifact that is downloaded over TLS. -/
theorem exec_proved_star : ∃ pre x a request status chunks cut post,
    starTrace = pre ++ .sent x a request (.answered status chunks cut) :: post ∧ x = .download ∧
      starServers.Proved pre request := by
  have hdownloaded : starTrace.any Event.isDownloaded = true := by decide +kernel
  obtain ⟨e, hmem, he⟩ := List.any_eq_true.mp hdownloaded
  obtain ⟨pre, post, htrace⟩ := List.append_of_mem hmem
  unfold Event.isDownloaded at he
  split at he
  next a request status chunks cut =>
    exact ⟨pre, .download, a, request, status, chunks, cut, post, htrace, rfl,
      exec_proved jsonEnvironment thirdTimeHandler starServers (fun _ => [])
        (show freshClient.hawkbitURI.isEmpty = true from rfl) htrace
        (determinedIn_starTrace _ _ _ _ _ _ htrace)⟩
  · cases he

/-- The downloads of a deployment, each of them from a server that had proved to be its host. -/
def InstalledFrom (servers : TlsServers) (dp : DeploymentBase) (trace : List Event) : Prop :=
  ∃ before seg bodies, trace = before ++ .called (.onDeploymentAction dp) :: seg ∧
    Installs (artifactsOf dp) bodies seg ∧
      ∀ pre x a request status chunks cut post,
        seg = pre ++ .sent x a request (.answered status chunks cut) :: post →
          servers.Proved (before ++ .called (.onDeploymentAction dp) :: pre) request

/-- What a run of the example is told, and what it installs, comes from proved servers. -/
structure Trustworthy (env : Environment) (servers : TlsServers) (trace : List Event) : Prop where
  polled : ∀ pre c post, trace = pre ++ .called c :: post → ∃ body, CameFrom servers pre .poll body
  action : ∀ pre (received : Received) post, trace = pre ++ .called received.callback :: post →
    ∃ body, CameFrom servers pre .action body ∧ received.IsIn env body
  installed : ∀ pre dp answer post,
    trace = pre ++ .returned (.onDeploymentAction dp) answer :: post → InstalledFrom servers dp pre

/-- A deployment is answered. -/
def Event.isInstalled : Event → Bool
  | .returned (.onDeploymentAction _) _ => true
  | _ => false

end Up2date.Example
