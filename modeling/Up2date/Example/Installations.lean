import Up2date.Ddi.Documents
import Up2date.Ddi.FileDownloads
import Up2date.Ddi.RunParts
import Up2date.Example.BasicHandler

/-!
# What the examples report

The handler of the examples reports a deployment as a success, with two details for each
artifact. Whatever the server and other threads do, the report is sent only after every artifact
of every chunk has been downloaded in this callback, in their order.
-/

namespace Up2date.Example

open Cxx Uri Ddi

/-- Events among which a download of a URI is answered with the status 200 and a whole body. -/
def Downloaded (uri : URI) (body : Str) (seg : List Event) : Prop :=
  ∃ a request chunks, .sent .download a request (.answered HTTP_OK chunks none) ∈ seg ∧
    chunks.flatten = body ∧ request.method = .get ∧ request.endpoint = baseAddress uri ∧
    request.target = cstr (formatDownloadPath uri)

/-- The downloads of artifacts with these bodies, one after the other. -/
inductive Installs : List Artifact → List Str → List Event → Prop
  | nil : Installs [] [] []
  | cons {artifact artifacts body bodies first rest} :
      Downloaded artifact.downloadURI body first → Installs artifacts bodies rest →
      Installs (artifact :: artifacts) (body :: bodies) (first ++ rest)

/-- The files after artifacts were stored, each under its name. -/
def stored (files : Str → Option Str) (artifacts : List Artifact) (bodies : List Str) :
    Str → Option Str :=
  (artifacts.zip bodies).foldl (fun files m => Function.update files m.1.filename (some m.2)) files

/-- A file system that opens every file and stores all that is written. -/
structure KeepsFiles (env : Environment) : Prop where
  opens : ∀ trace path, env.fileOpens trace path = true
  flushes : ∀ trace file, env.fileFlushes trace file = none

/-- The artifacts of all chunks. -/
def artifactsOf (dp : DeploymentBase) : List Artifact := dp.chunks.flatMap Chunk.artifacts

/-- What the handler reports of an artifact. -/
def artifactDetails (artifact : Artifact) : List Str :=
  [artifact.filename ++ " described. Starting download ...".toList,
    "Downloaded ".toList ++ artifact.filename]

/-- The response to a deployment. -/
def installedResponse (dp : DeploymentBase) : Response where
  finished := .success
  execution := .closed
  details := "Printed deployment base info".toList :: (artifactsOf dp).flatMap artifactDetails ++
    ["Work done. Sending response".toList]
  deliveryListener := some feedbackDeliveryListener
  ignoreSleep := true

/-! ### One deployment -/

section Code

variable {env : Environment} {w w' : World}

/-- The attempts of a download begin behind the events before it. -/
theorem attemptedIn_trace {uri : URI} {a : Attempt} {s : World} (h : AttemptedIn env uri w a s) :
    w.trace <+: s.trace := by
  cases h with
  | first => exact ⟨[.issued .download], rfl⟩
  | @second onAuthError w₂ hstatus henv hcall =>
    have hissued : w.trace <+: (w.log (.issued .download)).trace := ⟨_, rfl⟩
    have hmet : (w.log (.issued .download)).trace <+:
        (meeting env .first uri (w.log (.issued .download))).trace := by
      obtain ⟨e, -, hmeeting⟩ | ⟨signals, hmeeting⟩ :=
        meeting_trace env .first uri (w.log (.issued .download))
      · rw [hmeeting]
      · exact ⟨_, hmeeting.symm⟩
    obtain ⟨quiet, -, ⟨f, w', herror, -⟩ | ⟨w', hok, htrace⟩⟩ := callOnAuthError_trace
      (some .download) onAuthError ((meeting env .first uri (w.log (.issued .download))).log
        (.ended .download .first unauthorized))
    · cases herror.symm.trans hcall
    · obtain rfl : w' = s := by cases hok.symm.trans hcall; rfl
      exact (hissued.trans hmet).trans ((List.prefix_append _ _).trans ⟨_, htrace.symm⟩)

/-- The files after a download that was answered. -/
theorem files_of_taken {uri : URI} {path : Str} {a : Attempt} {s : World} {chunks : List Str}
    (hfiles : KeepsFiles env) (h : AttemptedIn env uri (opened env path w) a s) :
    (closeFile env (returnedState env a uri s chunks)).files =
      Function.update w.files path (some chunks.flatten) := by
  have hfile : (meeting env a uri s).file = { path } := by
    rw [meeting_file h, opened_file, hfiles.opens]
    rfl
  have hbefore : (meeting env a uri s).files = Function.update w.files path (some []) := by
    refine (congrArg (fun data => data.2.2)
      ((meeting_data env a uri s).trans (attemptedIn_data h))).trans ?_
    exact congrArg World.files (if_pos (hfiles.opens w.trace path))
  have htaken : (meeting env a uri s).taken chunks = (meeting env a uri s).written chunks :=
    if_neg (by simp [hfile])
  have hstream : (returnedState env a uri s chunks).file = { path, writes := chunks } := by
    rw [returnedState, htaken]
    change ((meeting env a uri s).written chunks).file = _
    simp only [World.written, hfile, List.nil_append]
  have hstate : (returnedState env a uri s chunks).files =
      Function.update w.files path (some []) := by
    rw [returnedState, htaken]
    exact hbefore
  rw [closeFile, if_neg (by simp [hstream])]
  simp only [hstream, hstate, hfiles.flushes, Function.update_idem]

/-- A download that returns has been answered completely, and the body is in its file. -/
theorem downloaded_of_ok {uri : URI} {path : Str} (h : downloadTo env uri path w = .ok () w') :
    ∃ seg body, w'.trace = w.trace ++ seg ∧ Downloaded uri body seg ∧
      (KeepsFiles env → w'.files = Function.update w.files path (some body)) := by
  have hending : ending (downloadTo env uri path w) = .ok () := by rw [h]; rfl
  obtain ⟨a, s, chunks, hattempt, hmet, htaken⟩ := taken_of_downloadTo hending
  rw [downloadTo_of_taken hattempt hmet htaken] at h
  cases h
  obtain ⟨before, hbefore⟩ := attemptedIn_trace hattempt
  have hopened : (opened env path w).trace = w.trace := by
    unfold opened
    split <;> rfl
  obtain ⟨e, hthrew, -⟩ | ⟨signals, hmeeting⟩ := meeting_trace env a uri s
  · cases hthrew.symm.trans hmet
  · rw [hmet] at hmeeting
    refine ⟨before ++ (.sent .download a (fetchRequest uri s) (.answered HTTP_OK chunks none) ::
      signals.map Event.signal ++ [.ended .download a (.ok ()), .concluded .download (.ok ())]),
      chunks.flatten, ?_, ?_, fun hfiles => files_of_taken hfiles hattempt⟩
    · rw [closeFile_trace, returnedState_trace, closingTrace, hmeeting, ← hbefore, hopened]
      simp only [List.append_assoc, List.cons_append]
    · exact ⟨a, fetchRequest uri s, chunks, by simp, rfl, rfl, rfl, rfl⟩

/-- So has a call of the handler that returns. -/
theorem performed_of_ok {uri : URI} {path : Str} {reply : Reply}
    (h : performCall env (.download uri (.downloadTo path)) w = .ok reply w') :
    ∃ seg body, w'.trace = w.trace ++ seg ∧ Downloaded uri body seg ∧
      (KeepsFiles env → w'.files = Function.update w.files path (some body)) := by
  obtain ⟨_, w₁, hrecord, hperform⟩ := Effect.bind_eq_ok h
  cases hrecord
  obtain ⟨_, w₂, hdownload, hreturn⟩ := Effect.bind_eq_ok hperform
  cases hreturn
  obtain ⟨seg, body, htrace, ⟨a, request, chunks, hsent, hrest⟩, hfiles⟩ :=
    downloaded_of_ok hdownload
  refine ⟨.download uri (.downloadTo path) :: seg, body, ?_,
    ⟨a, request, chunks, List.mem_cons_of_mem _ hsent, hrest⟩, hfiles⟩
  exact htrace.trans (List.append_assoc _ _ _)

/-- What happens to one artifact. -/
theorem run_installArtifact (env : Environment) (builder : ResponseBuilderImpl) (artifact : Artifact) :
    (installArtifact builder artifact).run (performCall env) =
      (performCall env (.download artifact.downloadURI (.downloadTo artifact.filename)) >>= fun _ =>
        pure { builder with details := builder.details ++ artifactDetails artifact }) := by
  have hdetails : ((builder.addDetail
      (artifact.filename ++ " described. Starting download ...".toList)).addDetail
        ("Downloaded ".toList ++ artifact.filename)) =
      { builder with details := builder.details ++ artifactDetails artifact } := by
    simp only [ResponseBuilderImpl.addDetail, artifactDetails, List.append_assoc,
      List.cons_append, List.nil_append]
  unfold installArtifact
  rw [Interaction.run_bind, Interaction.run_invoke, hdetails]
  simp only [Interaction.run_pure]

/-- A loop over artifacts that ends has downloaded all of them. -/
theorem installs_of_ok {artifacts : List Artifact} {builder builder' : ResponseBuilderImpl}
    (h : artifacts.foldlM (fun b a => (installArtifact b a).run (performCall env)) builder w =
      .ok builder' w') :
    ∃ seg bodies, w'.trace = w.trace ++ seg ∧ Installs artifacts bodies seg ∧
      (KeepsFiles env → w'.files = stored w.files artifacts bodies) ∧
      builder' = { builder with details := builder.details ++ artifacts.flatMap artifactDetails } := by
  induction artifacts generalizing builder w with
  | nil =>
    cases h
    exact ⟨[], [], (List.append_nil _).symm, .nil, fun _ => rfl, by simp⟩
  | cons artifact artifacts ih =>
    rw [List.foldlM_cons, run_installArtifact, bind_assoc] at h
    obtain ⟨_, w₁, hdownload, hrest⟩ := Effect.bind_eq_ok h
    rw [pure_bind] at hrest
    obtain ⟨first, body, hfirst, hdownloaded, hfile⟩ := performed_of_ok hdownload
    obtain ⟨rest, bodies, htrace, hinstalls, hfiles, rfl⟩ := ih hrest
    refine ⟨first ++ rest, body :: bodies, ?_, .cons hdownloaded hinstalls, fun hkeeps => ?_, ?_⟩
    · rw [htrace, hfirst, List.append_assoc]
    · rw [hfiles hkeeps, hfile hkeeps]
      rfl
    · rw [List.flatMap_cons, List.append_assoc]

/-- The loops over the chunks and their artifacts are one loop. -/
theorem run_installChunks (env : Environment) (chunks : List Chunk) (builder : ResponseBuilderImpl) :
    (chunks.foldlM installChunk builder).run (performCall env) =
      (chunks.flatMap Chunk.artifacts).foldlM
        (fun b a => (installArtifact b a).run (performCall env)) builder := by
  rw [Interaction.run_foldlM]
  induction chunks generalizing builder with
  | nil => rfl
  | cons chunk chunks ih =>
    rw [List.foldlM_cons, List.flatMap_cons, List.foldlM_append, installChunk,
      Interaction.run_foldlM]
    exact bind_congr ih

/-- A deployment that is answered has been installed. -/
theorem installed_of_ok {dp : DeploymentBase} {response : Option Response}
    (h : (onDeploymentAction dp).run (performCall env) w = .ok response w') :
    ∃ seg bodies, w'.trace = w.trace ++ seg ∧ Installs (artifactsOf dp) bodies seg ∧
      (KeepsFiles env → w'.files = stored w.files (artifactsOf dp) bodies) ∧
      response = some (installedResponse dp) := by
  unfold onDeploymentAction at h
  rw [Interaction.run_bind, run_installChunks] at h
  obtain ⟨builder, w₁, hloop, hdone⟩ := Effect.bind_eq_ok h
  obtain ⟨seg, bodies, htrace, hinstalls, hfiles, rfl⟩ := installs_of_ok hloop
  cases hdone
  exact ⟨seg, bodies, htrace, hinstalls, hfiles, rfl⟩

/-- On a file system that loses nothing a deployment is answered only when every artifact has been
downloaded, and the files are then those before with the bodies stored under the artifacts' names. -/
theorem onDeploymentAction_installs (hkeeps : KeepsFiles env) {dp : DeploymentBase}
    {response : Option Response}
    (h : (onDeploymentAction dp).run (performCall env) w = .ok response w') :
    ∃ seg bodies, w'.trace = w.trace ++ seg ∧ Installs (artifactsOf dp) bodies seg ∧
      w'.files = stored w.files (artifactsOf dp) bodies ∧ response = some (installedResponse dp) := by
  obtain ⟨seg, bodies, htrace, hinstalls, hfiles, hresponse⟩ := installed_of_ok h
  exact ⟨seg, bodies, htrace, hinstalls, hfiles hkeeps, hresponse⟩

end Code

/-- A deployment of two artifacts in two chunks. -/
def twoArtifacts : DeploymentBase where
  id := 1
  downloadType := []
  updateType := []
  inMaintenanceWindow := true
  chunks := ["f".toList, "g".toList].map fun filename =>
    { part := [], version := [], name := []
      artifacts := [⟨filename, ⟨[], [], []⟩, 2, endpointClient.hawkbitURI⟩] }

/-- They are installed from a server whose bodies are all `{}`. -/
theorem onDeploymentAction_installs_two :
    ∃ (w' : World) (seg : List Event) (bodies : List Str), w'.trace = [] ++ seg ∧
      Installs (artifactsOf twoArtifacts) bodies seg ∧
      w'.files = stored (fun _ => none) (artifactsOf twoArtifacts) bodies := by
  have hrun : ∃ response w', (onDeploymentAction twoArtifacts).run (performCall idleEnvironment)
      { client := endpointClient } = .ok response w' := by
    unfold onDeploymentAction
    rw [Interaction.run_bind, run_installChunks]
    simp only [run_installArtifact]
    exact ⟨_, _, rfl⟩
  obtain ⟨response, w', hrun⟩ := hrun
  obtain ⟨seg, bodies, htrace, hinstalls, hfiles, -⟩ :=
    onDeploymentAction_installs ⟨fun _ _ => rfl, fun _ _ => rfl⟩ hrun
  exact ⟨w', seg, bodies, htrace, hinstalls, hfiles⟩

/-! ### Every run -/

/-- The callback of a deployment returns its response after the downloads. -/
def InstalledIn (trace : List Event) : Event → Prop
  | .returned (.onDeploymentAction dp) answer => ∃ before seg bodies,
      trace = before ++ .called (.onDeploymentAction dp) :: seg ∧
        Installs (artifactsOf dp) bodies seg ∧ answer = .response (some (installedResponse dp))
  | _ => True

/-- An environment with the handler of the examples. -/
def withBasicHandler (env : Environment) : Environment := { env with handler := basicHandler }

/-- The events of a request are free. -/
theorem sendRules_installedIn (env : Environment) : SendRules env (Chronicles InstalledIn) where
  sent _ _ _ _ _ _ _ := chronicles_log trivial
  ended _ _ _ _ := chronicles_log trivial
  signal _ _ := chronicles_signal trivial
  same _ _ htrace _ := chronicles_same htrace

/-- The events of a retry are free. -/
theorem retryRules_installedIn (env : Environment) : RetryRules env (Chronicles InstalledIn) where
  issued _ _ := chronicles_log trivial
  concluded _ _ _ := chronicles_log trivial
  handler d onAuthError _ := chronicles_callOnAuthError (fun _ _ => trivial) (fun _ _ => trivial)
    (fun _ _ => trivial) (fun _ _ _ => trivial) d onAuthError

/-- The events of what user code asks for are free. -/
theorem callRules_installedIn (env : Environment) : CallRules env (Chronicles InstalledIn) :=
  (sendRules_installedIn env).callRules (retryRules_installedIn env)
    (chronicles_performRestore (fun _ _ => trivial) fun _ _ => trivial)
    fun _ _ _ => chronicles_log trivial

/-- A deployment that returns has installed its artifacts. -/
theorem deployment_installedIn (env : Environment) (dp : DeploymentBase) :
    Respects (Chronicles InstalledIn) (callback env (.onDeploymentAction dp)
      (fun _ => onDeploymentAction dp) .response) := by
  apply callback_respects (fun w => chronicles_log trivial) fun _ =>
    Interaction.run_respects (callRules_installedIn env).performCall _
  intro w response w' hrun
  obtain ⟨seg, bodies, htrace, hinstalls, -, rfl⟩ := installed_of_ok hrun
  exact chronicles_log ⟨w.trace, seg, bodies, htrace.trans (List.append_assoc _ _ _), hinstalls, rfl⟩

/-- Other callbacks are free. -/
theorem other_installedIn (env : Environment) {α : Type} {c : Callback}
    (hc : ∀ dp, c ≠ .onDeploymentAction dp) (code : List Event → UserCode α) (answer : α → Answer) :
    Respects (Chronicles InstalledIn) (callback env c code answer) := by
  have hreturned : ∀ trace a, InstalledIn trace (.returned c a) := by
    cases c with
    | onDeploymentAction dp => exact absurd rfl (hc dp)
    | _ => exact fun _ _ => trivial
  exact (callRules_installedIn env).callback (fun _ => chronicles_log trivial)
    (fun a w => chronicles_log (hreturned w.trace (answer a))) code

/-- Every deployment that returns in a run has installed its artifacts. -/
theorem partRules_installedIn (env : Environment) :
    PartRules (withBasicHandler env) (Chronicles InstalledIn) where
  toSendRules := sendRules_installedIn _
  toRetryRules := retryRules_installedIn _
  onConfigRequest := other_installedIn _ (fun _ => Callback.noConfusion) _ _
  onCancelAction _ := other_installedIn _ (fun _ => Callback.noConfusion) _ _
  onDeploymentAction := deployment_installedIn _
  onNoActions := other_installedIn _ (fun _ => Callback.noConfusion) _ _
  onSuccessfulDelivery _ _ := other_installedIn _ (fun _ => Callback.noConfusion) _ _
  onError _ _ := other_installedIn _ (fun _ => Callback.noConfusion) _ _

/-- A request for feedback tells of an action that was fetched; of a deployment it tells what the
handler returned after it had downloaded every artifact. -/
structure Reports (env : Environment) (pre : List Event) (request : Httpclient.Request)
    (received : Received) (response : Response) : Prop where
  returned : .returned received.callback (.response (some response)) ∈ pre
  document : ∃ document, request.body = cstr (env.write document) ∧
    Conveys document received response
  installed : ∀ dp, received = .deployment dp → response = installedResponse dp ∧
    ∃ before seg bodies after, pre = before ++ .called (.onDeploymentAction dp) :: seg ++
      .returned (.onDeploymentAction dp) (.response (some response)) :: after ∧
        Installs (artifactsOf dp) bodies seg

/-- All feedback of a run is a report. -/
def ReportsInstalled (env : Environment) (trace : List Event) : Prop :=
  ∀ pre a request wire post, trace = pre ++ .sent .feedback a request wire :: post →
    ∃ received response, Reports env pre request received response

/-- In every run of a client with the handler of the examples, feedback on a deployment is sent
only after all of its artifacts have been downloaded for it, and lists them. -/
theorem exec_reports (env : Environment) (schedule : ℕ → List Signal)
    (cli : HawkbitCommunicationClient) (n : ℕ) :
    ReportsInstalled env (exec (withBasicHandler env) schedule cli n).world.trace := by
  intro pre a request wire post h
  obtain ⟨k, pre', post', rfl, hsaid⟩ := exists_saidIn rfl h
  obtain ⟨s, hs, hrequests, hfollows⟩ := stage_of_saidIn hsaid
  cases s with
  | feedback followURI received response =>
    obtain ⟨-, -, -, members, hfilled, hbody⟩ := hrequests
    have hreturned := List.mem_of_mem_filter hfollows.2.2
    refine ⟨received, response, List.mem_append_right _ hreturned, ⟨_, hbody,
      conveys_filled hfilled⟩, ?_⟩
    rintro dp rfl
    obtain ⟨mid, after, rfl⟩ := List.append_of_mem hreturned
    have hsplit : (exec (withBasicHandler env) schedule cli n).world.trace =
        ((exec (withBasicHandler env) schedule cli k).world.trace ++ mid) ++
          .returned (.onDeploymentAction dp) (.response (some response)) ::
            (after ++ .sent .feedback a request wire :: post) := by
      rw [h]
      simp only [List.append_assoc, List.cons_append]
      rfl
    obtain ⟨before, seg, bodies, hbefore, hinstalls, hanswer⟩ :=
      (partRules_installedIn env).chronicled hsplit
    refine ⟨by cases hanswer; rfl, before, seg, bodies, after, ?_, hinstalls⟩
    rw [← List.append_assoc, hbefore]
    rfl
  | _ => cases hs

end Up2date.Example
