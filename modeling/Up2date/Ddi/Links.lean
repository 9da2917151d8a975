import Up2date.Ddi.Addresses
import Up2date.Ddi.PayloadShape

/-!
# The targets of links

A link is followed by a `PUT` of configuration data, by the `GET` of an action, or by the `GET`
of a download. The request goes to the scheme and the authority of the link in every case.
The target is the path of the link, to which only downloads append its query.
-/

namespace Up2date.Ddi

open Cxx Uri Httpclient Computability
open Json (Value)

/-- The paths of the client that follow a link. -/
inductive Link
  | configData | cancelAction | deploymentBase
  | download (d : Download)

namespace Link

/-- Follow a link; what a download returns does not matter here. -/
def follow (env : Environment) (uri : URI) : Link → Program Unit
  | configData => followConfigData env uri
  | cancelAction => followCancelAction env uri
  | deploymentBase => followDeploymentBase env uri
  | download d => performCall env (.download uri d) >>= fun _ => pure ()

/-- What the request that follows a link is issued for. -/
def exchange : Link → Exchange
  | configData => .configData
  | cancelAction => .action
  | deploymentBase => .action
  | download _ => .download

/-- The method of the request for a link. -/
def method : Link → Method
  | configData => .put
  | _ => .get

/-- The link leads to a download. -/
def IsDownload : Link → Prop
  | download _ => True
  | _ => False

/-- The target that the client builds. -/
def sentTarget (uri : URI) : Link → Str
  | download _ => cstr (formatDownloadPath uri)
  | _ => cstr uri.path

end Link

/-- The target a link asks for: its path, and its query unless it is empty. -/
def linkTarget (uri : URI) : Str :=
  if uri.query = [] then uri.path else uri.path ++ '?' :: uri.query

/-- A request that follows a link is sent to its scheme and authority with a target. -/
def Event.Follows (link : Link) (uri : URI) (target : Str) : Event → Prop
  | .sent x _ request _ => x = link.exchange →
      request.method = link.method ∧ request.endpoint = baseAddress uri ∧ request.target = target
  | _ => True

/-- Whatever happens while a link is followed, its requests have the target it asks for. -/
def LinkObeyed (link : Link) (uri : URI) : Prop :=
  ∀ env w, ∃ seg, (finalState (link.follow env uri w)).trace = w.trace ++ seg ∧
    ∀ e ∈ seg, e.Follows link uri (linkTarget uri)

/-! ### What is sent -/

/-- A request appends events that follow a link as its contract says. -/
theorem retryHandler_follows {link : Link} {uri : URI} {target : Str} {C : Contract}
    (hC : ∀ w request wire result, C w request wire result →
      request.method = link.method ∧ request.target = target)
    {func : HttpClient → Program Httpclient.Result} (hfunc : Sends C func) (env : Environment) :
    Respects (GrowsBy World.trace (letters (Event.Follows link uri target))∗)
      (retryHandler env link.exchange uri func) := by
  intro w
  obtain ⟨seg, htrace, hrequest⟩ := retryHandler_trace hfunc env link.exchange uri w
  refine ⟨seg, mem_letters_kstar.mpr fun e he => ?_, htrace⟩
  obtain ⟨-, hfulfils⟩ := hrequest.addressed.mem e he
  cases e with
  | sent x a request wire =>
    intro _
    obtain ⟨w', result, hsent, hcontract⟩ := hfulfils
    exact ⟨(hC _ _ _ _ hcontract).1, hsent.endpoint, (hC _ _ _ _ hcontract).2⟩
  | _ => trivial

/-- The events of other requests follow the link trivially. -/
theorem follows_of_isOf {e : Event} {x : Exchange} (h : e.IsOf x) {link : Link}
    (hx : x ≠ link.exchange) (uri : URI) (target : Str) : e.Follows link uri target := by
  cases e with
  | sent y a request wire =>
    intro hy
    have hyx : y = x := h
    exact absurd (hyx.symm.trans hy) hx
  | _ => trivial

/-- Requests for anything else append events that follow the link trivially. -/
theorem retryHandler_others {link : Link} {x : Exchange} (hx : x ≠ link.exchange) (uri : URI)
    (target : Str) {env : Environment} {func : HttpClient → Program Httpclient.Result}
    (hfunc : Sending env x func) (uri' : URI) :
    Respects (GrowsBy World.trace (letters (Event.Follows link uri target))∗)
      (retryHandler env x uri' func) :=
  retryHandler_letters env (fun _ he => follows_of_isOf he hx uri target) hfunc uri'

/-- A collected request of a link has the target of its path. -/
theorem retryHandler_collected (link : Link) (uri : URI) (env : Environment)
    (path body contentType : Str) :
    Respects (GrowsBy World.trace (letters (Event.Follows link uri (cstr path)))∗)
      (retryHandler env link.exchange uri fun cli => do
        let w ← get
        collect (← cli.send env
          (cli.request link.method path w.client.defaultHeaders body contentType))) :=
  retryHandler_follows (fun _ _ _ _ hC => ⟨hC.1, hC.2.1⟩)
    (sends_collected env link.method (fun _ => path) body contentType) env

/-- A streamed download of a link has the target of its path. -/
theorem retryHandler_streamed (d : Download) (uri : URI) (env : Environment) (path : Str)
    {receive : Str → Program Bool} (h : ∀ chunk, Respects (Keeps World.trace) (receive chunk)) :
    Respects (GrowsBy World.trace (letters (Event.Follows (.download d) uri (cstr path)))∗)
      (retryHandler env .download uri fun cli => do
        let w ← get
        cli.getTo env path w.client.defaultHeaders acceptOk receive) := by
  have hsends := sends_streamed env path receive h
  exact @retryHandler_follows (.download d) uri (cstr path) _ (fun _ _ _ _ hC => ⟨hC.1, hC.2.1⟩) _
    hsends env

/-- The requests of an action link, and those around them. -/
theorem linkRules_follows {link : Link} {uri : URI} {env : Environment}
    (hdownload : .download ≠ link.exchange) (hfeedback : .feedback ≠ link.exchange)
    (hconfig : ∀ body, Respects (GrowsBy World.trace (letters (Event.Follows link uri (cstr uri.path)))∗)
      (retryHandler env .configData uri fun cli => do
        let w ← get
        cli.put env uri.path w.client.defaultHeaders body applicationJson))
    (haction : Respects (GrowsBy World.trace (letters (Event.Follows link uri (cstr uri.path)))∗)
      (getAction env uri)) :
    LinkRules env (GrowsBy World.trace (letters (Event.Follows link uri (cstr uri.path)))∗) uri where
  toCallbackRules := callbackRules_letters env (fun _ => trivial) (fun _ _ => trivial)
    (fun _ _ => trivial) fun _ he => follows_of_isOf he hdownload uri _
  config := hconfig
  action := haction
  feedback document := retryHandler_others hfeedback uri _ (.feedback uri document) uri
  ignoreSleep _ _ := GrowsBy.unchanged rfl

/-- Whatever happens while a link is followed, its requests have the target the client builds. -/
theorem follow_sent (link : Link) (uri : URI) (env : Environment) :
    Respects (GrowsBy World.trace (letters (Event.Follows link uri (link.sentTarget uri)))∗)
      (link.follow env uri) := by
  cases link with
  | configData =>
    have hne : Exchange.action ≠ Link.configData.exchange := by decide
    exact (linkRules_follows (by decide) (by decide)
      (fun body => retryHandler_collected .configData uri env uri.path body applicationJson)
      (retryHandler_others hne uri _ (.collected .action .get _ [] []) uri)).followConfigData
  | cancelAction =>
    have hne : Exchange.configData ≠ Link.cancelAction.exchange := by decide
    exact (linkRules_follows (by decide) (by decide)
      (fun body => retryHandler_others hne uri _ (.collected .configData .put _ body _) uri)
      (retryHandler_collected .cancelAction uri env uri.path [] [])).followCancelAction
  | deploymentBase =>
    have hne : Exchange.configData ≠ Link.deploymentBase.exchange := by decide
    exact (linkRules_follows (by decide) (by decide)
      (fun body => retryHandler_others hne uri _ (.collected .configData .put _ body _) uri)
      (retryHandler_collected .deploymentBase uri env uri.path [] [])).followDeploymentBase
  | download d =>
    have hrules : DownloadRules env (GrowsBy World.trace
        (letters (Event.Follows (.download d) uri (cstr (formatDownloadPath uri))))∗) uri :=
      { recorded := fun d' w => GrowsBy.block ⟨.download uri d', trivial, rfl⟩ rfl
        toFile := retryHandler_streamed d uri env _ (writeFile_respects (fun _ _ _ _ => rfl) env)
        body := retryHandler_collected (.download d) uri env (formatDownloadPath uri) [] []
        toReceiver := fun func =>
          retryHandler_streamed d uri env _ (receiveChunk_respects (fun _ _ _ _ => rfl) func)
        data := fun _ _ _ _ => GrowsBy.unchanged rfl }
    exact Respects.bind (hrules.performCall d) fun _ => Respects.pure _

/-- A handler with configuration data, and a server that answers every request with 404. -/
def notFoundEnvironment : Environment :=
  { idleEnvironment with
    server := fun _ _ => { wire := .answered 404 [] none }
    handler :=
      { idleEnvironment.handler with
        onConfigRequest := fun _ => .done (some
          { data := [("k".toList, "v".toList)], sorted := List.pairwise_singleton _ _ }) } }

/-- Every link is followed by a request. -/
theorem exists_sent (link : Link) (uri : URI) :
    ∃ request wire, .sent link.exchange .first request wire ∈
      (finalState (link.follow notFoundEnvironment uri { client := endpointClient })).trace := by
  cases link with
  | configData =>
    exact ⟨_, _, List.mem_cons_of_mem _ (List.mem_cons_of_mem _ (List.mem_cons_of_mem _
      List.mem_cons_self))⟩
  | cancelAction => exact ⟨_, _, List.mem_cons_of_mem _ List.mem_cons_self⟩
  | deploymentBase => exact ⟨_, _, List.mem_cons_of_mem _ List.mem_cons_self⟩
  | download d =>
    cases d with
    | downloadTo path =>
      exact ⟨_, _, List.mem_cons_of_mem _ (List.mem_cons_of_mem _ List.mem_cons_self)⟩
    | getBody => exact ⟨_, _, List.mem_cons_of_mem _ (List.mem_cons_of_mem _ List.mem_cons_self)⟩
    | downloadWithReceiver func =>
      exact ⟨_, _, List.mem_cons_of_mem _ (List.mem_cons_of_mem _ List.mem_cons_self)⟩

/-! ### Links that are accepted -/

/-- An accepted link holds no null character, being read as a C string. -/
theorem nul_notMem_of_accepted {v : Value} {uri : URI} (h : parseHrefObject v = .ok uri) :
    nul ∉ uri.path ∧ nul ∉ uri.query := by
  obtain ⟨href, -, hparsed⟩ := parseHrefObject_eq_ok_iff.mp h
  obtain ⟨p, htext, -, rfl⟩ := fromString_eq_ok_iff.mp hparsed
  have hnul : nul ∉ p.text := htext ▸ nul_notMem_cstr href
  have hpath : ∀ c ∈ p.path, c ∈ p.text := by
    intro c hc
    simp only [Parts.text, List.mem_append]
    exact Or.inr (Or.inr (Or.inr (Or.inl hc)))
  have hquery : ∀ c ∈ p.toURI.query, c ∈ p.text := by
    intro c hc
    cases hq : p.query with
    | none => simp [Parts.toURI, hq] at hc
    | some q =>
      have hmem : c ∈ delimited '?' p.query := by
        rw [hq]
        exact List.mem_cons_of_mem _ (by simpa [Parts.toURI, hq] using hc)
      simp only [Parts.text, Parts.suffix, List.mem_append]
      exact Or.inr (Or.inr (Or.inr (Or.inr (Or.inl hmem))))
  exact ⟨fun hmem => hnul (hpath nul hmem), fun hmem => hnul (hquery nul hmem)⟩

/-- A download keeps the query of its link. -/
theorem formatDownloadPath_eq_linkTarget (uri : URI) : formatDownloadPath uri = linkTarget uri := by
  unfold formatDownloadPath linkTarget URI.hasQuery
  cases uri.query with
  | nil => rfl
  | cons c query => exact List.append_assoc _ _ _

/-- The target the client builds for an accepted link is the one it asks for in a download, and
without a query. -/
theorem sentTarget_eq_linkTarget_iff {v : Value} {uri : URI} (h : parseHrefObject v = .ok uri)
    (link : Link) : link.sentTarget uri = linkTarget uri ↔ link.IsDownload ∨ uri.query = [] := by
  obtain ⟨hpath, hquery⟩ := nul_notMem_of_accepted h
  have haction : cstr uri.path = linkTarget uri ↔ uri.query = [] := by
    rw [cstr_of_notMem hpath, linkTarget]
    split
    next hempty => exact iff_of_true rfl hempty
    next hne => exact iff_of_false (fun heq => by simp at heq) hne
  cases link with
  | download d =>
    refine iff_of_true ?_ (Or.inl trivial)
    have hnul : nul ∉ linkTarget uri := by
      unfold linkTarget
      split
      · exact hpath
      · have hmark : nul ≠ '?' := by decide
        simp only [List.mem_append, List.mem_cons, hpath, hquery, hmark, or_self, not_false_eq_true]
    change cstr (formatDownloadPath uri) = linkTarget uri
    rw [formatDownloadPath_eq_linkTarget, cstr_of_notMem hnul]
  | configData => exact haction.trans (or_iff_right id).symm
  | cancelAction => exact haction.trans (or_iff_right id).symm
  | deploymentBase => exact haction.trans (or_iff_right id).symm

/-- A link that is always followed to its target has the target the client builds. -/
theorem LinkObeyed.sentTarget_eq {link : Link} {uri : URI} (h : LinkObeyed link uri) :
    link.sentTarget uri = linkTarget uri := by
  obtain ⟨request, wire, hmem⟩ := exists_sent link uri
  obtain ⟨seg, htrace, hseg⟩ := h notFoundEnvironment { client := endpointClient }
  obtain ⟨seg', hseg', htrace'⟩ := follow_sent link uri notFoundEnvironment { client := endpointClient }
  have hsame : seg' = seg := List.append_cancel_left (htrace'.symm.trans htrace)
  subst hsame
  rw [htrace] at hmem
  have hasked := hseg _ hmem rfl
  have hsent := mem_letters_kstar.mp hseg' _ hmem rfl
  exact hsent.2.2.symm.trans hasked.2.2

/-- A link is followed to its target exactly when it is downloaded from or has no query. -/
theorem linkObeyed_iff {v : Value} {uri : URI} (h : parseHrefObject v = .ok uri) (link : Link) :
    LinkObeyed link uri ↔ link.IsDownload ∨ uri.query = [] := by
  rw [← sentTarget_eq_linkTarget_iff h link]
  constructor
  · exact LinkObeyed.sentTarget_eq
  · intro htarget env w
    obtain ⟨seg, hseg, htrace⟩ := follow_sent link uri env w
    rw [htarget] at hseg
    exact ⟨seg, htrace, mem_letters_kstar.mp hseg⟩

/-- A link with a query, and the URI it is accepted as. -/
def queryLink : Value := .object [("href".toList, .string "http://h/p?c=1".toList)]

/-- A link with a query. -/
def queryURI : URI :=
  { scheme := "http".toList, authority := "h".toList, path := "/p".toList, query := "c=1".toList }

/-- A download keeps the query of its link. -/
theorem linkObeyed_download : LinkObeyed (.download .getBody) queryURI :=
  (linkObeyed_iff (v := queryLink) (by decide +kernel) (.download .getBody)).mpr (Or.inl trivial)

/-- A deployment is fetched without the query of its link. -/
theorem deploymentBase_query_lost :
    parseHrefObject queryLink = .ok queryURI ∧ ¬LinkObeyed .deploymentBase queryURI := by
  refine ⟨by decide +kernel, fun hobeyed => ?_⟩
  have htarget := hobeyed.sentTarget_eq
  revert htarget
  decide

end Up2date.Ddi
