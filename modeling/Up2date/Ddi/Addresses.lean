import Up2date.Ddi.Endpoint
import Up2date.Modules.UriLaws

/-!
# Base addresses and composed endpoints

A client connects to the base address of a URI, its scheme and its authority, and composes
the endpoint of a controller from the base address of another one. Both are texts of parts
again, so what parsing them yields is known: a base address is parsed back when there is a
scheme, and an endpoint is composed faithfully when tenant and controller have no character
that ends a path.
-/

namespace Up2date.Ddi

open Cxx Uri

/-! ### Which strings are accepted -/

/-- A colon behind a run of characters of a scheme. -/
def HasScheme (s : Str) : Prop := ∃ scheme rest, IsScheme scheme ∧ s = scheme ++ ':' :: rest

/-- Characters of an authority behind two slashes, at the head or behind a scheme. -/
def HasAuthority (s : Str) : Prop :=
  ∃ scheme authority rest, (∀ t, scheme = some t → IsScheme t) ∧ authority ≠ [] ∧
    (∀ c ∈ authority, isAuthorityChar c = true) ∧
    s = schemeText scheme ++ ("//".toList ++ (authority ++ rest))

/-- Strings without scheme or authority are refused, and the others have a base address. -/
structure WellJudged (s : Str) : Prop where
  throws_iff : (∃ e, URI.fromString s = .error e) ↔ ¬HasScheme s ∨ ¬HasAuthority s
  nonempty : ∀ u, URI.fromString s = .ok u → u.isEmpty = false
  base : ∀ u, URI.fromString s = .ok u →
    URI.fromString (baseAddress u) = .ok { scheme := u.scheme, authority := u.authority }

/-- The parts a string is made of lack a scheme or an authority exactly when a null character
in the fragment makes the parser refuse it. -/
def RefusedWhenIncomplete (s : Str) : Prop :=
  ∀ p : Parts, p.text = s → (nul ∈ p.fragmentText ↔ p.scheme = none ∨ p.authority = [])

/-- A URI has a scheme when its parts do. -/
theorem hasScheme_text (p : Parts) : HasScheme p.text ↔ p.scheme ≠ none := by
  constructor
  · intro h hs
    obtain ⟨scheme, rest, ⟨hne, hchars⟩, htext⟩ := h
    obtain ⟨c, scheme, rfl⟩ := List.exists_cons_of_ne_nil hne
    have hslash : c = '/' := by
      simp only [Parts.text, hs, schemeText] at htext
      exact (List.cons.inj htext).1.symm
    exact absurd (hchars c List.mem_cons_self) (by rw [hslash]; decide)
  · intro h
    obtain ⟨s, hs⟩ := Option.ne_none_iff_exists'.mp h
    refine ⟨s, "//".toList ++ (p.authority ++ (p.path ++ p.suffix)), p.isScheme s hs, ?_⟩
    simp only [Parts.text, hs, schemeText, List.append_assoc]
    rfl

/-- A URI has an authority when its parts do. -/
theorem hasAuthority_text (p : Parts) : HasAuthority p.text ↔ p.authority ≠ [] := by
  constructor
  · intro h hempty
    obtain ⟨scheme, authority, rest, hscheme, hne, hchars, htext⟩ := h
    have hrest := p.matchScheme_eq.symm.trans (htext ▸ matchScheme_text hscheme (authority ++ rest))
    rw [hempty, Prod.mk.injEq] at hrest
    obtain ⟨c, authority, rfl⟩ := List.exists_cons_of_ne_nil hne
    have hc := p.stops_isAuthorityChar c (by
      rw [show p.path ++ p.suffix = _ from List.append_cancel_left hrest.2]
      rfl)
    rw [hchars c List.mem_cons_self] at hc
    cases hc
  · intro h
    exact ⟨p.scheme, p.authority, _, p.isScheme, h, p.authority_chars, rfl⟩

/-- A string with an authority is made of parts. -/
theorem exists_parts_of_hasAuthority {s : Str} (h : HasAuthority s) : ∃ p : Parts, p.text = s := by
  obtain ⟨scheme, authority, rest, hscheme, -, -, rfl⟩ := h
  obtain ⟨p, htext, -⟩ := exists_parts hscheme (authority ++ rest)
  exact ⟨p, htext⟩

/-- Scheme and authority of a URI are parsed back from its base address when there is a scheme. -/
theorem fromString_baseAddress {p : Parts} (h : p.scheme ≠ none) :
    URI.fromString (baseAddress p.toURI) =
      .ok { scheme := p.toURI.scheme, authority := p.toURI.authority } := by
  have hparsed := fromString_withPath h stops_nil (fun c hc => by cases hc)
  rw [List.append_nil] at hparsed
  exact hparsed

/-- An empty scheme or an empty authority makes a URI empty. -/
theorem isEmpty_toURI (p : Parts) :
    p.toURI.isEmpty = false ↔ p.scheme ≠ none ∧ p.authority ≠ [] := by
  have hscheme : p.toURI.scheme = [] ↔ p.scheme = none := by
    cases hs : p.scheme with
    | none => simp [Parts.toURI, hs]
    | some s => simpa [Parts.toURI, hs] using (p.isScheme s hs).1
  rw [URI.isEmpty, Bool.or_eq_false_iff, List.isEmpty_eq_false_iff, List.isEmpty_eq_false_iff,
    ne_eq, hscheme]
  rfl

/-- Complete parts are judged well when their text is accepted, and others when it is refused. -/
theorem wellJudged_text_iff (p : Parts) :
    WellJudged p.text ↔ (nul ∈ p.fragmentText ↔ p.scheme = none ∨ p.authority = []) := by
  have hjudged : ¬HasScheme p.text ∨ ¬HasAuthority p.text ↔ p.scheme = none ∨ p.authority = [] := by
    rw [hasScheme_text, hasAuthority_text, not_not, not_not]
  have hthrows : (∃ e, URI.fromString p.text = .error e) ↔ nul ∈ p.fragmentText := by
    rw [fromString_text]
    by_cases hnul : nul ∈ p.fragmentText
    · simp [hnul]
    · simp [hnul]
  constructor
  · intro h
    rw [← hthrows, h.throws_iff, hjudged]
  · intro h
    have haccepted : ∀ u, URI.fromString p.text = .ok u →
        u = p.toURI ∧ p.scheme ≠ none ∧ p.authority ≠ [] := by
      intro u hu
      rw [fromString_text] at hu
      by_cases hnul : nul ∈ p.fragmentText
      · rw [if_pos hnul] at hu
        cases hu
      · rw [if_neg hnul] at hu
        exact ⟨(Except.ok.inj hu).symm, not_or.mp (fun hlack => hnul (h.mpr hlack))⟩
    refine ⟨by rw [hthrows, hjudged, h], fun u hu => ?_, fun u hu => ?_⟩
    · obtain ⟨rfl, hcomplete⟩ := haccepted u hu
      exact (isEmpty_toURI p).mpr hcomplete
    · obtain ⟨rfl, hscheme, -⟩ := haccepted u hu
      exact fromString_baseAddress hscheme

/-- A string without an authority is refused, as it has to be. -/
theorem wellJudged_of_no_parts {s : Str} (h : ¬∃ p : Parts, p.text = s) : WellJudged s := by
  have hrefused : ∀ u, URI.fromString s ≠ .ok u := by
    intro u hu
    obtain ⟨p, htext, -⟩ := fromString_eq_ok_iff.mp hu
    exact h ⟨p, htext⟩
  have hthrows : ∃ e, URI.fromString s = .error e := by
    cases hs : URI.fromString s with
    | error e => exact ⟨e, rfl⟩
    | ok u => exact absurd hs (hrefused u)
  exact ⟨iff_of_true hthrows (Or.inr fun hauthority => h (exists_parts_of_hasAuthority hauthority)),
    fun u hu => absurd hu (hrefused u), fun u hu => absurd hu (hrefused u)⟩

/-- A string is judged well exactly when it is refused if its parts are incomplete, and only then. -/
theorem wellJudged_iff (s : Str) : WellJudged s ↔ RefusedWhenIncomplete s := by
  by_cases hparts : ∃ p : Parts, p.text = s
  · obtain ⟨p, rfl⟩ := hparts
    rw [wellJudged_text_iff]
    constructor
    · intro h p' htext
      rw [Parts.text_injective htext]
      exact h
    · exact fun h => h p rfl
  · exact iff_of_true (wellJudged_of_no_parts hparts) fun p htext => absurd ⟨p, htext⟩ hparts

/-- A host without a scheme is accepted. -/
theorem host_without_scheme_not_wellJudged : ¬WellJudged "//host".toList := by
  intro h
  have hnonempty := h.nonempty { authority := "host".toList } (by decide)
  revert hnonempty
  decide

/-! ### Composed endpoints -/

/-- The path that is composed for a controller of a tenant. -/
def controllerPath (controllerId tenant : Str) : Str :=
  "/".toList ++ (tenant ++ ("/controller/v1/".toList ++ controllerId))

/-- A client polls the controller at the base address of a URI. -/
structure PollsController (u : URI) (controllerId tenant : Str) (cli : HawkbitCommunicationClient) :
    Prop where
  scheme : cli.hawkbitURI.scheme = u.scheme
  authority : cli.hawkbitURI.authority = u.authority
  target : (pollRequest cli.hawkbitURI cli).target = controllerPath controllerId tenant

/-- `setEndpoint`, and `setHawkbitEndpoint` followed by `build`, lead to the controller. -/
structure EndpointComposed (e controllerId tenant : Str) (u : URI) : Prop where
  set : ∀ cli : HawkbitCommunicationClient, ∃ cli',
    cli.setEndpointOf e controllerId tenant = .ok cli' ∧ PollsController u controllerId tenant cli'
  build : ∀ b : DefaultClientBuilderImpl, ∃ b' cli',
    b.setHawkbitEndpointOf e controllerId tenant = .ok b' ∧ b'.build = .ok cli' ∧
      PollsController u controllerId tenant cli'

/-- A text without the characters that end a path or a C string. -/
def IsLiteral (s : Str) : Prop := '?' ∉ s ∧ '#' ∉ s ∧ nul ∉ s

instance : DecidablePred IsLiteral := fun _ => inferInstanceAs (Decidable (_ ∧ _ ∧ _))

/-- The endpoint has a scheme, and the names are literal. -/
structure Composable (u : URI) (controllerId tenant : Str) : Prop where
  scheme : u.scheme ≠ []
  tenant : IsLiteral tenant
  controllerId : IsLiteral controllerId

/-- The clients that the two ways to compose an endpoint lead to. -/
inductive ComposedFor (e controllerId tenant : Str) : HawkbitCommunicationClient → Prop
  | set {cli cli' : HawkbitCommunicationClient} :
      cli.setEndpointOf e controllerId tenant = .ok cli' → ComposedFor e controllerId tenant cli'
  | build {b b' : DefaultClientBuilderImpl} {cli' : HawkbitCommunicationClient} :
      b.setHawkbitEndpointOf e controllerId tenant = .ok b' → b'.build = .ok cli' →
      ComposedFor e controllerId tenant cli'

/-- The path of a controller is literal when both of its names are. -/
theorem isLiteral_controllerPath (controllerId tenant : Str) :
    IsLiteral (controllerPath controllerId tenant) ↔ IsLiteral tenant ∧ IsLiteral controllerId := by
  have hmark : ∀ c : Char, isPathChar c = false ∨ c = nul →
      (c ∉ controllerPath controllerId tenant ↔ c ∉ tenant ∧ c ∉ controllerId) := by
    intro c hc
    have hslash : c ∉ "/".toList := by
      intro hmem
      obtain rfl := List.mem_singleton.mp hmem
      revert hc
      decide
    have hroot : c ∉ "/controller/v1/".toList := by
      intro hmem
      have hall : ∀ d ∈ "/controller/v1/".toList, (isPathChar d && d != nul) = true :=
        List.all_eq_true.mp (by decide)
      have hchar := hall c hmem
      rw [Bool.and_eq_true, bne_iff_ne] at hchar
      obtain hnot | hnul := hc
      · rw [hnot] at hchar
        exact absurd hchar.1 nofun
      · exact hchar.2 hnul
    simp only [controllerPath, List.mem_append, hslash, hroot, false_or, not_or]
  rw [IsLiteral, hmark '?' (by decide), hmark '#' (by decide), hmark nul (by decide)]
  constructor
  · intro h
    exact ⟨⟨h.1.1, h.2.1.1, h.2.2.1⟩, h.1.2, h.2.1.2, h.2.2.2⟩
  · intro h
    exact ⟨⟨h.1.1, h.2.1⟩, ⟨h.1.2.1, h.2.2.1⟩, h.1.2.2, h.2.2.2⟩

/-- The composed string. -/
def composedEndpoint (u : URI) (controllerId tenant : Str) : Str :=
  u.scheme ++ "://".toList ++ u.authority ++ controllerPath controllerId tenant

/-- The endpoint of a controller is composed when the base address is a URI. -/
theorem hawkbitEndpointFrom_of_ok {e : Str} {u : URI} (h : URI.fromString e = .ok u)
    (controllerId tenant : Str) :
    hawkbitEndpointFrom e controllerId tenant = .ok (composedEndpoint u controllerId tenant) := by
  simp only [hawkbitEndpointFrom, h, composedEndpoint, controllerPath, ← List.append_assoc]
  rfl

/-- `setEndpoint` takes the composed endpoint. -/
theorem setEndpointOf_of_ok {e : Str} {u : URI} (h : URI.fromString e = .ok u)
    (controllerId tenant : Str) (cli : HawkbitCommunicationClient) :
    cli.setEndpointOf e controllerId tenant =
      (URI.fromString (composedEndpoint u controllerId tenant)).map
        fun uri => { cli with hawkbitURI := uri } := by
  rw [HawkbitCommunicationClient.setEndpointOf_eq_map, hawkbitEndpointFrom_of_ok h]
  rfl

/-- `setHawkbitEndpoint` takes the composed endpoint. -/
theorem setHawkbitEndpointOf_of_ok {e : Str} {u : URI} (h : URI.fromString e = .ok u)
    (controllerId tenant : Str) (b : DefaultClientBuilderImpl) :
    b.setHawkbitEndpointOf e controllerId tenant =
      .ok (b.setHawkbitEndpoint (composedEndpoint u controllerId tenant)) := by
  simp only [DefaultClientBuilderImpl.setHawkbitEndpointOf, hawkbitEndpointFrom_of_ok h]
  rfl

/-- The credentials leave the endpoint. -/
theorem authorise_hawkbitURI (b : DefaultClientBuilderImpl) (cli : HawkbitCommunicationClient) :
    (b.authorise cli).hawkbitURI = cli.hawkbitURI := by
  unfold DefaultClientBuilderImpl.authorise
  cases b.authVariant <;> rfl

/-- A builder with an endpoint builds a client with that endpoint. -/
theorem build_setHawkbitEndpoint (b : DefaultClientBuilderImpl) {endpoint : Str}
    (hne : endpoint ≠ []) :
    (b.setHawkbitEndpoint endpoint).build =
      (URI.fromString endpoint).map fun uri => b.authorise (b.configure { hawkbitURI := uri }) := by
  unfold DefaultClientBuilderImpl.build DefaultClientBuilderImpl.setHawkbitEndpoint
  dsimp only
  rw [if_pos hne, HawkbitCommunicationClient.setEndpoint_eq_map]
  cases URI.fromString endpoint <;> rfl

/-- A URI at the base address of another one whose path is that of a controller. -/
structure IsControllerAt (u : URI) (controllerId tenant : Str) (v : URI) : Prop where
  scheme : v.scheme = u.scheme
  authority : v.authority = u.authority
  target : cstr v.path = controllerPath controllerId tenant

/-- A client polls a controller exactly when its URI is that of the controller. -/
theorem pollsController_iff {u : URI} {controllerId tenant : Str} {cli : HawkbitCommunicationClient} :
    PollsController u controllerId tenant cli ↔
      IsControllerAt u controllerId tenant cli.hawkbitURI := by
  constructor
  · exact fun h => ⟨h.scheme, h.authority, h.target⟩
  · exact fun h => ⟨h.scheme, h.authority, h.target⟩

/-- A composed endpoint is parsed back exactly when it was composed of literal names behind a
scheme. -/
theorem fromString_composedEndpoint_iff {e : Str} {u : URI} (h : URI.fromString e = .ok u)
    (controllerId tenant : Str) :
    (∃ v, URI.fromString (composedEndpoint u controllerId tenant) = .ok v ∧
      IsControllerAt u controllerId tenant v) ↔ Composable u controllerId tenant := by
  obtain ⟨p, -, -, rfl⟩ := fromString_eq_ok_iff.mp h
  constructor
  · intro hcomposed
    obtain ⟨v, hv, hcontroller⟩ := hcomposed
    have hscheme : p.toURI.scheme ≠ [] := by
      intro hempty
      obtain ⟨error, herror⟩ := fromString_colon
        ("//".toList ++ p.toURI.authority ++ controllerPath controllerId tenant)
      rw [composedEndpoint, hempty] at hv
      cases herror.symm.trans hv
    obtain ⟨q, -, -, rfl⟩ := fromString_eq_ok_iff.mp hv
    have hliteral : IsLiteral (controllerPath controllerId tenant) := by
      have hpath : ∀ c ∈ controllerPath controllerId tenant, isPathChar c = true := by
        intro c hc
        rw [← hcontroller.target] at hc
        exact q.path_chars c ((List.takeWhile_prefix _).subset hc)
      refine ⟨fun hmark => ?_, fun hhash => ?_, ?_⟩
      · exact absurd (hpath _ hmark) (by decide)
      · exact absurd (hpath _ hhash) (by decide)
      · rw [← hcontroller.target]
        exact nul_notMem_cstr _
    obtain ⟨htenant, hcontrollerId⟩ := (isLiteral_controllerPath controllerId tenant).mp hliteral
    exact ⟨hscheme, htenant, hcontrollerId⟩
  · intro hcomposable
    have hscheme : p.scheme ≠ none := by
      intro hnone
      exact hcomposable.scheme (by rw [Parts.toURI, hnone]; rfl)
    obtain ⟨hmark, hhash, hnul⟩ := (isLiteral_controllerPath controllerId tenant).mpr
      ⟨hcomposable.tenant, hcomposable.controllerId⟩
    have hstops : Stops isAuthorityChar (controllerPath controllerId tenant) :=
      stops_cons_iff.mpr (by decide)
    have hchars : ∀ c ∈ controllerPath controllerId tenant, isPathChar c = true := by
      intro c hc
      rw [isPathChar, Bool.and_eq_true, bne_iff_ne, bne_iff_ne]
      exact ⟨fun h => hmark (h ▸ hc), fun h => hhash (h ▸ hc)⟩
    exact ⟨_, fromString_withPath hscheme hstops hchars, rfl, rfl, cstr_of_notMem hnul⟩

/-- The endpoint of a client is what was parsed for it. -/
theorem eq_ok_of_map {f : URI → HawkbitCommunicationClient} (hf : ∀ v, (f v).hawkbitURI = v)
    {r : Except StdException URI} {cli : HawkbitCommunicationClient} (h : r.map f = .ok cli) :
    r = .ok cli.hawkbitURI := by
  cases r with
  | error e => cases h
  | ok v => rw [← Except.ok.inj h, hf]

/-- The clients an endpoint was composed for hold the URI it is parsed to. -/
theorem ComposedFor.fromString {e : Str} {u : URI} (h : URI.fromString e = .ok u)
    {controllerId tenant : Str} {cli : HawkbitCommunicationClient}
    (hcli : ComposedFor e controllerId tenant cli) :
    URI.fromString (composedEndpoint u controllerId tenant) = .ok cli.hawkbitURI := by
  cases hcli with
  | @set cli _ hset =>
    rw [setEndpointOf_of_ok h] at hset
    exact eq_ok_of_map (fun _ => rfl) hset
  | @build b b' _ hb hbuild =>
    rw [setHawkbitEndpointOf_of_ok h] at hb
    obtain rfl := Except.ok.inj hb
    rw [build_setHawkbitEndpoint b (by simp [composedEndpoint])] at hbuild
    exact eq_ok_of_map (fun v => authorise_hawkbitURI b (b.configure { hawkbitURI := v })) hbuild

/-- Composing leads to the controller exactly when the composed endpoint is parsed back. -/
theorem endpointComposed_iff_fromString {e : Str} {u : URI} (h : URI.fromString e = .ok u)
    (controllerId tenant : Str) :
    EndpointComposed e controllerId tenant u ↔
      ∃ v, URI.fromString (composedEndpoint u controllerId tenant) = .ok v ∧
        IsControllerAt u controllerId tenant v := by
  constructor
  · intro hcomposed
    obtain ⟨cli, hset, hpolls⟩ := hcomposed.set {}
    exact ⟨cli.hawkbitURI, (ComposedFor.set hset).fromString h, pollsController_iff.mp hpolls⟩
  · intro hparsed
    obtain ⟨v, hv, hcontroller⟩ := hparsed
    refine ⟨fun cli => ?_, fun b => ?_⟩
    · refine ⟨{ cli with hawkbitURI := v }, ?_, pollsController_iff.mpr hcontroller⟩
      rw [setEndpointOf_of_ok h, hv]
      rfl
    · have hbuild := build_setHawkbitEndpoint b
        (show composedEndpoint u controllerId tenant ≠ [] by simp [composedEndpoint])
      rw [hv] at hbuild
      refine ⟨_, _, setHawkbitEndpointOf_of_ok h controllerId tenant b, hbuild, ?_⟩
      rw [pollsController_iff, authorise_hawkbitURI b]
      exact hcontroller

/-- Controllers of one tenant have different paths. -/
theorem controllerPath_injective (tenant : Str) :
    Function.Injective fun controllerId => controllerPath controllerId tenant := by
  intro controllerId controllerId' h
  exact List.append_cancel_left (List.append_cancel_left (List.append_cancel_left h))

/-- An endpoint is composed faithfully exactly when it has a scheme and the names are literal, and
then controllers of one tenant poll different resources. -/
theorem endpointComposed_iff {e : Str} {u : URI} (h : URI.fromString e = .ok u) (tenant : Str) :
    (∀ controllerId, EndpointComposed e controllerId tenant u ↔ Composable u controllerId tenant) ∧
      ∀ controllerId controllerId' cli cli', Composable u controllerId tenant →
        Composable u controllerId' tenant → controllerId ≠ controllerId' →
        ComposedFor e controllerId tenant cli → ComposedFor e controllerId' tenant cli' →
        (pollRequest cli.hawkbitURI cli).target ≠ (pollRequest cli'.hawkbitURI cli').target := by
  have hcomposed : ∀ controllerId,
      EndpointComposed e controllerId tenant u ↔ Composable u controllerId tenant := by
    intro controllerId
    rw [endpointComposed_iff_fromString h, fromString_composedEndpoint_iff h]
  have htarget : ∀ controllerId cli, Composable u controllerId tenant →
      ComposedFor e controllerId tenant cli →
      (pollRequest cli.hawkbitURI cli).target = controllerPath controllerId tenant := by
    intro controllerId cli hcomposable hcli
    obtain ⟨v, hv, hcontroller⟩ :=
      (fromString_composedEndpoint_iff h controllerId tenant).mpr hcomposable
    obtain rfl := Except.ok.inj (hv.symm.trans (hcli.fromString h))
    exact hcontroller.target
  refine ⟨hcomposed, fun controllerId controllerId' cli cli' hc hc' hne hcli hcli' heq => hne ?_⟩
  rw [htarget controllerId cli hc hcli, htarget controllerId' cli' hc' hcli'] at heq
  exact controllerPath_injective tenant heq

/-- The endpoint of a device, composed from an endpoint with a path and a query. -/
theorem endpointComposed_device :
    EndpointComposed "https://h/x?y=z".toList "device".toList "default".toList
      ⟨"https".toList, "h".toList, "/x".toList, "y=z".toList, []⟩ :=
  ((endpointComposed_iff (by decide) "default".toList).1 "device".toList).mpr
    ⟨by decide, by decide, by decide⟩

/-- A question mark in the name of a controller ends the path. -/
theorem question_mark_not_composed :
    ¬∀ u, URI.fromString "http://h".toList = .ok u →
      EndpointComposed "http://h".toList "a?b".toList "default".toList u := by
  intro h
  have hok : URI.fromString "http://h".toList =
      .ok { scheme := "http".toList, authority := "h".toList } := by decide
  have hparsed := (endpointComposed_iff_fromString hok _ _).mp (h _ hok)
  have hcomposable := (fromString_composedEndpoint_iff hok _ _).mp hparsed
  exact absurd hcomposable.controllerId (by decide)

end Up2date.Ddi
