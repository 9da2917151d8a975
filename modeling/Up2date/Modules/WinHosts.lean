import Up2date.Cxx.Scanning
import Up2date.Modules.WinHttp

/-!
# Hosts and ports of the Windows backend

An authority is a name or a bracketed IPv6 address, with or without a port. The backend takes
the right host, port and kind of connection from it when the host is a name and no port is
written, or one of at most 65535 for `http`. With any port it does not use TLS, a greater port
is reduced to 16 bits, and an address is cut at its first colon.
-/

namespace Up2date.Win

open Cxx Uri Httpclient

/-- The schemes of the two kinds of connection. -/
inductive WebScheme
  | http | https
deriving DecidableEq, Repr

/-- A scheme as it stands in a URI. -/
def WebScheme.text : WebScheme → Str
  | .http => "http".toList
  | .https => "https".toList

/-- The name of a host. -/
structure HostName where
  text : Str
  ne_nil : text ≠ []
  colon_notMem : ':' ∉ text
  nul_notMem : nul ∉ text

/-- An IPv6 address, which has colons, and stands in brackets. -/
structure Ipv6Address where
  text : Str
  colon_mem : ':' ∈ text
  nul_notMem : nul ∉ text

/-- The host of an authority. -/
inductive Host
  | name (n : HostName)
  | ipv6 (address : Ipv6Address)

/-- A host as it stands in a URI. -/
def Host.text : Host → Str
  | name n => n.text
  | ipv6 address => '[' :: address.text ++ [']']

/-- The host is a name or an IPv4 address. -/
def Host.IsName : Host → Prop
  | name _ => True
  | ipv6 _ => False

/-- A port in decimal digits. -/
structure Port where
  digits : Str
  ne_nil : digits ≠ []
  isDigit_of_mem : ∀ c ∈ digits, c.isDigit = true

/-- The number of a port. -/
def Port.number (p : Port) : ℕ := digitsValue p.digits

/-- An authority without user information. -/
structure HostPort where
  host : Host
  port : Option Port

namespace HostPort

/-- An authority as it stands in a URI. -/
def text (a : HostPort) : Str :=
  match a.port with
  | none => a.host.text
  | some port => a.host.text ++ ':' :: port.digits

/-- The port to connect to: the one that is written, or else the default one. -/
def portNumber (a : HostPort) (scheme : WebScheme) : ℤ :=
  match a.port, scheme with
  | some port, _ => port.number
  | none, .http => INTERNET_DEFAULT_HTTP_PORT
  | none, .https => INTERNET_DEFAULT_HTTPS_PORT

end HostPort

/-- The client of a base address with a scheme and an authority. -/
def IsClientOf (scheme : WebScheme) (a : HostPort) (cli : WINHttpLibClientImpl) : Prop :=
  cli.baseAddress.scheme = scheme.text ∧ cli.baseAddress.authority = a.text

/-- The calls of one request. -/
def callsOf (api : WinApi) (cli : WINHttpLibClientImpl) (method path : Str) (headers : Headers)
    (body : Str) : List WinCall :=
  finalState (cli.doHttpWinRequest api method path headers body [])

/-- Calls connect to the host and the port of an authority only. -/
def ConnectsTo (scheme : WebScheme) (a : HostPort) (calls : List WinCall) : Prop :=
  ∀ name port, .winHttpConnect name port ∈ calls → name = a.host.text ∧ port = a.portNumber scheme

/-- The certificate context of a client: that of its key pair, if it has one. -/
def certContextOf (api : WinApi) (cli : WINHttpLibClientImpl) : Except ℕ (Option CertContext) :=
  match cli.kp with
  | none => .ok none
  | some kp => (api.certContext kp).map some

/-- Calls open requests with TLS only, and send them with the certificate of the client. -/
structure IsSecure (api : WinApi) (cli : WINHttpLibClientImpl) (calls : List WinCall) : Prop where
  flag : ∀ verb object flags, .winHttpOpenRequest verb object flags ∈ calls → .secure ∈ flags
  certificate : ∀ headers body, .winHttpSendRequest headers body ∈ calls →
    ∃ ctx, certContextOf api cli = .ok ctx ∧ .setClientCertContext ctx ∈ calls

/-- Host, port and kind of connection are those of scheme and authority. -/
structure HostHandled (scheme : WebScheme) (a : HostPort) : Prop where
  isHttps : (extractDataFromHost (cstr a.text) (cstr scheme.text)).isHttps = true ↔ scheme = .https
  host : (extractDataFromHost (cstr a.text) (cstr scheme.text)).host = a.host.text
  port : (extractDataFromHost (cstr a.text) (cstr scheme.text)).port = a.portNumber scheme
  connects : ∀ api cli method path headers body, IsClientOf scheme a cli →
    ConnectsTo scheme a (callsOf api cli method path headers body)
  secure : scheme = .https → ∀ api cli method path headers body, IsClientOf scheme a cli →
    IsSecure api cli (callsOf api cli method path headers body)

/-- The authorities that are handled with a scheme. -/
def Supported (scheme : WebScheme) (a : HostPort) : Prop :=
  a.host.IsName ∧ ∀ port, a.port = some port → scheme = .http ∧ port.number < 2 ^ 16

/-! ### The calls of a request -/

/-- The calls of a request when none of them fails. -/
def plan (config : RequestConfig) (ctx : Option CertContext) : List WinCall :=
  let data := extractDataFromHost config.host config.scheme
  .winHttpOpen :: .winHttpConnect data.host (toInternetPort data.port) ::
    .winHttpOpenRequest config.method config.path
      (if data.isHttps then [RequestFlag.refresh, .secure] else [RequestFlag.refresh]) ::
    ((if data.isHttps then [.setClientCertContext ctx] else []) ++
      ((if !config.verifyServerCrt then [.setSecurityFlags] else []) ++
        [.winHttpSendRequest config.headers config.body, .winHttpReceiveResponse, .queryStatusCode]))

/-- A computation makes the calls of a list in order, up to one that fails. -/
def Makes (api : WinApi) (m : Calling Unit) (calls : List WinCall) : Prop :=
  ∀ s, m s = .ok () (s ++ calls) ∨
    ∃ f t c, m s = .error f t ∧ t <+: s ++ calls ∧ ∃ before, api.lastError before c ≠ none

/-- A call makes itself. -/
theorem makes_call (api : WinApi) (c : WinCall) : Makes api (api.call c) [c] := by
  intro s
  have hset : (set (s ++ [c]) : Calling PUnit) s = .ok ⟨⟩ (s ++ [c]) := rfl
  unfold WinApi.call
  rw [Effect.bind_of_ok (Effect.get_apply s), Effect.bind_of_ok hset]
  cases h : api.lastError s c with
  | none => exact Or.inl rfl
  | some code => exact Or.inr ⟨_, _, c, rfl, List.prefix_rfl, s, by simp [h]⟩

/-- The calls of a sequence are those of its steps in turn. -/
theorem Makes.bind {api : WinApi} {m : Calling Unit} {k : Unit → Calling Unit}
    {calls calls' : List WinCall} (hm : Makes api m calls) (hk : Makes api (k ()) calls') :
    Makes api (m >>= k) (calls ++ calls') := by
  intro s
  rw [← List.append_assoc]
  cases hm s with
  | inl hok =>
    rw [Effect.bind_of_ok hok]
    exact hk (s ++ calls)
  | inr herr =>
    obtain ⟨f, t, c, hrun, hpre, hfails⟩ := herr
    exact Or.inr ⟨f, t, c, Effect.bind_of_error hrun, hpre.trans (List.prefix_append _ _), hfails⟩

/-- A call under a condition is left out without it. -/
theorem Makes.guarded {api : WinApi} {k : Unit → Calling Unit} {calls : List WinCall}
    (b : Bool) (c : WinCall) (hk : Makes api (k ()) calls) :
    Makes api (if b = true then api.call c >>= k else k ())
      ((if b = true then [c] else []) ++ calls) := by
  cases b with
  | true => exact (makes_call api c).bind hk
  | false => exact hk

/-- A failure may be reported with another code. -/
theorem Makes.catching {api : WinApi} {m : Calling Unit} {calls : List WinCall} (code : ℕ)
    (hm : Makes api m calls) :
    Makes api (Effect.catching m fun _ => some (Effect.raise code)) calls := by
  intro s
  cases hm s with
  | inl hok => exact Or.inl (Effect.catching_of_ok hok)
  | inr herr =>
    obtain ⟨f, t, c, hrun, hpre, hfails⟩ := herr
    cases f with
    | thrown e => exact Or.inr ⟨_, t, c, Effect.catching_of_handled hrun rfl, hpre, hfails⟩
    | undefined => exact Or.inr ⟨_, t, c, Effect.catching_of_undefined hrun, hpre, hfails⟩

/-- A request makes the calls of its plan. -/
theorem makes_sendHttpRequestCtx (api : WinApi) (config : RequestConfig)
    (ctx : Option CertContext) :
    Makes api (sendHttpRequestCtx api config ctx) (plan config ctx) := by
  have hstatus := (makes_call api .queryStatusCode).catching ERROR_API_UNAVAILABLE
  have hsent := (makes_call api (.winHttpSendRequest config.headers config.body)).bind
    (k := fun _ => _) ((makes_call api .winHttpReceiveResponse).bind (k := fun _ => _) hstatus)
  exact (makes_call api _).bind <| (makes_call api _).bind <| (makes_call api _).bind <|
    (hsent.guarded (k := fun _ => _) _ _).guarded (k := fun _ => _) _ _

/-- The configuration a client makes of a request. -/
def requestConfig (cli : WINHttpLibClientImpl) (method path : Str) (headers : Headers)
    (body : Str) : RequestConfig :=
  { scheme := cstr cli.baseAddress.scheme, host := cstr cli.baseAddress.authority, path, method
    headers := cstr (formatHeaders headers), body, verifyServerCrt := cli.serverVerify }

variable {api : WinApi} {cli : WINHttpLibClientImpl} {method path : Str} {headers : Headers}
  {body : Str}

/-- `doHttpWinRequest` makes a certificate context and sends the request. -/
theorem doHttpWinRequest_eq :
    cli.doHttpWinRequest api method path headers body =
      Effect.ofExcept (certContextOf api cli) >>=
        sendHttpRequestCtx api (requestConfig cli method path headers body) := by
  cases hkp : cli.kp with
  | none =>
    simp only [WINHttpLibClientImpl.doHttpWinRequest, certContextOf, hkp]
    rfl
  | some kp =>
    simp only [WINHttpLibClientImpl.doHttpWinRequest, certContextOf, hkp]
    cases api.certContext kp <;> rfl

/-- The calls of a request are the beginning of a plan with the certificate of the client. -/
theorem callsOf_prefix (h : callsOf api cli method path headers body ≠ []) :
    ∃ ctx, certContextOf api cli = .ok ctx ∧ callsOf api cli method path headers body <+:
      plan (requestConfig cli method path headers body) ctx := by
  rw [callsOf, doHttpWinRequest_eq] at h ⊢
  cases hctx : certContextOf api cli with
  | error code => exact absurd (by rw [hctx]; rfl) h
  | ok ctx =>
    refine ⟨ctx, rfl, ?_⟩
    have hcert : (Effect.ofExcept (.ok ctx) : Calling _) [] = .ok ctx [] := rfl
    rw [Effect.bind_of_ok hcert]
    cases makes_sendHttpRequestCtx api (requestConfig cli method path headers body) ctx [] with
    | inl hok => rw [hok]; exact List.prefix_rfl
    | inr herr =>
      obtain ⟨f, t, c, hrun, hpre, -⟩ := herr
      rw [hrun]
      exact hpre

/-- Without a key pair and a failing call, all calls of the plan are made. -/
theorem callsOf_of_no_failure (hapi : ∀ t c, api.lastError t c = none) (hkp : cli.kp = none) :
    callsOf api cli method path headers body =
      plan (requestConfig cli method path headers body) none := by
  have hctx : certContextOf api cli = .ok none := by rw [certContextOf, hkp]
  have hcert : (Effect.ofExcept (certContextOf api cli) : Calling _) [] = .ok none [] := by
    rw [hctx]
    rfl
  rw [callsOf, doHttpWinRequest_eq, Effect.bind_of_ok hcert]
  cases makes_sendHttpRequestCtx api (requestConfig cli method path headers body) none [] with
  | inl hok => rw [hok]; rfl
  | inr herr =>
    obtain ⟨f, t, c, hrun, hpre, before, hfails⟩ := herr
    exact absurd (hapi before c) hfails

/-! ### Host and port -/

/-- A port is what follows the first colon. -/
theorem extractDataFromHost_port {host : Str} (hhost : ':' ∉ host) (port scheme : Str) :
    extractDataFromHost (host ++ ':' :: port) scheme =
      { host, port := atoi port, isHttps := false } := by
  have hrun : ∀ c ∈ host, decide (c ≠ ':') = true := fun c hc =>
    decide_eq_true fun h => hhost (h ▸ hc)
  have hstops : Stops (fun c => decide (c ≠ ':')) (':' :: port) := stops_cons_iff.mpr (by simp)
  simp only [extractDataFromHost, dropWhile_append_of_stops hrun hstops,
    takeWhile_append_of_stops hrun hstops]

/-- Without a colon, the scheme decides on the port and on TLS. -/
theorem extractDataFromHost_name {host : Str} (hhost : ':' ∉ host) (scheme : WebScheme) :
    extractDataFromHost host scheme.text =
      { host, isHttps := decide (scheme = .https)
        port :=
          if scheme = .https then INTERNET_DEFAULT_HTTPS_PORT else INTERNET_DEFAULT_HTTP_PORT } := by
  have hdrop : host.dropWhile (fun c => decide (c ≠ ':')) = [] :=
    List.dropWhile_eq_nil_iff.mpr fun c hc => decide_eq_true fun h => hhost (h ▸ hc)
  simp only [extractDataFromHost, hdrop]
  cases scheme <;> rfl

/-- The host that is used has no colon. -/
theorem colon_notMem_host (host scheme : Str) : ':' ∉ (extractDataFromHost host scheme).host := by
  unfold extractDataFromHost
  cases h : host.dropWhile (fun c => decide (c ≠ ':')) with
  | nil =>
    have hall := List.dropWhile_eq_nil_iff.mp h
    intro hmem
    by_cases hs : scheme = "https".toList <;>
      exact absurd (hall ':' (by simpa only [hs, if_true, if_false] using hmem)) (by simp)
  | cons c port =>
    intro hmem
    exact absurd (List.mem_takeWhile_imp hmem) (by simp)

/-- The number of a port is read up to the bound of an int. -/
theorem atoi_digits (p : Port) : atoi p.digits = min intMax (p.number : ℤ) := by
  have hnonneg : intMin ≤ min intMax (p.number : ℤ) := by
    have hmin : intMin ≤ 0 := by decide
    have hmax : (0 : ℤ) ≤ intMax := by decide
    omega
  simp only [atoi, strtol_digits p.ne_nil p.isDigit_of_mem]
  exact max_eq_right hnonneg

/-! ### Supported authorities -/

variable {scheme : WebScheme} {a : HostPort}

/-- A host has no null character. -/
theorem Host.nul_notMem (host : Host) : nul ∉ host.text := by
  have hopen : nul ≠ '[' := by decide
  have hclose : nul ≠ ']' := by decide
  cases host with
  | name n => exact n.nul_notMem
  | ipv6 address => simp [Host.text, address.nul_notMem, hopen, hclose]

/-- An authority has no null character. -/
theorem HostPort.nul_notMem (a : HostPort) : nul ∉ a.text := by
  have hcolon : nul ≠ ':' := by decide
  obtain ⟨host, port⟩ := a
  cases port with
  | none => exact host.nul_notMem
  | some port =>
    have hdigits : nul ∉ port.digits := fun h => absurd (port.isDigit_of_mem nul h) (by decide)
    simp [HostPort.text, host.nul_notMem, hcolon, hdigits]

/-- Scheme and authority are read to their ends. -/
theorem cstr_text (scheme : WebScheme) (a : HostPort) :
    cstr a.text = a.text ∧ cstr scheme.text = scheme.text := by
  refine ⟨cstr_of_notMem a.nul_notMem, ?_⟩
  cases scheme <;> decide

/-- Host, port and kind of connection of a supported authority. -/
theorem extractDataFromHost_of_supported (h : Supported scheme a) :
    extractDataFromHost a.text scheme.text =
      { host := a.host.text, port := a.portNumber scheme, isHttps := decide (scheme = .https) } := by
  obtain ⟨hname, hport⟩ := h
  obtain ⟨host, port⟩ := a
  cases host with
  | ipv6 address => exact hname.elim
  | name n =>
    cases port with
    | none =>
      refine (extractDataFromHost_name n.colon_notMem scheme).trans ?_
      cases scheme <;> rfl
    | some port =>
      obtain ⟨rfl, hlt⟩ := hport port rfl
      refine (extractDataFromHost_port n.colon_notMem port.digits _).trans ?_
      have hmax : (port.number : ℤ) ≤ intMax := by
        simp only [intMax]
        omega
      rw [atoi_digits, min_eq_right hmax]
      rfl

/-- The port of a supported authority fits the type of a port. -/
theorem toInternetPort_of_supported (h : Supported scheme a) :
    toInternetPort (a.portNumber scheme) = a.portNumber scheme := by
  obtain ⟨-, hport⟩ := h
  obtain ⟨host, port⟩ := a
  cases port with
  | none => cases scheme <;> rfl
  | some port =>
    have hlt : (port.number : ℤ) < 2 ^ 16 := by exact_mod_cast (hport port rfl).2
    exact Int.emod_eq_of_lt (Int.natCast_nonneg _) hlt

/-- What a client of a supported authority connects to. -/
theorem extractDataFromHost_requestConfig (h : Supported scheme a) (hcli : IsClientOf scheme a cli) :
    extractDataFromHost (requestConfig cli method path headers body).host
        (requestConfig cli method path headers body).scheme =
      { host := a.host.text, port := a.portNumber scheme, isHttps := decide (scheme = .https) } := by
  simp only [requestConfig, hcli.1, hcli.2, cstr_text scheme a]
  exact extractDataFromHost_of_supported h

/-- A call that is made belongs to the plan. -/
theorem mem_plan_of_mem {c : WinCall} (h : c ∈ callsOf api cli method path headers body) :
    ∃ ctx, c ∈ plan (requestConfig cli method path headers body) ctx := by
  obtain ⟨ctx, -, hpre⟩ := callsOf_prefix (List.ne_nil_of_mem h)
  exact ⟨ctx, hpre.subset h⟩

/-- A supported authority is connected to. -/
theorem connectsTo_of_supported (h : Supported scheme a) (hcli : IsClientOf scheme a cli) :
    ConnectsTo scheme a (callsOf api cli method path headers body) := by
  intro name port hmem
  obtain ⟨ctx, hplan⟩ := mem_plan_of_mem hmem
  simp only [plan, extractDataFromHost_requestConfig h hcli] at hplan
  have hcall : name = a.host.text ∧ port = toInternetPort (a.portNumber scheme) := by
    simpa [List.mem_ite_nil_right] using hplan
  exact ⟨hcall.1, hcall.2.trans (toInternetPort_of_supported h)⟩

/-- A request that is sent has the certificate set before. -/
theorem isSecure_of_supported (h : Supported .https a) (hcli : IsClientOf .https a cli) :
    IsSecure api cli (callsOf api cli method path headers body) := by
  constructor
  · intro verb object flags hmem
    obtain ⟨ctx, hplan⟩ := mem_plan_of_mem hmem
    simp only [plan, extractDataFromHost_requestConfig h hcli] at hplan
    have hcall : verb = method ∧ object = path ∧ flags = [.refresh, .secure] := by
      simpa [List.mem_ite_nil_right, requestConfig] using hplan
    simp [hcall.2.2]
  · intro sentHeaders sentBody hmem
    obtain ⟨ctx, hctx, hpre⟩ := callsOf_prefix (List.ne_nil_of_mem hmem)
    refine ⟨ctx, hctx, ?_⟩
    let before : List WinCall := [.winHttpOpen,
      .winHttpConnect a.host.text (toInternetPort (a.portNumber .https)),
      .winHttpOpenRequest method path [.refresh, .secure], .setClientCertContext ctx]
    have hbefore : before <+: plan (requestConfig cli method path headers body) ctx := by
      simp only [plan, extractDataFromHost_requestConfig h hcli]
      exact List.prefix_append before _
    cases List.prefix_or_prefix_of_prefix hpre hbefore with
    | inl hshort =>
      have hsent := hshort.subset hmem
      simp [before] at hsent
    | inr hlong => exact hlong.subset (by simp [before])

/-- A supported authority is handled. -/
theorem handled_of_supported (h : Supported scheme a) : HostHandled scheme a := by
  have hdata := extractDataFromHost_of_supported h
  constructor
  · rw [(cstr_text scheme a).1, (cstr_text scheme a).2, hdata, decide_eq_true_iff]
  · rw [(cstr_text scheme a).1, (cstr_text scheme a).2, hdata]
  · rw [(cstr_text scheme a).1, (cstr_text scheme a).2, hdata]
  · intro api cli method path headers body hcli
    exact connectsTo_of_supported h hcli
  · intro hscheme api cli method path headers body hcli
    subst hscheme
    exact isSecure_of_supported h hcli

/-! ### Other authorities -/

/-- An IPv6 address has a colon. -/
theorem isName_of_handled (h : HostHandled scheme a) : a.host.IsName := by
  have hcolon : ':' ∉ a.host.text := h.host ▸ colon_notMem_host _ _
  cases hhost : a.host with
  | name n => trivial
  | ipv6 address =>
    rw [hhost] at hcolon
    exact absurd (by simp [Host.text, address.colon_mem]) hcolon

/-- The client of a base address without a path. -/
def bareClient (scheme : WebScheme) (a : HostPort) : WINHttpLibClientImpl :=
  { baseAddress := { scheme := scheme.text, authority := a.text } }

/-- An API whose calls all succeed. -/
def obligingApi : WinApi where
  lastError _ _ := none
  certContext _ := .ok ⟨0⟩

/-- A request without a failure connects to the port the code takes, reduced to 16 bits. -/
theorem connect_mem_callsOf (scheme : WebScheme) (a : HostPort) :
    .winHttpConnect (extractDataFromHost a.text scheme.text).host
        (toInternetPort (extractDataFromHost a.text scheme.text).port) ∈
      callsOf obligingApi (bareClient scheme a) "GET".toList [] .empty [] := by
  rw [callsOf_of_no_failure (fun _ _ => rfl) rfl]
  simp only [plan, requestConfig, bareClient, (cstr_text scheme a).1, (cstr_text scheme a).2]
  exact List.mem_cons_of_mem _ List.mem_cons_self

/-- The port of a connection has 16 bits. -/
theorem portNumber_lt_of_handled (h : HostHandled scheme a) : a.portNumber scheme < 2 ^ 16 := by
  have hconnect := h.connects obligingApi (bareClient scheme a) "GET".toList [] .empty [] ⟨rfl, rfl⟩
    _ _ (connect_mem_callsOf scheme a)
  rw [← hconnect.2]
  exact Int.emod_lt_of_pos _ (by decide)

/-- TLS is not used with a port. -/
theorem scheme_of_handled (h : HostHandled scheme a) {port : Port} (hport : a.port = some port) :
    scheme = .http := by
  have hhttps := h.isHttps
  rw [(cstr_text scheme a).1, (cstr_text scheme a).2] at hhttps
  have hname := isName_of_handled h
  obtain ⟨host, written⟩ := a
  obtain rfl : written = some port := hport
  cases host with
  | ipv6 address => exact hname.elim
  | name n =>
    have hdata := extractDataFromHost_port n.colon_notMem port.digits scheme.text
    simp only [HostPort.text, Host.text, hdata] at hhttps
    cases scheme with
    | http => rfl
    | https => exact absurd (hhttps.mpr rfl) (by simp)

/-- Host, port and kind of connection are right for the supported authorities only. -/
theorem hostHandled_iff (scheme : WebScheme) (a : HostPort) :
    HostHandled scheme a ↔ Supported scheme a := by
  refine Iff.intro (fun h => ⟨isName_of_handled h, fun port hport => ?_⟩) handled_of_supported
  have hnumber : a.portNumber scheme = port.number := by
    simp only [HostPort.portNumber, hport]
  have hlt := portNumber_lt_of_handled h
  rw [hnumber] at hlt
  exact ⟨scheme_of_handled h hport, by exact_mod_cast hlt⟩

/-- With a port, even that of `https`, a request of an `https` address goes out in clear text. -/
theorem https_with_port_not_handled :
    ¬ HostHandled .https ⟨.name ⟨"h".toList, by decide, by decide, by decide⟩,
      some ⟨"443".toList, by decide, List.all_eq_true.mp (by decide)⟩⟩ :=
  fun h => absurd (h.isHttps.mpr rfl) (by decide)

end Up2date.Win
