import Up2date.Ddi.Credentials
import Up2date.Ddi.Run

/-!
# Polls without an endpoint

The endpoint is tested once, before `onAuthError` is called at start-up. From then on it is what
the handlers set last, so that no poll lacks one exactly when the call at start-up leaves an
endpoint and no later setting is accepted that has no scheme or no authority.
-/

namespace Up2date.Ddi

open Cxx Uri Httpclient Computability

/-- The endpoint that an event sets, if it sets one. -/
def Event.endpoint? : Event → Option URI
  | .set s => s.endpoint
  | _ => none

/-- The endpoint in force after an event. -/
def endpointAfter (uri : URI) (e : Event) : URI := e.endpoint?.getD uri

/-- A poll is begun, or one of its requests is sent. -/
def Event.IsPollRequest : Event → Prop
  | .issued .poll => True
  | .sent .poll _ _ _ => True
  | _ => False

section Runs

variable (env : Environment) (schedule : ℕ → List Signal) (cli : HawkbitCommunicationClient)

/-- The endpoint in force after the first events of step `n`. -/
def endpointIn (n : ℕ) (pre : List Event) : URI :=
  pre.foldl endpointAfter (exec env schedule cli n).world.client.hawkbitURI

/-- No poll request of a run is made without an endpoint: there is one from the first poll on,
and without one and without a handler to set it the run throws instead. -/
structure NeverPollsEmpty : Prop where
  requests : ∀ n pre e post, stepEvents env schedule cli n = pre ++ e :: post → e.IsPollRequest →
    (endpointIn env schedule cli n pre).isEmpty = false
  stays : ∀ n, (exec env schedule cli n).pc = .poll → ∀ m, n ≤ m → ∀ pre,
    pre <+: stepEvents env schedule cli m → (endpointIn env schedule cli m pre).isEmpty = false
  refuses : cli.hawkbitURI.isEmpty = true → env.authErrorHandler = none →
    (exec env schedule cli 2).pc = .failed (.thrown notInitialized)

/-- The settings made in step `n`: those of the call at start-up leave an endpoint, and none that
is accepted in a poll is empty. -/
structure SetsEndpoint (n : ℕ) : Prop where
  startUp : (exec env schedule cli n).pc = .restoreAuth →
    (endpointIn env schedule cli n (stepEvents env schedule cli n)).isEmpty = false
  poll : (exec env schedule cli n).pc = .poll → ∀ e ∈ stepEvents env schedule cli n,
    ∀ uri, e.endpoint? = some uri → uri.isEmpty = false

end Runs

/-! ### Settings and the trace -/

/-- Endpoints that are not empty replace an endpoint that is not. -/
theorem isEmpty_foldl_endpointAfter {uri : URI} {seg : List Event} (huri : uri.isEmpty = false)
    (hseg : ∀ e ∈ seg, ∀ u, Event.endpoint? e = some u → u.isEmpty = false) :
    (seg.foldl endpointAfter uri).isEmpty = false := by
  induction seg generalizing uri with
  | nil => exact huri
  | cons e rest ih =>
    refine ih ?_ fun x hx => hseg x (List.mem_cons_of_mem _ hx)
    unfold endpointAfter
    cases he : e.endpoint? with
    | none => exact huri
    | some u => exact hseg e List.mem_cons_self u he

/-- Events that set no endpoint leave it. -/
theorem foldl_endpointAfter_of_none {seg : List Event} (h : ∀ e ∈ seg, Event.endpoint? e = none)
    (uri : URI) : seg.foldl endpointAfter uri = uri := by
  induction seg with
  | nil => rfl
  | cons e rest ih =>
    rw [List.foldl_cons, endpointAfter, h e List.mem_cons_self]
    exact ih fun x hx => h x (List.mem_cons_of_mem _ hx)

/-- The endpoint of a client is what the events of the trace make of it. -/
abbrev EndpointReplays : World → World → Prop :=
  Replays World.trace endpointAfter fun w => w.client.hawkbitURI

/-- An event that is no setting. -/
theorem endpointReplays_log {e : Event} (hset : ∀ s, e ≠ .set s) (w : World) :
    EndpointReplays w (w.log e) := by
  refine ⟨[e], rfl, ?_⟩
  cases e with
  | set s => exact absurd rfl (hset s)
  | _ => rfl

/-- A signal leaves the endpoint. -/
theorem endpointReplays_signal (s : Signal) (w : World) : EndpointReplays w (w.signal s) := by
  refine ⟨[.signal s], rfl, ?_⟩
  cases s <;> rfl

/-- A setting is one event, whether it is accepted or throws. -/
theorem performRestore_endpointReplays (call : Setting ⊕ Signal) :
    Respects EndpointReplays (performRestore call) := by
  cases call with
  | inr s => exact Respects.modify (endpointReplays_signal s)
  | inl s =>
    intro w
    have hafter := (after_spec w.client (.authRestoreHandler, s)).2.2.2
    have hrun : performSetting s w =
        (Effect.ofExcept (((AuthRestoreHandler.mk w.client).perform s).mapError Exn.std) >>=
          fun cli => modify fun w => { w with client := cli }) (w.log (.set s)) := by
      unfold performSetting
      rw [Effect.bind_of_ok (record_apply _ w), Effect.bind_of_ok (Effect.get_apply _)]
      rfl
    change EndpointReplays w (finalState (performSetting s w))
    rw [hrun]
    cases hperform : (AuthRestoreHandler.mk w.client).perform s with
    | error e =>
      simp only [HawkbitCommunicationClient.after, hperform] at hafter
      exact ⟨[.set s], rfl, hafter⟩
    | ok cli =>
      simp only [HawkbitCommunicationClient.after, hperform] at hafter
      exact ⟨[.set s], rfl, hafter⟩

/-- An attempt leaves the endpoint. -/
theorem attemptRules_endpointReplays : AttemptRules EndpointReplays where
  log _ w _ hset := endpointReplays_log hset w
  signal := endpointReplays_signal
  data w _ _ _ := ⟨[], (List.append_nil w.trace).symm, rfl⟩

/-- A call of `onAuthError` sets the endpoints that it records. -/
theorem handlerRules_endpointReplays : HandlerRules EndpointReplays where
  log _ w _ hset := endpointReplays_log hset w
  restore := performRestore_endpointReplays

/-- A request sets the endpoints that are recorded in it. -/
theorem retryHandler_endpointReplays {env : Environment} {x : Exchange}
    {func : HttpClient → Program Httpclient.Result} (hfunc : Sending env x func) (uri : URI) :
    Respects EndpointReplays (retryHandler env x uri func) :=
  handlerRules_endpointReplays.retryHandler fun a =>
    attemptRules_endpointReplays.wrappedRequest hfunc a uri

/-- A poll sets the endpoints that are recorded in it. -/
theorem pollRules_endpointReplays (env : Environment) : PollRules env EndpointReplays where
  toCallRules := callRules_of_requests performRestore_endpointReplays
    (fun uri d w => endpointReplays_log (e := .download uri d) nofun w)
    (fun uri _ hfunc => retryHandler_endpointReplays hfunc uri) attemptRules_endpointReplays.data
  called c w := endpointReplays_log (e := .called c) nofun w
  returned c a w := endpointReplays_log (e := .returned c a) nofun w
  request _ uri _ _ _ hfunc := retryHandler_endpointReplays hfunc uri
  poll uri _ hfunc := retryHandler_endpointReplays hfunc uri
  ignoreSleep w _ := ⟨[], (List.append_nil w.trace).symm, rfl⟩
  sleepTime w _ := ⟨[], (List.append_nil w.trace).symm, rfl⟩

/-- Every step of a run changes the endpoint as its settings say. -/
theorem step_endpointReplays (env : Environment) (m : Machine) :
    EndpointReplays m.world (step env m).world := by
  have hsame : ∀ w : World, w.trace = m.world.trace →
      w.client.hawkbitURI = m.world.client.hawkbitURI → EndpointReplays m.world w :=
    fun _ htrace huri => ⟨[], htrace.trans (List.append_nil _).symm, huri⟩
  unfold step
  cases hpc : m.pc with
  | restoreAuth =>
    cases env.authErrorHandler with
    | none => exact hsame _ rfl rfl
    | some onAuthError =>
      simp only [call_world]
      exact handlerRules_endpointReplays.callOnAuthError none onAuthError m.world
  | poll =>
    simp only [call_world]
    exact (pollRules_endpointReplays env).doPoll m.world
  | _ => exact hsame _ rfl rfl

/-- A step that makes no call appends nothing. -/
theorem step_trace_of_ne (env : Environment) {m : Machine} (hrestore : m.pc ≠ .restoreAuth)
    (hpoll : m.pc ≠ .poll) : (step env m).world.trace = m.world.trace := by
  unfold step
  cases hpc : m.pc with
  | restoreAuth => exact absurd hpc hrestore
  | poll => exact absurd hpc hpoll
  | _ => rfl

/-- A quiet event is no poll request. -/
theorem Event.IsQuiet.not_isPollRequest {e : Event} (h : e.IsQuiet) : ¬ e.IsPollRequest := by
  cases e with
  | set s => exact id
  | signal s => exact id
  | _ => exact h.elim

/-- The call at start-up appends no poll request. -/
theorem step_trace_of_restoreAuth {env : Environment} {m : Machine} (hpc : m.pc = .restoreAuth) :
    ∃ seg, (step env m).world.trace = m.world.trace ++ seg ∧ ∀ e ∈ seg, ¬ Event.IsPollRequest e := by
  unfold step
  rw [hpc]
  cases env.authErrorHandler with
  | none => exact ⟨[], (List.append_nil _).symm, fun _ he => absurd he List.not_mem_nil⟩
  | some onAuthError =>
    simp only [call_world]
    obtain ⟨quiet, hquiets, hcall⟩ := callOnAuthError_trace none onAuthError m.world
    obtain ⟨f, w', herror, htrace⟩ | ⟨w', hok, htrace⟩ := hcall
    · rw [herror]
      refine ⟨_, htrace, fun e he => ?_⟩
      obtain rfl | he := List.mem_cons.mp he
      · exact id
      · exact (hquiets e he).not_isPollRequest
    · rw [hok]
      refine ⟨_, htrace, fun e he => ?_⟩
      obtain rfl | he := List.mem_cons.mp he
      · exact id
      · obtain he | he := List.mem_append.mp he
        · exact (hquiets e he).not_isPollRequest
        · rw [List.mem_singleton.mp he]
          exact id

section Steps

variable {env : Environment} {schedule : ℕ → List Signal} {cli : HawkbitCommunicationClient} {n m : ℕ}

/-- The endpoint after a step is what its events make of the one before it. -/
theorem exec_hawkbitURI (n : ℕ) :
    (exec env schedule cli (n + 1)).world.client.hawkbitURI =
      endpointIn env schedule cli n (stepEvents env schedule cli n) := by
  obtain ⟨seg, htrace, huri⟩ := step_endpointReplays env (exec env schedule cli n)
  have hsignals : ∀ e ∈ (schedule (n + 1)).map Event.signal, Event.endpoint? e = none := by
    intro e he
    obtain ⟨s, _, rfl⟩ := List.mem_map.mp he
    rfl
  rw [endpointIn, stepEvents_eq htrace, List.foldl_append, foldl_endpointAfter_of_none hsignals,
    ← huri, exec_succ, interrupt_client]

/-- Poll requests are made in polls. -/
theorem not_isPollRequest_of_ne (hpoll : (exec env schedule cli n).pc ≠ .poll) :
    ∀ e ∈ stepEvents env schedule cli n, ¬ e.IsPollRequest := by
  have hstep : ∃ seg, (step env (exec env schedule cli n)).world.trace =
      (exec env schedule cli n).world.trace ++ seg ∧ ∀ e ∈ seg, ¬ Event.IsPollRequest e := by
    by_cases hrestore : (exec env schedule cli n).pc = .restoreAuth
    · exact step_trace_of_restoreAuth hrestore
    · exact ⟨[], (step_trace_of_ne env hrestore hpoll).trans (List.append_nil _).symm,
        fun _ he => absurd he List.not_mem_nil⟩
  obtain ⟨seg, htrace, hseg⟩ := hstep
  intro e he
  rw [stepEvents_eq htrace, List.mem_append] at he
  obtain he | he := he
  · exact hseg e he
  · obtain ⟨s, _, rfl⟩ := List.mem_map.mp he
    exact id

/-- Settings are made at start-up and in polls. -/
theorem endpoint?_eq_none_of_ne (hrestore : (exec env schedule cli n).pc ≠ .restoreAuth)
    (hpoll : (exec env schedule cli n).pc ≠ .poll) :
    ∀ e ∈ stepEvents env schedule cli n, e.endpoint? = none := by
  have htrace := (step_trace_of_ne env hrestore hpoll).trans (List.append_nil _).symm
  intro e he
  rw [stepEvents_eq htrace, List.nil_append] at he
  obtain ⟨s, _, rfl⟩ := List.mem_map.mp he
  rfl

/-- A step that sets no endpoint, or none that is empty, keeps an endpoint that is not empty. -/
theorem isEmpty_endpointIn (hsets : SetsEndpoint env schedule cli n)
    (hrestore : (exec env schedule cli n).pc ≠ .restoreAuth)
    (huri : (exec env schedule cli n).world.client.hawkbitURI.isEmpty = false) {pre : List Event}
    (hpre : pre <+: stepEvents env schedule cli n) :
    (endpointIn env schedule cli n pre).isEmpty = false := by
  refine isEmpty_foldl_endpointAfter huri fun e he uri hset => ?_
  by_cases hpoll : (exec env schedule cli n).pc = .poll
  · exact hsets.poll hpoll e (hpre.subset he) uri hset
  · rw [endpoint?_eq_none_of_ne hrestore hpoll e (hpre.subset he)] at hset
    cases hset

/-- After start-up the authorisation is not restored any more. -/
theorem pc_ne_restoreAuth (hn : 2 ≤ n) : (exec env schedule cli n).pc ≠ .restoreAuth := by
  intro hpc
  have hone := ((exec_pc_restoreAuth env schedule cli n).mp hpc).1
  omega

/-- The endpoint after start-up is that of the client, unless it is empty. -/
theorem isEmpty_after_startUp (hsets : ∀ n, SetsEndpoint env schedule cli n) :
    (exec env schedule cli 2).world.client.hawkbitURI.isEmpty = false := by
  by_cases hempty : cli.hawkbitURI.isEmpty = true
  · rw [exec_hawkbitURI]
    exact (hsets 1).startUp ((exec_pc_restoreAuth env schedule cli 1).mpr ⟨rfl, hempty⟩)
  · have hzero : (exec env schedule cli 0).world.client.hawkbitURI.isEmpty = false := by
      change ((launch cli).interrupt (schedule 0)).world.client.hawkbitURI.isEmpty = false
      rw [interrupt_client]
      exact Bool.eq_false_of_not_eq_true hempty
    have hnever : ∀ k, (exec env schedule cli k).pc ≠ .restoreAuth := fun k hpc =>
      hempty ((exec_pc_restoreAuth env schedule cli k).mp hpc).2
    have hone : (exec env schedule cli 1).world.client.hawkbitURI.isEmpty = false := by
      rw [exec_hawkbitURI]
      exact isEmpty_endpointIn (hsets 0) (hnever 0) hzero List.prefix_rfl
    rw [exec_hawkbitURI]
    exact isEmpty_endpointIn (hsets 1) (hnever 1) hone List.prefix_rfl

/-- From the end of start-up on the endpoint is not empty. -/
theorem isEmpty_of_setsEndpoint (hsets : ∀ n, SetsEndpoint env schedule cli n) (hn : 2 ≤ n) :
    (exec env schedule cli n).world.client.hawkbitURI.isEmpty = false := by
  induction n, hn using Nat.le_induction with
  | base => exact isEmpty_after_startUp hsets
  | succ k hk ih =>
    rw [exec_hawkbitURI]
    exact isEmpty_endpointIn (hsets k) (pc_ne_restoreAuth hk) ih List.prefix_rfl

/-- Before the first poll the endpoint is the one that start-up leaves. -/
theorem hawkbitURI_before_poll (hn : 2 ≤ n)
    (hbefore : ∀ k < n, (exec env schedule cli k).pc ≠ .poll) :
    (exec env schedule cli n).world.client.hawkbitURI =
      (exec env schedule cli 2).world.client.hawkbitURI := by
  induction n, hn using Nat.le_induction with
  | base => rfl
  | succ k hk ih =>
    rw [exec_hawkbitURI, endpointIn, foldl_endpointAfter_of_none]
    · exact ih fun j hj => hbefore j (by omega)
    · exact endpoint?_eq_none_of_ne (pc_ne_restoreAuth hk) (hbefore k (by omega))

/-- No poll is among the first steps. -/
theorem two_le_of_poll (h : (exec env schedule cli n).pc = .poll) : 2 ≤ n := by
  by_contra hlt
  obtain rfl | rfl : n = 0 ∨ n = 1 := by omega
  · cases h
  · rw [exec_succ, interrupt_pc] at h
    change (if _ then Pc.restoreAuth else Pc.setRunning) = _ at h
    split at h <;> cases h

/-- Without an endpoint and without a handler a run ends at start-up. -/
theorem refuses_of_isEmpty (hempty : cli.hawkbitURI.isEmpty = true)
    (hhandler : env.authErrorHandler = none) :
    (exec env schedule cli 2).pc = .failed (.thrown notInitialized) := by
  have hpc := (exec_pc_restoreAuth env schedule cli 1).mpr ⟨rfl, hempty⟩
  rw [exec_succ, interrupt_pc]
  unfold step
  rw [hpc, hhandler]
  rfl

/-- Settings that leave no poll without an endpoint are not empty. -/
theorem setsEndpoint_of_stays (h : NeverPollsEmpty env schedule cli)
    (hpolls : ∃ k, (exec env schedule cli k).pc = .poll) (n : ℕ) : SetsEndpoint env schedule cli n where
  startUp hpc := by
    obtain ⟨rfl, hempty⟩ := (exec_pc_restoreAuth env schedule cli n).mp hpc
    obtain ⟨k, hk, hfirst⟩ : ∃ k, (exec env schedule cli k).pc = .poll ∧
        ∀ j < k, (exec env schedule cli j).pc ≠ .poll :=
      ⟨Nat.find hpolls, Nat.find_spec hpolls, fun j hj => Nat.find_min hpolls hj⟩
    rw [← exec_hawkbitURI, ← hawkbitURI_before_poll (two_le_of_poll hk) hfirst]
    exact h.stays k hk k le_rfl [] List.nil_prefix
  poll hpc e he uri hset := by
    obtain ⟨pre, post, hsplit⟩ := List.append_of_mem he
    have hprefix : pre ++ [e] <+: stepEvents env schedule cli n :=
      ⟨post, by rw [hsplit, List.append_assoc]; rfl⟩
    have hlast := h.stays n hpc n le_rfl (pre ++ [e]) hprefix
    rwa [endpointIn, List.foldl_append, List.foldl_cons, List.foldl_nil, endpointAfter, hset] at hlast

end Steps

/-- In every run, no poll request is made without an endpoint, exactly when the run does not poll
or the call of `onAuthError` at start-up leaves an endpoint and no setting accepted later is
empty. -/
theorem neverPollsEmpty_iff (env : Environment) (schedule : ℕ → List Signal)
    (cli : HawkbitCommunicationClient) :
    NeverPollsEmpty env schedule cli ↔
      ((∃ n, (exec env schedule cli n).pc = .poll) → ∀ n, SetsEndpoint env schedule cli n) := by
  constructor
  · intro h hpolls n
    exact setsEndpoint_of_stays h hpolls n
  · intro hsets
    have hstays : ∀ n, (exec env schedule cli n).pc = .poll → ∀ m, n ≤ m → ∀ pre,
        pre <+: stepEvents env schedule cli m →
          (endpointIn env schedule cli m pre).isEmpty = false := by
      intro n hn m hnm pre hpre
      have hm : 2 ≤ m := le_trans (two_le_of_poll hn) hnm
      have hall := hsets ⟨n, hn⟩
      exact isEmpty_endpointIn (hall m) (pc_ne_restoreAuth hm) (isEmpty_of_setsEndpoint hall hm) hpre
    refine ⟨fun n pre e post hsplit hrequest => ?_, hstays, refuses_of_isEmpty⟩
    have hpoll : (exec env schedule cli n).pc = .poll := by
      by_contra hne
      have he : e ∈ stepEvents env schedule cli n := by
        rw [hsplit]
        exact List.mem_append_right pre List.mem_cons_self
      exact not_isPollRequest_of_ne hne e he hrequest
    exact hstays n hpoll n le_rfl pre ⟨e :: post, hsplit.symm⟩

/-- A handler that sets a token only. -/
def tokenEnvironment : Environment := { idleEnvironment with
  authErrorHandler := some fun _ => .call (.inl (.setDeviceToken "t".toList)) fun _ => .done () }

/-- After it a client without an endpoint polls all the same. -/
theorem tokenEnvironment_polls_empty : ¬ NeverPollsEmpty tokenEnvironment (fun _ => []) {} := by
  intro h
  have hissued : ∃ post, stepEvents tokenEnvironment (fun _ => []) {} 5 =
      [] ++ .issued .poll :: post := ⟨_, rfl⟩
  obtain ⟨post, hpost⟩ := hissued
  have hempty := h.requests 5 [] _ post hpost trivial
  revert hempty
  decide +kernel

end Up2date.Ddi
