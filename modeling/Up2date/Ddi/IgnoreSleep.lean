import Up2date.Ddi.Sleeping

/-!
# Responses that ask for the next poll at once

The flag `ignoreSleep` is cleared before every poll and set by the last step of following a
link, so it says whether the response to this poll asks the client not to sleep. A configuration
response without data ends the poll before that step, and its flag is lost. A sleep time of less
than a second has no tick, so that the client does not sleep whatever the response says.
-/

namespace Up2date.Ddi

open Cxx Uri Httpclient Computability

/-- Whether an answer asks the client not to sleep, if it holds a response. -/
def Answer.ignoreSleep? : Answer → Option Bool
  | .void => none
  | .config r => r.map ConfigResponse.ignoreSleep
  | .response r => r.map Response.ignoreSleep

/-- What an event callback that returns a response says, if it does. -/
def Event.ignoreSleep? : Event → Option Bool
  | .returned _ answer => answer.ignoreSleep?
  | _ => none

/-- The response of a callback. -/
def Event.isAnswer (e : Event) : Bool := e.ignoreSleep?.isSome

/-- A configuration response without data is returned. -/
def Event.isEmptyConfig : Event → Bool
  | .returned _ (.config (some r)) => r.data.isEmpty
  | _ => false

section Windows

variable (env : Environment) (schedule : ℕ → List Signal) (cli : HawkbitCommunicationClient)

/-- A poll begins in state `n` and returns. -/
def PollReturns (n : ℕ) : Prop :=
  (exec env schedule cli n).pc = .poll ∧ (exec env schedule cli (n + 1)).pc = .resetPollRequested

/-- An event callback of the poll returned a response that asks the client not to sleep. -/
def AsksNoSleep (n : ℕ) : Prop :=
  ∃ e ∈ stepEvents env schedule cli n, e.ignoreSleep? = some true

/-- It is a configuration response without data. -/
def AsksWithoutData (n : ℕ) : Prop :=
  ∃ e ∈ stepEvents env schedule cli n, e.ignoreSleep? = some true ∧ e.isEmptyConfig = true

/-- Another thread asks for a poll between two states, before the first tick can begin: the
reset of the request flag and the four tests before a tick are the steps from state `n`. -/
def RequestedAtOnce (n m : ℕ) : Prop :=
  ∃ k, n < k ∧ k < m ∧ k ≤ n + 4 ∧ .requestToPoll ∈ schedule k

/-- The client does not sleep between two states. -/
def Sleepless (n m : ℕ) : Prop :=
  (exec env schedule cli m).clock = (exec env schedule cli n).clock

/-- The client sleeps between two states: for all ticks unless another thread makes a call, and
for one at least unless another thread asks for a poll before that. -/
def Sleeps (n m : ℕ) : Prop :=
  ∃ i : ℕ, (exec env schedule cli m).clock = (exec env schedule cli n).clock + 1000 * i ∧
    (i : ℤ) ≤ (exec env schedule cli n).world.client.ticks ∧
    ((i : ℤ) = (exec env schedule cli n).world.client.ticks ∨ CalledBetween schedule n m) ∧
    (0 < i ∨ RequestedAtOnce schedule n m)

/-- After the poll that begins in state `n`, the client sleeps before the next one exactly when
no response to the poll asks it not to, if there is a time to sleep. -/
def IgnoreSleepObeyed (n : ℕ) : Prop :=
  PollReturns env schedule cli n → ∀ m, NextIteration env schedule cli (n + 1) m →
    (AsksNoSleep env schedule cli n → Sleepless env schedule cli (n + 1) m) ∧
      (¬ AsksNoSleep env schedule cli n →
        0 < (exec env schedule cli (n + 1)).world.client.currentSleepTime →
        Sleeps env schedule cli (n + 1) m)

end Windows

/-! ### One poll -/

/-- The responses of callbacks so far. -/
def World.answers (w : World) : List Event := w.trace.filter Event.isAnswer

/-- The flag and the responses of callbacks, which requests do not change. -/
def World.flagged (w : World) : Bool × List Event := (w.client.ignoreSleep, w.answers)

/-- The events of a request are no responses of callbacks. -/
theorem isAnswer_of_isOf {e : Event} {x : Exchange} (h : e.IsOf x) : e.isAnswer = false := by
  cases e <;> first | rfl | exact h.elim

/-- Requests keep the flag. -/
theorem requestRules_ignoreSleep : RequestRules (Keeps fun w => w.client.ignoreSleep) where
  log _ _ _ := rfl
  signal s w := by cases s <;> rfl
  setting s w cli h := by
    obtain ⟨uri, headers, keypair, rfl⟩ := HawkbitCommunicationClient.perform_frame h
    rfl
  data _ _ _ _ := rfl

/-- A request with its retry keeps the flag and the responses. -/
theorem retryHandler_flagged {env : Environment} {x : Exchange}
    {func : HttpClient → Program Httpclient.Result} (hfunc : Sending env x func) (uri : URI) :
    Respects (Keeps World.flagged) (retryHandler env x uri func) := fun w =>
  Prod.ext (requestRules_ignoreSleep.retryHandler hfunc uri w)
    (retryHandler_filter env (fun _ => isAnswer_of_isOf) hfunc uri w)

/-- Neither do other calls of user code, nor those of a listener. -/
theorem listenerRules_flagged (env : Environment) : ListenerRules env (Keeps World.flagged) where
  toCallRules := callRules_of_requests
    (fun call w => Prod.ext (requestRules_ignoreSleep.restoreRules.performRestore call w)
      ((callRules_filter env (fun _ => isAnswer_of_isOf) fun _ _ => rfl).restore call w))
    (fun _ _ _ => Prod.ext rfl ((List.filter_append _ _).trans (List.append_nil _)))
    (fun uri _ hfunc => retryHandler_flagged hfunc uri) fun _ _ _ _ => rfl
  called _ _ := Prod.ext rfl ((List.filter_append _ _).trans (List.append_nil _))
  returned _ _ := Prod.ext rfl ((List.filter_append _ _).trans (List.append_nil _))

/-- The requests of a poll. -/
theorem putConfig_flagged (env : Environment) (uri : URI) (body : Str) :
    Respects (Keeps World.flagged) (retryHandler env .configData uri fun cli => do
      let w ← get
      cli.put env uri.path w.client.defaultHeaders body applicationJson) :=
  retryHandler_flagged (.collected .configData .put (fun _ => uri.path) body applicationJson) uri

/-- The request for an action keeps the flag and the responses. -/
theorem getAction_flagged (env : Environment) (uri : URI) :
    Respects (Keeps World.flagged) (getAction env uri) :=
  retryHandler_flagged (.collected .action .get (fun _ => uri.path) [] []) uri

/-- The request of a poll keeps the flag and the responses. -/
theorem getPoll_flagged (env : Environment) (uri : URI) :
    Respects (Keeps World.flagged) (getPoll env uri) :=
  retryHandler_flagged (.collected .poll .get (fun w => w.client.hawkbitURI.path) [] []) uri

/-- What a returning callback adds is its answer. -/
theorem callback_flagged {env : Environment} {α : Type} {c : Callback}
    {code : List Event → UserCode α} {answer : α → Answer} {a : α} {w w' : World}
    (h : callback env c code answer w = .ok a w') :
    w'.client.ignoreSleep = w.client.ignoreSleep ∧
      w'.answers = w.answers ++ [Event.returned c (answer a)].filter Event.isAnswer := by
  unfold callback at h
  obtain ⟨_, w₁, hcalled, h⟩ := Effect.bind_eq_ok h
  obtain ⟨w₂, _, hget, h⟩ := Effect.bind_eq_ok h
  obtain ⟨b, w₃, hrun, h⟩ := Effect.bind_eq_ok h
  obtain ⟨_, w₄, hreturned, h⟩ := Effect.bind_eq_ok h
  cases hcalled
  cases hget
  cases hreturned
  cases h
  have hkeep := Interaction.run_respects (listenerRules_flagged env).performCall
    (code (w.log (.called c)).trace) (w.log (.called c))
  rw [hrun] at hkeep
  have hcalled : (w.log (.called c)).flagged = w.flagged := (listenerRules_flagged env).called c w
  have hbefore : w₃.flagged = w.flagged := hkeep.trans hcalled
  refine ⟨congrArg Prod.fst hbefore, ?_⟩
  calc (w₃.log (.returned c (answer a))).answers
      = w₃.answers ++ [Event.returned c (answer a)].filter Event.isAnswer := List.filter_append _ _
    _ = w.answers ++ [Event.returned c (answer a)].filter Event.isAnswer := by
      rw [show w₃.answers = w.answers from congrArg Prod.snd hbefore]

/-- What a returning poll makes of the flag: it keeps it, or sets it as the response says. -/
inductive SetsFlag (w w' : World) : Prop
  | nothing : w'.flagged = w.flagged → SetsFlag w w'
  | config {c r} : w'.answers = w.answers ++ [.returned c (.config (some r))] →
      w'.client.ignoreSleep = (if r.data = [] then w.client.ignoreSleep else r.ignoreSleep) →
      SetsFlag w w'
  | response {c r} : w'.answers = w.answers ++ [.returned c (.response (some r))] →
      w'.client.ignoreSleep = r.ignoreSleep → SetsFlag w w'

/-- What is made of the flag depends on the flag and the responses only. -/
theorem SetsFlag.of_flagged {v w w' : World} (hv : w.flagged = v.flagged) (h : SetsFlag w w') :
    SetsFlag v w' := by
  have hignore : w.client.ignoreSleep = v.client.ignoreSleep := congrArg Prod.fst hv
  have hanswers : w.answers = v.answers := congrArg Prod.snd hv
  cases h with
  | nothing heq => exact .nothing (heq.trans hv)
  | config hadded hset => exact .config (hanswers ▸ hadded) (hignore ▸ hset)
  | response hadded hset => exact .response (hanswers ▸ hadded) hset

/-- A decoder that returns leaves the state. -/
theorem ofDecoder_eq_ok {α : Type} {d : Decoder α} {a : α} {w w' : World}
    (h : ofDecoder d w = .ok a w') : d = .ok a ∧ w' = w := by
  cases d with
  | ok b => cases h; exact ⟨rfl, rfl⟩
  | error f => cases h

/-- A result that is returned leaves the state. -/
theorem ofExcept_eq_ok {α : Type} {r : Except Exn α} {a : α} {w w' : World}
    (h : (Effect.ofExcept r : Program α) w = .ok a w') : r = .ok a ∧ w' = w := by
  cases r with
  | ok b => cases h; exact ⟨rfl, rfl⟩
  | error e => cases h

section Polls

variable {env : Environment} {w w' : World}

/-- Data is sent back after the callback, and the flag is set after that. -/
theorem followConfigData_answered {uri : URI} (h : followConfigData env uri w = .ok () w') :
    SetsFlag w w' := by
  unfold followConfigData at h
  obtain ⟨req, w₁, hcallback, h₁⟩ := Effect.bind_eq_ok h
  obtain ⟨r, w₂, hdemand, h₂⟩ := Effect.bind_eq_ok h₁
  obtain ⟨hsome, rfl⟩ := ofDecoder_eq_ok hdemand
  obtain rfl : req = some r := by
    cases req with
    | none => cases hsome
    | some r' => cases hsome; rfl
  obtain ⟨hignore, hanswers⟩ := callback_flagged hcallback
  by_cases hdata : r.data = []
  · rw [if_pos hdata] at h₂
    cases h₂
    exact .config hanswers (by rw [if_pos hdata, hignore])
  · rw [if_neg hdata] at h₂
    obtain ⟨document, w₃, hdocument, h₃⟩ := Effect.bind_eq_ok h₂
    obtain ⟨-, rfl⟩ := ofExcept_eq_ok hdocument
    obtain ⟨resp, w₄, hput, h₄⟩ := Effect.bind_eq_ok h₃
    have hkeep : w₄.flagged = w₃.flagged := by
      have hrequest := putConfig_flagged env uri (cstr (env.write document)) w₃
      rwa [hput] at hrequest
    cases h₄
    exact .config ((congrArg Prod.snd hkeep).trans hanswers) (by rw [if_neg hdata])

/-- Feedback is sent after the callback of an action, and the flag is set however it is
delivered, as long as the poll goes on. -/
theorem answerAction_answered {uri : URI} {actionId : ℤ} {cliResp : Option Response}
    (h : answerAction env uri actionId cliResp w = .ok () w') :
    ∃ r, cliResp = some r ∧ w'.answers = w.answers ∧ w'.client.ignoreSleep = r.ignoreSleep := by
  unfold answerAction at h
  obtain ⟨document, w₁, hdocument, h₁⟩ := Effect.bind_eq_ok h
  obtain ⟨-, rfl⟩ := ofExcept_eq_ok hdocument
  obtain ⟨r, w₂, hdemand, h₂⟩ := Effect.bind_eq_ok h₁
  obtain ⟨hsome, rfl⟩ := ofDecoder_eq_ok hdemand
  obtain ⟨_, w₃, hdeliver, h₃⟩ := Effect.bind_eq_ok h₂
  have hkeep := (listenerRules_flagged env).deliverFeedback
    (retryHandler_flagged (.feedback uri (.object document)) uri) r w₂
  rw [hdeliver] at hkeep
  cases h₃
  refine ⟨r, ?_, congrArg Prod.snd hkeep, rfl⟩
  cases cliResp with
  | none => cases hsome
  | some r' => cases hsome; rfl

/-- An action is answered after its callback. -/
theorem followAction_answered {α : Type} {decode : Str → Decoder α} {c : α → Callback}
    {code : List Event → α → UserCode (Option Response)} {actionId : α → ℤ} {uri : URI}
    (h : followAction env decode c code actionId uri w = .ok () w') : SetsFlag w w' := by
  unfold followAction at h
  obtain ⟨resp, w₁, hget, h₁⟩ := Effect.bind_eq_ok h
  obtain ⟨action, w₂, hdecode, h₂⟩ := Effect.bind_eq_ok h₁
  obtain ⟨-, rfl⟩ := ofDecoder_eq_ok hdecode
  obtain ⟨cliResp, w₃, hcallback, h₃⟩ := Effect.bind_eq_ok h₂
  obtain ⟨r, rfl, hanswers, hignore⟩ := answerAction_answered h₃
  have hkeep := getAction_flagged env uri w
  rw [hget] at hkeep
  have hset := SetsFlag.response (hanswers.trans (callback_flagged hcallback).2) hignore
  exact hset.of_flagged hkeep

/-- A poll that returns keeps the flag or sets it as the response to it says. -/
theorem doPoll_answered (h : doPoll env w = .ok () w') : SetsFlag w w' := by
  unfold doPoll at h
  obtain ⟨_, w₁, hget, h₁⟩ := Effect.bind_eq_ok h
  cases hget
  obtain ⟨resp, w₂, hpoll, h₂⟩ := Effect.bind_eq_ok h₁
  obtain ⟨polingData, w₃, hdecode, h₃⟩ := Effect.bind_eq_ok h₂
  obtain ⟨-, rfl⟩ := ofDecoder_eq_ok hdecode
  obtain ⟨_, w₄, hmodify, h₄⟩ := Effect.bind_eq_ok h₃
  cases hmodify
  have hkeep : w₃.flagged = w.flagged := by
    have hrequest := getPoll_flagged env w.client.hawkbitURI w
    rwa [hpoll] at hrequest
  refine SetsFlag.of_flagged (w := { w₃ with client := setSleepTime polingData.sleepTime w₃.client })
    hkeep ?_
  unfold follow at h₄
  cases haction : polingData.action with
  | none =>
    rw [haction] at h₄
    have hnothing := (listenerRules_flagged env).toCallRules.callback
      ((listenerRules_flagged env).called .onNoActions)
      (fun _ => (listenerRules_flagged env).returned .onNoActions) env.handler.onNoActions
      { w₃ with client := setSleepTime polingData.sleepTime w₃.client }
    rw [show callback env .onNoActions _ _ _ = _ from h₄] at hnothing
    exact .nothing hnothing
  | getConfigData => rw [haction] at h₄; exact followConfigData_answered h₄
  | cancelAction =>
    simp only [haction, followCancelAction_eq] at h₄
    exact followAction_answered h₄
  | deploymentBase =>
    simp only [haction, followDeploymentBase_eq] at h₄
    exact followAction_answered h₄

end Polls

/-! ### Polls of a run -/

section Runs

variable {env : Environment} {schedule : ℕ → List Signal} {cli : HawkbitCommunicationClient} {n m : ℕ}

/-- A call that goes on elsewhere does not go on with a poll. -/
theorem call_pc_ne_poll (m : Machine) (p : Program Unit) {pc : Pc} (hpc : pc ≠ .poll) :
    (m.call p pc).pc ≠ .poll := by
  obtain hok | ⟨f, hfailed⟩ := call_pc m p pc
  · rw [hok]
    exact hpc
  · rw [hfailed]
    nofun

/-- Only the clearing of the flag leads to a poll. -/
theorem resetIgnoreSleep_of_step {m : Machine} (h : (step env m).pc = .poll) :
    m.pc = .resetIgnoreSleep := by
  unfold step at h
  cases hpc : m.pc with
  | resetIgnoreSleep => rfl
  | restoreAuth =>
    rw [hpc] at h
    cases hhandler : env.authErrorHandler with
    | none => rw [hhandler] at h; cases h
    | some onAuthError => rw [hhandler] at h; exact absurd h (call_pc_ne_poll _ _ nofun)
  | poll => rw [hpc] at h; exact absurd h (call_pc_ne_poll _ _ nofun)
  | returned => rw [hpc] at h; rw [hpc] at h; cases h
  | failed f => rw [hpc] at h; rw [hpc] at h; cases h
  | setRunning => rw [hpc] at h; cases h
  | resetPollRequested => rw [hpc] at h; cases h
  | sleep i => rw [hpc] at h; cases h
  | _ =>
    rw [hpc] at h
    simp only [Machine.goto] at h
    split at h <;> cases h

/-- The flag is cleared before a poll. -/
theorem ignoreSleep_of_poll (h : (exec env schedule cli n).pc = .poll) :
    (exec env schedule cli n).world.client.ignoreSleep = false := by
  cases n with
  | zero => cases h
  | succ n =>
    have hstep : (step env (exec env schedule cli n)).pc = .poll := h
    have hreset := resetIgnoreSleep_of_step hstep
    rw [exec_succ, interrupt_client]
    unfold step
    rw [hreset]
    rfl

/-- A poll appends events. -/
theorem doPoll_grows (env : Environment) :
    Respects (GrowsBy World.trace (letters fun _ => True)∗) (doPoll env) :=
  have hrules := followRules_letters env (P := fun _ => True) (fun _ => trivial)
    (fun _ _ => trivial) (fun _ _ => trivial) fun _ _ _ _ => trivial
  PollRules.doPoll
    { toFollowRules := hrules
      poll := fun uri _ hfunc => retryHandler_letters env (fun _ _ => trivial) hfunc uri
      sleepTime := fun _ _ => GrowsBy.unchanged rfl }

/-- A poll that returns, and the events of its step. -/
theorem PollReturns.exists_world (h : PollReturns env schedule cli n) :
    ∃ w', doPoll env (exec env schedule cli n).world = .ok () w' ∧
      (exec env schedule cli (n + 1)).world.client.ignoreSleep = w'.client.ignoreSleep ∧
      w'.answers = (exec env schedule cli n).world.answers ++
        (stepEvents env schedule cli n).filter Event.isAnswer := by
  obtain ⟨hpoll, hreturns⟩ := h
  have hstep : step env (exec env schedule cli n) =
      (exec env schedule cli n).call (doPoll env) .resetPollRequested := by
    unfold step
    rw [hpoll]
  rw [exec_succ, interrupt_pc, hstep] at hreturns
  cases hrun : doPoll env (exec env schedule cli n).world with
  | error f w' =>
    simp only [Machine.call, hrun] at hreturns
    cases hreturns
  | ok u w' =>
    refine ⟨w', rfl, ?_, ?_⟩
    · rw [exec_succ, interrupt_client, hstep, call_world, hrun]
      rfl
    · obtain ⟨seg, -, hgrows⟩ := doPoll_grows env (exec env schedule cli n).world
      rw [hrun] at hgrows
      have htrace : (step env (exec env schedule cli n)).world.trace =
          (exec env schedule cli n).world.trace ++ seg := by
        rw [hstep, call_world, hrun]
        exact hgrows
      have hsignals : ((schedule (n + 1)).map Event.signal).filter Event.isAnswer = [] := by
        simp [Event.isAnswer, Event.ignoreSleep?]
      rw [stepEvents_eq htrace, List.filter_append, hsignals, List.append_nil]
      exact (congrArg (List.filter Event.isAnswer) hgrows).trans (List.filter_append _ _)

/-- What a step asks for is in its answers. -/
theorem exists_answer_iff (env : Environment) (schedule : ℕ → List Signal)
    (cli : HawkbitCommunicationClient) (n : ℕ) (P : Event → Prop) :
    (∃ e ∈ stepEvents env schedule cli n, e.ignoreSleep? = some true ∧ P e) ↔
      ∃ e ∈ (stepEvents env schedule cli n).filter Event.isAnswer,
        e.ignoreSleep? = some true ∧ P e := by
  refine exists_congr fun e => ?_
  rw [List.mem_filter]
  constructor
  · intro h
    exact ⟨⟨h.1, by rw [Event.isAnswer, h.2.1]; rfl⟩, h.2⟩
  · intro h
    exact ⟨h.1.1, h.2⟩

/-- After a poll the flag is set exactly when a response with data asked for that. -/
theorem ignoreSleep_of_pollReturns (h : PollReturns env schedule cli n) :
    (exec env schedule cli (n + 1)).world.client.ignoreSleep = true ↔
      AsksNoSleep env schedule cli n ∧ ¬ AsksWithoutData env schedule cli n := by
  obtain ⟨w', hrun, hignore, hanswers⟩ := h.exists_world
  have hreset := ignoreSleep_of_poll h.1
  have hasks := exists_answer_iff env schedule cli n fun _ => True
  have hwithout := exists_answer_iff env schedule cli n fun e => e.isEmptyConfig = true
  simp only [and_true] at hasks
  rw [hignore, AsksNoSleep, AsksWithoutData, hasks, hwithout]
  cases doPoll_answered hrun with
  | nothing hkeeps =>
    have hkept : w'.answers = (exec env schedule cli n).world.answers ++ [] :=
      (congrArg Prod.snd hkeeps).trans (List.append_nil _).symm
    have hignored : w'.client.ignoreSleep = false := (congrArg Prod.fst hkeeps).trans hreset
    rw [List.append_cancel_left (hanswers.symm.trans hkept), hignored]
    simp
  | @config _ r hadded hset =>
    rw [List.append_cancel_left (hanswers.symm.trans hadded), hset, hreset]
    by_cases hdata : r.data = []
    · simp [Event.ignoreSleep?, Answer.ignoreSleep?, Event.isEmptyConfig, hdata]
    · simp [Event.ignoreSleep?, Answer.ignoreSleep?, Event.isEmptyConfig, hdata]
  | response hadded hset =>
    rw [List.append_cancel_left (hanswers.symm.trans hadded), hset]
    simp [Event.ignoreSleep?, Answer.ignoreSleep?, Event.isEmptyConfig]

/-- Behind a poll the requests for it are over. -/
theorem step_of_resetPollRequested (env : Environment) {m : Machine}
    (h : m.pc = .resetPollRequested) :
    step env m = m.update (fun cli => { cli with pollRequested := false }) .testSleep := by
  unfold step
  rw [h]

/-- Without a response that asks for it the flag is not set. -/
theorem ignoreSleep_of_not_asksNoSleep (h : PollReturns env schedule cli n)
    (hnot : ¬ AsksNoSleep env schedule cli n) :
    (exec env schedule cli (n + 1)).world.client.ignoreSleep = false := by
  by_contra hset
  exact hnot ((ignoreSleep_of_pollReturns h).mp (Bool.eq_true_of_not_eq_false hset)).1

/-- A configuration response without data does not set the flag. -/
theorem ignoreSleep_of_asksWithoutData (h : PollReturns env schedule cli n)
    (hwithout : AsksWithoutData env schedule cli n) :
    (exec env schedule cli (n + 1)).world.client.ignoreSleep = false := by
  by_contra hset
  exact ((ignoreSleep_of_pollReturns h).mp (Bool.eq_true_of_not_eq_false hset)).2 hwithout

/-- The two steps after a poll: the sleep is entered unless the flag is set or there is no time. -/
theorem exec_after_poll (hpoll : (exec env schedule cli n).pc = .resetPollRequested) :
    (exec env schedule cli (n + 1)).pc = .testSleep ∧
      (exec env schedule cli (n + 2)).pc =
        (if !(exec env schedule cli n).world.client.ignoreSleep &&
          decide ((exec env schedule cli n).world.client.currentSleepTime > 0)
        then .testTick 0 else .testRunning) ∧
      (exec env schedule cli (n + 2)).clock = (exec env schedule cli n).clock := by
  have hfirst := step_of_resetPollRequested env hpoll
  have hpc : (exec env schedule cli (n + 1)).pc = .testSleep := by
    rw [exec_succ, interrupt_pc, hfirst]
    rfl
  have hclient : (exec env schedule cli (n + 1)).world.client.ignoreSleep =
        (exec env schedule cli n).world.client.ignoreSleep ∧
      (exec env schedule cli (n + 1)).world.client.currentSleepTime =
        (exec env schedule cli n).world.client.currentSleepTime := by
    rw [exec_succ, interrupt_client, hfirst]
    exact ⟨rfl, rfl⟩
  have hsecond : step env (exec env schedule cli (n + 1)) = (exec env schedule cli (n + 1)).goto
      (if !(exec env schedule cli n).world.client.ignoreSleep &&
          decide ((exec env schedule cli n).world.client.currentSleepTime > 0)
        then .testTick 0 else .testRunning) := by
    unfold step
    rw [hpc, hclient.1, hclient.2]
  refine ⟨hpc, ?_, ?_⟩
  · rw [exec_succ, interrupt_pc, hsecond]
    rfl
  · rw [exec_succ, interrupt_clock, hsecond]
    change (exec env schedule cli (n + 1)).clock = _
    rw [exec_succ, interrupt_clock, hfirst]
    rfl

/-- The tests between two polls. -/
def Pc.IsTest : Pc → Prop
  | .testSleep => True
  | .testTick _ => True
  | .testStopped _ => True
  | .testRequested _ => True
  | .testRunning => True
  | _ => False

/-- A test changes nothing. -/
theorem step_of_isTest (env : Environment) {m : Machine} (h : m.pc.IsTest) :
    (step env m).world = m.world ∧ (step env m).clock = m.clock := by
  unfold step
  cases hpc : m.pc <;> first | exact ⟨rfl, rfl⟩ | (rw [hpc] at h; exact h.elim)

/-- What happens behind `n` up to `j + 1` happens up to `j` or at last. -/
theorem exists_le_succ_iff {j : ℕ} (hnj : n ≤ j) {P : ℕ → Prop} :
    (∃ k, n < k ∧ k ≤ j + 1 ∧ P k) ↔ (∃ k, n < k ∧ k ≤ j ∧ P k) ∨ P (j + 1) := by
  constructor
  · intro h
    obtain ⟨k, hk, hkj, hP⟩ := h
    by_cases hlast : k = j + 1
    · exact Or.inr (hlast ▸ hP)
    · exact Or.inl ⟨k, hk, by omega, hP⟩
  · intro h
    obtain ⟨k, hk, hkj, hP⟩ | hP := h
    · exact ⟨k, hk, by omega, hP⟩
    · exact ⟨j + 1, by omega, le_refl _, hP⟩

/-- A test behind tests. -/
theorem tests_concat {j : ℕ} (htests : ∀ l, n < l → l ≤ j → (exec env schedule cli l).pc.IsTest)
    (hlast : (exec env schedule cli (j + 1)).pc.IsTest) :
    ∀ l, n < l → l ≤ j + 1 → (exec env schedule cli l).pc.IsTest := by
  intro l hl hlj
  obtain hle | rfl : l ≤ j ∨ l = j + 1 := by omega
  · exact htests l hl hle
  · exact hlast

/-- From the end of a poll on, tests change nothing, and a poll is requested when another thread
has asked for one since. -/
theorem exec_tests (hpoll : (exec env schedule cli n).pc = .resetPollRequested) {j : ℕ}
    (hnj : n ≤ j) (htests : ∀ l, n < l → l ≤ j → (exec env schedule cli l).pc.IsTest) :
    (exec env schedule cli (j + 1)).clock = (exec env schedule cli n).clock ∧
      (exec env schedule cli (j + 1)).world.client.ticks =
        (exec env schedule cli n).world.client.ticks ∧
      ((exec env schedule cli (j + 1)).world.client.pollRequested = true ↔
        ∃ k, n < k ∧ k ≤ j + 1 ∧ .requestToPoll ∈ schedule k) := by
  induction hnj with
  | refl =>
    have hstep := step_of_resetPollRequested env hpoll
    refine ⟨?_, ?_, ?_⟩
    · rw [exec_succ, interrupt_clock, hstep]
      rfl
    · rw [exec_succ, interrupt_client, hstep]
      rfl
    · rw [exec_succ, interrupt_client, hstep]
      simp only [Machine.update, Bool.false_or, decide_eq_true_eq]
      rw [exists_le_succ_iff (le_refl n)]
      exact (or_iff_right fun h => by
        obtain ⟨k, hk, hkn, -⟩ := h
        omega).symm
  | @step j hnj ih =>
    have hle : n ≤ j := hnj
    obtain ⟨hclock, hticks, hrequested⟩ := ih fun l hl hlj => htests l hl (by omega)
    obtain ⟨hworld, hstep⟩ := step_of_isTest env (htests (j + 1) (by omega) (le_refl _))
    refine ⟨?_, ?_, ?_⟩
    · rw [exec_succ, interrupt_clock, hstep, hclock]
    · rw [← hticks, exec_succ env schedule cli (j + 1), interrupt_client, hworld]
      rfl
    · rw [exec_succ, interrupt_client, hworld]
      simp only [Bool.or_eq_true, decide_eq_true_eq, hrequested]
      exact (exists_le_succ_iff (by omega)).symm

/-- A run that has returned stays there. -/
theorem returned_persists (hreturned : (exec env schedule cli n).pc = .returned) (hnm : n ≤ m) :
    (exec env schedule cli m).pc = .returned := by
  have hinterrupt : ∀ (signals : List Signal) (t : Machine), t.pc = .returned →
      (t.interrupt signals).pc = .returned := fun _ _ h => h
  have hstep : ∀ t : Machine, t.pc = .returned → (step env t).pc = .returned := by
    intro t h
    unfold step
    rw [h]
    exact h
  exact runState_persists hinterrupt hstep hnm hreturned

/-- A client that tests whether to run polls again or returns. -/
theorem exec_testRunning {k : ℕ} (htest : (exec env schedule cli k).pc = .testRunning) :
    (exec env schedule cli (k + 1)).pc =
      if (exec env schedule cli k).world.client.isRunning then .resetIgnoreSleep
        else .returned := by
  rw [exec_succ, interrupt_pc]
  unfold step
  rw [htest]
  rfl

/-- A client that tests whether to run polls again at once, if another iteration follows. -/
theorem NextIteration.eq_succ (hnext : NextIteration env schedule cli n m) {k : ℕ} (hnk : n ≤ k)
    (htest : (exec env schedule cli k).pc = .testRunning)
    (hbefore : ∀ l, n < l → l ≤ k → (exec env schedule cli l).pc.IsTest) :
    m = k + 1 ∧ (exec env schedule cli k).world.client.isRunning = true := by
  obtain ⟨hnm, hm, hfirst⟩ := hnext
  have hkm : k < m := by
    by_contra hle
    have hlast := hbefore m hnm (by omega)
    rw [hm] at hlast
    exact hlast
  have hpc := exec_testRunning htest
  cases hrunning : (exec env schedule cli k).world.client.isRunning with
  | true =>
    rw [hrunning, if_pos rfl] at hpc
    refine ⟨?_, rfl⟩
    by_contra hne
    exact hfirst (k + 1) (by omega) (by omega) hpc
  | false =>
    rw [hrunning, if_neg Bool.false_ne_true] at hpc
    have hstays := returned_persists hpc (show k + 1 ≤ m by omega)
    rw [hm] at hstays
    cases hstays

/-- A step takes no time but that of a tick. -/
theorem clock_le_step (env : Environment) (m : Machine) : m.clock ≤ (step env m).clock := by
  have hcall : ∀ p pc, (m.call p pc).clock = m.clock := by
    intro p pc
    unfold Machine.call
    cases p m.world <;> rfl
  unfold step
  cases m.pc with
  | restoreAuth =>
    cases env.authErrorHandler with
    | none => exact le_refl _
    | some onAuthError => exact (hcall _ _).ge
  | poll => exact (hcall _ _).ge
  | sleep i => exact Nat.le_add_right _ _
  | _ => exact le_refl _

/-- The clock never goes back. -/
theorem clock_mono (hnm : n ≤ m) :
    (exec env schedule cli n).clock ≤ (exec env schedule cli m).clock := by
  induction hnm with
  | refl => exact le_refl _
  | @step m _ ih =>
    rw [exec_succ, interrupt_clock]
    exact ih.trans (clock_le_step env _)

/-- A client that comes to test whether to run without a tick has not slept. -/
theorem sleepless_of_tests (hpoll : (exec env schedule cli n).pc = .resetPollRequested) {k : ℕ}
    (hnk : n ≤ k) (hbefore : ∀ l, n < l → l ≤ k → (exec env schedule cli l).pc.IsTest)
    (htest : (exec env schedule cli (k + 1)).pc = .testRunning)
    (hnext : NextIteration env schedule cli n m) :
    m = k + 1 + 1 ∧ Sleepless env schedule cli n m := by
  have htests := tests_concat hbefore (by rw [htest]; trivial)
  obtain ⟨rfl, -⟩ := hnext.eq_succ (by omega) htest htests
  exact ⟨rfl, (exec_tests hpoll (by omega) htests).1⟩

/-- The first test after a poll. -/
theorem tests_one (hpoll : (exec env schedule cli n).pc = .resetPollRequested) :
    ∀ l, n < l → l ≤ n + 1 → (exec env schedule cli l).pc.IsTest := by
  refine tests_concat (fun l hl hln => by omega) ?_
  rw [(exec_after_poll hpoll).1]
  trivial

/-- A client that skips the sleep polls again at once. -/
theorem sleepless_of_testRunning (hpoll : (exec env schedule cli n).pc = .resetPollRequested)
    (hskip : (exec env schedule cli (n + 2)).pc = .testRunning)
    (hnext : NextIteration env schedule cli n m) : Sleepless env schedule cli n m :=
  (sleepless_of_tests hpoll (by omega) (tests_one hpoll) hskip hnext).2

/-- A client that has to sleep tests twice whether there is a tick to sleep. -/
theorem exec_testTick (hpoll : (exec env schedule cli n).pc = .resetPollRequested)
    (hignore : (exec env schedule cli n).world.client.ignoreSleep = false)
    (htime : 0 < (exec env schedule cli n).world.client.currentSleepTime) :
    (∀ l, n < l → l ≤ n + 2 → (exec env schedule cli l).pc.IsTest) ∧
      (exec env schedule cli (n + 3)).pc =
        if 0 < (exec env schedule cli n).world.client.ticks then .testStopped 0
        else .testRunning := by
  have htick := (exec_after_poll hpoll).2.1
  rw [hignore, if_pos (by simp [htime])] at htick
  have hticks := (exec_tests hpoll (by omega) (tests_one hpoll)).2.1
  refine ⟨tests_concat (tests_one hpoll) (by rw [htick]; trivial), ?_⟩
  rw [exec_succ, interrupt_pc, ← hticks]
  unfold step
  rw [htick]
  rfl

/-- A client with a tick to sleep tests for a request after the other tests, if another
iteration follows. -/
theorem exec_testRequested (hpoll : (exec env schedule cli n).pc = .resetPollRequested)
    (hignore : (exec env schedule cli n).world.client.ignoreSleep = false)
    (htime : 0 < (exec env schedule cli n).world.client.currentSleepTime)
    (hticks : 0 < (exec env schedule cli n).world.client.ticks)
    (hnext : NextIteration env schedule cli n m) :
    (∀ l, n < l → l ≤ n + 4 → (exec env schedule cli l).pc.IsTest) ∧
      (exec env schedule cli (n + 4)).pc = .testRequested 0 := by
  obtain ⟨htests, hthird⟩ := exec_testTick hpoll hignore htime
  rw [if_pos hticks] at hthird
  have htest : (exec env schedule cli (n + 3)).pc.IsTest := by
    rw [hthird]
    trivial
  have hfourth : (exec env schedule cli (n + 4)).pc =
      if (exec env schedule cli (n + 3)).world.client.isRunning then .testRequested 0
      else .testRunning := by
    rw [exec_succ, interrupt_pc]
    unfold step
    rw [hthird]
    rfl
  have htests₄ : ∀ l, n < l → l ≤ n + 4 → (exec env schedule cli l).pc.IsTest := by
    refine tests_concat (tests_concat htests htest) ?_
    rw [hfourth]
    split <;> trivial
  refine ⟨htests₄, ?_⟩
  cases hrunning : (exec env schedule cli (n + 3)).world.client.isRunning with
  | true => rw [hfourth, hrunning, if_pos rfl]
  | false =>
    rw [hrunning, if_neg Bool.false_ne_true] at hfourth
    obtain ⟨-, hstill⟩ := hnext.eq_succ (by omega) hfourth htests₄
    rw [exec_succ, interrupt_client, (step_of_isTest env htest).1] at hstill
    simp [hrunning] at hstill

/-- A client that tests for a request polls again when there is one, and sleeps for a tick
otherwise. -/
theorem exec_tick {k : ℕ} (htest : (exec env schedule cli k).pc = .testRequested 0) :
    (exec env schedule cli (k + 1)).pc =
      if (exec env schedule cli k).world.client.pollRequested then .testRunning else .sleep 0 := by
  rw [exec_succ, interrupt_pc]
  unfold step
  rw [htest]
  rfl

/-- A tick takes a second. -/
theorem not_sleepless_of_sleep {k : ℕ} (hnk : n ≤ k)
    (htick : (exec env schedule cli k).pc = .sleep 0) (hkm : k < m) :
    ¬ Sleepless env schedule cli n m := by
  intro hsleepless
  have hstep : (exec env schedule cli (k + 1)).clock = (exec env schedule cli k).clock + 1000 := by
    rw [exec_succ, interrupt_clock]
    unfold step
    rw [htick]
  have hstart : (exec env schedule cli n).clock ≤ (exec env schedule cli k).clock :=
    clock_mono hnk
  have hend : (exec env schedule cli (k + 1)).clock ≤ (exec env schedule cli m).clock :=
    clock_mono hkm
  rw [Sleepless] at hsleepless
  omega

/-- A client with a tick to sleep does not sleep exactly when another thread asks for a poll
before the tick. -/
theorem sleepless_iff_requested (hpoll : (exec env schedule cli n).pc = .resetPollRequested)
    (hignore : (exec env schedule cli n).world.client.ignoreSleep = false)
    (htime : 0 < (exec env schedule cli n).world.client.currentSleepTime)
    (hticks : 0 < (exec env schedule cli n).world.client.ticks)
    (hnext : NextIteration env schedule cli n m) :
    Sleepless env schedule cli n m ↔ RequestedAtOnce schedule n m := by
  obtain ⟨htests, hfourth⟩ := exec_testRequested hpoll hignore htime hticks hnext
  have hfifth := exec_tick hfourth
  have hrequested := (exec_tests (j := n + 3) hpoll (by omega) fun l hl hl3 =>
    htests l hl (by omega)).2.2
  cases hpollRequested : (exec env schedule cli (n + 4)).world.client.pollRequested with
  | true =>
    rw [hpollRequested, if_pos rfl] at hfifth
    obtain ⟨k, hk, hk4, hrequest⟩ := hrequested.mp hpollRequested
    obtain ⟨hm, hsleepless⟩ := sleepless_of_tests hpoll (by omega) htests hfifth hnext
    exact iff_of_true hsleepless ⟨k, hk, by omega, hk4, hrequest⟩
  | false =>
    rw [hpollRequested, if_neg Bool.false_ne_true] at hfifth
    have hm5 : n + 5 < m := by
      by_contra hle
      obtain ⟨hnm, hm, -⟩ := hnext
      obtain hm4 | rfl : m ≤ n + 4 ∨ m = n + 5 := by omega
      · have hlast := htests m hnm hm4
        rw [hm] at hlast
        exact hlast
      · rw [hm] at hfifth
        cases hfifth
    apply iff_of_false (not_sleepless_of_sleep (by omega) hfifth hm5)
    intro h
    obtain ⟨k, hk, -, hk4, hrequest⟩ := h
    rw [hrequested.mpr ⟨k, hk, hk4, hrequest⟩] at hpollRequested
    cases hpollRequested

/-- A client that has to sleep does not when there is no tick to sleep, or when another thread
asks for a poll before the first one. -/
theorem sleepless_iff (hpoll : (exec env schedule cli n).pc = .resetPollRequested)
    (hignore : (exec env schedule cli n).world.client.ignoreSleep = false)
    (htime : 0 < (exec env schedule cli n).world.client.currentSleepTime)
    (hnext : NextIteration env schedule cli n m) :
    Sleepless env schedule cli n m ↔
      (exec env schedule cli n).world.client.ticks ≤ 0 ∨ RequestedAtOnce schedule n m := by
  by_cases hticks : 0 < (exec env schedule cli n).world.client.ticks
  · rw [or_iff_right (by omega)]
    exact sleepless_iff_requested hpoll hignore htime hticks hnext
  · obtain ⟨htests, hthird⟩ := exec_testTick hpoll hignore htime
    rw [if_neg hticks] at hthird
    exact iff_of_true (sleepless_of_tests hpoll (by omega) htests hthird hnext).2
      (Or.inl (by omega))

/-- A client that does not skip the sleep sleeps exactly when it begins a tick, if no other
thread asks for a poll before. -/
theorem sleeps_iff (hpoll : (exec env schedule cli n).pc = .resetPollRequested)
    (hignore : (exec env schedule cli n).world.client.ignoreSleep = false)
    (htime : 0 < (exec env schedule cli n).world.client.currentSleepTime)
    (hnext : NextIteration env schedule cli n m) :
    Sleeps env schedule cli n m ↔
      0 < (exec env schedule cli n).world.client.ticks ∨ RequestedAtOnce schedule n m := by
  have hsleepless := sleepless_iff hpoll hignore htime hnext
  constructor
  · intro h
    obtain ⟨i, -, hi, -, hpos | hrequested⟩ := h
    · exact Or.inl (by omega)
    · exact Or.inr hrequested
  · intro h
    obtain ⟨hset, -⟩ | ⟨-, i, hclock, hi, hend⟩ := slept_between hpoll htime hnext
    · rw [hignore] at hset
      cases hset
    · refine ⟨i, hclock, hi, hend, ?_⟩
      by_contra hnone
      obtain ⟨hzero, hrequested⟩ := not_or.mp hnone
      have hsame : Sleepless env schedule cli n m := by
        rw [Sleepless]
        omega
      have hticks := (hsleepless.mp hsame).resolve_right hrequested
      exact absurd (h.resolve_right hrequested) (by omega)

end Runs

/-- There is a tick to sleep when the sleep time is a second at least. -/
theorem HawkbitCommunicationClient.ticks_pos_iff (cli : HawkbitCommunicationClient) :
    0 < cli.ticks ↔ 1000 ≤ cli.currentSleepTime := by
  unfold HawkbitCommunicationClient.ticks
  constructor
  · intro h
    by_contra hlt
    by_cases hneg : cli.currentSleepTime < 0
    · have hopposite := Int.tdiv_nonneg (show 0 ≤ -cli.currentSleepTime by omega)
        (show (0 : ℤ) ≤ 1000 by omega)
      rw [Int.neg_tdiv] at hopposite
      omega
    · rw [Int.tdiv_eq_zero_of_lt (by omega) (by omega)] at h
      omega
  · intro h
    rw [Int.tdiv_eq_ediv_of_nonneg (by omega)]
    omega

/-- In every run, a poll is followed by the sleep that the response to it asks for, exactly
unless there is a tick to sleep and a configuration response without data asks for none, or
there is a time to sleep of less than a tick and no response asks for none; a request of
another thread before the first tick hides both. -/
theorem ignoreSleepObeyed_iff (env : Environment) (schedule : ℕ → List Signal)
    (cli : HawkbitCommunicationClient) :
    ∀ n, IgnoreSleepObeyed env schedule cli n ↔
      (PollReturns env schedule cli n → ∀ m, NextIteration env schedule cli (n + 1) m →
        ¬ RequestedAtOnce schedule (n + 1) m →
        (AsksWithoutData env schedule cli n →
          (exec env schedule cli (n + 1)).world.client.currentSleepTime < 1000) ∧
        (¬ AsksNoSleep env schedule cli n →
          0 < (exec env schedule cli (n + 1)).world.client.currentSleepTime →
          1000 ≤ (exec env schedule cli (n + 1)).world.client.currentSleepTime)) := by
  intro n
  have hpos := (exec env schedule cli (n + 1)).world.client.ticks_pos_iff
  constructor
  · intro hobeyed hreturns m hnext hrequested
    obtain ⟨hasked, hnotAsked⟩ := hobeyed hreturns m hnext
    constructor
    · intro hwithout
      by_contra htime
      have hasks : AsksNoSleep env schedule cli n := by
        obtain ⟨e, he, hset, -⟩ := hwithout
        exact ⟨e, he, hset⟩
      have hignore := ignoreSleep_of_asksWithoutData hreturns hwithout
      have hnone := (sleepless_iff hreturns.2 hignore (by omega) hnext).mp (hasked hasks)
      have hticks := hnone.resolve_right hrequested
      omega
    · intro hnot htime
      have hignore := ignoreSleep_of_not_asksNoSleep hreturns hnot
      have hslept := (sleeps_iff hreturns.2 hignore htime hnext).mp (hnotAsked hnot htime)
      exact hpos.mp (hslept.resolve_right hrequested)
  · intro hcondition hreturns m hnext
    refine ⟨fun hasks => ?_, fun hnot htime => ?_⟩
    · by_cases hskip : (exec env schedule cli (n + 1)).world.client.ignoreSleep = false ∧
          0 < (exec env schedule cli (n + 1)).world.client.currentSleepTime
      · obtain ⟨hignore, htime⟩ := hskip
        apply (sleepless_iff hreturns.2 hignore htime hnext).mpr
        by_cases hrequested : RequestedAtOnce schedule (n + 1) m
        · exact Or.inr hrequested
        · have hwithout : AsksWithoutData env schedule cli n := by
            by_contra hwith
            rw [(ignoreSleep_of_pollReturns hreturns).mpr ⟨hasks, hwith⟩] at hignore
            cases hignore
          have hless := (hcondition hreturns m hnext hrequested).1 hwithout
          exact Or.inl (by omega)
      · apply sleepless_of_testRunning hreturns.2 _ hnext
        rw [(exec_after_poll hreturns.2).2.1]
        apply if_neg
        simpa using hskip
    · have hignore := ignoreSleep_of_not_asksNoSleep hreturns hnot
      apply (sleeps_iff hreturns.2 hignore htime hnext).mpr
      by_cases hrequested : RequestedAtOnce schedule (n + 1) m
      · exact Or.inr hrequested
      · exact Or.inl (hpos.mpr ((hcondition hreturns m hnext hrequested).2 hnot htime))

/-- A poll is answered with the link of the configuration, and `onConfigRequest` returns no data
and asks for the next poll at once. -/
def nothingToConfigure : Environment := { idleEnvironment with
  parse := fun _ => some (.object [("_links".toList, .object [("configData".toList,
    .object [("href".toList, .string "http://h/c".toList)])])])
  handler := { idleEnvironment.handler with
    onConfigRequest := fun _ => .done (some
      { data := [], sorted := List.Pairwise.nil, ignoreSleep := true }) } }

/-- The client sleeps for a second before the next poll all the same. -/
theorem nothingToConfigure_not_obeyed :
    ¬ IgnoreSleepObeyed nothingToConfigure undisturbed (clientSleeping 1000) 4 := by
  intro hobeyed
  have hreturns : PollReturns nothingToConfigure undisturbed (clientSleeping 1000) 4 := by
    unfold PollReturns
    decide +kernel
  have hnext : NextIteration nothingToConfigure undisturbed (clientSleeping 1000) 5 13 := by
    have hsleeping : ∀ k < 13, 5 < k →
        (exec nothingToConfigure undisturbed (clientSleeping 1000) k).pc ≠ .resetIgnoreSleep := by
      decide +kernel
    exact ⟨by omega, by decide +kernel, fun k hk hk13 => hsleeping k hk13 hk⟩
  have hasks : AsksNoSleep nothingToConfigure undisturbed (clientSleeping 1000) 4 := by
    unfold AsksNoSleep
    decide +kernel
  have hclock : _ = _ := (hobeyed hreturns 13 hnext).1 hasks
  revert hclock
  decide +kernel

end Up2date.Ddi
