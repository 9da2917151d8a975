import Up2date.Cxx.Runs
import Up2date.Ddi.Rules

/-!
# The polling loop

`run` is a machine that makes one step at a time, so that other threads can call `stop` and
`requestToPoll` between any two steps; a poll is one step, during which the servers, the
handlers and other threads act as the environment says. The clock counts the milliseconds
slept, every `sleep_for` lasting exactly its argument.
-/

namespace Up2date.Ddi

open Cxx Uri Httpclient

/-- Where `run` is: at start-up, in the loop, in the loop over the seconds to sleep, or over. -/
inductive Pc
  | checkEndpoint | restoreAuth | setRunning
  | testRunning | resetIgnoreSleep | poll | resetPollRequested | testSleep
  | testTick (i : ℕ) | testStopped (i : ℕ) | testRequested (i : ℕ) | sleep (i : ℕ)
  | returned | failed (f : Fault Exn)
deriving DecidableEq

/-- A running client. -/
structure Machine where
  world : World
  pc : Pc := .checkEndpoint
  clock : ℕ := 0

namespace Machine

/-- The machine at another point of the program. -/
def goto (m : Machine) (pc : Pc) : Machine := { m with pc }

/-- Change the client and go on. -/
def update (m : Machine) (f : HawkbitCommunicationClient → HawkbitCommunicationClient) (pc : Pc) :
    Machine :=
  { m with world := { m.world with client := f m.world.client }, pc }

/-- Run a program and go on, or end with its exception. -/
def call (m : Machine) (p : Program Unit) (pc : Pc) : Machine :=
  match p m.world with
  | .ok _ w => { m with world := w, pc }
  | .error f w => { m with world := w, pc := .failed f }

/-- Calls of other threads. -/
def interrupt (signals : List Signal) (m : Machine) : Machine :=
  { m with world := signals.foldl World.signal m.world }

end Machine

/-- The exception for an endpoint that is still empty. -/
def notInitialized : Exn :=
  .clientInitializeError "endpoint or AuthErrorHandler is not set".toList

/-- The seconds to sleep, `currentSleepTime / 1000` in `int` arithmetic. -/
def HawkbitCommunicationClient.ticks (cli : HawkbitCommunicationClient) : ℤ :=
  cli.currentSleepTime.tdiv 1000

/-- One step of `run`. -/
def step (env : Environment) (m : Machine) : Machine :=
  match m.pc with
  | .checkEndpoint => m.goto (if m.world.client.hawkbitURI.isEmpty then .restoreAuth else .setRunning)
  | .restoreAuth =>
    match env.authErrorHandler with
    | none => m.goto (.failed (.thrown notInitialized))
    | some onAuthError => m.call (callOnAuthError none onAuthError) .setRunning
  | .setRunning => m.update (fun cli => { cli with isRunning := true }) .testRunning
  | .testRunning => m.goto (if m.world.client.isRunning then .resetIgnoreSleep else .returned)
  | .resetIgnoreSleep => m.update (fun cli => { cli with ignoreSleep := false }) .poll
  | .poll => m.call (doPoll env) .resetPollRequested
  | .resetPollRequested => m.update (fun cli => { cli with pollRequested := false }) .testSleep
  | .testSleep =>
    m.goto (if !m.world.client.ignoreSleep && decide (m.world.client.currentSleepTime > 0)
      then .testTick 0 else .testRunning)
  | .testTick i => m.goto (if (i : ℤ) < m.world.client.ticks then .testStopped i else .testRunning)
  | .testStopped i => m.goto (if m.world.client.isRunning then .testRequested i else .testRunning)
  | .testRequested i => m.goto (if m.world.client.pollRequested then .testRunning else .sleep i)
  | .sleep i => { m with clock := m.clock + 1000, pc := .testTick (i + 1) }
  | .returned => m
  | .failed _ => m

/-- A client that enters `run`. -/
def launch (cli : HawkbitCommunicationClient) : Machine := { world := { client := cli } }

/-- The state in which step `n` of a run is made, after the calls of other threads before it. -/
def exec (env : Environment) (schedule : ℕ → List Signal) (cli : HawkbitCommunicationClient) :
    ℕ → Machine :=
  runState (step env) Machine.interrupt schedule (launch cli)

/-- A run goes on with one more step and the signals behind it. -/
theorem exec_succ (env : Environment) (schedule : ℕ → List Signal)
    (cli : HawkbitCommunicationClient) (n : ℕ) :
    exec env schedule cli (n + 1) =
      (step env (exec env schedule cli n)).interrupt (schedule (n + 1)) := rfl

/-- The events of step `n` of a run and of the calls that other threads make after it. -/
def stepEvents (env : Environment) (schedule : ℕ → List Signal)
    (cli : HawkbitCommunicationClient) (n : ℕ) : List Event :=
  (exec env schedule cli (n + 1)).world.trace.drop (exec env schedule cli n).world.trace.length

/-- Other threads change two flags of the client. -/
theorem interrupt_client (signals : List Signal) (m : Machine) :
    (m.interrupt signals).world.client = { m.world.client with
      isRunning := m.world.client.isRunning && decide (.stop ∉ signals)
      pollRequested := m.world.client.pollRequested || decide (.requestToPoll ∈ signals) } := by
  obtain ⟨w, pc, clock⟩ := m
  change (signals.foldl World.signal w).client = _
  induction signals generalizing w with
  | nil => simp
  | cons s rest ih =>
    rw [List.foldl_cons, ih (w.signal s)]
    cases s <;> simp [World.signal, HawkbitCommunicationClient.signal]

/-- Signals leave the point of the program. -/
@[simp] theorem interrupt_pc (signals : List Signal) (m : Machine) :
    (m.interrupt signals).pc = m.pc := rfl

/-- Signals leave the clock. -/
@[simp] theorem interrupt_clock (signals : List Signal) (m : Machine) :
    (m.interrupt signals).clock = m.clock := rfl

/-- A call leaves its final state. -/
theorem call_world (m : Machine) (p : Program Unit) (pc : Pc) :
    (m.call p pc).world = finalState (p m.world) := by
  unfold Machine.call
  cases p m.world <;> rfl

/-- A call goes to the point behind it, or ends the run with a fault. -/
theorem call_pc (m : Machine) (p : Program Unit) (pc : Pc) :
    (m.call p pc).pc = pc ∨ ∃ f, (m.call p pc).pc = .failed f := by
  unfold Machine.call
  cases p m.world with
  | ok _ w => exact Or.inl rfl
  | error f w => exact Or.inr ⟨f, rfl⟩

/-- The events of a step, before those of other threads. -/
theorem stepEvents_eq {env : Environment} {schedule : ℕ → List Signal}
    {cli : HawkbitCommunicationClient} {n : ℕ} {seg : List Event}
    (h : (step env (exec env schedule cli n)).world.trace =
      (exec env schedule cli n).world.trace ++ seg) :
    stepEvents env schedule cli n = seg ++ (schedule (n + 1)).map Event.signal := by
  have htrace : (exec env schedule cli (n + 1)).world.trace =
      (exec env schedule cli n).world.trace ++ (seg ++ (schedule (n + 1)).map Event.signal) := by
    rw [← List.append_assoc, ← h]
    exact foldl_signal_trace _ _
  rw [stepEvents, htrace, List.drop_left]

/-- The places of a machine that has passed the test of the endpoint and what follows it. -/
def Pc.IsStarted : Pc → Prop
  | .checkEndpoint => False
  | .restoreAuth => False
  | _ => True

/-- Only the first step can lead to the restoring of the authorisation. -/
theorem step_isStarted (env : Environment) (m : Machine) (hpc : m.pc ≠ .checkEndpoint) :
    (step env m).pc.IsStarted := by
  have hcall : ∀ p pc, pc.IsStarted → (m.call p pc).pc.IsStarted := by
    intro p pc h
    obtain hok | ⟨f, hfailed⟩ := call_pc m p pc
    · rw [hok]
      exact h
    · rw [hfailed]
      trivial
  unfold step
  cases hm : m.pc with
  | checkEndpoint => exact absurd hm hpc
  | restoreAuth =>
    cases env.authErrorHandler with
    | none => trivial
    | some onAuthError => exact hcall _ _ trivial
  | poll => exact hcall _ _ trivial
  | testRunning => simp only [Machine.goto]; split <;> trivial
  | testSleep => simp only [Machine.goto]; split <;> trivial
  | testTick i => simp only [Machine.goto]; split <;> trivial
  | testStopped i => simp only [Machine.goto]; split <;> trivial
  | testRequested i => simp only [Machine.goto]; split <;> trivial
  | returned => simp only [hm]; trivial
  | failed f => simp only [hm]; trivial
  | _ => trivial

/-- From the second step on a run is past the test of the endpoint and what follows it. -/
theorem exec_isStarted (env : Environment) (schedule : ℕ → List Signal)
    (cli : HawkbitCommunicationClient) (n : ℕ) :
    (exec env schedule cli (n + 2)).pc.IsStarted := by
  have hne : ∀ k, (exec env schedule cli (k + 1)).pc ≠ .checkEndpoint := by
    intro k
    induction k with
    | zero =>
      rw [exec_succ, interrupt_pc]
      change (if _ then Pc.restoreAuth else Pc.setRunning) ≠ _
      split <;> simp
    | succ k ih =>
      intro h
      have hstarted := step_isStarted env _ ih
      rw [exec_succ, interrupt_pc] at h
      rw [h] at hstarted
      exact hstarted
  rw [exec_succ, interrupt_pc]
  exact step_isStarted env _ (hne n)

/-- `run` restores the authorisation in its second step, and only without an endpoint. -/
theorem exec_pc_restoreAuth (env : Environment) (schedule : ℕ → List Signal)
    (cli : HawkbitCommunicationClient) (n : ℕ) :
    (exec env schedule cli n).pc = .restoreAuth ↔ n = 1 ∧ cli.hawkbitURI.isEmpty = true := by
  match n with
  | 0 =>
    have hpc : (exec env schedule cli 0).pc = .checkEndpoint := rfl
    simp [hpc]
  | 1 =>
    have hURI : (exec env schedule cli 0).world.client.hawkbitURI = cli.hawkbitURI := by
      change ((launch cli).interrupt (schedule 0)).world.client.hawkbitURI = _
      rw [interrupt_client]
      rfl
    have hpc : (exec env schedule cli 1).pc =
        if cli.hawkbitURI.isEmpty then .restoreAuth else .setRunning := by
      rw [exec_succ, interrupt_pc, ← hURI]
      rfl
    rw [hpc]
    cases cli.hawkbitURI.isEmpty <;> simp
  | n + 2 =>
    have hstarted := exec_isStarted env schedule cli n
    constructor
    · intro h
      rw [h] at hstarted
      exact hstarted.elim
    · intro h
      omega

end Up2date.Ddi
