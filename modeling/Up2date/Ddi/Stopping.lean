import Up2date.Ddi.Run

/-!
# Stopping the polling loop

`stop` clears the flag that the loop tests, and nothing in the loop sets it again, so a stop
is obeyed at the next test and the run is over a few steps later. The flag is set once, when
start-up is over: a stop called before that is overwritten, and the client polls on unless
it is stopped again before the first test.
-/

namespace Up2date.Ddi

open Cxx Uri Httpclient

/-- `stop` was called. -/
def World.Stopped (w : World) : Prop := .signal .stop ∈ w.trace

/-- The running flag is cleared by the calls of `stop` and is not changed otherwise. -/
def RunningUntilStopped (w w' : World) : Prop :=
  ∃ seg, w'.trace = w.trace ++ seg ∧
    (w'.client.isRunning = true ↔ w.client.isRunning = true ∧ .signal .stop ∉ seg)

instance : Std.Refl RunningUntilStopped := ⟨fun w => ⟨[], by simp⟩⟩

instance : IsTrans World RunningUntilStopped where
  trans := by
    intro u v w ⟨first, hfirst, hv⟩ ⟨second, hsecond, hw⟩
    refine ⟨first ++ second, by rw [hsecond, hfirst, List.append_assoc], ?_⟩
    rw [hw, hv, List.mem_append, not_or, and_assoc]

/-- Requests leave the running flag to the calls of `stop`. -/
theorem runningUntilStopped_rules : RequestRules RunningUntilStopped where
  log e w he := by
    have hne : Event.signal .stop ≠ e := (he .stop).symm
    exact ⟨[e], rfl, by simp [World.log, hne]⟩
  signal s w := by
    refine ⟨[.signal s], rfl, ?_⟩
    cases s <;> simp [World.signal, HawkbitCommunicationClient.signal, World.log]
  setting s w cli h := by
    obtain ⟨uri, headers, keypair, rfl⟩ := HawkbitCommunicationClient.perform_frame h
    exact ⟨[], by simp, by simp⟩
  data w received file files := ⟨[], by simp, by simp⟩

/-- A poll never sets the running flag and obeys every stop. -/
theorem doPoll_runningUntilStopped (env : Environment) :
    Respects RunningUntilStopped (doPoll env) := by
  apply PollRules.doPoll
  apply runningUntilStopped_rules.pollRules
  · intro w b
    exact ⟨[], by simp, by simp⟩
  · intro w t
    exact ⟨[], by simp, by simp [setSleepTime]⟩

/-- A step of the program leaves the running flag to the calls of `stop`. -/
theorem call_runningUntilStopped {p : Program Unit} (h : Respects RunningUntilStopped p)
    (m : Machine) (pc : Pc) : RunningUntilStopped m.world (m.call p pc).world := by
  have hw := h m.world
  unfold Machine.call
  cases hp : p m.world with
  | ok _ w =>
    rw [hp] at hw
    exact hw
  | error f w =>
    rw [hp] at hw
    exact hw

/-- Only the end of start-up sets the running flag. -/
theorem step_runningUntilStopped (env : Environment) (m : Machine) (h : m.pc ≠ .setRunning) :
    RunningUntilStopped m.world (step env m).world := by
  have hsame : ∀ w : World, w.trace = m.world.trace →
      w.client.isRunning = m.world.client.isRunning → RunningUntilStopped m.world w := by
    intro w htrace hrunning
    exact ⟨[], by simp [htrace], by simp [hrunning]⟩
  unfold step
  cases hpc : m.pc with
  | setRunning => exact absurd hpc h
  | restoreAuth =>
    cases env.authErrorHandler with
    | none => exact hsame _ rfl rfl
    | some onAuthError =>
      have hrules := runningUntilStopped_rules.restoreRules.handlerRules
      exact call_runningUntilStopped (hrules.callOnAuthError none onAuthError) m _
  | poll => exact call_runningUntilStopped (doPoll_runningUntilStopped env) m _
  | checkEndpoint => exact hsame _ rfl rfl
  | testRunning => exact hsame _ rfl rfl
  | resetIgnoreSleep => exact hsame _ rfl rfl
  | resetPollRequested => exact hsame _ rfl rfl
  | testSleep => exact hsame _ rfl rfl
  | testTick i => exact hsame _ rfl rfl
  | testStopped i => exact hsame _ rfl rfl
  | testRequested i => exact hsame _ rfl rfl
  | sleep i => exact hsame _ rfl rfl
  | returned => exact hsame _ rfl rfl
  | failed f => exact hsame _ rfl rfl

/-- Signals between the steps clear the running flag when they are calls of `stop`. -/
theorem interrupt_runningUntilStopped (signals : List Signal) (m : Machine) :
    RunningUntilStopped m.world (m.interrupt signals).world :=
  runningUntilStopped_rules.attemptRules.foldl_signal signals m.world

/-- The relation keeps a stop, and a stop that is obeyed stays obeyed. -/
theorem RunningUntilStopped.stopped {w w' : World} (h : RunningUntilStopped w w')
    (hinv : w.Stopped → w.client.isRunning = false) : w'.Stopped → w'.client.isRunning = false := by
  obtain ⟨seg, htrace, hrunning⟩ := h
  intro hstopped
  unfold World.Stopped at hstopped
  rw [htrace, List.mem_append] at hstopped
  rw [← Bool.not_eq_true, hrunning]
  intro ⟨hw, hseg⟩
  obtain hbefore | hafter := hstopped
  · rw [hinv hbefore] at hw
    cases hw
  · exact hseg hafter

/-- A client that was stopped stays stopped. -/
theorem RunningUntilStopped.keeps {w w' : World} (h : RunningUntilStopped w w')
    (hstopped : w.Stopped) : w'.Stopped := by
  obtain ⟨seg, htrace, _⟩ := h
  unfold World.Stopped
  rw [htrace]
  exact List.mem_append_left _ hstopped

/-- Stops called before the running flag is set are followed by one before its first test. -/
def StoppedAgain (env : Environment) (schedule : ℕ → List Signal)
    (cli : HawkbitCommunicationClient) : Prop :=
  ∀ n, (exec env schedule cli n).pc = .setRunning → (exec env schedule cli n).world.Stopped →
    .stop ∈ schedule (n + 1)

/-- Another thread clears the running flag exactly by calling `stop`. -/
theorem interrupt_isRunning_iff (signals : List Signal) (m : Machine) :
    (m.interrupt signals).world.client.isRunning = true ↔
      m.world.client.isRunning = true ∧ .stop ∉ signals := by
  rw [interrupt_client, Bool.and_eq_true, decide_eq_true_eq]

/-- Under the condition no stop is overwritten. -/
theorem exec_not_running (env : Environment) (schedule : ℕ → List Signal)
    (cli : HawkbitCommunicationClient) (h : StoppedAgain env schedule cli) (n : ℕ) :
    (exec env schedule cli n).world.Stopped →
      (exec env schedule cli n).world.client.isRunning = false := by
  induction n with
  | zero =>
    exact (interrupt_runningUntilStopped (schedule 0) (launch cli)).stopped nofun
  | succ n ih =>
    rw [exec_succ]
    by_cases hpc : (exec env schedule cli n).pc = .setRunning
    · by_cases hstopped : (exec env schedule cli n).world.Stopped
      · intro _
        rw [← Bool.not_eq_true, interrupt_isRunning_iff]
        exact fun hboth => hboth.2 (h n hpc hstopped)
      · apply (interrupt_runningUntilStopped _ _).stopped
        have hstep : (step env (exec env schedule cli n)).world.trace =
            (exec env schedule cli n).world.trace := by
          unfold step
          simp only [hpc]
          rfl
        intro hstep'
        unfold World.Stopped at hstep'
        rw [hstep] at hstep'
        exact absurd hstep' hstopped
    · apply RunningUntilStopped.stopped _ ih
      exact trans_of RunningUntilStopped (step_runningUntilStopped env _ hpc)
        (interrupt_runningUntilStopped _ _)

/-- A run that was stopped stays stopped. -/
theorem exec_stopped (env : Environment) (schedule : ℕ → List Signal)
    (cli : HawkbitCommunicationClient) {n m : ℕ} (hnm : n ≤ m)
    (h : (exec env schedule cli n).world.Stopped) : (exec env schedule cli m).world.Stopped := by
  have hstep : ∀ t : Machine, t.world.Stopped → (step env t).world.Stopped := by
    intro t ht
    by_cases hpc : t.pc = .setRunning
    · unfold step
      simp only [hpc]
      exact ht
    · exact (step_runningUntilStopped env t hpc).keeps ht
  exact runState_persists (fun signals t => (interrupt_runningUntilStopped signals t).keeps) hstep
    hnm h

/-- The number of steps a stopped client needs at most to leave `run`. -/
def Pc.rank : Pc → ℕ
  | .checkEndpoint => 4
  | .restoreAuth => 3
  | .setRunning => 2
  | .resetIgnoreSleep => 7
  | .poll => 6
  | .resetPollRequested => 5
  | .testSleep => 4
  | .testRequested _ => 5
  | .sleep _ => 4
  | .testTick _ => 3
  | .testStopped _ => 2
  | .testRunning => 1
  | .returned => 0
  | .failed _ => 0

/-- `run` is over. -/
def Pc.IsFinal (pc : Pc) : Prop := pc = .returned ∨ ∃ f, pc = .failed f

/-- No step is needed exactly when the run is over. -/
theorem Pc.rank_eq_zero_iff (pc : Pc) : pc.rank = 0 ↔ pc.IsFinal := by
  cases pc <;> simp [Pc.rank, Pc.IsFinal]

/-- Seven steps suffice. -/
theorem Pc.rank_le (pc : Pc) : pc.rank ≤ 7 := by
  cases pc <;> simp [Pc.rank]

/-- Only the beginning of an iteration is further from the end than a poll. -/
theorem Pc.of_rank_ge {pc : Pc} (h : Pc.poll.rank ≤ pc.rank) :
    pc = .poll ∨ pc = .resetIgnoreSleep := by
  cases pc <;> simp_all [Pc.rank]

/-- A call does not lead away from the end. -/
theorem call_rank (m : Machine) (p : Program Unit) (pc : Pc) : (m.call p pc).pc.rank ≤ pc.rank := by
  unfold Machine.call
  cases p m.world <;> simp [Pc.rank]

/-- Every step of a client that is not running leads towards the end. -/
theorem step_rank (env : Environment) (m : Machine) (h : m.world.client.isRunning = false) :
    (step env m).pc.rank ≤ m.pc.rank - 1 := by
  unfold step
  cases hpc : m.pc with
  | checkEndpoint => simp only [Machine.goto]; split <;> simp [Pc.rank]
  | restoreAuth =>
    cases env.authErrorHandler with
    | none => simp [Machine.goto, Pc.rank]
    | some onAuthError => exact call_rank m _ .setRunning
  | setRunning => simp [Machine.update, Pc.rank]
  | testRunning => simp [Machine.goto, Pc.rank, h]
  | resetIgnoreSleep => simp [Machine.update, Pc.rank]
  | poll => exact call_rank m _ .resetPollRequested
  | resetPollRequested => simp [Machine.update, Pc.rank]
  | testSleep => simp only [Machine.goto]; split <;> simp [Pc.rank]
  | testTick i => simp only [Machine.goto]; split <;> simp [Pc.rank]
  | testStopped i => simp [Machine.goto, Pc.rank, h]
  | testRequested i => simp only [Machine.goto]; split <;> simp [Pc.rank]
  | sleep i => simp [Pc.rank]
  | returned => simp [hpc, Pc.rank]
  | failed f => simp [hpc, Pc.rank]

/-- A stop called in a run is obeyed: no test of the flag starts an iteration after it, only a
poll of the iteration under way is completed, and the run is over. -/
def StopObeyed (env : Environment) (schedule : ℕ → List Signal)
    (cli : HawkbitCommunicationClient) : Prop :=
  ∀ n, (exec env schedule cli n).world.Stopped →
    (∀ m ≥ n, (exec env schedule cli m).pc = .testRunning →
      (exec env schedule cli (m + 1)).pc = .returned) ∧
    (∀ m ≥ n, (exec env schedule cli m).pc = .poll →
      (exec env schedule cli n).pc = .poll ∨ (exec env schedule cli n).pc = .resetIgnoreSleep) ∧
    ∀ m ≥ n + 7, (exec env schedule cli m).pc.IsFinal

/-- A stop that is overwritten is not obeyed. -/
theorem stoppedAgain_of_stopObeyed {env : Environment} {schedule : ℕ → List Signal}
    {cli : HawkbitCommunicationClient} (h : StopObeyed env schedule cli) :
    StoppedAgain env schedule cli := by
  intro n hpc hstopped
  by_contra hagain
  have hnext : step env (exec env schedule cli n) = (exec env schedule cli n).update
      (fun cli => { cli with isRunning := true }) .testRunning := by
    unfold step
    simp only [hpc]
  have htest : (exec env schedule cli (n + 1)).pc = .testRunning := by
    rw [exec_succ, hnext]
    rfl
  have hrunning : (exec env schedule cli (n + 1)).world.client.isRunning = true := by
    rw [exec_succ, hnext, interrupt_isRunning_iff]
    exact ⟨rfl, hagain⟩
  have hiterate : (exec env schedule cli (n + 2)).pc = .resetIgnoreSleep := by
    rw [exec_succ, interrupt_pc]
    unfold step
    simp only [htest, hrunning]
    rfl
  obtain ⟨hreturned, _⟩ := h (n + 1) (exec_stopped env schedule cli (Nat.le_succ n) hstopped)
  have hreturn := hreturned (n + 1) (le_refl _) htest
  rw [hiterate] at hreturn
  cases hreturn

/-- Stops are obeyed exactly when each stop called before the running flag is set is followed
by another one before the first test of the flag. -/
theorem stopObeyed_iff (env : Environment) (schedule : ℕ → List Signal)
    (cli : HawkbitCommunicationClient) :
    StopObeyed env schedule cli ↔ StoppedAgain env schedule cli := by
  refine ⟨stoppedAgain_of_stopObeyed, fun h n hstopped => ?_⟩
  have hrunning : ∀ m, n ≤ m → (exec env schedule cli m).world.client.isRunning = false := by
    intro m hm
    exact exec_not_running env schedule cli h m (exec_stopped env schedule cli hm hstopped)
  have hrank : ∀ m, n ≤ m → (exec env schedule cli (m + 1)).pc.rank ≤
      (exec env schedule cli m).pc.rank - 1 := by
    intro m hm
    exact step_rank env _ (hrunning m hm)
  have hbound : ∀ m, n ≤ m → (exec env schedule cli m).pc.rank ≤
      (exec env schedule cli n).pc.rank - (m - n) := by
    intro m hm
    exact rank_le_sub (fun k => (exec env schedule cli k).pc.rank) hrank hm
  refine ⟨?_, ?_, ?_⟩
  · intro m hm hpc
    rw [exec_succ, interrupt_pc]
    unfold step
    simp only [hpc, hrunning m hm]
    rfl
  · intro m hm hpc
    have hpoll := le_trans (hbound m hm) (Nat.sub_le _ _)
    rw [hpc] at hpoll
    exact Pc.of_rank_ge hpoll
  · intro m hm
    have hseven := (exec env schedule cli n).pc.rank_le
    have hlast := hbound m (by omega)
    exact (Pc.rank_eq_zero_iff _).mp (by omega)

/-- Another thread calls `stop` once, as soon as `run` was entered. -/
def stopAtOnce : ℕ → List Signal
  | 0 => [.stop]
  | _ => []

/-- A stop called by another thread while `run` starts up is lost. -/
theorem stopAtOnce_not_obeyed : ¬ StopObeyed idleEnvironment stopAtOnce endpointClient := by
  intro h
  have hstopped : (exec idleEnvironment stopAtOnce endpointClient 1).world.Stopped :=
    List.mem_singleton_self _
  have hagain := stoppedAgain_of_stopObeyed h 1 rfl hstopped
  simp [stopAtOnce] at hagain

end Up2date.Ddi
