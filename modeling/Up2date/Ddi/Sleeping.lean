import Up2date.Ddi.Run

/-!
# The time between two polls

After a poll the client sleeps in ticks of one second, `currentSleepTime / 1000` of them, and
tests its flags before each. A call of `stop` or `requestToPoll` after the reset of the
request flag ends the sleep after at most one more tick. Without such a call the sleep lasts
exactly the ticks, which is a time of at least `currentSleepTime` only when that is a whole
number of seconds.
-/

namespace Up2date.Ddi

open Cxx Uri Httpclient

/-- The loop over the ticks and the test before it. -/
def Pc.IsSleeping : Pc → Prop
  | .testSleep => True
  | .testTick _ => True
  | .testStopped _ => True
  | .testRequested _ => True
  | .sleep _ => True
  | _ => False

/-- A request or a stop is pending. -/
def Machine.Called (m : Machine) : Prop :=
  m.world.client.pollRequested = true ∨ m.world.client.isRunning = false

/-- The time slept since the clock showed `start`, at each place between two polls. -/
def SleptAt (time : ℤ) (ignore : Bool) (start : ℕ) (called : Prop) (running : Bool) (clock : ℕ) :
    Pc → Prop
  | .testSleep => clock = start
  | .testTick i => ignore = false ∧ clock = start + 1000 * i ∧ (i : ℤ) ≤ time.tdiv 1000
  | .testStopped i => ignore = false ∧ clock = start + 1000 * i ∧ (i : ℤ) < time.tdiv 1000
  | .testRequested i => ignore = false ∧ clock = start + 1000 * i ∧ (i : ℤ) < time.tdiv 1000
  | .sleep i => ignore = false ∧ clock = start + 1000 * i ∧ (i : ℤ) < time.tdiv 1000
  | .testRunning => (ignore = true ∧ clock = start) ∨ (ignore = false ∧
      ∃ i : ℕ, clock = start + 1000 * i ∧ (i : ℤ) ≤ time.tdiv 1000 ∧
        ((i : ℤ) = time.tdiv 1000 ∨ called ∨ running = false))
  | .resetIgnoreSleep => (ignore = true ∧ clock = start) ∨ (ignore = false ∧
      ∃ i : ℕ, clock = start + 1000 * i ∧ (i : ℤ) ≤ time.tdiv 1000 ∧
        ((i : ℤ) = time.tdiv 1000 ∨ called))
  | .returned => True
  | _ => False

/-- What holds between two polls. -/
structure Machine.SleepInv (time : ℤ) (ignore : Bool) (start : ℕ) (called : Prop) (m : Machine) :
    Prop where
  sleepTime : m.world.client.currentSleepTime = time
  ignoreSleep : m.world.client.ignoreSleep = ignore
  requested : m.world.client.pollRequested = true → called
  slept : SleptAt time ignore start called m.world.client.isRunning m.clock m.pc

/-- The invariant is kept at another point of the program where its part for the point holds. -/
theorem Machine.SleepInv.goto {time : ℤ} {ignore : Bool} {start : ℕ} {called : Prop} {m : Machine}
    (h : m.SleepInv time ignore start called) {pc : Pc}
    (hslept : SleptAt time ignore start called m.world.client.isRunning m.clock pc) :
    (m.goto pc).SleepInv time ignore start called :=
  ⟨h.sleepTime, h.ignoreSleep, h.requested, hslept⟩

/-- One step towards the next poll. -/
theorem step_sleepInv (env : Environment) {time : ℤ} (htime : 0 < time) {ignore : Bool} {start : ℕ}
    {called : Prop} {m : Machine} (h : m.SleepInv time ignore start called)
    (hpc : m.pc ≠ .resetIgnoreSleep) : (step env m).SleepInv time ignore start called := by
  have hticks : 0 ≤ time.tdiv 1000 := Int.tdiv_nonneg (by omega) (by omega)
  have hslept := h.slept
  have hclient : m.world.client.ticks = time.tdiv 1000 := by
    rw [HawkbitCommunicationClient.ticks, h.sleepTime]
  unfold step
  cases hm : m.pc with
  | resetIgnoreSleep => exact absurd hm hpc
  | testSleep =>
    rw [hm] at hslept
    apply h.goto
    rw [h.ignoreSleep, h.sleepTime]
    cases ignore with
    | true => exact Or.inl ⟨rfl, hslept⟩
    | false => simpa [htime, SleptAt, hticks] using hslept
  | testTick i =>
    rw [hm] at hslept
    obtain ⟨hignore, hclock, hi⟩ := hslept
    apply h.goto
    rw [hclient]
    split
    · exact ⟨hignore, hclock, by assumption⟩
    · exact Or.inr ⟨hignore, i, hclock, hi, Or.inl (by omega)⟩
  | testStopped i =>
    rw [hm] at hslept
    obtain ⟨hignore, hclock, hi⟩ := hslept
    apply h.goto
    split
    · exact ⟨hignore, hclock, hi⟩
    · exact Or.inr ⟨hignore, i, hclock, by omega, Or.inr (Or.inr (by simp_all))⟩
  | testRequested i =>
    rw [hm] at hslept
    obtain ⟨hignore, hclock, hi⟩ := hslept
    apply h.goto
    split
    · exact Or.inr ⟨hignore, i, hclock, by omega, Or.inr (Or.inl (h.requested (by assumption)))⟩
    · exact ⟨hignore, hclock, hi⟩
  | sleep i =>
    rw [hm] at hslept
    obtain ⟨hignore, hclock, hi⟩ := hslept
    refine ⟨h.sleepTime, h.ignoreSleep, h.requested, hignore, ?_, ?_⟩
    · change m.clock + 1000 = _
      omega
    · push_cast
      omega
  | testRunning =>
    rw [hm] at hslept
    apply h.goto
    cases hrunning : m.world.client.isRunning with
    | false => trivial
    | true =>
      rw [hrunning] at hslept
      simpa [SleptAt] using hslept
  | returned =>
    refine ⟨h.sleepTime, h.ignoreSleep, h.requested, ?_⟩
    rw [hm]
    trivial
  | _ =>
    rw [hm] at hslept
    exact hslept.elim

/-- More calls allow more. -/
theorem SleptAt.mono {time : ℤ} {ignore : Bool} {start clock : ℕ} {called called' : Prop}
    {running running' : Bool} {pc : Pc} (h : SleptAt time ignore start called running clock pc)
    (hcalled : called → called') (hrunning : running = false → running' = false) :
    SleptAt time ignore start called' running' clock pc := by
  cases pc with
  | testRunning =>
    obtain hignored | ⟨hignore, i, hclock, hi, hend⟩ := h
    · exact Or.inl hignored
    · exact Or.inr ⟨hignore, i, hclock, hi, hend.imp_right (Or.imp hcalled hrunning)⟩
  | resetIgnoreSleep =>
    obtain hignored | ⟨hignore, i, hclock, hi, hend⟩ := h
    · exact Or.inl hignored
    · exact Or.inr ⟨hignore, i, hclock, hi, hend.imp_right hcalled⟩
  | _ => exact h

/-- Calls of other threads change flags only, and from then on count as calls. -/
theorem interrupt_sleepInv {time : ℤ} {ignore : Bool} {start : ℕ} {called called' : Prop}
    {m : Machine} (h : m.SleepInv time ignore start called) {signals : List Signal}
    (hsignals : signals ≠ [] → called') (hcalled : called → called') :
    (m.interrupt signals).SleepInv time ignore start called' := by
  have hclient := interrupt_client signals m
  refine ⟨?_, ?_, ?_, ?_⟩
  · rw [hclient]
    exact h.sleepTime
  · rw [hclient]
    exact h.ignoreSleep
  · rw [hclient]
    intro hrequested
    by_cases hnil : signals = []
    · subst hnil
      exact hcalled (h.requested (by simpa using hrequested))
    · exact hsignals hnil
  · rw [hclient, interrupt_pc, interrupt_clock]
    apply h.slept.mono hcalled
    intro hrunning
    simp [hrunning]

section Windows

variable (env : Environment) (schedule : ℕ → List Signal) (cli : HawkbitCommunicationClient)

/-- Another thread makes a call after step `n` and before step `m` is over. -/
def CalledBetween (n m : ℕ) : Prop := ∃ k, n < k ∧ k < m ∧ schedule k ≠ []

/-- State `m` begins the first iteration of the loop after state `n`. -/
def NextIteration (n m : ℕ) : Prop :=
  n < m ∧ (exec env schedule cli m).pc = .resetIgnoreSleep ∧
    ∀ k, n < k → k < m → (exec env schedule cli k).pc ≠ .resetIgnoreSleep

variable {env schedule cli}

/-- The invariant holds from the end of a poll until the next iteration begins. -/
theorem exec_sleepInv {n : ℕ} (hpoll : (exec env schedule cli n).pc = .resetPollRequested)
    (htime : 0 < (exec env schedule cli n).world.client.currentSleepTime) {j : ℕ} (hj : n + 1 ≤ j)
    (hnext : ∀ k, n < k → k < j → (exec env schedule cli k).pc ≠ .resetIgnoreSleep) :
    (exec env schedule cli j).SleepInv (exec env schedule cli n).world.client.currentSleepTime
      (exec env schedule cli n).world.client.ignoreSleep (exec env schedule cli n).clock
      (CalledBetween schedule n (j + 1)) := by
  induction hj with
  | refl =>
    have hstep : (step env (exec env schedule cli n)).SleepInv
        (exec env schedule cli n).world.client.currentSleepTime
        (exec env schedule cli n).world.client.ignoreSleep (exec env schedule cli n).clock False := by
      unfold step
      rw [hpoll]
      exact ⟨rfl, rfl, nofun, rfl⟩
    rw [exec_succ]
    apply interrupt_sleepInv hstep
    · intro hsignals
      exact ⟨n + 1, by omega, by omega, hsignals⟩
    · exact False.elim
  | @step j hle ih =>
    have hj : n + 1 ≤ j := hle
    have hinv := ih fun k hk hkj => hnext k hk (by omega)
    rw [exec_succ]
    apply interrupt_sleepInv (step_sleepInv env htime hinv (hnext j (by omega) (by omega)))
    · intro hsignals
      exact ⟨j + 1, by omega, by omega, hsignals⟩
    · intro hcalled
      obtain ⟨k, hk, hkj, hsignals⟩ := hcalled
      exact ⟨k, hk, by omega, hsignals⟩

/-- The whole seconds of a positive time are at least the time exactly when nothing is left. -/
theorem le_ticks_iff {time : ℤ} (htime : 0 < time) :
    time ≤ 1000 * time.tdiv 1000 ↔ 1000 ∣ time := by
  rw [Int.tdiv_eq_ediv_of_nonneg (by omega)]
  omega

/-- The time between two polls: nothing after a poll that asked for it, some of the ticks after
a call, and all of them otherwise. -/
theorem slept_between {n m : ℕ} (hpoll : (exec env schedule cli n).pc = .resetPollRequested)
    (htime : 0 < (exec env schedule cli n).world.client.currentSleepTime)
    (hnext : NextIteration env schedule cli n m) :
    ((exec env schedule cli n).world.client.ignoreSleep = true ∧
        (exec env schedule cli m).clock = (exec env schedule cli n).clock) ∨
      ((exec env schedule cli n).world.client.ignoreSleep = false ∧
        ∃ i : ℕ, (exec env schedule cli m).clock = (exec env schedule cli n).clock + 1000 * i ∧
          (i : ℤ) ≤ (exec env schedule cli n).world.client.ticks ∧
          ((i : ℤ) = (exec env schedule cli n).world.client.ticks ∨ CalledBetween schedule n m)) := by
  obtain ⟨hnm, hm, hbefore⟩ := hnext
  obtain ⟨j, rfl⟩ : ∃ j, m = j + 1 := ⟨m - 1, by omega⟩
  have hfirst : n + 1 ≤ j := by
    by_contra hle
    have heq : j = n := by omega
    have hstep : (exec env schedule cli (j + 1)).pc = .testSleep := by
      rw [exec_succ, interrupt_pc, heq]
      unfold step
      rw [hpoll]
      rfl
    rw [hm] at hstep
    cases hstep
  have hinv := exec_sleepInv hpoll htime hfirst fun k hk hkj => hbefore k hk (by omega)
  have hslept := (step_sleepInv env htime hinv (hbefore j (by omega) (by omega))).slept
  rw [exec_succ, interrupt_pc] at hm
  rw [hm] at hslept
  exact hslept

/-- The milliseconds a called client sleeps at most. -/
def Machine.pending (m : Machine) : ℕ :=
  match m.pc with
  | .testRequested _ => if m.world.client.pollRequested then 0 else 1000
  | .sleep _ => 1000
  | _ => 0

/-- The steps a called client makes at most until it tests whether to poll again. -/
def Machine.wait (m : Machine) : ℕ :=
  match m.pc with
  | .testSleep => 4
  | .testTick _ => 3
  | .testStopped _ => 2
  | .testRequested _ => if m.world.client.pollRequested then 1 else 5
  | .sleep _ => 4
  | _ => 0

/-- A called client sleeps no tick but the one it has begun. -/
theorem step_called (env : Environment) {m : Machine} (hcalled : m.Called)
    (hpc : m.pc.IsSleeping) :
    (step env m).Called ∧ ((step env m).pc.IsSleeping ∨ (step env m).pc = .testRunning) ∧
      (step env m).wait < m.wait ∧
      (step env m).clock + (step env m).pending ≤ m.clock + m.pending := by
  unfold step
  cases hm : m.pc with
  | testSleep =>
    refine ⟨hcalled, ?_, ?_, ?_⟩ <;> simp only [Machine.goto] <;> split <;>
      simp [Machine.wait, Machine.pending, Pc.IsSleeping, hm]
  | testTick i =>
    refine ⟨hcalled, ?_, ?_, ?_⟩ <;> simp only [Machine.goto] <;> split <;>
      simp [Machine.wait, Machine.pending, Pc.IsSleeping, hm]
  | testStopped i =>
    refine ⟨hcalled, ?_⟩
    obtain hrequested | hstopped := hcalled
    · cases hrunning : m.world.client.isRunning <;>
        simp [Machine.goto, Machine.wait, Machine.pending, Pc.IsSleeping, hm, hrequested]
    · simp [Machine.goto, Machine.wait, Machine.pending, Pc.IsSleeping, hm, hstopped]
  | testRequested i =>
    refine ⟨hcalled, ?_⟩
    cases hrequested : m.world.client.pollRequested <;>
      simp [Machine.goto, Machine.wait, Machine.pending, Pc.IsSleeping, hm, hrequested]
  | sleep i =>
    refine ⟨hcalled, ?_⟩
    simp [Machine.wait, Machine.pending, Pc.IsSleeping, hm]
  | _ =>
    rw [hm] at hpc
    exact hpc.elim

/-- Calls of other threads only shorten what is left to do. -/
theorem interrupt_called (signals : List Signal) {m : Machine} (hcalled : m.Called) :
    (m.interrupt signals).Called ∧ (m.interrupt signals).wait ≤ m.wait ∧
      (m.interrupt signals).pending ≤ m.pending := by
  have hclient := interrupt_client signals m
  refine ⟨?_, ?_, ?_⟩
  · unfold Machine.Called
    rw [hclient]
    exact hcalled.imp (fun h => by simp [h]) (fun h => by simp [h])
  · unfold Machine.wait
    rw [hclient, interrupt_pc]
    cases m.pc <;> simp only [le_refl]
    cases m.world.client.pollRequested <;> simp
    split <;> omega
  · unfold Machine.pending
    rw [hclient, interrupt_pc]
    cases m.pc <;> simp only [le_refl]
    cases m.world.client.pollRequested <;> simp
    split <;> omega

/-- A client that is called while it sleeps soon tests whether to poll again. -/
theorem reaches_test {k : ℕ} (hcalled : (exec env schedule cli k).Called)
    (hpc : (exec env schedule cli k).pc.IsSleeping) :
    ∃ j, k ≤ j ∧ (exec env schedule cli j).pc = .testRunning ∧
      (exec env schedule cli j).clock ≤
        (exec env schedule cli k).clock + (exec env schedule cli k).pending ∧
      ∀ l, k ≤ l → l < j → (exec env schedule cli l).pc.IsSleeping := by
  induction hwait : (exec env schedule cli k).wait using Nat.strong_induction_on generalizing k with
  | _ wait ih =>
    obtain ⟨hcalled₁, hpc₁, hwait₁, hclock₁⟩ := step_called env hcalled hpc
    obtain ⟨hcalled₂, hwait₂, hpending₂⟩ := interrupt_called (schedule (k + 1)) hcalled₁
    rw [← exec_succ] at hcalled₂ hwait₂ hpending₂
    have hclock₂ : (exec env schedule cli (k + 1)).clock =
        (step env (exec env schedule cli k)).clock := rfl
    have hpc₂ : (exec env schedule cli (k + 1)).pc = (step env (exec env schedule cli k)).pc := rfl
    obtain hsleeping | htest := hpc₁
    · obtain ⟨j, hkj, hj, hclock, hall⟩ :=
        ih _ (by omega) hcalled₂ (hpc₂ ▸ hsleeping) rfl
      refine ⟨j, by omega, hj, by omega, ?_⟩
      intro l hkl hlj
      obtain rfl | hlt := Nat.eq_or_lt_of_le hkl
      · exact hpc
      · exact hall l hlt hlj
    · refine ⟨k + 1, Nat.le_succ k, hpc₂.trans htest, by omega, ?_⟩
      intro l hkl hlj
      have heq : l = k := by omega
      exact heq ▸ hpc

/-- Every call of another thread is pending in the next state. -/
theorem called_of_schedule {k : ℕ} (h : schedule k ≠ []) : (exec env schedule cli k).Called := by
  obtain ⟨m, hm⟩ : ∃ m : Machine, exec env schedule cli k = m.interrupt (schedule k) := by
    cases k <;> exact ⟨_, rfl⟩
  obtain ⟨s, rest, hs⟩ := List.exists_cons_of_ne_nil h
  unfold Machine.Called
  rw [hm, interrupt_client, hs]
  cases s <;> simp

/-- What is pending of a tick is at most a second. -/
theorem Machine.pending_le (m : Machine) : m.pending ≤ 1000 := by
  unfold Machine.pending
  split
  · split <;> omega
  · exact le_refl _
  · omega

variable (env schedule cli)

/-- The law for the time between the poll that ends in state `n` and the next one: no sleep
after a poll that asked for none, otherwise less than a second more than the sleep time, and
no less without a call; and a call while the client sleeps is seen after at most one tick. -/
def SleepLaw (n : ℕ) : Prop :=
  (∀ m, NextIteration env schedule cli n m →
    let slept : ℤ := (exec env schedule cli m).clock - (exec env schedule cli n).clock
    let client := (exec env schedule cli n).world.client
    (client.ignoreSleep = true → slept = 0) ∧
      (client.ignoreSleep = false → slept < client.currentSleepTime + 1000 ∧
        (¬ CalledBetween schedule n m → client.currentSleepTime ≤ slept))) ∧
  ∀ k, n < k → (∀ l, n < l → l ≤ k → (exec env schedule cli l).pc.IsSleeping) → schedule k ≠ [] →
    ∃ j, k ≤ j ∧ (exec env schedule cli j).pc = .testRunning ∧
      (exec env schedule cli j).clock ≤ (exec env schedule cli k).clock + 1000 ∧
      ∀ l, k ≤ l → l < j → (exec env schedule cli l).pc.IsSleeping

/-- The law holds of the time after a poll exactly when the sleep time is a whole number of
seconds, the poll asked for no sleep, or a call ends the sleep. -/
theorem sleepLaw_iff (n : ℕ) (hpoll : (exec env schedule cli n).pc = .resetPollRequested)
    (htime : 0 < (exec env schedule cli n).world.client.currentSleepTime) :
    SleepLaw env schedule cli n ↔ ∀ m, NextIteration env schedule cli n m →
      (exec env schedule cli n).world.client.ignoreSleep = true ∨ CalledBetween schedule n m ∨
        1000 ∣ (exec env schedule cli n).world.client.currentSleepTime := by
  have hdvd := le_ticks_iff htime
  have hticks : (exec env schedule cli n).world.client.ticks =
      (exec env schedule cli n).world.client.currentSleepTime.tdiv 1000 := rfl
  have hfloor : 1000 * (exec env schedule cli n).world.client.currentSleepTime.tdiv 1000 ≤
      (exec env schedule cli n).world.client.currentSleepTime :=
    Int.mul_tdiv_self_le (by omega)
  refine ⟨fun hlaw m hnext => ?_, fun hcondition => ⟨fun m hnext => ?_, ?_⟩⟩
  · obtain ⟨hignore, _⟩ | ⟨hignore, i, hclock, hi, hend⟩ := slept_between hpoll htime hnext
    · exact Or.inl hignore
    · by_cases hcalled : CalledBetween schedule n m
      · exact Or.inr (Or.inl hcalled)
      · have hleast := ((hlaw.1 m hnext).2 hignore).2 hcalled
        have hall := hend.resolve_right hcalled
        exact Or.inr (Or.inr (hdvd.mp (by omega)))
  · obtain ⟨hignore, hclock⟩ | ⟨hignore, i, hclock, hi, hend⟩ := slept_between hpoll htime hnext
    · refine ⟨fun _ => by omega, fun h => absurd h (by simp [hignore])⟩
    · refine ⟨fun h => absurd h (by simp [hignore]), fun _ => ⟨by omega, fun hcalled => ?_⟩⟩
      have hall := hend.resolve_right hcalled
      obtain h | h | h := hcondition m hnext
      · exact absurd h (by simp [hignore])
      · exact absurd h hcalled
      · have hwhole := hdvd.mpr h
        omega
  · intro k hnk hsleeping hsignals
    obtain ⟨j, hkj, hj, hclock, hall⟩ :=
      reaches_test (called_of_schedule hsignals) (hsleeping k hnk (le_refl _))
    have hpending := (exec env schedule cli k).pending_le
    exact ⟨j, hkj, hj, by omega, hall⟩

end Windows

/-- A client with a default sleep time in milliseconds. -/
def clientSleeping (time : ℤ) : HawkbitCommunicationClient :=
  { hawkbitURI := { scheme := "http".toList, authority := "h".toList, path := "/p".toList },
    defaultSleepTime := time, currentSleepTime := time }

/-- No other thread makes a call. -/
def undisturbed (_ : ℕ) : List Signal := []

/-- With the default of thirty seconds the law holds of the first poll. -/
theorem sleepLaw_thirty_seconds :
    SleepLaw idleEnvironment undisturbed (clientSleeping 30000) 5 := by
  apply (sleepLaw_iff idleEnvironment undisturbed (clientSleeping 30000) 5 rfl (by decide)).mpr
  intro m _
  exact Or.inr (Or.inr (by decide))

/-- With a default of half a second the client polls again at once. -/
theorem not_sleepLaw_half_second :
    ¬ SleepLaw idleEnvironment undisturbed (clientSleeping 500) 5 := by
  intro hlaw
  have hnext : NextIteration idleEnvironment undisturbed (clientSleeping 500) 5 9 := by
    refine ⟨by omega, rfl, fun k hk hk9 => ?_⟩
    obtain rfl | rfl | rfl : k = 6 ∨ k = 7 ∨ k = 8 := by omega
    · nofun
    · nofun
    · nofun
  have hcalled : ¬ CalledBetween undisturbed 5 9 := fun h => h.elim fun _ hk => hk.2.2 rfl
  have hleast := ((hlaw.1 9 hnext).2 rfl).2 hcalled
  revert hleast
  decide

end Up2date.Ddi
