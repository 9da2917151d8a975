import Up2date.Ddi.Dialogue
import Up2date.Ddi.StartUp
import Mathlib.Data.Nat.Count

/-!
# The conversation of a run

Servers and handlers are spoken to in polls only, so the conversation of a run is that of its
polls, one behind the other. Every poll that returns is a dialogue; one that ends in an
exception is the last, and what was said in it is guarded like any other. Other threads take no
part in the conversation, whenever they stop the client or ask it to poll. Downloads are left out,
with the calls of `onAuthError` between their attempts, and so is the call at start-up.
-/

namespace Up2date.Ddi

open Cxx Uri Httpclient

section Runs

variable (env : Environment) (schedule : ℕ → List Signal) (cli : HawkbitCommunicationClient)

/-- The protocol's part of step `n`. -/
def saidIn (n : ℕ) : List Event := (stepEvents env schedule cli n).filter Event.isProtocol

/-- Step `n` is a poll. -/
def PollsIn (n : ℕ) : Prop := (exec env schedule cli n).pc = .poll

instance : DecidablePred (PollsIn env schedule cli) := fun n =>
  inferInstanceAs (Decidable ((exec env schedule cli n).pc = .poll))

/-- The conversation of the first `n` steps of a run. -/
structure Converses (n : ℕ) : Prop where
  polls : (exec env schedule cli n).world.conversation =
    ((List.range n).map (saidIn env schedule cli)).flatten
  silent : ∀ k, ¬ PollsIn env schedule cli k → saidIn env schedule cli k = []
  dialogue : ∀ k, PollsIn env schedule cli k →
    (exec env schedule cli (k + 1)).pc = .resetPollRequested → Dialogue env (saidIn env schedule cli k)
  guarded : ∀ k, Guarded env (saidIn env schedule cli k)
  last : ∀ k, PollsIn env schedule cli k →
    (exec env schedule cli (k + 1)).pc ≠ .resetPollRequested → ∀ j, k < j →
      saidIn env schedule cli j = []
  accepted : (exec env schedule cli n).world.conversation.countP Event.isAcceptedFeedback ≤
    Nat.count (PollsIn env schedule cli) n

end Runs

section Steps

variable {env : Environment} {schedule : ℕ → List Signal} {cli : HawkbitCommunicationClient} {n : ℕ}

/-- The trace of a run is made of the events of its steps. -/
theorem exec_trace_succ (n : ℕ) :
    (exec env schedule cli (n + 1)).world.trace =
      (exec env schedule cli n).world.trace ++ stepEvents env schedule cli n := by
  obtain ⟨seg, htrace, -⟩ := step_endpointReplays env (exec env schedule cli n)
  rw [stepEvents_eq htrace, ← List.append_assoc, ← htrace]
  exact foldl_signal_trace _ _

/-- Signals are no part of the conversation. -/
theorem filter_signals (signals : List Signal) :
    (signals.map Event.signal).filter Event.isProtocol = [] := by
  apply conversation_quiet
  intro e he
  obtain ⟨s, _, rfl⟩ := List.mem_map.mp he
  trivial

/-- Other threads take no part in a step's conversation. -/
theorem saidIn_eq {seg : List Event}
    (h : (step env (exec env schedule cli n)).world.conversation =
      (exec env schedule cli n).world.conversation ++ seg) :
    saidIn env schedule cli n = seg := by
  obtain ⟨events, htrace, -⟩ := step_endpointReplays env (exec env schedule cli n)
  have hfilter : (step env (exec env schedule cli n)).world.conversation =
      (exec env schedule cli n).world.conversation ++ events.filter Event.isProtocol := by
    unfold World.conversation
    rw [htrace, List.filter_append]
  rw [saidIn, stepEvents_eq htrace, List.filter_append, filter_signals, List.append_nil]
  exact List.append_cancel_left (hfilter.symm.trans h)

/-- The call at start-up is not part of the conversation. -/
theorem callOnAuthError_conversation (onAuthError : List Event → RestoreCode) (w : World) :
    (finalState (callOnAuthError none onAuthError w)).conversation = w.conversation := by
  obtain ⟨quiet, hquiet, hcall⟩ := callOnAuthError_trace none onAuthError w
  have hquiets := conversation_quiet hquiet
  have hcalled : (Event.onAuthError none :: quiet).filter Event.isProtocol = [] := hquiets
  have hrestored : ∀ cli, [Event.restored none cli].filter Event.isProtocol = [] := fun _ => rfl
  unfold World.conversation
  obtain ⟨f, w', herror, htrace⟩ | ⟨w', hok, htrace⟩ := hcall
  · rw [herror, finalState_error, htrace, List.filter_append, hcalled, List.append_nil]
  · rw [hok, finalState_ok, htrace, List.filter_append, List.filter_append, hcalled, hrestored,
      List.append_nil, List.append_nil]

/-- Nothing is said outside of polls. -/
theorem saidIn_of_not_pollsIn (h : ¬ PollsIn env schedule cli n) : saidIn env schedule cli n = [] := by
  apply saidIn_eq
  rw [List.append_nil]
  by_cases hrestore : (exec env schedule cli n).pc = .restoreAuth
  · unfold step
    rw [hrestore]
    cases env.authErrorHandler with
    | none => rfl
    | some onAuthError =>
      simp only [call_world]
      exact callOnAuthError_conversation onAuthError _
  · exact congrArg (List.filter Event.isProtocol) (step_trace_of_ne env hrestore h)

/-- The step of a poll is a call of `doPoll`. -/
theorem step_of_pollsIn (h : PollsIn env schedule cli n) :
    step env (exec env schedule cli n) =
      (exec env schedule cli n).call (doPoll env) .resetPollRequested := by
  unfold step
  rw [show (exec env schedule cli n).pc = .poll from h]

/-- A poll runs the protocol, to its end if it returns. -/
theorem follows_saidIn (h : PollsIn env schedule cli n) :
    ∃ q, Follows (Phase.Step env) (.ready .poll) (saidIn env schedule cli n) q ∧
      ((exec env schedule cli (n + 1)).pc = .resetPollRequested → q = .finished) := by
  have hstep := step_of_pollsIn h
  obtain ⟨seg, q, hlog, hrun, hfinished⟩ := doPoll_conducts env (exec env schedule cli n).world
  have hsaid : saidIn env schedule cli n = seg := saidIn_eq (by rw [hstep, call_world, hlog])
  rw [hsaid]
  refine ⟨q, hrun, fun hreturned => hfinished ?_⟩
  rw [exec_succ, interrupt_pc, hstep, Machine.call] at hreturned
  cases hpoll : doPoll env (exec env schedule cli n).world with
  | ok _ w => rfl
  | error f w =>
    simp only [hpoll] at hreturned
    cases hreturned

/-- What is said is said in a poll. -/
theorem follows_of_saidIn {pre post : List Event} {e : Event}
    (h : saidIn env schedule cli n = pre ++ e :: post) :
    ∃ q, Follows (Phase.Step env) (.ready .poll) (pre ++ e :: post) q := by
  have hpolls : PollsIn env schedule cli n := by
    by_contra hno
    rw [saidIn_of_not_pollsIn hno] at h
    exact List.append_ne_nil_of_right_ne_nil _ (List.cons_ne_nil _ _) h.symm
  obtain ⟨q, hrun, -⟩ := follows_saidIn hpolls
  exact ⟨q, h ▸ hrun⟩

/-- An event of the conversation is one of a poll. -/
theorem exists_saidIn {n : ℕ} {pre post : List Event} {e : Event} (he : e.isProtocol = true)
    (h : (exec env schedule cli n).world.trace = pre ++ e :: post) :
    ∃ k pre' post', pre = (exec env schedule cli k).world.trace ++ pre' ∧
      saidIn env schedule cli k = pre'.filter Event.isProtocol ++ e :: post' := by
  induction n generalizing pre post with
  | zero =>
    have htrace : (exec env schedule cli 0).world.trace = (schedule 0).map Event.signal :=
      foldl_signal_trace _ _
    have hmem : e ∈ (schedule 0).map Event.signal := by
      rw [← htrace, h]
      exact List.mem_append_right _ List.mem_cons_self
    obtain ⟨s, _, rfl⟩ := List.mem_map.mp hmem
    cases he
  | succ n ih =>
    rw [exec_trace_succ] at h
    rcases List.append_eq_append_iff.mp h with ⟨pre', rfl, hstep⟩ | ⟨mid, hbefore, hmid⟩
    · refine ⟨n, pre', post.filter Event.isProtocol, rfl, ?_⟩
      rw [saidIn, hstep, List.filter_append, List.filter_cons_of_pos he]
    · cases mid with
      | nil =>
        rw [List.append_nil] at hbefore
        have hstep : stepEvents env schedule cli n = e :: post := hmid.symm
        refine ⟨n, [], post.filter Event.isProtocol, ?_, ?_⟩
        · rw [hbefore, List.append_nil]
        · rw [saidIn, hstep, List.filter_cons_of_pos he]
          rfl
      | cons x mid =>
        obtain ⟨rfl, -⟩ := List.cons.inj hmid
        exact ih hbefore

/-- A poll that does not return is the end of the run. -/
theorem not_pollsIn_of_failed {f : Fault Exn} {m : ℕ} (hnm : n ≤ m)
    (h : (exec env schedule cli n).pc = .failed f) : ¬ PollsIn env schedule cli m := by
  have hstays : ∀ t : Machine, t.pc = .failed f → (step env t).pc = .failed f := by
    intro t ht
    unfold step
    rw [ht]
    exact ht
  have hdisturb : ∀ signals (t : Machine), t.pc = .failed f →
      (t.interrupt signals).pc = .failed f := fun _ _ ht => ht
  have hfailed : (exec env schedule cli m).pc = .failed f :=
    runState_persists hdisturb hstays hnm h
  intro hpolls
  cases hpolls.symm.trans hfailed

/-- A poll returns or fails. -/
theorem exists_failed_of_pollsIn (h : PollsIn env schedule cli n)
    (hreturned : (exec env schedule cli (n + 1)).pc ≠ .resetPollRequested) :
    ∃ f, (exec env schedule cli (n + 1)).pc = .failed f := by
  have hstep := step_of_pollsIn h
  rw [exec_succ, interrupt_pc, hstep] at hreturned ⊢
  exact (call_pc _ _ _).resolve_left hreturned

/-- What is said in a step is guarded. -/
theorem guarded_saidIn (n : ℕ) : Guarded env (saidIn env schedule cli n) := by
  by_cases h : PollsIn env schedule cli n
  · obtain ⟨q, hrun, -⟩ := follows_saidIn h
    exact guarded_of_run hrun
  · rw [saidIn_of_not_pollsIn h]
    exact guarded_of_run (.nil _)

/-- The conversation of a run is what is said in its steps. -/
theorem exec_conversation_eq (n : ℕ) :
    (exec env schedule cli n).world.conversation =
      ((List.range n).map (saidIn env schedule cli)).flatten := by
  have hsucc : ∀ k, (exec env schedule cli (k + 1)).world.conversation =
      (exec env schedule cli k).world.conversation ++ saidIn env schedule cli k := by
    intro k
    unfold World.conversation
    rw [exec_trace_succ, List.filter_append]
    rfl
  have hlaunch : (exec env schedule cli 0).world.conversation = [] := by
    have htrace : (exec env schedule cli 0).world.trace = (schedule 0).map Event.signal :=
      foldl_signal_trace _ _
    unfold World.conversation
    rw [htrace, filter_signals]
  have hlog := @log_eq_flatten _ (fun k => (exec env schedule cli k).world.conversation) _ hsucc n
  rw [hlog, hlaunch, List.nil_append]

/-- Every poll has feedback accepted once at most. -/
theorem acceptedFeedback_le_count (n : ℕ) :
    (((List.range n).map (saidIn env schedule cli)).flatten).countP Event.isAcceptedFeedback ≤
      Nat.count (PollsIn env schedule cli) n := by
  induction n with
  | zero => exact Nat.zero_le _
  | succ n ih =>
    rw [List.range_succ, List.map_append, List.flatten_append, List.countP_append, Nat.count_succ]
    apply Nat.add_le_add ih
    rw [List.map_singleton, List.flatten_singleton]
    split
    · exact (guarded_saidIn n).accepted
    · rw [saidIn_of_not_pollsIn ‹_›]
      exact Nat.le_refl 0

end Steps

/-- The conversation of a run is made of the dialogues of its polls, of which only the last can
be broken off; and the server accepts feedback at most as often as it is polled. -/
theorem exec_converses (env : Environment) (schedule : ℕ → List Signal)
    (cli : HawkbitCommunicationClient) (n : ℕ) : Converses env schedule cli n where
  polls := exec_conversation_eq n
  silent _ := saidIn_of_not_pollsIn
  dialogue k hpolls hreturned := by
    obtain ⟨q, hrun, hfinished⟩ := follows_saidIn hpolls
    rw [hfinished hreturned] at hrun
    exact dialogue_of_ends hrun
  guarded := guarded_saidIn
  last k hpolls hreturned j hkj := by
    obtain ⟨f, hfailed⟩ := exists_failed_of_pollsIn hpolls hreturned
    exact saidIn_of_not_pollsIn (not_pollsIn_of_failed hkj hfailed)
  accepted := by
    rw [exec_conversation_eq]
    exact acceptedFeedback_le_count n

end Up2date.Ddi
