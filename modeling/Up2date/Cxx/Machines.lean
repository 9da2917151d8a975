import Up2date.Cxx.Effects

/-!
# Computations that follow an abstract machine

An abstract machine says which letter may come next. A computation simulates it from one
state of the machine when all it appends to a log is a run of the machine from there; a
postcondition relates how the computation ended to where the machine is then. The rules
below take such judgements through the ways of building a computation. What an invariant of
the machine says about the letters read so far then holds of every log.
-/

namespace Cxx

variable {φ τ ε σ α β : Type}

/-- The machine reads a word from one state to another. -/
inductive Follows (step : φ → τ → φ → Prop) : φ → List τ → φ → Prop
  | nil (p : φ) : Follows step p [] p
  | cons {p q r : φ} {e : τ} {seg : List τ} : step p e q → Follows step q seg r →
      Follows step p (e :: seg) r

namespace Follows

variable {step : φ → τ → φ → Prop} {p q r : φ} {e : τ} {seg seg' : List τ}

/-- A step is a run. -/
theorem single (h : step p e q) : Follows step p [e] q := .cons h (.nil q)

/-- Runs can be put together. -/
theorem append (h : Follows step p seg q) (h' : Follows step q seg' r) :
    Follows step p (seg ++ seg') r := by
  induction h with
  | nil => exact h'
  | cons hstep _ ih => exact .cons hstep (ih h')

/-- A run passes through a state before each of its letters. -/
theorem split {pre post : List τ} (h : Follows step p (pre ++ e :: post) r) :
    ∃ q q', Follows step p pre q ∧ step q e q' ∧ Follows step q' post r := by
  induction pre generalizing p with
  | nil =>
    cases h with
    | cons hstep hrest => exact ⟨p, _, .nil p, hstep, hrest⟩
  | cons x pre ih =>
    cases h with
    | cons hstep hrest =>
      obtain ⟨q, q', hpre, hq, hpost⟩ := ih hrest
      exact ⟨q, q', .cons hstep hpre, hq, hpost⟩

/-- What holds at the start and is preserved by every step holds of the word read so far. -/
theorem invariant {Inv : List τ → φ → Prop} (h0 : Inv [] p)
    (hstep : ∀ pre q e q', Inv pre q → step q e q' → Inv (pre ++ [e]) q')
    (h : Follows step p seg q) : Inv seg q := by
  have hfrom : ∀ pre, Inv pre p → Inv (pre ++ seg) q := by
    clear h0
    induction h with
    | nil => exact fun pre hpre => by rwa [List.append_nil]
    | @cons p q r e seg hpq _ ih =>
      intro pre hpre
      rw [List.append_cons]
      exact ih (pre ++ [e]) (hstep pre p e q hpre hpq)
  exact hfrom [] h0

end Follows

/-- The computation appends a run of the machine and ends as the postcondition says. -/
def Simulates (log : σ → List τ) (step : φ → τ → φ → Prop) (p : φ) (m : Effect ε σ α)
    (Q : Except (Fault ε) α → φ → Prop) : Prop :=
  ∀ s, ∃ seg q, log (finalState (m s)) = log s ++ seg ∧ Follows step p seg q ∧ Q (ending (m s)) q

namespace Simulates

variable {log : σ → List τ} {step : φ → τ → φ → Prop} {p : φ}
  {m : Effect ε σ α} {Q : Except (Fault ε) α → φ → Prop} {R : Except (Fault ε) β → φ → Prop}

/-- A computation that does not change the log. -/
theorem unlogged (hlog : ∀ s, log (finalState (m s)) = log s) (hQ : ∀ s, Q (ending (m s)) p) :
    Simulates log step p m Q :=
  fun s => ⟨[], p, by rw [hlog, List.append_nil], .nil p, hQ s⟩

/-- A value is returned where the machine is. -/
theorem pure {a : α} (h : Q (.ok a) p) : Simulates log step p (pure a) Q :=
  unlogged (fun _ => rfl) fun _ => h

/-- A fault is thrown where the machine is. -/
theorem throw {f : Fault ε} (h : Q (.error f) p) : Simulates log step p (throw f) Q :=
  unlogged (fun _ => rfl) fun _ => h

/-- The second step of a sequence starts where the first one has taken the machine. -/
theorem bind {k : α → Effect ε σ β} (hm : Simulates log step p m Q)
    (hk : ∀ a q, Q (.ok a) q → Simulates log step q (k a) R)
    (hfail : ∀ f q, Q (.error f) q → R (.error f) q) : Simulates log step p (m >>= k) R := by
  intro s
  obtain ⟨seg, q, hlog, hrun, hQ⟩ := hm s
  cases h : m s with
  | ok a s' =>
    rw [h] at hlog hQ
    rw [Effect.bind_of_ok h]
    obtain ⟨seg', r, hlog', hrun', hR⟩ := hk a q hQ s'
    refine ⟨seg ++ seg', r, ?_, hrun.append hrun', hR⟩
    rw [hlog', show log s' = _ from hlog, List.append_assoc]
  | error f s' =>
    rw [h] at hlog hQ
    rw [Effect.bind_of_error h]
    exact ⟨seg, q, hlog, hrun, hfail f q hQ⟩

/-- Reading the state leaves the machine where it is. -/
theorem get_bind {k : σ → Effect ε σ β} (hk : ∀ s, Simulates log step p (k s) R) :
    Simulates log step p (get >>= k) R := fun s => hk s s

/-- A change of the state that is logged takes the machine one step further. -/
theorem emit_bind {f : σ → σ} {k : PUnit → Effect ε σ β} {e : τ} {q : φ}
    (hlog : ∀ s, log (f s) = log s ++ [e]) (hstep : step p e q)
    (hk : Simulates log step q (k ⟨⟩) R) : Simulates log step p (modify f >>= k) R := by
  intro s
  obtain ⟨seg, r, hs, hrun, hR⟩ := hk (f s)
  rw [hlog, List.append_assoc] at hs
  exact ⟨e :: seg, r, hs, .cons hstep hrun, hR⟩

/-- A handler starts where the exception has left the machine. -/
theorem catching {select : ε → Option (Effect ε σ α)} {R : Except (Fault ε) α → φ → Prop}
    (hm : Simulates log step p m Q) (hok : ∀ a q, Q (.ok a) q → R (.ok a) q)
    (hcaught : ∀ e q handler, Q (.error (.thrown e)) q → select e = some handler →
      Simulates log step q handler R)
    (hpassed : ∀ f q, Q (.error f) q → R (.error f) q) :
    Simulates log step p (Effect.catching m select) R := by
  intro s
  obtain ⟨seg, q, hlog, hrun, hQ⟩ := hm s
  cases h : m s with
  | ok a s' =>
    rw [h] at hlog hQ
    rw [Effect.catching_of_ok h]
    exact ⟨seg, q, hlog, hrun, hok a q hQ⟩
  | error f s' =>
    rw [h] at hlog hQ
    cases f with
    | undefined =>
      rw [Effect.catching_of_undefined h]
      exact ⟨seg, q, hlog, hrun, hpassed _ q hQ⟩
    | thrown e =>
      cases hselect : select e with
      | none =>
        rw [Effect.catching_of_unhandled h hselect]
        exact ⟨seg, q, hlog, hrun, hpassed _ q hQ⟩
      | some handler =>
        rw [Effect.catching_of_handled h hselect]
        obtain ⟨seg', r, hlog', hrun', hR⟩ := hcaught e q handler hQ hselect s'
        refine ⟨seg ++ seg', r, ?_, hrun.append hrun', hR⟩
        rw [hlog', show log s' = _ from hlog, List.append_assoc]

/-- A weaker postcondition holds too. -/
theorem mono {Q' : Except (Fault ε) α → φ → Prop} (hm : Simulates log step p m Q)
    (h : ∀ r q, Q r q → Q' r q) : Simulates log step p m Q' := by
  intro s
  obtain ⟨seg, q, hlog, hrun, hQ⟩ := hm s
  exact ⟨seg, q, hlog, hrun, h _ q hQ⟩

end Simulates

end Cxx
