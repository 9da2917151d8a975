import Mathlib.Order.Defs.Unbundled

/-!
# Stateful computations with C++ exceptions

A computation changes a state and either returns or ends early. An exception can be
caught, with every change of state made before it retained; undefined behaviour, a failed
assertion included, cannot be caught. A relation between the states before and after is
carried through a computation by the composition rules below, one for each way of
building it.

Code supplied by a user of the program is an interaction: a tree of calls back into the
program, each followed by a continuation for every way the call can end. Running such a
tree respects a relation as soon as every single call does.
-/

namespace Cxx

/-- What ends a computation before it returns. -/
inductive Fault (ε : Type)
  | thrown (e : ε)
  | undefined
deriving DecidableEq, Repr

/-- A computation over a state that can raise exceptions. -/
abbrev Effect (ε σ α : Type) := EStateM (Fault ε) σ α

variable {ε σ α β : Type}

/-- The state a computation leaves behind, however it ended. -/
def finalState : EStateM.Result (Fault ε) σ α → σ
  | .ok _ s => s
  | .error _ s => s

/-- A computation that returns ends in its last state. -/
@[simp] theorem finalState_ok (a : α) (s : σ) :
    finalState (.ok a s : EStateM.Result (Fault ε) σ α) = s := rfl

/-- So does one that ends early. -/
@[simp] theorem finalState_error (f : Fault ε) (s : σ) :
    finalState (.error f s : EStateM.Result (Fault ε) σ α) = s := rfl

/-- How a computation ended. -/
def ending : EStateM.Result (Fault ε) σ α → Except (Fault ε) α
  | .ok a _ => .ok a
  | .error f _ => .error f

/-- A computation that returns ends with its value. -/
@[simp] theorem ending_ok (a : α) (s : σ) :
    ending (.ok a s : EStateM.Result (Fault ε) σ α) = .ok a := rfl

/-- One that ends early ends with its fault. -/
@[simp] theorem ending_error (f : Fault ε) (s : σ) :
    ending (.error f s : EStateM.Result (Fault ε) σ α) = .error f := rfl

/-- What ends with a value has returned. -/
theorem eq_ok_of_ending {r : EStateM.Result (Fault ε) σ α} {a : α} (h : ending r = .ok a) :
    ∃ s, r = .ok a s := by
  cases r with
  | ok b s => exact ⟨s, by rw [Except.ok.inj h]⟩
  | error f s => cases h

/-- What ends with a fault has ended early. -/
theorem eq_error_of_ending {r : EStateM.Result (Fault ε) σ α} {f : Fault ε}
    (h : ending r = .error f) : ∃ s, r = .error f s := by
  cases r with
  | ok a s => cases h
  | error g s => exact ⟨s, by rw [Except.error.inj h]⟩

namespace Effect

/-- Raise a C++ exception. -/
def raise (e : ε) : Effect ε σ α := throw (.thrown e)

/-- Continue with the value or the exception of a result. -/
def ofExcept : Except ε α → Effect ε σ α
  | .ok a => pure a
  | .error e => raise e

/-- `try`/`catch`: a handler is selected by the exception, and none lets it pass. -/
def catching (m : Effect ε σ α) (select : ε → Option (Effect ε σ α)) : Effect ε σ α := fun s =>
  match m s with
  | .ok a s' => .ok a s'
  | .error (.thrown e) s' =>
    match select e with
    | some handler => handler s'
    | none => .error (.thrown e) s'
  | .error .undefined s' => .error .undefined s'

/-- Change the state once more when a computation ends, however it ends. -/
def noting (m : Effect ε σ α) (note : Except (Fault ε) α → σ → σ) : Effect ε σ α := fun s =>
  match m s with
  | .ok a s' => .ok a (note (.ok a) s')
  | .error f s' => .error f (note (.error f) s')

/-- A value is returned without a change. -/
@[simp] theorem pure_apply (a : α) (s : σ) : (pure a : Effect ε σ α) s = .ok a s := rfl

/-- An exception is thrown without a change. -/
@[simp] theorem raise_apply (e : ε) (s : σ) :
    (raise e : Effect ε σ α) s = .error (.thrown e) s := rfl

/-- A fault is passed on without a change. -/
@[simp] theorem throw_apply (f : Fault ε) (s : σ) :
    (throw f : Effect ε σ α) s = .error f s := rfl

/-- The state is read without a change. -/
@[simp] theorem get_apply (s : σ) : (get : Effect ε σ σ) s = .ok s s := rfl

/-- The state is changed. -/
@[simp] theorem modify_apply (f : σ → σ) (s : σ) :
    (modify f : Effect ε σ PUnit) s = .ok ⟨⟩ (f s) := rfl

/-- After a returning first step, a sequence is its second step. -/
theorem bind_of_ok {m : Effect ε σ α} {k : α → Effect ε σ β} {s s' : σ} {a : α}
    (h : m s = .ok a s') : (m >>= k) s = k a s' := by
  change EStateM.bind m k s = _
  simp only [EStateM.bind, h]

/-- A failing first step ends a sequence. -/
theorem bind_of_error {m : Effect ε σ α} {k : α → Effect ε σ β} {s s' : σ} {f : Fault ε}
    (h : m s = .error f s') : (m >>= k) s = .error f s' := by
  change EStateM.bind m k s = _
  simp only [EStateM.bind, h]

/-- A sequence returns when both steps do. -/
theorem bind_eq_ok {m : Effect ε σ α} {k : α → Effect ε σ β} {s s' : σ} {b : β}
    (h : (m >>= k) s = .ok b s') : ∃ a t, m s = .ok a t ∧ k a t = .ok b s' := by
  cases hm : m s with
  | ok a t => exact ⟨a, t, rfl, (bind_of_ok hm).symm.trans h⟩
  | error f t =>
    rw [bind_of_error hm] at h
    cases h

/-- A returning computation is not affected by a handler around it. -/
theorem catching_of_ok {m : Effect ε σ α} {select : ε → Option (Effect ε σ α)} {s s' : σ} {a : α}
    (h : m s = .ok a s') : catching m select s = .ok a s' := by
  simp only [catching, h]

/-- An exception with a handler continues in the handler, in the state it was raised in. -/
theorem catching_of_handled {m : Effect ε σ α} {select : ε → Option (Effect ε σ α)} {s s' : σ}
    {e : ε} {handler : Effect ε σ α} (h : m s = .error (.thrown e) s')
    (hs : select e = some handler) : catching m select s = handler s' := by
  simp only [catching, h, hs]

/-- An exception without a handler passes. -/
theorem catching_of_unhandled {m : Effect ε σ α} {select : ε → Option (Effect ε σ α)} {s s' : σ}
    {e : ε} (h : m s = .error (.thrown e) s') (hs : select e = none) :
    catching m select s = .error (.thrown e) s' := by
  simp only [catching, h, hs]

/-- Undefined behaviour is not caught. -/
theorem catching_of_undefined {m : Effect ε σ α} {select : ε → Option (Effect ε σ α)} {s s' : σ}
    (h : m s = .error .undefined s') : catching m select s = .error .undefined s' := by
  simp only [catching, h]

/-- A value that is returned is noted. -/
theorem noting_of_ok {m : Effect ε σ α} {note : Except (Fault ε) α → σ → σ} {s s' : σ} {a : α}
    (h : m s = .ok a s') : noting m note s = .ok a (note (.ok a) s') := by
  simp only [noting, h]

/-- A fault is noted. -/
theorem noting_of_error {m : Effect ε σ α} {note : Except (Fault ε) α → σ → σ} {s s' : σ}
    {f : Fault ε} (h : m s = .error f s') : noting m note s = .error f (note (.error f) s') := by
  simp only [noting, h]

/-- The value and the state of a noted computation. -/
theorem noting_spec (m : Effect ε σ α) (note : Except (Fault ε) α → σ → σ) (s : σ) :
    ending (noting m note s) = ending (m s) ∧
      finalState (noting m note s) = note (ending (m s)) (finalState (m s)) := by
  cases h : m s with
  | ok a s' => rw [noting_of_ok h]; exact ⟨rfl, rfl⟩
  | error f s' => rw [noting_of_error h]; exact ⟨rfl, rfl⟩

/-- The value and the state of a sequence that ends in a check of the first value. -/
theorem bind_ofExcept_spec (m : Effect ε σ α) (check : α → Except ε β) (s : σ) :
    ending ((m >>= fun a => ofExcept (check a)) s) =
        (ending (m s) >>= fun a => (check a).mapError .thrown) ∧
      finalState ((m >>= fun a => ofExcept (check a)) s) = finalState (m s) := by
  cases h : m s with
  | ok a s' =>
    rw [bind_of_ok h]
    cases hcheck : check a <;> exact ⟨by simp [bind, Except.bind, hcheck, ofExcept]; rfl, rfl⟩
  | error f s' => rw [bind_of_error h]; exact ⟨rfl, rfl⟩

end Effect

/-- A computation relates every state to the state it leaves behind. -/
def Respects (R : σ → σ → Prop) (m : Effect ε σ α) : Prop := ∀ s, R s (finalState (m s))

namespace Respects

variable {R : σ → σ → Prop}

/-- A value changes nothing. -/
theorem pure [Std.Refl R] (a : α) : Respects R (pure a : Effect ε σ α) := fun s => refl_of R s

/-- A fault changes nothing. -/
theorem throw [Std.Refl R] (f : Fault ε) : Respects R (throw f : Effect ε σ α) :=
  fun s => refl_of R s

/-- Reading the state changes nothing. -/
theorem get [Std.Refl R] : Respects R (get : Effect ε σ σ) := fun s => refl_of R s

/-- A change respects what it was to. -/
theorem modify {f : σ → σ} (h : ∀ s, R s (f s)) : Respects R (modify f : Effect ε σ PUnit) := h

/-- An outcome changes nothing. -/
theorem ofExcept [Std.Refl R] (r : Except ε α) : Respects R (Effect.ofExcept r : Effect ε σ α) := by
  intro s
  cases r <;> exact refl_of R s

/-- A sequence that starts in a state where its first step respects the relation. -/
theorem bind_at [IsTrans σ R] {m : Effect ε σ α} {k : α → Effect ε σ β} {s : σ}
    (hs : R s (finalState (m s))) (hk : ∀ a, Respects R (k a)) : R s (finalState ((m >>= k) s)) := by
  cases h : m s with
  | ok a s' =>
    rw [h] at hs
    rw [Effect.bind_of_ok h]
    exact trans_of R hs (hk a s')
  | error f s' =>
    rw [h] at hs
    rw [Effect.bind_of_error h]
    exact hs

/-- What follows may depend on what its first step returned. -/
theorem bind_returned [IsTrans σ R] {m : Effect ε σ α} {k : α → Effect ε σ β}
    (hm : Respects R m) (hk : ∀ s a s', m s = .ok a s' → Respects R (k a)) : Respects R (m >>= k) := by
  intro s
  have hs := hm s
  cases h : m s with
  | ok a s' =>
    rw [h] at hs
    rw [Effect.bind_of_ok h]
    exact trans_of R hs (hk s a s' h s')
  | error f s' =>
    rw [h] at hs
    rw [Effect.bind_of_error h]
    exact hs

/-- Sequences respect what both steps respect. -/
theorem bind [IsTrans σ R] {m : Effect ε σ α} {k : α → Effect ε σ β}
    (hm : Respects R m) (hk : ∀ a, Respects R (k a)) : Respects R (m >>= k) :=
  fun s => bind_at (hm s) hk

/-- A handler resumes in the state of the exception, so both parts are respected in turn. -/
theorem catching [IsTrans σ R] {m : Effect ε σ α} {select : ε → Option (Effect ε σ α)}
    (hm : Respects R m) (hs : ∀ e handler, select e = some handler → Respects R handler) :
    Respects R (Effect.catching m select) := by
  intro s
  have hr := hm s
  cases h : m s with
  | ok a s' =>
    rw [Effect.catching_of_ok h]
    simpa only [h] using hr
  | error f s' =>
    rw [h] at hr
    cases f with
    | undefined => simpa only [Effect.catching_of_undefined h] using hr
    | thrown e =>
      cases he : select e with
      | none => simpa only [Effect.catching_of_unhandled h he] using hr
      | some handler =>
        rw [Effect.catching_of_handled h he]
        exact trans_of R hr (hs e handler he s')

/-- The change at the end is respected as a step of its own. -/
theorem noting [IsTrans σ R] {m : Effect ε σ α} {note : Except (Fault ε) α → σ → σ}
    (hm : Respects R m) (hnote : ∀ r s, R s (note r s)) : Respects R (Effect.noting m note) := by
  intro s
  have hs := hm s
  cases h : m s with
  | ok a s' =>
    rw [h] at hs
    rw [Effect.noting_of_ok h]
    exact trans_of R hs (hnote (.ok a) s')
  | error f s' =>
    rw [h] at hs
    rw [Effect.noting_of_error h]
    exact trans_of R hs (hnote (.error f) s')

/-- A weaker relation is respected too. -/
theorem mono {S : σ → σ → Prop} {m : Effect ε σ α} (h : ∀ s t, R s t → S s t)
    (hm : Respects R m) : Respects S m := fun s => h _ _ (hm s)

end Respects

/-- Code supplied by a user: calls with a continuation for every way each call can end. -/
inductive Interaction (ε Op Reply α : Type)
  | done (a : α)
  | raise (e : ε)
  | call (op : Op) (k : Except ε Reply → Interaction ε Op Reply α)

namespace Interaction

variable {Op Reply : Type}

/-- Run user code, performing each call and resuming with its value or exception. -/
def run (perform : Op → Effect ε σ Reply) : Interaction ε Op Reply α → Effect ε σ α
  | .done a => pure a
  | .raise e => Effect.raise e
  | .call op k => fun s =>
    match perform op s with
    | .ok r s' => run perform (k (.ok r)) s'
    | .error (.thrown e) s' => run perform (k (.error e)) s'
    | .error .undefined s' => .error .undefined s'

/-- User code respects every relation that each of its calls respects. -/
theorem run_respects {R : σ → σ → Prop} [Std.Refl R] [IsTrans σ R]
    {perform : Op → Effect ε σ Reply} (h : ∀ op, Respects R (perform op))
    (p : Interaction ε Op Reply α) : Respects R (run perform p) := by
  induction p with
  | done a => exact Respects.pure a
  | raise e => exact Respects.throw _
  | call op k ih =>
    intro s
    have hop := h op s
    cases hr : perform op s with
    | ok r s' =>
      rw [hr] at hop
      simpa only [run, hr] using trans_of R hop (ih (.ok r) s')
    | error f s' =>
      rw [hr] at hop
      cases f with
      | undefined => simpa only [run, hr, finalState_error] using hop
      | thrown e => simpa only [run, hr] using trans_of R hop (ih (.error e) s')

end Interaction

end Cxx
