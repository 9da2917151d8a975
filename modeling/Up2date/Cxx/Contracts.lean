import Up2date.Cxx.Effects

/-!
# Contracts of computations

A contract says of a computation what holds of its value and its final state when it returns,
and what holds of the fault and the state when it ends early, each on a condition of the first
state. Contracts compose along sequences and handlers, so that the contract of a program
follows from those of its primitive steps.
-/

namespace Cxx

variable {ε σ α β : Type}

/-- From the states of `P` a computation returns with `Q`, or ends early with `E`. -/
def Contract (P : σ → Prop) (m : Effect ε σ α) (Q : α → σ → Prop) (E : Fault ε → σ → Prop) : Prop :=
  ∀ s, P s → (∀ a t, m s = .ok a t → Q a t) ∧ ∀ f t, m s = .error f t → E f t

namespace Contract

variable {P P' : σ → Prop} {Q : α → σ → Prop} {R : β → σ → Prop} {E E' : Fault ε → σ → Prop}
  {m : Effect ε σ α}

/-- What holds of a computation that returns. -/
theorem of_eq_ok {s s' : σ} {a : α} (h : m s = .ok a s') (hQ : Q a s') :
    (∀ a t, m s = .ok a t → Q a t) ∧ ∀ f t, m s = .error f t → E f t := by
  rw [h]
  refine ⟨fun b t heq => ?_, fun f t heq => ?_⟩
  · obtain ⟨rfl, rfl⟩ := EStateM.Result.ok.inj heq
    exact hQ
  · cases heq

/-- What holds of a computation that ends early. -/
theorem of_eq_error {s s' : σ} {f : Fault ε} (h : m s = .error f s') (hE : E f s') :
    (∀ a t, m s = .ok a t → Q a t) ∧ ∀ f t, m s = .error f t → E f t := by
  rw [h]
  refine ⟨fun b t heq => ?_, fun g t heq => ?_⟩
  · cases heq
  · obtain ⟨rfl, rfl⟩ := EStateM.Result.error.inj heq
    exact hE

/-- Returning a value fulfils a contract that allows it from every state. -/
theorem pure {a : α} (h : ∀ s, P s → Q a s) : Contract P (pure a : Effect ε σ α) Q E :=
  fun s hs => of_eq_ok rfl (h s hs)

/-- So does ending early with a fault that is allowed. -/
theorem throw {f : Fault ε} (h : ∀ s, P s → E f s) : Contract P (throw f : Effect ε σ α) Q E :=
  fun s hs => of_eq_error rfl (h s hs)

/-- So does changing the state into one that is allowed. -/
theorem modify {f : σ → σ} {Q : PUnit → σ → Prop} (h : ∀ s, P s → Q ⟨⟩ (f s)) :
    Contract P (modify f : Effect ε σ PUnit) Q E :=
  fun s hs => of_eq_ok rfl (h s hs)

/-- Reading the state makes it known to what follows. -/
theorem get_bind {k : σ → Effect ε σ β} (h : ∀ s, P s → Contract (fun t => t = s) (k s) R E) :
    Contract P (get >>= k) R E := by
  intro s hs
  rw [Effect.bind_of_ok (Effect.get_apply s)]
  exact h s hs s rfl

/-- A contract holds from more states with less to ask of the end. -/
theorem mono {P' : σ → Prop} {Q' : α → σ → Prop} (h : Contract P m Q E) (hP : ∀ s, P' s → P s)
    (hQ : ∀ a s, Q a s → Q' a s) (hE : ∀ f s, E f s → E' f s) : Contract P' m Q' E' := by
  intro s hs
  obtain ⟨hok, herror⟩ := h s (hP s hs)
  exact ⟨fun a t heq => hQ a t (hok a t heq), fun f t heq => hE f t (herror f t heq)⟩

/-- A contract holds under a stronger condition. -/
theorem pre (h : Contract P m Q E) (hP : ∀ s, P' s → P s) : Contract P' m Q E :=
  h.mono hP (fun _ _ hQ => hQ) fun _ _ hE => hE

/-- The second step of a sequence starts where the first returns. -/
theorem bind {k : α → Effect ε σ β} (hm : Contract P m Q E) (hk : ∀ a, Contract (Q a) (k a) R E) :
    Contract P (m >>= k) R E := by
  intro s hs
  obtain ⟨hok, herror⟩ := hm s hs
  cases h : m s with
  | ok a t =>
    rw [Effect.bind_of_ok h]
    exact hk a t (hok a t h)
  | error f t =>
    exact of_eq_error (Effect.bind_of_error h) (herror f t h)

/-- What is known without the state can be assumed. -/
theorem assuming {p : Prop} (h : p → Contract P m Q E) : Contract (fun s => p ∧ P s) m Q E :=
  fun s hs => h hs.1 s hs.2

/-- A handler starts where the exception was raised; other faults pass. -/
theorem catching {select : ε → Option (Effect ε σ α)} (hm : Contract P m Q E)
    (hhandled : ∀ e handler, select e = some handler → Contract (E (.thrown e)) handler Q E')
    (hpassed : ∀ e s, select e = none → E (.thrown e) s → E' (.thrown e) s)
    (hundefined : ∀ s, E .undefined s → E' .undefined s) :
    Contract P (Effect.catching m select) Q E' := by
  intro s hs
  obtain ⟨hok, herror⟩ := hm s hs
  cases h : m s with
  | ok a t => exact of_eq_ok (Effect.catching_of_ok h) (hok a t h)
  | error f t =>
    have hE := herror f t h
    cases f with
    | undefined => exact of_eq_error (Effect.catching_of_undefined h) (hundefined t hE)
    | thrown e =>
      cases he : select e with
      | none => exact of_eq_error (Effect.catching_of_unhandled h he) (hpassed e t he hE)
      | some handler =>
        have hrest := hhandled e handler he t hE
        rw [← Effect.catching_of_handled h he] at hrest
        exact hrest

/-- Two contracts of one computation hold together. -/
theorem and {P' : σ → Prop} {Q' : α → σ → Prop} (h : Contract P m Q E) (h' : Contract P' m Q' E') :
    Contract (fun s => P s ∧ P' s) m (fun a s => Q a s ∧ Q' a s) fun f s => E f s ∧ E' f s := by
  intro s hs
  obtain ⟨hok, herror⟩ := h s hs.1
  obtain ⟨hok', herror'⟩ := h' s hs.2
  exact ⟨fun a t heq => ⟨hok a t heq, hok' a t heq⟩, fun f t heq => ⟨herror f t heq, herror' f t heq⟩⟩

end Contract

/-- Whatever a computation returns has a property. -/
def Yields (m : Effect ε σ α) (V : α → Prop) : Prop :=
  Contract (fun _ => True) m (fun a _ => V a) fun _ _ => True

namespace Yields

variable {m : Effect ε σ α} {V : α → Prop} {W : β → Prop}

/-- Every computation yields something. -/
theorem any (m : Effect ε σ α) : Yields m fun _ => True :=
  fun _ _ => ⟨fun _ _ _ => trivial, fun _ _ _ => trivial⟩

/-- A value yields itself. -/
theorem pure {a : α} (h : V a) : Yields (pure a : Effect ε σ α) V := Contract.pure fun _ _ => h

/-- What yields a value for everything it may be given yields such a value. -/
theorem bind {k : α → Effect ε σ β} (hm : Yields m V) (hk : ∀ a, V a → Yields (k a) W) :
    Yields (m >>= k) W :=
  Contract.bind hm fun a => (Contract.assuming (hk a)).pre fun _ h => ⟨h, trivial⟩

/-- The value of a computation with a contract has the property too. -/
theorem add {P : σ → Prop} {Q : α → σ → Prop} {E : Fault ε → σ → Prop} (hm : Yields m V)
    (h : Contract P m Q E) : Contract P m (fun a s => V a ∧ Q a s) E := by
  intro s hs
  obtain ⟨hvalue, -⟩ := hm s trivial
  obtain ⟨hok, herror⟩ := h s hs
  exact ⟨fun a t heq => ⟨hvalue a t heq, hok a t heq⟩, herror⟩

end Yields

end Cxx
