import Up2date.Cxx.Effects

/-!
# Two runs from related states

Two computations are coupled by a relation between states when their runs from related states
end alike, with equal values or equal faults, and in related states again. Coupling follows
the ways of building a computation, so that a part of the state nothing depends on can be
exchanged without being followed through a run.
-/

namespace Cxx

variable {ε σ α β Op Reply : Type} {R : σ → σ → Prop}

/-- From related states both computations end alike, in related states. -/
def Coupled (R : σ → σ → Prop) (m m' : Effect ε σ α) : Prop :=
  ∀ s s', R s s' → ending (m s) = ending (m' s') ∧ R (finalState (m s)) (finalState (m' s'))

namespace Coupled

/-- The same value is returned. -/
theorem pure (a : α) : Coupled R (pure a : Effect ε σ α) (Pure.pure a) := fun _ _ h => ⟨rfl, h⟩

/-- The same fault is thrown. -/
theorem throw (f : Fault ε) : Coupled R (throw f : Effect ε σ α) (MonadExcept.throw f) :=
  fun _ _ h => ⟨rfl, h⟩

/-- The same outcome is passed on. -/
theorem ofExcept (r : Except ε α) :
    Coupled R (Effect.ofExcept r : Effect ε σ α) (Effect.ofExcept r) := by
  cases r with
  | ok a => exact Coupled.pure a
  | error e => exact Coupled.throw _

/-- States that are changed alike stay related. -/
theorem modify {f g : σ → σ} (h : ∀ s s', R s s' → R (f s) (g s')) :
    Coupled R (modify f : Effect ε σ PUnit) (modify g) := fun s s' hs => ⟨rfl, h s s' hs⟩

/-- A sequence is coupled when its steps are. -/
theorem bind {m m' : Effect ε σ α} {k k' : α → Effect ε σ β} (hm : Coupled R m m')
    (hk : ∀ a, Coupled R (k a) (k' a)) : Coupled R (m >>= k) (m' >>= k') := by
  intro s s' hs
  have hrun := hm s s' hs
  cases h : m s with
  | ok a t =>
    rw [h, ending_ok] at hrun
    obtain ⟨t', h'⟩ := eq_ok_of_ending hrun.1.symm
    rw [h'] at hrun
    rw [Effect.bind_of_ok h, Effect.bind_of_ok h']
    exact hk a t t' hrun.2
  | error f t =>
    rw [h, ending_error] at hrun
    obtain ⟨t', h'⟩ := eq_error_of_ending hrun.1.symm
    rw [h'] at hrun
    rw [Effect.bind_of_error h, Effect.bind_of_error h']
    exact ⟨rfl, hrun.2⟩

/-- What is read of the state need only be related. -/
theorem get_bind {k k' : σ → Effect ε σ β} (hk : ∀ s s', R s s' → Coupled R (k s) (k' s')) :
    Coupled R (get >>= k) (get >>= k') := by
  intro s s' hs
  rw [Effect.bind_of_ok (Effect.get_apply s), Effect.bind_of_ok (Effect.get_apply s')]
  exact hk s s' hs s s' hs

/-- User code is coupled to itself when every call is. -/
theorem run {perform : Op → Effect ε σ Reply} (h : ∀ op, Coupled R (perform op) (perform op))
    (p : Interaction ε Op Reply α) :
    Coupled R (Interaction.run perform p) (Interaction.run perform p) := by
  induction p with
  | done a => exact Coupled.pure a
  | raise e => exact Coupled.throw _
  | call op k ih =>
    intro s s' hs
    have hop := h op s s' hs
    cases hr : perform op s with
    | ok r t =>
      rw [hr, ending_ok] at hop
      obtain ⟨t', hr'⟩ := eq_ok_of_ending hop.1.symm
      rw [hr'] at hop
      simpa only [Interaction.run, hr, hr'] using ih (.ok r) t t' hop.2
    | error f t =>
      rw [hr, ending_error] at hop
      obtain ⟨t', hr'⟩ := eq_error_of_ending hop.1.symm
      rw [hr'] at hop
      cases f with
      | undefined =>
        simp only [Interaction.run, hr, hr']
        exact ⟨rfl, hop.2⟩
      | thrown e => simpa only [Interaction.run, hr, hr'] using ih (.error e) t t' hop.2

end Coupled

end Cxx
