import Up2date.Cxx.Effects

/-!
# Writing user code

The code of a user is written as a sequence of calls whose exceptions pass, unless a handler
around them catches them. Running such code is running its parts: a sequence runs as a sequence
of computations, a loop as a loop, and a handler as a handler.
-/

namespace Cxx

variable {ε σ Op Reply α β : Type}

/-- A sequence depends on what its first step does only. -/
theorem Effect.bind_eq_of_apply_eq {m m' : Effect ε σ α} {s s' : σ} (h : m s = m' s')
    (k : α → Effect ε σ β) : (m >>= k) s = (m' >>= k) s' := by
  change EStateM.bind m k s = EStateM.bind m' k s'
  simp only [EStateM.bind, h]

namespace Interaction

/-- Go on behind user code. -/
def andThen (k : α → Interaction ε Op Reply β) : Interaction ε Op Reply α → Interaction ε Op Reply β
  | .done a => k a
  | .raise e => .raise e
  | .call op next => .call op fun r => andThen k (next r)

instance : Monad (Interaction ε Op Reply) where
  pure := .done
  bind p k := andThen k p

/-- A call that lets exceptions pass. -/
def invoke (op : Op) : Interaction ε Op Reply Reply :=
  .call op fun
    | .ok r => .done r
    | .error e => .raise e

/-- `try`/`catch` around user code, with a handler for every exception. -/
def catching (handler : ε → Interaction ε Op Reply α) :
    Interaction ε Op Reply α → Interaction ε Op Reply α
  | .done a => .done a
  | .raise e => handler e
  | .call op next => .call op fun r => catching handler (next r)

variable (perform : Op → Effect ε σ Reply)

/-- A value is returned without a call. -/
theorem run_pure (a : α) : run perform (pure a) = pure a := rfl

/-- A sequence runs as a sequence. -/
theorem run_bind (p : Interaction ε Op Reply α) (k : α → Interaction ε Op Reply β) :
    run perform (p >>= k) = run perform p >>= fun a => run perform (k a) := by
  change run perform (andThen k p) = _
  induction p with
  | done a => rfl
  | raise e => rfl
  | call op next ih =>
    funext s
    cases h : perform op s with
    | ok r s' =>
      have hcall : run perform (.call op next) s = run perform (next (.ok r)) s' := by
        simp only [run, h]
      rw [Effect.bind_eq_of_apply_eq hcall, ← ih (.ok r)]
      simp only [andThen, run, h]
    | error f s' =>
      cases f with
      | undefined =>
        have hcall : run perform (.call op next) s = .error .undefined s' := by simp only [run, h]
        rw [Effect.bind_of_error hcall]
        simp only [andThen, run, h]
      | thrown e =>
        have hcall : run perform (.call op next) s = run perform (next (.error e)) s' := by
          simp only [run, h]
        rw [Effect.bind_eq_of_apply_eq hcall, ← ih (.error e)]
        simp only [andThen, run, h]

/-- A call runs as what performs it. -/
theorem run_invoke (op : Op) : run perform (invoke op) = perform op := by
  funext s
  simp only [invoke, run]
  cases h : perform op s with
  | ok r s' => rfl
  | error f s' => cases f <;> rfl

/-- A loop with an accumulator runs as a loop. -/
theorem run_foldlM (step : β → α → Interaction ε Op Reply β) (xs : List α) (b : β) :
    run perform (xs.foldlM step b) = xs.foldlM (fun b x => run perform (step b x)) b := by
  induction xs generalizing b with
  | nil => rfl
  | cons x xs ih =>
    rw [List.foldlM_cons, List.foldlM_cons, run_bind]
    exact bind_congr fun b => ih b

/-- A handler runs as a handler. -/
theorem run_catching (handler : ε → Interaction ε Op Reply α) (p : Interaction ε Op Reply α) :
    run perform (catching handler p) =
      Effect.catching (run perform p) fun e => some (run perform (handler e)) := by
  induction p with
  | done a => rfl
  | raise e => rfl
  | call op next ih =>
    funext s
    cases h : perform op s with
    | ok r s' =>
      have hnext := congrFun (ih (.ok r)) s'
      simp only [catching, run, h, hnext, Effect.catching]
    | error f s' =>
      cases f with
      | undefined => simp only [catching, run, h, Effect.catching]
      | thrown e =>
        have hnext := congrFun (ih (.error e)) s'
        simp only [catching, run, h, hnext, Effect.catching]

/-! ### Calls of one kind -/

/-- User code all of whose calls have a property. -/
inductive Makes (Q : Op → Prop) : Interaction ε Op Reply α → Prop
  | done (a : α) : Makes Q (.done a)
  | raise (e : ε) : Makes Q (.raise e)
  | call {op : Op} {next : Except ε Reply → Interaction ε Op Reply α} :
      Q op → (∀ r, Makes Q (next r)) → Makes Q (.call op next)

namespace Makes

variable {Q : Op → Prop}

/-- A value makes no calls. -/
theorem pure (a : α) : Makes Q (Pure.pure a : Interaction ε Op Reply α) := .done a

/-- A sequence makes the calls of its parts. -/
theorem bind {p : Interaction ε Op Reply α} {k : α → Interaction ε Op Reply β} (hp : Makes Q p)
    (hk : ∀ a, Makes Q (k a)) : Makes Q (p >>= k) := by
  induction hp with
  | done a => exact hk a
  | raise e => exact .raise e
  | call hop _ ih => exact .call hop ih

/-- A call makes itself. -/
theorem invoke {op : Op} (hop : Q op) : Makes Q (invoke op : Interaction ε Op Reply Reply) :=
  .call hop fun r => match r with
    | .ok r => .done r
    | .error e => .raise e

/-- A loop makes the calls of its turns. -/
theorem foldlM {step : β → α → Interaction ε Op Reply β} (hstep : ∀ b x, Makes Q (step b x))
    (xs : List α) (b : β) : Makes Q (xs.foldlM step b) := by
  induction xs generalizing b with
  | nil => exact .done b
  | cons x xs ih => exact (hstep b x).bind ih

/-- It respects every relation that calls with the property respect. -/
theorem run_respects {R : σ → σ → Prop} [Std.Refl R] [IsTrans σ R]
    (hperform : ∀ op, Q op → Respects R (perform op)) {p : Interaction ε Op Reply α}
    (hp : Makes Q p) : Respects R (run perform p) := by
  induction hp with
  | done a => exact Respects.pure a
  | raise e => exact Respects.throw _
  | @call op next hop _ ih =>
    intro s
    have hfirst := hperform op hop s
    cases hr : perform op s with
    | ok r s' =>
      rw [hr] at hfirst
      simpa only [run, hr] using trans_of R hfirst (ih (.ok r) s')
    | error f s' =>
      rw [hr] at hfirst
      cases f with
      | undefined => simpa only [run, hr, finalState_error] using hfirst
      | thrown e => simpa only [run, hr] using trans_of R hfirst (ih (.error e) s')

end Makes

end Interaction

end Cxx
