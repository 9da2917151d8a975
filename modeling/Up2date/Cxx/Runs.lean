import Mathlib.Order.Basic

/-!
# Runs of a machine that others disturb

A machine makes one step at a time, and before each step its state may be disturbed from
outside. A run is the sequence of states in which the steps are made. What steps and
disturbances preserve holds from one state of a run to every later one, and a measure that
decreases in every step bounds how many are left.
-/

namespace Cxx

variable {σ ι : Type*} (step : σ → σ) (disturb : ι → σ → σ) (schedule : ℕ → ι)

/-- The state in which step `n` is made, after the disturbances before it. -/
def runState (s : σ) : ℕ → σ
  | 0 => disturb (schedule 0) s
  | n + 1 => disturb (schedule (n + 1)) (step (runState s n))

variable {step disturb schedule}

/-- What steps and disturbances preserve holds in every later state of a run. -/
theorem runState_persists {P : σ → Prop} (hdisturb : ∀ i t, P t → P (disturb i t))
    (hstep : ∀ t, P t → P (step t)) {s : σ} {n m : ℕ} (hnm : n ≤ m)
    (h : P (runState step disturb schedule s n)) : P (runState step disturb schedule s m) := by
  induction hnm with
  | refl => exact h
  | step _ ih => exact hdisturb _ _ (hstep _ ih)

/-- A measure that every step from a place on decreases, as long as it is positive. -/
theorem rank_le_sub (rank : ℕ → ℕ) {n : ℕ} (h : ∀ k, n ≤ k → rank (k + 1) ≤ rank k - 1)
    {m : ℕ} (hnm : n ≤ m) : rank m ≤ rank n - (m - n) := by
  induction hnm with
  | refl => omega
  | @step k hk ih =>
    have hle : n ≤ k := hk
    have hnext := h k hle
    rw [Nat.succ_eq_add_one]
    omega

end Cxx
