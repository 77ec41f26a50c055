import Mathlib.Tactic.Common

/-!
# Feedback

In a clocked system an input may depend on all that the system has done before. Where what an
equation says about one clock depends on nothing but earlier clocks (`Causal`), it has a solution
(`Causal.feedback_eq`), so that the loop can be closed.
-/

namespace Rockling

variable {α : Type*}

/-- An equation for a signal that looks at nothing but the past. -/
def Causal (F : (ℕ → α) → ℕ → α) : Prop := ∀ x y t, (∀ u < t, x u = y u) → F x t = F y t

/-- The signal that is fed back. -/
def feedback [Inhabited α] (F : (ℕ → α) → ℕ → α) (t : ℕ) : α :=
  F (fun u => if _ : u < t then feedback F u else default) t

/-- **The loop is closed.** -/
theorem Causal.feedback_eq [Inhabited α] {F : (ℕ → α) → ℕ → α} (causal : Causal F) (t : ℕ) :
    feedback F t = F (feedback F) t := by
  rw [feedback]
  exact causal _ _ t fun u before => if_pos before

end Rockling
