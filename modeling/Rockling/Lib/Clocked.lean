import Mathlib.Data.Nat.Init
import Mathlib.Tactic.Common

/-!
# Runs of clocked machines

A synchronous design is a step function from the registers and inputs of one clock to the registers
of the next. A run of it is the sequence of both. Nothing is said about where the inputs come from,
so a property of all runs holds in every environment.
-/

namespace Rockling

/-- A run: the registers at every clock, and the inputs they take there. -/
@[ext]
structure ClockedRun {σ ι : Type*} (step : σ → ι → σ) where
  st : ℕ → σ
  inp : ℕ → ι
  next : ∀ t, st (t + 1) = step (st t) (inp t)

namespace ClockedRun

variable {σ ι : Type*} {step : σ → ι → σ}

/-- The registers `t` clocks after `s` on an input sequence. -/
def stateAt (step : σ → ι → σ) (s : σ) (inp : ℕ → ι) : ℕ → σ
  | 0 => s
  | t + 1 => step (stateAt step s inp t) (inp t)

/-- The run of a machine from a state on an input sequence. -/
def ofInputs (step : σ → ι → σ) (s : σ) (inp : ℕ → ι) : ClockedRun step where
  st := stateAt step s inp
  inp := inp
  next := fun _ => rfl

/-- The registers `t` clocks after `s` when an environment answers every clock. -/
def closedAt (step : σ → ι → σ) (env : ℕ → σ → ι) (s : σ) : ℕ → σ
  | 0 => s
  | t + 1 => step (closedAt step env s t) (env t (closedAt step env s t))

/-- The run of a machine from a state in an environment that answers every clock. -/
def closed (step : σ → ι → σ) (env : ℕ → σ → ι) (s : σ) : ClockedRun step where
  st := closedAt step env s
  inp := fun t => env t (closedAt step env s t)
  next := fun _ => rfl

/-- What holds in one clock and survives every step holds from then on. -/
theorem invariant_from (r : ClockedRun step) {P : σ → Prop} {n : ℕ} (h0 : P (r.st n))
    (hstep : ∀ t, n ≤ t → P (r.st t) → P (step (r.st t) (r.inp t))) :
    ∀ t, n ≤ t → P (r.st t) := by
  intro t ht
  induction t, ht using Nat.le_induction with
  | base => exact h0
  | succ t ht ih =>
    rw [r.next]
    exact hstep t ht ih

end ClockedRun

/-! ## What a run produces -/

/-- What is produced in the `n` clocks from `a` on. -/
def collect {α : Type*} (f : ℕ → List α) (a : ℕ) : ℕ → List α
  | 0 => []
  | n + 1 => collect f a n ++ f (a + n)

section Collect

variable {α : Type*} {f : ℕ → List α} {a b c n : ℕ}

theorem collect_add (f : ℕ → List α) (a m n : ℕ) :
    collect f a (m + n) = collect f a m ++ collect f (a + m) n := by
  induction n with
  | zero => exact (List.append_nil _).symm
  | succ n ih => rw [← Nat.add_assoc, collect, ih, collect, List.append_assoc, Nat.add_assoc a m n]

theorem collect_append (low : a ≤ b) (high : b ≤ c) :
    collect f a (c - a) = collect f a (b - a) ++ collect f b (c - b) := by
  obtain ⟨m, rfl⟩ := Nat.exists_eq_add_of_le low
  obtain ⟨k, rfl⟩ := Nat.exists_eq_add_of_le high
  rw [Nat.add_assoc, Nat.add_sub_cancel_left, Nat.add_sub_cancel_left, collect_add,
    ← Nat.add_assoc, Nat.add_sub_cancel_left]

/-- Clocks that produce nothing. -/
theorem collect_nil (none : ∀ t, a ≤ t → t < a + n → f t = []) : collect f a n = [] := by
  induction n with
  | zero => rfl
  | succ n ih =>
    rw [collect, ih fun t low high => none t low (Nat.lt_succ_of_lt high),
      none (a + n) (Nat.le_add_right a n) (Nat.lt_succ_self _)]
    rfl

/-- Clocks before and after that produce nothing. -/
theorem collect_inside {d : ℕ} (low : a ≤ b) (mid : b ≤ c) (high : c ≤ d)
    (before : collect f a (b - a) = []) (after : collect f c (d - c) = []) :
    collect f a (d - a) = collect f b (c - b) := by
  rw [collect_append low (Nat.le_trans mid high), before, List.nil_append, collect_append mid high,
    after, List.append_nil]

end Collect

end Rockling
