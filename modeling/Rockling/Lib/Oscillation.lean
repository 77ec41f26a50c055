import Mathlib.Algebra.Order.Floor.Ring
import Mathlib.Order.Interval.Finset.Nat
import Mathlib.Tactic.Linarith

/-!
# A sampled oscillation

The phase of an oscillation counts its periods, and need not grow evenly. The level is high in the
first part of every period, the duty, and low in the rest. If the phase grows by no more than either
part from one sample to the next, no sample misses a level, so the rising edges among the samples
are the periods that begin between them (`card_rises`), and their number is off from the growth of
the phase by less than one (`card_rises_near`).
-/

namespace Rockling

/-- An oscillation that is sampled often enough. -/
structure Oscillation (K : Type*) [Field K] [LinearOrder K] where
  duty : K
  phase : ℕ → K
  forward : ∀ k, phase k ≤ phase (k + 1)
  high : ∀ k, phase (k + 1) - phase k ≤ duty
  low : ∀ k, phase (k + 1) - phase k ≤ 1 - duty

namespace Oscillation

variable {K : Type*} [Field K] [LinearOrder K]

/-- An oscillation of one frequency, in periods for each sample, that is high half of the time. -/
def even [IsStrictOrderedRing K] (freq start : K) (nonneg : 0 ≤ freq) (slow : freq ≤ 1 / 2) :
    Oscillation K where
  duty := 1 / 2
  phase k := start + freq * k
  forward k := by
    push_cast
    linarith
  high k := by
    push_cast
    linarith
  low k := by
    push_cast
    linarith

variable [FloorRing K] (o : Oscillation K)

/-- The level in sample `k`. -/
def level (k : ℕ) : Bool := decide (Int.fract (o.phase k) < o.duty)

/-- The rising edges after sample `a`, up to sample `b`. -/
def rises (a b : ℕ) : Finset ℕ :=
  {k ∈ Finset.Ioc a b | o.level k = true ∧ o.level (k - 1) = false}

/-- The periods that have begun at sample `k`. -/
def periods (k : ℕ) : ℤ := ⌊o.phase k⌋

/-- The rising edges up to one sample more. -/
theorem card_rises_succ {a b : ℕ} (le : a ≤ b) : (o.rises a (b + 1)).card =
    (o.rises a b).card + if o.level (b + 1) = true ∧ o.level b = false then 1 else 0 := by
  have insert : Finset.Ioc a (b + 1) = insert (b + 1) (Finset.Ioc a b) := by
    ext k
    simp only [Finset.mem_Ioc, Finset.mem_insert]
    omega
  have fresh : b + 1 ∉ o.rises a b := fun mem => by
    have := (Finset.mem_Ioc.mp (Finset.mem_filter.mp mem).1).2
    omega
  rw [rises, insert, Finset.filter_insert, Nat.add_sub_cancel]
  split
  · exact Finset.card_insert_of_notMem fresh
  · rfl

variable [IsStrictOrderedRing K]

/-- Between two samples at most one period begins, and then the level rises. -/
theorem periods_succ (k : ℕ) : o.periods (k + 1) =
    o.periods k + if o.level (k + 1) = true ∧ o.level k = false then 1 else 0 := by
  have here := Int.floor_add_fract (o.phase k)
  have next := Int.floor_add_fract (o.phase (k + 1))
  have nonneg := Int.fract_nonneg (o.phase (k + 1))
  have below := Int.fract_lt_one (o.phase k)
  have fwd := o.forward k
  have high := o.high k
  have low := o.low k
  unfold periods
  simp only [level, decide_eq_true_eq, decide_eq_false_iff_not, not_lt]
  rcases (Int.floor_mono fwd).eq_or_lt with same | begins
  · -- the same period: the level cannot have been low before and be high now
    rw [← same] at next ⊢
    rw [if_neg fun ⟨up, down⟩ => by linarith, add_zero]
  · have begins' : (⌊o.phase k⌋ : K) + 1 ≤ ⌊o.phase (k + 1)⌋ := by exact_mod_cast begins
    have one : ⌊o.phase (k + 1)⌋ = ⌊o.phase k⌋ + 1 := by
      refine le_antisymm ?_ begins
      have lt : (⌊o.phase (k + 1)⌋ : K) < ⌊o.phase k⌋ + 1 + 1 := by linarith
      exact Int.lt_add_one_iff.mp (by exact_mod_cast lt)
    have one' : (⌊o.phase (k + 1)⌋ : K) = ⌊o.phase k⌋ + 1 := by exact_mod_cast one
    rw [one, if_pos ⟨by linarith, by linarith⟩]

/-- The rising edges are the periods that begin. -/
theorem card_rises {a b : ℕ} (le : a ≤ b) :
    ((o.rises a b).card : ℤ) = o.periods b - o.periods a := by
  induction b, le using Nat.le_induction with
  | base => rw [rises, Finset.Ioc_self, sub_self]; rfl
  | succ b le ih =>
    rw [o.card_rises_succ le, o.periods_succ b, Nat.cast_add, ih]
    split <;> push_cast <;> omega

/-- Their number is less than one off from the growth of the phase. -/
theorem card_rises_near {a b : ℕ} (le : a ≤ b) :
    |((o.rises a b).card : K) - (o.phase b - o.phase a)| < 1 := by
  have count : ((o.rises a b).card : K) = (o.periods b : K) - o.periods a := by
    exact_mod_cast congrArg (Int.cast (R := K)) (o.card_rises le)
  have lowA := Int.floor_le (o.phase a)
  have highA := Int.lt_floor_add_one (o.phase a)
  have lowB := Int.floor_le (o.phase b)
  have highB := Int.lt_floor_add_one (o.phase b)
  rw [count, abs_lt]
  unfold periods
  constructor <;> linarith

end Oscillation

end Rockling
