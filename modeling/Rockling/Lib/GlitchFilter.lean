import Mathlib.Data.Bool.Basic
import Mathlib.Tactic.Common
import Mathlib.Order.Basic

/-!
# Synchroniser and majority filter

A line that enters a clocked design passes two synchroniser flip-flops, is sampled into a
three-stage shift register once every `q` clocks, and is then decided by majority. This file
develops that input path on its own, for any sampling period.

The only fact its users need is `Settling`: `a` clocks after a line was last pulled low, and as long
as it can only rise from then on, every stage of the path that has already been refilled is below
the stage that feeds it. From `2 * q + 4` clocks on the filtered line cannot fall.
-/

namespace Rockling

/-- Majority of three samples, the newest last. -/
def majority (x₂ x₁ x₀ : Bool) : Bool := (x₂ && x₁) || (x₁ && x₀) || (x₂ && x₀)

/-- The registers of one filtered input: two capture stages, three samples, the filtered value and
its one-clock delay. -/
structure LineFilter where
  c0 : Bool
  c1 : Bool
  f0 : Bool
  f1 : Bool
  f2 : Bool
  s : Bool
  d : Bool
  deriving DecidableEq, Repr

namespace LineFilter

/-- Register values under reset. -/
def reset : LineFilter := ⟨false, false, true, true, true, true, true⟩

/-- The majority of the three samples held. -/
def maj (x : LineFilter) : Bool := majority x.f2 x.f1 x.f0

/-- One clock; the samples shift when `tick` is set. -/
def step (x : LineFilter) (tick line : Bool) : LineFilter where
  c0 := line
  c1 := x.c0
  f0 := if tick then x.c1 else x.f0
  f1 := if tick then x.f0 else x.f1
  f2 := if tick then x.f1 else x.f2
  s := x.maj
  d := x.s

/-- The filtered line falls in this clock. -/
def falls (x : LineFilter) : Bool := x.d && !x.s

/-- The sampling counter, reloaded with `q - 1` at zero. -/
def tickNext (q v : ℕ) : ℕ := if v = 0 then q - 1 else v - 1

theorem tickNext_lt {q v : ℕ} (hv : v < q) : tickNext q v < q := by
  unfold tickNext
  split <;> omega

/-- `a` clocks after the line was last pulled low, each refilled stage is below its source. The
sample stages are refilled once enough sampling clocks have passed, which `v`, the clocks left to
the next one, tells. -/
structure Settling (q v a : ℕ) (line : Bool) (x : LineFilter) : Prop where
  c0 : 1 ≤ a → x.c0 = true → line = true
  c1 : 2 ≤ a → x.c1 = true → x.c0 = true
  f0 : q + 2 ≤ a + v → x.f0 = true → x.c1 = true
  f1 : 2 * q + 2 ≤ a + v → x.f1 = true → x.f0 = true
  f2 : 3 * q + 2 ≤ a + v → x.f2 = true → x.f1 = true
  s : 2 * q + 3 ≤ a → x.s = true → x.maj = true
  d : 2 * q + 4 ≤ a → x.d = true → x.s = true

section Settling

variable {q v a : ℕ} {line line' : Bool} {x : LineFilter}

/-- A line that was just pulled low has nothing refilled. -/
theorem Settling.restart (hv : v < q) : Settling q v 0 line x := by
  constructor <;> intro h <;> omega

/-- With two refilled samples a sampling clock cannot lower the majority. -/
theorem Settling.maj_mono (h : Settling q v a line x) (ha : 2 * q + 2 ≤ a) (tick new : Bool)
    (hm : x.maj = true) : (x.step tick new).maj = true := by
  have h1 := h.f1 (by omega)
  have h0 := h.f0 (by omega)
  cases tick
  · exact hm
  · simp only [maj, majority, step, if_true] at hm ⊢
    revert hm h1 h0
    cases x.f2 <;> cases x.f1 <;> cases x.f0 <;> cases x.c1 <;> simp

/-- One clock on a line that does not fall. -/
theorem Settling.step (h : Settling q v a line x) (hv : v < q)
    (hline : 1 ≤ a + 1 → line = true → line' = true) :
    Settling q (tickNext q v) (a + 1) line' (x.step (v == 0) line) := by
  have hmono := fun ha => h.maj_mono ha (v == 0) line
  constructor
  case c0 => exact fun _ hc => hline (by omega) hc
  case c1 => exact fun ha hc => h.c0 (by omega) hc
  case s => exact fun ha hs => hmono (by omega) hs
  case d => exact fun ha hd => h.s (by omega) hd
  all_goals
    unfold tickNext
    simp only [LineFilter.step, beq_iff_eq]
    split
  · exact fun ha hf => h.c1 (by omega) hf
  · exact fun ha hf => h.c1 (by omega) (h.f0 (by omega) hf)
  · exact fun ha hf => h.f0 (by omega) hf
  · exact fun ha hf => h.f1 (by omega) hf
  · exact fun ha hf => h.f1 (by omega) hf
  · exact fun ha hf => h.f2 (by omega) hf

/-- Once settled, the filtered line does not fall. -/
theorem Settling.not_falls (h : Settling q v a line x) (ha : 2 * q + 4 ≤ a) :
    x.falls = false := by
  have hd := h.d ha
  unfold falls
  revert hd
  cases x.d <;> cases x.s <;> simp

/-- With two refilled samples a set majority comes from the newest sample. -/
theorem Settling.f0_of_maj (h : Settling q v a line x) (ha : 2 * q + 2 ≤ a + v)
    (hm : x.maj = true) : x.f0 = true := by
  have h1 := h.f1 ha
  simp only [maj, majority] at hm
  revert hm h1
  cases x.f2 <;> cases x.f1 <;> cases x.f0 <;> simp

/-- A set majority proves that the line is high now. -/
theorem Settling.line_of_maj (h : Settling q v a line x) (hq : 1 ≤ q) (ha : 2 * q + 2 ≤ a)
    (hm : x.maj = true) : line = true :=
  h.c0 (by omega) (h.c1 (by omega) (h.f0 (by omega) (h.f0_of_maj (by omega) hm)))

/-- A filtered line that reads high is high. -/
theorem Settling.line_of_s (h : Settling q v a line x) (hq : 1 ≤ q) (ha : 2 * q + 3 ≤ a)
    (hs : x.s = true) : line = true :=
  h.line_of_maj hq (by omega) (h.s ha hs)

end Settling

/-- The line has been at `level` for `a` clocks: each refilled stage is. -/
structure Filling (q v a : ℕ) (level : Bool) (x : LineFilter) : Prop where
  c0 : 1 ≤ a → x.c0 = level
  c1 : 2 ≤ a → x.c1 = level
  f0 : q + 2 ≤ a + v → x.f0 = level
  f1 : 2 * q + 2 ≤ a + v → x.f1 = level
  s : 2 * q + 3 ≤ a → x.s = level

section Filling

variable {q v a : ℕ} {level : Bool} {x : LineFilter}

theorem Filling.start (hv : v < q) : Filling q v 0 level x := by
  constructor <;> intro h <;> omega

/-- One clock more. -/
theorem Filling.step (h : Filling q v a level x) (hv : v < q) :
    Filling q (tickNext q v) (a + 1) level (x.step (v == 0) level) := by
  constructor
  case c0 => exact fun _ => rfl
  case c1 => exact fun ha => h.c0 (by omega)
  case s =>
    intro ha
    have h0 := h.f0 (by omega)
    have h1 := h.f1 (by omega)
    simp only [LineFilter.step, maj, majority, h0, h1]
    cases level <;> cases x.f2 <;> rfl
  all_goals
    unfold tickNext
    simp only [LineFilter.step, beq_iff_eq]
    split
  · exact fun ha => h.c1 (by omega)
  · exact fun ha => h.f0 (by omega)
  · exact fun ha => h.f0 (by omega)
  · exact fun ha => h.f1 (by omega)

end Filling

/-! ## Two lines sampled together -/

/-- No stage holds a set sample. -/
structure Empty (x : LineFilter) : Prop where
  c0 : x.c0 = false
  c1 : x.c1 = false
  f0 : x.f0 = false
  f1 : x.f1 = false
  f2 : x.f2 = false
  s : x.s = false

/-- Where the path `x` of a clock line holds a set sample, the path `y` of a data line holds
`level`. -/
structure Tracks (level : Bool) (x y : LineFilter) : Prop where
  c0 : x.c0 = true → y.c0 = level
  c1 : x.c1 = true → y.c1 = level
  f0 : x.f0 = true → y.f0 = level
  f1 : x.f1 = true → y.f1 = level
  f2 : x.f2 = true → y.f2 = level
  s : x.s = true → y.s = level

section Tracks

variable {q v a : ℕ} {level line other tick : Bool} {x y : LineFilter}

/-- A line that has been low for long enough has emptied its path. -/
theorem Settling.empty (h : Settling q v a false x) (ha : 3 * q + 3 ≤ a) : x.Empty := by
  have c0 : x.c0 = false := eq_false_of_ne_true fun set => nomatch h.c0 (by omega) set
  have c1 : x.c1 = false := eq_false_of_ne_true fun set => by
    rw [h.c1 (by omega) set] at c0
    cases c0
  have f0 : x.f0 = false := eq_false_of_ne_true fun set => by
    rw [h.f0 (by omega) set] at c1
    cases c1
  have f1 : x.f1 = false := eq_false_of_ne_true fun set => by
    rw [h.f1 (by omega) set] at f0
    cases f0
  have f2 : x.f2 = false := eq_false_of_ne_true fun set => by
    rw [h.f2 (by omega) set] at f1
    cases f1
  refine ⟨c0, c1, f0, f1, f2, eq_false_of_ne_true fun set => ?_⟩
  have maj := h.s (by omega) set
  simp [LineFilter.maj, majority, f0, f1] at maj

theorem Empty.step (h : x.Empty) : (x.step tick false).Empty := by
  refine ⟨rfl, h.c0, ?_, ?_, ?_, ?_⟩
  · cases tick <;> simp [LineFilter.step, h.c1, h.f0]
  · cases tick <;> simp [LineFilter.step, h.f0, h.f1]
  · cases tick <;> simp [LineFilter.step, h.f1, h.f2]
  · simp [LineFilter.step, maj, majority, h.f0, h.f1]

theorem Empty.tracks (h : x.Empty) : Tracks level x y := by
  constructor <;> simp [h.c0, h.c1, h.f0, h.f1, h.f2, h.s]

/-- Two of three samples decide both majorities. -/
theorem Tracks.maj (h : Tracks level x y) (set : x.maj = true) : y.maj = level := by
  obtain ⟨-, -, f0, f1, f2, -⟩ := h
  revert set f0 f1 f2
  simp only [LineFilter.maj, majority]
  cases x.f0 <;> cases x.f1 <;> cases x.f2 <;> cases y.f0 <;> cases y.f1 <;> cases y.f2 <;>
    cases level <;> simp

/-- One clock in which the data line is at `level` if the clock line is high. -/
theorem Tracks.step (h : Tracks level x y) (now : line = true → other = level) :
    Tracks level (x.step tick line) (y.step tick other) where
  c0 := now
  c1 := h.c0
  f0 := by
    cases tick
    · exact h.f0
    · exact h.c1
  f1 := by
    cases tick
    · exact h.f1
    · exact h.f0
  f2 := by
    cases tick
    · exact h.f2
    · exact h.f1
  s := h.maj

end Tracks

/-- The filtered value only moves in the wake of a sampling clock: `v` counts down from `q - 1`
after one. -/
structure Spaced (q v : ℕ) (x : LineFilter) : Prop where
  s : x.s ≠ x.maj → v + 1 = q
  d : x.d ≠ x.s → q = 1 ∨ v + 2 = q

section Spaced

variable {q v : ℕ} {line : Bool} {x : LineFilter}

/-- After any clock, a pending move of the filtered value was caused by that clock's sample. -/
theorem s_spaced (hv : v < q) (h : (x.step (v == 0) line).s ≠ (x.step (v == 0) line).maj) :
    tickNext q v + 1 = q := by
  by_cases h0 : v = 0
  · simp only [tickNext, if_pos h0]
    omega
  · have hf : (v == 0) = false := by simpa using h0
    rw [hf] at h
    exact absurd rfl h

theorem Spaced.step (h : Spaced q v x) (hv : v < q) :
    Spaced q (tickNext q v) (x.step (v == 0) line) where
  s := s_spaced hv
  d := by
    intro hd
    have hs : x.s ≠ x.maj := hd
    have := h.s hs
    unfold tickNext
    split <;> omega

/-- Two moves of the filtered value in adjacent clocks need a sample in every clock. -/
theorem Spaced.settled_of_moved (h : Spaced q v x) (hq : 2 ≤ q) (hd : x.d ≠ x.s) :
    x.s = x.maj := by
  by_contra hs
  have h1 := h.s hs
  have h2 := h.d hd
  omega

end Spaced

end LineFilter

end Rockling
