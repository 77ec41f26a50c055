import Rockling.Lib.GlitchFilter

/-!
# A clock line and a data line behind one filter

The lines of a two-wire bus are filtered alike and at the same sampling clocks. A data line that
rises behind the filter while the clock line reads high there looks like a STOP, whether or not
there was one on the lines. There is none as long as

* the clock line only rises once its path has forgotten that it was ever high (`NoDip`), and
* where both lines are high, the data line has been high for a sampling period (`NoStop`).
-/

namespace Rockling

namespace LineFilter

/-- The line has been at `level` for `a` clocks, the last stages included. -/
structure Steady (q v a : ℕ) (level : Bool) (x : LineFilter) : Prop
    extends Filling q v a level x where
  f2 : 3 * q + 2 ≤ a + v → x.f2 = level
  d : 2 * q + 4 ≤ a → x.d = level

/-- A clock line without dips: where a stage is below its source, so are the stages behind it. -/
structure NoDip (line : Bool) (x : LineFilter) : Prop where
  c0 : line = true → x.c0 = false → x.c1 = false ∧ x.f0 = false ∧ x.f1 = false
  c1 : x.c0 = true → x.c1 = false → x.f0 = false ∧ x.f1 = false
  f0 : x.c1 = true → x.f0 = false → x.f1 = false

/-- Where a stage of the clock line and the same stage of the data line are set, the data line has
been set one stage on. -/
structure NoStop (line data : Bool) (x y : LineFilter) : Prop where
  now : line = true → data = true → y.c0 = true ∧ y.c1 = true ∧ y.f0 = true
  c0 : x.c0 = true → y.c0 = true → y.c1 = true ∧ y.f0 = true
  c1 : x.c1 = true → y.c1 = true → y.f0 = true
  f0 : x.f0 = true → y.f0 = true → y.f1 = true
  f1 : x.f1 = true → y.f1 = true → y.f2 = true
  maj : x.maj = true → y.maj = true → y.s = true
  s : x.s = true → y.s = true → y.d = true

section

variable {q v a : ℕ} {level line line' data data' tick : Bool} {x y : LineFilter}

theorem Steady.start (hv : v < q) : Steady q v 0 level x where
  toFilling := .start hv
  f2 := fun _ => by omega
  d := fun _ => by omega

/-- One clock more. -/
theorem Steady.step (h : Steady q v a level x) (hv : v < q) :
    Steady q (tickNext q v) (a + 1) level (x.step (v == 0) level) where
  toFilling := h.toFilling.step hv
  f2 := by
    unfold tickNext
    simp only [LineFilter.step, beq_iff_eq]
    split
    · exact fun ha => h.f1 (by omega)
    · exact fun ha => h.f2 (by omega)
  d := fun ha => h.s (by omega)

/-- A majority of three equal samples. -/
theorem maj_of_samples (f0 : x.f0 = level) (f1 : x.f1 = level) : x.maj = level := by
  rw [maj, majority, f0, f1]
  cases level <;> cases x.f2 <;> rfl

/-- A sampling clock that takes a set sample cannot lower the majority. -/
theorem maj_rises (c1 : x.c1 = true) (set : x.maj = true) : (x.step tick line).maj = true := by
  cases tick
  · exact set
  · revert set
    simp only [maj, majority, step, c1, if_true]
    cases x.f2 <;> cases x.f1 <;> cases x.f0 <;> simp

/-! ## Lines that have been steady -/

/-- A line that has been steady for long enough has no dip in its path. -/
theorem Steady.noDip (h : Steady q v a level x) (ha : 2 * q + 3 ≤ a) : NoDip line x := by
  have c0 := h.c0 (by omega)
  have c1 := h.c1 (by omega)
  have f0 := h.f0 (by omega)
  have f1 := h.f1 (by omega)
  refine ⟨fun _ low => ?_, fun set low => ?_, fun set low => ?_⟩
  · exact ⟨c1.trans (c0.symm.trans low), f0.trans (c0.symm.trans low),
      f1.trans (c0.symm.trans low)⟩
  · rw [c1, ← c0, set] at low
    cases low
  · rw [f0, ← c1, set] at low
    cases low

/-- A data line that has been steady for long enough does not look like a STOP. -/
theorem Steady.noStop (h : Steady q v a data y) (hq : 1 ≤ q) (ha : 3 * q + 3 ≤ a) :
    NoStop line data x y := by
  have c0 := h.c0 (by omega)
  have c1 := h.c1 (by omega)
  have f0 := h.f0 (by omega)
  have f1 := h.f1 (by omega)
  have f2 := h.f2 (by omega)
  have s := h.s (by omega)
  have d := h.d (by omega)
  refine ⟨fun _ set => ?_, fun _ set => ?_, fun _ set => ?_, fun _ set => ?_, fun _ set => ?_,
    fun _ set => ?_, fun _ set => ?_⟩
  · exact ⟨c0.trans set, c1.trans set, f0.trans set⟩
  · exact ⟨c1.trans (c0.symm.trans set), f0.trans (c0.symm.trans set)⟩
  · exact f0.trans (c1.symm.trans set)
  · exact f1.trans (f0.symm.trans set)
  · exact f2.trans (f1.symm.trans set)
  · exact s.trans ((maj_of_samples f0 f1).symm.trans set)
  · exact d.trans (s.symm.trans set)

/-- Once the filtered line has settled it does not move. -/
theorem Steady.d_eq_s (h : Steady q v a level x) (ha : 2 * q + 4 ≤ a) : x.d = x.s :=
  (h.d ha).trans (h.s (by omega)).symm

/-! ## One clock -/

/-- One clock of a clock line that only rises into an empty path. -/
theorem NoDip.step (h : NoDip line x) (rise : line = false → line' = true → x.Empty) :
    NoDip line' (x.step tick line) where
  c0 := by
    intro up down
    obtain ⟨c0, c1, f0, f1, -, -⟩ := rise down up
    cases tick <;> exact ⟨c0, by simp [LineFilter.step, f0, c1],
      by simp [LineFilter.step, f0, f1]⟩
  c1 := by
    intro up down
    obtain ⟨c1, f0, f1⟩ := h.c0 up down
    cases tick <;> exact ⟨by simp [LineFilter.step, f0, c1], by simp [LineFilter.step, f0, f1]⟩
  f0 := by
    intro (up : x.c0 = true) down
    cases tick
    · by_cases c1 : x.c1 = true
      · exact h.f0 c1 down
      · exact (h.c1 up (eq_false_of_ne_true c1)).2
    · exact (h.c1 up down).1

/-- Three samples of a clock line without dips: a majority of the data line that is new was not
taken while the clock line was high. -/
theorem NoStop.maj_step (h : NoStop line data x y) (dip : NoDip line x)
    (set : (x.step tick line).maj = true) (set' : (y.step tick data).maj = true) :
    y.maj = true := by
  cases tick
  · exact set'
  · have c1 := h.c1
    have f0 := h.f0
    have f1 := h.f1
    have dip := dip.f0
    revert set set' c1 f0 f1 dip
    simp only [LineFilter.maj, majority, LineFilter.step, if_true]
    cases x.c1 <;> cases x.f0 <;> cases x.f1 <;> cases y.c1 <;> cases y.f0 <;> cases y.f1 <;>
      cases y.f2 <;> simp

/-- One clock after which, if both lines are high, the data line has been high for long enough. -/
theorem NoStop.step (h : NoStop line data x y) (dip : NoDip line x)
    (now : line' = true → data' = true → (y.step tick data).c0 = true ∧
      (y.step tick data).c1 = true ∧ (y.step tick data).f0 = true) :
    NoStop line' data' (x.step tick line) (y.step tick data) where
  now := now
  c0 := by
    intro up set
    obtain ⟨c0, c1, f0⟩ := h.now up set
    cases tick
    · exact ⟨c0, f0⟩
    · exact ⟨c0, c1⟩
  c1 := by
    intro up set
    obtain ⟨c1, f0⟩ := h.c0 up set
    cases tick
    · exact f0
    · exact c1
  f0 := by
    cases tick
    · exact h.f0
    · exact h.c1
  f1 := by
    cases tick
    · exact h.f1
    · exact h.f0
  maj := h.maj_step dip
  s := h.maj

/-- Nothing that looks like a STOP. -/
theorem NoStop.quiet (h : NoStop line data x y) : (y.s && !y.d && x.s) = false := by
  have s := h.s
  revert s
  cases x.s <;> cases y.s <;> cases y.d <;> simp

end

end LineFilter

end Rockling
