import Rockling.Lib.Rounding
import Rockling.Rtl.FreqCounter
import Mathlib.Tactic.FieldSimp

/-!
# The time base of the frequency counter

A rising edge needs a sample 0 and then a sample 1, so at most every other counted clock is one:
`cycles` stays below half of `elapse`, up to the edge of the last sample. The bound is inductive
once it says which sample that was. `cycles` therefore never overflows, and the frequency that
`tools/read_freq.py` computes from the two counters is at most half the system clock, up to half a
count. What it reports may be a little more, since it rounds both of its divisions.
-/

namespace Rockling

namespace FreqCounter

/-! ## The report -/

/-- The system clock rate in `get_freq`, `12e6`. -/
def clockRate : ℚ := 12000000

theorem clockRate_pos : 0 < clockRate := by norm_num [clockRate]

/-- What `get_freq` returns. -/
structure FreqReport where
  freq : ℚ
  cycles : ℕ
  elapseSeconds : ℚ
  deriving DecidableEq

/-- `get_freq` of `tools/read_freq.py` on the values the two reads return, where `rounded` is what a
division does with its exact quotient. `none` is the `ZeroDivisionError` of a counter that has not
counted a clock. -/
def getFreqBy (rounded : ℚ → ℚ) (regElapse regCycles : BitVec 32) : Option FreqReport :=
  let elapse := regElapse.toNat
  let cycles := regCycles.toNat
  let elapseSeconds := rounded (elapse / clockRate)
  if elapseSeconds = 0 then none
  else some ⟨rounded (cycles / elapseSeconds), cycles, elapseSeconds⟩

/-- `get_freq` as it is. A Python float has 53 significant digits, and neither quotient is anywhere
near the ends of its exponents. -/
def getFreq : BitVec 32 → BitVec 32 → Option FreqReport := getFreqBy (toPrecision 53)

/-- `get_freq` in exact arithmetic. -/
def exactFreq : BitVec 32 → BitVec 32 → Option FreqReport := getFreqBy id

/-! ## The bound -/

/-- At most every other clock of the time base was an edge; the remembered sample says whether the
last one can have been. -/
def Paced (c : FreqCounter) : Prop := 2 * c.cycles.toNat ≤ c.elapse.toNat + c.sigPrev.toNat

/-- The clock counts a rising edge. -/
def countsEdge (c : FreqCounter) (i : FreqIn) : Bool := counted i && (i.sig && !c.sigPrev)

theorem Paced.powerUp : FreqCounter.powerUp.Paced := by
  unfold Paced
  decide

/-- What the bound says without the remembered sample. -/
theorem Paced.le {c : FreqCounter} (h : c.Paced) : 2 * c.cycles.toNat ≤ c.elapse.toNat + 1 := by
  have hprev := c.sigPrev.toNat_le
  unfold Paced at h
  omega

/-- Unless it zeroes the counters, a clock adds the edge it counts to `cycles` without wrapping. -/
theorem Paced.cycles_step {c : FreqCounter} {i : FreqIn} (h : c.Paced)
    (hz : zeroes c i = false) :
    (c.step i).cycles.toNat = c.cycles.toNat + (countsEdge c i).toNat := by
  cases hc : counted i with
  | false => rw [step_paused hc hz, countsEdge, hc, Bool.false_and, Bool.toNat_false, Nat.add_zero]
  | true =>
    obtain ⟨-, -, hcy⟩ := step_counted hc hz
    rw [hcy, countsEdge, hc, Bool.true_and]
    cases i.sig && !c.sigPrev with
    | false => simp
    | true =>
      have hroom : c.cycles.toNat + 1 < 2 ^ 32 := by
        have hle := h.le
        have hlt := c.elapse.isLt
        omega
      simp only [if_true, Bool.toNat_true]
      bv_omega

/-- Every clock keeps the bound: a reset and a wrap of `elapse` restart it, a pause changes nothing,
and an edge needs a remembered sample 0. -/
theorem Paced.step {c : FreqCounter} {i : FreqIn} (h : c.Paced) : (c.step i).Paced := by
  cases hz : zeroes c i with
  | true =>
    obtain ⟨he, hc⟩ := step_zeroes hz
    unfold Paced
    rw [he, hc]
    exact Nat.zero_le _
  | false =>
    cases hc : counted i with
    | false =>
      rw [step_paused hc hz]
      exact h
    | true =>
      obtain ⟨he, hne, -⟩ := step_counted hc hz
      have helapse : (c.step i).elapse.toNat = c.elapse.toNat + 1 := by
        rw [he]
        bv_omega
      have hcycles := h.cycles_step hz
      unfold Paced at h ⊢
      rw [helapse, hcycles, step_sigPrev hc, countsEdge, hc]
      revert h
      cases i.sig <;> cases c.sigPrev <;> simp <;> omega

/-- Every state a counter can reach from power-up is paced. -/
theorem paced (inp : ℕ → FreqIn) (t : ℕ) :
    ((ClockedRun.ofInputs FreqCounter.step powerUp inp).st t).Paced :=
  ClockedRun.invariant_from _ (n := 0) Paced.powerUp (fun _ _ h => h.step) t (Nat.zero_le t)

/-- A disabled counter keeps its registers. -/
theorem frozen (r : ClockedRun FreqCounter.step) {t u : ℕ} (htu : t ≤ u)
    (hd : ∀ k, t ≤ k → k < u → (r.inp k).disable = true) : r.st u = r.st t := by
  induction u, htu using Nat.le_induction with
  | base => rfl
  | succ u htu ih =>
    rw [r.next, FreqCounter.step, hd u htu (Nat.lt_succ_self u), if_pos rfl]
    exact ih fun k hk hku => hd k hk (Nat.lt_succ_of_lt hku)

/-- The frequency of the counts of a paced state. -/
theorem Paced.quotient_le {c : FreqCounter} (h : c.Paced) (counted : 0 < c.elapse.toNat) :
    (c.cycles.toNat / (c.elapse.toNat / clockRate) : ℚ) ≤
      clockRate / 2 + 1 / 2 / (c.elapse.toNat / clockRate) := by
  have hle : (2 * c.cycles.toNat : ℚ) ≤ c.elapse.toNat + 1 := by exact_mod_cast h.le
  have hpos : (0 : ℚ) < c.elapse.toNat := Nat.cast_pos.mpr counted
  have hseconds : (0 : ℚ) < c.elapse.toNat / clockRate := div_pos hpos clockRate_pos
  calc (c.cycles.toNat / (c.elapse.toNat / clockRate) : ℚ)
      ≤ (c.elapse.toNat + 1) / 2 / (c.elapse.toNat / clockRate) := by
        gcongr
        linarith
    _ = clockRate / 2 + 1 / 2 / (c.elapse.toNat / clockRate) := by
        have hrate := clockRate_pos
        field_simp

/-- A report is only made of counters that have counted a clock. -/
theorem getFreqBy_some {rounded : ℚ → ℚ} (zero : rounded 0 = 0) {elapse cycles : BitVec 32}
    {report : FreqReport} (hr : getFreqBy rounded elapse cycles = some report) :
    0 < elapse.toNat ∧ report.freq = rounded (cycles.toNat / rounded (elapse.toNat / clockRate)) ∧
      report.elapseSeconds = rounded (elapse.toNat / clockRate) := by
  unfold getFreqBy at hr
  simp only [Option.ite_none_left_eq_some, Option.some.injEq] at hr
  obtain ⟨hne, rfl⟩ := hr
  refine ⟨Nat.pos_of_ne_zero fun h0 => hne ?_, rfl, rfl⟩
  rw [h0, Nat.cast_zero, zero_div, zero]

/-- The frequency of an exact report from a paced state. -/
theorem Paced.exactFreq_le {c : FreqCounter} (h : c.Paced) {report : FreqReport}
    (hr : exactFreq c.elapse c.cycles = some report) :
    report.freq ≤ clockRate / 2 + 1 / 2 / report.elapseSeconds := by
  obtain ⟨counted, freq, seconds⟩ := getFreqBy_some rfl hr
  rw [freq, seconds]
  exact h.quotient_le counted

/-- The frequency reported from a paced state. -/
theorem Paced.getFreq_le {c : FreqCounter} (h : c.Paced) {report : FreqReport}
    (hr : getFreq c.elapse c.cycles = some report) :
    report.freq ≤ (clockRate / 2 + 1 / 2 / (c.elapse.toNat / clockRate)) *
      ((1 + 1 / 2 ^ 53) / (1 - 1 / 2 ^ 53)) := by
  have zero : toPrecision 53 (0 : ℚ) = 0 := by simp [toPrecision, nearestEven]
  obtain ⟨counted, freq, -⟩ := getFreqBy_some zero hr
  have hpos : (0 : ℚ) < c.elapse.toNat := Nat.cast_pos.mpr counted
  have hseconds : (0 : ℚ) < c.elapse.toNat / clockRate := div_pos hpos clockRate_pos
  rw [freq]
  refine (toPrecision_div_le (by decide) (Nat.cast_nonneg _) hseconds).trans ?_
  exact mul_le_mul_of_nonneg_right (h.quotient_le counted) (by norm_num)

/-- The count never outruns its time base. From power-up, on every input, twice `cycles` is at most
`elapse + 1`; a clock that does not zero the counters adds the edge it counts to `cycles` as natural
numbers, so `cycles` never wraps on its own; and where a report is made of values read while the
counter is paused, their exact frequency is at most half the system clock rate and half a count, and
the one reported is so up to the rounding of its two divisions. -/
theorem cycles_within_elapse (inp : ℕ → FreqIn) (t : ℕ) :
    let r := ClockedRun.ofInputs step powerUp inp
    2 * (r.st t).cycles.toNat ≤ (r.st t).elapse.toNat + 1 ∧
    (zeroes (r.st t) (inp t) = false →
      (r.st (t + 1)).cycles.toNat =
        (r.st t).cycles.toNat + (countsEdge (r.st t) (inp t)).toNat) ∧
    ∀ u, t ≤ u → (∀ k, t ≤ k → k < u → (inp k).disable = true) →
      (∀ report, exactFreq (r.st t).elapse (r.st u).cycles = some report →
        report.freq ≤ clockRate / 2 + 1 / 2 / report.elapseSeconds) ∧
      ∀ report, getFreq (r.st t).elapse (r.st u).cycles = some report →
        report.freq ≤ (clockRate / 2 + 1 / 2 / ((r.st t).elapse.toNat / clockRate)) *
          ((1 + 1 / 2 ^ 53) / (1 - 1 / 2 ^ 53)) := by
  intro r
  have h : (r.st t).Paced := paced inp t
  refine ⟨h.le, fun hz => ?_, fun u htu hd => ?_⟩
  · rw [r.next]
    exact h.cycles_step hz
  · rw [frozen r htu hd]
    exact ⟨fun _ => h.exactFreq_le, fun _ => h.getFreq_le⟩

/-- Seven clocks of a signal of period two, which begin and end with a sample 1, and then a pause.
-/
def oddMeasurement (k : ℕ) : FreqIn := ⟨k % 2 == 0, false, 7 ≤ k⟩

/-- They are reported with `6857142.857142857` Hz, which is more than half the system clock and half
a count by the rounding of two divisions. -/
theorem rounded_above_half :
    let r := ClockedRun.ofInputs step powerUp oddMeasurement
    (∀ k, 7 ≤ k → (oddMeasurement k).disable = true) ∧
    (r.st 7).elapse.toNat = 7 ∧ (r.st 8).cycles.toNat = 4 ∧
    ∃ report, getFreq (r.st 7).elapse (r.st 8).cycles = some report ∧
      clockRate / 2 + 1 / 2 / ((r.st 7).elapse.toNat / clockRate) < report.freq ∧
      clockRate / 2 + 1 / 2 / report.elapseSeconds < report.freq := by
  intro r
  have helapse : (r.st 7).elapse = 7 := rfl
  have hcycles : (r.st 8).cycles = 4 := rfl
  refine ⟨fun k paused => decide_eq_true paused, rfl, rfl, ?_⟩
  rw [helapse, hcycles]
  refine ⟨⟨7362801078857143 / 1073741824, 4, 5509427563347919 / 9444732965739290427392⟩, ?_⟩
  decide +kernel

/-- The same seven clocks are within the bound that takes the rounding into account. -/
theorem cycles_within_elapse_sample :
    ∃ report, getFreq ((ClockedRun.ofInputs step powerUp oddMeasurement).st 7).elapse
        ((ClockedRun.ofInputs step powerUp oddMeasurement).st 8).cycles = some report ∧
      report.freq ≤ (clockRate / 2 + 1 / 2 / (7 / clockRate)) *
        ((1 + 1 / 2 ^ 53) / (1 - 1 / 2 ^ 53)) := by
  obtain ⟨report, hr⟩ : ∃ report,
      getFreq ((ClockedRun.ofInputs step powerUp oddMeasurement).st 7).elapse
        ((ClockedRun.ofInputs step powerUp oddMeasurement).st 8).cycles = some report :=
    ⟨⟨7362801078857143 / 1073741824, 4, 5509427563347919 / 9444732965739290427392⟩,
      by decide +kernel⟩
  have paused : ∀ k, 7 ≤ k → k < 8 → (oddMeasurement k).disable = true :=
    fun k after _ => decide_eq_true after
  exact ⟨report, hr,
    ((cycles_within_elapse oddMeasurement 7).2.2 8 (by decide) paused).2 report hr⟩

end FreqCounter

end Rockling
