import Rockling.Lib.Oscillation
import Rockling.Rtl.FreqBound
import Rockling.Rtl.FreqCtrl
import Mathlib.Data.Rat.Floor

/-!
# What a measurement reports

`tools/read_freq.py` resets a counter, lets it run, pauses it and reads its registers;
`dac_test_loop` of `custom-bios/main.c` resets it and reads `cycles` while it runs. How near these
come to the frequency of an oscillation at the input, which need not be steady
(`frequency_reported`). A run that is longer than `elapse` can count reports on its end.
-/

namespace Rockling

namespace FreqUnit

open FreqCounter (counted countedBefore zeroes Window edges gaps sigBefore exactFreq clockRate
  clockRate_pos)

/-! ## A reset and what follows -/

/-- The counter is reset and enabled by a write in clock `a`, and `ctrl` is left alone until `b`. -/
structure Running (inp : ℕ → CtrlIn) (a b : ℕ) : Prop where
  reset : resetAt inp (a + 1) = true
  enabled : disableAt inp (a + 1) = false
  alone : ∀ k, a < k → k < b → (inp k).write = none

/-- The script: `ctrl` is written 1 in clock `a` and 2 in clock `b`, and not again until `e`. -/
structure Session (inp : ℕ → CtrlIn) (a b e : ℕ) : Prop where
  reset : (inp a).write = some 1
  alone : ∀ k, a < k → k < b → (inp k).write = none
  pause : (inp b).write = some 2
  rest : ∀ k, b < k → k < e → (inp k).write = none
  order : a < b

section Running

variable {inp : ℕ → CtrlIn} {a b t : ℕ}

/-- The pulse lasts one clock. -/
theorem Running.no_reset (h : Running inp a b) (low : a + 1 < t) (high : t ≤ b) :
    resetAt inp t = false := by
  obtain ⟨k, rfl⟩ : ∃ k, t = k + 1 := ⟨t - 1, by omega⟩
  rw [resetAt, h.alone k (by omega) (by omega)]
  rfl

/-- The level stays. -/
theorem Running.not_disabled (h : Running inp a b) (low : a < t) (high : t ≤ b) :
    disableAt inp t = false := by
  induction t, low using Nat.le_induction with
  | base => exact h.enabled
  | succ t low ih =>
    rw [disableAt, h.alone t low (by omega)]
    exact ih (by omega)

/-- The counters in a run of the peripheral. -/
def counter (inp : ℕ → CtrlIn) : ClockedRun FreqCounter.step where
  st t := ((run inp).st t).cnt
  inp t := ⟨(inp t).sig, resetAt inp t, disableAt inp t⟩
  next _ := cnt_next

theorem Running.counted (h : Running inp a b) (low : a + 1 < t) (high : t ≤ b) :
    counted ((counter inp).inp t) = true := by
  change (!disableAt inp t && !resetAt inp t) = true
  rw [h.no_reset low high, h.not_disabled (by omega) high]
  rfl

/-- The window is what has been counted since the reset, or since the last time that `elapse` has
come round to 0. -/
theorem Running.window (h : Running inp a b) (low : a + 1 < t) (high : t ≤ b + 1) :
    ∃ z, a < z ∧ z < t ∧ Window (counter inp) t = Finset.Ioo z t := by
  have start : zeroes ((counter inp).st (a + 1)) ((counter inp).inp (a + 1)) = true := by
    change (!disableAt inp (a + 1) && (resetAt inp (a + 1) || _)) = true
    rw [h.enabled, h.reset]
    rfl
  obtain ⟨z, le, lt, -, window⟩ := @sinceLast_interval
    (fun k => FreqCounter.counted ((counter inp).inp k))
    (fun k => zeroes ((counter inp).st k) ((counter inp).inp k)) t (a + 1) start low
    fun k low' high' => h.counted low' (by omega)
  exact ⟨z, le, lt, window⟩

/-- The clocks counted since the reset, up to where `elapse` comes round. -/
theorem Running.elapse (h : Running inp a b) (low : a + 1 < t) (high : t ≤ b + 1) :
    ((run inp).st t).cnt.elapse.toNat = (t - a - 2) % 2 ^ 32 := by
  have start : takenAt inp (a + 1) = true := by
    rw [takenAt, h.reset, h.enabled]
    rfl
  obtain ⟨z, le, lt, restarts, interval⟩ := @sinceLast_interval (fun k => !disableAt inp k)
    (takenAt inp) t (a + 1) start low fun k low' high' => by
      rw [h.not_disabled (by omega) (by omega)]
      rfl
  -- the only reset that is taken is the one written in clock `a`
  have first : z = a + 1 := by
    by_contra other
    rw [takenAt, h.no_reset (by omega) (by omega)] at restarts
    cases restarts
  have card : (sinceTaken inp t).card = t - a - 2 := by
    rw [sinceTaken, interval, Nat.card_Ioo, first]
    omega
  rw [elapse_since_taken, BitVec.toNat_ofNat, card]

/-- Only the first counted clock comes after one that was not. -/
theorem Running.gaps_le (h : Running inp a b) (low : a + 1 < t) (high : t ≤ b + 1) :
    (gaps (counter inp) t).card ≤ 1 := by
  obtain ⟨z, le, lt, window⟩ := h.window low high
  have first : gaps (counter inp) t ⊆ {a + 2} := by
    intro k mem
    obtain ⟨inside, before⟩ := Finset.mem_filter.mp mem
    rw [window, Finset.mem_Ioo] at inside
    obtain ⟨m, rfl⟩ : ∃ m, k = m + 1 := ⟨k - 1, by omega⟩
    refine Finset.mem_singleton.mpr ?_
    by_contra other
    rw [countedBefore, h.counted (by omega) (by omega)] at before
    cases before
  exact (Finset.card_le_card first).trans (Finset.card_singleton _).le

variable {K : Type*} [Field K] [LinearOrder K] [IsStrictOrderedRing K] [FloorRing K]

/-- **Counting.** While the counter runs, `cycles` is less than two off from the growth of the
phase over the clocks in `elapse`. -/
theorem Running.cycles_near (h : Running inp a b) (low : a + 1 < t) (high : t ≤ b + 1)
    (o : Oscillation K) (wave : ∀ k, a < k → k < t → (inp k).sig = o.level k) :
    |(((run inp).st t).cnt.cycles.toNat : K) - (o.phase (t - 1) -
      o.phase (t - 1 - ((run inp).st t).cnt.elapse.toNat))| < 2 := by
  obtain ⟨z, le, lt, window⟩ := h.window low high
  have tracks : FreqCounter.Tracks (counter inp) false t := FreqCounter.tracks rfl t
  have elapse : ((run inp).st t).cnt.elapse.toNat = t - 1 - z := by
    have card := tracks.elapse
    rw [window, Nat.card_Ioo] at card
    exact card.trans (by omega)
  have start : t - 1 - ((run inp).st t).cnt.elapse.toNat = z := by omega
  -- every clock of the window follows one in which the wave is known, so no edge is an old one
  have seen : edges (counter inp) false t = o.rises z (t - 1) := by
    ext k
    simp only [edges, Oscillation.rises, window, Finset.mem_filter, Finset.mem_Ioo, Finset.mem_Ioc]
    have inside : z < k ∧ k < t ↔ z < k ∧ k ≤ t - 1 := by omega
    rw [inside]
    refine and_congr_right fun bounds => ?_
    have after := bounds.1
    have before := bounds.2
    obtain ⟨m, rfl⟩ : ∃ m, k = m + 1 := ⟨k - 1, by omega⟩
    rw [sigBefore, Nat.add_sub_cancel, ← wave m (by omega) (by omega),
      ← wave (m + 1) (by omega) (by omega)]
    exact Iff.rfl
  -- less than one off because of the phases at both ends, and one more for the first counted clock
  have near := o.card_rises_near (show z ≤ t - 1 by omega)
  have gaps := h.gaps_le low high
  have upper := tracks.upper
  have lower := tracks.lower
  rw [seen] at upper lower
  have upper' : (((run inp).st t).cnt.cycles.toNat : K) ≤ (o.rises z (t - 1)).card + 1 := by
    exact_mod_cast upper.trans (by omega)
  have lower' : ((o.rises z (t - 1)).card : K) ≤ ((run inp).st t).cnt.cycles.toNat + 1 := by
    exact_mod_cast lower.trans (Nat.add_le_add_left gaps _)
  rw [start]
  rw [abs_lt] at near ⊢
  constructor <;> linarith [near.1, near.2]

end Running

/-! ## The script -/

section Session

variable {inp : ℕ → CtrlIn} {a b c e : ℕ}

theorem Session.running (h : Session inp a b e) : Running inp a b where
  reset := by rw [resetAt, h.reset]; rfl
  enabled := by rw [disableAt, h.reset]; rfl
  alone := h.alone

/-- From the second write on the counter is paused. -/
theorem Session.disabled (h : Session inp a b e) (low : b < c) (high : c ≤ e) :
    disableAt inp c = true := by
  induction c, low using Nat.le_induction with
  | base => rw [disableAt, h.pause]; rfl
  | succ c low ih =>
    rw [disableAt, h.rest c low (by omega)]
    exact ih (by omega)

/-- What is read after that is what was counted before. -/
theorem Session.frozen (h : Session inp a b e) (low : b < c) (high : c ≤ e) :
    ((run inp).st c).cnt = ((run inp).st (b + 1)).cnt :=
  FreqCounter.frozen (counter inp) low fun _ after before => h.disabled after (by omega)

end Session

variable {K : Type*} [Field K] [LinearOrder K] [IsStrictOrderedRing K]

/-- A count that is less than two off, as a frequency. -/
theorem rate_near {x y n rate : K} (hn : 0 < n) (hr : 0 < rate) (near : |x - y| < 2) :
    |x / (n / rate) - y / n * rate| < 2 / (n / rate) := by
  have time : 0 < n / rate := div_pos hn hr
  have same : x / (n / rate) - y / n * rate = (x - y) / (n / rate) := by
    field_simp
  rw [same, abs_div, abs_of_pos time]
  exact (div_lt_div_iff_of_pos_right time).mpr near

/-- The mean frequency in Hertz over the `n` clocks up to clock `b`. -/
def meanFreq (o : Oscillation K) (n b : ℕ) : K :=
  (o.phase b - o.phase (b - n)) / n * (clockRate : ℚ)

variable [FloorRing K]

/-- **The frequency reported.** The script runs on a counter in any state and reads `elapse` in
clock `c` and `cycles` in clock `d`, with an oscillation at its input that has no half period
shorter than a clock. `elapse` is the number of clocks between its writes, modulo `2 ^ 32`; where
that is 0, there is no report; otherwise the frequency reported is less than two counts off from the
mean frequency of the oscillation over the clocks that were counted. In every clock of the count,
`cycles` is less than two off from the periods of the oscillation in the clocks of `elapse`. -/
theorem frequency_reported (inp : ℕ → CtrlIn) {a b c d : ℕ} (session : Session inp a b (max c d))
    (hc : b < c) (hd : b < d) (o : Oscillation K)
    (wave : ∀ k, a < k → k ≤ b → (inp k).sig = o.level k) :
    let n : ℕ := (b - a - 1) % 2 ^ 32
    let report := exactFreq ((run inp).st c).cnt.elapse ((run inp).st d).cnt.cycles
    (report = none ↔ n = 0) ∧
    (∀ r, report = some r → r.elapseSeconds = n / clockRate ∧
      |(r.freq : K) - meanFreq o n b| < 2 / (r.elapseSeconds : K)) ∧
    ∀ t, a + 1 < t → t ≤ b + 1 →
      |(((run inp).st t).cnt.cycles.toNat : K) - (o.phase (t - 1) -
        o.phase (t - 1 - ((run inp).st t).cnt.elapse.toNat))| < 2 := by
  intro n report
  have running := session.running
  have order := session.order
  have near (t : ℕ) (low : a + 1 < t) (high : t ≤ b + 1) :=
    running.cycles_near low high o fun k after before => wave k after (by omega)
  have elapse : ((run inp).st (b + 1)).cnt.elapse.toNat = n := by
    rw [running.elapse (by omega) le_rfl]
    exact congrArg (· % 2 ^ 32) (by omega)
  have rate := clockRate_pos
  have shown : report = if (n / clockRate : ℚ) = 0 then none else
      some ⟨((run inp).st (b + 1)).cnt.cycles.toNat / (n / clockRate),
        ((run inp).st (b + 1)).cnt.cycles.toNat, n / clockRate⟩ := by
    change exactFreq _ _ = _
    rw [session.frozen hc (le_max_left c d), session.frozen hd (le_max_right c d), exactFreq,
      FreqCounter.getFreqBy, elapse]
    rfl
  have zero : (n / clockRate : ℚ) = 0 ↔ n = 0 := by
    rw [div_eq_zero_iff, or_iff_left rate.ne', Nat.cast_eq_zero]
  refine ⟨?_, fun r reported => ?_, near⟩
  · rw [shown, ite_eq_left_iff, ← zero]
    simp only [reduceCtorEq, imp_false, not_not]
  · rw [shown, Option.ite_none_left_eq_some] at reported
    obtain ⟨some, reported⟩ := reported
    obtain rfl := Option.some.inj reported
    refine ⟨rfl, ?_⟩
    have counted := near (b + 1) (by omega) le_rfl
    rw [elapse, Nat.add_sub_cancel] at counted
    have pos : 0 < (n : K) := Nat.cast_pos.mpr (Nat.pos_of_ne_zero (mt zero.mpr some))
    have fast : 0 < ((clockRate : ℚ) : K) := Rat.cast_pos.mpr rate
    have off := rate_near pos fast counted
    rw [meanFreq]
    push_cast
    exact off

theorem quarter_nonneg : (0 : ℚ) ≤ 1 / 4 := by norm_num

theorem quarter_slow : (1 / 4 : ℚ) ≤ 1 / 2 := by norm_num

/-- A quarter of the clock rate. -/
def quarter : Oscillation ℚ := .even (1 / 4) 0 quarter_nonneg quarter_slow

/-- A script that counts for eight clocks. -/
def shortSession (k : ℕ) : CtrlIn :=
  ⟨quarter.level k, if k = 0 then some 1 else if k = 9 then some 2 else none⟩

theorem frequency_reported_quarter : ∃ r,
    exactFreq ((run shortSession).st 10).cnt.elapse ((run shortSession).st 11).cnt.cycles = some r ∧
      |r.freq - 3000000| < 2 / r.elapseSeconds := by
  have alone (k : ℕ) (other : k ≠ 0) (other' : k ≠ 9) : (shortSession k).write = none := by
    change (if k = 0 then _ else if k = 9 then _ else none) = none
    rw [if_neg other, if_neg other']
  have session : Session shortSession 0 9 (max 10 11) :=
    ⟨rfl, fun k low high => alone k (by omega) (by omega), rfl,
      fun k low high => alone k (by omega) (by omega), by decide⟩
  obtain ⟨none_iff, reports, -⟩ := frequency_reported shortSession session (by decide) (by decide)
    quarter fun _ _ _ => rfl
  obtain ⟨r, reported⟩ := Option.ne_none_iff_exists'.mp (mt none_iff.mp (by decide))
  obtain ⟨-, near⟩ := reports r reported
  have mean : meanFreq quarter ((9 - 0 - 1) % 2 ^ 32) 9 = 3000000 := by
    norm_num [meanFreq, quarter, Oscillation.even, clockRate]
  rw [mean] at near
  exact ⟨r, reported, near⟩

end FreqUnit

end Rockling
