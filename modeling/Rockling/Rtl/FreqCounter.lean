import Rockling.Lib.Clocked
import Rockling.Lib.SinceLast
import Mathlib.Data.BitVec
import Mathlib.Order.Interval.Finset.Nat
import Mathlib.Tactic.IntervalCases

/-!
# The frequency counter

`FrequencyCounter` of `rtl/freq_counter.py`. While enabled it counts system clocks in `elapse` and
rising edges of the sampled signal in `cycles`; `elapse` wrapping to 0 clears both.

The register `sig_prev` is frozen while the counter is disabled or being reset, so an edge seen in
the first counted clock after such a pause may be an old one, and one that fell into the pause is
missed. `Window` collects the clocks a measurement consists of; the count is off by at most the
number of its clocks that follow a clock that was not counted.
-/

namespace Rockling

/-- The inputs of one clock: the sampled signal, the `reset` pulse and the `disable` level. -/
structure FreqIn where
  sig : Bool
  reset : Bool
  disable : Bool

/-- The registers of the counter. -/
structure FreqCounter where
  elapse : BitVec 32
  cycles : BitVec 32
  sigPrev : Bool
  deriving DecidableEq, Repr

namespace FreqCounter

/-- The registers at power-up. -/
def powerUp : FreqCounter := ⟨0, 0, false⟩

/-- One clock of the counter. -/
def step (c : FreqCounter) (i : FreqIn) : FreqCounter :=
  let elapseNext := c.elapse + 1
  let cyclesNext := c.cycles + 1
  let sigRisingEdge := i.sig && !c.sigPrev
  if i.disable then c
  else if i.reset then { c with elapse := 0, cycles := 0 }
  else
    { elapse := elapseNext
      cycles := if elapseNext = 0 then 0 else if sigRisingEdge then cyclesNext else c.cycles
      sigPrev := i.sig }

/-- A clock is counted. -/
def counted (i : FreqIn) : Bool := !i.disable && !i.reset

/-- A clock zeroes the counters: a reset pulse taken while enabled, or a counted clock on which
`elapse` wraps. -/
def zeroes (c : FreqCounter) (i : FreqIn) : Bool :=
  !i.disable && (i.reset || c.elapse + 1 == 0)

variable (r : ClockedRun step) (before : Bool)

/-- The signal at the system clock before `k`; `before` is its value before power-up. -/
def sigBefore : ℕ → Bool
  | 0 => before
  | k + 1 => (r.inp k).sig

/-- The system clock before `k` was counted. -/
def countedBefore : ℕ → Bool
  | 0 => false
  | k + 1 => counted (r.inp k)

/-- The window at clock `t`: the counted clocks since the last one that zeroed the counters. -/
def Window (t : ℕ) : Finset ℕ :=
  {k ∈ Finset.range t | counted (r.inp k) = true ∧
    ∀ z ∈ Finset.range t, k ≤ z → zeroes (r.st z) (r.inp z) = false}

/-- The true rising edges in the window: the signal is 1 and was 0 at the previous system clock. -/
def edges (t : ℕ) : Finset ℕ :=
  {k ∈ Window r t | (r.inp k).sig = true ∧ sigBefore r before k = false}

/-- The clocks of the window whose previous system clock was not counted. -/
def gaps (t : ℕ) : Finset ℕ := {k ∈ Window r t | countedBefore r k = false}

/-! ## One clock of the window -/

section Succ

variable {r : ClockedRun step} {before : Bool} {t : ℕ}

theorem not_mem_window : t ∉ Window r t := not_mem_sinceLast

/-- A zeroing clock empties the window. -/
theorem window_zeroes (h : zeroes (r.st t) (r.inp t) = true) : Window r (t + 1) = ∅ :=
  sinceLast_restart h

/-- A counted clock that does not wrap joins the window. -/
theorem window_counted (hc : counted (r.inp t) = true)
    (h : zeroes (r.st t) (r.inp t) = false) : Window r (t + 1) = insert t (Window r t) :=
  sinceLast_counted hc h

/-- A clock that is neither counted nor zeroing leaves the window alone. -/
theorem window_paused (hc : counted (r.inp t) = false)
    (h : zeroes (r.st t) (r.inp t) = false) : Window r (t + 1) = Window r t :=
  sinceLast_idle hc h

theorem edges_eq_of_window (h : Window r (t + 1) = Window r t) :
    edges r before (t + 1) = edges r before t := by
  simp only [edges, h]

theorem gaps_eq_of_window (h : Window r (t + 1) = Window r t) : gaps r (t + 1) = gaps r t := by
  simp only [gaps, h]

theorem card_edges_counted (h : Window r (t + 1) = insert t (Window r t)) :
    (edges r before (t + 1)).card = (edges r before t).card +
      if (r.inp t).sig = true ∧ sigBefore r before t = false then 1 else 0 := by
  have hmem : t ∉ edges r before t := fun hm => not_mem_window (Finset.mem_filter.mp hm).1
  simp only [edges, h, Finset.filter_insert]
  split_ifs with he
  · exact Finset.card_insert_of_notMem hmem
  · rfl

theorem card_gaps_counted (h : Window r (t + 1) = insert t (Window r t)) :
    (gaps r (t + 1)).card = (gaps r t).card + if countedBefore r t = false then 1 else 0 := by
  have hmem : t ∉ gaps r t := fun hm => not_mem_window (Finset.mem_filter.mp hm).1
  simp only [gaps, h, Finset.filter_insert]
  split_ifs with he
  · exact Finset.card_insert_of_notMem hmem
  · rfl

end Succ

/-! ## The invariant -/

/-- What ties the registers at clock `t` to the window. -/
structure Tracks (r : ClockedRun step) (before : Bool) (t : ℕ) : Prop where
  elapse : (r.st t).elapse.toNat = (Window r t).card
  prev : countedBefore r t = true → (r.st t).sigPrev = sigBefore r before t
  cycles_le : (r.st t).cycles.toNat ≤ (Window r t).card
  upper : (r.st t).cycles.toNat ≤ (edges r before t).card + (gaps r t).card
  lower : (edges r before t).card ≤ (r.st t).cycles.toNat + (gaps r t).card

section Tracks

variable {r : ClockedRun step} {before : Bool} {t : ℕ}

/-- A zeroing clock leaves both counters at 0. -/
theorem step_zeroes {c : FreqCounter} {i : FreqIn} (h : zeroes c i = true) :
    (c.step i).elapse = 0 ∧ (c.step i).cycles = 0 := by
  simp only [zeroes, Bool.and_eq_true, Bool.not_eq_true', Bool.or_eq_true, beq_iff_eq] at h
  obtain ⟨hd, hr | hw⟩ := h
  · simp [step, hd, hr]
  · simp only [step, hd, hw, if_true, Bool.false_eq_true, if_false]
    split_ifs <;> exact ⟨rfl, rfl⟩

/-- A counted clock that does not wrap. -/
theorem step_counted {c : FreqCounter} {i : FreqIn} (hc : counted i = true)
    (h : zeroes c i = false) :
    (c.step i).elapse = c.elapse + 1 ∧ c.elapse + 1 ≠ 0 ∧
      (c.step i).cycles = if (i.sig && !c.sigPrev) = true then c.cycles + 1 else c.cycles := by
  simp only [counted, Bool.and_eq_true, Bool.not_eq_true'] at hc
  have hne : c.elapse + 1 ≠ 0 := by simpa [zeroes, hc.1, hc.2] using h
  refine ⟨by simp [step, hc.1, hc.2], hne, ?_⟩
  simp only [step, hc.1, hc.2, if_neg hne, Bool.false_eq_true, if_false]

/-- The sample register after a counted clock. -/
theorem step_sigPrev {c : FreqCounter} {i : FreqIn} (hc : counted i = true) :
    (c.step i).sigPrev = i.sig := by
  simp only [counted, Bool.and_eq_true, Bool.not_eq_true'] at hc
  simp [step, hc.1, hc.2]

/-- A clock that is neither counted nor zeroing is disabled. -/
theorem step_paused {c : FreqCounter} {i : FreqIn} (hc : counted i = false)
    (h : zeroes c i = false) : c.step i = c := by
  cases hd : i.disable
  · simp only [counted, hd, Bool.not_false, Bool.true_and, Bool.not_eq_false'] at hc
    simp [zeroes, hd, hc] at h
  · simp [step, hd]

theorem Tracks.zero (h0 : r.st 0 = powerUp) : Tracks r before 0 := by
  have hw : Window r 0 = ∅ := rfl
  constructor <;> simp [h0, powerUp, hw, countedBefore, edges]

theorem Tracks.succ (h : Tracks r before t) : Tracks r before (t + 1) := by
  have hprev : countedBefore r (t + 1) = true →
      (r.st (t + 1)).sigPrev = sigBefore r before (t + 1) := by
    intro hc
    rw [r.next]
    exact step_sigPrev hc
  cases hz : zeroes (r.st t) (r.inp t) with
  | true =>
    have hw := window_zeroes hz
    obtain ⟨he, hc⟩ := step_zeroes hz
    rw [← r.next] at he hc
    constructor <;> simp_all [edges, gaps]
  | false =>
    cases hc : counted (r.inp t) with
    | false =>
      have hw := window_paused hc hz
      have hst : r.st (t + 1) = r.st t := by rw [r.next, step_paused hc hz]
      have hed : edges r before (t + 1) = edges r before t := edges_eq_of_window hw
      have hga := gaps_eq_of_window hw
      refine ⟨?_, hprev, ?_, ?_, ?_⟩
      · rw [hst, hw, h.elapse]
      · rw [hst, hw]
        exact h.cycles_le
      · rw [hst, hed, hga]
        exact h.upper
      · rw [hst, hed, hga]
        exact h.lower
    | true =>
      have hw := window_counted hc hz
      obtain ⟨he, hne, hcy⟩ := step_counted hc hz
      rw [← r.next] at he hcy
      have hcard : (Window r (t + 1)).card = (Window r t).card + 1 := by
        rw [hw, Finset.card_insert_of_notMem not_mem_window]
      have hed : (edges r before (t + 1)).card = _ := card_edges_counted hw
      have hga := card_gaps_counted hw
      have helapse : (r.st (t + 1)).elapse.toNat = (r.st t).elapse.toNat + 1 := by
        rw [he]
        bv_omega
      -- `cycles` never exceeds `elapse`, so it does not wrap here either
      have hcycles : (r.st (t + 1)).cycles.toNat = (r.st t).cycles.toNat +
          if ((r.inp t).sig && !(r.st t).sigPrev) = true then 1 else 0 := by
        have hle := h.cycles_le
        have hel := h.elapse
        have hlt := (r.st (t + 1)).elapse.isLt
        rw [hcy]
        split_ifs
        · bv_omega
        · rfl
      have hup := h.upper
      have hlo := h.lower
      have hle := h.cycles_le
      have hel := h.elapse
      refine ⟨by omega, hprev, ?_, ?_, ?_⟩
      · rw [hcycles, hcard]
        split_ifs <;> omega
      all_goals
        rw [hcycles, hed, hga]
        clear hcycles hed hga
        cases hcb : countedBefore r t with
        | false =>
          rw [if_pos rfl]
          split_ifs <;> omega
        | true =>
          -- the previous clock was counted, so the register holds its sample
          have hsig := h.prev hcb
          simp only [hsig, Bool.and_eq_true, Bool.not_eq_true']
          split_ifs <;> omega

theorem tracks (h0 : r.st 0 = powerUp) (t : ℕ) : Tracks r before t := by
  induction t with
  | zero => exact .zero h0
  | succ t ih => exact ih.succ

end Tracks

/-! ## A measurement -/

/-- The sequence of `tools/read_freq.py`: a reset pulse taken while enabled in clock `z`, `n` clocks
of counting, and then a pause that lasts until the registers are read in clock `t`. -/
structure Measurement (r : ClockedRun step) (z n t : ℕ) : Prop where
  reset : (r.inp z).reset = true
  enabled : (r.inp z).disable = false
  run : ∀ k, z < k → k ≤ z + n → counted (r.inp k) = true
  pause : ∀ k, z + n < k → k < t → (r.inp k).disable = true
  read : z + n < t

section Measurement

variable {r : ClockedRun step} {z n t : ℕ}

/-- `elapse` counts up from the reset, without wrapping if the counting phase fits into it. -/
theorem Measurement.elapse (h : Measurement r z n t) (hfits : n < 2 ^ 32) {j : ℕ} (hj : j ≤ n) :
    (r.st (z + 1 + j)).elapse.toNat = j := by
  induction j with
  | zero =>
    have hz : zeroes (r.st z) (r.inp z) = true := by simp [zeroes, h.enabled, h.reset]
    rw [Nat.add_zero, r.next, (step_zeroes hz).1]
    rfl
  | succ j ih =>
    have hprev := ih (by omega)
    have hc := h.run (z + 1 + j) (by omega) (by omega)
    have hnz : zeroes (r.st (z + 1 + j)) (r.inp (z + 1 + j)) = false := by
      simp only [counted, Bool.and_eq_true, Bool.not_eq_true'] at hc
      simp only [zeroes, hc.1, hc.2, Bool.not_false, Bool.true_and, Bool.false_or,
        beq_eq_false_iff_ne, ne_eq]
      intro hwrap
      bv_omega
    rw [show z + 1 + (j + 1) = z + 1 + j + 1 from rfl, r.next, (step_counted hc hnz).1]
    bv_omega

/-- The window of a measurement lies in its counting phase, also where `elapse` has wrapped. -/
theorem Measurement.window_subset (h : Measurement r z n t) :
    Window r t ⊆ Finset.Ioc z (z + n) := by
  have hread := h.read
  intro k hk
  simp only [Window, Finset.mem_filter, Finset.mem_range] at hk
  obtain ⟨hkt, hc, hz⟩ := hk
  refine Finset.mem_Ioc.mpr ⟨Nat.lt_of_not_le fun hkz => ?_, Nat.le_of_not_lt fun hkn => ?_⟩
  · have hzero := hz z (by omega) hkz
    simp [zeroes, h.enabled, h.reset] at hzero
  · have hd := h.pause k hkn hkt
    simp [counted, hd] at hc

/-- The window of a measurement that does not wrap is the counting phase. -/
theorem Measurement.window (h : Measurement r z n t) (hfits : n < 2 ^ 32) :
    Window r t = Finset.Ioc z (z + n) := by
  have hread := h.read
  refine h.window_subset.antisymm fun k hk => ?_
  obtain ⟨hzk, hkn⟩ := Finset.mem_Ioc.mp hk
  simp only [Window, Finset.mem_filter, Finset.mem_range]
  refine ⟨by omega, h.run k hzk hkn, fun y hyt hky => ?_⟩
  rcases Nat.lt_or_ge (z + n) y with hy | hy
  · simp [zeroes, h.pause y hy hyt]
  · have hc := h.run y (by omega) hy
    have he : (r.st y).elapse.toNat = y - (z + 1) := by
      have hj := h.elapse hfits (j := y - (z + 1)) (by omega)
      rwa [show z + 1 + (y - (z + 1)) = y by omega] at hj
    simp only [counted, Bool.and_eq_true, Bool.not_eq_true'] at hc
    simp only [zeroes, hc.1, hc.2, Bool.not_false, Bool.true_and, Bool.false_or,
      beq_eq_false_iff_ne, ne_eq]
    intro hwrap
    bv_omega

/-- Only the first clock of the counting phase follows a clock that was not counted. -/
theorem Measurement.gaps_le (h : Measurement r z n t) : (gaps r t).card ≤ 1 := by
  refine Finset.card_le_one.mpr fun x hx y hy => ?_
  have hfirst : ∀ k, k ∈ gaps r t → k = z + 1 := by
    intro k hk
    obtain ⟨hkw, hb⟩ := Finset.mem_filter.mp hk
    have hphase := Finset.mem_Ioc.mp (h.window_subset hkw)
    by_contra hne
    obtain ⟨m, rfl⟩ : ∃ m, k = m + 1 := ⟨k - 1, by omega⟩
    have hc := h.run m (by omega) (by omega)
    rw [countedBefore, hc] at hb
    cases hb
  rw [hfirst x hx, hfirst y hy]

end Measurement

/-- Counting accuracy. From power-up, on every input, `elapse` is the number of clocks in the window
and `cycles` differs from the number of true rising edges in it by at most the number of its clocks
whose previous system clock was not counted. A window without such a clock is exact, and a reset,
run, pause, read measurement is off by at most one edge; its window is the whole counting phase if
that fits into `elapse`. -/
theorem counting_accuracy (inp : ℕ → FreqIn) (before : Bool) (t : ℕ) :
    let r := ClockedRun.ofInputs step powerUp inp
    (r.st t).elapse.toNat = (Window r t).card ∧
    (((r.st t).cycles.toNat : ℤ) - (edges r before t).card).natAbs ≤ (gaps r t).card ∧
    (gaps r t = ∅ → (r.st t).cycles.toNat = (edges r before t).card) ∧
    ∀ z n, Measurement r z n t →
      (((r.st t).cycles.toNat : ℤ) - (edges r before t).card).natAbs ≤ 1 ∧
      (n < 2 ^ 32 → (r.st t).elapse.toNat = n ∧ Window r t = Finset.Ioc z (z + n)) := by
  intro r
  have h : Tracks r before t := tracks rfl t
  have hup := h.upper
  have hlo := h.lower
  refine ⟨h.elapse, by omega, fun hg => ?_, fun z n hm => ⟨?_, fun hfits => ⟨?_, ?_⟩⟩⟩
  · rw [hg, Finset.card_empty] at hup hlo
    omega
  · have hg := hm.gaps_le
    omega
  · rw [h.elapse, hm.window hfits, Nat.card_Ioc]
    omega
  · exact hm.window hfits

/-- A signal of period two, reset in clock 2, counted for six clocks and paused. -/
def sampleMeasurement (k : ℕ) : FreqIn := ⟨k % 2 == 0, k == 2, 8 < k⟩

theorem counting_accuracy_sample :
    (((ClockedRun.ofInputs step powerUp sampleMeasurement).st 12).cycles.toNat : ℤ) -
        (edges (.ofInputs step powerUp sampleMeasurement) false 12).card ≤ 1 ∧
      ((ClockedRun.ofInputs step powerUp sampleMeasurement).st 12).elapse.toNat = 6 := by
  have h := (counting_accuracy sampleMeasurement false 12).2.2.2 2 6
    ⟨rfl, rfl, fun k hk hk' => by interval_cases k <;> rfl,
      fun k hk hk' => by interval_cases k <;> rfl, by decide⟩
  exact ⟨by omega, (h.2 (by decide)).1⟩

end FreqCounter

end Rockling
