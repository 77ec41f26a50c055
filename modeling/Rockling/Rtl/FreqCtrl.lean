import Rockling.Rtl.FreqCounter

/-!
# The control register of the frequency counter

`ctrl` of `FrequencyCounter` holds the level `disable` and the pulse `reset`. A write becomes
visible in the next clock; there `reset` is 1 for one clock if it was written 1, and `disable` has
the written value from there on.

The synchronous part of the counter tests `disable` first, so a reset pulse is taken only in a clock
with `disable = 0`. `elapse` counts from the last pulse that was taken (`elapse_since_taken`), which
need not be the last one written.
-/

namespace Rockling

/-- The register: the stored word, and the strobe that a write has just landed. -/
structure CtrlReg where
  storage : BitVec 2
  re : Bool
  deriving DecidableEq, Repr

namespace CtrlReg

/-- One clock of the register. -/
def step (c : CtrlReg) (w : Option (BitVec 2)) : CtrlReg :=
  match w with
  | some v => ⟨v, true⟩
  | none => ⟨c.storage, false⟩

/-- The field `reset`, a pulse. -/
def reset (c : CtrlReg) : Bool := c.re && c.storage.getLsbD 0

/-- The field `disable`. -/
def disable (c : CtrlReg) : Bool := c.storage.getLsbD 1

end CtrlReg

/-- The inputs of one clock: the sampled signal and the write to `ctrl`, if any. -/
structure CtrlIn where
  sig : Bool
  write : Option (BitVec 2)

/-- The peripheral: its control register and its counters. -/
structure FreqUnit where
  ctrl : CtrlReg
  cnt : FreqCounter
  deriving DecidableEq, Repr

namespace FreqUnit

/-- The peripheral at power-up. -/
def powerUp : FreqUnit := ⟨⟨0, false⟩, .powerUp⟩

/-- One clock of the peripheral. -/
def step (u : FreqUnit) (i : CtrlIn) : FreqUnit where
  ctrl := u.ctrl.step i.write
  cnt := u.cnt.step ⟨i.sig, u.ctrl.reset, u.ctrl.disable⟩

/-! ## What a history of writes says -/

/-- The word written in the clock before `k` had the reset bit set. -/
def resetAt (inp : ℕ → CtrlIn) : ℕ → Bool
  | 0 => false
  | k + 1 => ((inp k).write.map fun v => v.getLsbD 0).getD false

/-- The disable bit of the last word written before clock `k`. -/
def disableAt (inp : ℕ → CtrlIn) : ℕ → Bool
  | 0 => false
  | k + 1 => ((inp k).write.map fun v => v.getLsbD 1).getD (disableAt inp k)

/-- A reset that comes with `disable = 0`. -/
def takenAt (inp : ℕ → CtrlIn) (k : ℕ) : Bool := resetAt inp k && !disableAt inp k

/-- The clocks before `t` with `disable = 0` that follow the last reset written (or power-up). -/
def sinceReset (inp : ℕ → CtrlIn) (t : ℕ) : Finset ℕ :=
  sinceLast (fun k => !disableAt inp k) (resetAt inp) t

/-- The clocks before `t` with `disable = 0` that follow the last reset taken (or power-up). -/
def sinceTaken (inp : ℕ → CtrlIn) (t : ℕ) : Finset ℕ :=
  sinceLast (fun k => !disableAt inp k) (takenAt inp) t

/-- The clocks that a reset written since the last one taken should have cleared. -/
def stale (inp : ℕ → CtrlIn) (t : ℕ) : Finset ℕ := sinceTaken inp t \ sinceReset inp t

/-- The run of the peripheral from power-up. -/
def run (inp : ℕ → CtrlIn) : ClockedRun step := .ofInputs step powerUp inp

/-- What clock `t` of a run shows when a reset write always starts a fresh measurement. -/
structure Fresh (inp : ℕ → CtrlIn) (t : ℕ) : Prop where
  elapse : ((run inp).st t).cnt.elapse = BitVec.ofNat 32 (sinceReset inp t).card
  cleared : resetAt inp t = true →
    ((run inp).st (t + 1)).cnt.elapse = 0 ∧ ((run inp).st (t + 1)).cnt.cycles = 0

/-! ## What the counter does -/

section Run

variable {inp : ℕ → CtrlIn} {t : ℕ}

/-- The register shows the history: the pulse and the level of every clock. -/
theorem ctrl_fields (inp : ℕ → CtrlIn) (t : ℕ) : ((run inp).st t).ctrl.reset = resetAt inp t ∧
    ((run inp).st t).ctrl.disable = disableAt inp t := by
  induction t with
  | zero => exact ⟨rfl, BitVec.getLsbD_zero⟩
  | succ t ih =>
    rw [(run inp).next]
    change ((((run inp).st t).ctrl.step (inp t).write).reset = _) ∧
      ((((run inp).st t).ctrl.step (inp t).write).disable = _)
    rw [resetAt, disableAt, ← ih.2]
    cases (inp t).write with
    | none => exact ⟨rfl, rfl⟩
    | some v => exact ⟨rfl, rfl⟩

/-- One clock of the counters in a run. -/
theorem cnt_next : ((run inp).st (t + 1)).cnt =
    ((run inp).st t).cnt.step ⟨(inp t).sig, resetAt inp t, disableAt inp t⟩ := by
  obtain ⟨hreset, hdis⟩ := ctrl_fields inp t
  rw [(run inp).next, ← hreset, ← hdis]
  rfl

/-- A disabled clock changes nothing, whatever is written. -/
theorem cnt_disabled (hd : disableAt inp t = true) :
    ((run inp).st (t + 1)).cnt = ((run inp).st t).cnt := by
  rw [cnt_next, FreqCounter.step, hd, if_pos rfl]

/-- A reset taken clears both counters. -/
theorem cnt_taken (h : takenAt inp t = true) :
    ((run inp).st (t + 1)).cnt.elapse = 0 ∧ ((run inp).st (t + 1)).cnt.cycles = 0 := by
  simp only [takenAt, Bool.and_eq_true, Bool.not_eq_true'] at h
  rw [cnt_next]
  exact FreqCounter.step_zeroes (by simp [FreqCounter.zeroes, h.1, h.2])

/-- Any other enabled clock is counted. -/
theorem elapse_counted (hd : disableAt inp t = false) (h : takenAt inp t = false) :
    ((run inp).st (t + 1)).cnt.elapse = ((run inp).st t).cnt.elapse + 1 := by
  have hr : resetAt inp t = false := by simpa [takenAt, hd] using h
  rw [cnt_next]
  simp [FreqCounter.step, hd, hr]

/-- `elapse` is the number of enabled clocks since the last reset taken. -/
theorem elapse_since_taken (inp : ℕ → CtrlIn) (t : ℕ) :
    ((run inp).st t).cnt.elapse = BitVec.ofNat 32 (sinceTaken inp t).card := by
  induction t with
  | zero => rfl
  | succ t ih =>
    cases htaken : takenAt inp t with
    | true =>
      have hempty : sinceTaken inp (t + 1) = ∅ := sinceLast_restart htaken
      rw [(cnt_taken htaken).1, hempty]
      rfl
    | false =>
      cases hd : disableAt inp t with
      | true =>
        have hsame : sinceTaken inp (t + 1) = sinceTaken inp t :=
          sinceLast_idle (by simp [hd]) htaken
        rw [cnt_disabled hd, ih, hsame]
      | false =>
        have hcard : (sinceTaken inp (t + 1)).card = (sinceTaken inp t).card + 1 :=
          card_sinceLast_counted (by simp [hd]) htaken
        rw [elapse_counted hd htaken, ih, hcard, BitVec.ofNat_add]
        rfl

/-- A reset taken is a reset written, so the clocks since the last one written are among those since
the last one taken, and the others are stale. -/
theorem card_sinceTaken (inp : ℕ → CtrlIn) (t : ℕ) :
    (sinceTaken inp t).card = (sinceReset inp t).card + (stale inp t).card := by
  have hsub : sinceReset inp t ⊆ sinceTaken inp t :=
    sinceLast_subset fun k hk => (Bool.and_eq_true_iff.mp hk).1
  have hcard := Finset.card_sdiff_add_card_eq_card hsub
  unfold stale
  omega

/-- `elapse` obeys the law of a fresh measurement exactly when the stale clocks are invisible
modulo `2 ^ 32`. -/
theorem elapse_iff :
    ((run inp).st t).cnt.elapse = BitVec.ofNat 32 (sinceReset inp t).card ↔
      2 ^ 32 ∣ (stale inp t).card := by
  rw [elapse_since_taken, card_sinceTaken, BitVec.toNat_inj.symm, BitVec.toNat_ofNat,
    BitVec.toNat_ofNat]
  omega

/-- With `elapse` at 0, `cycles` is at 0 too: a reset and a wrap clear both. -/
theorem cycles_of_elapse (inp : ℕ → CtrlIn) (t : ℕ) (h : ((run inp).st t).cnt.elapse = 0) :
    ((run inp).st t).cnt.cycles = 0 := by
  induction t with
  | zero => rfl
  | succ t ih =>
    rw [cnt_next, FreqCounter.step] at h ⊢
    dsimp only at h ⊢
    split_ifs at h ⊢ with hd hr hw
    · exact ih h
    · rfl
    · rfl
    all_goals exact absurd h hw

/-- The counters are at 0 exactly when the enabled clocks since the last reset taken number a
multiple of `2 ^ 32`. -/
theorem zero_iff (inp : ℕ → CtrlIn) (t : ℕ) :
    (((run inp).st t).cnt.elapse = 0 ∧ ((run inp).st t).cnt.cycles = 0) ↔
      2 ^ 32 ∣ (sinceTaken inp t).card := by
  rw [and_iff_left_of_imp (cycles_of_elapse inp t), elapse_since_taken, ← BitVec.toNat_inj,
    BitVec.toNat_ofNat, Nat.dvd_iff_mod_eq_zero]
  rfl

/-- A reset written leaves both counters at 0 exactly when it is taken or they were at 0 before. -/
theorem cleared_iff (hr : resetAt inp t = true) :
    (((run inp).st (t + 1)).cnt.elapse = 0 ∧ ((run inp).st (t + 1)).cnt.cycles = 0) ↔
      (disableAt inp t = false ∨ 2 ^ 32 ∣ (sinceTaken inp t).card) := by
  cases hd : disableAt inp t with
  | false => exact iff_of_true (cnt_taken (by simp [takenAt, hr, hd])) (.inl rfl)
  | true =>
    rw [cnt_disabled hd, zero_iff]
    exact ⟨.inr, fun h => h.resolve_left (by decide)⟩

/-- Without a reset written while disabled no clock is stale. -/
theorem stale_eq_empty (h : ∀ k < t, resetAt inp k = true → disableAt inp k = false) :
    stale inp t = ∅ := by
  refine Finset.sdiff_eq_empty_iff_subset.mpr fun k hk => ?_
  simp only [sinceTaken, sinceReset, sinceLast, Finset.mem_filter, Finset.mem_range] at hk ⊢
  refine ⟨hk.1, hk.2.1, fun z hz hkz => ?_⟩
  have htaken := hk.2.2 z hz hkz
  cases hr : resetAt inp z with
  | false => rfl
  | true => simp [takenAt, hr, h z hz hr] at htaken

end Run

/-- When a reset write starts a fresh measurement. At every clock of every run, `elapse` is the
number of enabled clocks since the last reset written exactly when the enabled clocks that a reset
written while disabled should have cleared are a multiple of `2 ^ 32`, and a reset written clears
the counters exactly when it comes with `disable = 0` or the enabled clocks since the last reset
taken are a multiple of `2 ^ 32`. A run in which no reset is written together with `disable = 1`
obeys the law at every clock. -/
theorem fresh_iff (inp : ℕ → CtrlIn) :
    (∀ t, Fresh inp t ↔ (2 ^ 32 ∣ (stale inp t).card ∧
      (resetAt inp t = true → disableAt inp t = false ∨ 2 ^ 32 ∣ (sinceTaken inp t).card))) ∧
    ((∀ k, resetAt inp k = true → disableAt inp k = false) → ∀ t, Fresh inp t) := by
  have hiff : ∀ t, Fresh inp t ↔ (2 ^ 32 ∣ (stale inp t).card ∧
      (resetAt inp t = true → disableAt inp t = false ∨ 2 ^ 32 ∣ (sinceTaken inp t).card)) := by
    intro t
    constructor
    · intro h
      exact ⟨elapse_iff.mp h.elapse, fun hr => (cleared_iff hr).mp (h.cleared hr)⟩
    · rintro ⟨hstale, hclear⟩
      exact ⟨elapse_iff.mpr hstale, fun hr => (cleared_iff hr).mpr (hclear hr)⟩
  refine ⟨hiff, fun h t => (hiff t).mpr ⟨?_, fun hr => .inl (h t hr)⟩⟩
  rw [stale_eq_empty fun k _ => h k]
  exact dvd_zero _

/-- A history that writes `ctrl` twice. -/
def twoWrites (z : ℕ) (v : BitVec 2) (z' : ℕ) (v' : BitVec 2) (k : ℕ) : CtrlIn :=
  ⟨true, if k = z then some v else if k = z' then some v' else none⟩

/-- A reset and a pause at different clocks. -/
theorem fresh_iff_reset_pause : Fresh (twoWrites 2 0x1 6 0x2) 9 := by
  refine (fresh_iff (twoWrites 2 0x1 6 0x2)).2 (fun k hk => ?_) 9
  -- the only reset written is that of clock 2, visible in clock 3
  have hthree : k = 3 := by
    cases k with
    | zero => cases hk
    | succ k =>
      simp only [resetAt, twoWrites] at hk
      split_ifs at hk with h2 h6
      · rw [h2]
      · exact absurd hk (by decide)
      · exact absurd hk (by decide)
  rw [hthree]
  rfl

/-- A counter that is paused and then reset with the pause still in force keeps its counts. -/
theorem paused_reset_lost : ¬ ∀ inp t, Fresh inp t := by
  intro h
  have hcleared := (h (twoWrites 2 0x2 4 0x3) 5).cleared rfl
  exact absurd hcleared.1 (by decide)

end FreqUnit

end Rockling
