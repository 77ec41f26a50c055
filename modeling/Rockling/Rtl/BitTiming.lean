import Rockling.Rtl.BitCtrl
import Mathlib.Tactic.Ring

/-!
# Timing of the bit controller

With the core enabled at a constant prescale `p`, the clock divider enables the state machine once
every `p + 1` clocks, except where `scl_sync` reloads it early: then two enables can be adjacent.
`Timed` is the invariant that rules this out where it would do harm. `a` is the number of clocks
since the controller last pulled SCL low. The input filter is settled `2 * q + 4` clocks after that,
and the last state of every bit command is only executed later than this, or right after the one
fall of the filtered line. So `scl_sync` never fires in the clock that completes a bit command, and
the byte controller always has a full clock to replace the command.
-/

namespace Rockling

/-- The period of the filter's sampling clock. -/
def filterPeriod (p : ℕ) : ℕ := p / 4 + 1

namespace BitState

/-- The states that hold SCL low with the data bit set up, and release it next. -/
def isSetup : BitState → Bool
  | .stopB | .rdB | .wrB => true
  | _ => false

/-- The states before the last one, with SCL released. -/
def isHigh : BitState → Bool
  | .startD | .stopC | .rdC | .wrC => true
  | _ => false

/-- The states that complete a bit command. -/
def isLast : BitState → Bool
  | .startE | .stopD | .rdD | .wrD => true
  | _ => false

end BitState

namespace BitFsm

variable {x : BitFsm} {cmd : Cmd} {din : Bool}

/-- A setup state is entered with SCL pulled low. -/
theorem exec_setup (h : (x.exec cmd din).cState.isSetup = true) :
    (x.exec cmd din).sclOen = false := by
  obtain ⟨c, k, scl, sda, chk⟩ := x
  cases c <;> first | rfl | cases h | skip
  cases cmd <;> cases h

/-- The state before the last is entered with SCL released, from a setup state or `startC`. -/
theorem exec_high (h : (x.exec cmd din).cState.isHigh = true) :
    (x.exec cmd din).sclOen = true ∧ (x.cState.isSetup = true ∨ x.cState = .startC) := by
  obtain ⟨c, k, scl, sda, chk⟩ := x
  cases c <;> first | exact ⟨rfl, .inl rfl⟩ | exact ⟨rfl, .inr rfl⟩ | cases h | skip
  cases cmd <;> cases h

/-- The last state is entered with SCL released, from the one before. -/
theorem exec_last (h : (x.exec cmd din).cState.isLast = true) :
    (x.exec cmd din).sclOen = true ∧ x.cState.isHigh = true := by
  obtain ⟨c, k, scl, sda, chk⟩ := x
  cases c <;> first | exact ⟨rfl, rfl⟩ | cases h | skip
  cases cmd <;> cases h

theorem exec_startA (h : (x.exec cmd din).cState = .startA) :
    x.cState = .idle ∧ (x.exec cmd din).sclOen = x.sclOen := by
  obtain ⟨c, k, scl, sda, chk⟩ := x
  cases c <;> first | exact ⟨rfl, rfl⟩ | cases h

theorem exec_startB (h : (x.exec cmd din).cState = .startB) :
    x.cState = .startA ∧ (x.exec cmd din).sclOen = x.sclOen := by
  obtain ⟨c, k, scl, sda, chk⟩ := x
  cases c <;> first | exact ⟨rfl, rfl⟩ | cases h | skip
  cases cmd <;> cases h

theorem exec_startC (h : (x.exec cmd din).cState = .startC) :
    x.cState = .startB ∧ (x.exec cmd din).sclOen = true := by
  obtain ⟨c, k, scl, sda, chk⟩ := x
  cases c <;> first | exact ⟨rfl, rfl⟩ | cases h | skip
  cases cmd <;> cases h

/-- `idle` is only left on a command. -/
theorem exec_idle_nop (hx : x.cState = .idle) : (x.exec .nop din).cState = .idle := by
  simp [exec, hx, Cmd.first]

end BitFsm

/-- The inputs of an enabled core out of reset at prescale `p`. -/
structure BitIn.Running (p : ℕ) (i : BitIn) : Prop where
  rst : i.rst = false
  ena : i.ena = true
  clkCnt : i.clkCnt = p

namespace BitCtrl

section Running

variable {p : ℕ} {b : BitCtrl} {i : BitIn}

theorem reload_running (h : i.Running p) : b.reload i = (b.cnt == 0 || b.sclSync) := by
  simp [reload, h.rst, h.ena]

/-- The divider reloads early only where the filtered line falls. -/
theorem sclSync_eq : b.sclSync = (b.scl.falls && b.sclOen) := by
  simp [sclSync, LineFilter.falls]

theorem step_cnt (h : i.Running p) :
    (b.step i).cnt = if (b.cnt == 0 || b.sclSync) = true then p
      else if b.peripheralWait = true then b.cnt else b.cnt - 1 := by
  simp [step, reload_running h, h.clkCnt]

theorem step_clkEn (h : i.Running p) : (b.step i).clkEn = (b.cnt == 0 || b.sclSync) := by
  simp [step, reload_running h]

theorem step_scl (h : i.Running p) : (b.step i).scl = b.scl.step (b.filterCnt == 0) i.sclI := by
  simp [step, h.rst]

theorem step_sda (h : i.Running p) : (b.step i).sda = b.sda.step (b.filterCnt == 0) i.sdaI := by
  simp [step, h.rst]

theorem step_filterCnt (h : i.Running p) :
    (b.step i).filterCnt = LineFilter.tickNext (filterPeriod p) b.filterCnt := by
  simp [step, h.rst, h.ena, h.clkCnt, LineFilter.tickNext, filterPeriod]

theorem step_fsm (h : i.Running p) :
    (b.step i).toBitFsm =
      if b.al then .released
      else if b.clkEn then b.toBitFsm.exec i.cmd i.din
      else { b.toBitFsm with cmdAck := false } := by
  simp [step, BitFsm.next, h.rst]

theorem step_d (h : i.Running p) : (b.step i).scl.d = b.scl.s := by
  rw [step_scl h]
  rfl

theorem step_s (h : i.Running p) : (b.step i).scl.s = b.scl.maj := by
  rw [step_scl h]
  rfl

/-- What one clock does to the state machine: an arbitration loss releases both lines, an enabled
clock executes the state, any other clock only clears the acknowledge. -/
theorem fsm_cases (b : BitCtrl) (h : i.Running p) :
    (b.al = true ∧ (b.step i).toBitFsm = .released) ∨
    (b.al = false ∧ b.clkEn = true ∧ (b.step i).toBitFsm = b.toBitFsm.exec i.cmd i.din) ∨
    (b.al = false ∧ b.clkEn = false ∧
      (b.step i).toBitFsm = { b.toBitFsm with cmdAck := false }) := by
  rw [step_fsm h]
  cases b.al <;> cases b.clkEn <;> simp

end Running

/-- The clocks since the controller last pulled SCL low, one clock on. -/
def ageNext (a : ℕ) (b b' : BitCtrl) : ℕ := if b.sclOen = true ∧ b'.sclOen = false then 0 else a + 1

/-- The timing invariant, `k` clocks after the core was enabled and `a` clocks after SCL was last
pulled low, with the SCL line at `line`. -/
structure Timed (p k a : ℕ) (line : Bool) (b : BitCtrl) : Prop where
  cnt_le : b.cnt ≤ p
  cnt_en : b.clkEn = true → b.cnt = p
  filterCnt_lt : b.filterCnt < filterPeriod p
  settling : b.scl.Settling (filterPeriod p) b.filterCnt a line
  line_oen : line = true → b.sclOen = true
  s_spaced : 1 ≤ k → b.scl.s ≠ b.scl.maj → b.filterCnt + 1 = filterPeriod p
  spaced : 2 ≤ k → b.scl.Spaced (filterPeriod p) b.filterCnt
  early : k ≤ 2 → b.cState = .idle
  released : b.sclOen = true → 1 ≤ a
  startA : b.cState = .startA → 1 ≤ a
  startB : b.cState = .startB → 2 ≤ a
  startC : b.cState = .startC → 3 ≤ a ∧ b.sclOen = true
  -- SCL is low for a full divider period, or a fall of the filtered line has just cut it short
  setup : b.cState.isSetup = true → b.sclOen = false ∧
    (b.clkEn = true → p ≤ a ∨ (a = 0 ∧ b.scl.d = false)) ∧
    (b.clkEn = false → p - 1 ≤ a + b.cnt)
  high : b.cState.isHigh = true → b.sclOen = true ∧
    (b.clkEn = true → 3 ≤ a ∨ (filterPeriod p = 1 ∧ 2 ≤ a)) ∧
    (b.clkEn = false → p ≤ a + b.cnt ∧
      (a = 1 → 2 ≤ filterPeriod p → b.scl.falls = false))
  last : b.cState.isLast = true → b.sclOen = true ∧
    (b.clkEn = true → 2 * filterPeriod p + 4 ≤ a ∨ b.scl.d = false) ∧
    (b.clkEn = false → 2 * filterPeriod p + 3 ≤ a + b.cnt)

section Timed

variable {p k a : ℕ} {line line' : Bool} {b : BitCtrl} {i : BitIn}

/-- `scl_sync` does not fire in the clock that completes a bit command. -/
theorem Timed.not_sclSync_of_last (h : Timed p k a line b) (hl : b.cState.isLast = true)
    (hen : b.clkEn = true) : b.sclSync = false := by
  rw [sclSync_eq]
  rcases (h.last hl).2.1 hen with ha | hd
  · rw [h.settling.not_falls ha, Bool.false_and]
  · simp [LineFilter.falls, hd]

/-- So the clock after the completion of a bit command is never enabled. -/
theorem Timed.not_clkEn_after_last (h : Timed p k a line b) (hp : 3 ≤ p) (hi : i.Running p)
    (hl : b.cState.isLast = true) (hen : b.clkEn = true) : (b.step i).clkEn = false := by
  have hcnt := h.cnt_en hen
  rw [step_clkEn hi, h.not_sclSync_of_last hl hen]
  simp only [Bool.or_false, beq_eq_false_iff_ne]
  omega

/-- The divider in a clock that executes the state machine. -/
theorem Timed.divider_exec (h : Timed p k a line b) (hp : 3 ≤ p) (hi : i.Running p)
    (hen : b.clkEn = true) :
    (b.step i).clkEn = b.sclSync ∧ p - 1 ≤ (b.step i).cnt := by
  have hcnt := h.cnt_en hen
  have h0 : (b.cnt == 0) = false := by simp only [beq_eq_false_iff_ne]; omega
  rw [step_clkEn hi, step_cnt hi, h0, Bool.false_or]
  refine ⟨rfl, ?_⟩
  split_ifs <;> omega

/-- The divider in any other clock: it reloads, or the counter falls by at most one. -/
theorem divider_wait (b : BitCtrl) (hi : i.Running p) :
    ((b.step i).clkEn = true ∧ (b.cnt = 0 ∨ b.sclSync = true)) ∨
    ((b.step i).clkEn = false ∧ 1 ≤ b.cnt ∧ b.sclSync = false ∧ b.cnt ≤ (b.step i).cnt + 1) := by
  rw [step_clkEn hi, step_cnt hi]
  by_cases h0 : b.cnt = 0
  · simp [h0]
  · cases hs : b.sclSync
    · simp only [Bool.or_false, beq_iff_eq, beq_eq_false_iff_ne, h0]
      right
      refine ⟨h0, by omega, trivial, ?_⟩
      simp only [if_false]
      split_ifs <;> omega
    · simp

/-- Where `scl_sync` fires, the next clock cannot see another fall. -/
theorem d_of_sclSync (hi : i.Running p) (hs : b.sclSync = true) : (b.step i).scl.d = false := by
  rw [step_d hi]
  simp only [sclSync, Bool.and_eq_true, Bool.not_eq_true'] at hs
  exact hs.1.2

theorem sclSync_of_low (h : b.sclOen = false) : b.sclSync = false := by
  simp [sclSync, h]

theorem ageNext_of_high {b' : BitCtrl} (h : b'.sclOen = true) : ageNext a b b' = a + 1 := by
  simp [ageNext, h]

theorem ageNext_of_low {b' : BitCtrl} (h : b.sclOen = false) : ageNext a b b' = a + 1 := by
  simp [ageNext, h]

theorem ageNext_fall {b' : BitCtrl} (h : b.sclOen = true) (h' : b'.sclOen = false) :
    ageNext a b b' = 0 := by
  simp [ageNext, h, h']

theorem Timed.step_setup (h : Timed p k a line b) (hp : 3 ≤ p) (hi : i.Running p)
    (hs : (b.step i).cState.isSetup = true) :
    (b.step i).sclOen = false ∧
    ((b.step i).clkEn = true →
      p ≤ ageNext a b (b.step i) ∨ (ageNext a b (b.step i) = 0 ∧ (b.step i).scl.d = false)) ∧
    ((b.step i).clkEn = false → p - 1 ≤ ageNext a b (b.step i) + (b.step i).cnt) := by
  rcases fsm_cases b hi with ⟨-, hf⟩ | ⟨-, hen, hf⟩ | ⟨-, hen, hf⟩
  · rw [hf] at hs
    cases hs
  · -- entered by an enabled step, which pulls SCL low
    obtain ⟨hclk, hcnt⟩ := h.divider_exec hp hi hen
    have hlow : (b.step i).sclOen = false := by
      rw [hf] at hs ⊢
      exact BitFsm.exec_setup hs
    refine ⟨hlow, fun hc => ?_, fun _ => by omega⟩
    rw [hclk] at hc
    have hoen : b.sclOen = true := by
      by_contra hoen
      rw [sclSync_of_low (by simpa using hoen)] at hc
      cases hc
    exact .inr ⟨ageNext_fall hoen hlow, d_of_sclSync hi hc⟩
  · -- SCL stays low, so the divider only counts
    have hstate : (b.step i).cState = b.cState := by rw [hf]
    have hoen' : (b.step i).sclOen = b.sclOen := by rw [hf]
    rw [hstate] at hs
    obtain ⟨hoen, -, hwait⟩ := h.setup hs
    have hw := hwait hen
    rw [ageNext_of_low hoen, hoen']
    refine ⟨hoen, ?_⟩
    rcases divider_wait b hi with ⟨hc, h0 | hsync⟩ | ⟨hc, h1, -, hle⟩
    · exact ⟨fun _ => .inl (by omega), fun hc' => by simp [hc] at hc'⟩
    · rw [sclSync_of_low hoen] at hsync
      cases hsync
    · exact ⟨fun hc' => by simp [hc] at hc', fun _ => by omega⟩

theorem Timed.step_high (h : Timed p k a line b) (hp : 3 ≤ p) (hi : i.Running p)
    (hs : (b.step i).cState.isHigh = true) :
    (b.step i).sclOen = true ∧
    ((b.step i).clkEn = true →
      3 ≤ ageNext a b (b.step i) ∨ (filterPeriod p = 1 ∧ 2 ≤ ageNext a b (b.step i))) ∧
    ((b.step i).clkEn = false → p ≤ ageNext a b (b.step i) + (b.step i).cnt ∧
      (ageNext a b (b.step i) = 1 → 2 ≤ filterPeriod p → (b.step i).scl.falls = false)) := by
  rcases fsm_cases b hi with ⟨-, hf⟩ | ⟨-, hen, hf⟩ | ⟨-, hen, hf⟩
  · rw [hf] at hs
    cases hs
  · obtain ⟨hclk, hcnt⟩ := h.divider_exec hp hi hen
    have hex : (b.step i).sclOen = true ∧ (b.cState.isSetup = true ∨ b.cState = .startC) := by
      rw [hf] at hs ⊢
      exact BitFsm.exec_high hs
    obtain ⟨hhigh, hprev⟩ := hex
    rw [ageNext_of_high hhigh]
    refine ⟨hhigh, ?_⟩
    rcases hprev with hset | hstart
    · -- released from a setup state: SCL was low, so the divider was not reloaded early
      obtain ⟨hoen, hage, -⟩ := h.setup hset
      refine ⟨fun hc => ?_, fun _ => ⟨by omega, fun ha hq => ?_⟩⟩
      · rw [hclk, sclSync_of_low hoen] at hc
        cases hc
      · rcases hage hen with hle | ⟨-, hd⟩
        · omega
        · have hk : 2 ≤ k := by
            by_contra hk
            rw [h.early (by omega)] at hset
            cases hset
          rw [LineFilter.falls, step_d hi, step_s hi]
          cases hsv : b.scl.s
          · rfl
          · rw [← (h.spaced hk).settled_of_moved hq (by simp [hd, hsv]), hsv]
            rfl
    · have ha := (h.startC hstart).1
      exact ⟨fun _ => .inl (by omega), fun _ => ⟨by omega, fun ha' => by omega⟩⟩
  · have hstate : (b.step i).cState = b.cState := by rw [hf]
    have hoen' : (b.step i).sclOen = b.sclOen := by rw [hf]
    rw [hstate] at hs
    obtain ⟨hoen, -, hwait⟩ := h.high hs
    obtain ⟨hw, hfall⟩ := hwait hen
    have ha := h.released hoen
    rw [ageNext_of_high (by rw [hoen', hoen]), hoen']
    refine ⟨hoen, ?_⟩
    rcases divider_wait b hi with ⟨hc, h0 | hsync⟩ | ⟨hc, h1, -, hle⟩
    · exact ⟨fun _ => .inl (by omega), fun hc' => by simp [hc] at hc'⟩
    · refine ⟨fun _ => ?_, fun hc' => by simp [hc] at hc'⟩
      by_cases ha1 : a = 1
      · by_cases hq : 2 ≤ filterPeriod p
        · rw [sclSync_eq, hfall ha1 hq] at hsync
          cases hsync
        · exact .inr ⟨by unfold filterPeriod at *; omega, by omega⟩
      · exact .inl (by omega)
    · exact ⟨fun hc' => by simp [hc] at hc', fun _ => ⟨by omega, fun ha' => by omega⟩⟩

theorem Timed.step_last (h : Timed p k a line b) (hp : 3 ≤ p) (hi : i.Running p)
    (hs : (b.step i).cState.isLast = true) :
    (b.step i).sclOen = true ∧
    ((b.step i).clkEn = true →
      2 * filterPeriod p + 4 ≤ ageNext a b (b.step i) ∨ (b.step i).scl.d = false) ∧
    ((b.step i).clkEn = false →
      2 * filterPeriod p + 3 ≤ ageNext a b (b.step i) + (b.step i).cnt) := by
  rcases fsm_cases b hi with ⟨-, hf⟩ | ⟨-, hen, hf⟩ | ⟨-, hen, hf⟩
  · rw [hf] at hs
    cases hs
  · obtain ⟨hclk, hcnt⟩ := h.divider_exec hp hi hen
    have hex : (b.step i).sclOen = true ∧ b.cState.isHigh = true := by
      rw [hf] at hs ⊢
      exact BitFsm.exec_last hs
    obtain ⟨hhigh, hprev⟩ := hex
    have hage := (h.high hprev).2.1 hen
    rw [ageNext_of_high hhigh]
    refine ⟨hhigh, fun hc => .inr (d_of_sclSync hi (hclk ▸ hc)), fun _ => ?_⟩
    unfold filterPeriod at *
    omega
  · have hstate : (b.step i).cState = b.cState := by rw [hf]
    have hoen' : (b.step i).sclOen = b.sclOen := by rw [hf]
    rw [hstate] at hs
    obtain ⟨hoen, -, hwait⟩ := h.last hs
    have hw := hwait hen
    rw [ageNext_of_high (by rw [hoen', hoen]), hoen']
    refine ⟨hoen, ?_⟩
    rcases divider_wait b hi with ⟨hc, h0 | hsync⟩ | ⟨hc, h1, -, hle⟩
    · exact ⟨fun _ => .inl (by omega), fun hc' => by simp [hc] at hc'⟩
    · exact ⟨fun _ => .inr (d_of_sclSync hi hsync), fun hc' => by simp [hc] at hc'⟩
    · exact ⟨fun hc' => by simp [hc] at hc', fun _ => by omega⟩

/-- The way into a repeated or first START, state by state. -/
theorem Timed.step_start (h : Timed p k a line b) (hi : i.Running p) :
    ((b.step i).cState = .startA → 1 ≤ ageNext a b (b.step i)) ∧
    ((b.step i).cState = .startB → 2 ≤ ageNext a b (b.step i)) ∧
    ((b.step i).cState = .startC → 3 ≤ ageNext a b (b.step i) ∧ (b.step i).sclOen = true) := by
  rcases fsm_cases b hi with ⟨-, hf⟩ | ⟨-, hen, hf⟩ | ⟨-, hen, hf⟩
  · rw [hf]
    refine ⟨?_, ?_, ?_⟩ <;> intro hs <;> cases hs
  · have hold : ∀ {c}, (b.step i).sclOen = c → c = b.sclOen →
        ageNext a b (b.step i) = a + 1 := by
      intro c hc hb
      cases hoen : b.sclOen
      · exact ageNext_of_low hoen
      · exact ageNext_of_high (by rw [hc, hb, hoen])
    refine ⟨fun hs => ?_, fun hs => ?_, fun hs => ?_⟩
    · have hx := BitFsm.exec_startA (hf ▸ hs)
      rw [hold (by rw [hf]) hx.2]
      omega
    · have hx := BitFsm.exec_startB (hf ▸ hs)
      have ha := h.startA hx.1
      rw [hold (by rw [hf]) hx.2]
      omega
    · have hx := BitFsm.exec_startC (hf ▸ hs)
      have ha := h.startB hx.1
      have hoen : (b.step i).sclOen = true := by rw [hf]; exact hx.2
      rw [ageNext_of_high hoen]
      exact ⟨by omega, hoen⟩
  · have hage : ageNext a b (b.step i) = a + 1 := by
      cases hoen : b.sclOen
      · exact ageNext_of_low hoen
      · exact ageNext_of_high (by rw [hf]; exact hoen)
    rw [hage]
    refine ⟨fun hs => by omega, fun hs => ?_, fun hs => ?_⟩
    · have ha := h.startB (by rw [hf] at hs; exact hs)
      omega
    · have ha := h.startC (by rw [hf] at hs; exact hs)
      exact ⟨by omega, by rw [hf]; exact ha.2⟩

/-- The timing invariant survives every clock of an enabled core, whatever commands it is given, on
an SCL line that others only pull low while the controller does. -/
theorem Timed.step (h : Timed p k a line b) (hp : 3 ≤ p) (hi : i.Running p) (hscl : i.sclI = line)
    (hcmd : k ≤ 1 → i.cmd = .nop)
    (hline : line = true → (b.step i).sclOen = true → line' = true)
    (hoen : line' = true → (b.step i).sclOen = true) :
    Timed p (k + 1) (ageNext a b (b.step i)) line' (b.step i) := by
  have hq := h.filterCnt_lt
  have hstart := h.step_start hi
  constructor
  case cnt_le =>
    have hcnt := h.cnt_le
    rw [step_cnt hi]
    split_ifs <;> omega
  case cnt_en =>
    intro hc
    rw [step_clkEn hi] at hc
    rw [step_cnt hi, if_pos hc]
  case filterCnt_lt =>
    rw [step_filterCnt hi]
    exact LineFilter.tickNext_lt hq
  case settling =>
    rw [step_filterCnt hi, step_scl hi, hscl]
    by_cases hfall : b.sclOen = true ∧ (b.step i).sclOen = false
    · rw [ageNext, if_pos hfall]
      exact .restart (LineFilter.tickNext_lt hq)
    · rw [ageNext, if_neg hfall]
      refine h.settling.step hq fun _ hl => hline hl ?_
      by_contra hlow
      exact hfall ⟨h.line_oen hl, by simpa using hlow⟩
  case line_oen => exact hoen
  case s_spaced =>
    intro _ hs
    rw [step_scl hi] at hs
    rw [step_filterCnt hi]
    exact LineFilter.s_spaced hq hs
  case spaced =>
    intro hk
    rw [step_filterCnt hi, step_scl hi]
    refine ⟨LineFilter.s_spaced hq, fun hd => ?_⟩
    have hs := h.s_spaced (by omega) hd
    unfold LineFilter.tickNext
    split <;> omega
  case early =>
    intro hk
    have hidle := h.early (by omega)
    rcases fsm_cases b hi with ⟨-, hf⟩ | ⟨-, -, hf⟩ | ⟨-, -, hf⟩
    · rw [hf]
      rfl
    · rw [hf, hcmd (by omega)]
      exact BitFsm.exec_idle_nop hidle
    · rw [hf]
      exact hidle
  case released =>
    intro hoen
    rw [ageNext_of_high hoen]
    omega
  case startA => exact hstart.1
  case startB => exact hstart.2.1
  case startC => exact hstart.2.2
  case setup => exact h.step_setup hp hi
  case high => exact h.step_high hp hi
  case last => exact h.step_last hp hi

end Timed

end BitCtrl

end Rockling
