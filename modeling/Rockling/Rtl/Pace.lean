import Rockling.Rtl.Running

/-!
# The pace of SCL

How often the controller may pull SCL, however others stretch it. Without an arbitration loss, and
when only a START is executed while SCL is released, the bit controller goes through the same cycle
over and over: SCL is low for three divider periods, it is released, the divider stops until the
filtered line has risen, and it stays released for two more.

`pace` is the number of clocks of the current divider period that are over. With a rank for every
state it bounds from below the time since SCL was last pulled low, since it was last released, and
since the filtered line rose: one clock adds at most one to `rank * (p + 1) + pace`. That the
divider is never reloaded early in between is where `Timed` comes in, and that it does stop is
`Paced`: SCL has been low for so long at its release that the filtered line reads low.
-/

namespace Rockling

namespace BitState

/-- The states in which the level of SCL is still that of the bit command before. -/
def before : BitState → Bool
  | .idle | .startA | .startB | .stopA | .stopB | .rdA | .rdB | .wrA | .wrB => true
  | _ => false

/-- The states of `before` that may be executed with SCL released. -/
def free : BitState → Bool
  | .idle | .startA | .startB => true
  | _ => false

/-- The states that are entered with the release of SCL. -/
def rising : BitState → Bool
  | .startC | .stopC | .rdC | .wrC => true
  | _ => false

/-- Divider periods since SCL was pulled low. -/
def lowRank : BitState → ℕ
  | .startA | .stopA | .rdA | .wrA => 1
  | .startB | .stopB | .rdB | .wrB => 2
  | _ => 0

/-- Divider periods since SCL was released. -/
def periodRank : BitState → ℕ
  | .startC | .stopC | .rdC | .wrC => 0
  | .startD | .stopD | .rdD | .wrD => 1
  | .startE | .idle => 2
  | .startA | .stopA | .rdA | .wrA => 3
  | .startB | .stopB | .rdB | .wrB => 4

/-- Divider periods since the filtered line rose. -/
def highRank : BitState → ℕ
  | .startD | .stopD | .rdD | .wrD => 1
  | .startE => 2
  | _ => 0

end BitState

namespace BitFsm

variable (x : BitFsm) (cmd : Cmd) (din : Bool)

theorem exec_periodRank : (x.exec cmd din).cState.periodRank ≤ x.cState.periodRank + 1 := by
  obtain ⟨c, k, scl, sda, chk⟩ := x
  cases c <;> cases cmd <;> decide +revert

theorem exec_highRank : (x.exec cmd din).cState.highRank ≤ x.cState.highRank + 1 := by
  obtain ⟨c, k, scl, sda, chk⟩ := x
  cases c <;> cases cmd <;> decide +revert

variable {x}

/-- A step with SCL low: it stays low, or is released after the second state of a bit command. -/
theorem exec_low (before : x.cState.before = true) (low : x.sclOen = false) :
    ((x.exec cmd din).sclOen = false ∧ (x.exec cmd din).cState.before = true ∧
      (x.exec cmd din).cState.lowRank ≤ x.cState.lowRank + 1) ∨
    ((x.exec cmd din).sclOen = true ∧ (x.exec cmd din).cState.rising = true ∧
      x.cState.lowRank = 2 ∧ x.cState.periodRank = 4) := by
  obtain ⟨c, k, scl, sda, chk⟩ := x
  cases low
  cases c <;> first | (cases before; done) | cases cmd
  all_goals simp [exec, Cmd.first, BitState.before, BitState.rising, BitState.lowRank,
    BitState.periodRank]

/-- A step in a free state with SCL released: it stays released. -/
theorem exec_free (free : x.cState.free = true) (high : x.sclOen = true)
    (nop : x.cState = .idle → cmd = .nop ∨ cmd = .start) :
    (x.exec cmd din).sclOen = true ∧
      ((x.exec cmd din).cState.free = true ∨
        (x.cState = .startB ∧ (x.exec cmd din).cState = .startC)) := by
  obtain ⟨c, k, scl, sda, chk⟩ := x
  cases c <;> try (cases free; done)
  · rcases nop rfl with rfl | rfl <;> exact ⟨high, .inl rfl⟩
  · exact ⟨high, .inl rfl⟩
  · exact ⟨rfl, .inr ⟨rfl, rfl⟩⟩

/-- A step after the release. -/
theorem exec_rising (rising : x.cState.rising = true) :
    (x.exec cmd din).sclOen = true ∧ (x.exec cmd din).cState.rising = false ∧
      (x.exec cmd din).cState.before = false := by
  obtain ⟨c, k, scl, sda, chk⟩ := x
  cases c <;> first | exact ⟨rfl, rfl, rfl⟩ | cases rising

/-- A step in a state whose SCL is up: it ends the bit command, and only a STOP leaves SCL released,
or it goes on to `startE`. -/
theorem exec_up (notRising : x.cState.rising = false) (notBefore : x.cState.before = false) :
    ((x.exec cmd din).cState = .startE ∧ (x.exec cmd din).sclOen = true) ∨
    ((x.exec cmd din).cState = .idle ∧ x.cState.isLast = true ∧ 1 ≤ x.cState.highRank) := by
  obtain ⟨c, k, scl, sda, chk⟩ := x
  cases c <;> first
    | exact .inl ⟨rfl, rfl⟩ | exact .inr ⟨rfl, rfl, by simp [BitState.highRank]⟩
    | (cases notRising; done) | cases notBefore

end BitFsm

namespace BitCtrl

/-- The clocks of the current divider period that are over. -/
def pace (p : ℕ) (b : BitCtrl) : ℕ := if b.clkEn then p + 1 else p - b.cnt

section Pace

variable {p k a : ℕ} {line line' : Bool} {b : BitCtrl} {i : BitIn}

/-- SCL is up in every state after its release. -/
theorem Timed.up (h : b.Timed p k a line) (notBefore : b.cState.before = false) :
    b.sclOen = true := by
  have startC := h.startC
  have high := h.high
  have last := h.last
  revert notBefore startC high last
  cases b.cState <;> simp [BitState.before, BitState.isHigh, BitState.isLast] <;> tauto

/-- In a clock that is not enabled the divider goes on by at most one. -/
theorem pace_wait (timed : b.Timed p k a line) (hi : i.Running p) (en : b.clkEn = false)
    (sync : b.sclSync = false) : (b.step i).pace p ≤ b.pace p + 1 := by
  have le := timed.cnt_le
  simp only [pace, step_clkEn hi, step_cnt hi, en, sync, Bool.or_false, beq_iff_eq]
  split_ifs <;> simp_all
  all_goals omega

/-- An enabled clock starts a new divider period. -/
theorem pace_exec (timed : b.Timed p k a line) (hp : 3 ≤ p) (hi : i.Running p)
    (en : b.clkEn = true) (sync : b.sclSync = false) :
    b.pace p = p + 1 ∧ (b.step i).clkEn = false ∧ (b.step i).pace p ≤ 1 := by
  have divider := timed.divider_exec hp hi en
  rw [sync] at divider
  refine ⟨by simp [pace, en], divider.1, ?_⟩
  simp only [pace, divider.1]
  have := divider.2
  simp only [Bool.false_eq_true, if_false]
  omega

/-- So a rank that a step raises by at most one is a clock, in units of the divider period. -/
theorem rank_step (rank : BitState → ℕ) (timed : b.Timed p k a line) (hp : 3 ≤ p)
    (hi : i.Running p) (al : b.al = false) (sync : b.sclSync = false)
    (step : b.clkEn = true → rank (b.toBitFsm.exec i.cmd i.din).cState ≤ rank b.cState + 1) :
    rank (b.step i).cState * (p + 1) + (b.step i).pace p ≤
      rank b.cState * (p + 1) + b.pace p + 1 := by
  rcases b.fsm_cases hi with ⟨lost, -⟩ | ⟨-, en, fsm⟩ | ⟨-, en, fsm⟩
  · rw [al] at lost
    cases lost
  · obtain ⟨full, -, fresh⟩ := pace_exec timed hp hi en sync
    have le := Nat.mul_le_mul_right (p + 1) (step en)
    rw [fsm, full]
    rw [Nat.succ_mul] at le
    omega
  · rw [fsm]
    have := pace_wait timed hi en sync
    simp only
    omega

/-! ## The invariant -/

/-- The ways to stand in a state that was entered with the release of SCL: freshly released, held by
others, and risen. -/
inductive Rising (p a : ℕ) (line : Bool) (b : BitCtrl) : Prop where
  | fresh (age : 2 * filterPeriod p + 4 ≤ a) (oen : b.dsclOen = false) (cnt : b.cnt + 1 = p)
      (en : b.clkEn = false) (s : b.scl.s = false) (wait : b.peripheralWait = false)
  | held (age : 2 * filterPeriod p + 4 ≤ a) (oen : b.dsclOen = true) (cnt : b.cnt + 2 = p)
      (en : b.clkEn = false) (wait : b.peripheralWait = true)
  | risen (line : line = true) (oen : b.dsclOen = true) (wait : b.peripheralWait = false)

/-- The invariant of a bit controller that executes only a START while SCL is released. -/
structure Paced (p a : ℕ) (line : Bool) (b : BitCtrl) : Prop where
  low : b.sclOen = false → b.cState.before = true ∧ b.peripheralWait = false ∧
    b.cState.lowRank * (p + 1) + b.pace p ≤ a + 1
  free : b.sclOen = true → b.cState.before = true → b.cState.free = true
  still : b.sclOen = true → b.cState.rising = false →
    line = true ∧ b.dsclOen = true ∧ b.peripheralWait = false
  rising : b.cState.rising = true → b.sclOen = true ∧ b.Rising p a line

theorem step_wait_of (b : BitCtrl) (i : BitIn) (wait : b.peripheralWait = false)
    (oen : b.sclOen = false ∨ b.dsclOen = true) : (b.step i).peripheralWait = false := by
  simp only [step, wait, Bool.false_and, Bool.or_false]
  rcases oen with h | h <;> simp [h]

/-- An enabled clock finds SCL low, or high and undisturbed. -/
theorem Paced.line_of_en (h : b.Paced p a line) (high : b.sclOen = true) (en : b.clkEn = true) :
    line = true ∧ b.dsclOen = true ∧ b.peripheralWait = false := by
  by_cases rising : b.cState.rising = true
  · rcases (h.rising rising).2 with ⟨-, -, -, off, -, -⟩ | ⟨-, -, -, off, -⟩ | ⟨line, oen, wait⟩
    · rw [en] at off
      cases off
    · rw [en] at off
      cases off
    · exact ⟨line, oen, wait⟩
  · exact h.still high (by simpa using rising)

theorem not_rising_of_before {c : BitState} (before : c.before = true) : c.rising = false := by
  revert before
  cases c <;> decide

/-- A controller that leaves an undisturbed line alone, in any state. -/
theorem paced_still (high : b.sclOen = true) (up : line = true) (oen : b.dsclOen = true)
    (wait : b.peripheralWait = false) (free : b.cState.before = true → b.cState.free = true) :
    b.Paced p a line where
  low := fun low => by rw [high] at low; cases low
  free := fun _ => free
  still := fun _ _ => ⟨up, oen, wait⟩
  rising := fun _ => ⟨high, .risen up oen wait⟩

/-- The release of SCL. Its low period has been long enough for the filter to read low. -/
theorem Paced.step_release (h : b.Paced p a line) (timed : b.Timed p k a line) (hp : 3 ≤ p)
    (hi : i.Running p) (low : b.sclOen = false) (en : b.clkEn = true)
    (second : b.cState.lowRank = 2) (high : (b.step i).sclOen = true)
    (rising : (b.step i).cState.rising = true) :
    (b.step i).Paced p (ageNext a b (b.step i)) line' := by
  obtain ⟨-, wait, age⟩ := h.low low
  have sync : b.sclSync = false := sclSync_of_low low
  obtain ⟨full, off, -⟩ := pace_exec timed hp hi en sync
  rw [second, full] at age
  have long : 3 * p + 2 ≤ a := by omega
  have cnt : (b.step i).cnt + 1 = p := by
    rw [step_cnt hi, timed.cnt_en en, sync, wait]
    have nonzero : (p == 0) = false := by simp only [beq_eq_false_iff_ne]; omega
    simp only [nonzero, Bool.or_self, Bool.false_eq_true, if_false]
    omega
  have s : (b.step i).scl.s = false := by
    rw [step_s hi]
    by_contra maj
    have up := timed.settling.line_of_maj (Nat.succ_pos _) (by unfold filterPeriod; omega)
      (by simpa using maj)
    rw [timed.line_oen up] at low
    cases low
  have notBefore : (b.step i).cState.before = false := by
    by_contra before
    rw [not_rising_of_before (by simpa using before)] at rising
    cases rising
  rw [ageNext_of_high high]
  exact {
    low := fun low => by rw [high] at low; cases low
    free := fun _ before => by rw [notBefore] at before; cases before
    still := fun _ still => by rw [rising] at still; cases still
    rising := fun _ => ⟨high, .fresh (by unfold filterPeriod; omega) low cnt off s
      (step_wait_of b i wait (Or.inl low))⟩ }

/-- An enabled clock. -/
theorem Paced.step_exec (h : b.Paced p a line) (timed : b.Timed p k a line) (hp : 3 ≤ p)
    (hi : i.Running p) (al : b.al = false) (en : b.clkEn = true)
    (fsm : (b.step i).toBitFsm = b.toBitFsm.exec i.cmd i.din)
    (cmd : b.cState = .idle → b.sclOen = true → i.cmd = .nop ∨ i.cmd = .start)
    (keeps : line = true → (b.step i).sclOen = true → line' = true) :
    (b.step i).Paced p (ageNext a b (b.step i)) line' := by
  by_cases high : b.sclOen = true
  · obtain ⟨up, oen, wait⟩ := h.line_of_en high en
    have wait' := step_wait_of b i wait (Or.inr oen)
    by_cases before : b.cState.before = true
    · obtain ⟨high', state⟩ := BitFsm.exec_free i.cmd i.din (h.free high before) high
        fun idle => cmd idle high
      rw [← fsm] at high' state
      refine paced_still high' (keeps up high') high wait' fun before' => ?_
      rcases state with free | ⟨-, startC⟩
      · exact free
      · rw [startC] at before'
        cases before'
    · by_cases rising : b.cState.rising = true
      · obtain ⟨high', -, notBefore⟩ := BitFsm.exec_rising i.cmd i.din rising
        rw [← fsm] at high' notBefore
        refine paced_still high' (keeps up high') high wait' fun before' => ?_
        rw [notBefore] at before'
        cases before'
      · rcases BitFsm.exec_up i.cmd i.din (by simpa using rising)
          (by simpa using before) with ⟨startE, high'⟩ | ⟨idle, last, -⟩
        · rw [← fsm] at startE high'
          refine paced_still high' (keeps up high') high wait' fun before' => ?_
          rw [startE] at before'
          cases before'
        · rw [← fsm] at idle
          by_cases high' : (b.step i).sclOen = true
          · refine paced_still high' (keeps up high') high wait' fun _ => ?_
            rw [idle]
            rfl
          · have low' : (b.step i).sclOen = false := by simpa using high'
            have sync := timed.not_sclSync_of_last last en
            have fresh := (pace_exec timed hp hi en sync).2.2
            rw [ageNext_fall high low']
            exact {
              low := fun _ => ⟨by rw [idle]; rfl, wait',
                by rw [idle]; simpa [BitState.lowRank] using fresh⟩
              free := fun high => absurd high high'
              still := fun high => absurd high high'
              rising := fun rising => by rw [idle] at rising; cases rising }
  · have low : b.sclOen = false := by simpa using high
    obtain ⟨before, wait, age⟩ := h.low low
    have sync : b.sclSync = false := sclSync_of_low low
    rcases BitFsm.exec_low i.cmd i.din before low with
      ⟨low', before', rank⟩ | ⟨high', rising, second, -⟩
    · have next := rank_step BitState.lowRank timed hp hi al sync fun _ => rank
      rw [← fsm] at low' before'
      rw [ageNext_of_low low]
      exact {
        low := fun _ => ⟨before', step_wait_of b i wait (Or.inl low), by omega⟩
        free := fun high => by rw [low'] at high; cases high
        still := fun high => by rw [low'] at high; cases high
        rising := fun rising => by
          rw [not_rising_of_before before'] at rising
          cases rising }
    · rw [← fsm] at high' rising
      exact h.step_release timed hp hi low en second high' rising

/-- A clock that is not enabled. -/
theorem Paced.step_wait (h : b.Paced p a line) (timed : b.Timed p k a line) (hp : 3 ≤ p)
    (hi : i.Running p) (en : b.clkEn = false)
    (fsm : (b.step i).toBitFsm = { b.toBitFsm with cmdAck := false })
    (keeps : line = true → (b.step i).sclOen = true → line' = true) :
    (b.step i).Paced p (ageNext a b (b.step i)) line' := by
  have oen' : (b.step i).sclOen = b.sclOen := by rw [fsm]
  have state' : (b.step i).cState = b.cState := by rw [fsm]
  constructor
  case low =>
    intro low
    rw [oen'] at low
    obtain ⟨before, wait, age⟩ := h.low low
    have pace := pace_wait timed hi en (sclSync_of_low low)
    rw [ageNext_of_low low, state']
    exact ⟨before, step_wait_of b i wait (Or.inl low), by omega⟩
  case free =>
    rw [oen', state']
    exact h.free
  case still =>
    intro high' still
    rw [oen'] at high'
    rw [state'] at still
    obtain ⟨up, oen, wait⟩ := h.still high' still
    exact ⟨keeps up (by rw [oen', high']), high', step_wait_of b i wait (Or.inr oen)⟩
  case rising =>
    intro rising
    rw [state'] at rising
    obtain ⟨high, way⟩ := h.rising rising
    rw [ageNext_of_high (by rw [oen', high]), oen']
    refine ⟨high, ?_⟩
    rcases way with ⟨age, oen, cnt, -, s, wait⟩ | ⟨age, oen, cnt, -, wait⟩ | ⟨up, oen, wait⟩
    · -- the clock after the release: the divider is going to be held
      have sync : b.sclSync = false := by rw [sclSync_eq, timed.settling.not_falls age]; rfl
      have nonzero : (b.cnt == 0) = false := by simp only [beq_eq_false_iff_ne]; omega
      refine .held (by omega) high ?_ ?_ ?_
      · rw [step_cnt hi, sync, wait, nonzero]
        simp only [Bool.or_self, Bool.false_eq_true, if_false]
        omega
      · rw [step_clkEn hi, sync, nonzero]
        rfl
      · simp [BitCtrl.step, high, oen, s]
    · -- held until the filtered line rises, which shows that the line has risen
      have sync : b.sclSync = false := by rw [sclSync_eq, timed.settling.not_falls age]; rfl
      have nonzero : (b.cnt == 0) = false := by simp only [beq_eq_false_iff_ne]; omega
      by_cases s : b.scl.s = true
      · have up := timed.settling.line_of_s (Nat.succ_pos _) (by omega) s
        exact .risen (keeps up (by rw [oen', high])) high (by simp [BitCtrl.step, oen, s])
      · refine .held (by omega) high ?_ ?_ ?_
        · rw [step_cnt hi, sync, wait, nonzero]
          simpa using cnt
        · rw [step_clkEn hi, sync, nonzero]
          rfl
        · simp [BitCtrl.step, wait, s]
    · exact .risen (keeps up (by rw [oen', high])) high (step_wait_of b i wait (Or.inr oen))

/-- **The pace is kept** in every clock without an arbitration loss that executes nothing but a
START while SCL is released. -/
theorem Paced.step (h : b.Paced p a line) (timed : b.Timed p k a line) (hp : 3 ≤ p)
    (hi : i.Running p) (al : b.al = false)
    (cmd : b.clkEn = true → b.cState = .idle → b.sclOen = true → i.cmd = .nop ∨ i.cmd = .start)
    (keeps : line = true → (b.step i).sclOen = true → line' = true) :
    (b.step i).Paced p (ageNext a b (b.step i)) line' := by
  rcases b.fsm_cases hi with ⟨lost, -⟩ | ⟨-, en, fsm⟩ | ⟨-, en, fsm⟩
  · rw [al] at lost
    cases lost
  · exact h.step_exec timed hp hi al en fsm (cmd en) keeps
  · exact h.step_wait timed hp hi en fsm keeps

/-- SCL is released after three divider periods, from the second state of a bit command. -/
theorem Paced.release (h : b.Paced p a line) (timed : b.Timed p k a line) (hp : 3 ≤ p)
    (hi : i.Running p) (al : b.al = false) (low : b.sclOen = false)
    (high : (b.step i).sclOen = true) :
    3 * (p + 1) ≤ a + 1 ∧ b.clkEn = true ∧ b.cState.periodRank = 4 ∧
      (b.step i).cState.rising = true := by
  rcases b.fsm_cases hi with ⟨lost, -⟩ | ⟨-, en, fsm⟩ | ⟨-, -, fsm⟩
  · rw [al] at lost
    cases lost
  · obtain ⟨before, -, age⟩ := h.low low
    have full := (pace_exec timed hp hi en (sclSync_of_low low)).1
    rw [fsm] at high ⊢
    rcases BitFsm.exec_low i.cmd i.din before low with
      ⟨low', -, -⟩ | ⟨-, rising, second, fourth⟩
    · rw [high] at low'
      cases low'
    · rw [second, full] at age
      exact ⟨by omega, en, fourth, rising⟩
  · rw [fsm] at high
    rw [low] at high
    cases high

/-- SCL is pulled low by the last state of a bit command. -/
theorem Paced.fall (h : b.Paced p a line) (hi : i.Running p) (al : b.al = false)
    (cmd : b.clkEn = true → b.cState = .idle → b.sclOen = true → i.cmd = .nop ∨ i.cmd = .start)
    (high : b.sclOen = true) (low : (b.step i).sclOen = false) :
    b.clkEn = true ∧ 1 ≤ b.cState.highRank := by
  rcases b.fsm_cases hi with ⟨lost, -⟩ | ⟨-, en, fsm⟩ | ⟨-, -, fsm⟩
  · rw [al] at lost
    cases lost
  · refine ⟨en, ?_⟩
    rw [fsm] at low
    by_cases before : b.cState.before = true
    · have high' := (BitFsm.exec_free i.cmd i.din (h.free high before) high
        fun idle => cmd en idle high).1
      rw [low] at high'
      cases high'
    · by_cases rising : b.cState.rising = true
      · have high' := (BitFsm.exec_rising i.cmd i.din rising).1
        rw [low] at high'
        cases high'
      · rcases BitFsm.exec_up i.cmd i.din (by simpa using rising)
          (by simpa using before) with ⟨-, high'⟩ | ⟨-, -, rank⟩
        · rw [low] at high'
          cases high'
        · exact rank
  · rw [fsm] at low
    rw [high] at low
    cases low

end Pace

end BitCtrl

end Rockling
