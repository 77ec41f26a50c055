import Rockling.Lib.FilterPair
import Rockling.Rtl.BusClock
import Rockling.Rtl.Peripherals

/-!
# The only controller on the bus

The bit controller gives up a command when it reads a low SDA that it has released, or when it sees
a STOP that it was not asked for. On a bus without other controllers neither can happen, and that
the targets on it behave is not enough for this: what the bit controller sees are the filtered
lines, which are made up of samples, and a START or STOP of its own still goes through the filter
when the next command is already there.

Two modes keep track of the filter. In the first one, SDA has been stable for a sampling period
whenever both lines are high, and no STOP can be seen (`Clean`). The second one is for the clocks
after the core was enabled or has released SDA in a STOP (`Flush`). Both lines are left alone then,
a STOP is seen only before the divider has let the next START begin, and after three sampling
periods the first mode is back.
-/

namespace Rockling

open TwoWire (Symbol)

/-- Only the last state of a STOP shows one. -/
theorem BitState.shows_stop {datum : Bool} {c : BitState} (shows : c.shows datum = [.stop]) :
    c = .stopD := by
  revert shows
  cases c <;> simp [BitState.shows]

namespace BitFsm

variable {x : BitFsm} {cmd : Cmd} {din : Bool}

/-- The state before the release of SCL is entered from the one before. -/
theorem exec_second (second : (x.exec cmd din).cState.lowRank = 2) : x.cState.lowRank = 1 := by
  obtain ⟨c, k, scl, sda, chk⟩ := x
  cases c <;> first | rfl | cases second | skip
  cases cmd <;> cases second

/-- The states of a STOP after the release of SCL. -/
theorem exec_stop
    (stop : (x.exec cmd din).cState = .stopC ∨ (x.exec cmd din).cState = .stopD) :
    x.cState = .stopB ∨ x.cState = .stopC := by
  obtain ⟨c, k, scl, sda, chk⟩ := x
  cases c <;> first | exact Or.inl rfl | exact Or.inr rfl | rcases stop with stop | stop <;>
    first | cases stop | (cases cmd <;> cases stop)

end BitFsm

namespace BitCtrl

/-- The clocks since the controller last moved SDA, one clock on. -/
def sdaNext (δ : ℕ) (b b' : BitCtrl) : ℕ := if b'.sdaOen = b.sdaOen then δ + 1 else 0

/-- How the controller prepares a release of SCL, `δ` clocks after it last moved SDA: SDA is set up
a divider period ahead, and the path of SCL is empty as long as the line is held. A STOP is only
made on a settled SCL. -/
structure Poised (p a δ : ℕ) (line : Bool) (b : BitCtrl) : Prop where
  set : b.sclOen = false → b.cState.lowRank = 2 → b.pace p ≤ δ + 1
  held : b.sclOen = true → line = false → b.scl.Empty
  stop : b.cState = .stopC ∨ b.cState = .stopD → 2 * filterPeriod p + 4 ≤ a

section

variable {p k a δ n : ℕ} {line line' data' datum : Bool} {b : BitCtrl} {i : BitIn}

theorem sdaNext_of_same {b' : BitCtrl} (same : b'.sdaOen = b.sdaOen) : sdaNext δ b b' = δ + 1 :=
  if_pos same

theorem Timed.line_of_low (timed : b.Timed p k a line) (low : b.sclOen = false) : line = false :=
  eq_false_of_ne_true fun up => by
    rw [timed.line_oen up] at low
    cases low

/-- The release of SCL finds its path empty. -/
theorem Paced.empty_of_release (h : b.Paced p a line) (timed : b.Timed p k a line) (hp : 3 ≤ p)
    (hi : i.Running p) (al : b.al = false) (low : b.sclOen = false)
    (high : (b.step i).sclOen = true) : b.scl.Empty := by
  have long := (h.release timed hp hi al low high).1
  have settled := timed.settling
  rw [timed.line_of_low low] at settled
  exact settled.empty (by unfold filterPeriod; omega)

/-- SCL only rises into an empty path. -/
theorem Poised.rise (h : b.Poised p a δ line) (timed : b.Timed p k a line)
    (paced : b.Paced p a line) (hp : 3 ≤ p) (hi : i.Running p) (al : b.al = false)
    (high : (b.step i).sclOen = true) (down : line = false) : b.scl.Empty := by
  by_cases before : b.sclOen = true
  · exact h.held before down
  · exact paced.empty_of_release timed hp hi al (eq_false_of_ne_true before) high

/-- One clock without an arbitration loss. -/
theorem Poised.step (h : b.Poised p a δ line) (timed : b.Timed p k a line)
    (paced : b.Paced p a line) (hp : 3 ≤ p) (hi : i.Running p) (al : b.al = false)
    (scl : i.sclI = line) (keeps : line = true → (b.step i).sclOen = true → line' = true)
    (high : (b.step i).cState.before = false → (b.step i).sclOen = true) :
    (b.step i).Poised p (ageNext a b (b.step i)) (sdaNext δ b (b.step i)) line' where
  set := by
    intro low second
    rcases b.fsm_cases hi with ⟨lost, -⟩ | ⟨-, en, fsm⟩ | ⟨-, en, fsm⟩
    · rw [al] at lost
      cases lost
    · rw [fsm] at low second
      have first := BitFsm.exec_second second
      have low' : b.sclOen = false := by
        by_contra high
        rw [Bool.not_eq_false] at high
        have before : b.cState.before = true := by
          revert first
          cases b.cState <;> decide
        have high' := (BitFsm.exec_free i.cmd i.din (paced.free high before) high fun idle => by
          rw [idle] at first
          cases first).1
        rw [high'] at low
        cases low
      have fresh := (pace_exec timed hp hi en (sclSync_of_low low')).2.2
      omega
    · rw [fsm] at low second
      have next := pace_wait timed hi en (sclSync_of_low low)
      have before := h.set low second
      rw [sdaNext_of_same (by rw [fsm])]
      omega
  held := by
    intro high' down'
    have down : line = false := eq_false_of_ne_true fun up => by
      rw [keeps up high'] at down'
      cases down'
    rw [step_scl hi, scl, down]
    exact (h.rise timed paced hp hi al high' down).step
  stop := by
    intro state
    have high' := high (by rcases state with state | state <;> rw [state] <;> rfl)
    rw [ageNext_of_high high']
    rcases b.fsm_cases hi with ⟨lost, -⟩ | ⟨-, en, fsm⟩ | ⟨-, -, fsm⟩
    · rw [al] at lost
      cases lost
    · rcases BitFsm.exec_stop (by rw [fsm] at state; exact state) with stopB | stopC
      · have low := (timed.setup (by rw [stopB]; rfl)).1
        have long := (paced.release timed hp hi al low high').1
        unfold filterPeriod
        omega
      · have before := h.stop (Or.inl stopC)
        omega
    · have before := h.stop (by rw [fsm] at state; exact state)
      omega

/-! ## The two modes -/

/-- No STOP can be seen, and where both lines are high none is going to be. -/
structure Clean (p δ : ℕ) (line data : Bool) (b : BitCtrl) : Prop where
  dip : b.scl.NoDip line
  stop : LineFilter.NoStop line data b.scl b.sda
  sda : b.sclOen = true → b.sdaOen = true → filterPeriod p + 2 ≤ δ

/-- Both lines have been left alone for `n` clocks. -/
structure Flush (p n a δ : ℕ) (line data : Bool) (b : BitCtrl) : Prop where
  high : line = true
  scl : b.scl.Steady (filterPeriod p) b.filterCnt n line
  sda : b.sda.Steady (filterPeriod p) b.filterCnt n data
  state : b.cState = .idle ∨ b.cState = .startA
  pace : b.cState.lowRank * (p + 1) + b.pace p ≤ n + 1
  calm : 2 * filterPeriod p + 4 ≤ a ∨ (b.scl.c0 = true ∧ b.scl.c1 = true ∧
    (b.scl.s = true → b.scl.maj = true) ∧ (b.scl.d = true → b.scl.s = true))
  age : n ≤ δ

/-- The mode of the filter. -/
def Listening (p a δ : ℕ) (line data : Bool) (b : BitCtrl) : Prop :=
  b.Clean p δ line data ∨ ∃ n < 3 * filterPeriod p + 3, b.Flush p n a δ line data

/-- After three sampling periods the first mode is back. -/
theorem Flush.listening {data : Bool} (h : b.Flush p n a δ line data) :
    b.Listening p a δ line data := by
  have age := h.age
  by_cases soon : n < 3 * filterPeriod p + 3
  · exact Or.inr ⟨n, soon, h⟩
  · refine Or.inl ⟨h.scl.noDip (by omega), h.sda.noStop (Nat.succ_pos _) (by omega), fun _ _ => ?_⟩
    unfold filterPeriod at *
    omega

/-- The filtered SCL line does not fall. -/
theorem Flush.not_sclSync {data : Bool} (h : b.Flush p n a δ line data)
    (timed : b.Timed p k a line) : b.sclSync = false := by
  rw [sclSync_eq]
  rcases h.calm with age | ⟨-, -, -, d⟩
  · rw [timed.settling.not_falls age]
    rfl
  · revert d
    unfold LineFilter.falls
    cases b.scl.d <;> cases b.scl.s <;> simp

/-- While both lines are left alone the controller at most begins a START. -/
theorem Flush.fsm {data : Bool} (h : b.Flush p n a δ line data) (soon : n < 3 * filterPeriod p + 3)
    (timed : b.Timed p k a line) (hp : 10 ≤ p) (hi : i.Running p) (al : b.al = false)
    (cmd : b.clkEn = true → b.cState = .idle → b.sclOen = true → i.cmd = .nop ∨ i.cmd = .start) :
    (b.step i).sclOen = true ∧ (b.step i).sdaOen = b.sdaOen ∧
      ((b.step i).cState = .idle ∨ (b.step i).cState = .startA) ∧
      ((b.step i).cState.lowRank * (p + 1) + (b.step i).pace p ≤ n + 2) ∧
      ((b.step i).cState = .idle ∨ p ≤ n) := by
  have high := timed.line_oen h.high
  have pace := h.pace
  have sync := h.not_sclSync timed
  have zero : BitState.idle.lowRank = 0 := rfl
  have one : BitState.startA.lowRank = 1 := rfl
  rcases b.fsm_cases hi with ⟨lost, -⟩ | ⟨-, en, fsm⟩ | ⟨-, en, fsm⟩
  · rw [al] at lost
    cases lost
  · obtain ⟨full, -, fresh⟩ := pace_exec timed (by omega) hi en sync
    have idle : b.cState = .idle := h.state.resolve_right fun startA => by
      rw [startA, one, full] at pace
      unfold filterPeriod at soon
      omega
    rw [idle, zero, full] at pace
    have exec : (b.step i).toBitFsm = ⟨i.cmd.first, false, b.sclOen, b.sdaOen, false⟩ := by
      rw [fsm, BitFsm.exec, idle]
    rw [exec]
    rcases cmd en idle high with nop | start
    · rw [nop]
      exact ⟨high, rfl, Or.inl rfl, by rw [Cmd.first, zero]; omega, Or.inl rfl⟩
    · rw [start]
      exact ⟨high, rfl, Or.inr rfl, by rw [Cmd.first, one]; omega, Or.inr (by omega)⟩
  · have next := pace_wait timed hi en sync
    have state : (b.step i).cState = b.cState := by rw [fsm]
    rw [state]
    refine ⟨by rw [fsm]; exact high, by rw [fsm], h.state, by omega, ?_⟩
    refine h.state.imp_right fun startA => ?_
    rw [startA, one] at pace
    omega

/-- What is left alone stays so. -/
theorem Flush.step (h : b.Flush p n a δ line i.sdaI) (soon : n < 3 * filterPeriod p + 3)
    (timed : b.Timed p k a line) (hp : 10 ≤ p) (hi : i.Running p) (al : b.al = false)
    (scl : i.sclI = line)
    (cmd : b.clkEn = true → b.cState = .idle → b.sclOen = true → i.cmd = .nop ∨ i.cmd = .start)
    (keeps : line = true → (b.step i).sclOen = true → line' = true)
    (stays : line = true → line' = true → (b.step i).sdaOen = b.sdaOen → data' = i.sdaI) :
    (b.step i).Flush p (n + 1) (ageNext a b (b.step i)) (sdaNext δ b (b.step i)) line' data' ∧
      ((b.step i).stoCondition = true → (b.step i).cState = .idle) := by
  obtain ⟨high', same, state, pace, late⟩ := h.fsm soon timed hp hi al cmd
  have up := h.high
  have up' := keeps up high'
  have tick := timed.filterCnt_lt
  rw [ageNext_of_high high', sdaNext_of_same same, stays up up' same, up']
  constructor
  · refine ⟨rfl, ?_, ?_, state, pace, ?_, Nat.succ_le_succ h.age⟩
    · have next := h.scl.step tick
      rw [up] at scl next
      rwa [step_filterCnt hi, step_scl hi, scl]
    · rw [step_filterCnt hi, step_sda hi]
      exact h.sda.step tick
    · rcases h.calm with age | ⟨c0, c1, s, d⟩
      · exact Or.inl (by omega)
      · right
        rw [step_scl hi]
        exact ⟨scl.trans up, c0, LineFilter.maj_rises c1, s⟩
  · intro sto
    refine late.resolve_right fun after => ?_
    have still := h.sda.d_eq_s (by unfold filterPeriod; omega)
    simp [BitCtrl.step, still] at sto

/-- No STOP can be seen. -/
theorem Clean.quiet {data : Bool} (h : b.Clean p δ line data) :
    (b.step i).stoCondition = false := by
  have quiet := h.stop.quiet
  rw [BitCtrl.step, quiet, Bool.and_false]

/-- A STOP of the controller. -/
theorem Clean.step_stop (poised : b.Poised p a δ line) (timed : b.Timed p k a line)
    (paced : b.Paced p a line) (hp : 10 ≤ p) (hi : i.Running p) (en : b.clkEn = true)
    (fsm : (b.step i).toBitFsm = b.toBitFsm.exec i.cmd i.din) (stopD : b.cState = .stopD)
    (keeps : line = true → (b.step i).sclOen = true → line' = true) :
    (b.step i).Flush p 0 (ageNext a b (b.step i)) (sdaNext δ b (b.step i)) line' data' := by
  have exec : (b.step i).toBitFsm = ⟨.idle, true, true, true, false⟩ := by
    rw [fsm, BitFsm.exec, stopD]
  have high' : (b.step i).sclOen = true := by rw [exec]
  have state : (b.step i).cState = .idle := by rw [exec]
  have age := poised.stop (Or.inr stopD)
  have up := (paced.still (timed.last (by rw [stopD]; rfl)).1 (by rw [stopD]; rfl)).1
  have tick : (b.step i).filterCnt < filterPeriod p := by
    rw [step_filterCnt hi]
    exact LineFilter.tickNext_lt timed.filterCnt_lt
  have sync : b.sclSync = false := by
    rw [sclSync_eq, timed.settling.not_falls age]
    rfl
  have fresh := (pace_exec timed (by omega) hi en sync).2.2
  rw [ageNext_of_high high']
  refine ⟨keeps up high', .start tick, .start tick, Or.inl state, ?_, Or.inl (by omega),
    Nat.zero_le _⟩
  rw [state, show BitState.idle.lowRank = 0 from rfl]
  omega

/-- One clock from the first mode. -/
theorem Clean.step (h : b.Clean p δ line i.sdaI) (poised : b.Poised p a δ line)
    (drives : b.Drives datum i.din) (timed : b.Timed p k a line) (paced : b.Paced p a line)
    (hp : 10 ≤ p) (hi : i.Running p) (al : b.al = false) (scl : i.sclI = line)
    (keeps : line = true → (b.step i).sclOen = true → line' = true)
    (oen : line' = true → (b.step i).sclOen = true)
    (driven : data' = true → (b.step i).sdaOen = true)
    (fills : filterPeriod p + 2 ≤ sdaNext δ b (b.step i) → line' = true → data' = true →
      (b.step i).sda.c0 = true ∧ (b.step i).sda.c1 = true ∧ (b.step i).sda.f0 = true) :
    (b.step i).Listening p (ageNext a b (b.step i)) (sdaNext δ b (b.step i)) line' data' := by
  -- all but the STOP keep SDA stable until the next fall of SCL
  have clean (sda : (b.step i).sclOen = true → (b.step i).sdaOen = true →
      filterPeriod p + 2 ≤ sdaNext δ b (b.step i)) :
      (b.step i).Clean p (sdaNext δ b (b.step i)) line' data' := by
    have dip := h.dip
    have stop := h.stop
    refine ⟨?_, ?_, sda⟩
    · rw [step_scl hi, scl]
      exact dip.step fun down up => poised.rise timed paced (by omega) hi al (oen up) down
    · have now := fun up set => fills (sda (oen up) (driven set)) up set
      rw [step_sda hi] at now ⊢
      rw [step_scl hi, scl]
      exact stop.step dip now
  rcases b.fsm_cases hi with ⟨lost, -⟩ | ⟨-, en, fsm⟩ | ⟨-, -, fsm⟩
  · rw [al] at lost
    cases lost
  · rcases drives.moves timed paced en fsm with ⟨-, low', -⟩ | ⟨high', same, -, -, -⟩ |
      ⟨-, low', -, -⟩ | ⟨-, -, -, after, -, -⟩ | ⟨-, -, -, -, shows, -⟩
    · exact Or.inl (clean fun high' => by rw [low'] at high'; cases high')
    · refine Or.inl (clean fun _ set => ?_)
      rw [sdaNext_of_same same]
      by_cases high : b.sclOen = true
      · have before := h.sda high (same ▸ set)
        omega
      · -- the release of SCL
        have low : b.sclOen = false := eq_false_of_ne_true high
        have before := (paced.low low).1
        rw [fsm] at high'
        rcases BitFsm.exec_low i.cmd i.din before low with ⟨low', -⟩ | ⟨-, -, second, -⟩
        · rw [low'] at high'
          cases high'
        · have ahead := poised.set low second
          rw [pace, if_pos en] at ahead
          unfold filterPeriod
          omega
    · exact Or.inl (clean fun high' => by rw [low'] at high'; cases high')
    · exact Or.inl (clean fun _ set => by rw [after] at set; cases set)
    · exact Or.inr ⟨0, by omega, Clean.step_stop poised timed paced hp hi en fsm
        (BitState.shows_stop shows) keeps⟩
  · refine Or.inl (clean fun high' set => ?_)
    rw [fsm] at high' set
    have before := h.sda high' set
    rw [sdaNext_of_same (by rw [fsm])]
    omega

/-- **The mode of the filter is kept**, and a STOP that is seen finds the bit controller idle. -/
theorem Listening.step (h : b.Listening p a δ line i.sdaI) (poised : b.Poised p a δ line)
    (drives : b.Drives datum i.din) (timed : b.Timed p k a line) (paced : b.Paced p a line)
    (hp : 10 ≤ p) (hi : i.Running p) (al : b.al = false) (scl : i.sclI = line)
    (cmd : b.clkEn = true → b.cState = .idle → b.sclOen = true → i.cmd = .nop ∨ i.cmd = .start)
    (keeps : line = true → (b.step i).sclOen = true → line' = true)
    (oen : line' = true → (b.step i).sclOen = true)
    (stays : line = true → line' = true → (b.step i).sdaOen = b.sdaOen → data' = i.sdaI)
    (driven : data' = true → (b.step i).sdaOen = true)
    (fills : filterPeriod p + 2 ≤ sdaNext δ b (b.step i) → line' = true → data' = true →
      (b.step i).sda.c0 = true ∧ (b.step i).sda.c1 = true ∧ (b.step i).sda.f0 = true) :
    (b.step i).Listening p (ageNext a b (b.step i)) (sdaNext δ b (b.step i)) line' data' ∧
      ((b.step i).stoCondition = true → (b.step i).cState = .idle) := by
  rcases h with clean | ⟨n, soon, flush⟩
  · refine ⟨clean.step poised drives timed paced hp hi al scl keeps oen driven fills, fun sto => ?_⟩
    rw [clean.quiet] at sto
    cases sto
  · obtain ⟨next, guard⟩ := flush.step soon timed hp hi al scl cmd keeps stays
    exact ⟨next.listening, guard⟩

/-- No arbitration is lost in a clock in which SDA is as the controller drives it and no unwanted
STOP is seen. -/
theorem al_next {data : Bool} (sampled : b.cState.slot = true → b.Sampled p a line data)
    (timed : b.Timed p k a line) (paced : b.Paced p a line)
    (chk : b.sdaChk = true → b.cState = .wrD)
    (guard : b.stoCondition = true → b.cState = .idle)
    (yields : line = true → b.cState = .wrD → b.sdaOen = true → data = true) :
    (b.step i).al = false := by
  have quiet : (b.cState != .idle && b.stoCondition && !b.cmdStop) = false := by
    cases sto : b.stoCondition
    · rw [Bool.and_false, Bool.false_and]
    · rw [guard sto]
      rfl
  have read : (b.sdaChk && !b.sda.s && b.sdaOen) = false := by
    cases set : b.sdaChk
    · rfl
    · have wrD := chk set
      have slot : b.cState.slot = true := by rw [wrD]; rfl
      have high := timed.up (BitState.not_before_of_slot slot)
      obtain ⟨up, oen, wait⟩ := paced.still high (by rw [wrD]; rfl)
      have level := (sampled slot).read oen wait
      cases sda : b.sdaOen
      · rw [Bool.and_false]
      · rw [((sampled slot).tracks up).s level.2.1, yields up wrD sda]
        rfl
  rw [BitCtrl.step, quiet, read]
  exact Bool.and_false _

end

end BitCtrl

/-! ## One clock of the core -/

namespace RTLI2C

/-- The first clocks after the core was enabled: it waits for a command while the filter moves from
its reset values to the levels of the lines. -/
structure Beginning (p k δ : ℕ) (line data : Bool) (s : RTLI2C) : Prop where
  soon : k < 4
  command : k ≤ 2 → s.command = 0
  idle : s.byte.cState = .idle
  high : line = true
  scl : s.byte.bit.scl.Steady (filterPeriod p) s.byte.bit.filterCnt k line
  sda : s.byte.bit.sda.Steady (filterPeriod p) s.byte.bit.filterCnt k data
  tick : s.byte.bit.filterCnt = if k = 0 then 0 else filterPeriod p - k
  cnt : p ≤ s.byte.bit.cnt + k
  age : k ≤ δ

/-- What holds in every clock of a core that is the only controller on its bus. -/
structure Alone (free : Bool) (p k a δ : ℕ) (line data : Bool) (s : RTLI2C) : Prop
    extends Paced p k a line s where
  al : s.al = false
  follows : Follows free s
  drives : s.Drives
  stalls : s.byte.bit.Stalls s.byte.coreCmd
  sampled : s.byte.bit.cState.slot = true → s.byte.bit.Sampled p a line data
  poised : s.byte.bit.Poised p a δ line
  guard : s.byte.bit.stoCondition = true → s.byte.bit.cState = .idle
  mode : s.Beginning p k δ line data ∨ s.byte.bit.Listening p a δ line data

section

variable {free : Bool} {p k a δ : ℕ} {line line' data' : Bool} {s : RTLI2C} {i : In}

/-- The filtered SCL line rests in the third clock, between two sampling clocks. -/
theorem Beginning.rests {data : Bool} (h : s.Beginning p 3 δ line data) (hp : 10 ≤ p)
    (timed : s.byte.bit.Timed p 3 a line) :
    s.byte.bit.scl.s = s.byte.bit.scl.maj ∧ s.byte.bit.scl.d = s.byte.bit.scl.s := by
  have spaced := timed.spaced (by omega)
  have tick : s.byte.bit.filterCnt + 3 = filterPeriod p := by
    rw [h.tick, if_neg (by decide)]
    unfold filterPeriod
    omega
  constructor
  · by_contra moved
    have := spaced.s moved
    omega
  · by_contra moved
    have := spaced.d moved
    omega

/-- One clock of the beginning. -/
theorem Beginning.step (h : s.Beginning p k δ line i.sda) (paced : Paced p k a line s)
    (drives : s.Drives) (hp : 10 ≤ p) (on : s.On p) (al : s.al = false)
    (writes : ∀ v, i.write .command = some v → 2 ≤ k) (scl : i.scl = line)
    (keeps : line = true → (s.step i).sclOen = true → line' = true)
    (stays : line = true → line' = true → (s.step i).sdaOen = s.sdaOen → data' = i.sda) :
    (s.step i).Beginning p (k + 1) (BitCtrl.sdaNext δ s.byte.bit (s.step i).byte.bit) line' data' ∨
      (s.step i).byte.bit.Listening p (BitCtrl.ageNext a s.byte.bit (s.step i).byte.bit)
        (BitCtrl.sdaNext δ s.byte.bit (s.step i).byte.bit) line' data' := by
  have running := on.running i
  have timed := paced.timed
  have bit := paced.inStep.bit_idle h.idle
  have bit' := paced.inStep.bit_stays_idle (i := i) on (Or.inl h.idle)
  have oen : s.sclOen = true := timed.line_oen h.high
  have oen' : (s.step i).sclOen = true := by rw [step_sclOen_idle on al bit, oen]
  have up' := keeps h.high oen'
  have sda : (s.step i).sdaOen = s.sdaOen := by
    have before : s.sdaOen = true := drives.idle oen (Or.inl bit)
    have after : (s.step i).sdaOen = true := step_released drives on al oen' (Or.inl bit')
    rw [before, after]
  have data := stays h.high up' sda
  have sclI : (s.byte.bitIn (s.byteIn i)).sclI = line' := scl.trans (h.high.trans up'.symm)
  have sdaI : (s.byte.bitIn (s.byteIn i)).sdaI = data' := data.symm
  have tick := timed.filterCnt_lt
  have path := h.scl
  have path' := h.sda
  rw [h.high, ← up'] at path
  rw [← data] at path'
  have next : (s.step i).byte.bit.scl.Steady (filterPeriod p) (s.step i).byte.bit.filterCnt (k + 1)
      line' := by
    rw [step_bit, BitCtrl.step_filterCnt running, BitCtrl.step_scl running, sclI]
    exact path.step tick
  have next' : (s.step i).byte.bit.sda.Steady (filterPeriod p) (s.step i).byte.bit.filterCnt (k + 1)
      data' := by
    rw [step_bit, BitCtrl.step_filterCnt running, BitCtrl.step_sda running, sdaI]
    exact path'.step tick
  have age : k + 1 ≤ BitCtrl.sdaNext δ s.byte.bit (s.step i).byte.bit := by
    rw [BitCtrl.sdaNext_of_same sda]
    exact Nat.succ_le_succ h.age
  have soon := h.soon
  by_cases last : k = 3
  · subst last
    right
    obtain ⟨still, still'⟩ := h.rests hp timed
    have sync : s.byte.bit.sclSync = false := by
      rw [BitCtrl.sclSync, still']
      cases s.byte.bit.scl.s <;> rfl
    have pace : (s.step i).byte.bit.pace p ≤ 5 := by
      by_cases en : s.byte.bit.clkEn = true
      · have fresh := (BitCtrl.pace_exec timed (by omega) running en sync).2.2
        exact fresh.trans (by omega)
      · have wait := BitCtrl.pace_wait timed running (eq_false_of_ne_true en) sync
        have before : s.byte.bit.pace p ≤ 3 := by
          have cnt := h.cnt
          rw [BitCtrl.pace, if_neg en]
          omega
        exact wait.trans (by omega)
    have c1 : s.byte.bit.scl.c1 = true := (path.c1 (by omega)).trans up'
    refine BitCtrl.Flush.listening (n := 4) ⟨up', next, next', Or.inl bit', ?_, Or.inr ?_, age⟩
    · rw [bit', show BitState.idle.lowRank = 0 from rfl]
      omega
    · refine ⟨(next.c0 (by omega)).trans up', (next.c1 (by omega)).trans up', ?_, ?_⟩
      · rw [step_bit, BitCtrl.step_scl running]
        exact LineFilter.maj_rises c1
      · rw [step_bit, BitCtrl.step_scl running]
        exact fun d => still.symm.trans d
  · left
    have quiet : k ≤ 1 → i.write .command = none := fun early => by
      cases hw : i.write .command with
      | none => rfl
      | some v =>
        have := writes v hw
        omega
    have command := h.command (by omega)
    refine ⟨by omega, fun early => ?_, ?_, up', next, next', ?_, ?_, age⟩
    · rw [step_command (quiet (by omega)), command, ite_self]
    · rw [step_idle on.rst al h.idle (go_of_command_zero command)]
      exact h.idle
    · have before := h.tick
      rw [step_bit, BitCtrl.step_filterCnt running, LineFilter.tickNext]
      unfold filterPeriod at *
      split_ifs at * <;> omega
    · have before := h.cnt
      rw [step_bit, BitCtrl.step_cnt running]
      split_ifs <;> omega

/-- **One clock of the only controller on a bus.** -/
theorem Alone.step (h : Alone free p k a δ line i.sda s) (hp : 10 ≤ p) (on : s.On p)
    (commands : ∀ v, i.write .command = some v → 2 ≤ k ∧ s.command = 0 ∧ s.byte.cState = .idle ∧
      isTransfer v = true ∧ (free = true → v.getLsbD 7 = true))
    (scl : i.scl = line) (keeps : line = true → (s.step i).sclOen = true → line' = true)
    (oen : line' = true → (s.step i).sclOen = true)
    (stays : line = true → line' = true → (s.step i).sdaOen = s.sdaOen → data' = i.sda)
    (driven : data' = true → (s.step i).sdaOen = true)
    (yields : line = true → s.byte.bit.cState = .wrD → s.sdaOen = true → i.sda = true)
    (fills : filterPeriod p + 2 ≤ BitCtrl.sdaNext δ s.byte.bit (s.step i).byte.bit →
      line' = true → data' = true → (s.step i).byte.bit.sda.c0 = true ∧
        (s.step i).byte.bit.sda.c1 = true ∧ (s.step i).byte.bit.sda.f0 = true) :
    Alone (match i.write .command with | some v => v.getLsbD 6 | none => free) p (k + 1)
      (BitCtrl.ageNext a s.byte.bit (s.step i).byte.bit)
      (BitCtrl.sdaNext δ s.byte.bit (s.step i).byte.bit) line' data' (s.step i) := by
  have hp' : 3 ≤ p := by omega
  have running := on.running i
  have timed := h.timed
  have paced := h.paced
  have polite : s.Polite i := fun v hw =>
    let ⟨_, command, idle, asks, _⟩ := commands v hw
    ⟨command, idle, h.al, asks⟩
  have claims : s.Claims i := fun v hw => by
    obtain ⟨-, command, -, -, sta⟩ := commands v hw
    by_cases bus : free = true
    · exact Or.inl (sta bus)
    · exact Or.inr (h.follows.quiet command (eq_false_of_ne_true bus))
  have next := h.toPaced.step hp' on h.al polite claims scl keeps oen
  have cmd := fun en idle high => h.owned.cmd h.inStep en idle high
  have up : (s.step i).byte.bit.cState.slot = true → (s.step i).byte.bit.sclOen = true :=
    fun slot => next.timed.up (BitState.not_before_of_slot slot)
  refine ⟨next, ?_, ?_, ?_, ?_, ?_, ?_, ?_, ?_⟩
  · exact BitCtrl.al_next h.sampled timed paced h.inStep.sdaChk h.guard yields
  · exact h.follows.step h.toPaced hp' on h.al polite
  · exact h.drives.step h.toPaced on hp' h.al polite
  · refine BitCtrl.Stalls.step h.stalls timed hp' running fun lost => ?_
    rw [show s.byte.bit.al = false from h.al] at lost
    cases lost
  · refine BitCtrl.Sampled.step line' data' h.sampled h.stalls timed paced hp' running h.al scl up
      keeps fun slot slot' high => ?_
    have same := h.drives.sda_stays h.toPaced on h.al slot' (up slot') (timed.line_oen high)
    exact stays high (keeps high (up slot')) same
  · exact h.poised.step timed paced hp' running h.al scl keeps next.timed.up
  · rcases h.mode with begins | listening
    · exact fun _ => h.inStep.bit_stays_idle on (Or.inl begins.idle)
    · exact (listening.step h.poised h.drives timed paced hp running h.al scl cmd keeps oen stays
        driven fills).2
  · rcases h.mode with begins | listening
    · exact begins.step h.toPaced h.drives hp on h.al (fun v hw => (commands v hw).1) scl keeps
        stays
    · exact Or.inr (listening.step h.poised h.drives timed paced hp running h.al scl cmd keeps oen
        stays driven fills).1

end

/-! ## Runs -/

/-- A run of the only controller on a bus. The core is left alone for two clocks after it was
enabled; from then on the commands are those of a `SerialRun`. -/
structure SoleRun (p t₀ : ℕ) (hold pull : ℕ → Bool) (r : Run) : Prop where
  enabled : EnabledRun p t₀ r
  scl : Stretching r hold
  bus : Peripherals p r pull
  commands : ∀ t v, t₀ ≤ t → (r.inp t).write .command = some v →
    t₀ + 2 ≤ t ∧ (r.st t).command = 0 ∧ (r.st t).byte.cState = .idle ∧ isTransfer v = true ∧
      (freeAt r t = true → v.getLsbD 7 = true)

/-- The clocks since the controller last moved SDA, `k` clocks after `t₀`. -/
def sdaAge (r : Run) (t₀ : ℕ) : ℕ → ℕ
  | 0 => 0
  | k + 1 => BitCtrl.sdaNext (sdaAge r t₀ k) (bitAt r (t₀ + k)) (bitAt r (t₀ + k + 1))

section

variable {p t₀ : ℕ} {hold pull : ℕ → Bool} {r : Run}

theorem sdaAge_le (k : ℕ) : sdaAge r t₀ k ≤ k := by
  induction k with
  | zero => exact le_rfl
  | succ k ih =>
    rw [sdaAge, BitCtrl.sdaNext]
    split_ifs
    · exact Nat.succ_le_succ ih
    · exact Nat.zero_le _

/-- For so long SDA has not been moved. -/
theorem sdaOen_of_sdaAge {k t : ℕ} (high : t ≤ t₀ + k) (low : t₀ + k ≤ t + sdaAge r t₀ k) :
    (r.st t).sdaOen = (r.st (t₀ + k)).sdaOen := by
  induction k generalizing t with
  | zero =>
    rw [sdaAge] at low
    rw [show t = t₀ + 0 by omega]
  | succ k ih =>
    rw [sdaAge, BitCtrl.sdaNext] at low
    split_ifs at low with same
    · by_cases last : t = t₀ + (k + 1)
      · rw [last]
      · exact (ih (by omega) (by omega)).trans same.symm
    · rw [show t = t₀ + (k + 1) by omega]

/-- The sampling counter stays below its period. -/
theorem EnabledRun.filterCnt_lt (run : EnabledRun p t₀ r) (scl : Stretching r hold) {t : ℕ}
    (late : t₀ ≤ t) : (bitAt r t).filterCnt < filterPeriod p := by
  induction t, late using Nat.le_induction with
  | base =>
    obtain ⟨-, a, waiting⟩ := run.waiting scl t₀ le_rfl
    rw [bitAt, waiting.filterCnt]
    exact Nat.succ_pos _
  | succ t late ih =>
    rw [bitAt, r.next, step_bit, BitCtrl.step_filterCnt ((run.on t late).running _)]
    exact LineFilter.tickNext_lt ih

/-- A level that stays fills the path of SDA. -/
theorem EnabledRun.fills (run : EnabledRun p t₀ r) (scl : Stretching r hold) {t : ℕ} (level : Bool)
    (late : t₀ ≤ t) (n : ℕ) (stays : ∀ u, t ≤ u → u < t + n → (r.inp u).sda = level) :
    (bitAt r (t + n)).sda.Filling (filterPeriod p) (bitAt r (t + n)).filterCnt n level := by
  induction n with
  | zero => exact .start (run.filterCnt_lt scl late)
  | succ n ih =>
    have running := (run.on (t + n) (by omega)).running (r.inp (t + n))
    have next := (ih fun u low high => stays u low (by omega)).step
      (run.filterCnt_lt scl (show t₀ ≤ t + n by omega))
    have level' :
        ((r.st (t + n)).byte.bitIn ((r.st (t + n)).byteIn (r.inp (t + n)))).sdaI = level :=
      stays (t + n) (by omega) (by omega)
    rw [← Nat.add_assoc, bitAt, r.next, step_bit, BitCtrl.step_filterCnt running,
      BitCtrl.step_sda running, level']
    exact next

/-- Where both lines are high and the controller has not moved SDA for a sampling period, the path
of SDA is filled. -/
theorem Peripherals.filled (bus : Peripherals p r pull) (run : EnabledRun p t₀ r)
    (scl : Stretching r hold) {k : ℕ} (age : filterPeriod p + 2 ≤ sdaAge r t₀ k)
    (up : sclLine r (t₀ + k) = true) (set : (r.inp (t₀ + k)).sda = true) :
    (bitAt r (t₀ + k)).sda.c0 = true ∧ (bitAt r (t₀ + k)).sda.c1 = true ∧
      (bitAt r (t₀ + k)).sda.f0 = true := by
  have le : sdaAge r t₀ k ≤ k := sdaAge_le k
  obtain ⟨u, eq⟩ : ∃ u, t₀ + k = u + (filterPeriod p + 2) :=
    ⟨t₀ + k - (filterPeriod p + 2), by omega⟩
  have fill := run.fills scl (t := u) true (by omega) (filterPeriod p + 2)
      fun x low high => by
    obtain ⟨n, rest⟩ := Nat.exists_eq_add_of_le (show x ≤ t₀ + k by omega)
    have oen : (r.st x).sdaOen = (r.st (t₀ + k)).sdaOen :=
      sdaOen_of_sdaAge (by omega) (by omega)
    have pulls := bus.pull_eq (t := x) (n := n) (by omega) (rest ▸ up)
    rw [bus.line, oen, pulls, ← rest, ← bus.line, set]
  rw [← eq] at fill
  exact ⟨fill.c0 (by omega), fill.c1 (by omega), fill.f0 (by omega)⟩

/-- The clock in which the core is enabled. -/
theorem Waiting.alone {a : ℕ} {data : Bool} {s : RTLI2C} (h : s.Waiting a)
    (cnt : s.byte.bit.cnt = p) : Alone true p 0 a 0 true data s := by
  have idle : s.byte.bit.cState = .idle := by rw [h.dormant.released]; rfl
  have high : s.byte.bit.sclOen = true := h.dormant.sclOen
  have tick : s.byte.bit.filterCnt < filterPeriod p := by
    rw [h.filterCnt]
    exact Nat.succ_pos _
  refine ⟨h.paced cnt, h.dormant.al, ?_, ?_, ?_, ?_, ?_, fun _ => idle, Or.inl ?_⟩
  · exact {
      command := fun transfers => absurd h.command (ne_zero_of_transfers transfers)
      quiet := fun _ free => by cases free
      done := fun done => by rw [h.done] at done; cases done }
  · exact {
      sda := fun v level => by rw [idle] at level; cases level
      idle := fun _ _ => h.dormant.sdaOen
      write := fun cmd => by rw [idle] at cmd; cases cmd }
  · exact {
      wait := fun wait => by rw [h.wait] at wait; cases wait
      fresh := fun _ low => by rw [h.dsclOen] at low; cases low }
  · intro slot
    rw [idle] at slot
    cases slot
  · exact {
      set := fun low => by rw [high] at low; cases low
      held := fun _ down => by cases down
      stop := fun stop => by rw [idle] at stop; rcases stop with stop | stop <;> cases stop }
  · exact ⟨by decide, fun _ => h.command, h.dormant.idle, rfl, .start tick, .start tick,
      h.filterCnt, le_of_eq cnt.symm, le_rfl⟩

/-- **Every clock of the only controller on a bus.** -/
theorem SoleRun.alone (run : SoleRun p t₀ hold pull r) (hp : 10 ≤ p) :
    ∃ a₀, ∀ k, Alone (freeAt r (t₀ + k)) p k (ageAt r t₀ a₀ k) (sdaAge r t₀ k)
      (sclLine r (t₀ + k)) (r.inp (t₀ + k)).sda (r.st (t₀ + k)) := by
  obtain ⟨high, a₀, waiting⟩ := run.enabled.waiting run.scl t₀ le_rfl
  refine ⟨a₀, fun k => ?_⟩
  induction k with
  | zero =>
    rw [Nat.add_zero, high, run.enabled.freeAt le_rfl]
    exact waiting.alone run.enabled.cnt
  | succ k ih =>
    have late : t₀ ≤ t₀ + k := Nat.le_add_right _ _
    have keeps := run.scl.keeps (t := t₀ + k)
    have oen := run.scl.oen (t := t₀ + k + 1)
    have fills := run.bus.filled run.enabled run.scl (k := k + 1)
    have stays : sclLine r (t₀ + k) = true → sclLine r (t₀ + k + 1) = true →
        (r.st (t₀ + k + 1)).sdaOen = (r.st (t₀ + k)).sdaOen →
          (r.inp (t₀ + k + 1)).sda = (r.inp (t₀ + k)).sda := by
      intro _ up same
      rw [run.bus.line, run.bus.line, same, run.bus.pull_eq (n := 1) (by omega) up]
    have driven : (r.inp (t₀ + k + 1)).sda = true → (r.st (t₀ + k + 1)).sdaOen = true := by
      intro set
      rw [run.bus.line, Bool.and_eq_true] at set
      exact set.1
    have yields : sclLine r (t₀ + k) = true → (bitAt r (t₀ + k)).cState = .wrD →
        (r.st (t₀ + k)).sdaOen = true → (r.inp (t₀ + k)).sda = true := by
      intro up wrD set
      rw [run.bus.line, set, run.bus.yields _ up (by rw [wrD]; rfl) (by rw [wrD]; rfl)]
      rfl
    have commands := fun v hw => run.commands (t₀ + k) v late hw
    rw [← Nat.add_assoc, sdaAge, bitAt, bitAt, r.next] at fills
    rw [r.next] at keeps oen stays driven
    have next := ih.step hp (run.enabled.on _ late)
      (fun v hw => ⟨by have := (commands v hw).1; omega, (commands v hw).2⟩) rfl keeps oen stays
      driven yields fills
    rw [← r.next] at next
    exact next

/-- No arbitration is lost. -/
theorem SoleRun.noAl (run : SoleRun p t₀ hold pull r) (hp : 10 ≤ p) (t : ℕ) :
    (r.st t).al = false := by
  rcases Nat.le_total t t₀ with early | late
  · obtain ⟨-, a, waiting⟩ := run.enabled.waiting run.scl t early
    exact waiting.dormant.al
  · obtain ⟨a₀, alone⟩ := run.alone hp
    obtain ⟨k, rfl⟩ := Nat.exists_eq_add_of_le late
    exact (alone k).al

/-- So it is a run of commands one at a time. -/
theorem SoleRun.serial (run : SoleRun p t₀ hold pull r) (hp : 10 ≤ p) : SerialRun p t₀ hold r :=
  ⟨run.enabled, run.scl, run.noAl hp, fun t v late hw => (run.commands t v late hw).2⟩

/-- **The only controller on a bus never loses it.** However the peripherals answer and stretch
SCL, at a prescale of at least 10 no arbitration loss is signalled in any clock, and a STOP is seen
only while no bit command is executed. -/
theorem arbitration_kept (hp : 10 ≤ p) (run : SoleRun p t₀ hold pull r) (t : ℕ) :
    (r.st t).al = false ∧ (r.st t).arbLost = false ∧
      (t₀ ≤ t → (bitAt r t).stoCondition = true → (bitAt r t).cState = .idle) := by
  refine ⟨run.noAl hp t, run.enabled.arbLost_clear (run.noAl hp) t, fun late sto => ?_⟩
  obtain ⟨a₀, alone⟩ := run.alone hp
  obtain ⟨k, rfl⟩ := Nat.exists_eq_add_of_le late
  exact (alone k).guard sto

end

/-! ## One such run -/

/-- The bus writes of a driver that takes a clock between the configuration and the command. -/
def soleBus : ℕ → Option (Csr × BitVec 32)
  | 0 => some (.prescale, 10)
  | 1 => some (.control, 0x80)
  | 3 => some (.txr, 0x35)
  | 4 => some (.command, 0xd0)
  | _ => none

/-- A peripheral stretches SCL in the first bit. -/
def soleHold (t : ℕ) : Bool := decide (100 ≤ t ∧ t < 130)

/-- It acknowledges the byte. -/
def solePull (t : ℕ) : Bool := decide (606 ≤ t ∧ t < 670)

/-- The byte `0x35` is sent at prescale 10 with START and STOP, and acknowledged. -/
def soleRun : Run := .closed step
  (fun t s => ⟨soleBus t, s.sclOen && !soleHold t, s.sdaOen && !solePull t, false⟩) (powerOn false)

theorem soleRun_write {t : ℕ} {r : Csr} (late : 5 ≤ t) : (soleRun.inp t).write r = none := by
  obtain ⟨k, rfl⟩ := Nat.exists_eq_add_of_le' late
  rfl

theorem soleRun_enabled : EnabledRun 10 2 soleRun where
  powerOn := ⟨false, rfl⟩
  disabled := by decide +kernel
  on := by
    intro t late
    by_cases early : t < 6
    · interval_cases t <;> exact ⟨by decide +kernel, by decide +kernel, by decide +kernel⟩
    · refine soleRun.invariant_from (P := On 10) (n := 6)
        ⟨by decide +kernel, by decide +kernel, by decide +kernel⟩ (fun t late on => ?_) t (by omega)
      have none := fun r => soleRun_write (t := t) (r := r) (by omega)
      refine ⟨?_, ?_, ?_⟩
      · simpa [ena, step, none] using on.ena
      · simp [rst, step, none]
      · simpa [step, none] using on.prescale

theorem soleRun_stretching : Stretching soleRun soleHold where
  line := fun _ => rfl
  start := rfl
  begins := by
    intro t held
    have inside := of_decide_eq_true held
    by_cases first : t = 99
    · rw [first]
      exact Or.inr (by decide +kernel)
    · exact Or.inl (decide_eq_true (by omega))

/-- The peripheral moves SDA in the middle of two low phases, and reads the bits before. -/
theorem soleRun_peripherals : Peripherals 10 soleRun solePull where
  line := fun _ => rfl
  setup := by
    intro t moved n soon
    have low : ∀ n ≤ 5, sclLine soleRun (606 + n) = false ∧ sclLine soleRun (670 + n) = false := by
      decide +kernel
    by_cases begins : t = 605
    · rw [begins]
      exact (low n soon).1
    by_cases ends : t = 669
    · rw [ends]
      exact (low n soon).2
    exact absurd (decide_eq_decide.mpr (by omega)) moved
  yields := by
    intro t _ slot write
    refine decide_eq_false fun inside => ?_
    have reads : ∀ n < 64, (bitAt soleRun (606 + n)).cState.cmd ≠ .write ∨
        (bitAt soleRun (606 + n)).cState.slot = false := by decide +kernel
    obtain ⟨n, rfl⟩ := Nat.exists_eq_add_of_le inside.1
    rcases reads n (by omega) with other | idle
    · exact other write
    · exact nomatch idle.symm.trans slot

theorem arbitration_kept_answered :
    10 ≤ 10 ∧ SoleRun 10 2 soleHold solePull soleRun ∧
      ∀ t, (soleRun.st t).al = false ∧ (soleRun.st t).arbLost = false := by
  have run : SoleRun 10 2 soleHold solePull soleRun := {
    enabled := soleRun_enabled
    scl := soleRun_stretching
    bus := soleRun_peripherals
    commands := fun t v late hw => by
      by_cases quiet : 5 ≤ t
      · rw [soleRun_write quiet] at hw
        cases hw
      · interval_cases t <;> first | (cases hw; done) | skip
        obtain rfl := Option.some.inj hw
        exact ⟨le_rfl, by decide +kernel, by decide +kernel, by decide, fun _ => by decide⟩ }
  refine ⟨le_rfl, run, fun t => ?_⟩
  obtain ⟨al, arb, -⟩ := arbitration_kept le_rfl run t
  exact ⟨al, arb⟩

end RTLI2C

end Rockling
