import Rockling.Lib.Clocked
import Rockling.Rtl.Dormant
import Rockling.Rtl.Phases

/-!
# Runs of an enabled core

The runs that the results on timing, waveform and handshake are about: from power-on the core is
configured, enabled at clock `t₀`, and from then on enabled at a constant prescale and not reset. On
the bus, others may hold SCL low for as long as they like, but start to do so only while the
controller holds it low itself.

In such a run the timing invariant of the bit controller and the step invariant of the three
machines hold from `t₀` on (`EnabledRun.sound`).
-/

namespace Rockling

namespace RTLI2C

/-- The runs of the peripheral. -/
abbrev Run := ClockedRun RTLI2C.step

/-- `hold t` says that others hold SCL low in clock `t`. The line is a wired AND, nobody holds it at
power-on, and nobody starts to hold it while the controller leaves it alone. -/
structure Stretching (r : Run) (hold : ℕ → Bool) : Prop where
  line : ∀ t, (r.inp t).scl = ((r.st t).sclOen && !hold t)
  start : hold 0 = false
  begins : ∀ t, hold (t + 1) = true → hold t = true ∨ (r.st (t + 1)).sclOen = false

/-- A run from power-on in which the core is enabled at clock `t₀`: before it no command is written,
and from it on the core stays enabled at prescale `p` and is not reset. -/
structure EnabledRun (p t₀ : ℕ) (r : Run) : Prop where
  powerOn : ∃ dout, r.st 0 = powerOn dout
  disabled : ∀ t < t₀, (r.st t).ena = false ∧ (r.inp t).write .command = none
  on : ∀ t, t₀ ≤ t → (r.st t).On p

/-- The level of the SCL line. -/
abbrev sclLine (r : Run) (t : ℕ) : Bool := (r.inp t).scl

/-- The bit controller. -/
abbrev bitAt (r : Run) (t : ℕ) : BitCtrl := (r.st t).byte.bit

section

variable {p t₀ : ℕ} {r : Run} {hold : ℕ → Bool}

/-- A high line is left alone by the controller. -/
theorem Stretching.oen (h : Stretching r hold) {t : ℕ} (high : sclLine r t = true) :
    (r.st t).sclOen = true := by
  rw [sclLine, h.line, Bool.and_eq_true] at high
  exact high.1

/-- The line does not fall while the controller leaves it alone. -/
theorem Stretching.keeps (h : Stretching r hold) {t : ℕ} (high : sclLine r t = true)
    (oen : (r.st (t + 1)).sclOen = true) : sclLine r (t + 1) = true := by
  rw [sclLine, h.line, Bool.and_eq_true] at high
  rw [sclLine, h.line, oen, Bool.true_and, Bool.not_eq_true']
  by_contra held
  rcases h.begins t (by simpa using held) with before | low
  · rw [before] at high
    cases high.2
  · rw [oen] at low
    cases low

end

/-! ## Before the core is enabled -/

/-- A core that waits to be enabled: dormant, with the divider and the filters running in every
clock. The filters were reset `a - 2` clocks ago, and the line has been high since. -/
structure Waiting (a : ℕ) (s : RTLI2C) : Prop where
  dormant : s.Dormant
  command : s.command = 0
  done : s.done = false
  ld : s.byte.ld = false
  shift : s.byte.shift = false
  clkEn : s.byte.bit.clkEn = true
  filterCnt : s.byte.bit.filterCnt = 0
  dsclOen : s.byte.bit.dsclOen = true
  wait : s.byte.bit.peripheralWait = false
  age : 2 ≤ a
  settling : s.byte.bit.scl.Settling 1 0 a true

section Waiting

variable {a : ℕ} {s : RTLI2C} {i : In}

theorem powerOn_waiting (dout : Bool) : (powerOn dout).Waiting 2 := by
  refine ⟨powerOn_dormant dout, rfl, rfl, rfl, rfl, rfl, rfl, rfl, rfl, le_rfl, ?_⟩
  constructor <;> simp [powerOn, ByteCtrl.powerOn, BitCtrl.powerOn, LineFilter.reset]

/-- The freshly reset filter. -/
theorem settling_reset : LineFilter.reset.Settling 1 0 2 true := by
  constructor <;> simp [LineFilter.reset]

/-- One clock of a disabled core on a high line. -/
theorem Waiting.step (h : s.Waiting a) (ena : s.ena = false) (hw : i.write .command = none)
    (high : i.scl = true) : ∃ a', (s.step i).Waiting a' := by
  have asks : i.asks = false := by simp [In.asks, hw]
  have dormant := h.dormant.step asks
  have command : (s.step i).command = 0 := by
    rw [step_command hw, h.command, ite_self]
  have al : s.byte.bit.al = false := h.dormant.al
  have oen : s.byte.bit.sclOen = true := h.dormant.sclOen
  have go := go_eq_false (i := i) h.dormant.asks
  have fsm : (s.step i).byte.cmdAck = false ∧ (s.step i).byte.ld = false ∧
      (s.step i).byte.shift = false := by
    simp only [RTLI2C.step, ByteCtrl.step, al, go]
    split_ifs
    · exact ⟨rfl, rfl, rfl⟩
    · simp [ByteFsm.exec, h.dormant.idle]
  have ena' : (s.byte.bitIn (s.byteIn i)).ena = false := ena
  have clkEn : (s.step i).byte.bit.clkEn = true := by
    simp [step_bit, BitCtrl.step, BitCtrl.reload, ena']
  have filterCnt : (s.step i).byte.bit.filterCnt = 0 := by
    simp [step_bit, BitCtrl.step, ena']
  have wait : (s.step i).byte.bit.peripheralWait = false := by
    simp [step_bit, BitCtrl.step, h.dsclOen, h.wait]
  have dsclOen : (s.step i).byte.bit.dsclOen = true := oen
  by_cases rst : (s.byte.bitIn (s.byteIn i)).rst = true
  · refine ⟨2, dormant, command, fsm.1, fsm.2.1, fsm.2.2, clkEn, filterCnt, dsclOen,
      wait, le_rfl, ?_⟩
    have scl : (s.step i).byte.bit.scl = .reset := by simp [step_bit, BitCtrl.step, rst]
    rw [scl]
    exact settling_reset
  · refine ⟨a + 1, dormant, command, fsm.1, fsm.2.1, fsm.2.2, clkEn, filterCnt, dsclOen, wait,
      by have := h.age; omega, ?_⟩
    have scl : (s.step i).byte.bit.scl = s.byte.bit.scl.step (0 == 0) true := by
      have sclI : (s.byte.bitIn (s.byteIn i)).sclI = true := high
      simp [step_bit, BitCtrl.step, rst, h.filterCnt, sclI]
    rw [scl]
    exact h.settling.step one_pos fun _ _ => rfl

/-- The counter of a disabled core follows the prescale register. -/
theorem step_cnt_disabled (ena : s.ena = false) :
    (s.step i).byte.bit.cnt = s.prescale.toNat := by
  have ena' : (s.byte.bitIn (s.byteIn i)).ena = false := ena
  simp only [step_bit, BitCtrl.step, BitCtrl.reload, ena']
  simp [ByteCtrl.bitIn, byteIn]

theorem Waiting.inStep (h : s.Waiting a) : s.InStep := by
  have released := h.dormant.released
  constructor
  case coreCmd => rw [h.dormant.coreCmd, h.dormant.idle]; rfl
  case loading => simp [h.ld, h.shift]
  all_goals simp [released, BitFsm.released, h.dormant.idle]

/-- The timing invariant in the clock that is the first enabled one. -/
theorem Waiting.timed (h : s.Waiting a) {p : ℕ} (cnt : s.byte.bit.cnt = p) :
    s.byte.bit.Timed p 0 a true := by
  have idle : s.byte.bit.cState = .idle := by rw [h.dormant.released]; rfl
  have oen : s.byte.bit.sclOen = true := h.dormant.sclOen
  have age := h.age
  have settled := h.settling
  constructor
  case cnt_le => exact le_of_eq cnt
  case cnt_en => exact fun _ => cnt
  case filterCnt_lt => rw [h.filterCnt]; exact Nat.succ_pos _
  case settling =>
    rw [h.filterCnt]
    unfold filterPeriod
    exact ⟨settled.c0, settled.c1, fun ha => settled.f0 (by omega), fun ha => settled.f1 (by omega),
      fun ha => settled.f2 (by omega), fun ha => settled.s (by omega),
      fun ha => settled.d (by omega)⟩
  case line_oen => exact fun _ => oen
  case s_spaced => exact fun hk => by omega
  case spaced => exact fun hk => by omega
  case early => exact fun _ => idle
  case released => exact fun _ => by omega
  all_goals
    intro busy
    rw [idle] at busy
    cases busy

end Waiting

/-! ## After it -/

section

variable {p t₀ : ℕ} {r : Run} {hold : ℕ → Bool}

/-- Up to the clock `t₀` in which it is enabled the core waits, on a high line. -/
theorem EnabledRun.waiting (run : EnabledRun p t₀ r) (scl : Stretching r hold) :
    ∀ t ≤ t₀, sclLine r t = true ∧ ∃ a, (r.st t).Waiting a := by
  intro t ht
  induction t with
  | zero =>
    obtain ⟨dout, start⟩ := run.powerOn
    refine ⟨?_, 2, start ▸ powerOn_waiting dout⟩
    rw [sclLine, scl.line, scl.start, start, (powerOn_dormant dout).sclOen]
    rfl
  | succ t ih =>
    obtain ⟨high, a, waiting⟩ := ih (by omega)
    obtain ⟨ena, hw⟩ := run.disabled t (by omega)
    obtain ⟨a', waiting'⟩ := waiting.step ena hw high
    rw [← r.next] at waiting'
    exact ⟨scl.keeps high waiting'.dormant.sclOen, a', waiting'⟩

/-- The core is not enabled at power-on. -/
theorem EnabledRun.pos (run : EnabledRun p t₀ r) : 0 < t₀ := by
  by_contra zero
  obtain ⟨dout, start⟩ := run.powerOn
  have ena := (run.on 0 (by omega)).ena
  rw [start] at ena
  simp [RTLI2C.ena, RTLI2C.powerOn] at ena

/-- The first enabled clock finds the divider loaded: the write that enables the core cannot change
the prescale as well. -/
theorem EnabledRun.cnt (run : EnabledRun p t₀ r) : (bitAt r t₀).cnt = p := by
  obtain ⟨n, rfl⟩ : ∃ n, t₀ = n + 1 := ⟨t₀ - 1, by have := run.pos; omega⟩
  have off := (run.disabled n (by omega)).1
  have on := run.on (n + 1) le_rfl
  have same : (r.st (n + 1)).prescale = (r.st n).prescale := by
    have ena := on.ena
    rw [r.next] at ena ⊢
    cases hw : (r.inp n).write .prescale with
    | none => simp [RTLI2C.step, hw]
    | some v =>
      have kept : (RTLI2C.step (r.st n) (r.inp n)).ena = (r.st n).ena := by
        simp [RTLI2C.ena, RTLI2C.step, In.write_other hw (show Csr.prescale ≠ .control by decide)]
      rw [kept, off] at ena
      cases ena
  rw [bitAt, r.next, step_cnt_disabled off, ← same, on.prescale]

/-- The clocks since SCL was last pulled low, `k` clocks after `t₀`. -/
def ageAt (r : Run) (t₀ a₀ : ℕ) : ℕ → ℕ
  | 0 => a₀
  | k + 1 => BitCtrl.ageNext (ageAt r t₀ a₀ k) (bitAt r (t₀ + k)) (bitAt r (t₀ + k + 1))

/-- What holds `k` clocks after the core was enabled. -/
structure Sound (p k a : ℕ) (line : Bool) (s : RTLI2C) : Prop where
  timed : s.byte.bit.Timed p k a line
  inStep : s.InStep
  phase : ∃ f, s.InPhase f
  command : k = 0 → s.command = 0
  early : k ≤ 1 → s.byte.cState = .idle

/-- One clock that keeps to the rules. -/
theorem Sound.step {k a : ℕ} {line line' : Bool} {s : RTLI2C} {i : In} (h : Sound p k a line s)
    (hp : 3 ≤ p) (on : s.On p) (polite : s.Polite i) (high : i.scl = line)
    (keeps : line = true → (s.step i).sclOen = true → line' = true)
    (oen : line' = true → (s.step i).sclOen = true) :
    Sound p (k + 1) (BitCtrl.ageNext a s.byte.bit (s.step i).byte.bit) line' (s.step i) := by
  have next := phase_step h.inStep on hp h.timed polite h.phase
  have nop : k ≤ 1 → s.byte.coreCmd = .nop := by
    intro early
    rw [h.inStep.coreCmd, h.early early]
    rfl
  refine ⟨h.timed.step hp (on.running i) high nop keeps oen, next.1, next.2, fun hk => by omega,
    fun hk => ?_⟩
  have zero := h.command (by omega)
  have idle := h.early (by omega)
  have go := go_of_command_zero (i := i) zero
  rw [step_byteFsm on.rst]
  by_cases al : s.al = true
  · rw [if_pos al]
    rfl
  · rw [if_neg al, go]
    simp [ByteFsm.exec, idle]

/-- A core that waits to be enabled is sound in the clock in which it is. -/
theorem Waiting.sound {a : ℕ} {s : RTLI2C} (h : s.Waiting a) (cnt : s.byte.bit.cnt = p) :
    Sound p 0 a true s where
  timed := h.timed cnt
  inStep := h.inStep
  phase := by
    by_cases tip : s.tip = true
    · exact ⟨.clearing, h.command, h.dormant.idle, h.done, tip⟩
    · exact ⟨.resting, h.command, h.dormant.idle, h.done, h.dormant.al, by simpa using tip⟩
  command := fun _ => h.command
  early := fun _ => h.dormant.idle

/-- **Every clock of an enabled run is sound.** -/
theorem EnabledRun.sound (run : EnabledRun p t₀ r) (hp : 3 ≤ p) (scl : Stretching r hold)
    (polite : ∀ t, t₀ ≤ t → (r.st t).Polite (r.inp t)) :
    ∃ a₀, ∀ k, Sound p k (ageAt r t₀ a₀ k) (sclLine r (t₀ + k)) (r.st (t₀ + k)) := by
  obtain ⟨high, a₀, waiting⟩ := run.waiting scl t₀ le_rfl
  refine ⟨a₀, fun k => ?_⟩
  induction k with
  | zero =>
    rw [Nat.add_zero, high]
    exact waiting.sound run.cnt
  | succ k ih =>
    have keeps := scl.keeps (t := t₀ + k)
    have oen := scl.oen (t := t₀ + k + 1)
    rw [r.next] at keeps oen
    have next := ih.step hp (run.on _ (by omega)) (polite _ (by omega)) rfl keeps oen
    rw [← r.next] at next
    exact next

/-- The same at a clock. -/
theorem EnabledRun.sound_at (run : EnabledRun p t₀ r) (hp : 3 ≤ p) (scl : Stretching r hold)
    (polite : ∀ t, t₀ ≤ t → (r.st t).Polite (r.inp t)) {t : ℕ} (late : t₀ ≤ t) :
    ∃ k a line, Sound p k a line (r.st t) := by
  obtain ⟨a₀, sound⟩ := run.sound hp scl polite
  obtain ⟨k, rfl⟩ := Nat.exists_eq_add_of_le late
  exact ⟨_, _, _, sound k⟩

end

/-! ## One such run -/

/-- The bus writes of a driver that configures and enables the core and then sends one byte. -/
def sampleBus : ℕ → Option (Csr × BitVec 32)
  | 0 => some (.prescale, 3)
  | 1 => some (.txr, 0x35)
  | 2 => some (.control, 0x80)
  | 4 => some (.command, 0xd0)
  | _ => none

/-- Others stretch SCL in the second bit. -/
def sampleHold (t : ℕ) : Bool := decide (60 ≤ t ∧ t < 75)

/-- Others pull SDA low in the acknowledge slot. -/
def samplePull (t : ℕ) : Bool := decide (242 ≤ t ∧ t < 268)

/-- What the core is given. -/
def sampleEnv (t : ℕ) (s : RTLI2C) : In :=
  ⟨sampleBus t, s.sclOen && !sampleHold t, s.sdaOen && !samplePull t, false⟩

/-- The byte `0x35` is sent at prescale 3 with START and STOP, and acknowledged. -/
def sampleRun : Run := .closed step sampleEnv (powerOn false)

theorem sampleRun_stretching : Stretching sampleRun sampleHold where
  line := fun _ => rfl
  start := rfl
  begins := by
    intro t held
    have inside := of_decide_eq_true held
    by_cases first : t = 59
    · rw [first]
      exact Or.inr (by decide +kernel)
    · exact Or.inl (decide_eq_true (by omega))

theorem sampleBus_late {t : ℕ} (late : 5 ≤ t) : sampleBus t = none := by
  obtain ⟨k, rfl⟩ := Nat.exists_eq_add_of_le' late
  rfl

theorem sampleRun_write {t : ℕ} {r : Csr} (late : 5 ≤ t) : (sampleRun.inp t).write r = none := by
  simp [In.write, sampleRun, ClockedRun.closed, sampleEnv, sampleBus_late late]

/-- The only command is written in clock 4. -/
theorem sampleRun_command {t : ℕ} {v : BitVec 32}
    (hw : (sampleRun.inp t).write .command = some v) : t = 4 ∧ v = 0xd0 := by
  by_cases late : 5 ≤ t
  · rw [sampleRun_write late] at hw
    cases hw
  · have early : t < 5 := by omega
    interval_cases t <;> first | (cases hw; done) | exact ⟨rfl, (Option.some.inj hw).symm⟩

theorem sampleRun_enabled : EnabledRun 3 3 sampleRun where
  powerOn := ⟨false, rfl⟩
  disabled := by decide +kernel
  on := by
    intro t late
    by_cases early : t < 6
    · interval_cases t <;> exact ⟨by decide +kernel, by decide +kernel, by decide +kernel⟩
    · have on : ∀ t, 6 ≤ t → (sampleRun.st t).On 3 := by
        refine sampleRun.invariant_from ⟨by decide +kernel, by decide +kernel, by decide +kernel⟩
          fun t late on => ?_
        have none := fun r => sampleRun_write (t := t) (r := r) (by omega)
        refine ⟨?_, ?_, ?_⟩
        · simpa [ena, step, none] using on.ena
        · simp [rst, step, none]
        · simpa [step, none] using on.prescale
      exact on t (by omega)

/-- The command is over in clock 300, and nothing happens afterwards. -/
theorem sampleRun_noAl (t : ℕ) : (sampleRun.st t).al = false := by
  by_cases late : 300 ≤ t
  · have ended : (sampleRun.st 300).Dormant :=
      ⟨by decide +kernel, by decide +kernel, by decide +kernel, by decide +kernel,
       by decide +kernel⟩
    refine (ended.forever (fun t late => ?_) t late).al
    rw [In.asks, sampleRun_write (by omega)]
  · have soon : ∀ t < 300, (sampleRun.st t).al = false := by decide +kernel
    exact soon t (by omega)

end RTLI2C

end Rockling
