import Rockling.Lib.Clocked
import Rockling.Rtl.Core
import Mathlib.Tactic.IntervalCases

/-!
# The dormant core

A core whose controllers are idle with both lines released and whose command register asks for
nothing stays that way until a command is written, whatever else happens: the enable bit, the
prescale, resets and the bus lines play no part. This decides what a core reset achieves and what a
disabled core may do.

A core reset returns the two controllers to idle but leaves the command register of the wrapper
alone, so a command that was running starts over. And nothing gates a command with `control.EN`, so
a disabled core executes it, with the divider enabling the state machine in every clock.
-/

namespace Rockling

/-- This clock writes a command that asks for a transfer or a STOP: `RD`, `WR` or `STO` is set. -/
def In.asks (i : In) : Bool :=
  match i.write .command with
  | some v => v.getLsbD 5 || v.getLsbD 4 || v.getLsbD 6
  | none => false

namespace RTLI2C

/-- The command register asks the byte controller for a transfer or a STOP. -/
def asks (s : RTLI2C) : Bool := s.read || s.write || s.stop

/-- Both controllers idle, both lines released, and no command pending. -/
structure Dormant (s : RTLI2C) : Prop where
  idle : s.byte.cState = .idle
  coreCmd : s.byte.coreCmd = .nop
  released : s.byte.bit.toBitFsm = .released
  al : s.al = false
  asks : s.asks = false

variable {s : RTLI2C} {i : In}

theorem byteIn_rst : (s.byteIn i).rst = s.rst := rfl

/-- A cleared command register asks for nothing. -/
theorem asks_of_command_eq_zero (h : s.command = 0) : s.asks = false := by
  simp [RTLI2C.asks, read, write, stop, h]

/-- Without a command write the register keeps its value or is cleared. -/
theorem step_command (h : i.write .command = none) :
    (s.step i).command = if s.done || s.al then 0 else s.command := by
  simp [step, commandNext, h]

theorem asks_step (h : i.asks = false) (hs : s.asks = false) : (s.step i).asks = false := by
  cases hw : i.write .command with
  | none =>
    simp only [RTLI2C.asks, read, write, stop, step_command hw] at hs ⊢
    split_ifs
    · simp
    · exact hs
  | some v =>
    simp only [In.asks, hw] at h
    simp only [RTLI2C.asks, read, write, stop, step, commandNext, hw]
    split_ifs
    · simp
    · simpa [BitVec.getLsbD_setWidth] using h

/-- `go` is only raised by a pending command. -/
theorem go_eq_false (h : s.asks = false) : s.byte.go (s.byteIn i) = false := by
  simp only [RTLI2C.asks, Bool.or_eq_false_iff] at h
  simp [ByteCtrl.go, byteIn, h.1.1, h.1.2, h.2]

/-- A dormant core stays dormant in every clock that does not write a command asking for something.
-/
theorem Dormant.step (h : s.Dormant) (hw : i.asks = false) : (s.step i).Dormant := by
  have hal : s.byte.bit.al = false := h.al
  have hstate : s.byte.bit.cState = .idle := by rw [h.released]; rfl
  have hchk : s.byte.bit.sdaChk = false := by rw [h.released]; rfl
  refine ⟨?_, ?_, ?_, ?_, asks_step hw h.asks⟩
  · simp only [RTLI2C.step, ByteCtrl.step, hal, go_eq_false h.asks]
    split_ifs
    · rfl
    · simp [ByteFsm.exec, h.idle]
  · simp only [RTLI2C.step, ByteCtrl.step, hal, go_eq_false h.asks]
    split_ifs
    · rfl
    · simp [ByteFsm.exec, h.idle, h.coreCmd]
  · simp only [RTLI2C.step, ByteCtrl.step, BitCtrl.step, ByteCtrl.bitIn, h.released, h.coreCmd, hal]
    cases s.byte.bit.clkEn <;> cases (s.byteIn i).rst <;> rfl
  · simp [RTLI2C.step, ByteCtrl.step, BitCtrl.step, RTLI2C.al, hchk, hstate]

/-- The clock after a reset is dormant if the command register asks for nothing then. -/
theorem dormant_of_rst (hrst : s.rst = true) (h : (s.step i).asks = false) :
    (s.step i).Dormant := by
  refine ⟨?_, ?_, ?_, ?_, h⟩
  · simp [RTLI2C.step, ByteCtrl.step, byteIn_rst, hrst, ByteFsm.released]
  · simp [RTLI2C.step, ByteCtrl.step, byteIn_rst, hrst, ByteFsm.released]
  · simp [RTLI2C.step, ByteCtrl.step, BitCtrl.step, ByteCtrl.bitIn, byteIn_rst, hrst, BitFsm.next]
  · simp [RTLI2C.step, ByteCtrl.step, BitCtrl.step, ByteCtrl.bitIn, byteIn_rst, hrst, RTLI2C.al]

theorem powerOn_dormant (d : Bool) : (powerOn d).Dormant :=
  ⟨rfl, rfl, rfl, rfl, by simp [powerOn, RTLI2C.asks, read, write, stop]⟩

theorem Dormant.sclOen (h : s.Dormant) : s.sclOen = true := by
  simp [RTLI2C.sclOen, h.released, BitFsm.released]

theorem Dormant.sdaOen (h : s.Dormant) : s.sdaOen = true := by
  simp [RTLI2C.sdaOen, h.released, BitFsm.released]

/-- From a dormant clock on, a run that writes no command stays dormant. -/
theorem Dormant.forever {r : ClockedRun RTLI2C.step} {n : ℕ} (h : (r.st n).Dormant)
    (hw : ∀ t, n ≤ t → (r.inp t).asks = false) : ∀ t, n ≤ t → (r.st t).Dormant :=
  r.invariant_from h fun t ht hd => hd.step (hw t ht)

/-! ## Core reset -/

/-- After the reset pulse of clock `t`: the lines stay released, both controllers stay idle, so no
START, bit or STOP is generated, and `TIP` reads 0 from the second clock on. -/
structure StoppedAfter (r : ClockedRun RTLI2C.step) (t : ℕ) : Prop where
  sclOen : ∀ k, t < k → (r.st k).sclOen = true
  sdaOen : ∀ k, t < k → (r.st k).sdaOen = true
  byteIdle : ∀ k, t < k → (r.st k).byte.cState = .idle
  bitIdle : ∀ k, t < k → (r.st k).byte.bit.cState = .idle
  tip : ∀ k, t + 2 ≤ k → (r.st k).tip = false

/-- The state before the pulse in which a reset stops the core: nothing is asked for, or the command
register is being cleared in this very clock. -/
def ResetClears (s : RTLI2C) : Prop := s.asks = false ∨ s.done = true ∨ s.al = true

/-- The command register asks for nothing after the pulse exactly in these states. -/
theorem asks_after_pulse (hw : i.write .command = none) :
    (s.step i).asks = false ↔ s.ResetClears := by
  unfold ResetClears
  by_cases hclear : (s.done || s.al) = true
  · refine iff_of_true (asks_of_command_eq_zero ?_) (.inr (by simpa using hclear))
    rw [step_command hw, if_pos hclear]
  · have hkeep : (s.step i).asks = s.asks := by
      simp [RTLI2C.asks, read, write, stop, step_command hw, hclear]
    rw [hkeep]
    simp only [Bool.or_eq_true, not_or, Bool.not_eq_true] at hclear
    simp [hclear]

/-- A command that survives the pulse makes the byte controller leave idle two clocks later. -/
theorem restarts_of_asks {r : ClockedRun RTLI2C.step} {t : ℕ} (hrst : (r.st t).rst = true)
    (hone : (r.st (t + 1)).rst = false) (hask : (r.st (t + 1)).asks = true) :
    (r.st (t + 2)).byte.cState ≠ .idle := by
  have hafter : (r.st (t + 1)).byte.toByteFsm = .released ∧ (r.st (t + 1)).byte.bit.al = false := by
    rw [r.next]
    simp [RTLI2C.step, ByteCtrl.step, BitCtrl.step, ByteCtrl.bitIn, byteIn_rst, hrst]
  obtain ⟨hbyte, hal⟩ := hafter
  have hack : (r.st (t + 1)).byte.cmdAck = false := by rw [hbyte]; rfl
  have hidle : (r.st (t + 1)).byte.cState = .idle := by rw [hbyte]; rfl
  have hgo : (r.st (t + 1)).byte.go ((r.st (t + 1)).byteIn (r.inp (t + 1))) = true := by
    simpa [ByteCtrl.go, byteIn, hack, done, RTLI2C.asks] using hask
  rw [show t + 2 = t + 1 + 1 from rfl, r.next]
  simp only [RTLI2C.step, ByteCtrl.step, byteIn_rst, hone, hal, hgo, Bool.or_self]
  simp only [ByteFsm.exec, hidle, if_true, ByteFsm.begin]
  split_ifs <;> simp_all

/-- In every state of the core, a one-clock `core_reset` pulse with no command write from then on
stops the core for good if and only if the command register asks for nothing in the clock of the
pulse, or a completion or an arbitration loss clears it in that clock. -/
theorem coreReset_stops_iff (r : ClockedRun RTLI2C.step) (t : ℕ) (hrst : (r.st t).rst = true)
    (hone : (r.st (t + 1)).rst = false) (hw : ∀ k, t ≤ k → (r.inp k).write .command = none) :
    StoppedAfter r t ↔ (r.st t).ResetClears := by
  have hafter : (r.st (t + 1)).asks = false ↔ (r.st t).ResetClears := by
    rw [r.next]
    exact asks_after_pulse (hw t (Nat.le_refl t))
  constructor
  · intro hstop
    rw [← hafter]
    by_contra hask
    exact restarts_of_asks hrst hone (by simpa using hask) (hstop.byteIdle (t + 2) (by omega))
  · intro hclears
    have hdormant : (r.st (t + 1)).Dormant := by
      rw [← hafter, r.next] at hclears
      rw [r.next]
      exact dormant_of_rst hrst hclears
    have hall : ∀ k, t < k → (r.st k).Dormant :=
      hdormant.forever fun k hk => by simp [In.asks, hw k (by omega)]
    refine ⟨fun k hk => (hall k hk).sclOen, fun k hk => (hall k hk).sdaOen,
      fun k hk => (hall k hk).idle, fun k hk => by rw [(hall k hk).released]; rfl, fun k hk => ?_⟩
    obtain ⟨m, rfl⟩ : ∃ m, k = m + 1 := ⟨k - 1, by omega⟩
    have hask := (hall m (by omega)).asks
    simp only [RTLI2C.asks, Bool.or_eq_false_iff] at hask
    rw [r.next]
    simp [RTLI2C.step, hask.1.1, hask.1.2]

/-- One CSR write in each of the first clocks, both lines high throughout. -/
def quietWrites (ws : List (Option (Csr × BitVec 32))) (t : ℕ) : In :=
  ⟨(ws[t]?).join, true, true, false⟩

/-- What holds of the listed clocks and of a clock without a write holds of all of them. -/
theorem forall_quietWrites {ws : List (Option (Csr × BitVec 32))} {P : In → Prop}
    (h : ∀ t < ws.length, P (quietWrites ws t)) (h0 : P ⟨none, true, true, false⟩) (t : ℕ) :
    P (quietWrites ws t) := by
  rcases Nat.lt_or_ge t ws.length with ht | ht
  · exact h t ht
  · have hlen : ws[t]? = none := List.getElem?_eq_none ht
    simpa [quietWrites, hlen] using h0

/-- The core is enabled, `WR` is written, and `core_reset` three clocks later: the pulse of clock 5
hits a running write. -/
def resetMidCommand : List (Option (Csr × BitVec 32)) :=
  [some (.control, 0x80), some (.command, 0x10), none, none, some (.coreReset, 1)]

theorem resetMidCommand_command {k : ℕ} (hk : 5 ≤ k) :
    (quietWrites resetMidCommand k).write .command = none := by
  have hlen : resetMidCommand[k]? = none := List.getElem?_eq_none hk
  simp [quietWrites, hlen, In.write]

/-- The core is not stopped: the command register still asks for the write. -/
theorem coreReset_stops_iff_mid_command :
    ¬ StoppedAfter (.ofInputs RTLI2C.step (powerOn false) (quietWrites resetMidCommand)) 5 := by
  intro h
  have hclears := (coreReset_stops_iff (.ofInputs RTLI2C.step (powerOn false)
    (quietWrites resetMidCommand)) 5 (by decide) (by decide)
    fun k hk => resetMidCommand_command hk).mp h
  rcases hclears with hasks | hdone | hal
  · exact absurd hasks (by decide)
  · exact absurd hdone (by decide)
  · exact absurd hal (by decide)

/-- The write starts over two clocks after the pulse. -/
theorem coreReset_restarts :
    ¬ ∀ (r : ClockedRun RTLI2C.step) (t : ℕ), r.st 0 = powerOn false → (r.st t).rst = true →
      (r.st (t + 1)).rst = false → (∀ k, t ≤ k → (r.inp k).write .command = none) →
      StoppedAfter r t := by
  intro h
  have hstop := h (.ofInputs RTLI2C.step (powerOn false) (quietWrites resetMidCommand)) 5 rfl
    (by decide) (by decide) fun k hk => resetMidCommand_command hk
  exact absurd (hstop.byteIdle 7 (by decide)) (by decide)

/-! ## A disabled core -/

/-- A run from power-on in which `control.EN` stays 0. -/
structure DisabledRun (r : ClockedRun RTLI2C.step) : Prop where
  init : ∃ d, r.st 0 = powerOn d
  off : ∀ t, (r.st t).ena = false

/-- While no command write sets `RD`, `WR` or `STO`, a disabled core leaves both lines alone in
every clock. -/
theorem disabled_released (r : ClockedRun RTLI2C.step) (h : DisabledRun r)
    (hw : ∀ t, (r.inp t).asks = false) :
    ∀ t, (r.st t).sclOen = true ∧ (r.st t).sdaOen = true := by
  obtain ⟨d, h0⟩ := h.init
  have hdormant : ∀ t, 0 ≤ t → (r.st t).Dormant :=
    Dormant.forever (h0 ▸ powerOn_dormant d) fun t _ => hw t
  exact fun t => ⟨(hdormant t t.zero_le).sclOen, (hdormant t t.zero_le).sdaOen⟩

theorem step_ena_of_no_write (h : i.write .control = none) : (s.step i).ena = s.ena := by
  simp [RTLI2C.ena, RTLI2C.step, h]

/-- A run whose inputs never write `control` stays disabled. -/
theorem disabledRun_of_no_control (inp : ℕ → In) (h : ∀ t, (inp t).write .control = none) :
    DisabledRun (.ofInputs RTLI2C.step (powerOn false) inp) := by
  refine ⟨⟨false, rfl⟩, fun t => ?_⟩
  induction t with
  | zero =>
    show (powerOn false).ena = false
    decide
  | succ t ih =>
    rw [ClockedRun.next]
    exact (step_ena_of_no_write (h t)).trans ih

/-- Writes to every register but `control`, with a command of the flags `STA` and `ACK` only. -/
def harmlessWrites : List (Option (Csr × BitVec 32)) :=
  [some (.prescale, 23), some (.txr, 0xA5), some (.command, 0x88), some (.coreReset, 1)]

theorem disabled_released_harmless :
    ((ClockedRun.ofInputs RTLI2C.step (powerOn false) (quietWrites harmlessWrites)).st 9).sclOen =
        true ∧
      ((ClockedRun.ofInputs RTLI2C.step (powerOn false) (quietWrites harmlessWrites)).st 9).sdaOen =
        true :=
  disabled_released _ (disabledRun_of_no_control _
      (forall_quietWrites (P := fun i => i.write .control = none) (by decide) rfl))
    (forall_quietWrites (P := fun i => i.asks = false) (by decide) rfl) 9

/-- `RD` written in the first clock. -/
def readWhileDisabled : List (Option (Csr × BitVec 32)) := [some (.command, 0x20)]

/-- A disabled core executes a read: it drives SCL low four clocks after the write. -/
theorem disabled_drives :
    ¬ ∀ r : ClockedRun RTLI2C.step, DisabledRun r →
      ∀ t, (r.st t).sclOen = true ∧ (r.st t).sdaOen = true := by
  intro h
  have hdrive := h _ (disabledRun_of_no_control (quietWrites readWhileDisabled)
    (forall_quietWrites (P := fun i => i.write .control = none) (by decide) rfl)) 4
  exact absurd hdrive.1 (by decide)

end RTLI2C

end Rockling
