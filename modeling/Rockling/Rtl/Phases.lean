import Rockling.Rtl.BitTiming
import Rockling.Rtl.Dormant

/-!
# The life of a command

The wrapper, the byte controller and the bit controller each keep a state of their own, and a
command passes through all three. `InStep` is the invariant that ties them together: the byte
controller asks for the bit command its state stands for, the bit controller runs that command and
no other, and the acknowledge of a bit command always leaves the byte controller a clock to replace
it.

Seen from the bus a command then has five phases: the core is `resting`, a written command is
`pending` for one clock, `running` until the byte controller is done or loses the arbitration,
`finishing` in the one clock of the acknowledge, and `clearing` in the clock after it, when the
command register is empty but `TIP` still shows the old command.
-/

namespace Rockling

/-- The bit command that a byte state asks for; the acknowledge slot of a command with `RD` is
written. -/
def ByteState.cmd (rd : Bool) : ByteState → Cmd
  | .idle => .nop
  | .start => .start
  | .read => .read
  | .write => .write
  | .ack => if rd then .write else .read
  | .stop => .stop

/-- The bit command a bit state belongs to. -/
def BitState.cmd : BitState → Cmd
  | .idle => .nop
  | .startA | .startB | .startC | .startD | .startE => .start
  | .stopA | .stopB | .stopC | .stopD => .stop
  | .rdA | .rdB | .rdC | .rdD => .read
  | .wrA | .wrB | .wrC | .wrD => .write

/-- The state that follows once the bit command of a state is acknowledged. `last` says that the bit
counter is at zero. -/
def ByteState.succ (rd sto last : Bool) : ByteState → ByteState
  | .idle => .idle
  | .start => if rd then .read else .write
  | .read => if last then .ack else .read
  | .write => if last then .ack else .write
  | .ack => if sto then .stop else .idle
  | .stop => .idle

/-- The first state of a command. -/
def ByteState.first (sta rd : Bool) : ByteState :=
  if sta then .start else if rd then .read else .write

/-- Only `idle` asks for nothing. -/
theorem ByteState.cmd_eq_nop {rd : Bool} {c : ByteState} : c.cmd rd = .nop ↔ c = .idle := by
  cases c <;> cases rd <;> decide

theorem ByteState.first_ne_idle (sta rd : Bool) : ByteState.first sta rd ≠ .idle := by
  cases sta <;> cases rd <;> decide

theorem ByteState.first_eq_read {sta rd : Bool} (h : ByteState.first sta rd = .read) :
    rd = true := by
  revert h
  cases sta <;> cases rd <;> decide

theorem ByteState.first_eq_write {sta rd : Bool} (h : ByteState.first sta rd = .write) :
    rd = false := by
  revert h
  cases sta <;> cases rd <;> decide

/-- A command ends from its acknowledge slot or its STOP. -/
theorem ByteState.succ_eq_idle {rd sto last : Bool} {c : ByteState}
    (h : c.succ rd sto last = .idle) : c = .idle ∨ c = .ack ∨ c = .stop := by
  revert h
  cases c <;> cases rd <;> cases sto <;> cases last <;> decide

theorem ByteState.succ_eq_read {rd sto last : Bool} {c : ByteState}
    (h : c.succ rd sto last = .read) : rd = true ∨ c = .read := by
  revert h
  cases c <;> cases rd <;> cases sto <;> cases last <;> decide

theorem ByteState.succ_eq_write {rd sto last : Bool} {c : ByteState}
    (h : c.succ rd sto last = .write) : rd = false ∨ c = .write := by
  revert h
  cases c <;> cases rd <;> cases sto <;> cases last <;> decide

theorem ByteState.first_ne_stop (sta rd : Bool) : ByteState.first sta rd ≠ .stop := by
  cases sta <;> cases rd <;> decide

theorem ByteState.first_eq_start {sta rd : Bool} (h : ByteState.first sta rd = .start) :
    sta = true := by
  revert h
  cases sta <;> cases rd <;> decide

theorem ByteState.succ_ne_start (rd sto last : Bool) (c : ByteState) :
    c.succ rd sto last ≠ .start := by
  cases c <;> cases rd <;> cases sto <;> cases last <;> decide

theorem ByteState.succ_eq_stop {rd sto last : Bool} {c : ByteState}
    (h : c.succ rd sto last = .stop) : sto = true := by
  revert h
  cases c <;> cases rd <;> cases sto <;> cases last <;> decide

theorem BitState.cmd_eq_nop {c : BitState} : c.cmd = .nop ↔ c = .idle := by
  cases c <;> decide

namespace BitFsm

variable {x : BitFsm} {cmd : Cmd} {din : Bool}

/-- A step stays with the bit command, or completes it, or starts the one asked for. -/
theorem exec_cmd (x : BitFsm) (cmd : Cmd) (din : Bool) :
    (x.exec cmd din).cState = .idle ∨
      (x.exec cmd din).cState.cmd = if x.cState = .idle then cmd else x.cState.cmd := by
  obtain ⟨c, k, scl, sda, chk⟩ := x
  cases c <;> first | exact .inl rfl | exact .inr rfl | skip
  cases cmd <;> first | exact .inl rfl | exact .inr rfl

/-- The acknowledge comes with the end of a bit command. -/
theorem exec_cmdAck (h : (x.exec cmd din).cmdAck = true) :
    (x.exec cmd din).cState = .idle ∧ x.cState.isLast = true := by
  obtain ⟨c, k, scl, sda, chk⟩ := x
  cases c <;> first | exact ⟨rfl, rfl⟩ | cases h

/-- SDA is compared in `wrD` only. -/
theorem exec_sdaChk (h : (x.exec cmd din).sdaChk = true) : (x.exec cmd din).cState = .wrD := by
  obtain ⟨c, k, scl, sda, chk⟩ := x
  cases c <;> first | rfl | cases h

end BitFsm

namespace RTLI2C

variable {p : ℕ} {s : RTLI2C} {i : In}

/-- The core is enabled, out of reset, and runs at prescale `p`. -/
structure On (p : ℕ) (s : RTLI2C) : Prop where
  ena : s.ena = true
  rst : s.rst = false
  prescale : s.prescale.toNat = p

theorem On.running (h : s.On p) (i : In) : (s.byte.bitIn (s.byteIn i)).Running p :=
  ⟨h.rst, h.ena, h.prescale⟩

/-- The command register asks for one transfer: exactly one of `RD` and `WR` is set. -/
def transfers (s : RTLI2C) : Bool := s.read != s.write

/-- A command word that asks for one transfer. -/
def isTransfer (v : BitVec 32) : Bool := v.getLsbD 5 != v.getLsbD 4

/-! ## One clock of each machine -/

theorem step_byteFsm (h : s.rst = false) :
    (s.step i).byte.toByteFsm =
      if s.al then .released
      else s.byte.toByteFsm.exec (s.byteIn i) (s.byte.go (s.byteIn i)) s.byte.bit.cmdAck
        s.byte.bit.dout s.byte.sr.msb (s.byte.dcnt == 0) := by
  simp only [step, ByteCtrl.step, byteIn, h, Bool.false_or]
  rfl

theorem step_bit : (s.step i).byte.bit = s.byte.bit.step (s.byte.bitIn (s.byteIn i)) := rfl

/-- The command register in a clock that writes it while the device does not. -/
theorem command_of_write {v : BitVec 32} (h : i.write .command = some v) (done : s.done = false)
    (al : s.al = false) : (s.step i).command = v.setWidth 8 := by
  simp [step, commandNext, h, done, al]

/-- An arbitration loss is only signalled after a clock in which the bit controller was busy. -/
theorem al_of_idle (idle : s.byte.bit.cState = .idle) (chk : s.byte.bit.sdaChk = false) :
    (s.step i).al = false := by
  simp [step, ByteCtrl.step, BitCtrl.step, al, idle, chk]

/-! ## The three machines in step -/

/-- The byte controller asks for the bit command of its state, and the bit controller is idle or
runs that command. -/
structure InStep (s : RTLI2C) : Prop where
  coreCmd : s.byte.coreCmd = s.byte.cState.cmd s.read
  group : s.byte.bit.cState ≠ .idle → s.byte.bit.cState.cmd = s.byte.coreCmd
  acked : s.byte.bit.cmdAck = true →
    s.byte.bit.cState = .idle ∧ s.byte.bit.clkEn = false ∧ s.byte.cState ≠ .idle
  loading : (s.byte.ld = true ∨ s.byte.shift = true) →
    s.byte.bit.cState = .idle ∧ s.byte.bit.cmdAck = false ∧ s.byte.cState ≠ .idle
  sdaChk : s.byte.bit.sdaChk = true → s.byte.bit.cState = .wrD
  transfers : s.byte.cState ≠ .idle → s.transfers = true
  start : s.byte.cState = .start → s.start = true
  read : s.byte.cState = .read → s.read = true
  write : s.byte.cState = .write → s.read = false
  stop : s.byte.cState = .stop → s.stop = true

theorem InStep.bit_idle (h : s.InStep) (idle : s.byte.cState = .idle) :
    s.byte.bit.cState = .idle := by
  by_contra busy
  have group := h.group busy
  rw [h.coreCmd, idle] at group
  exact busy (BitState.cmd_eq_nop.mp group)

theorem InStep.sdaChk_idle (h : s.InStep) (idle : s.byte.bit.cState = .idle) :
    s.byte.bit.sdaChk = false := by
  by_contra chk
  have wrD := h.sdaChk (by simpa using chk)
  rw [idle] at wrD
  cases wrD

/-- The shift register does not move while the byte controller is idle. -/
theorem InStep.settled (h : s.InStep) (idle : s.byte.cState = .idle) :
    s.byte.ld = false ∧ s.byte.shift = false :=
  ⟨eq_false_of_ne_true fun ld => (h.loading (Or.inl ld)).2.2 idle,
    eq_false_of_ne_true fun shift => (h.loading (Or.inr shift)).2.2 idle⟩

/-- Nothing is signalled after a clock in which the byte controller was idle. -/
theorem InStep.al_next (h : s.InStep) (idle : s.byte.cState = .idle) : (s.step i).al = false :=
  al_of_idle (h.bit_idle idle) (h.sdaChk_idle (h.bit_idle idle))

/-! ## What the byte controller does in one clock -/

/-- An idle byte controller that is asked for nothing. -/
theorem step_idle (rst : s.rst = false) (al : s.al = false) (idle : s.byte.cState = .idle)
    (quiet : s.byte.go (s.byteIn i) = false) :
    (s.step i).byte.toByteFsm =
      { s.byte.toByteFsm with
        coreTxd := s.byte.sr.msb, shift := false, ld := false, cmdAck := false } := by
  rw [step_byteFsm rst, al, quiet]
  simp [ByteFsm.exec, idle]

/-- An idle byte controller that finds a transfer in the command register. -/
theorem step_begin (rst : s.rst = false) (al : s.al = false) (idle : s.byte.cState = .idle)
    (done : s.done = false) (transfers : s.transfers = true) :
    (s.step i).byte.toByteFsm =
      { s.byte.toByteFsm with
        cState := .first s.start s.read, coreCmd := (ByteState.first s.start s.read).cmd s.read,
        coreTxd := s.byte.sr.msb, shift := false, ld := true, cmdAck := false } := by
  have go : s.byte.go (s.byteIn i) = true := by
    simp only [RTLI2C.transfers] at transfers
    simp only [ByteCtrl.go, byteIn, show s.byte.cmdAck = false from done, done]
    revert transfers
    cases s.read <;> cases s.write <;> simp
  have start : (s.byteIn i).start = s.start := rfl
  have read : (s.byteIn i).read = s.read := by simp [byteIn, done]
  have write : (s.byteIn i).write = s.write := by simp [byteIn, done]
  have other : s.read = false → s.write = true := by
    simp only [RTLI2C.transfers] at transfers
    revert transfers
    cases s.read <;> cases s.write <;> simp
  rw [step_byteFsm rst, al, go]
  simp only [ByteFsm.exec, idle, ByteFsm.begin, start, read, write, ByteState.first]
  cases s.start <;> cases hread : s.read <;>
    simp [ByteState.cmd, other, hread]

/-- A busy byte controller that waits for the bit controller. -/
theorem step_wait (rst : s.rst = false) (al : s.al = false) (busy : s.byte.cState ≠ .idle)
    (wait : s.byte.bit.cmdAck = false) :
    (s.step i).byte.toByteFsm =
      { s.byte.toByteFsm with
        coreTxd := if s.byte.cState = .ack then s.ack else s.byte.sr.msb
        shift := false, ld := false, cmdAck := false } := by
  rw [step_byteFsm rst, al, wait]
  cases state : s.byte.cState <;> first | exact absurd state busy | skip
  all_goals simp [ByteFsm.exec, state]
  rfl

/-- A busy byte controller whose bit command is acknowledged. -/
theorem step_advance (h : s.InStep) (rst : s.rst = false) (al : s.al = false)
    (done : s.done = false) (busy : s.byte.cState ≠ .idle) (ack : s.byte.bit.cmdAck = true) :
    (s.step i).byte.toByteFsm =
      { cState := s.byte.cState.succ s.read s.stop (s.byte.dcnt == 0)
        coreCmd := (s.byte.cState.succ s.read s.stop (s.byte.dcnt == 0)).cmd s.read
        coreTxd := if s.byte.cState = .read then s.ack
          else if s.byte.cState = .ack then true else s.byte.sr.msb
        shift := s.byte.cState == .read || (s.byte.cState == .write && s.byte.dcnt != 0)
        ld := s.byte.cState == .start
        cmdAck := s.byte.cState.succ s.read s.stop (s.byte.dcnt == 0) == .idle
        ackOut := if s.byte.cState = .ack then s.byte.bit.dout else s.byte.ackOut } := by
  have read : (s.byteIn i).read = s.read := by simp [byteIn, done]
  have stop : (s.byteIn i).stop = s.stop := by simp [byteIn, done]
  have ackIn : (s.byteIn i).ackIn = s.ack := rfl
  have hread := h.read
  have hwrite := h.write
  rw [step_byteFsm rst, al, ack]
  cases state : s.byte.cState <;> first | exact absurd state busy | skip
  all_goals simp only [ByteFsm.exec, state, read, stop, ackIn, ByteState.succ]
  · cases s.read <;> simp [ByteState.cmd]
  · rw [hread state]
    cases s.byte.dcnt == 0 <;> simp [ByteState.cmd]
  · rw [hwrite state]
    cases zero : s.byte.dcnt == 0 <;> simp_all [ByteState.cmd]
  · cases s.stop <;> simp [ByteState.cmd]
  · simp [ByteState.cmd]

/-- A dormant core is in step. -/
theorem inStep_released (byte : s.byte.toByteFsm = .released)
    (bit : s.byte.bit.toBitFsm = .released) :
    s.InStep := by
  constructor <;> simp [byte, bit, ByteFsm.released, BitFsm.released, ByteState.cmd]

/-- After an arbitration loss both controllers are released. -/
theorem step_lost (rst : s.rst = false) (al : s.al = true) :
    (s.step i).byte.toByteFsm = .released ∧ (s.step i).byte.bit.toBitFsm = .released := by
  constructor
  · rw [step_byteFsm rst, if_pos al]
  · have rst' : (s.byte.bitIn (s.byteIn i)).rst = false := rst
    have al' : s.byte.bit.al = true := al
    simp [step_bit, BitCtrl.step, BitFsm.next, al', rst']

/-! ## What the bit controller does in one clock -/

section Bit

variable {k a : ℕ} {line : Bool}

/-- The bit controller stays with the command that the byte controller asks for in this clock. -/
theorem InStep.bit_group (h : s.InStep) (on : s.On p)
    (busy : (s.step i).byte.bit.cState ≠ .idle) :
    (s.step i).byte.bit.cState.cmd = s.byte.coreCmd := by
  rw [step_bit] at busy ⊢
  rcases s.byte.bit.fsm_cases (on.running i) with ⟨-, fsm⟩ | ⟨-, -, fsm⟩ | ⟨-, -, fsm⟩ <;>
    rw [fsm] at busy ⊢
  · exact absurd rfl busy
  · rcases s.byte.bit.exec_cmd s.byte.coreCmd s.byte.coreTxd with idle | cmd
    · exact absurd idle busy
    · refine cmd.trans ?_
      split
      · rfl
      · exact h.group ‹_›
  · exact h.group busy

/-- A bit command that is acknowledged was run, and the clock of the acknowledge is not enabled. -/
theorem InStep.bit_acked (h : s.InStep) (on : s.On p) (hp : 3 ≤ p)
    (timed : s.byte.bit.Timed p k a line) (ack : (s.step i).byte.bit.cmdAck = true) :
    (s.step i).byte.bit.cState = .idle ∧ (s.step i).byte.bit.clkEn = false ∧
      s.byte.cState ≠ .idle ∧ s.byte.bit.cmdAck = false ∧ s.al = false := by
  rw [step_bit] at ack ⊢
  have running := on.running i
  rcases s.byte.bit.fsm_cases running with ⟨-, fsm⟩ | ⟨al, en, fsm⟩ | ⟨-, -, fsm⟩
  · rw [fsm] at ack
    cases ack
  · have last := BitFsm.exec_cmdAck (by rwa [fsm] at ack)
    have busy : s.byte.bit.cState ≠ .idle := by
      intro idle
      rw [idle] at last
      cases last.2
    refine ⟨by rw [fsm]; exact last.1, timed.not_clkEn_after_last hp running last.2 en,
      fun idle => busy (h.bit_idle idle), ?_, al⟩
    by_contra acked
    exact busy (h.acked (by simpa using acked)).1
  · rw [fsm] at ack
    cases ack

/-- After a clock in which the byte controller is idle, or is acknowledged, nothing is acknowledged.
-/
theorem InStep.noAck_next (h : s.InStep) (on : s.On p) (hp : 3 ≤ p)
    (timed : s.byte.bit.Timed p k a line)
    (still : s.byte.cState = .idle ∨ s.byte.bit.cmdAck = true) :
    (s.step i).byte.bit.cmdAck = false := by
  by_contra ack
  have acked := h.bit_acked on hp timed (by simpa using ack)
  rcases still with idle | ack'
  · exact acked.2.2.1 idle
  · rw [acked.2.2.2.1] at ack'
    cases ack'

theorem step_bit_sdaChk (h : s.InStep) (on : s.On p)
    (chk : (s.step i).byte.bit.sdaChk = true) : (s.step i).byte.bit.cState = .wrD := by
  rw [step_bit] at chk ⊢
  rcases s.byte.bit.fsm_cases (on.running i) with ⟨-, fsm⟩ | ⟨-, -, fsm⟩ | ⟨-, -, fsm⟩ <;>
    rw [fsm] at chk ⊢
  · cases chk
  · exact BitFsm.exec_sdaChk chk
  · exact h.sdaChk chk

/-- A bit controller that is not enabled, or asked for nothing, stays idle. -/
theorem InStep.bit_stays_idle (h : s.InStep) (on : s.On p)
    (still : s.byte.cState = .idle ∨ s.byte.bit.cmdAck = true) :
    (s.step i).byte.bit.cState = .idle := by
  have idle : s.byte.bit.cState = .idle := still.elim h.bit_idle fun ack => (h.acked ack).1
  rw [step_bit]
  rcases s.byte.bit.fsm_cases (on.running i) with ⟨-, fsm⟩ | ⟨-, en, fsm⟩ | ⟨-, -, fsm⟩ <;> rw [fsm]
  · rfl
  · have nop : s.byte.coreCmd = .nop := by
      rcases still with byte | ack
      · rw [h.coreCmd, byte]
        rfl
      · rw [(h.acked ack).2.1] at en
        cases en
    rw [show (s.byte.bitIn (s.byteIn i)).cmd = .nop from nop]
    exact BitFsm.exec_idle_nop idle
  · exact idle

/-! ## The invariant is kept -/

theorem InStep.step_lost (rst : s.rst = false) (al : s.al = true) : (s.step i).InStep :=
  inStep_released (RTLI2C.step_lost rst al).1 (RTLI2C.step_lost rst al).2

theorem InStep.step_idle (h : s.InStep) (on : s.On p) (hp : 3 ≤ p)
    (timed : s.byte.bit.Timed p k a line) (al : s.al = false) (idle : s.byte.cState = .idle)
    (quiet : s.byte.go (s.byteIn i) = false) : (s.step i).InStep := by
  have fsm := RTLI2C.step_idle (i := i) on.rst al idle quiet
  have bit := h.bit_stays_idle (i := i) on (Or.inl idle)
  constructor
  case coreCmd =>
    rw [fsm]
    simp [h.coreCmd, idle, ByteState.cmd]
  case group => exact fun busy => absurd bit busy
  case acked => exact fun ack => absurd idle (h.bit_acked on hp timed ack).2.2.1
  case loading => simp [fsm]
  case sdaChk => exact step_bit_sdaChk h on
  all_goals simp [fsm, idle]

theorem InStep.step_begin (h : s.InStep) (on : s.On p) (hp : 3 ≤ p)
    (timed : s.byte.bit.Timed p k a line) (al : s.al = false) (idle : s.byte.cState = .idle)
    (done : s.done = false) (transfers : s.transfers = true)
    (keeps : (s.step i).command = s.command) : (s.step i).InStep := by
  have fsm := RTLI2C.step_begin (i := i) on.rst al idle done transfers
  have bit := h.bit_stays_idle (i := i) on (Or.inl idle)
  have read : (s.step i).read = s.read := by rw [RTLI2C.read, keeps, RTLI2C.read]
  have write : (s.step i).write = s.write := by rw [RTLI2C.write, keeps, RTLI2C.write]
  have start : (s.step i).start = s.start := by rw [RTLI2C.start, keeps, RTLI2C.start]
  have noAck : (s.step i).byte.bit.cmdAck = false := by
    by_contra ack
    exact (h.bit_acked on hp timed (by simpa using ack)).2.2.1 idle
  constructor
  case coreCmd => rw [fsm, read]
  case group => exact fun busy => absurd bit busy
  case acked => simp [noAck]
  case loading =>
    refine fun _ => ⟨bit, noAck, ?_⟩
    rw [fsm]
    exact ByteState.first_ne_idle _ _
  case sdaChk => exact step_bit_sdaChk h on
  case transfers =>
    intro _
    rw [RTLI2C.transfers, read, write, ← RTLI2C.transfers, transfers]
  case start =>
    rw [fsm, start]
    exact ByteState.first_eq_start
  case read =>
    rw [fsm, read]
    exact ByteState.first_eq_read
  case write =>
    rw [fsm, read]
    exact ByteState.first_eq_write
  case stop =>
    rw [fsm]
    exact fun state => absurd state (ByteState.first_ne_stop _ _)

theorem InStep.step_wait (h : s.InStep) (on : s.On p) (hp : 3 ≤ p)
    (timed : s.byte.bit.Timed p k a line) (al : s.al = false) (busy : s.byte.cState ≠ .idle)
    (wait : s.byte.bit.cmdAck = false) (keeps : (s.step i).command = s.command) :
    (s.step i).InStep := by
  have fsm := RTLI2C.step_wait (i := i) on.rst al busy wait
  have read : (s.step i).read = s.read := by rw [RTLI2C.read, keeps, RTLI2C.read]
  have write : (s.step i).write = s.write := by rw [RTLI2C.write, keeps, RTLI2C.write]
  have start : (s.step i).start = s.start := by rw [RTLI2C.start, keeps, RTLI2C.start]
  constructor
  case coreCmd =>
    rw [fsm, read]
    exact h.coreCmd
  case group =>
    intro bit
    rw [h.bit_group on bit, fsm]
  case acked =>
    intro ack
    have acked := h.bit_acked on hp timed ack
    refine ⟨acked.1, acked.2.1, ?_⟩
    rw [fsm]
    exact busy
  case loading => simp [fsm]
  case sdaChk => exact step_bit_sdaChk h on
  case transfers =>
    exact fun _ => by rw [RTLI2C.transfers, read, write, ← RTLI2C.transfers, h.transfers busy]
  case start =>
    rw [fsm, start]
    exact h.start
  case read =>
    rw [fsm, read]
    exact h.read
  case write =>
    rw [fsm, read]
    exact h.write
  case stop =>
    rw [fsm, RTLI2C.stop, keeps]
    exact h.stop

theorem InStep.step_advance (h : s.InStep) (on : s.On p) (hp : 3 ≤ p)
    (timed : s.byte.bit.Timed p k a line) (al : s.al = false) (done : s.done = false)
    (busy : s.byte.cState ≠ .idle) (ack : s.byte.bit.cmdAck = true)
    (keeps : (s.step i).command = s.command) : (s.step i).InStep := by
  have fsm := RTLI2C.step_advance (i := i) h on.rst al done busy ack
  have bit := h.bit_stays_idle (i := i) on (Or.inr ack)
  have read : (s.step i).read = s.read := by rw [RTLI2C.read, keeps, RTLI2C.read]
  have write : (s.step i).write = s.write := by rw [RTLI2C.write, keeps, RTLI2C.write]
  have stop : (s.step i).stop = s.stop := by rw [RTLI2C.stop, keeps, RTLI2C.stop]
  have noAck : (s.step i).byte.bit.cmdAck = false := by
    by_contra ack'
    rw [(h.bit_acked on hp timed (by simpa using ack')).2.2.2.1] at ack
    cases ack
  constructor
  case coreCmd => rw [fsm, read]
  case group => exact fun busy => absurd bit busy
  case acked => simp [noAck]
  case loading =>
    refine fun load => ⟨bit, noAck, fun idle => ?_⟩
    rw [fsm] at load idle
    rcases ByteState.succ_eq_idle idle with state | state | state
    · exact busy state
    all_goals simp [state] at load
  case sdaChk => exact step_bit_sdaChk h on
  case transfers =>
    exact fun _ => by rw [RTLI2C.transfers, read, write, ← RTLI2C.transfers, h.transfers busy]
  case start =>
    rw [fsm]
    exact fun state => absurd state (ByteState.succ_ne_start _ _ _ _)
  case read =>
    rw [fsm, read]
    exact fun state => (ByteState.succ_eq_read state).elim id h.read
  case write =>
    rw [fsm, read]
    exact fun state => (ByteState.succ_eq_write state).elim id h.write
  case stop =>
    rw [fsm, stop]
    exact ByteState.succ_eq_stop

/-! ## Phases -/

/-- The phases of a command. -/
inductive Phase where
  | resting | pending | running | finishing | clearing
  deriving DecidableEq

/-- The core is in a phase. -/
def InPhase (s : RTLI2C) : Phase → Prop
  | .resting => s.command = 0 ∧ s.byte.cState = .idle ∧ s.done = false ∧ s.al = false ∧
      s.tip = false
  | .pending => s.transfers = true ∧ s.byte.cState = .idle ∧ s.done = false ∧ s.al = false
  | .running => s.transfers = true ∧ s.byte.cState ≠ .idle ∧ s.done = false ∧ s.tip = true
  | .finishing => s.transfers = true ∧ s.byte.cState = .idle ∧ s.done = true ∧ s.al = false ∧
      s.tip = true
  | .clearing => s.command = 0 ∧ s.byte.cState = .idle ∧ s.done = false ∧ s.tip = true

/-- A clock keeps to the rules if it writes `command` only while the core is quiescent, and then
with a word that asks for one transfer. -/
def Polite (s : RTLI2C) (i : In) : Prop :=
  ∀ v, i.write .command = some v →
    s.command = 0 ∧ s.byte.cState = .idle ∧ s.al = false ∧ isTransfer v = true

/-- A cleared command register asks for nothing. -/
theorem go_of_command_zero (h : s.command = 0) : s.byte.go (s.byteIn i) = false := by
  simp [ByteCtrl.go, byteIn, RTLI2C.read, RTLI2C.write, stop, h]

theorem transfers_of_zero (h : s.command = 0) : s.transfers = false := by
  simp [RTLI2C.transfers, RTLI2C.read, RTLI2C.write, h]

theorem tip_next : (s.step i).tip = (s.read || s.write) := rfl

theorem tip_of_transfers (h : s.transfers = true) : (s.step i).tip = true := by
  rw [tip_next]
  revert h
  simp only [RTLI2C.transfers]
  cases s.read <;> cases s.write <;> simp

theorem tip_of_zero (h : s.command = 0) : (s.step i).tip = false := by
  simp [tip_next, RTLI2C.read, RTLI2C.write, h]

theorem transfers_of_write {v : BitVec 32} (h : (s.step i).command = v.setWidth 8)
    (asks : isTransfer v = true) : (s.step i).transfers = true := by
  simpa [RTLI2C.transfers, RTLI2C.read, RTLI2C.write, h, isTransfer, BitVec.getLsbD_setWidth]
    using asks

theorem transfers_keep (h : (s.step i).command = s.command) :
    (s.step i).transfers = s.transfers := by
  simp only [RTLI2C.transfers, RTLI2C.read, RTLI2C.write, h]

/-- A quiescent core without a new command: it rests from the next clock on. -/
theorem quiet_step (h : s.InStep) (on : s.On p) (hp : 3 ≤ p) (timed : s.byte.bit.Timed p k a line)
    (command : s.command = 0) (idle : s.byte.cState = .idle)
    (hw : i.write .command = none) :
    (s.step i).InStep ∧ (s.step i).InPhase .resting := by
  have zero : (s.step i).command = 0 := by
    rw [step_command hw, command, ite_self]
  have tip : (s.step i).tip = false := tip_of_zero command
  by_cases al : s.al = true
  · have lost := RTLI2C.step_lost (i := i) on.rst al
    refine ⟨.step_lost on.rst al, zero, ?_, ?_, h.al_next idle, tip⟩
    · rw [lost.1]
      rfl
    · rw [done, lost.1]
      rfl
  · have al' : s.al = false := by simpa using al
    have fsm := RTLI2C.step_idle (i := i) on.rst al' idle (go_of_command_zero command)
    refine ⟨h.step_idle on hp timed al' idle (go_of_command_zero command), zero, ?_, ?_,
      h.al_next idle, tip⟩
    · rw [fsm]
      exact idle
    · rw [done, fsm]

/-- A quiescent core that is given a command. -/
theorem write_step (h : s.InStep) (on : s.On p) (hp : 3 ≤ p) (timed : s.byte.bit.Timed p k a line)
    (command : s.command = 0) (idle : s.byte.cState = .idle) (done : s.done = false)
    (al : s.al = false) {v : BitVec 32} (hw : i.write .command = some v)
    (asks : isTransfer v = true) :
    (s.step i).InStep ∧ (s.step i).InPhase .pending ∧ (s.step i).command = v.setWidth 8 := by
  have new := command_of_write hw done al
  have fsm := RTLI2C.step_idle (i := i) on.rst al idle (go_of_command_zero command)
  refine ⟨h.step_idle on hp timed al idle (go_of_command_zero command),
    ⟨transfers_of_write new asks, ?_, ?_, h.al_next idle⟩, new⟩
  · rw [fsm]
    exact idle
  · rw [RTLI2C.done, fsm]

/-- A pending command starts in the next clock. -/
theorem pending_step (h : s.InStep) (on : s.On p) (hp : 3 ≤ p)
    (timed : s.byte.bit.Timed p k a line) (ph : s.InPhase .pending)
    (hw : i.write .command = none) :
    (s.step i).InStep ∧ (s.step i).InPhase .running ∧ (s.step i).command = s.command ∧
      (s.step i).byte.cState = .first s.start s.read := by
  obtain ⟨transfers, idle, done, al⟩ := ph
  have keeps : (s.step i).command = s.command := by
    rw [step_command hw, done, al]
    rfl
  have fsm := RTLI2C.step_begin (i := i) on.rst al idle done transfers
  refine ⟨h.step_begin on hp timed al idle done transfers keeps,
    ⟨?_, ?_, ?_, tip_of_transfers transfers⟩, keeps, by rw [fsm]⟩
  · rw [transfers_keep keeps, transfers]
  · rw [fsm]
    exact ByteState.first_ne_idle _ _
  · rw [RTLI2C.done, fsm]

/-- An arbitration loss ends a command at once. -/
theorem running_step_lost (on : s.On p) (ph : s.InPhase .running)
    (al : s.al = true) (hw : i.write .command = none) :
    (s.step i).InStep ∧ (s.step i).InPhase .clearing := by
  obtain ⟨transfers, -, -, -⟩ := ph
  have lost := RTLI2C.step_lost (i := i) on.rst al
  refine ⟨.step_lost on.rst al, ?_, ?_, ?_, tip_of_transfers transfers⟩
  · rw [step_command hw, al, Bool.or_true, if_pos rfl]
  · rw [lost.1]
    rfl
  · rw [done, lost.1]
    rfl

/-- A running command waits for its bit command. -/
theorem running_step_wait (h : s.InStep) (on : s.On p) (hp : 3 ≤ p)
    (timed : s.byte.bit.Timed p k a line) (ph : s.InPhase .running) (al : s.al = false)
    (wait : s.byte.bit.cmdAck = false) (hw : i.write .command = none) :
    (s.step i).InStep ∧ (s.step i).InPhase .running ∧ (s.step i).command = s.command := by
  obtain ⟨transfers, busy, done, -⟩ := ph
  have keeps : (s.step i).command = s.command := by
    rw [step_command hw, done, al]
    rfl
  have fsm := RTLI2C.step_wait (i := i) on.rst al busy wait
  refine ⟨h.step_wait on hp timed al busy wait keeps,
    ⟨?_, ?_, ?_, tip_of_transfers transfers⟩, keeps⟩
  · rw [transfers_keep keeps, transfers]
  · rw [fsm]
    exact busy
  · rw [RTLI2C.done, fsm]

/-- A running command goes on to its next bit command, or finishes. -/
theorem running_step_advance (h : s.InStep) (on : s.On p) (hp : 3 ≤ p)
    (timed : s.byte.bit.Timed p k a line) (ph : s.InPhase .running) (al : s.al = false)
    (ack : s.byte.bit.cmdAck = true) (hw : i.write .command = none) :
    (s.step i).InStep ∧ (s.step i).command = s.command ∧
      (s.step i).InPhase
        (if s.byte.cState.succ s.read s.stop (s.byte.dcnt == 0) = .idle then .finishing
          else .running) := by
  obtain ⟨transfers, busy, done, -⟩ := ph
  have keeps : (s.step i).command = s.command := by
    rw [step_command hw, done, al]
    rfl
  have transfers' : (s.step i).transfers = true := by rw [transfers_keep keeps, transfers]
  have fsm := RTLI2C.step_advance (i := i) h on.rst al done busy ack
  refine ⟨h.step_advance on hp timed al done busy ack keeps, keeps, ?_⟩
  split
  next idle =>
    refine ⟨transfers', by rw [fsm]; exact idle, by rw [RTLI2C.done, fsm]; simp [idle], ?_,
      tip_of_transfers transfers⟩
    have bit := (h.acked ack).1
    exact al_of_idle bit (h.sdaChk_idle bit)
  next going =>
    exact ⟨transfers', by rw [fsm]; exact going, by rw [RTLI2C.done, fsm]; simp [going],
      tip_of_transfers transfers⟩

/-- A running command loses the arbitration, goes on or finishes. -/
theorem running_step (h : s.InStep) (on : s.On p) (hp : 3 ≤ p) (timed : s.byte.bit.Timed p k a line)
    (ph : s.InPhase .running) (hw : i.write .command = none) :
    (s.al = true ∧ (s.step i).InPhase .clearing) ∨
      (s.al = false ∧ (s.step i).command = s.command ∧
        ((s.step i).InPhase .running ∨ (s.step i).InPhase .finishing)) := by
  by_cases al : s.al = true
  · exact Or.inl ⟨al, (running_step_lost on ph al hw).2⟩
  · have al := eq_false_of_ne_true al
    by_cases ack : s.byte.bit.cmdAck = true
    · obtain ⟨-, keeps, next⟩ := running_step_advance h on hp timed ph al ack hw
      split at next
      · exact Or.inr ⟨al, keeps, Or.inr next⟩
      · exact Or.inr ⟨al, keeps, Or.inl next⟩
    · obtain ⟨-, next, keeps⟩ :=
        running_step_wait h on hp timed ph al (eq_false_of_ne_true ack) hw
      exact Or.inr ⟨al, keeps, Or.inl next⟩

/-- The acknowledge of a command clears the command register. -/
theorem finishing_step (h : s.InStep) (on : s.On p) (hp : 3 ≤ p)
    (timed : s.byte.bit.Timed p k a line) (ph : s.InPhase .finishing)
    (hw : i.write .command = none) :
    (s.step i).InStep ∧ (s.step i).InPhase .clearing ∧ (s.step i).al = false := by
  obtain ⟨transfers, idle, done, al, -⟩ := ph
  have go : s.byte.go (s.byteIn i) = false := by
    simp [ByteCtrl.go, show s.byte.cmdAck = true from done]
  have fsm := RTLI2C.step_idle (i := i) on.rst al idle go
  refine ⟨h.step_idle on hp timed al idle go, ⟨?_, ?_, ?_, tip_of_transfers transfers⟩,
    h.al_next idle⟩
  · rw [step_command hw, done]
    rfl
  · rw [fsm]
    exact idle
  · rw [RTLI2C.done, fsm]

/-- While a command is in the register, none is written. -/
theorem Polite.no_write (polite : s.Polite i) (transfers : s.transfers = true) :
    i.write .command = none := by
  cases hw : i.write .command with
  | none => rfl
  | some v =>
    rw [transfers_of_zero (polite v hw).1] at transfers
    cases transfers

/-- A quiescent core, whether it is given a command or not. -/
theorem quiescent_step (h : s.InStep) (on : s.On p) (hp : 3 ≤ p)
    (timed : s.byte.bit.Timed p k a line) (polite : s.Polite i) (command : s.command = 0)
    (idle : s.byte.cState = .idle) (done : s.done = false) :
    (s.step i).InStep ∧ ((s.step i).InPhase .resting ∨ (s.step i).InPhase .pending) := by
  cases hw : i.write .command with
  | none =>
    have quiet := quiet_step h on hp timed command idle hw
    exact ⟨quiet.1, Or.inl quiet.2⟩
  | some v =>
    obtain ⟨-, -, al, asks⟩ := polite v hw
    have write := write_step h on hp timed command idle done al hw asks
    exact ⟨write.1, Or.inr write.2.1⟩

/-- In every clock that keeps to the rules the machines stay in step and the core in a phase. -/
theorem phase_step (h : s.InStep) (on : s.On p) (hp : 3 ≤ p) (timed : s.byte.bit.Timed p k a line)
    (polite : s.Polite i) (ph : ∃ f, s.InPhase f) :
    (s.step i).InStep ∧ ∃ f, (s.step i).InPhase f := by
  obtain ⟨f, ph⟩ := ph
  have quiescent := fun command idle done =>
    quiescent_step h on hp timed polite command idle done
  cases f with
  | resting =>
    obtain ⟨inStep, rest | pend⟩ := quiescent ph.1 ph.2.1 ph.2.2.1
    · exact ⟨inStep, _, rest⟩
    · exact ⟨inStep, _, pend⟩
  | pending =>
    have run := pending_step h on hp timed ph (polite.no_write ph.1)
    exact ⟨run.1, _, run.2.1⟩
  | running =>
    have hw := polite.no_write ph.1
    by_cases al : s.al = true
    · have lost := running_step_lost on ph al hw
      exact ⟨lost.1, _, lost.2⟩
    · have al' : s.al = false := by simpa using al
      by_cases ack : s.byte.bit.cmdAck = true
      · have next := running_step_advance h on hp timed ph al' ack hw
        exact ⟨next.1, _, next.2.2⟩
      · have wait := running_step_wait h on hp timed ph al' (by simpa using ack) hw
        exact ⟨wait.1, _, wait.2.1⟩
  | finishing =>
    have clear := finishing_step h on hp timed ph (polite.no_write ph.1)
    exact ⟨clear.1, _, clear.2.1⟩
  | clearing =>
    obtain ⟨inStep, rest | pend⟩ := quiescent ph.1 ph.2.1 ph.2.2.1
    · exact ⟨inStep, _, rest⟩
    · exact ⟨inStep, _, pend⟩

/-- A core that is given no command has none pending in the next clock. -/
theorem not_pending_next (h : s.InStep) (on : s.On p) (hp : 3 ≤ p)
    (timed : s.byte.bit.Timed p k a line) (ph : ∃ f, s.InPhase f) (hw : i.write .command = none) :
    ¬ (s.step i).InPhase .pending := by
  rintro ⟨transfers, idle, done, -⟩
  obtain ⟨f, ph⟩ := ph
  cases f with
  | resting =>
    have next := (quiet_step h on hp timed ph.1 ph.2.1 hw).2
    rw [transfers_of_zero next.1] at transfers
    cases transfers
  | pending => exact (pending_step h on hp timed ph hw).2.1.2.1 idle
  | running =>
    rcases running_step h on hp timed ph hw with ⟨-, next⟩ | ⟨-, -, next | next⟩
    · rw [transfers_of_zero next.1] at transfers
      cases transfers
    · exact next.2.1 idle
    · rw [next.2.2.1] at done
      cases done
  | finishing =>
    have next := (finishing_step h on hp timed ph hw).2.1
    rw [transfers_of_zero next.1] at transfers
    cases transfers
  | clearing =>
    have next := (quiet_step h on hp timed ph.1 ph.2.1 hw).2
    rw [transfers_of_zero next.1] at transfers
    cases transfers

/-- `TIP` is clear while the core rests, and otherwise at most in the first clock of a command. -/
theorem resting_of_tip (ph : ∃ f, s.InPhase f) (fresh : ¬ s.InPhase .pending)
    (tip : s.tip = false) :
    s.InPhase .resting := by
  obtain ⟨f, ph⟩ := ph
  cases f with
  | resting => exact ph
  | pending => exact absurd ph fresh
  | running => exact nomatch ph.2.2.2.symm.trans tip
  | finishing => exact nomatch ph.2.2.2.2.symm.trans tip
  | clearing => exact nomatch ph.2.2.2.symm.trans tip

/-! ## A command underway -/

/-- No command is in the register, running or being acknowledged. -/
def Quiescent (s : RTLI2C) : Prop := s.command = 0 ∧ s.byte.cState = .idle ∧ s.done = false

/-- The command `w` runs, or is over. -/
def Underway (w : BitVec 8) (s : RTLI2C) : Prop :=
  (s.InPhase .running ∧ s.command = w) ∨ s.InPhase .finishing ∨ s.Quiescent

/-- So it stays in every clock that writes no other command. -/
theorem Underway.step {w : BitVec 8} (under : s.Underway w) (h : s.InStep) (on : s.On p)
    (hp : 3 ≤ p)
    (timed : s.byte.bit.Timed p k a line) (hw : i.write .command = none) :
    (s.step i).Underway w := by
  rcases under with ⟨running, word⟩ | finishing | ⟨command, idle, -⟩
  · rcases running_step h on hp timed running hw with ⟨-, lost⟩ | ⟨-, keeps, next | next⟩
    · exact Or.inr (Or.inr ⟨lost.1, lost.2.1, lost.2.2.1⟩)
    · exact Or.inl ⟨next, keeps.trans word⟩
    · exact Or.inr (Or.inl next)
  · have clear := (finishing_step h on hp timed finishing hw).2.1
    exact Or.inr (Or.inr ⟨clear.1, clear.2.1, clear.2.2.1⟩)
  · have rest := (quiet_step h on hp timed command idle hw).2
    exact Or.inr (Or.inr ⟨rest.1, rest.2.1, rest.2.2.1⟩)

end Bit

end RTLI2C

end Rockling
