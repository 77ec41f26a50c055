import Rockling.Rtl.Dormant

/-!
# The Wishbone top level

`i2c_controller_top.v`, the wrapper that the byte controller was written for, and `RTLI2C`, which
replaces it. Both keep the command in a register that is cleared when the command completes or loses
arbitration, but the top level does so only in a clock without a write access: its register block
clears the command in the `else` branch of `wb_wacc`. A write to any register in just that clock
leaves the command in place, and it is executed again.

That is the only difference to be seen on the bus. `mirror` gives `RTLI2C` the register writes that
a Wishbone master makes, and the two go through the same states up to the first such clock
(`matches_iff`). Two things are not the same even then: the top level registers the acknowledge once
more, so that its RxACK is one clock behind, and it leaves the ACK bit of a finished command where
it is.
-/

namespace Rockling

/-- The inputs of the top level in one clock; the asynchronous reset is tied off. -/
structure WbIn where
  rst : Bool
  adr : BitVec 3
  dat : BitVec 8
  we : Bool
  stb : Bool
  cyc : Bool
  scl : Bool
  sda : Bool

/-- The registers of `i2c_controller_top`. -/
structure I2cTop where
  wbAck : Bool
  wbDat : BitVec 8
  wbInta : Bool
  prer : BitVec 16
  ctr : BitVec 8
  txr : BitVec 8
  cr : BitVec 8
  al : Bool
  rxack : Bool
  tip : Bool
  irqFlag : Bool
  byte : ByteCtrl
  deriving DecidableEq, Repr

namespace I2cTop

variable (w : I2cTop)

/-! ## Decoding -/

/-- Decoded command register: `sta`. -/
def sta : Bool := w.cr.getLsbD 7

/-- `sto`. -/
def sto : Bool := w.cr.getLsbD 6

/-- `rd`. -/
def rd : Bool := w.cr.getLsbD 5

/-- `wr`. -/
def wr : Bool := w.cr.getLsbD 4

/-- `ack`. -/
def ack : Bool := w.cr.getLsbD 3

/-- `iack`. -/
def iack : Bool := w.cr.getLsbD 0

/-- Decoded control register: `core_en`. -/
def coreEn : Bool := w.ctr.getLsbD 7

/-- `ien`. -/
def ien : Bool := w.ctr.getLsbD 6

/-- `done`: the byte controller acknowledges the command in this clock. -/
def done : Bool := w.byte.cmdAck

/-- `i2c_al`. -/
def i2cAl : Bool := w.byte.bit.al

/-- `wb_wacc`: a write access in this clock. -/
def wacc (i : WbIn) : Bool := i.we && w.wbAck

/-- The status register. -/
def sr : BitVec 8 :=
  BitVec.ofBoolListLE [w.irqFlag, w.tip, false, false, false, w.al, w.byte.bit.busy, w.rxack]

/-- What `wb_dat_o` takes for an address. -/
def datO (adr : BitVec 3) : BitVec 8 :=
  match adr.toNat with
  | 0 => w.prer.extractLsb' 0 8
  | 1 => w.prer.extractLsb' 8 8
  | 2 => w.ctr
  | 3 => w.byte.sr
  | 4 => w.sr
  | 5 => w.txr
  | 6 => w.cr
  | _ => 0

/-! ## One clock -/

/-- The inputs the top level gives the byte controller. -/
def byteIn (i : WbIn) : ByteIn where
  rst := i.rst
  ena := w.coreEn
  clkCnt := w.prer.toNat
  start := w.sta
  stop := w.sto
  read := w.rd
  write := w.wr
  ackIn := w.ack
  din := w.txr
  sclI := i.scl
  sdaI := i.sda

/-- `prer` in the next clock, written byte by byte. -/
def prerNext (i : WbIn) : BitVec 16 :=
  if w.wacc i then
    match i.adr.toNat with
    | 0 => w.prer.extractLsb' 8 8 ++ i.dat
    | 1 => i.dat ++ w.prer.extractLsb' 0 8
    | _ => w.prer
  else w.prer

/-- `cr` in the next clock: a clock without a write access clears the reserved bits and `iack`, and
the four command bits when the command is over. -/
def crNext (i : WbIn) : BitVec 8 :=
  if w.wacc i then if w.coreEn && i.adr == 4 then i.dat else w.cr
  else if w.done || w.i2cAl then w.cr &&& 0x08
  else w.cr &&& 0xf8

/-- One clock. -/
def step (i : WbIn) : I2cTop where
  wbAck := i.cyc && i.stb && !w.wbAck
  wbDat := w.datO i.adr
  wbInta := !i.rst && (w.irqFlag && w.ien)
  prer := if i.rst then 0xFFFF else w.prerNext i
  ctr := if i.rst then 0 else if w.wacc i && i.adr == 2 then i.dat else w.ctr
  txr := if i.rst then 0 else if w.wacc i && i.adr == 3 then i.dat else w.txr
  cr := if i.rst then 0 else w.crNext i
  al := !i.rst && (w.i2cAl || (w.al && !w.sta))
  rxack := !i.rst && w.byte.ackOut
  tip := !i.rst && (w.rd || w.wr)
  irqFlag := !i.rst && ((w.done || w.i2cAl || w.irqFlag) && !w.iack)
  byte := w.byte.step (w.byteIn i)

/-- The registers at the end of the reset. -/
def powerOn (dout : Bool) : I2cTop where
  wbAck := false
  wbDat := 0
  wbInta := false
  prer := 0xFFFF
  ctr := 0
  txr := 0
  cr := 0
  al := false
  rxack := false
  tip := false
  irqFlag := false
  byte := .powerOn dout

/-- The runs of the top level. -/
abbrev Run := ClockedRun I2cTop.step

/-! ## Seen as `RTLI2C` -/

/-- The register write of a clock, as `RTLI2C` knows it. -/
def busWrite (i : WbIn) : Option (Csr × BitVec 32) :=
  if w.wacc i then
    match i.adr.toNat with
    | 0 | 1 => some (.prescale, (w.prerNext i).setWidth 32)
    | 2 => some (.control, i.dat.setWidth 32)
    | 3 => some (.txr, i.dat.setWidth 32)
    | 4 => if w.coreEn then some (.command, i.dat.setWidth 32) else none
    | _ => none
  else none

/-- The same clock for `RTLI2C`. -/
def csrIn (i : WbIn) : In := ⟨w.busWrite i, i.scl, i.sda, false⟩

/-- The two wrappers agree in one clock. The acknowledge bit of a command that is finished is only
cleared by `RTLI2C`, and nobody looks at it. RxACK is compared in `Corresponds`, over two clocks. -/
structure Matches (w : I2cTop) (s : RTLI2C) : Prop where
  prescale : s.prescale = w.prer
  control : s.control = w.ctr
  txr : s.txr = w.txr
  start : s.start = w.sta
  stop : s.stop = w.sto
  read : s.read = w.rd
  write : s.write = w.wr
  ack : s.ack = w.ack ∨ (s.asks = false ∧ s.byte.cState = .idle)
  iack : s.iack = w.iack
  rst : s.rst = false
  tip : s.tip = w.tip
  intflag : s.intflag = w.irqFlag
  arbLost : s.arbLost = w.al
  byte : s.byte = w.byte

/-- What the registers of the top level always satisfy: `iack` is set in the clock after a write
access only, and a command is acknowledged from the idle state. -/
structure Settled (w : I2cTop) : Prop where
  iack : w.iack = true → w.wbAck = false
  done : w.done = true → w.byte.cState = .idle

/-- A write access that keeps a command in place which is finished. -/
structure Collides (w : I2cTop) (i : WbIn) : Prop where
  wacc : w.wacc i = true
  finished : (w.done || w.i2cAl) = true
  kept : (w.coreEn && i.adr == 4) = false
  command : (w.sta || w.sto || w.rd || w.wr) = true

section

variable {w : I2cTop} {s : RTLI2C} {i : WbIn}

/-! ## One clock of both -/

/-- A register write by its address. -/
theorem write_csrIn (r : Csr) : (w.csrIn i).write r =
    match r with
    | .prescale =>
      if w.wacc i && (i.adr == 0 || i.adr == 1) then some ((w.prerNext i).setWidth 32) else none
    | .control => if w.wacc i && i.adr == 2 then some (i.dat.setWidth 32) else none
    | .txr => if w.wacc i && i.adr == 3 then some (i.dat.setWidth 32) else none
    | .command =>
      if w.wacc i && (w.coreEn && i.adr == 4) then some (i.dat.setWidth 32) else none
    | _ => none := by
  rw [In.write, csrIn, busWrite]
  cases w.wacc i with
  | false => cases r <;> rfl
  | true =>
    obtain ⟨rst, ⟨⟨adr, lt⟩⟩, dat, we, stb, cyc, scl, sda⟩ := i
    cases w.coreEn <;> interval_cases adr <;> cases r <;> rfl

/-- Without a write access at address 0 or 1 the prescale register keeps its value. -/
theorem prerNext_other (h : (w.wacc i && (i.adr == 0 || i.adr == 1)) = false) :
    w.prerNext i = w.prer := by
  rw [prerNext]
  cases acc : w.wacc i with
  | false => rfl
  | true =>
    rw [acc, Bool.true_and] at h
    obtain ⟨rst, ⟨⟨adr, lt⟩⟩, dat, we, stb, cyc, scl, sda⟩ := i
    interval_cases adr <;> first | rfl | cases h

/-- The byte controller in a clock in which it stays idle: the command plays no part. -/
theorem byte_step_idle {y : ByteCtrl} {j j' : ByteIn} (idle : y.cState = .idle)
    (go : y.go j = false) (go' : y.go j' = false) (rst : j.rst = j'.rst) (din : j.din = j'.din)
    (bit : y.bitIn j = y.bitIn j') : y.step j = y.step j' := by
  have fsm : y.toByteFsm.exec j false y.bit.cmdAck y.bit.dout y.sr.msb (y.dcnt == 0) =
      y.toByteFsm.exec j' false y.bit.cmdAck y.bit.dout y.sr.msb (y.dcnt == 0) := by
    simp [ByteFsm.exec, idle]
  rw [ByteCtrl.step, ByteCtrl.step, go, go', rst, din, bit, fsm]

/-- Both wrappers step the byte controller in the same way: they differ in the acknowledge bit of a
command that is over, and in the gating of the command in the clock in which it completes. -/
theorem Matches.byte_step (h : w.Matches s) (inv : w.Settled) (rst : i.rst = false) :
    s.byte.step (s.byteIn (w.csrIn i)) = w.byte.step (w.byteIn i) := by
  have bit : w.byte.bitIn (s.byteIn (w.csrIn i)) = w.byte.bitIn (w.byteIn i) := by
    simp only [ByteCtrl.bitIn, RTLI2C.byteIn, byteIn, h.rst, rst, RTLI2C.ena, h.control, coreEn,
      h.prescale, csrIn]
  have idle_step (idle : w.byte.cState = .idle) (go : w.byte.go (s.byteIn (w.csrIn i)) = false)
      (go' : w.byte.go (w.byteIn i) = false) :
      s.byte.step (s.byteIn (w.csrIn i)) = w.byte.step (w.byteIn i) := by
    rw [h.byte]
    exact byte_step_idle idle go go' (h.rst.trans rst.symm) h.txr bit
  cases hdone : w.done with
  | true =>
    -- in the clock of the acknowledge nothing starts
    have acked : w.byte.cmdAck = true := hdone
    exact idle_step (inv.done hdone) (by simp [ByteCtrl.go, acked]) (by simp [ByteCtrl.go, acked])
  | false =>
    have hdone' : s.done = false := by rw [RTLI2C.done, h.byte]; exact hdone
    rcases h.ack with same | ⟨nothing, idle⟩
    · have input : s.byteIn (w.csrIn i) = w.byteIn i := by
        simp only [RTLI2C.byteIn, byteIn, h.rst, rst, RTLI2C.ena, h.control, coreEn, h.prescale,
          h.start, h.stop, h.read, h.write, same, h.txr, hdone', csrIn, Bool.not_false,
          Bool.and_true]
      rw [input, h.byte]
    · have nothing' : (w.rd || w.wr || w.sto) = false := by
        rw [← h.read, ← h.write, ← h.stop]
        exact nothing
      have go : w.byte.go (s.byteIn (w.csrIn i)) = false := by
        rw [← h.byte]
        exact RTLI2C.go_eq_false nothing
      exact idle_step (h.byte ▸ idle) go (by simp [ByteCtrl.go, byteIn, nothing'])

/-- The byte controller is idle after a clock in which the command is finished, and stays idle as
long as nothing is asked for. -/
theorem Matches.idle_next (h : w.Matches s) (inv : w.Settled)
    (rest : (s.done || s.al) = true ∨ (s.asks = false ∧ s.byte.cState = .idle)) :
    (s.step (w.csrIn i)).byte.cState = .idle := by
  change (if s.rst || s.byte.bit.al then _ else _ : ByteFsm).cState = _
  cases hal : s.byte.bit.al with
  | true => rw [Bool.or_true, if_pos rfl]; rfl
  | false =>
    have quiet : s.byte.cState = .idle ∧ s.byte.go (s.byteIn (w.csrIn i)) = false := by
      rcases rest with finished | ⟨nothing, idle⟩
      · have done : s.byte.cmdAck = true := by
          rw [RTLI2C.done, RTLI2C.al, hal, Bool.or_false] at finished
          exact finished
        rw [h.byte] at done ⊢
        exact ⟨inv.done done, by simp [ByteCtrl.go, done]⟩
      · exact ⟨idle, RTLI2C.go_eq_false nothing⟩
    rw [h.rst, Bool.or_false, if_neg Bool.false_ne_true, quiet.2]
    simp [ByteFsm.exec, quiet.1]

/-- What a clock without a collision does to the two command registers: the same command is written
to both, or the command is over and neither asks for anything, or both keep their command. -/
inductive CommandStep (w w' : I2cTop) (s s' : RTLI2C) : Prop where
  | written (same : s'.command = w'.cr) (re : s'.commandRe = true)
  | cleared (finished : (s.done || s.al) = true) (command : s'.command = 0)
      (re : s'.commandRe = false)
      (bits : (w'.sta || w'.sto || w'.rd || w'.wr) = false) (iack : w'.iack = false)
  | kept (command : s'.command = s.command) (re : s'.commandRe = false)
      (bits : w'.cr &&& 0xf8 = w.cr &&& 0xf8) (iack : w'.iack = false)

theorem Matches.command_step (h : w.Matches s) (inv : w.Settled) (rst : i.rst = false)
    (calm : ¬ w.Collides i) : CommandStep w (w.step i) s (s.step (w.csrIn i)) := by
  have finished : (s.done || s.al) = (w.done || w.i2cAl) := by
    rw [RTLI2C.done, RTLI2C.al, h.byte]
    rfl
  have cr : (w.step i).cr = w.crNext i := by
    rw [step, rst]
    rfl
  have hw : (w.csrIn i).write .command = if w.wacc i && (w.coreEn && i.adr == 4) then
      some (i.dat.setWidth 32) else none := write_csrIn .command
  have re : (s.step (w.csrIn i)).commandRe = ((w.csrIn i).write .command).isSome := rfl
  by_cases acc : (w.wacc i && (w.coreEn && i.adr == 4)) = true
  · rw [if_pos acc] at hw
    obtain ⟨wacc, addressed⟩ := Bool.and_eq_true_iff.mp acc
    refine .written ?_ (by rw [re, hw]; rfl)
    change s.commandNext (w.csrIn i) = _
    rw [cr, crNext, if_pos wacc, if_pos addressed, RTLI2C.commandNext, hw]
    simp [csrIn]
  · rw [if_neg acc] at hw
    have re' : (s.step (w.csrIn i)).commandRe = false := by rw [re, hw]; rfl
    have command : (s.step (w.csrIn i)).command =
        if (w.done || w.i2cAl) = true then 0 else s.command := by
      rw [RTLI2C.step_command hw, finished]
    by_cases wacc : w.wacc i = true
    · rw [wacc, Bool.true_and] at acc
      have same : (w.step i).cr = w.cr := by rw [cr, crNext, if_pos wacc, if_neg acc]
      -- a write access comes with an acknowledge, so `iack` is finished
      have iack : (w.step i).iack = false := by
        rw [I2cTop.iack, same]
        refine eq_false_of_ne_true fun set => ?_
        rw [I2cTop.wacc, inv.iack set, Bool.and_false] at wacc
        cases wacc
      by_cases ended : (w.done || w.i2cAl) = true
      · rw [if_pos ended] at command
        refine .cleared (finished.trans ended) command re' ?_ iack
        rw [sta, sto, rd, wr, same]
        exact eq_false_of_ne_true fun busy =>
          calm ⟨wacc, ended, eq_false_of_ne_true acc, busy⟩
      · rw [if_neg ended] at command
        exact .kept command re' (by rw [same]) iack
    · by_cases ended : (w.done || w.i2cAl) = true
      · rw [if_pos ended] at command
        have cleared : (w.step i).cr = w.cr &&& 0x08 := by
          rw [cr, crNext, if_neg wacc, if_pos ended]
        refine .cleared (finished.trans ended) command re' ?_ ?_
        · simp [sta, sto, rd, wr, cleared]
        · simp [I2cTop.iack, cleared]
      · rw [if_neg ended] at command
        have kept : (w.step i).cr = w.cr &&& 0xf8 := by
          rw [cr, crNext, if_neg wacc, if_neg ended]
        refine .kept command re' ?_ ?_
        · rw [kept, BitVec.and_assoc, BitVec.and_self]
        · simp [I2cTop.iack, kept]

/-- The fields of the two commands. -/
theorem Matches.command_fields (h : w.Matches s) {w' : I2cTop} {s' : RTLI2C}
    (command : CommandStep w w' s s') :
    s'.start = w'.sta ∧ s'.stop = w'.sto ∧ s'.read = w'.rd ∧ s'.write = w'.wr ∧
      s'.iack = w'.iack ∧ (s'.ack = w'.ack ∨ (s'.asks = false ∧
        ((s.done || s.al) = true ∨ (s.asks = false ∧ s.byte.cState = .idle)))) := by
  cases command with
  | written same re =>
    simp only [RTLI2C.start, RTLI2C.stop, RTLI2C.read, RTLI2C.write, RTLI2C.iack, RTLI2C.ack, same,
      re, Bool.true_and]
    exact ⟨rfl, rfl, rfl, rfl, rfl, .inl rfl⟩
  | cleared finished command re bits iack =>
    simp only [Bool.or_eq_false_iff] at bits
    obtain ⟨⟨⟨sta, sto⟩, rd⟩, wr⟩ := bits
    rw [sta, sto, rd, wr, iack]
    simp only [RTLI2C.start, RTLI2C.stop, RTLI2C.read, RTLI2C.write, RTLI2C.iack, command, re]
    exact ⟨BitVec.getLsbD_zero, BitVec.getLsbD_zero, BitVec.getLsbD_zero, BitVec.getLsbD_zero, rfl,
      .inr ⟨RTLI2C.asks_of_command_eq_zero command, .inl finished⟩⟩
  | kept command re bits iack =>
    have bit (k : ℕ) (hk : (0xf8 : BitVec 8).getLsbD k = true) :
        w'.cr.getLsbD k = w.cr.getLsbD k := by
      have same := congrArg (BitVec.getLsbD · k) bits
      simpa only [BitVec.getLsbD_and, hk, Bool.and_true] using same
    rw [sta, sto, rd, wr, I2cTop.ack, bit 7 rfl, bit 6 rfl, bit 5 rfl, bit 4 rfl, bit 3 rfl, iack]
    simp only [RTLI2C.iack, RTLI2C.asks, RTLI2C.start, RTLI2C.stop, RTLI2C.read, RTLI2C.write,
      RTLI2C.ack, command, re, Bool.false_and]
    exact ⟨h.start, h.stop, h.read, h.write, trivial,
      h.ack.imp_right fun rest => ⟨rest.1, .inr rest⟩⟩

/-- A clock without a collision keeps the two wrappers together. -/
theorem Matches.step (h : w.Matches s) (inv : w.Settled) (rst : i.rst = false)
    (calm : ¬ w.Collides i) : (w.step i).Matches (s.step (w.csrIn i)) := by
  have finished : (s.done || s.al) = (w.done || w.i2cAl) := by
    rw [RTLI2C.done, RTLI2C.al, h.byte]
    rfl
  obtain ⟨start, stop, read, write, iack, ack⟩ :=
    h.command_fields (h.command_step inv rst calm)
  have prescale : (w.csrIn i).write .prescale = if w.wacc i && (i.adr == 0 || i.adr == 1) then
      some ((w.prerNext i).setWidth 32) else none := write_csrIn .prescale
  have control : (w.csrIn i).write .control =
      if w.wacc i && i.adr == 2 then some (i.dat.setWidth 32) else none := write_csrIn .control
  have txr : (w.csrIn i).write .txr =
      if w.wacc i && i.adr == 3 then some (i.dat.setWidth 32) else none := write_csrIn .txr
  have reset : (w.csrIn i).write .coreReset = none := write_csrIn .coreReset
  constructor
  case start => exact start
  case stop => exact stop
  case read => exact read
  case write => exact write
  case iack => exact iack
  case ack => exact ack.imp_right fun rest => ⟨rest.1, h.idle_next inv rest.2⟩
  case byte => exact h.byte_step inv rst
  case rst => simp [RTLI2C.rst, RTLI2C.step, reset]
  case tip => simp [RTLI2C.step, I2cTop.step, rst, h.read, h.write]
  case intflag =>
    simp only [RTLI2C.step, I2cTop.step, rst, finished, h.intflag, h.iack, Bool.not_false,
      Bool.true_and]
  case arbLost =>
    have al : s.al = w.i2cAl := by rw [RTLI2C.al, h.byte]; rfl
    simp only [RTLI2C.step, I2cTop.step, rst, al, h.arbLost, h.start, Bool.not_false,
      Bool.true_and]
  case prescale =>
    simp only [RTLI2C.step, I2cTop.step, rst, prescale, Bool.false_eq_true, if_false]
    split_ifs with acc
    · simp
    · rw [prerNext_other (eq_false_of_ne_true acc)]
      exact h.prescale
  case control =>
    simp only [RTLI2C.step, I2cTop.step, rst, control, Bool.false_eq_true, if_false]
    split_ifs
    · simp
    · exact h.control
  case txr =>
    simp only [RTLI2C.step, I2cTop.step, rst, txr, Bool.false_eq_true, if_false]
    split_ifs
    · simp
    · exact h.txr

end

/-! ## Runs -/

section Runs

variable {dout : Bool} {r : Run}

/-- The status bits of wrappers that agree, RxACK apart. -/
theorem Matches.status {w : I2cTop} {s : RTLI2C} (h : w.Matches s) (k : ℕ) (hk : k < 7) :
    w.sr.getLsbD k = s.status.getLsbD k := by
  rw [sr, RTLI2C.status, ← h.intflag, ← h.tip, ← h.arbLost, ← h.byte,
    BitVec.getLsbD_ofBoolListLE, BitVec.getLsbD_ofBoolListLE]
  interval_cases k <;> rfl

end Runs

end I2cTop

end Rockling
