import Rockling.Rtl.ByteCtrl

/-!
# The RTLI2C peripheral

`RTLI2C` of `rtl/i2c/core.py`: the CSR registers around the byte controller, as LiteX and migen wire
them. A CSR write of one clock is visible in the next, and a pulse field is set for exactly that
clock. LiteX decides what a bus write and a device write to `command` in the same clock leave
behind; either is allowed here, by `In.devWins`.

The event manager only feeds the CPU interrupt and is left out.
-/

namespace Rockling

/-- The CSRs of the peripheral. -/
inductive Csr where
  | prescale | control | txr | rxr | command | status | coreReset
  deriving DecidableEq, Repr

/-- What happens around the peripheral in one clock: at most one CSR write, the levels of the two
lines at the pads, and which write to `command` wins a collision. -/
@[ext]
structure In where
  bus : Option (Csr × BitVec 32)
  scl : Bool
  sda : Bool
  devWins : Bool

/-- The value a bus write to register `r` carries in this clock. -/
def In.write (i : In) (r : Csr) : Option (BitVec 32) :=
  match i.bus with
  | some (r', v) => if r' = r then some v else none
  | none => none

/-- A clock writes at most one register. -/
theorem In.write_other {i : In} {r r' : Csr} {v : BitVec 32} (h : i.write r = some v)
    (ne : r ≠ r') : i.write r' = none := by
  unfold In.write at *
  split at h
  next reg x bus =>
    split at h
    next is => rw [is, if_neg ne]
    next => cases h
  next => cases h

/-- The registers of the peripheral. `commandRe` and `coreResetRe` are the `re` strobes that pulse
fields are gated with. -/
structure RTLI2C where
  prescale : BitVec 16
  control : BitVec 8
  txr : BitVec 8
  command : BitVec 8
  commandRe : Bool
  coreReset : Bool
  coreResetRe : Bool
  tip : Bool
  intflag : Bool
  arbLost : Bool
  byte : ByteCtrl
  deriving DecidableEq, Repr

namespace RTLI2C

variable (s : RTLI2C)

/-! ## Register fields -/

/-- `control.EN`. -/
def ena : Bool := s.control.getLsbD 7

/-- `command.STA`. -/
def start : Bool := s.command.getLsbD 7

/-- `command.STO`. -/
def stop : Bool := s.command.getLsbD 6

/-- `command.RD`. -/
def read : Bool := s.command.getLsbD 5

/-- `command.WR`. -/
def write : Bool := s.command.getLsbD 4

/-- `command.ACK`. -/
def ack : Bool := s.command.getLsbD 3

/-- `command.IACK`, a pulse field. -/
def iack : Bool := s.commandRe && s.command.getLsbD 0

/-- `core_reset.reset`, a pulse field. -/
def rst : Bool := s.coreResetRe && s.coreReset

/-- `done`: the byte controller acknowledges the command in this clock. -/
def done : Bool := s.byte.cmdAck

/-- `i2c_al`: the bit controller signals an arbitration loss in this clock. -/
def al : Bool := s.byte.bit.al

/-- The controller leaves SCL alone in this clock. -/
def sclOen : Bool := s.byte.bit.sclOen

/-- The controller leaves SDA alone in this clock. -/
def sdaOen : Bool := s.byte.bit.sdaOen

/-- The `status` register: `IF`, `TIP`, three reserved bits, `ArbLost`, `Busy` and `RxACK`. -/
def status : BitVec 8 :=
  BitVec.ofBoolListLE
    [s.intflag, s.tip, false, false, false, s.arbLost, s.byte.bit.busy, s.byte.ackOut]

/-- What a CSR read returns. -/
def readCsr : Csr → BitVec 32
  | .prescale => s.prescale.setWidth 32
  | .control => s.control.setWidth 32
  | .txr => s.txr.setWidth 32
  | .rxr => s.byte.sr.setWidth 32
  | .command => s.command.setWidth 32
  | .status => s.status.setWidth 32
  | .coreReset => (BitVec.ofBool s.coreReset).setWidth 32

/-! ## One clock -/

/-- The inputs the wrapper gives the byte controller. -/
def byteIn (i : In) : ByteIn where
  rst := s.rst
  ena := s.ena
  clkCnt := s.prescale.toNat
  start := s.start
  stop := s.stop && !s.done
  read := s.read && !s.done
  write := s.write && !s.done
  ackIn := s.ack
  din := s.txr
  sclI := i.scl
  sdaI := i.sda

/-- `command.storage` in the next clock: the device clears it when a command completes or loses
arbitration. -/
def commandNext (i : In) : BitVec 8 :=
  match i.write .command with
  | some v => if (s.done || s.al) && i.devWins then 0 else v.setWidth 8
  | none => if s.done || s.al then 0 else s.command

/-- One clock of the peripheral. -/
def step (i : In) : RTLI2C where
  prescale := ((i.write .prescale).map (·.setWidth 16)).getD s.prescale
  control := ((i.write .control).map (·.setWidth 8)).getD s.control
  txr := ((i.write .txr).map (·.setWidth 8)).getD s.txr
  command := s.commandNext i
  commandRe := (i.write .command).isSome
  coreReset := ((i.write .coreReset).map (·.getLsbD 0)).getD s.coreReset
  coreResetRe := (i.write .coreReset).isSome
  tip := s.read || s.write
  intflag := (s.done || s.al || s.intflag) && !s.iack
  arbLost := s.al || (s.arbLost && !s.start)
  byte := s.byte.step (s.byteIn i)

/-- The registers after the power-on reset. -/
def powerOn (dout : Bool) : RTLI2C where
  prescale := 0xFFFF
  control := 0
  txr := 0
  command := 0
  commandRe := false
  coreReset := false
  coreResetRe := false
  tip := false
  intflag := false
  arbLost := false
  byte := .powerOn dout

end RTLI2C

end Rockling
