import Rockling.Rtl.BitCtrl

/-!
# The I2C byte controller

`i2c_controller_byte_ctrl.v`: the state machine that runs one byte command as a sequence of bit
commands, with its shift register and bit counter. The bit controller it instantiates is a field.
-/

namespace Rockling

/-- The states `ST_IDLE` to `ST_STOP` of the byte state machine. -/
inductive ByteState where
  | idle | start | read | write | ack | stop
  deriving DecidableEq, Repr

/-- The registers the state machine assigns. -/
structure ByteFsm where
  cState : ByteState
  coreCmd : Cmd
  coreTxd : Bool
  shift : Bool
  ld : Bool
  cmdAck : Bool
  ackOut : Bool
  deriving DecidableEq, Repr

/-- The registers of the byte controller and of the bit controller below it. `dcnt` is three bits
wide. -/
structure ByteCtrl extends ByteFsm where
  sr : BitVec 8
  dcnt : ℕ
  bit : BitCtrl
  deriving DecidableEq, Repr

/-- The inputs of the byte controller in one clock. -/
structure ByteIn where
  rst : Bool
  ena : Bool
  clkCnt : ℕ
  start : Bool
  stop : Bool
  read : Bool
  write : Bool
  ackIn : Bool
  din : BitVec 8
  sclI : Bool
  sdaI : Bool

namespace ByteFsm

/-- Values under reset and in a clock after an arbitration loss. -/
def released : ByteFsm := ⟨.idle, .nop, false, false, false, false, false⟩

/-- The first state of a command, entered from `idle` on `go`. -/
def begin (y : ByteFsm) (i : ByteIn) : ByteFsm :=
  if i.start then { y with cState := .start, coreCmd := .start, ld := true }
  else if i.read then { y with cState := .read, coreCmd := .read, ld := true }
  else if i.write then { y with cState := .write, coreCmd := .write, ld := true }
  else { y with cState := .stop, coreCmd := .stop, ld := true }

/-- One clock of the state machine out of reset. `coreAck`, `coreRxd` come from the bit controller,
`top` is `sr[7]` and `cntDone` is `dcnt == 0`. -/
def exec (y : ByteFsm) (i : ByteIn) (go coreAck coreRxd top cntDone : Bool) : ByteFsm :=
  -- the signals that every clock resets before the case
  let y := { y with coreTxd := top, shift := false, ld := false, cmdAck := false }
  match y.cState with
  | .idle => if go then y.begin i else y
  | .start =>
    if coreAck then
      if i.read then { y with cState := .read, coreCmd := .read, ld := true }
      else { y with cState := .write, coreCmd := .write, ld := true }
    else y
  | .write =>
    if coreAck then
      if cntDone then { y with cState := .ack, coreCmd := .read }
      else { y with cState := .write, coreCmd := .write, shift := true }
    else y
  | .read =>
    if coreAck then
      if cntDone then
        { y with cState := .ack, coreCmd := .write, shift := true, coreTxd := i.ackIn }
      else { y with cState := .read, coreCmd := .read, shift := true, coreTxd := i.ackIn }
    else y
  | .ack =>
    if coreAck then
      if i.stop then
        { y with cState := .stop, coreCmd := .stop, ackOut := coreRxd, coreTxd := true }
      else
        { y with
          cState := .idle, coreCmd := .nop, cmdAck := true, ackOut := coreRxd, coreTxd := true }
    else { y with coreTxd := i.ackIn }
  | .stop =>
    if coreAck then { y with cState := .idle, coreCmd := .nop, cmdAck := true } else y

end ByteFsm

namespace ByteCtrl

/-- `go`: a command is asked for and none completes in this clock. -/
def go (y : ByteCtrl) (i : ByteIn) : Bool := (i.read || i.write || i.stop) && !y.cmdAck

/-- The inputs the byte controller gives its bit controller. -/
def bitIn (y : ByteCtrl) (i : ByteIn) : BitIn where
  rst := i.rst
  ena := i.ena
  clkCnt := i.clkCnt
  cmd := y.coreCmd
  din := y.coreTxd
  sclI := i.sclI
  sdaI := i.sdaI

/-- One clock of the byte controller. -/
def step (y : ByteCtrl) (i : ByteIn) : ByteCtrl where
  toByteFsm :=
    if i.rst || y.bit.al then .released
    else y.toByteFsm.exec i (y.go i) y.bit.cmdAck y.bit.dout y.sr.msb (y.dcnt == 0)
  sr :=
    if i.rst then 0
    else if y.ld then i.din
    else if y.shift then y.sr.shiftConcat y.bit.dout
    else y.sr
  dcnt :=
    if i.rst then 0
    else if y.ld then 7
    else if y.shift then (y.dcnt + 7) % 8
    else y.dcnt
  bit := y.bit.step (y.bitIn i)

/-- The registers at the end of the power-on reset. -/
def powerOn (dout : Bool) : ByteCtrl where
  toByteFsm := .released
  sr := 0
  dcnt := 0
  bit := .powerOn dout

end ByteCtrl

end Rockling
