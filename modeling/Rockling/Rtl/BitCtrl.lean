import Rockling.Lib.GlitchFilter

/-!
# The I2C bit controller

`i2c_controller_bit_ctrl.v`: the clock divider, the input filters, the bus status detectors and the
state machine that turns one bit command into SCL and SDA transitions. Every `always` block is one
field of `BitCtrl.step`; the asynchronous reset `nReset` is tied high by its only user and is left
out.
-/

namespace Rockling

/-- The command codes of `i2c_controller_defines.v`. -/
inductive Cmd where
  | nop
  | start
  | stop
  | write
  | read
  deriving DecidableEq, Repr

/-- The one-hot states of the bit state machine. -/
inductive BitState where
  | idle
  | startA | startB | startC | startD | startE
  | stopA | stopB | stopC | stopD
  | rdA | rdB | rdC | rdD
  | wrA | wrB | wrC | wrD
  deriving DecidableEq, Repr

/-- The registers the state machine assigns. -/
structure BitFsm where
  cState : BitState
  cmdAck : Bool
  sclOen : Bool
  sdaOen : Bool
  sdaChk : Bool
  deriving DecidableEq, Repr

/-- The registers of the bit controller. -/
structure BitCtrl extends BitFsm where
  dsclOen : Bool
  peripheralWait : Bool
  cnt : ℕ
  clkEn : Bool
  scl : LineFilter
  sda : LineFilter
  filterCnt : ℕ
  staCondition : Bool
  stoCondition : Bool
  busy : Bool
  cmdStop : Bool
  al : Bool
  dout : Bool
  deriving DecidableEq, Repr

/-- The inputs of the bit controller in one clock. -/
structure BitIn where
  rst : Bool
  ena : Bool
  clkCnt : ℕ
  cmd : Cmd
  din : Bool
  sclI : Bool
  sdaI : Bool

/-- The state entered from `idle` on a command. -/
def Cmd.first : Cmd → BitState
  | .start => .startA
  | .stop => .stopA
  | .write => .wrA
  | .read => .rdA
  | .nop => .idle

namespace BitFsm

/-- Values under reset, and after an arbitration loss: both lines released. -/
def released : BitFsm := ⟨.idle, false, true, true, false⟩

/-- One enabled step of the state machine. -/
def exec (b : BitFsm) (cmd : Cmd) (din : Bool) : BitFsm :=
  match b.cState with
  | .idle => ⟨cmd.first, false, b.sclOen, b.sdaOen, false⟩
  | .startA => ⟨.startB, false, b.sclOen, true, false⟩
  | .startB => ⟨.startC, false, true, true, false⟩
  | .startC => ⟨.startD, false, true, false, false⟩
  | .startD => ⟨.startE, false, true, false, false⟩
  | .startE => ⟨.idle, true, false, false, false⟩
  | .stopA => ⟨.stopB, false, false, false, false⟩
  | .stopB => ⟨.stopC, false, true, false, false⟩
  | .stopC => ⟨.stopD, false, true, false, false⟩
  | .stopD => ⟨.idle, true, true, true, false⟩
  | .rdA => ⟨.rdB, false, false, true, false⟩
  | .rdB => ⟨.rdC, false, true, true, false⟩
  | .rdC => ⟨.rdD, false, true, true, false⟩
  | .rdD => ⟨.idle, true, false, true, false⟩
  | .wrA => ⟨.wrB, false, false, din, false⟩
  | .wrB => ⟨.wrC, false, true, din, false⟩
  | .wrC => ⟨.wrD, false, true, din, true⟩
  | .wrD => ⟨.idle, true, false, din, false⟩

/-- One clock of the state machine. -/
def next (b : BitFsm) (rst al clkEn : Bool) (cmd : Cmd) (din : Bool) : BitFsm :=
  if rst || al then released
  else if clkEn then b.exec cmd din
  else { b with cmdAck := false }

end BitFsm

namespace BitCtrl

/-- `scl_sync`: the line falls although the controller has released it. -/
def sclSync (b : BitCtrl) : Bool := b.scl.d && !b.scl.s && b.sclOen

/-- The branch of the clock divider that reloads the counter. -/
def reload (b : BitCtrl) (i : BitIn) : Bool := i.rst || b.cnt == 0 || !i.ena || b.sclSync

/-- One clock of the bit controller. -/
def step (b : BitCtrl) (i : BitIn) : BitCtrl where
  toBitFsm := b.toBitFsm.next i.rst b.al b.clkEn i.cmd i.din
  dsclOen := b.sclOen
  peripheralWait := (b.sclOen && !b.dsclOen && !b.scl.s) || (b.peripheralWait && !b.scl.s)
  cnt := if b.reload i then i.clkCnt else if b.peripheralWait then b.cnt else b.cnt - 1
  clkEn := b.reload i
  scl := if i.rst then .reset else b.scl.step (b.filterCnt == 0) i.sclI
  sda := if i.rst then .reset else b.sda.step (b.filterCnt == 0) i.sdaI
  filterCnt :=
    if i.rst || !i.ena then 0
    else if b.filterCnt = 0 then i.clkCnt / 4 else b.filterCnt - 1
  staCondition := !i.rst && (!b.sda.s && b.sda.d && b.scl.s)
  stoCondition := !i.rst && (b.sda.s && !b.sda.d && b.scl.s)
  busy := !i.rst && ((b.staCondition || b.busy) && !b.stoCondition)
  cmdStop := !i.rst && (if b.clkEn then i.cmd == .stop else b.cmdStop)
  al := !i.rst &&
    ((b.sdaChk && !b.sda.s && b.sdaOen) || (b.cState != .idle && b.stoCondition && !b.cmdStop))
  dout := if b.scl.s && !b.scl.d then b.sda.s else b.dout

/-- The registers at the end of the power-on reset, which holds `rst` for thousands of clocks at the
reset prescale `0xFFFF`. `dout` has no reset. -/
def powerOn (dout : Bool) : BitCtrl where
  toBitFsm := .released
  dsclOen := true
  peripheralWait := false
  cnt := 0xFFFF
  clkEn := true
  scl := .reset
  sda := .reset
  filterCnt := 0
  staCondition := false
  stoCondition := false
  busy := false
  cmdStop := false
  al := false
  dout := dout

end BitCtrl

end Rockling
