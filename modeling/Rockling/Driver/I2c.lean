import Rockling.Lib.Interaction
import Rockling.Rtl.Core

/-!
# The I2C driver

`custom-bios/i2c.c`. A C `int` is a 32-bit word. The transaction functions are programs over calls
of `i2c_tx_char` and `i2c_rx_char` (`ByteIface`), and these are programs over register accesses
(`RegIface`), whose only loop is the polling loop of `i2c_wait_tip`.

The accessors of the generated `csr.h` follow from the field order of `rtl/i2c/core.py`.
-/

namespace Rockling

/-- A C `int`. -/
abbrev CInt := BitVec 32

namespace Driver

/-! ## Register accesses -/

/-- A register access of the CPU. `readWhile r busy` is the loop that reads `r` until the value read
is not `busy`. -/
inductive RegOp where
  | write (r : Csr) (v : BitVec 32)
  | read (r : Csr)
  | readWhile (r : Csr) (busy : BitVec 32 → Bool)

/-- The register interface. -/
abbrev RegIface : Signature where
  Op := RegOp
  Reply
    | .write _ _ => Unit
    | .read _ => BitVec 32
    | .readWhile _ _ => BitVec 32

/-- `*_replace` of a one-bit field. -/
def csrReplace (offset : ℕ) (oldword : BitVec 32) (v : Bool) : BitVec 32 :=
  (oldword &&& ~~~((1 : BitVec 32) <<< offset)) ||| ((BitVec.ofBool v).setWidth 32 <<< offset)

/-- `*_extract` of a one-bit field. -/
def csrExtract (offset : ℕ) (word : BitVec 32) : Bool := word.getLsbD offset

/-- A replaced field has its new value, the others keep theirs. -/
theorem getLsbD_csrReplace (offset : ℕ) (oldword : BitVec 32) (v : Bool) {j : ℕ} (inside : j < 32) :
    (csrReplace offset oldword v).getLsbD j = if j = offset then v else oldword.getLsbD j := by
  have mask : ((1 : BitVec 32) <<< offset).getLsbD j = decide (j = offset) := by
    by_cases here : j = offset
    · simp [here, here ▸ inside]
    · simp [here, BitVec.getLsbD_shiftLeft]
      omega
  have bit : ((BitVec.ofBool v).setWidth 32 <<< offset).getLsbD j = (decide (j = offset) && v) := by
    by_cases here : j = offset
    · simp [here, here ▸ inside]
    · simp [here, BitVec.getLsbD_shiftLeft]
      omega
  rw [csrReplace, BitVec.getLsbD_or, BitVec.getLsbD_and, BitVec.getLsbD_not, mask, bit]
  by_cases here : j = offset <;> simp [here, inside]

def CORE_RESET_RESET_OFFSET : ℕ := 0
def CONTROL_IEN_OFFSET : ℕ := 6
def CONTROL_EN_OFFSET : ℕ := 7
def COMMAND_ACK_OFFSET : ℕ := 3
def COMMAND_WR_OFFSET : ℕ := 4
def COMMAND_RD_OFFSET : ℕ := 5
def COMMAND_STO_OFFSET : ℕ := 6
def COMMAND_STA_OFFSET : ℕ := 7
def STATUS_TIP_OFFSET : ℕ := 1
def STATUS_ARBLOST_OFFSET : ℕ := 5
def STATUS_RXACK_OFFSET : ℕ := 7

/-! ## Bytes -/

/-! The bits of `enum i2c_flags`. -/

def START : CInt := 1
def STOP : CInt := 2
def NACK : CInt := 4
def ACK : CInt := 0

/-- `!!(flags & bit)`. -/
def hasFlag (flags bit : CInt) : Bool := (flags &&& bit) != 0

/-- `i2c_init`, for the prescale value it configures. The accessor of the field `reset` reads the
register, replaces the field and writes the word back. -/
def i2cInitWith (prescale : BitVec 32) : Prog RegIface Unit := do
  let oldword ← Prog.op (S := RegIface) (.read .coreReset)
  let newword := csrReplace CORE_RESET_RESET_OFFSET oldword true
  let _ ← Prog.op (S := RegIface) (.write .coreReset newword)
  let _ ← Prog.op (S := RegIface) (.write .prescale prescale)
  let flags := csrReplace CONTROL_IEN_OFFSET 0 false
  let flags := csrReplace CONTROL_EN_OFFSET flags true
  Prog.op (S := RegIface) (.write .control flags)

/-- `i2c_init`. -/
def i2cInit : Prog RegIface Unit := i2cInitWith 23

/-- `i2c_wait_tip`: poll the status register while it shows a transfer in progress. -/
def i2cWaitTip : Prog RegIface CInt :=
  Prog.op (S := RegIface) (.readWhile .status (csrExtract STATUS_TIP_OFFSET))

/-- The command word of `i2c_tx_char`. -/
def txCommand (flags : CInt) : CInt :=
  let cmd := csrReplace COMMAND_WR_OFFSET 0 true
  let cmd := csrReplace COMMAND_STA_OFFSET cmd (hasFlag flags START)
  csrReplace COMMAND_STO_OFFSET cmd (hasFlag flags STOP)

/-- `i2c_tx_char`; the status is its result. -/
def i2cTxChar (tx flags : CInt) : Prog RegIface CInt := do
  let tx := tx &&& 0xff
  let _ ← Prog.op (S := RegIface) (.write .txr tx)
  let _ ← Prog.op (S := RegIface) (.write .command (txCommand flags))
  i2cWaitTip

/-- The command word of `i2c_rx_char`. -/
def rxCommand (flags : CInt) : CInt :=
  let cmd := csrReplace COMMAND_RD_OFFSET 0 true
  let cmd := csrReplace COMMAND_ACK_OFFSET cmd (hasFlag flags NACK)
  csrReplace COMMAND_STO_OFFSET cmd (hasFlag flags STOP)

/-- `i2c_rx_char`; the status and the received byte are its results. -/
def i2cRxChar (flags : CInt) : Prog RegIface (CInt × CInt) := do
  let _ ← Prog.op (S := RegIface) (.write .command (rxCommand flags))
  let status ← i2cWaitTip
  let rxr ← Prog.op (S := RegIface) (.read .rxr)
  return (status, rxr)

/-- The fields of a command of `i2c_tx_char`. -/
theorem txCommand_fields (flags : CInt) :
    (txCommand flags).getLsbD 7 = hasFlag flags START ∧
      (txCommand flags).getLsbD 6 = hasFlag flags STOP ∧
      (txCommand flags).getLsbD 5 = false ∧ (txCommand flags).getLsbD 4 = true := by
  refine ⟨?_, ?_, ?_, ?_⟩ <;>
    simp [txCommand, getLsbD_csrReplace, COMMAND_STO_OFFSET, COMMAND_STA_OFFSET, COMMAND_WR_OFFSET,
      -BitVec.getLsbD_eq_getElem]

/-- The fields of a command of `i2c_rx_char`. -/
theorem rxCommand_fields (flags : CInt) :
    (rxCommand flags).getLsbD 7 = false ∧ (rxCommand flags).getLsbD 6 = hasFlag flags STOP ∧
      (rxCommand flags).getLsbD 5 = true ∧ (rxCommand flags).getLsbD 4 = false := by
  refine ⟨?_, ?_, ?_, ?_⟩ <;>
    simp [rxCommand, getLsbD_csrReplace, COMMAND_STO_OFFSET, COMMAND_ACK_OFFSET, COMMAND_RD_OFFSET,
      -BitVec.getLsbD_eq_getElem]

/-! ## Transactions -/

/-- A call of `i2c_tx_char` or `i2c_rx_char`. -/
inductive ByteOp where
  | tx (tx flags : CInt)
  | rx (flags : CInt)
  deriving DecidableEq, Repr

/-- The byte interface: a transmission replies with the status, a reception with status and byte. -/
abbrev ByteIface : Signature where
  Op := ByteOp
  Reply
    | .tx _ _ => CInt
    | .rx _ => CInt × CInt

/-- The implementation of the byte interface by register accesses. -/
def byteImpl : (o : ByteOp) → Prog RegIface (ByteIface.Reply o)
  | .tx tx flags => i2cTxChar tx flags
  | .rx flags => i2cRxChar flags

def ENACK : CInt := -1
def EARB : CInt := -2
def EUNK : CInt := -16

def STATUS_ACK_ARB_MASK : CInt := (1 <<< STATUS_RXACK_OFFSET) ||| (1 <<< STATUS_ARBLOST_OFFSET)
def STATUS_ARBLOST_MASK : CInt := 1 <<< STATUS_ARBLOST_OFFSET

/-- `CHECK_ACK` goes to the error exit. -/
def checkAck (status : CInt) : Bool := (status &&& STATUS_ACK_ARB_MASK) != 0

/-- `CHECK_ARB` goes to the error exit. -/
def checkArb (status : CInt) : Bool := (status &&& STATUS_ARBLOST_MASK) != 0

/-- `status_error_code`. -/
def statusErrorCode (status : CInt) : CInt :=
  if csrExtract STATUS_RXACK_OFFSET status then ENACK
  else if csrExtract STATUS_ARBLOST_OFFSET status then EARB
  else EUNK

/-- What a transaction leaves behind: its return value, and the status stored through `err_status`,
if any is stored. -/
structure TxnResult where
  ret : CInt
  errStatus : Option CInt
  deriving DecidableEq, Repr

/-- The error exit; `errPtr` says whether the `err_status` pointer is non-null. -/
def errorExit (errPtr : Bool) (status : CInt) : TxnResult :=
  ⟨statusErrorCode status, if errPtr then some status else none⟩

/-- A call of `i2c_tx_char`. -/
def tx (b flags : CInt) : Prog ByteIface CInt := Prog.op (S := ByteIface) (.tx b flags)

/-- A call of `i2c_rx_char`. -/
def rx (flags : CInt) : Prog ByteIface (CInt × CInt) := Prog.op (S := ByteIface) (.rx flags)

/-- `x >= 0`. -/
def nonneg (x : CInt) : Bool := (0 : CInt).sle x

/-- `x < 0`. -/
def negative (x : CInt) : Bool := x.slt 0

/-- `i2c_read_txn`. -/
def i2cReadTxn (addr tx0 tx1 : CInt) (errPtr : Bool) : Prog ByteIface TxnResult := do
  -- address in write mode with START
  let status ← tx (addr <<< 1) START
  if checkAck status then return errorExit errPtr status
  -- first data byte
  let status ← tx tx0 0
  if checkAck status then return errorExit errPtr status
  -- optionally second data byte if non-negative
  if nonneg tx1 then
    let status ← tx tx1 0
    if checkAck status then return errorExit errPtr status
  -- address in read mode and RESTART
  let status ← tx ((addr <<< 1) + 1) START
  if checkAck status then return errorExit errPtr status
  -- receive with ACK
  let (status, rx0) ← rx ACK
  if checkArb status then return errorExit errPtr status
  -- receive with NACK and STOP
  let (status, rx1) ← rx (NACK ||| STOP)
  if checkArb status then return errorExit errPtr status
  return ⟨(rx0 <<< 8) + rx1, none⟩

/-- `i2c_write_txn`. -/
def i2cWriteTxn (addr tx0 tx1 d0 d1 : CInt) (errPtr : Bool) : Prog ByteIface TxnResult := do
  -- address in write mode with START
  let status ← tx (addr <<< 1) START
  if checkAck status then return errorExit errPtr status
  -- first target address byte
  let status ← tx tx0 0
  if checkAck status then return errorExit errPtr status
  -- optionally second target address byte
  if nonneg tx1 then
    let status ← tx tx1 0
    if checkAck status then return errorExit errPtr status
  -- first byte of data
  let status ← tx d0 0
  if checkAck status then return errorExit errPtr status
  -- second byte of data
  let status ← tx d1 STOP
  if checkAck status then return errorExit errPtr status
  return ⟨0, none⟩

/-- `i2c_general_call_reset`, which has no `err_status`. -/
def i2cGeneralCallReset : Prog ByteIface TxnResult := do
  let status ← tx 0x00 START
  if checkAck status then return errorExit false status
  let status ← tx 0x06 STOP
  if checkAck status then return errorExit false status
  return ⟨0, none⟩

/-- A call of one of the transaction functions. -/
inductive Txn where
  | read (addr tx0 tx1 : CInt) (errPtr : Bool)
  | write (addr tx0 tx1 d0 d1 : CInt) (errPtr : Bool)
  | generalCallReset

/-- The body of the function called. -/
def Txn.prog : Txn → Prog ByteIface TxnResult
  | .read addr tx0 tx1 errPtr => i2cReadTxn addr tx0 tx1 errPtr
  | .write addr tx0 tx1 d0 d1 errPtr => i2cWriteTxn addr tx0 tx1 d0 d1 errPtr
  | .generalCallReset => i2cGeneralCallReset

/-! ## The shape of a transaction

Every transaction transmits a list of bytes, giving up at the first one that fails, and then
finishes: a read receives two bytes, the others return `0`.
-/

/-- Transmit `bytes` with their flags, each checked by `CHECK_ACK`, then go on with `k`. -/
def txAll (errPtr : Bool) (k : Prog ByteIface TxnResult) : List (CInt × CInt) →
    Prog ByteIface TxnResult
  | [] => k
  | b :: bytes => Prog.call (S := ByteIface) (.tx b.1 b.2) fun status : CInt =>
      if checkAck status then Prog.ret (errorExit errPtr status) else txAll errPtr k bytes

/-- The two receptions that end a read. -/
def rxTail (errPtr : Bool) : Prog ByteIface TxnResult :=
  Prog.call (S := ByteIface) (.rx ACK) fun r0 : CInt × CInt =>
    if checkArb r0.1 then Prog.ret (errorExit errPtr r0.1)
    else Prog.call (S := ByteIface) (.rx (NACK ||| STOP)) fun r1 : CInt × CInt =>
      if checkArb r1.1 then Prog.ret (errorExit errPtr r1.1)
      else Prog.ret ⟨(r0.2 <<< 8) + r1.2, none⟩

/-- The optional second address byte. -/
def optByte (tx1 : CInt) : List (CInt × CInt) := if nonneg tx1 then [(tx1, 0)] else []

/-- The bytes that a transaction transmits when none fails. -/
def Txn.bytes : Txn → List (CInt × CInt)
  | .read addr tx0 tx1 _ =>
    [(addr <<< 1, START), (tx0, 0)] ++ optByte tx1 ++ [((addr <<< 1) + 1, START)]
  | .write addr tx0 tx1 d0 d1 _ =>
    [(addr <<< 1, START), (tx0, 0)] ++ optByte tx1 ++ [(d0, 0), (d1, STOP)]
  | .generalCallReset => [(0x00, START), (0x06, STOP)]

/-- Whether the call passes a non-null `err_status`. -/
def Txn.errPtr : Txn → Bool
  | .read _ _ _ errPtr => errPtr
  | .write _ _ _ _ _ errPtr => errPtr
  | .generalCallReset => false

/-- What a transaction does once all its bytes are acknowledged. -/
def Txn.finish : Txn → Prog ByteIface TxnResult
  | .read _ _ _ errPtr => rxTail errPtr
  | .write .. => Prog.ret ⟨0, none⟩
  | .generalCallReset => Prog.ret ⟨0, none⟩

theorem Txn.prog_eq (t : Txn) : t.prog = txAll t.errPtr t.finish t.bytes := by
  cases t with
  | read addr tx0 tx1 errPtr =>
    by_cases h : nonneg tx1 <;> simp only [prog, bytes, optByte, i2cReadTxn, h] <;> rfl
  | write addr tx0 tx1 d0 d1 errPtr =>
    by_cases h : nonneg tx1 <;> simp only [prog, bytes, optByte, i2cWriteTxn, h] <;> rfl
  | generalCallReset => rfl

theorem txAll_append (errPtr : Bool) (k : Prog ByteIface TxnResult)
    (first second : List (CInt × CInt)) :
    txAll errPtr k (first ++ second) = txAll errPtr (txAll errPtr k second) first := by
  induction first with
  | nil => rfl
  | cons b bytes ih => simp only [List.cons_append, txAll, ih]

section Run

variable {σ : Type} (h : (o : ByteOp) → σ → ByteIface.Reply o × σ)

/-- One checked byte: the transaction ends with it or goes on. -/
theorem run_txAll_cons (errPtr : Bool) (k : Prog ByteIface TxnResult) (b : CInt × CInt)
    (bytes : List (CInt × CInt)) (s : σ) :
    (txAll errPtr k (b :: bytes)).run h s =
      if checkAck (h (.tx b.1 b.2) s).1 then
        (errorExit errPtr (h (.tx b.1 b.2) s).1, (h (.tx b.1 b.2) s).2)
      else (txAll errPtr k bytes).run h (h (.tx b.1 b.2) s).2 := by
  rw [txAll, Prog.run_call, Prog.run_ite, Prog.run_ret]

/-- The two receptions of a read. -/
theorem run_rxTail (errPtr : Bool) (s : σ) :
    (rxTail errPtr).run h s =
      let r0 := h (.rx ACK) s
      let r1 := h (.rx (NACK ||| STOP)) r0.2
      if checkArb r0.1.1 then (errorExit errPtr r0.1.1, r0.2)
      else if checkArb r1.1.1 then (errorExit errPtr r1.1.1, r1.2)
      else (⟨(r0.1.2 <<< 8) + r1.1.2, none⟩, r1.2) := by
  rw [rxTail, Prog.run_call, Prog.run_ite, Prog.run_ret, Prog.run_call, Prog.run_ite, Prog.run_ret,
    Prog.run_ret]

end Run

/-! ## Status words -/

/-- `RxACK` of a status word: the byte was not acknowledged. -/
def rxAck (status : CInt) : Bool := csrExtract STATUS_RXACK_OFFSET status

/-- `ArbLost` of a status word. -/
def arbLost (status : CInt) : Bool := csrExtract STATUS_ARBLOST_OFFSET status

theorem checkAck_eq (status : CInt) : checkAck status = (rxAck status || arbLost status) := by
  have mask : STATUS_ACK_ARB_MASK = BitVec.twoPow 32 7 ||| BitVec.twoPow 32 5 := rfl
  rw [checkAck, mask, BitVec.and_or_distrib_left, BitVec.and_twoPow, BitVec.and_twoPow]
  change _ = (status.getLsbD 7 || status.getLsbD 5)
  cases status.getLsbD 7 <;> cases status.getLsbD 5 <;> rfl

theorem checkArb_eq (status : CInt) : checkArb status = arbLost status := by
  have mask : STATUS_ARBLOST_MASK = BitVec.twoPow 32 5 := rfl
  rw [checkArb, mask, BitVec.and_twoPow]
  change _ = status.getLsbD 5
  cases status.getLsbD 5 <;> rfl

end Driver

end Rockling
