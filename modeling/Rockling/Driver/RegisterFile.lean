import Mathlib.Logic.Function.Basic
import Mathlib.Tactic.IntervalCases
import Rockling.Driver.Devices

/-!
# The DAC and the CODEC as a register file

The drivers of `dac.c` and `codec.c` run against a reference model of the two devices: each takes
the bytes of its own framing, one at a time, and any byte may be answered with NACK. A transaction
that is given up leaves a device in the middle of a message; the next START brings it back. The DAC
also obeys the general call reset, which brings back the values that its registers have at power-on.

Seen from the callers all that is a map from registers to values with operations that may fail
(`Call.Effect`): a write takes effect and returns `0`, or one of its bytes was answered with NACK
and it returns `ENACK`; a read returns the value of the register or in the same way an error; and
nothing else changes. `runCalls_effects` says so for call sequences of any length.
-/

namespace Rockling

namespace Driver

/-! ## The devices -/

/-- The registers of both devices. -/
structure RegFile where
  dac : BitVec 5 → BitVec 16
  codec : BitVec 16 → BitVec 16

/-- Write a DAC register. -/
def RegFile.setDac (r : RegFile) (reg : BitVec 5) (v : BitVec 16) : RegFile :=
  { r with dac := Function.update r.dac reg v }

@[simp] theorem RegFile.setDac_self (r : RegFile) (reg : BitVec 5) (v : BitVec 16) :
    (r.setDac reg v).dac reg = v := by
  unfold setDac
  exact Function.update_self reg v r.dac

/-- Write a CODEC register. -/
def RegFile.setCodec (r : RegFile) (reg v : BitVec 16) : RegFile :=
  { r with codec := Function.update r.codec reg v }

/-- The registers after a reset of the DAC, which brings back the values `defaults`. -/
def RegFile.resetDac (r : RegFile) (defaults : BitVec 5 → BitVec 16) : RegFile :=
  { r with dac := defaults }

/-- What the addressed device expects next. -/
inductive Phase where
  /-- Nothing: no device is addressed, or it has had its message. -/
  | idle
  /-- Both devices expect an address. -/
  | address
  /-- The DAC expects a general call command. -/
  | generalCall
  | dacCommand
  | dacHigh (reg : BitVec 5)
  | dacLow (reg : BitVec 5) (high : BitVec 8)
  | dacRead (second : Bool)
  | codecRegHigh
  | codecRegLow (high : BitVec 8)
  | codecHigh
  | codecLow (high : BitVec 8)
  | codecRead (second : Bool)

/-- The devices on the bus. -/
structure Bus where
  regs : RegFile
  /-- The values of the DAC registers at power-on. -/
  dacDefaults : BitVec 5 → BitVec 16
  /-- The registers selected for reading. -/
  dacSel : BitVec 5
  codecSel : BitVec 16
  phase : Phase
  /-- The number of bytes transferred. -/
  count : ℕ

/-- The state after an acknowledged byte; `none` if no device acknowledges it. -/
def Bus.take (s : Bus) (byte : BitVec 8) : Option Bus :=
  match s.phase with
  | .idle => none
  | .address =>
    if byte = 0x00 then some { s with phase := .generalCall }
    else if byte = 0xc0 then some { s with phase := .dacCommand }
    else if byte = 0xc1 then some { s with phase := .dacRead false }
    else if byte = 0x14 then some { s with phase := .codecRegHigh }
    else if byte = 0x15 then some { s with phase := .codecRead false }
    else none
  | .generalCall =>
    if byte = 0x06 then some { s with regs := s.regs.resetDac s.dacDefaults, phase := .idle }
    else none
  | .dacCommand =>
    if byte.extractLsb' 1 2 = 0 then some { s with phase := .dacHigh (byte.extractLsb' 3 5) }
    else if byte.extractLsb' 1 2 = 3 then
      some { s with dacSel := byte.extractLsb' 3 5, phase := .idle }
    else none
  | .dacHigh reg => some { s with phase := .dacLow reg byte }
  | .dacLow reg high =>
    some { s with regs := s.regs.setDac reg (high ++ byte), phase := .dacCommand }
  | .dacRead _ => none
  | .codecRegHigh => some { s with phase := .codecRegLow byte }
  | .codecRegLow high => some { s with codecSel := high ++ byte, phase := .codecHigh }
  | .codecHigh => some { s with phase := .codecLow byte }
  | .codecLow high =>
    some { s with regs := s.regs.setCodec s.codecSel (high ++ byte), phase := .idle }
  | .codecRead _ => none

/-- The byte that the addressed device sends, and the phase after it. -/
def Bus.send (s : Bus) : BitVec 8 × Phase :=
  match s.phase with
  | .dacRead false => ((s.regs.dac s.dacSel).extractLsb' 8 8, .dacRead true)
  | .dacRead true => ((s.regs.dac s.dacSel).extractLsb' 0 8, .dacRead false)
  | .codecRead false => ((s.regs.codec s.codecSel).extractLsb' 8 8, .codecRead true)
  | .codecRead true => ((s.regs.codec s.codecSel).extractLsb' 0 8, .codecRead false)
  | phase => (0xff, phase)

/-- A START discards what the devices have of a message. -/
def Bus.start (s : Bus) (flags : CInt) : Bus :=
  if hasFlag flags START then { s with phase := .address } else s

/-- A STOP ends the message. -/
def Bus.stop (s : Bus) (flags : CInt) : Bus :=
  if hasFlag flags STOP then { s with phase := .idle } else s

/-- What the wire adds to a byte: a NACK for a reason of its own, and the other status bits. -/
structure Wire where
  nack : Bool
  noise : CInt

/-- The status with the arbitration kept. -/
def Wire.status (w : Wire) (nack : Bool) : CInt :=
  (w.noise &&& ~~~STATUS_ACK_ARB_MASK) ||| (if nack then 1 <<< STATUS_RXACK_OFFSET else 0)

/-- What comes of a transmitted byte: the state after it if a device takes it. -/
def Bus.taken (s : Bus) (w : Wire) (b flags : CInt) : Option Bus :=
  if w.nack then none else (s.start flags).take (b.setWidth 8)

/-- The byte interface on top of the devices. -/
def Bus.reply (wire : ℕ → Wire) : (o : ByteOp) → Bus → ByteIface.Reply o × Bus
  | .tx b flags, s =>
    match s.taken (wire s.count) b flags with
    | some t => ((wire s.count).status false, { t with count := s.count + 1 }.stop flags)
    | none =>
      ((wire s.count).status true, { s.start flags with count := s.count + 1 }.stop flags)
  | .rx flags, s =>
    (((wire s.count).status (wire s.count).nack, s.send.1.setWidth 32),
      { s with phase := s.send.2, count := s.count + 1 }.stop flags)

/-! ## The calls -/

/-- A call of a device driver. -/
inductive Call where
  | dacRead (reg : CInt)
  | dacWrite (reg data : CInt)
  | dacSetVal (v0 v1 : CInt)
  | codecRead (tx : CInt)
  | codecWrite (tx data : CInt)

/-- The driver function called. -/
def Call.prog : Call → Prog TxnIface CInt
  | .dacRead reg => dacReadTxn reg
  | .dacWrite reg data => dacWriteTxn reg data
  | .dacSetVal v0 v1 => Driver.dacSetVal v0 v1
  | .codecRead tx => codecReadTxn tx
  | .codecWrite tx data => codecWriteTxn tx data

/-- Call after call; the return values and the state after each. -/
def runCalls (wire : ℕ → Wire) : List Call → Bus → List (CInt × Bus)
  | [], _ => []
  | c :: cs, s =>
    let r := (c.prog.translate txnImpl).run (Bus.reply wire) s
    r :: runCalls wire cs r.2

/-! ## The register file -/

/-- The bytes from number `n` on up to number `m` are acknowledged. -/
structure Accepted (nack : ℕ → Bool) (n m : ℕ) : Prop where
  le : n ≤ m
  acked : ∀ i, n ≤ i → i < m → nack i = false

/-- The bytes from number `n` on are acknowledged up to the last one before number `m`, which is
answered with NACK. -/
def Refused (nack : ℕ → Bool) (n m : ℕ) : Prop :=
  ∃ k, m = k + 1 ∧ Accepted nack n k ∧ nack k = true

/-- A write that may fail: it takes effect and returns `0`, or one of its bytes is refused and it
returns `ENACK`. -/
def WriteEffect (nack : ℕ → Bool) (s : Bus) (written : RegFile) (ret : CInt) (t : Bus) : Prop :=
  (ret = 0 ∧ t.regs = written ∧ Accepted nack s.count t.count) ∨
    (ret = ENACK ∧ t.regs = s.regs ∧ Refused nack s.count t.count)

/-- A read that may fail: it returns the value as a non-negative `int`, or one of the bytes that it
transmits is refused and it returns `ENACK`. The last two bytes of a read are received. -/
def ReadEffect (nack : ℕ → Bool) (s : Bus) (value : BitVec 16) (ret : CInt) (t : Bus) : Prop :=
  t.regs = s.regs ∧
    ((ret = value.setWidth 32 ∧ ∃ m, t.count = m + 2 ∧ Accepted nack s.count m) ∨
      (ret = ENACK ∧ Refused nack s.count t.count))

/-- One channel of `dac_set_val`. -/
def ChannelEffect (nack : ℕ → Bool) (reg : BitVec 5) (v : CInt) (s : Bus) (ret : CInt) (t : Bus) :
    Prop :=
  if nonneg v then WriteEffect nack s (s.regs.setDac reg (v.setWidth 16)) ret t
  else ret = 0 ∧ t = s

/-- What a call means for the registers. A DAC register number has five bits, `dac_set_val` is two
writes, the second of which is left out after an error. -/
def Call.Effect (nack : ℕ → Bool) (s : Bus) : Call → CInt → Bus → Prop
  | .dacRead reg => ReadEffect nack s (s.regs.dac (reg.setWidth 5))
  | .dacWrite reg data =>
    WriteEffect nack s (s.regs.setDac (reg.setWidth 5) (data.setWidth 16))
  | .dacSetVal v0 v1 => fun ret t =>
    (ret = ENACK ∧ ChannelEffect nack 0 v0 s ENACK t) ∨
      ∃ between, ChannelEffect nack 0 v0 s 0 between ∧ ChannelEffect nack 1 v1 between ret t
  | .codecRead tx => ReadEffect nack s (s.regs.codec (tx.setWidth 16))
  | .codecWrite tx data =>
    WriteEffect nack s (s.regs.setCodec (tx.setWidth 16) (data.setWidth 16))

/-- Every call of a sequence means what it should, each on the registers that the one before left.
-/
def Effects (nack : ℕ → Bool) : Bus → List Call → List (CInt × Bus) → Prop
  | _, [], [] => True
  | s, c :: cs, (ret, t) :: rest => c.Effect nack s ret t ∧ Effects nack t cs rest
  | _, _, _ => False

/-! ## The bytes of a message -/

section Bytes

theorem HI_append_LO (x : CInt) : (HI x).setWidth 8 ++ (LO x).setWidth 8 = x.setWidth 16 := by
  apply BitVec.eq_of_getLsbD_eq
  intro i hi
  simp only [BitVec.getLsbD_append, BitVec.getLsbD_setWidth, HI, LO]
  interval_cases i <;> simp

/-- The second address byte of the CODEC is never left out. -/
theorem nonneg_LO (x : CInt) : nonneg (LO x) = true := by
  have sign : (LO x).msb = false := by
    rw [LO, BitVec.msb_and]
    exact Bool.and_false _
  rw [nonneg, BitVec.sle_iff_toInt_le, BitVec.toInt_eq_toNat_of_msb sign]
  exact Int.natCast_nonneg _

theorem dacReadCommand_mode (reg : CInt) :
    (((reg <<< 3) ||| 0x06).setWidth 8).extractLsb' 1 2 = 3#2 := by
  apply BitVec.eq_of_getLsbD_eq
  intro i hi
  interval_cases i <;> simp

theorem dacReadCommand_reg (reg : CInt) :
    (((reg <<< 3) ||| 0x06).setWidth 8).extractLsb' 3 5 = reg.setWidth 5 := by
  apply BitVec.eq_of_getLsbD_eq
  intro i hi
  interval_cases i <;> simp

theorem dacWriteCommand_mode (reg : CInt) : ((reg <<< 3).setWidth 8).extractLsb' 1 2 = 0#2 := by
  apply BitVec.eq_of_getLsbD_eq
  intro i hi
  interval_cases i <;> simp

theorem dacWriteCommand_reg (reg : CInt) :
    ((reg <<< 3).setWidth 8).extractLsb' 3 5 = reg.setWidth 5 := by
  apply BitVec.eq_of_getLsbD_eq
  intro i hi
  interval_cases i <;> simp

/-- The driver puts the received bytes together. -/
theorem bytes_joined (v : BitVec 16) :
    ((v.extractLsb' 8 8).setWidth 32 <<< 8) + (v.extractLsb' 0 8).setWidth 32 = v.setWidth 32 := by
  apply BitVec.eq_of_toNat_eq
  have bound := v.isLt
  simp only [BitVec.toNat_add, BitVec.toNat_shiftLeft, BitVec.toNat_setWidth,
    BitVec.extractLsb'_toNat, Nat.shiftLeft_eq, Nat.shiftRight_eq_div_pow]
  omega

theorem checkAck_status (w : Wire) (nack : Bool) : checkAck (w.status nack) = nack := by
  rw [checkAck_eq]
  cases nack <;> simp [Wire.status, rxAck, arbLost, csrExtract, STATUS_RXACK_OFFSET,
    STATUS_ARBLOST_OFFSET, STATUS_ACK_ARB_MASK]

theorem checkArb_status (w : Wire) (nack : Bool) : checkArb (w.status nack) = false := by
  rw [checkArb_eq]
  cases nack <;> simp [Wire.status, arbLost, csrExtract, STATUS_RXACK_OFFSET,
    STATUS_ARBLOST_OFFSET, STATUS_ACK_ARB_MASK]

theorem errorExit_nack (errPtr : Bool) (w : Wire) :
    (errorExit errPtr (w.status true)).ret = ENACK := by
  have rxack : csrExtract STATUS_RXACK_OFFSET (w.status true) = true := by
    simp [Wire.status, csrExtract, STATUS_RXACK_OFFSET]
  simp [errorExit, statusErrorCode, rxack]

end Bytes

/-! ## Refusals -/

section Refusals

variable {nack : ℕ → Bool} {n m : ℕ}

theorem Accepted.nil (n : ℕ) : Accepted nack n n := ⟨le_rfl, fun i low high => by omega⟩

/-- One more byte. -/
theorem Accepted.succ (h : Accepted nack n m) (ack : nack m = false) : Accepted nack n (m + 1) := by
  refine ⟨Nat.le_succ_of_le h.le, fun i low high => ?_⟩
  rcases Nat.eq_or_lt_of_le (Nat.le_of_lt_succ high) with rfl | before
  · exact ack
  · exact h.acked i low before

/-- Where nothing is answered with NACK, nothing is refused. -/
theorem Refused.not_quiet (h : Refused nack n m) (quiet : ∀ n, nack n = false) : False := by
  obtain ⟨k, -, -, refused⟩ := h
  rw [quiet k] at refused
  cases refused

variable {s t : Bus} {written : RegFile} {value : BitVec 16} {ret : CInt}

/-- A write that has not failed has taken effect. -/
theorem WriteEffect.done (h : WriteEffect nack s written ret t) (ok : negative ret = false) :
    t.regs = written := by
  rcases h with ⟨-, done, -⟩ | ⟨rfl, -⟩
  · exact done
  · exact absurd ok (by decide)

theorem WriteEffect.acked (h : WriteEffect nack s written ret t) (quiet : ∀ n, nack n = false) :
    ret = 0 := by
  rcases h with ⟨done, -⟩ | ⟨-, -, refused⟩
  · exact done
  · exact (refused.not_quiet quiet).elim

theorem ReadEffect.acked (h : ReadEffect nack s value ret t) (quiet : ∀ n, nack n = false) :
    ret = value.setWidth 32 := by
  rcases h.2 with ⟨done, -⟩ | ⟨-, refused⟩
  · exact done
  · exact (refused.not_quiet quiet).elim

end Refusals

/-! ## One transaction -/

@[simp] theorem start_regs (s : Bus) (flags : CInt) : (s.start flags).regs = s.regs := by
  unfold Bus.start
  split <;> rfl

@[simp] theorem stop_regs (s : Bus) (flags : CInt) : (s.stop flags).regs = s.regs := by
  unfold Bus.stop
  split <;> rfl

@[simp] theorem start_count (s : Bus) (flags : CInt) : (s.start flags).count = s.count := by
  unfold Bus.start
  split <;> rfl

@[simp] theorem stop_count (s : Bus) (flags : CInt) : (s.stop flags).count = s.count := by
  unfold Bus.stop
  split <;> rfl

section Transaction

variable (wire : ℕ → Wire)

/-- The pattern of NACKs. -/
def nacks (n : ℕ) : Bool := (wire n).nack

/-- The return value of a transaction and the devices after it satisfy `Q`. -/
def Ends (Q : CInt → Bus → Prop) (p : Prog ByteIface TxnResult) (s : Bus) : Prop :=
  Q (p.run (Bus.reply wire) s).1.ret (p.run (Bus.reply wire) s).2

variable {wire} {Q : CInt → Bus → Prop}

theorem Ends.ret {r : TxnResult} {s : Bus} (holds : Q r.ret s) : Ends wire Q (Prog.ret r) s := holds

/-- One transmitted byte that the devices can take, as `t`, after `n` others have been accepted: it
is refused, and the transaction ends, or the transaction goes on from `t`. -/
theorem Ends.tx {errPtr : Bool} {k : Prog ByteIface TxnResult} {b flags : CInt}
    {bytes : List (CInt × CInt)} {n : ℕ} {regs : RegFile} {s t : Bus}
    (refused : ∀ u : Bus, u.regs = regs → Refused (nacks wire) n u.count → Q ENACK u)
    (same : s.regs = regs) (accepted : Accepted (nacks wire) n s.count)
    (takes : (s.start flags).take (b.setWidth 8) = some t)
    (taken : Accepted (nacks wire) n (s.count + 1) →
      Ends wire Q (txAll errPtr k bytes) ({ t with count := s.count + 1 }.stop flags)) :
    Ends wire Q (txAll errPtr k ((b, flags) :: bytes)) s := by
  unfold Ends
  rw [run_txAll_cons]
  cases nack : nacks wire s.count with
  | true =>
    have took : s.taken (wire s.count) b flags = none := if_pos nack
    simp only [Bus.reply, took, checkAck_status, if_true, errorExit_nack]
    refine refused _ (by rw [stop_regs, ← same, ← start_regs s flags]) ?_
    exact ⟨s.count, stop_count _ flags, accepted, nack⟩
  | false =>
    have took : s.taken (wire s.count) b flags = some t := by
      have quiet : (wire s.count).nack = false := nack
      rw [Bus.taken, quiet, takes]
      rfl
    simp only [Bus.reply, took, checkAck_status, Bool.false_eq_true, if_false]
    exact taken (accepted.succ nack)

/-- The end of a read from a DAC register. -/
theorem Ends.rxDac {errPtr : Bool} {s : Bus} (reading : s.phase = .dacRead false)
    (holds : ∀ t : Bus, t.regs = s.regs → t.count = s.count + 2 →
      Q ((s.regs.dac s.dacSel).setWidth 32) t) :
    Ends wire Q (rxTail errPtr) s := by
  unfold Ends
  rw [run_rxTail]
  simp only [Bus.reply, checkArb_status, Bus.send, reading, Bus.stop, hasFlag, ACK, STOP, NACK]
  simp [bytes_joined, holds]

/-- The end of a read from a CODEC register. -/
theorem Ends.rxCodec {errPtr : Bool} {s : Bus} (reading : s.phase = .codecRead false)
    (holds : ∀ t : Bus, t.regs = s.regs → t.count = s.count + 2 →
      Q ((s.regs.codec s.codecSel).setWidth 32) t) :
    Ends wire Q (rxTail errPtr) s := by
  unfold Ends
  rw [run_rxTail]
  simp only [Bus.reply, checkArb_status, Bus.send, reading, Bus.stop, hasFlag, ACK, STOP, NACK]
  simp [bytes_joined, holds]

theorem take_dacRead {s : Bus} (command : s.phase = .dacCommand) (reg : CInt) :
    s.take (((reg <<< 3) ||| 0x06).setWidth 8) =
      some { s with dacSel := reg.setWidth 5, phase := .idle } := by
  simp only [Bus.take, command, dacReadCommand_mode, dacReadCommand_reg]
  rfl

theorem take_dacWrite {s : Bus} (command : s.phase = .dacCommand) (reg : CInt) :
    s.take ((reg <<< 3).setWidth 8) = some { s with phase := .dacHigh (reg.setWidth 5) } := by
  simp only [Bus.take, command, dacWriteCommand_mode, dacWriteCommand_reg]
  rfl

/-- A refused byte ends a write. -/
theorem write_refused {s : Bus} {written : RegFile} (u : Bus) (same : u.regs = s.regs)
    (refused : Refused (nacks wire) s.count u.count) :
    WriteEffect (nacks wire) s written ENACK u := Or.inr ⟨rfl, same, refused⟩

/-- A refused byte ends a read. -/
theorem read_refused {s : Bus} {value : BitVec 16} (u : Bus) (same : u.regs = s.regs)
    (refused : Refused (nacks wire) s.count u.count) :
    ReadEffect (nacks wire) s value ENACK u := ⟨same, Or.inr ⟨rfl, refused⟩⟩

/-- A read to its end. -/
theorem read_done {s : Bus} {value : BitVec 16} {n : ℕ} (accepted : Accepted (nacks wire) s.count n)
    (t : Bus) (same : t.regs = s.regs) (count : t.count = n + 2) :
    ReadEffect (nacks wire) s value (value.setWidth 32) t :=
  ⟨same, Or.inl ⟨rfl, n, count, accepted⟩⟩

theorem dacRead_ends (reg : CInt) (errPtr : Bool) (s : Bus) :
    Ends wire (ReadEffect (nacks wire) s (s.regs.dac (reg.setWidth 5)))
      (Txn.read DAC_I2C_ADDR ((reg <<< 3) ||| 0x06) (-1) errPtr).prog s := by
  rw [Txn.prog_eq]
  refine Ends.tx read_refused rfl (.nil _) (t := { s with phase := .dacCommand }) rfl fun a => ?_
  refine Ends.tx read_refused rfl a (take_dacRead rfl reg) fun a => ?_
  refine Ends.tx read_refused rfl a
    (t := { s with dacSel := reg.setWidth 5, phase := .dacRead false, count := s.count + 2 })
    rfl fun a => ?_
  exact Ends.rxDac rfl (read_done a)

theorem dacWrite_ends (reg data : CInt) (errPtr : Bool) (s : Bus) :
    Ends wire (WriteEffect (nacks wire) s (s.regs.setDac (reg.setWidth 5) (data.setWidth 16)))
      (Txn.write DAC_I2C_ADDR (reg <<< 3) (-1) (HI data) (LO data) errPtr).prog s := by
  rw [← HI_append_LO data, Txn.prog_eq]
  refine Ends.tx write_refused rfl (.nil _) (t := { s with phase := .dacCommand }) rfl fun a => ?_
  refine Ends.tx write_refused rfl a (take_dacWrite rfl reg) fun a => ?_
  refine Ends.tx write_refused rfl a rfl fun a => ?_
  refine Ends.tx write_refused rfl a rfl fun a => ?_
  exact Ends.ret (Or.inl ⟨rfl, rfl, a⟩)

theorem codecRead_ends (tx : CInt) (errPtr : Bool) (s : Bus) :
    Ends wire (ReadEffect (nacks wire) s (s.regs.codec (tx.setWidth 16)))
      (Txn.read CODEC_I2C_ADDR (HI tx) (LO tx) errPtr).prog s := by
  rw [← HI_append_LO tx, Txn.prog_eq, Txn.bytes, optByte, if_pos (nonneg_LO tx)]
  refine Ends.tx read_refused rfl (.nil _) (t := { s with phase := .codecRegHigh }) rfl
    fun a => ?_
  refine Ends.tx read_refused rfl a rfl fun a => ?_
  refine Ends.tx read_refused rfl a rfl fun a => ?_
  refine Ends.tx read_refused rfl a (t := { s with
    codecSel := (HI tx).setWidth 8 ++ (LO tx).setWidth 8, phase := .codecRead false,
    count := s.count + 3 }) rfl fun a => ?_
  exact Ends.rxCodec rfl (read_done a)

theorem codecWrite_ends (tx data : CInt) (errPtr : Bool) (s : Bus) :
    Ends wire (WriteEffect (nacks wire) s (s.regs.setCodec (tx.setWidth 16) (data.setWidth 16)))
      (Txn.write CODEC_I2C_ADDR (HI tx) (LO tx) (HI data) (LO data) errPtr).prog s := by
  rw [← HI_append_LO tx, ← HI_append_LO data, Txn.prog_eq, Txn.bytes, optByte,
    if_pos (nonneg_LO tx)]
  refine Ends.tx write_refused rfl (.nil _) (t := { s with phase := .codecRegHigh }) rfl
    fun a => ?_
  refine Ends.tx write_refused rfl a rfl fun a => ?_
  refine Ends.tx write_refused rfl a rfl fun a => ?_
  refine Ends.tx write_refused rfl a rfl fun a => ?_
  refine Ends.tx write_refused rfl a rfl fun a => ?_
  exact Ends.ret (Or.inl ⟨rfl, rfl, a⟩)

end Transaction

/-! ## Calls -/

section Calls

variable (wire : ℕ → Wire)

/-- The transactions on top of the devices. -/
def Bus.transact (t : Txn) (s : Bus) : TxnResult × Bus := t.prog.run (Bus.reply wire) s

theorem run_call (p : Prog TxnIface CInt) (s : Bus) :
    (p.translate txnImpl).run (Bus.reply wire) s = p.run (Bus.transact wire) s :=
  Prog.run_translate _ _ _ _

/-- One channel of `dac_set_val` is a write that may fail. -/
theorem dacWriteTxn_effect (reg data : CInt) (s : Bus) :
    WriteEffect (nacks wire) s (s.regs.setDac (reg.setWidth 5) (data.setWidth 16))
      ((dacWriteTxn reg data).run (Bus.transact wire) s).1
      ((dacWriteTxn reg data).run (Bus.transact wire) s).2 :=
  dacWrite_ends reg data false s

/-- The second channel, after the first has been dealt with. -/
theorem secondChannel_effect (v1 : CInt) (s : Bus) :
    let r := (if nonneg v1 then do
        let ret ← dacWriteTxn 0x01 v1
        if negative ret then return ret
        return 0
      else return 0 : Prog TxnIface CInt).run (Bus.transact wire) s
    ChannelEffect (nacks wire) 1 v1 s r.1 r.2 := by
  have write := dacWriteTxn_effect wire 0x01 v1 s
  by_cases given : nonneg v1
  · simp only [given, if_true, Prog.run_bind, Prog.run_ite, Prog.pure_eq, Prog.run_ret,
      ChannelEffect]
    rcases write with ⟨ret, after⟩ | ⟨ret, after⟩
    · rw [ret, if_neg (by decide)]
      exact Or.inl ⟨rfl, after⟩
    · rw [ret, if_pos (show negative ENACK = true from rfl)]
      exact Or.inr ⟨rfl, after⟩
  · simp [given, ChannelEffect]

/-- `dac_set_val`, channel by channel. -/
theorem dacSetVal_effect (v0 v1 : CInt) (s : Bus) :
    (Call.dacSetVal v0 v1).Effect (nacks wire) s ((dacSetVal v0 v1).run (Bus.transact wire) s).1
      ((dacSetVal v0 v1).run (Bus.transact wire) s).2 := by
  have write := dacWriteTxn_effect wire 0x00 v0 s
  by_cases given : nonneg v0
  · rw [dacSetVal, if_pos given, Prog.run_bind, Prog.run_ite]
    rcases write with ⟨ret, after⟩ | ⟨ret, after⟩
    · rw [ret, if_neg (by decide)]
      refine Or.inr ⟨_, ?_, secondChannel_effect wire v1 _⟩
      rw [ChannelEffect, if_pos given]
      exact Or.inl ⟨rfl, after⟩
    · rw [ret, if_pos (show negative ENACK = true from rfl)]
      refine Or.inl ⟨rfl, ?_⟩
      rw [ChannelEffect, if_pos given]
      exact Or.inr ⟨rfl, after⟩
  · rw [dacSetVal, if_neg given]
    refine Or.inr ⟨s, ?_, secondChannel_effect wire v1 s⟩
    rw [ChannelEffect, if_neg given]
    exact ⟨rfl, rfl⟩

/-- **One call**, from any state of the devices. -/
theorem call_effect (c : Call) (s : Bus) :
    c.Effect (nacks wire) s ((c.prog.translate txnImpl).run (Bus.reply wire) s).1
      ((c.prog.translate txnImpl).run (Bus.reply wire) s).2 := by
  rw [run_call]
  cases c with
  | dacRead reg => exact dacRead_ends reg false s
  | dacWrite reg data => exact dacWrite_ends reg data false s
  | dacSetVal v0 v1 => exact dacSetVal_effect wire v0 v1 s
  | codecRead tx => exact codecRead_ends tx false s
  | codecWrite tx data => exact codecWrite_ends tx data false s

end Calls

/-- **The driver implements a register file.** For every sequence of calls, every pattern of NACKs
and every state in which the devices are found: each write takes effect and returns `0` if all of
its bytes are acknowledged, and otherwise returns `ENACK`; each read returns the value of its
register if all bytes that it transmits are acknowledged, and otherwise `ENACK`; and the registers
change in no other way. -/
theorem runCalls_effects (wire : ℕ → Wire) (calls : List Call) (s : Bus) :
    Effects (nacks wire) s calls (runCalls wire calls s) := by
  induction calls generalizing s with
  | nil => trivial
  | cons c cs ih => exact ⟨call_effect wire c s, ih _⟩

end Driver

end Rockling
