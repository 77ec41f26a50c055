import Rockling.Driver.I2c

/-!
# Does a transaction release the bus?

Who drives the bus when a transaction returns is decided by its last command and the reply to it: a
command with STO ends in a STOP condition, a lost arbitration makes the core release both lines, and
after any other byte the byte controller waits for the next command with SCL held low.

The replies of the core are arbitrary. A transaction returns with the bus released except when a
byte before its last one is answered with NACK: the error exits of `i2c.c` return at once and write
no command with STO (`released_iff`).
-/

namespace Rockling

namespace Driver

/-- The reply of the core to a command: the status of the last poll, and RXR. -/
structure Response where
  status : CInt
  rxr : CInt

/-- The core as the commands and replies show it. -/
structure CoreSide where
  /-- The number of commands written. -/
  issued : ℕ
  /-- The core drives the bus. -/
  driving : Bool

/-- After command `cmd`, answered with `r`. -/
def CoreSide.after (s : CoreSide) (cmd : CInt) (r : Response) : CoreSide where
  issued := s.issued + 1
  driving := !arbLost r.status && !csrExtract COMMAND_STO_OFFSET cmd

/-- The byte interface, the commands being answered in turn with `resp 0`, `resp 1` and so on. -/
def CoreSide.reply (resp : ℕ → Response) :
    (o : ByteOp) → CoreSide → ByteIface.Reply o × CoreSide
  | .tx _ flags, s => ((resp s.issued).status, s.after (txCommand flags) (resp s.issued))
  | .rx flags, s =>
    (((resp s.issued).status, (resp s.issued).rxr), s.after (rxCommand flags) (resp s.issued))

/-- The answer to a byte is NACK, with the arbitration kept. -/
def Response.Nack (r : Response) : Prop := rxAck r.status = true ∧ arbLost r.status = false

/-- The byte is acknowledged, with the arbitration kept. -/
def Response.Ack (r : Response) : Prop := rxAck r.status = false ∧ arbLost r.status = false

/-- Among the answers `i`, …, `i + m - 1` the first one that is no acknowledgement is a NACK. -/
def FirstFailureNack (resp : ℕ → Response) (i m : ℕ) : Prop :=
  ∃ j < m, (∀ k < j, (resp (i + k)).Ack) ∧ (resp (i + j)).Nack

theorem not_firstFailureNack_zero (resp : ℕ → Response) (i : ℕ) :
    ¬ FirstFailureNack resp i 0 := by
  rintro ⟨j, hj, -⟩
  omega

theorem firstFailureNack_succ (resp : ℕ → Response) (i m : ℕ) :
    FirstFailureNack resp i (m + 1) ↔
      (resp i).Nack ∨ (resp i).Ack ∧ FirstFailureNack resp (i + 1) m := by
  constructor
  · rintro ⟨j, hj, acks, nack⟩
    cases j with
    | zero => exact Or.inl nack
    | succ j =>
      refine Or.inr ⟨acks 0 (by omega), j, by omega, fun k hk => ?_, ?_⟩
      · have ack := acks (k + 1) (by omega)
        rwa [show i + (k + 1) = i + 1 + k by omega] at ack
      · rwa [show i + (j + 1) = i + 1 + j by omega] at nack
  · rintro (nack | ⟨ack, j, hj, acks, nack⟩)
    · exact ⟨0, by omega, fun k hk => by omega, nack⟩
    · refine ⟨j + 1, by omega, fun k hk => ?_, ?_⟩
      · cases k with
        | zero => exact ack
        | succ k =>
          rw [show i + (k + 1) = i + 1 + k by omega]
          exact acks k (by omega)
      · rwa [show i + (j + 1) = i + 1 + j by omega]

section Run

variable (resp : ℕ → Response)

/-- Bytes without STO, followed by something that releases the bus whatever it is answered: the bus
stays driven exactly when the first failure is a NACK. -/
theorem txAll_driving (errPtr : Bool) (k : Prog ByteIface TxnResult) (bytes : List (CInt × CInt))
    (noStop : ∀ b ∈ bytes, csrExtract COMMAND_STO_OFFSET (txCommand b.2) = false)
    (released : ∀ s, (k.run (CoreSide.reply resp) s).2.driving = false) (s : CoreSide) :
    ((txAll errPtr k bytes).run (CoreSide.reply resp) s).2.driving = true ↔
      FirstFailureNack resp s.issued bytes.length := by
  induction bytes generalizing s with
  | nil =>
    rw [txAll, released]
    simp [not_firstFailureNack_zero]
  | cons b bytes ih =>
    have sto := noStop b List.mem_cons_self
    have tail := ih (fun c hc => noStop c (List.mem_cons_of_mem b hc))
      (s.after (txCommand b.2) (resp s.issued))
    rw [run_txAll_cons, checkAck_eq, List.length_cons, firstFailureNack_succ]
    simp only [CoreSide.reply]
    by_cases lost : arbLost (resp s.issued).status
    · simp [CoreSide.after, Response.Nack, Response.Ack, lost]
    · by_cases nack : rxAck (resp s.issued).status
      · simp [CoreSide.after, Response.Nack, lost, nack, sto]
      · simp only [Response.Nack, Response.Ack, lost, nack, Bool.or_self, Bool.false_eq_true,
          if_false, false_and, true_and, false_or]
        exact tail

/-- A command with STO releases the bus. -/
theorem after_released (s : CoreSide) {cmd : CInt} (sto : csrExtract COMMAND_STO_OFFSET cmd = true)
    (r : Response) : (s.after cmd r).driving = false := by
  simp [CoreSide.after, sto]

/-- The two receptions of a read release the bus: the second carries STO, and it is left out only
when the first lost the arbitration. -/
theorem rxTail_released (errPtr : Bool) (s : CoreSide) :
    ((rxTail errPtr).run (CoreSide.reply resp) s).2.driving = false := by
  have stop : csrExtract COMMAND_STO_OFFSET (rxCommand (NACK ||| STOP)) = true := rfl
  rw [run_rxTail]
  dsimp only
  split_ifs with lost
  · have noArb : arbLost (resp s.issued).status = true := (checkArb_eq _).symm.trans lost
    simp [CoreSide.reply, CoreSide.after, noArb]
  · exact after_released _ stop _
  · exact after_released _ stop _

/-- The last byte of a write releases the bus. -/
theorem lastByte_released (errPtr : Bool) (b : CInt) (s : CoreSide) :
    ((txAll errPtr (Prog.ret ⟨0, none⟩) [(b, STOP)]).run (CoreSide.reply resp) s).2.driving =
      false := by
  have stop : csrExtract COMMAND_STO_OFFSET (txCommand STOP) = true := rfl
  rw [run_txAll_cons]
  split <;> exact after_released _ stop _

end Run

/-- The number of bytes a transaction transmits before the command that carries STO: the two address
bytes or more of a read, all but the last byte of a write. -/
def Txn.bytesBeforeStop : Txn → ℕ
  | .read _ _ tx1 _ => if nonneg tx1 then 4 else 3
  | .write _ _ tx1 _ _ _ => if nonneg tx1 then 4 else 3
  | .generalCallReset => 1

/-- **When a transaction releases the bus.** For every transaction, all its arguments and all
answers of the core: on return the core drives the bus exactly when, among the bytes before the
command with STO, the first one to fail was answered with NACK. -/
theorem released_iff (t : Txn) (resp : ℕ → Response) (driving : Bool) :
    (t.prog.run (CoreSide.reply resp) (⟨0, driving⟩ : CoreSide)).2.driving = false ↔
      ¬ FirstFailureNack resp 0 t.bytesBeforeStop := by
  rw [← Bool.not_eq_true, not_iff_not, Txn.prog_eq]
  have start : csrExtract COMMAND_STO_OFFSET (txCommand START) = false := rfl
  have plain : csrExtract COMMAND_STO_OFFSET (txCommand 0#32) = false := rfl
  cases t with
  | read addr tx0 tx1 errPtr =>
    have body := txAll_driving resp errPtr (rxTail errPtr)
      (Txn.read addr tx0 tx1 errPtr).bytes
      (by by_cases h : nonneg tx1 <;> simp [Txn.bytes, optByte, h, start, plain])
      (rxTail_released resp errPtr) (⟨0, driving⟩ : CoreSide)
    have count : (Txn.read addr tx0 tx1 errPtr).bytes.length =
        (Txn.read addr tx0 tx1 errPtr).bytesBeforeStop := by
      by_cases h : nonneg tx1 <;> simp [Txn.bytes, optByte, Txn.bytesBeforeStop, h]
    rw [← count]
    exact body
  | write addr tx0 tx1 d0 d1 errPtr =>
    have body := txAll_driving resp errPtr (txAll errPtr (Prog.ret ⟨0, none⟩) [(d1, STOP)])
      ([(addr <<< 1, START), (tx0, 0)] ++ optByte tx1 ++ [(d0, 0)])
      (by by_cases h : nonneg tx1 <;> simp [optByte, h, start, plain])
      (lastByte_released resp errPtr d1) (⟨0, driving⟩ : CoreSide)
    have count : ([(addr <<< 1, START), (tx0, 0)] ++ optByte tx1 ++ [(d0, 0)]).length =
        (Txn.write addr tx0 tx1 d0 d1 errPtr).bytesBeforeStop := by
      by_cases h : nonneg tx1 <;> simp [optByte, Txn.bytesBeforeStop, h]
    rw [← txAll_append, count] at body
    rw [Txn.bytes, Txn.finish, Txn.errPtr,
      show [(d0, (0 : CInt)), (d1, STOP)] = [(d0, 0)] ++ [(d1, STOP)] from rfl,
      ← List.append_assoc]
    exact body
  | generalCallReset =>
    have body := txAll_driving resp false (txAll false (Prog.ret ⟨0, none⟩) [(0x06, STOP)])
      [(0x00, START)] (by simp [start]) (lastByte_released resp false 0x06)
      (⟨0, driving⟩ : CoreSide)
    rw [← txAll_append] at body
    exact body

/-- An address byte that no device acknowledges leaves the bus driven: `i2c_read_txn` returns
`ENACK` after its first command, START without STOP. -/
theorem unanswered_address_holds_bus :
    ¬ ∀ (t : Txn) (resp : ℕ → Response) (driving : Bool),
      (t.prog.run (CoreSide.reply resp) (⟨0, driving⟩ : CoreSide)).2.driving = false := by
  intro released
  have held := released (.read 0x60 0xd6 (-1) true) (fun _ => ⟨0x80, 0⟩) false
  revert held
  decide

end Driver

end Rockling
