import Rockling.Driver.SelfTest
import Rockling.Driver.OnTheWires

/-!
# The self test on the board

`main` in front of the core, with the DAC and the CODEC on the wires: what its LED says about the
two devices (`led_on_the_board`).

`firmware` is `main` with the transactions implemented by the driver and everything else done on the
side (`perform`). It runs as `main` does on the LED and the devices together (`onBoard`).
-/

namespace Rockling

open TwoWire (Target)

namespace Driver

open RTLI2C

/-! ## `main` in front of the driver -/

/-- What `main` does apart from transactions. -/
def aside (cycles : ℕ → Fin 2 → CInt) : Outside := ⟨fun _ => ⟨0, none⟩, cycles⟩

/-- A step of `main`, where the transactions are left to the driver. -/
def perform (cycles : ℕ → Fin 2 → CInt) :
    (o : MainOp) → Watch → Prog TxnIface (MainIface.Reply o × Watch)
  | .txn t, w => Prog.call (S := TxnIface) t fun r => .ret (r, { w with txns := w.txns + 1 })
  | o, w => .ret ((aside cycles).act o w)

/-- `main` up to the end of round `n` of `dac_test_loop`, over the byte functions of `i2c.c`. It
returns what has become of the LED. -/
def firmware (cycles : ℕ → Fin 2 → CInt) (n : ℕ) (w : Watch) : Prog ByteIface (Unit × Watch) :=
  ((main n).translateWith (perform cycles) w).translate txnImpl

/-- A step of `main` with the devices on the bus, which do not acknowledge byte `n` where `nack n`
is set. -/
def onBoard (nack : ℕ → Bool) (cycles : ℕ → Fin 2 → CInt) :
    (o : MainOp) → Watch × Bus → MainIface.Reply o × Watch × Bus
  | .txn t, (w, s) =>
    let x := s.transact (quietWire nack) t
    (x.1, { w with txns := w.txns + 1 }, x.2)
  | o, (w, s) =>
    let y := (aside cycles).act o w
    (y.1, y.2, s)

section Plain

/-- Replies to a step of `main` that are the same but for the status that a transaction leaves. -/
def SameRet : (o : MainOp) → MainIface.Reply o → MainIface.Reply o → Prop
  | .txn _, (x : TxnResult), (x' : TxnResult) => x.ret = x'.ret
  | _, x, x' => x = x'

/-- A part of `main` that looks at nothing of a transaction but its return value. -/
abbrev PlainMain {α : Type} (p : Prog MainIface α) : Prop := p.Respects SameRet

theorem plain_calls {α : Type} {p : Prog TxnIface α} (plain : Plain p) : PlainMain (calls p) := by
  induction p with
  | ret a => trivial
  | call t k ih =>
    exact ⟨fun x x' same => congrArg calls (plain.1 x x' same), fun x => ih x (plain.2 x)⟩

/-- A step other than a transaction, and what comes after it. -/
theorem plain_op {α : Type} {o : MainOp} {f : MainIface.Reply o → Prog MainIface α}
    (same : ∀ r r', SameRet o r r' → r = r') (rest : ∀ r, PlainMain (f r)) :
    PlainMain (Prog.op (S := MainIface) o >>= f) :=
  (Prog.respects_op same).bind rest

/-- A call of a device driver, and what comes after it. -/
theorem plain_call {α β : Type} {p : Prog TxnIface α} {f : α → Prog MainIface β} (plain : Plain p)
    (rest : ∀ a, PlainMain (f a)) : PlainMain (calls p >>= f) :=
  (plain_calls plain).bind rest

theorem plain_rgbSet (r g b : BitVec 8) : PlainMain (rgbSet r g b) :=
  plain_op (fun _ _ => id) fun _ => plain_op (fun _ _ => id) fun _ =>
    Prog.respects_op fun _ _ => id

theorem plain_verdict (postFailed : Bool) : PlainMain (verdict postFailed) := by
  rw [verdict]
  split
  · exact plain_rgbSet _ _ _
  · exact plain_rgbSet _ _ _

theorem plain_post : PlainMain post := by
  refine plain_call (plain_txn _) fun _ => plain_op (fun _ _ => id) fun _ => ?_
  refine plain_call (plain_txn _) fun _ => plain_op (fun _ _ => id) fun _ => ?_
  refine plain_op (fun _ _ => id) fun _ => plain_call (plain_txn _) fun _ => ?_
  refine plain_op (fun _ _ => id) fun _ => plain_op (fun _ _ => id) fun _ => ?_
  exact plain_call (plain_txn _) fun _ => plain_verdict _

theorem plain_dacWriteReadBack (addr : CInt) (postFailed : Bool) :
    PlainMain (dacWriteReadBack addr postFailed) := by
  refine plain_op (fun _ _ => id) fun _ => plain_call (plain_txn _) fun _ => ?_
  refine plain_op (fun _ _ => id) fun _ => plain_op (fun _ _ => id) fun _ => ?_
  exact plain_call (plain_txn _) fun _ => plain_op (fun _ _ => id) fun _ => trivial

theorem plain_extendedPost : PlainMain extendedPost := by
  refine (plain_dacWriteReadBack 0 false).bind fun _ => ?_
  refine (plain_dacWriteReadBack 1 _).bind fun _ => plain_op (fun _ _ => id) fun _ => ?_
  refine plain_call (plain_txn _) fun _ => plain_op (fun _ _ => id) fun _ => ?_
  refine plain_call (plain_txn _) fun _ => plain_op (fun _ _ => id) fun _ => ?_
  refine plain_call (plain_txn _) fun _ => plain_op (fun _ _ => id) fun _ => ?_
  exact plain_call (plain_txn _) fun _ => plain_verdict _

theorem plain_dacTestLevel (level : CInt) (low : Bool) : PlainMain (dacTestLevel level low) := by
  have counters : PlainMain (do
      busyWait 2000
      let cycles0 ← freqCntCyclesRead 0
      store (if low then .oscCyclesLow 0 else .oscCyclesHigh 0) cycles0
      let cycles1 ← freqCntCyclesRead 1
      store (if low then .oscCyclesLow 1 else .oscCyclesHigh 1) cycles1) := by
    refine plain_op (fun _ _ => id) fun _ => plain_op (fun _ _ => id) fun _ => ?_
    refine plain_op (fun _ _ => id) fun _ => plain_op (fun _ _ => id) fun _ => ?_
    exact Prog.respects_op fun _ _ => id
  refine plain_op (fun _ _ => id) fun _ => plain_op (fun _ _ => id) fun _ => ?_
  refine plain_call (Call.dacSetVal level level).plain fun rx => ?_
  refine plain_op (fun _ _ => id) fun _ => ?_
  cases negative rx with
  | true => exact (plain_rgbSet _ _ _).bind fun _ => counters
  | false => exact counters

theorem plain_dacTestLoop (n : ℕ) : PlainMain (dacTestLoop n) := by
  induction n with
  | zero => trivial
  | succ n ih =>
    exact (plain_dacTestLevel _ _).bind fun _ => (plain_dacTestLevel _ _).bind fun _ => ih

theorem plain_main (n : ℕ) : PlainMain (main n) := by
  have init : PlainMain rgbInit := by
    refine plain_op (fun _ _ => id) fun _ => plain_op (fun _ _ => id) fun _ => ?_
    refine plain_op (fun _ _ => id) fun _ => plain_op (fun _ _ => id) fun _ => ?_
    exact plain_op (fun _ _ => id) fun _ => Prog.respects_op fun _ _ => id
  refine plain_op (fun _ _ => id) fun _ => init.bind fun _ => ?_
  refine plain_op (fun _ _ => id) fun _ => plain_op (fun _ _ => id) fun _ => ?_
  refine plain_op (fun _ _ => id) fun _ => plain_op (fun _ _ => id) fun _ => ?_
  refine plain_op (fun _ _ => id) fun _ => plain_post.bind fun _ => ?_
  refine plain_op (fun _ _ => id) fun _ => plain_extendedPost.bind fun _ => ?_
  exact plain_op (fun _ _ => id) fun _ => plain_op (fun _ _ => id) fun _ => plain_dacTestLoop n

/-- Put over the driver, such a program is plain. -/
theorem plain_translateWith {α : Type} {p : Prog MainIface α} (plain : PlainMain p)
    (cycles : ℕ → Fin 2 → CInt) (w : Watch) : Plain (p.translateWith (perform cycles) w) := by
  induction p generalizing w with
  | ret a => trivial
  | call o k ih =>
    cases o with
    | txn t =>
      refine ⟨fun x x' same => ?_, fun x => ih x (plain.2 x) _⟩
      change (k x).translateWith _ _ = (k x').translateWith _ _
      rw [plain.1 x x' same]
    | _ => exact ih _ (plain.2 _) _

end Plain

/-! ## The general call -/

section GeneralCall

variable {wire : ℕ → Wire} {α : Type}

/-- **The general call reset** is a write that may fail: it resets the DAC if both of its bytes are
acknowledged. -/
theorem generalCallReset_ends (s : Bus) :
    Ends wire (WriteEffect (nacks wire) s (s.regs.resetDac s.dacDefaults))
      (Txn.prog .generalCallReset) s := by
  rw [Txn.prog_eq]
  refine Ends.tx write_refused rfl (.nil _) (t := { s with phase := .generalCall }) rfl
    fun a => ?_
  refine Ends.tx write_refused rfl a rfl fun a => ?_
  exact Ends.ret (Or.inl ⟨rfl, rfl, a⟩)

/-- No byte changes what the DAC has at power-on. -/
theorem take_dacDefaults {s t : Bus} {byte : BitVec 8} (takes : s.take byte = some t) :
    t.dacDefaults = s.dacDefaults := by
  rw [Bus.take] at takes
  split at takes
  all_goals try split_ifs at takes
  all_goals cases takes
  all_goals rfl

theorem reply_dacDefaults (o : ByteOp) (s : Bus) :
    (Bus.reply wire o s).2.dacDefaults = s.dacDefaults := by
  have stop (t : Bus) (flags : CInt) : (t.stop flags).dacDefaults = t.dacDefaults := by
    unfold Bus.stop
    split <;> rfl
  have start (t : Bus) (flags : CInt) : (t.start flags).dacDefaults = t.dacDefaults := by
    unfold Bus.start
    split <;> rfl
  cases o with
  | tx b flags =>
    cases taken : s.taken (wire s.count) b flags with
    | none =>
      simp only [Bus.reply, taken, stop]
      exact start s flags
    | some t =>
      simp only [Bus.reply, taken, stop]
      unfold Bus.taken at taken
      split at taken
      · cases taken
      · exact (take_dacDefaults taken).trans (start s flags)
  | rx flags => exact stop _ flags

theorem run_dacDefaults (p : Prog ByteIface α) (s : Bus) :
    (p.run (Bus.reply wire) s).2.dacDefaults = s.dacDefaults := by
  induction p generalizing s with
  | ret x => rfl
  | call o k ih => exact (ih _ _).trans (reply_dacDefaults o s)

theorem transact_dacDefaults (t : Txn) (s : Bus) :
    (s.transact wire t).2.dacDefaults = s.dacDefaults := run_dacDefaults _ s

/-- The registers after a general call reset that may have been refused. -/
def MaybeReset (defaults : BitVec 5 → BitVec 16) (before after : RegFile) : Prop :=
  after = before ∨ after = before.resetDac defaults

theorem WriteEffect.maybeReset {nack : ℕ → Bool} {s t : Bus} {ret : CInt}
    (h : WriteEffect nack s (s.regs.resetDac s.dacDefaults) ret t) :
    MaybeReset s.dacDefaults s.regs t.regs := by
  rcases h with ⟨-, done, -⟩ | ⟨-, same, -⟩
  · exact Or.inr done
  · exact Or.inl same

/-- Two resets are one. -/
theorem MaybeReset.trans {defaults : BitVec 5 → BitVec 16} {x y z : RegFile}
    (first : MaybeReset defaults x y) (second : MaybeReset defaults y z) :
    MaybeReset defaults x z := by
  rcases first with rfl | rfl
  · exact second
  · rcases second with rfl | rfl
    · exact Or.inr rfl
    · exact Or.inr rfl

end GeneralCall

/-! ## The routines on a board -/

/-- The registers that `post` reads are those of a DAC and a CODEC. -/
def RegFile.identified (r : RegFile) : Bool :=
  (r.dac 0x1a).setWidth 8 == (0x60 : BitVec 8) && (r.codec 0).extractLsb' 8 8 == (0xa0 : BitVec 8)

/-- The registers that `extended_post` leaves. -/
def RegFile.exercised (r : RegFile) : RegFile :=
  (((r.setDac 0 0x6e).setDac 1 0x6e).setCodec 0x20 1).setCodec 0x20 0

/-- The registers that a round of `dac_test_loop` leaves. -/
def RegFile.swept (r : RegFile) : RegFile :=
  (((r.setDac 0 0).setDac 1 0).setDac 0 0xff).setDac 1 0xff

theorem LO_setWidth (v : BitVec 16) : LO (v.setWidth 32) = (v.setWidth 8).setWidth 32 := by
  apply BitVec.eq_of_getLsbD_eq
  intro i hi
  rw [LO]
  interval_cases i <;> simp

theorem HI_setWidth (v : BitVec 16) : HI (v.setWidth 32) = (v.extractLsb' 8 8).setWidth 32 := by
  apply BitVec.eq_of_getLsbD_eq
  intro i hi
  rw [HI]
  interval_cases i <;> simp

/-- Bytes are the same if they are as `int`s. -/
theorem setWidth_beq (x y : BitVec 8) : (x.setWidth 32 == y.setWidth 32) = (x == y) := by
  rw [Bool.eq_iff_iff, beq_iff_eq, beq_iff_eq]
  refine ⟨fun same => ?_, congrArg _⟩
  have nats := congrArg BitVec.toNat same
  rw [BitVec.toNat_setWidth_of_le (by decide), BitVec.toNat_setWidth_of_le (by decide)] at nats
  exact BitVec.eq_of_toNat_eq nats

section Board

variable (nack : ℕ → Bool) (cycles : ℕ → Fin 2 → CInt)

@[simp] theorem run_txn_onBoard (t : Txn) (w : Watch) (s : Bus) :
    (calls (txn t)).run (onBoard nack cycles) (w, s) =
      ((s.transact (quietWire nack) t).1.ret, { w with txns := w.txns + 1 },
        (s.transact (quietWire nack) t).2) := rfl

theorem run_verdict_onBoard (postFailed : Bool) (w : Watch) (s : Bus) :
    (verdict postFailed).run (onBoard nack cycles) (w, s) = ((), w.coloured (!postFailed), s) := by
  cases postFailed <;> rfl

/-- `post`: the registers stay as they are or are reset, and where nothing is answered with NACK,
they are reset, and it tells whether the devices are the right ones. -/
theorem run_post_onBoard (w : Watch) (s : Bus) (early : w.tested = false) :
    ∃ passed s', post.run (onBoard nack cycles) (w, s) =
        ((), { w with txns := w.txns + 4, passed := w.passed && passed }.coloured passed, s') ∧
      s'.dacDefaults = s.dacDefaults ∧ MaybeReset s.dacDefaults s.regs s'.regs ∧
      ((∀ n, nack n = false) → s'.regs = s.regs.resetDac s.dacDefaults ∧
        passed = (s.regs.resetDac s.dacDefaults).identified) := by
  let wire := quietWire nack
  let s₁ := (s.transact wire .generalCallReset).2
  let dac := s₁.transact wire (.read DAC_I2C_ADDR DAC_ID_CMD (-1) true)
  let codec := dac.2.transact wire (.read CODEC_I2C_ADDR 0x00 0x00 true)
  let s₂ := (codec.2.transact wire .generalCallReset).2
  have defaults : codec.2.dacDefaults = s.dacDefaults :=
    (transact_dacDefaults _ dac.2).trans
      ((transact_dacDefaults _ s₁).trans (transact_dacDefaults _ s))
  have first : WriteEffect (nacks wire) s (s.regs.resetDac s.dacDefaults)
    (s.transact wire .generalCallReset).1.ret s₁ := generalCallReset_ends s
  have id : ReadEffect (nacks wire) s₁ (s₁.regs.dac 0x1a) dac.1.ret dac.2 :=
    dacRead_ends DAC_ID_REG true s₁
  have part : ReadEffect (nacks wire) dac.2 (dac.2.regs.codec 0) codec.1.ret codec.2 :=
    codecRead_ends 0x00 true dac.2
  have second : WriteEffect (nacks wire) codec.2 (codec.2.regs.resetDac codec.2.dacDefaults)
    (codec.2.transact wire .generalCallReset).1.ret s₂ := generalCallReset_ends codec.2
  have regs : codec.2.regs = s₁.regs := part.1.trans id.1
  refine ⟨LO dac.1.ret == DAC_I2C_ADDR && HI codec.1.ret == CODEC_PARTID, s₂, ?_, ?_, ?_,
    fun quiet => ?_⟩
  · simp only [post, Prog.run_bind, run_txn_onBoard]
    simp [busyWait, store, check, Prog.op, onBoard, Outside.act, early, bne, Bool.and_assoc,
      run_verdict_onBoard, dac, codec, s₁, s₂, wire]
  · exact (transact_dacDefaults _ codec.2).trans defaults
  · have reset := second.maybeReset
    rw [defaults, regs] at reset
    exact first.maybeReset.trans reset
  · have reset : s₁.regs = s.regs.resetDac s.dacDefaults :=
      first.done (by rw [first.acked quiet]; rfl)
    constructor
    · rw [second.done (by rw [second.acked quiet]; rfl), defaults, regs, reset]
      rfl
    · rw [id.acked quiet, part.acked quiet, id.1, reset, LO_setWidth, HI_setWidth]
      exact congrArg₂ _ (setWidth_beq _ 0x60) (setWidth_beq _ 0xa0)

/-- A DAC register in `extended_post`. -/
theorem run_dacWriteReadBack_onBoard (addr : CInt) (postFailed : Bool) (w : Watch) (s : Bus) :
    ∃ ok s', (dacWriteReadBack addr postFailed).run (onBoard nack cycles) (w, s) =
        (postFailed || !ok, { w with txns := w.txns + 2, passed := w.passed && ok }, s') ∧
      s'.dacDefaults = s.dacDefaults ∧
      (ok = true → s'.regs = s.regs.setDac (addr.setWidth 5) 0x6e) ∧
      ((∀ n, nack n = false) → ok = true) := by
  let wire := quietWire nack
  let written := s.transact wire
    (.write DAC_I2C_ADDR (addr <<< 3) (-1) (HI (0x6e : CInt)) (LO (0x6e : CInt)) false)
  let back := written.2.transact wire (.read DAC_I2C_ADDR ((addr <<< 3) ||| 0x06) (-1) false)
  have effect : WriteEffect (nacks wire) s (s.regs.setDac (addr.setWidth 5) 0x6e) written.1.ret
    written.2 := dacWrite_ends addr 0x6e false s
  have read : ReadEffect (nacks wire) written.2 (written.2.regs.dac (addr.setWidth 5)) back.1.ret
    back.2 := dacRead_ends addr false written.2
  refine ⟨!negative written.1.ret && back.1.ret == 0x6e, back.2, ?_, ?_, fun ok => ?_,
    fun quiet => ?_⟩
  · simp only [dacWriteReadBack, dacWriteTxn, dacReadTxn, Prog.run_bind]
    simp [dacLatchOutWrite, check, Prog.op, onBoard, Outside.act, bne, Bool.and_assoc,
      Bool.or_assoc, written, back, wire]
  · exact (transact_dacDefaults _ written.2).trans (transact_dacDefaults _ s)
  · rw [Bool.and_eq_true, Bool.not_eq_true'] at ok
    exact read.1.trans (effect.done ok.1)
  · have done := effect.acked quiet
    have value : written.2.regs.dac (addr.setWidth 5) = 0x6e := by
      rw [effect.done (by rw [done]; rfl)]
      exact Function.update_self _ _ _
    rw [done, read.acked quiet, value]
    rfl

/-- `extended_post`: if its checks pass, the devices have their registers as written, and then the
DAC may have been reset; where nothing is answered with NACK, they pass, and it has been. -/
theorem run_extendedPost_onBoard (w : Watch) (s : Bus) :
    ∃ passed s', extendedPost.run (onBoard nack cycles) (w, s) =
        ((), { w with txns := w.txns + 8, passed := w.passed && passed }.coloured passed, s') ∧
      (passed = true → MaybeReset s.dacDefaults s.regs.exercised s'.regs) ∧
      ((∀ n, nack n = false) →
        passed = true ∧ s'.regs = s.regs.exercised.resetDac s.dacDefaults) := by
  obtain ⟨ok₀, s₀, run₀, defaults₀, regs₀, quiet₀⟩ :=
    run_dacWriteReadBack_onBoard nack cycles 0 false w s
  obtain ⟨ok₁, s₁, run₁, defaults₁, regs₁, quiet₁⟩ :=
    run_dacWriteReadBack_onBoard nack cycles 1 (!ok₀)
      { w with txns := w.txns + 2, passed := w.passed && ok₀ } s₀
  let wire := quietWire nack
  let reg : CInt := CHIP_ANA_ADC_CTRL
  let written := s₁.transact wire (.write CODEC_I2C_ADDR (HI reg) (LO reg) (HI 1) (LO 1) false)
  let back := written.2.transact wire (.read CODEC_I2C_ADDR (HI reg) (LO reg) false)
  let zeroed := back.2.transact wire (.write CODEC_I2C_ADDR (HI reg) (LO reg) (HI 0) (LO 0) false)
  let s' := (zeroed.2.transact wire .generalCallReset).2
  have defaults : zeroed.2.dacDefaults = s.dacDefaults :=
    (transact_dacDefaults _ back.2).trans ((transact_dacDefaults _ written.2).trans
      ((transact_dacDefaults _ s₁).trans (defaults₁.trans defaults₀)))
  have effect : WriteEffect (nacks wire) s₁ (s₁.regs.setCodec 0x20 1) written.1.ret written.2 :=
    codecWrite_ends reg 1 false s₁
  have read : ReadEffect (nacks wire) written.2 (written.2.regs.codec 0x20) back.1.ret back.2 :=
    codecRead_ends reg false written.2
  have effect' : WriteEffect (nacks wire) back.2 (back.2.regs.setCodec 0x20 0) zeroed.1.ret
    zeroed.2 := codecWrite_ends reg 0 false back.2
  have reset : WriteEffect (nacks wire) zeroed.2 (zeroed.2.regs.resetDac zeroed.2.dacDefaults)
    (zeroed.2.transact wire .generalCallReset).1.ret s' := generalCallReset_ends zeroed.2
  let passed :=
    ok₀ && ok₁ && !negative written.1.ret && back.1.ret == 1 && !negative zeroed.1.ret
  have exercised (ok : passed = true) : zeroed.2.regs = s.regs.exercised := by
    simp only [passed, Bool.and_eq_true, Bool.not_eq_true'] at ok
    obtain ⟨⟨⟨⟨done₀, done₁⟩, done⟩, -⟩, done'⟩ := ok
    rw [effect'.done done', read.1, effect.done done, regs₁ done₁, regs₀ done₀]
    rfl
  have all (quiet : ∀ n, nack n = false) : passed = true := by
    have done := effect.acked quiet
    have value : written.2.regs.codec 0x20 = 1 := by
      rw [effect.done (by rw [done]; rfl)]
      exact Function.update_self (0x20 : BitVec 16) 1 s₁.regs.codec
    simp only [passed]
    rw [quiet₀ quiet, quiet₁ quiet, done, read.acked quiet, value, effect'.acked quiet]
    rfl
  refine ⟨passed, s', ?_, fun ok => ?_, fun quiet => ⟨all quiet, ?_⟩⟩
  · rw [Bool.false_or] at run₀
    simp only [extendedPost, codecWriteTxn, codecReadTxn, Prog.run_bind, run₀, run₁]
    simp [dacLatchOutWrite, check, Prog.op, onBoard, Outside.act, run_verdict_onBoard, bne,
      Bool.and_assoc, passed, written, back, zeroed, s', wire, reg]
  · have maybe := reset.maybeReset
    rwa [defaults, exercised ok] at maybe
  · rw [reset.done (by rw [reset.acked quiet]; rfl), defaults, exercised (all quiet)]

/-- The transactions of a driver routine, on the devices. -/
theorem run_calls_onBoard {α : Type} (p : Prog TxnIface α) (w : Watch) (s : Bus) :
    ∃ k, (calls p).run (onBoard nack cycles) (w, s) =
      ((p.run (Bus.transact (quietWire nack)) s).1, { w with txns := k },
        (p.run (Bus.transact (quietWire nack)) s).2) := by
  induction p generalizing w s with
  | ret a => exact ⟨w.txns, rfl⟩
  | call t k ih => exact ih _ { w with txns := w.txns + 1 } _

/-- `dac_set_val` of both channels, if it does not fail. -/
theorem dacSetVal_done {wire : ℕ → Wire} {level : CInt} (given : nonneg level = true) {s : Bus}
    (ok : negative ((dacSetVal level level).run (Bus.transact wire) s).1 = false) :
    ((dacSetVal level level).run (Bus.transact wire) s).2.regs =
      (s.regs.setDac 0 (level.setWidth 16)).setDac 1 (level.setWidth 16) := by
  rcases dacSetVal_effect wire level level s with ⟨failed, -⟩ | ⟨between, first, second⟩
  · rw [failed] at ok
    exact absurd ok (by decide)
  · rw [ChannelEffect, if_pos given] at first second
    rw [second.done ok, first.done rfl]

theorem dacSetVal_acked {wire : ℕ → Wire} (quiet : ∀ n, (wire n).nack = false) {level : CInt}
    (given : nonneg level = true) (s : Bus) :
    negative ((dacSetVal level level).run (Bus.transact wire) s).1 = false := by
  have acked (reg : CInt) (s : Bus) :
      ((dacWriteTxn reg level).run (Bus.transact wire) s).1 = 0 :=
    (dacWriteTxn_effect wire reg level s).acked quiet
  have ok : negative 0#32 = false := rfl
  simp [dacSetVal, given, Prog.run_bind, acked, ok]

/-- Half a round of `dac_test_loop`. -/
theorem run_dacTestLevel_onBoard {level : CInt} (given : nonneg level = true) (low : Bool)
    {w : Watch} (tested : w.tested = true) (s : Bus) :
    ∃ failed k s', (dacTestLevel level low).run (onBoard nack cycles) (w, s) =
        ((), ({ w with txns := k }.afterSetVal failed).look, s') ∧
      (failed = false →
        s'.regs = (s.regs.setDac 0 (level.setWidth 16)).setDac 1 (level.setWidth 16)) ∧
      ((∀ n, nack n = false) → failed = false) := by
  obtain ⟨k, run⟩ := run_calls_onBoard nack cycles (dacSetVal level level) w s
  have acked (quiet : ∀ n, nack n = false) :
      negative ((dacSetVal level level).run (Bus.transact (quietWire nack)) s).1 = false := by
    have silent (n : ℕ) : (quietWire nack n).nack = false := quiet n
    exact dacSetVal_acked silent given s
  refine ⟨_, k, _, ?_, dacSetVal_done given, acked⟩
  have red (w : Watch) (s : Bus) :
      nahMate.run (onBoard nack cycles) (w, s) = ((), w.coloured false, s) := rfl
  cases failed : negative ((dacSetVal level level).run (Bus.transact (quietWire nack)) s).1 <;>
    simp [dacTestLevel, Prog.run_bind, run, freqCntCtrlResetWrite, freqCntCyclesRead, store, check,
      busyWait, Prog.op, onBoard, Outside.act, failed, tested, Watch.afterSetVal, red,
      Watch.coloured]

/-- Half a round: a blue LED was blue before, and the channels are at `level`; where nothing is
answered with NACK, the LED stays as it is. -/
theorem dacTestLevel_onBoard (level : CInt) (given : nonneg level = true) (low : Bool)
    {w : Watch} (settled : w.Settled) (s : Bus) :
    ∃ w' s', (dacTestLevel level low).run (onBoard nack cycles) (w, s) = ((), w', s') ∧
      w'.Settled ∧
      (w'.blue = true → w.blue = true ∧
        s'.regs = (s.regs.setDac 0 (level.setWidth 16)).setDac 1 (level.setWidth 16)) ∧
      ((∀ n, nack n = false) →
        w'.blue = w.blue ∧ w'.passed = w.passed ∧ w'.honest = w.honest) := by
  obtain ⟨tested, right⟩ := settled
  obtain ⟨failed, k, s', run, regs, quiet⟩ :=
    run_dacTestLevel_onBoard nack cycles given low tested s
  refine ⟨_, s', run, ?_⟩
  cases failed with
  | true =>
    refine ⟨look_settled tested, fun blue => ?_, fun all => absurd (quiet all) Bool.noConfusion⟩
    exact absurd (blue.symm.trans (coloured_blue { w with txns := k, passed := false } false))
      Bool.noConfusion
  | false =>
    have same : ({ w with txns := k } : Watch).look.honest = w.honest := look_honest right
    exact ⟨look_settled tested, fun blue => ⟨blue, regs rfl⟩, fun _ => ⟨rfl, rfl, same⟩⟩

/-- Any number of rounds. -/
theorem dacTestLoop_onBoard (n : ℕ) {w : Watch} (settled : w.Settled) (s : Bus) :
    ∃ w' s', (dacTestLoop n).run (onBoard nack cycles) (w, s) = ((), w', s') ∧
      (w'.blue = true → w.blue = true ∧ s'.regs = RegFile.swept^[n] s.regs) ∧
      ((∀ n, nack n = false) →
        w'.blue = w.blue ∧ w'.passed = w.passed ∧ w'.honest = w.honest) := by
  induction n generalizing w s with
  | zero => exact ⟨w, s, rfl, fun blue => ⟨blue, rfl⟩, fun _ => ⟨rfl, rfl, rfl⟩⟩
  | succ n ih =>
    obtain ⟨w₁, s₁, run₁, settled₁, blue₁, quiet₁⟩ :=
      dacTestLevel_onBoard nack cycles 0x00 rfl true settled s
    obtain ⟨w₂, s₂, run₂, settled₂, blue₂, quiet₂⟩ :=
      dacTestLevel_onBoard nack cycles 0xff rfl false settled₁ s₁
    obtain ⟨w', s', run, blue, quiet⟩ := ih settled₂ s₂
    refine ⟨w', s', ?_, fun lit => ?_, fun all => ?_⟩
    · rw [dacTestLoop, Prog.run_bind, run₁, Prog.run_bind, run₂, run]
    · obtain ⟨lit₂, regs⟩ := blue lit
      obtain ⟨lit₁, regs₂⟩ := blue₂ lit₂
      obtain ⟨lit₀, regs₁⟩ := blue₁ lit₁
      refine ⟨lit₀, ?_⟩
      rw [regs, regs₂, regs₁, Function.iterate_succ_apply]
      rfl
    · obtain ⟨b, p, h⟩ := quiet all
      obtain ⟨b₂, p₂, h₂⟩ := quiet₂ all
      obtain ⟨b₁, p₁, h₁⟩ := quiet₁ all
      exact ⟨b.trans (b₂.trans b₁), p.trans (p₂.trans p₁), h.trans (h₂.trans h₁)⟩

/-- The registers before and after the two self tests, each of which ends with a general call
reset. -/
def Tested (defaults : BitVec 5 → BitVec 16) (before after : RegFile) : Prop :=
  ∃ between, MaybeReset defaults before between ∧ MaybeReset defaults between.exercised after

/-- `main` on a board. -/
theorem main_onBoard (n : ℕ) (pwrR pwrG pwrB : BitVec 8) (s : Bus) :
    ∃ w s', (main n).run (onBoard nack cycles) (Watch.powerOn pwrR pwrG pwrB, s) = ((), w, s') ∧
      (w.blue = true → ∃ tested, Tested s.dacDefaults s.regs tested ∧
        s'.regs = RegFile.swept^[n] tested) ∧
      ((∀ n, nack n = false) → w.blue = true ∧
        s'.regs = RegFile.swept^[n]
          ((s.regs.resetDac s.dacDefaults).exercised.resetDac s.dacDefaults) ∧
        w.passed = (s.regs.resetDac s.dacDefaults).identified ∧
        w.honest = (s.regs.resetDac s.dacDefaults).identified) := by
  let w₀ := Watch.powerOn pwrR pwrG pwrB
  obtain ⟨passed, s₁, run₁, defaults, regs₁, quiet₁⟩ := run_post_onBoard nack cycles w₀ s rfl
  let w₁ := ({ w₀ with txns := 4, passed := passed }.coloured passed).look
  obtain ⟨passed', s₂, run₂, regs₂, quiet₂⟩ := run_extendedPost_onBoard nack cycles w₁ s₁
  rw [defaults] at regs₂ quiet₂
  let w₂ := ({ w₁ with txns := 12, passed := passed && passed' }.coloured passed').look
  let w₃ := ({ w₂ with tested := true } : Watch).look
  have settled : w₃.Settled := look_settled rfl
  have blue₃ : w₃.blue = passed' := coloured_blue { w₁ with passed := passed && passed' } passed'
  have honest₃ (ok : passed' = true) : w₃.honest = passed := by
    subst ok
    cases passed <;> rfl
  obtain ⟨w, s', run, blue, quiet⟩ := dacTestLoop_onBoard nack cycles n settled s₂
  refine ⟨w, s', ?_, fun lit => ?_, fun all => ?_⟩
  · have start : (main n).run (onBoard nack cycles) (w₀, s) = (do
        post
        returned .post
        extendedPost
        returned .extendedPost
        busyWait 2000
        dacTestLoop n : Prog MainIface Unit).run (onBoard nack cycles) (w₀, s) := rfl
    have seen : (returned .post).run (onBoard nack cycles)
        ({ w₀ with txns := w₀.txns + 4, passed := w₀.passed && passed }.coloured passed, s₁) =
      ((), w₁, s₁) := rfl
    have seen' : (returned .extendedPost).run (onBoard nack cycles)
        ({ w₁ with txns := w₁.txns + 8, passed := w₁.passed && passed' }.coloured passed', s₂) =
      ((), { w₂ with tested := true }, s₂) := rfl
    have waited : (busyWait 2000).run (onBoard nack cycles) ({ w₂ with tested := true }, s₂) =
      ((), w₃, s₂) := rfl
    rw [start, Prog.run_bind, run₁, Prog.run_bind, seen, Prog.run_bind, run₂, Prog.run_bind, seen',
      Prog.run_bind, waited, run]
  · obtain ⟨lit₃, regs⟩ := blue lit
    exact ⟨s₂.regs, ⟨s₁.regs, regs₁, regs₂ (blue₃.symm.trans lit₃)⟩, regs⟩
  · obtain ⟨b, p, h⟩ := quiet all
    obtain ⟨reset₁, right⟩ := quiet₁ all
    obtain ⟨ok, reset₂⟩ := quiet₂ all
    have lit : w.blue = true := b.trans (blue₃.trans ok)
    refine ⟨lit, ?_, p.trans ?_, h.trans ?_⟩
    · rw [(blue lit).2, reset₂, reset₁]
    · change (passed && passed') = _
      rw [ok, Bool.and_true, right]
    · rw [← right]
      exact honest₃ ok

/-- The firmware runs as `main` does on the board. -/
theorem run_firmware (n : ℕ) (w : Watch) (s : Bus) :
    ((firmware cycles n w).run (Bus.reply (quietWire nack)) s).1.2 =
        ((main n).run (onBoard nack cycles) (w, s)).2.1 ∧
      ((firmware cycles n w).run (Bus.reply (quietWire nack)) s).2 =
        ((main n).run (onBoard nack cycles) (w, s)).2.2 := by
  have agree (o : MainOp) (w : Watch) (s : Bus) :
      ((perform cycles o w).run (Bus.transact (quietWire nack)) s).1.1 =
          (onBoard nack cycles o (w, s)).1 ∧
        (((perform cycles o w).run (Bus.transact (quietWire nack)) s).1.2,
          ((perform cycles o w).run (Bus.transact (quietWire nack)) s).2) =
          (onBoard nack cycles o (w, s)).2 := by
    cases o <;> exact ⟨rfl, rfl⟩
  obtain ⟨-, states⟩ := Prog.run_translateWith (perform cycles) (Bus.transact (quietWire nack))
    (onBoard nack cycles) agree (main n) w s
  rw [firmware, Prog.run_translate]
  exact Prod.mk.inj states

end Board

/-! ## The LED -/

/-- **What the LED says about the board.** The firmware runs over a core that is the only controller
on its bus, with the DAC and the CODEC on the wires and any pattern of NACKs. If the LED is blue
after any number of rounds of `dac_test_loop`, the registers of the devices hold all that the self
tests and the loop have written to them since the DAC last obeyed a general call reset. If nothing
is ever answered with NACK, the DAC obeys all of them, the LED is blue, and it has been right about
the checks all the time exactly if the devices identify themselves as they should. Every round comes
to its end unless SCL is held low for ever or the CPU stops. -/
theorem led_on_the_board (cycles : ℕ → Fin 2 → CInt) (n : ℕ) (pwrR pwrG pwrB : BitVec 8)
    {v : BitVec 32} {r : Run}
    (d : DriverRun v (fun _ => firmware cycles n (.powerOn pwrR pwrG pwrB)) r)
    {hold pull nack : ℕ → Bool} {s : Bus} (hp : 10 ≤ (v.setWidth 16).toNat)
    (scl : Stretching r hold) (bus : Timely (v.setWidth 16).toNat r pull)
    (fresh : s.sends = false) (answers : AnswersAs (busDevice nack) s r pull) :
    (∀ c u w, d.cpu c = .job 0 (.ret (u, w)) →
      let regs := (onLines (busDevice nack) s r c).dev.regs
      (w.blue = true → ∃ tested, Tested s.dacDefaults s.regs tested ∧
        regs = RegFile.swept^[n] tested) ∧
      ((∀ i, nack i = false) → w.blue = true ∧
        regs = RegFile.swept^[n]
          ((s.regs.resetDac s.dacDefaults).exercised.resetDac s.dacDefaults) ∧
        w.passed = (s.regs.resetDac s.dacDefaults).identified ∧
        w.honest = (s.regs.resetDac s.dacDefaults).identified)) ∧
    ((Recurs fun t => hold t = false) → (Recurs fun t => d.access t = true) →
      ∃ c w, d.cpu c = .job 0 (.ret ((), w))) := by
  constructor
  · intro c u w ended
    have plain : Plain ((main n).translateWith (perform cycles) (.powerOn pwrR pwrG pwrB)) :=
      plain_translateWith (plain_main n) cycles _
    have served := d.answers_until hp scl bus (fun _ => chained_translate _)
      (fun _ => orderly_translate _) (fun _ => blind_translate plain) fresh answers
    have heard := d.onLines_eq hp scl bus (fun _ => chained_translate _)
      (fun _ => orderly_translate _) (fun _ => blind_translate plain) fresh answers
    have bus := d.peripherals hp scl bus (fun _ => chained_translate _)
      (fun _ => orderly_translate _) (fun _ => blind_translate plain) fresh answers
    obtain ⟨result, after⟩ := d.served_jobs hp scl bus (fun _ => chained_translate _)
      (fun _ => orderly_translate _) (fun _ => blind_translate plain) fresh (served c) le_rfl ended
    obtain ⟨w', s', run, blue, quiet⟩ := main_onBoard nack cycles n pwrR pwrG pwrB s
    obtain ⟨led, devices⟩ := run_firmware nack cycles n (.powerOn pwrR pwrG pwrB) s
    rw [run] at led devices
    obtain rfl : w = w' := (congrArg Prod.snd result).trans led
    have regs : (onLines (busDevice nack) s r c).dev.regs = s'.regs := by
      rw [heard, after]
      exact congrArg Bus.regs devices
    intro after'
    have here : after' = s'.regs := regs
    rw [here]
    exact ⟨blue, quiet⟩
  · intro finite fair
    obtain ⟨a, c, ret, -, -, ended⟩ := d.done_of_fair (by omega) scl finite fair 0
    exact ⟨c, ret.2, ended⟩

/-- The devices of the board, which identify themselves as they should. -/
def Bus.onBoard : Bus :=
  { Bus.clear with
    regs := ⟨fun _ => 0, fun reg => if reg = 0 then 0xa011 else 0⟩
    dacDefaults := fun reg => if reg = 0x1a then 0x60 else 0 }

/-- With devices that answer and acknowledge all bytes the LED turns blue after a round, and rightly
so. -/
theorem led_on_the_board_answered :
    ∃ (r : Run) (d : DriverRun 23 (fun _ => firmware (fun _ _ => 0) 1 (.powerOn 0 0 0)) r)
      (hold pull : ℕ → Bool), Stretching r hold ∧ Timely 23 r pull ∧
        AnswersAs (busDevice fun _ => false) .onBoard r pull ∧
        ∃ c w, d.cpu c = .job 0 (.ret ((), w)) ∧ w.blue = true ∧ w.honest = true ∧
          (onLines (busDevice fun _ => false) .onBoard r c).dev.regs.dac 0 = 0xff := by
  have plain : Plain ((main 1).translateWith (perform fun _ _ => 0) (.powerOn 0 0 0)) :=
    plain_translateWith (plain_main 1) _ _
  obtain ⟨hold, pull, scl, bus, answers, finite⟩ :=
    (eager 23 fun _ => firmware (fun _ _ => 0) 1 (.powerOn 0 0 0)).obliging (fun _ => false)
      (by decide) (fun _ => chained_translate _) (fun _ => orderly_translate _)
      (fun _ => blind_translate plain) (s := .onBoard) rfl
  obtain ⟨seen, returns⟩ := led_on_the_board (fun _ _ => 0) 1 0 0 0
    ((eager 23 _).driver hold pull) (by decide) scl bus rfl answers
  obtain ⟨c, w, ended⟩ := returns finite (eager_fair hold pull)
  obtain ⟨blue, regs, -, honest⟩ := (seen c () w ended).2 fun _ => rfl
  refine ⟨_, _, hold, pull, scl, bus, answers, c, w, ended, blue, honest.trans (by decide), ?_⟩
  rw [regs]
  decide

end Driver

end Rockling
