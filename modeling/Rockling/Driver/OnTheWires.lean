import Rockling.Driver.Obliging

/-!
# The register file behind the wires

The transactions of the device drivers address a device before they talk to it and look at nothing
in a status word but RxACK and ArbLost. So through core and wires, with the DAC and the CODEC on the
bus, the driver implements a register file (`register_file_on_the_wires`).
-/

namespace Rockling

open TwoWire (Symbol Reader Device Target)

namespace Driver

open RTLI2C

section Programs

variable {α β : Type}

/-- A program that is orderly when nobody is addressed is so when a device receives. -/
theorem Orderly.of_free {q : Prog ByteIface β} {m : Mode} (h : Orderly .free q)
    (receives : m ≠ .sends) : Orderly m q := by
  cases q with
  | ret x => exact receives
  | call o k =>
    cases o with
    | tx b flags => exact ⟨receives, fun _ => h.2.1 rfl, h.2.2⟩
    | rx flags => exact absurd h.1 (by decide)

/-- One orderly program after the other. -/
theorem Orderly.bind {p : Prog ByteIface α} {f : α → Prog ByteIface β} {m : Mode}
    (first : Orderly m p) (second : ∀ x, Orderly .free (f x)) : Orderly m (p >>= f) := by
  induction p generalizing m with
  | ret x => exact (second x).of_free first
  | call o k ih =>
    cases o with
    | tx b flags =>
      exact ⟨first.1, first.2.1, first.2.2.1, fun status arb => ih status (first.2.2.2 status arb)⟩
    | rx flags => exact ⟨first.1, first.2.1, fun reply arb => ih reply (first.2.2 reply arb)⟩

/-- One chained program after the other. -/
theorem Chained.bind {p : Prog ByteIface α} {f : α → Prog ByteIface β} {free : Bool}
    (first : Chained free p) (second : ∀ x, Chained true (f x)) : Chained free (p >>= f) := by
  induction p generalizing free with
  | ret x => exact (second x).of_free free
  | call o k ih => exact ⟨first.1, fun reply => ih reply (first.2 reply)⟩

section Txn

variable {errPtr : Bool} {k : Prog ByteIface TxnResult} {bytes : List (CInt × CInt)} {m : Mode}

theorem stop_of_data : hasFlag 0 STOP = false := by decide

theorem stop_of_start : hasFlag START STOP = false := by decide

theorem start_of_stop : hasFlag STOP START = false := by decide

/-- A byte of a transaction, which ends if it is not acknowledged. -/
theorem orderly_cons {b : CInt × CInt} (receives : m ≠ .sends)
    (sta : m = .free → hasFlag b.2 START = true)
    (single : hasFlag b.2 STOP = true → (hasFlag b.2 START && b.1.getLsbD 0) = false)
    (rest : Orderly (.sent b.1 b.2 false) (txAll errPtr k bytes)) :
    Orderly m (txAll errPtr k (b :: bytes)) := by
  refine ⟨receives, sta, single, fun status arb => ?_⟩
  beta_reduce
  rw [checkAck_eq, arb, Bool.or_false]
  cases nack : rxAck status with
  | true =>
    rw [if_pos rfl]
    exact Mode.noConfusion
  | false =>
    rw [if_neg Bool.false_ne_true]
    exact rest

/-- The two receptions of a read. -/
theorem orderly_rxTail : Orderly .sends (rxTail errPtr) := by
  have goesOn : hasFlag ACK STOP = false := by decide
  have last : hasFlag (NACK ||| STOP) STOP = true := by decide
  refine ⟨rfl, by decide, fun reply arb => ?_⟩
  beta_reduce
  rw [goesOn, checkArb_eq, arb]
  refine ⟨rfl, by decide, fun reply' arb' => ?_⟩
  beta_reduce
  rw [last, checkArb_eq, arb']
  exact Mode.noConfusion

theorem sent_data (b : CInt) : Mode.sent b 0 false = .receives := rfl

theorem sent_last (b : CInt) : Mode.sent b STOP false = .free := rfl

/-- A byte to a device that receives. -/
theorem orderly_data (b : CInt) (rest : Orderly .receives (txAll errPtr k bytes)) :
    Orderly .receives (txAll errPtr k ((b, 0) :: bytes)) :=
  orderly_cons (by decide) Mode.noConfusion (fun stop => by cases stop_of_data.symm.trans stop)
    (sent_data b ▸ rest)

/-- An address for writing. -/
theorem orderly_write (addr : CInt) (rest : Orderly .receives (txAll errPtr k bytes)) :
    Orderly .free (txAll errPtr k ((addr <<< 1, START) :: bytes)) := by
  have sta : hasFlag START START = true := by decide
  refine orderly_cons (by decide) (fun _ => sta)
    (fun stop => by cases stop_of_start.symm.trans stop) ?_
  have receives : Mode.sent (addr <<< 1) START false = .receives := by
    simp [Mode.sent, hasFlag, START, STOP]
  exact receives ▸ rest

/-- An address for reading. -/
theorem orderly_read (addr : CInt) (rest : Orderly .sends (txAll errPtr k bytes)) :
    Orderly .receives (txAll errPtr k (((addr <<< 1) + 1, START) :: bytes)) := by
  refine orderly_cons (by decide) Mode.noConfusion
    (fun stop => by cases stop_of_start.symm.trans stop) ?_
  have start : hasFlag START START = true := by decide
  have stop : hasFlag START STOP = false := by decide
  have lsb : ((addr <<< 1) + 1).getLsbD 0 = true := by
    rw [BitVec.getLsbD, BitVec.toNat_add, BitVec.toNat_shiftLeft, Nat.testBit_zero]
    simp
    omega
  have sends : Mode.sent ((addr <<< 1) + 1) START false = .sends := by
    rw [Mode.sent, start, stop, lsb]
    rfl
  exact sends ▸ rest

theorem orderly_optByte {tx1 : CInt} (rest : Orderly .receives (txAll errPtr k bytes)) :
    Orderly .receives (txAll errPtr k (optByte tx1 ++ bytes)) := by
  rw [optByte]
  split
  · exact orderly_data tx1 rest
  · exact rest

/-- Every transaction is orderly. -/
theorem Txn.orderly (t : Txn) : Orderly .free t.prog := by
  have ended : Orderly .free (Prog.ret ⟨0, none⟩ : Prog ByteIface TxnResult) := Mode.noConfusion
  rw [Txn.prog_eq]
  cases t with
  | read addr tx0 tx1 errPtr =>
    exact orderly_write addr (orderly_data tx0 (orderly_optByte (orderly_read addr
      orderly_rxTail)))
  | write addr tx0 tx1 d0 d1 errPtr =>
    refine orderly_write addr (orderly_data tx0 (orderly_optByte (orderly_data d0 ?_)))
    refine orderly_cons (by decide) Mode.noConfusion (fun _ => ?_) (sent_last d1 ▸ ended)
    rw [start_of_stop, Bool.false_and]
  | generalCallReset =>
    refine orderly_write 0 (orderly_cons (by decide) Mode.noConfusion (fun _ => ?_)
      (sent_last 0x06 ▸ ended))
    rw [start_of_stop, Bool.false_and]

/-! ### What they look at -/

variable {f : TxnResult → Prog ByteIface β}

theorem blind_txAll (plain : ∀ x x' : TxnResult, x.ret = x'.ret → f x = f x')
    (rest : ∀ x, Blind (f x)) (last : Blind (k >>= f)) : Blind (txAll errPtr k bytes >>= f) := by
  induction bytes with
  | nil => exact last
  | cons b bytes ih =>
    refine ⟨fun status status' alike => ?_, fun status => ?_⟩
    · obtain ⟨arb, arb', same⟩ := alike
      have code : (errorExit errPtr status).ret = (errorExit errPtr status').ret := by
        change (if rxAck status then _ else if arbLost status then _ else _ : CInt) =
          if rxAck status' then _ else if arbLost status' then _ else _
        rw [same, arb, arb']
      beta_reduce
      rw [checkAck_eq, checkAck_eq, same, arb, arb']
      split
      · exact plain _ _ code
      · rfl
    · beta_reduce
      split
      · exact rest _
      · exact ih

theorem blind_rxTail (rest : ∀ x, Blind (f x)) : Blind (rxTail errPtr >>= f) := by
  refine ⟨fun reply reply' alike => ?_, fun reply => ?_⟩
  · obtain ⟨arb, arb', same⟩ := alike
    beta_reduce
    rw [checkArb_eq, checkArb_eq, same, arb, arb']
    rfl
  · beta_reduce
    split
    · exact rest _
    · refine ⟨fun reply' reply'' alike => ?_, fun reply' => ?_⟩
      · obtain ⟨arb, arb', same⟩ := alike
        beta_reduce
        rw [checkArb_eq, checkArb_eq, same, arb, arb']
        rfl
      · beta_reduce
        split <;> exact rest _

end Txn

/-- A program over transactions that uses nothing but their return values. -/
abbrev Plain (p : Prog TxnIface α) : Prop :=
  p.Respects fun _ (x x' : TxnResult) => x.ret = x'.ret

theorem plain_txn (t : Txn) : Plain (txn t) := ⟨fun _ _ same => congrArg Prog.ret same,
  fun _ => trivial⟩

/-- The implementation of a program over transactions is orderly and chained, and blind if the
program uses nothing but the return values. -/
theorem orderly_translate (p : Prog TxnIface β) : Orderly .free (p.translate txnImpl) := by
  induction p with
  | ret x => exact Mode.noConfusion
  | call t k ih => exact t.orderly.bind ih

theorem chained_translate (p : Prog TxnIface β) : Chained true (p.translate txnImpl) := by
  induction p with
  | ret x => exact trivial
  | call t k ih => exact t.chained.bind ih

theorem blind_translate {p : Prog TxnIface β} (plain : Plain p) : Blind (p.translate txnImpl) := by
  induction p with
  | ret x => exact trivial
  | call t k ih =>
    obtain ⟨same, rest⟩ := plain
    have rest' : ∀ x : TxnResult, Blind ((k x).translate txnImpl) := fun x => ih x (rest x)
    have same' : ∀ x x' : TxnResult, x.ret = x'.ret →
        (k x).translate txnImpl = (k x').translate txnImpl :=
      fun x x' eq => congrArg (Prog.translate txnImpl) (same x x' eq)
    rw [Prog.translate, txnImpl, Txn.prog_eq]
    refine blind_txAll same' rest' ?_
    cases t with
    | read addr tx0 tx1 errPtr => exact blind_rxTail rest'
    | write addr tx0 tx1 d0 d1 errPtr => exact rest' _
    | generalCallReset => exact rest' _

/-- One channel of `dac_set_val`, with what comes after it. -/
theorem plain_channel (reg v : CInt) {rest : Prog TxnIface CInt} (h : Plain rest) :
    Plain (if nonneg v then dacWriteTxn reg v >>= fun ret =>
      if negative ret then return ret else rest
      else rest) := by
  split
  · refine (plain_txn _).bind fun ret => ?_
    split
    · exact trivial
    · exact h
  · exact h

/-- The calls of the device drivers use nothing but return values. -/
theorem Call.plain (c : Call) : Plain c.prog := by
  cases c with
  | dacRead reg => exact plain_txn _
  | dacWrite reg data => exact plain_txn _
  | dacSetVal v0 v1 => exact plain_channel 0x00 v0 (plain_channel 0x01 v1 trivial)
  | codecRead tx => exact plain_txn _
  | codecWrite tx data => exact plain_txn _

end Programs

/-- **The register file behind the wires.** In every run of calls of the device drivers over a core
that is the only controller on its bus, with the DAC and the CODEC on the wires and any pattern of
NACKs, the registers of the devices have a history in which each call that has returned means what
it should: a write takes effect and returns `0`, a read returns the value of its register, or a byte
of the call was answered with NACK and it returns `ENACK`; and nothing else changes. If nobody holds
SCL low for ever and the CPU does not stop, every call returns. -/
theorem register_file_on_the_wires (calls : ℕ → Call) {v : BitVec 32} {r : Run}
    (d : DriverRun v (fun n => (calls n).prog.translate txnImpl) r) {hold pull nack : ℕ → Bool}
    {s : Bus} (hp : 10 ≤ (v.setWidth 16).toNat) (scl : Stretching r hold)
    (bus : Timely (v.setWidth 16).toNat r pull) (fresh : s.sends = false)
    (answers : AnswersAs (busDevice nack) s r pull) :
    (∃ bus : ℕ → Bus, bus 0 = s ∧ ∀ n c ret, d.cpu c = .job n (.ret ret) →
      (calls n).Effect nack (bus n) ret (bus (n + 1)) ∧
        onLines (busDevice nack) s r c = ⟨bus (n + 1), []⟩) ∧
    ((Recurs fun t => hold t = false) → (Recurs fun t => d.access t = true) →
      ∀ n, ∃ c ret, d.cpu c = .job n (.ret ret)) := by
  have chained (n : ℕ) : Chained true ((calls n).prog.translate txnImpl) := chained_translate _
  have orderly (n : ℕ) : Orderly .free ((calls n).prog.translate txnImpl) := orderly_translate _
  have blind (n : ℕ) : Blind ((calls n).prog.translate txnImpl) := blind_translate (calls n).plain
  have served := d.answers_until hp scl bus chained orderly blind fresh answers
  have heard := d.onLines_eq hp scl bus chained orderly blind fresh answers
  have bus := d.peripherals hp scl bus chained orderly blind fresh answers
  constructor
  · refine ⟨s.history nack fun n => (calls n).prog.translate txnImpl, rfl,
      fun n c ret ended => ?_⟩
    obtain ⟨same, after⟩ := d.served_jobs hp scl bus chained orderly blind fresh
      (served c) le_rfl ended
    rw [same, heard]
    exact ⟨call_effect (quietWire nack) (calls n) _, after⟩
  · intro finite fair n
    obtain ⟨a, c, ret, -, -, ended⟩ := d.done_of_fair (by omega) scl finite fair n
    exact ⟨c, ret, ended⟩

/-- The devices with all registers clear. -/
def Bus.clear : Bus := ⟨⟨fun _ => 0, fun _ => 0⟩, fun _ => 0, 0, 0, .idle, 0⟩

/-- A CPU that has a turn in every clock, and its core. -/
def eager {β : Type} (prescale : BitVec 32) (jobs : ℕ → Prog ByteIface β) : Plant prescale jobs :=
  (timed (fun _ => false) fun _ => false).plant prescale jobs

theorem eager_fair {β : Type} {prescale : BitVec 32} {jobs : ℕ → Prog ByteIface β}
    (hold pull : ℕ → Bool) :
    Recurs fun t => ((eager prescale jobs).driver hold pull).access t = true :=
  Others.fair (timed hold pull) prescale jobs fun t => ⟨t, le_rfl, rfl⟩

/-- A DAC register is written, and then read over and over. -/
def writeThenRead (n : ℕ) : Call := if n = 0 then .dacWrite 0 0x123 else .dacRead 0

/-- With devices that answer and acknowledge all bytes the value comes back. -/
theorem register_file_on_the_wires_answered :
    ∃ (r : Run) (d : DriverRun 23 (fun n => (writeThenRead n).prog.translate txnImpl) r)
      (hold pull : ℕ → Bool), Stretching r hold ∧ Timely 23 r pull ∧
        AnswersAs (busDevice fun _ => false) .clear r pull ∧
        (∃ c, d.cpu c = .job 0 (.ret 0)) ∧ ∃ c, d.cpu c = .job 1 (.ret 0x123) := by
  obtain ⟨hold, pull, scl, bus, answers, finite⟩ :=
    (eager 23 fun n => (writeThenRead n).prog.translate txnImpl).obliging (fun _ => false)
      (by decide) (fun _ => chained_translate _) (fun _ => orderly_translate _)
      (fun n => blind_translate (writeThenRead n).plain) (s := .clear) rfl
  obtain ⟨⟨bus', start, effects⟩, returns⟩ := register_file_on_the_wires writeThenRead
    ((eager 23 _).driver hold pull) (by decide) scl bus rfl answers
  obtain ⟨c₀, ret₀, ended₀⟩ := returns finite (eager_fair hold pull) 0
  obtain ⟨c, ret, ended⟩ := returns finite (eager_fair hold pull) 1
  have write : WriteEffect (fun _ => false) (bus' 0) ((bus' 0).regs.setDac 0 0x123) ret₀ (bus' 1) :=
    (effects 0 c₀ ret₀ ended₀).1
  have read : ReadEffect (fun _ => false) (bus' 1) ((bus' 1).regs.dac 0) ret (bus' 2) :=
    (effects 1 c ret ended).1
  have done := write.acked fun _ => rfl
  have written := write.done (by rw [done]; rfl)
  have value := read.acked fun _ => rfl
  rw [written, RegFile.setDac_self] at value
  exact ⟨_, _, hold, pull, scl, bus, answers, ⟨c₀, by rw [ended₀, done]⟩,
    c, by rw [ended, value]; rfl⟩

end Driver

end Rockling
