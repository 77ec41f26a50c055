import Rockling.Driver.Devices

/-!
# The self test and its LED

`custom-bios/main.c`: `post`, `extended_post`, `dac_test_loop` and the two colours of the LED, over
transactions whose results are arbitrary.

Blue means that the self test has passed. `extended_post` decides the colour by its own checks
alone, so it turns a red LED blue again when the checks of `post` failed and its own all pass. That
is the only way to a wrong colour (`ledHonest_iff`).
-/

namespace Rockling

namespace Driver

/-! ## What `main` does -/

/-- The global variables that the routines store results in. -/
inductive Global where
  | debugStatus
  | oscCyclesLow (osc : Fin 2)
  | oscCyclesHigh (osc : Fin 2)
  deriving DecidableEq

/-- The routines at whose return the LED is looked at. -/
inductive Routine where
  | post
  | extendedPost
  deriving DecidableEq

/-- The steps of `main` that reach outside it. `check` and `returned` do nothing: `check` marks a
comparison of the self test and its verdict, `returned` the return of a routine. -/
inductive MainOp where
  | txn (t : Txn)
  | i2cInit
  | rgbWrite (value addr : BitVec 8)
  | dacLatchOut (v : CInt)
  | freqCntCtrlReset (osc : Fin 2)
  | freqCntCycles (osc : Fin 2)
  | store (g : Global) (v : CInt)
  | messiblePuts
  | busyWait (ms : CInt)
  | check (passed : Bool)
  | returned (f : Routine)

/-- The interface of `main`. -/
abbrev MainIface : Signature where
  Op := MainOp
  Reply
    | .txn _ => TxnResult
    | .freqCntCycles _ => CInt
    | _ => Unit

/-- The transactions that a routine of the device drivers makes. -/
def calls {α : Type} (p : Prog TxnIface α) : Prog MainIface α :=
  p.translate fun t => Prog.op (S := MainIface) (.txn t)

def rgbWrite (value addr : BitVec 8) : Prog MainIface Unit :=
  Prog.op (S := MainIface) (.rgbWrite value addr)

def dacLatchOutWrite (v : CInt) : Prog MainIface Unit :=
  Prog.op (S := MainIface) (.dacLatchOut v)

def freqCntCtrlResetWrite (osc : Fin 2) : Prog MainIface Unit :=
  Prog.op (S := MainIface) (.freqCntCtrlReset osc)

def freqCntCyclesRead (osc : Fin 2) : Prog MainIface CInt :=
  Prog.op (S := MainIface) (.freqCntCycles osc)

def store (g : Global) (v : CInt) : Prog MainIface Unit := Prog.op (S := MainIface) (.store g v)

def busyWait (ms : CInt) : Prog MainIface Unit := Prog.op (S := MainIface) (.busyWait ms)

def check (passed : Bool) : Prog MainIface Unit := Prog.op (S := MainIface) (.check passed)

def returned (f : Routine) : Prog MainIface Unit := Prog.op (S := MainIface) (.returned f)

/-! ### The LED -/

def LEDDPWRR : BitVec 8 := 1
def LEDDPWRG : BitVec 8 := 2
def LEDDPWRB : BitVec 8 := 3
def LEDDBCRR : BitVec 8 := 5
def LEDDBCFR : BitVec 8 := 6
def LEDDCR0 : BitVec 8 := 8
def LEDDBR : BitVec 8 := 9
def LEDDONR : BitVec 8 := 10
def LEDDOFR : BitVec 8 := 11

/-- `rgb_init`, after the write that switches the block on. -/
def rgbInit : Prog MainIface Unit := do
  rgbWrite 0xc8 LEDDCR0
  rgbWrite 0xba LEDDBR
  rgbWrite 1 LEDDONR
  rgbWrite 0 LEDDOFR
  rgbWrite 0x82 LEDDBCRR
  rgbWrite 0x82 LEDDBCFR

/-- `rgb_set`: the green and the blue LED are swapped on the board. -/
def rgbSet (r g b : BitVec 8) : Prog MainIface Unit := do
  rgbWrite r LEDDPWRR
  rgbWrite b LEDDPWRG
  rgbWrite g LEDDPWRB

/-- `all_good`. -/
def allGood : Prog MainIface Unit := rgbSet 0x00 0x00 0xff

/-- `nah_mate`. -/
def nahMate : Prog MainIface Unit := rgbSet 0xff 0x00 0x00

/-- The colour that a routine leaves. -/
def verdict (postFailed : Bool) : Prog MainIface Unit :=
  if !postFailed then allGood else nahMate

/-! ### The tests -/

/-- `post`. -/
def post : Prog MainIface Unit := do
  let _ ← calls (txn .generalCallReset)
  busyWait 20
  -- ask the DAC for its own address
  let rx ← calls (txn (.read DAC_I2C_ADDR DAC_ID_CMD (-1) true))
  let debugStatus := rx &&& 0xffff
  store .debugStatus debugStatus
  let postFailed := LO rx != DAC_I2C_ADDR
  check (LO rx == DAC_I2C_ADDR)
  -- ask the CODEC to identify itself
  let rx ← calls (txn (.read CODEC_I2C_ADDR 0x00 0x00 true))
  let postFailed := postFailed || HI rx != CODEC_PARTID
  check (HI rx == CODEC_PARTID)
  store .debugStatus (debugStatus ||| ((rx &&& 0xffff) <<< 16))
  let _ ← calls (txn .generalCallReset)
  verdict postFailed

/-- One round of the loop of `extended_post`: write a DAC register and read it back once latched. -/
def dacWriteReadBack (addr : CInt) (postFailed : Bool) : Prog MainIface Bool := do
  let val : CInt := 0x6e
  dacLatchOutWrite 1
  let rx ← calls (dacWriteTxn addr val)
  let postFailed := postFailed || negative rx
  check (!negative rx)
  dacLatchOutWrite 0
  let rx ← calls (dacReadTxn addr)
  let postFailed := postFailed || rx != val
  check (rx == val)
  return postFailed

/-- `extended_post`. -/
def extendedPost : Prog MainIface Unit := do
  let postFailed ← dacWriteReadBack 0 false
  let postFailed ← dacWriteReadBack 1 postFailed
  dacLatchOutWrite 0
  -- write the CODEC volume register and read it back
  let val : CInt := 0x0001
  let rx ← calls (codecWriteTxn CHIP_ANA_ADC_CTRL val)
  let postFailed := postFailed || negative rx
  check (!negative rx)
  let rx ← calls (codecReadTxn CHIP_ANA_ADC_CTRL)
  let postFailed := postFailed || rx != val
  check (rx == val)
  let rx ← calls (codecWriteTxn CHIP_ANA_ADC_CTRL 0x0000)
  let postFailed := postFailed || negative rx
  check (!negative rx)
  let _ ← calls (txn .generalCallReset)
  verdict postFailed

/-- Half a round of `dac_test_loop`: set both channels to `level` and count for a while. -/
def dacTestLevel (level : CInt) (low : Bool) : Prog MainIface Unit := do
  freqCntCtrlResetWrite 0
  freqCntCtrlResetWrite 1
  let rx ← calls (dacSetVal level level)
  check (!negative rx)
  if negative rx then nahMate
  busyWait 2000
  let cycles0 ← freqCntCyclesRead 0
  store (if low then .oscCyclesLow 0 else .oscCyclesHigh 0) cycles0
  let cycles1 ← freqCntCyclesRead 1
  store (if low then .oscCyclesLow 1 else .oscCyclesHigh 1) cycles1

/-- `n` rounds of `dac_test_loop`, which never returns. -/
def dacTestLoop : ℕ → Prog MainIface Unit
  | 0 => return
  | n + 1 => do
    dacTestLevel 0x00 true
    dacTestLevel 0xff false
    dacTestLoop n

/-- `main`, up to the end of round `n` of `dac_test_loop`. -/
def main (n : ℕ) : Prog MainIface Unit := do
  store .debugStatus 1
  rgbInit
  dacLatchOutWrite 0
  Prog.op (S := MainIface) .i2cInit
  store .debugStatus 2
  Prog.op (S := MainIface) .messiblePuts
  store .debugStatus 3
  post
  returned .post
  extendedPost
  returned .extendedPost
  busyWait 2000
  dacTestLoop n

/-! ## Looking at the LED -/

/-- What the outside world answers: the result of every transaction, and the counter values read
after so many transactions. -/
structure Outside where
  txn : ℕ → TxnResult
  cycles : ℕ → Fin 2 → CInt

/-- The LED, and what an observer has seen of it. -/
structure Watch where
  pwrR : BitVec 8
  pwrG : BitVec 8
  pwrB : BitVec 8
  /-- The number of transactions made. -/
  txns : ℕ
  /-- Every check so far has passed. -/
  passed : Bool
  /-- `extended_post` has returned. -/
  tested : Bool
  /-- Whenever the LED was looked at, it was blue exactly when every check so far had passed. -/
  honest : Bool

/-- A write to a register of the LED driver. -/
def Watch.rgbWrite (s : Watch) (value addr : BitVec 8) : Watch :=
  { s with
    pwrR := if addr = LEDDPWRR then value else s.pwrR
    pwrG := if addr = LEDDPWRG then value else s.pwrG
    pwrB := if addr = LEDDPWRB then value else s.pwrB }

/-- The LED has the colour of `all_good`. -/
def Watch.blue (s : Watch) : Bool := s.pwrR == 0 && s.pwrG == 0xff && s.pwrB == 0

/-- Look at the LED. -/
def Watch.look (s : Watch) : Watch := { s with honest := s.honest && (s.blue == s.passed) }

/-- What a step of `main` does. The LED is looked at when `post` and `extended_post` return and at
every wait after that. -/
def Outside.act (e : Outside) : (o : MainOp) → Watch → MainIface.Reply o × Watch
  | .txn _, s => (e.txn s.txns, { s with txns := s.txns + 1 })
  | .freqCntCycles osc, s => (e.cycles s.txns osc, s)
  | .rgbWrite value addr, s => ((), s.rgbWrite value addr)
  | .busyWait _, s => ((), if s.tested then s.look else s)
  | .check passed, s => ((), { s with passed := s.passed && passed })
  | .returned .post, s => ((), s.look)
  | .returned .extendedPost, s => ((), { s.look with tested := true })
  | .i2cInit, s => ((), s)
  | .dacLatchOut _, s => ((), s)
  | .freqCntCtrlReset _, s => ((), s)
  | .store _ _, s => ((), s)
  | .messiblePuts, s => ((), s)

/-- At power-on, whatever the LED registers hold. -/
def Watch.powerOn (pwrR pwrG pwrB : BitVec 8) : Watch :=
  ⟨pwrR, pwrG, pwrB, 0, true, false, true⟩

/-- The identity checks of `post`. -/
def Outside.postPassed (e : Outside) : Bool :=
  LO (e.txn 1).ret == DAC_I2C_ADDR && HI (e.txn 2).ret == CODEC_PARTID

/-- The write results and read-back comparisons of `extended_post`. -/
def Outside.extendedPassed (e : Outside) : Bool :=
  !negative (e.txn 4).ret && (e.txn 5).ret == 0x6e &&
  !negative (e.txn 6).ret && (e.txn 7).ret == 0x6e &&
  !negative (e.txn 8).ret && (e.txn 9).ret == 1 && !negative (e.txn 10).ret

section Run

variable (e : Outside)

/-- The transactions of a driver routine only use up results. -/
theorem run_calls {α : Type} (p : Prog TxnIface α) (s : Watch) :
    ∃ a k, (calls p).run e.act s = (a, { s with txns := k }) := by
  induction p generalizing s with
  | ret a => exact ⟨a, s.txns, rfl⟩
  | call t k ih =>
    obtain ⟨a, j, run⟩ := ih (e.txn s.txns) { s with txns := s.txns + 1 }
    exact ⟨a, j, run⟩

/-- A single transaction takes the next result. -/
@[simp] theorem run_calls_txn (t : Txn) (s : Watch) :
    (calls (txn t)).run e.act s = ((e.txn s.txns).ret, { s with txns := s.txns + 1 }) := rfl

/-- The LED after `all_good` or `nah_mate`. -/
def Watch.coloured (s : Watch) (blue : Bool) : Watch :=
  { s with pwrR := if blue then 0x00 else 0xff, pwrG := if blue then 0xff else 0x00, pwrB := 0x00 }

theorem coloured_blue (s : Watch) (b : Bool) : (s.coloured b).blue = b := by
  cases b <;> rfl

theorem run_verdict (postFailed : Bool) (s : Watch) :
    (verdict postFailed).run e.act s = ((), s.coloured (!postFailed)) := by
  cases postFailed <;> rfl

theorem run_nahMate (s : Watch) : nahMate.run e.act s = ((), s.coloured false) := rfl

/-- `post` from power-on: its checks are evaluated and the colour is theirs. -/
theorem run_post (s : Watch) (fresh : s.txns = 0) (early : s.tested = false) :
    post.run e.act s =
      ((), { s with txns := 4, passed := s.passed && e.postPassed }.coloured e.postPassed) := by
  simp only [post, Prog.run_bind, run_calls_txn, run_verdict]
  simp [busyWait, store, check, Prog.op, Outside.act, early, fresh, Outside.postPassed,
    bne, Bool.and_assoc]

/-- `extended_post` after `post`: the colour is that of its own checks. -/
theorem run_extendedPost (s : Watch) (next : s.txns = 4) :
    extendedPost.run e.act s =
      ((), { s with txns := 12, passed := s.passed && e.extendedPassed }.coloured
        e.extendedPassed) := by
  simp only [extendedPost, dacWriteReadBack, dacWriteTxn, dacReadTxn, codecWriteTxn, codecReadTxn,
    Prog.run_bind, run_calls_txn, run_verdict]
  simp [dacLatchOutWrite, check, Prog.op, Outside.act, next, Outside.extendedPassed, bne,
    Bool.and_assoc]

/-- After a failed `dac_set_val` the LED is red, otherwise it is as before. -/
def Watch.afterSetVal (s : Watch) (failed : Bool) : Watch :=
  if failed then { s with passed := false }.coloured false else s

/-- Half a round of `dac_test_loop`: the LED is looked at once, after the result of `dac_set_val`.
-/
theorem run_dacTestLevel (level : CInt) (low : Bool) (s : Watch) (tested : s.tested = true) :
    ∃ failed k, (dacTestLevel level low).run e.act s =
      ((), ({ s with txns := k }.afterSetVal failed).look) := by
  obtain ⟨rx, k, run⟩ := run_calls e (dacSetVal level level) s
  refine ⟨negative rx, k, ?_⟩
  cases failed : negative rx <;>
    simp [dacTestLevel, Prog.run_bind, run, freqCntCtrlResetWrite, freqCntCyclesRead, store, check,
      busyWait, Prog.op, Outside.act, failed, tested, Watch.afterSetVal, run_nahMate,
      Watch.coloured]

/-- From now on the LED is looked at, and it is right unless it was wrong before. -/
def Watch.Settled (s : Watch) : Prop := s.tested = true ∧ (s.honest = true → s.blue = s.passed)

theorem look_settled {s : Watch} (tested : s.tested = true) : s.look.Settled := by
  refine ⟨tested, fun honest => ?_⟩
  simp only [Watch.look, Bool.and_eq_true, beq_iff_eq] at honest
  exact honest.2

/-- Looking at an LED that is right, or was wrong before, changes nothing. -/
theorem look_honest {s : Watch} (right : s.honest = true → s.blue = s.passed) :
    s.look.honest = s.honest := by
  cases honest : s.honest with
  | true => simp [Watch.look, honest, right honest]
  | false => simp [Watch.look, honest]

/-- One half round keeps the LED right, or wrong. -/
theorem settled_dacTestLevel (level : CInt) (low : Bool) {s : Watch} (settled : s.Settled) :
    ((dacTestLevel level low).run e.act s).2.Settled ∧
      ((dacTestLevel level low).run e.act s).2.honest = s.honest := by
  obtain ⟨tested, right⟩ := settled
  obtain ⟨failed, k, run⟩ := run_dacTestLevel e level low s tested
  rw [run]
  cases failed with
  | true => exact ⟨look_settled tested, look_honest fun _ => coloured_blue _ false⟩
  | false => exact ⟨look_settled tested, look_honest right⟩

/-- Any number of rounds keeps the LED right, or wrong. -/
theorem honest_dacTestLoop (n : ℕ) {s : Watch} (settled : s.Settled) :
    ((dacTestLoop n).run e.act s).2.honest = s.honest := by
  induction n generalizing s with
  | zero => rfl
  | succ n ih =>
    obtain ⟨settled₁, honest₁⟩ := settled_dacTestLevel e 0x00 true settled
    obtain ⟨settled₂, honest₂⟩ := settled_dacTestLevel e 0xff false settled₁
    rw [dacTestLoop, Prog.run_bind, Prog.run_bind, ih settled₂, honest₂, honest₁]

/-- The LED when `dac_test_loop` starts: it has been looked at three times. -/
def Watch.atLoop (e : Outside) (s : Watch) : Watch :=
  let s := ({ s with txns := 4, passed := e.postPassed }.coloured e.postPassed).look
  let s := ({ s with txns := 12, passed := s.passed && e.extendedPassed }.coloured
    e.extendedPassed).look
  { s with tested := true }.look

/-- `main` up to `dac_test_loop`. -/
theorem run_main (n : ℕ) (pwrR pwrG pwrB : BitVec 8) :
    (main n).run e.act (Watch.powerOn pwrR pwrG pwrB) =
      (dacTestLoop n).run e.act ((Watch.powerOn pwrR pwrG pwrB).atLoop e) := by
  rw [main]
  have start : (store .debugStatus 1).run e.act (Watch.powerOn pwrR pwrG pwrB) =
    ((), Watch.powerOn pwrR pwrG pwrB) := rfl
  have colours : rgbInit.run e.act (Watch.powerOn pwrR pwrG pwrB) =
    ((), Watch.powerOn pwrR pwrG pwrB) := rfl
  simp only [Prog.run_bind, start, colours]
  simp only [store, returned, busyWait, dacLatchOutWrite, Prog.op, Prog.run_call, Prog.run_ret,
    Outside.act]
  rw [run_post e _ rfl rfl]
  simp only []
  rw [run_extendedPost e _ rfl]
  rfl

end Run

/-- **When the LED tells the truth.** Whatever the transactions return and however long
`dac_test_loop` runs, the LED is blue at every look exactly when every check so far has passed, if
and only if it is not the case that `post` failed and every check of `extended_post` passed. -/
theorem ledHonest_iff (e : Outside) (n : ℕ) (pwrR pwrG pwrB : BitVec 8) :
    ((main n).run e.act (Watch.powerOn pwrR pwrG pwrB)).2.honest = true ↔
      ¬ (e.postPassed = false ∧ e.extendedPassed = true) := by
  have settled : ((Watch.powerOn pwrR pwrG pwrB).atLoop e).Settled := look_settled rfl
  rw [run_main, honest_dacTestLoop e n settled]
  cases post : e.postPassed <;> cases extended : e.extendedPassed <;>
    simp [Watch.atLoop, Watch.look, Watch.blue, Watch.coloured, Watch.powerOn, post, extended]

/-- The DAC does not answer `post` and answers everything afterwards. -/
def dacLate : Outside where
  txn
    | 1 => ⟨ENACK, some 0x80⟩
    | 2 => ⟨0xa011, none⟩
    | 5 => ⟨0x6e, none⟩
    | 7 => ⟨0x6e, none⟩
    | 9 => ⟨1, none⟩
    | _ => ⟨0, none⟩
  cycles _ _ := 0

/-- A failure of `post` is hidden by `extended_post`. -/
theorem ledHides_failed_post :
    ¬ ∀ (e : Outside) (n : ℕ) (pwrR pwrG pwrB : BitVec 8),
      ((main n).run e.act (Watch.powerOn pwrR pwrG pwrB)).2.honest = true := by
  intro honest
  have shown := honest dacLate 0 0 0 0
  revert shown
  decide

end Driver

end Rockling
