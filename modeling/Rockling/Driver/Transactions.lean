import Rockling.Driver.Scene
import Rockling.Driver.Transcript
import Rockling.Rtl.SoleController
import Rockling.Rtl.Wires

/-!
# Transactions on the wires

The board has one controller on its bus. So in every run of the driver over the core no arbitration
is lost (`DriverRun.sole`), and all that its programs do can be read off SCL and the SDA output of
the core, and back (`conversation`). For the transactions this is a wire format: the frames of their
bytes up to the first one that is not acknowledged, or of all of them and of the two receptions of a
read, and their result is given by the levels of the SDA line in these frames
(`transactions_on_the_wires`). Where the peripherals have let go of SDA when the core makes START
and STOP, this is also what the two lines carry (`Carries`).
-/

namespace Rockling

open TwoWire (Symbol Reader)

namespace Driver

open RTLI2C

/-! ## The format -/

/-- The call that transmits a byte. -/
def txCall (b : CInt × CInt) : ByteOp := .tx b.1 b.2

/-- The calls of a transaction whose bytes are all acknowledged. -/
def Txn.calls (t : Txn) : List ByteOp :=
  t.bytes.map txCall ++ if t.reads then [.rx ACK, .rx (NACK ||| STOP)] else []

/-- The levels of SDA in the frame of a byte that is answered with `slot`. -/
def byteLevels (slot : Bool) (b : CInt × CInt) : List Bool := lowBits 8 (txCall b).byte ++ [slot]

/-- What a transaction returns when SDA had these levels in its frames: a byte is answered with a
high level, or none is, and a read gets two more bytes of which it acknowledges the first. -/
inductive Txn.Outcome (t : Txn) : List (List Bool) → CInt → Prop
  | nack (front : List (CInt × CInt)) (b : CInt × CInt) (rest : List (CInt × CInt))
      (sent : t.bytes = front ++ b :: rest) :
      Outcome t (front.map (byteLevels false) ++ [byteLevels true b]) ENACK
  | done (other : t.reads = false) : Outcome t (t.bytes.map (byteLevels false)) 0
  | read (reads : t.reads = true) (b0 b1 : BitVec 8) :
      Outcome t (t.bytes.map (byteLevels false) ++
          [lowBits 8 b0 ++ [false], lowBits 8 b1 ++ [true]])
        ((b0.setWidth 32 <<< 8) + b1.setWidth 32)

/-! ## Paths of a transaction -/

section

variable {errPtr free : Bool} {k : Prog ByteIface TxnResult} {bytes : List (CInt × CInt)}
  {log : List ((o : ByteOp) × ByteIface.Reply o)} {bits : List (List Bool)} {res : TxnResult}

/-- The levels in the frame of a byte say whether it is acknowledged. -/
theorem Tells.checkAck {b : CInt × CInt} {status : CInt} {levels : List Bool}
    (h : Tells (.tx b.1 b.2) status levels) : levels = byteLevels (Driver.checkAck status) b := by
  obtain ⟨arb, known⟩ := h
  rw [checkAck_eq, arb, Bool.or_false]
  exact known

/-- The bytes of a transaction: one of them is not acknowledged, or all are. -/
theorem path_txAll (path : (txAll errPtr k bytes).Path log res)
    (tells : List.Forall₂ (fun e b => Tells e.1 e.2 b) log bits) :
    (∃ front b rest, bytes = front ++ b :: rest ∧
        bits = front.map (byteLevels false) ++ [byteLevels true b] ∧
        log.map (·.1) = (front ++ [b]).map txCall ∧ res.ret = ENACK) ∨
      ∃ log' rest, bits = bytes.map (byteLevels false) ++ rest ∧
        log.map (·.1) = bytes.map txCall ++ log'.map (·.1) ∧ k.Path log' res ∧
        List.Forall₂ (fun e b => Tells e.1 e.2 b) log' rest := by
  induction bytes generalizing log bits with
  | nil => exact Or.inr ⟨log, bits, rfl, rfl, path, tells⟩
  | cons b bytes ih =>
    cases path with
    | @call _ _ status log _ rest =>
      cases tells with
      | @cons _ levels _ bits first tells =>
        have here := first.checkAck
        beta_reduce at rest here
        by_cases fails : checkAck status = true
        · rw [if_pos fails] at rest
          cases rest
          cases tells
          refine Or.inl ⟨[], b, bytes, rfl, ?_, rfl, ?_⟩
          · rw [here, fails]
            rfl
          · obtain ⟨arb, -⟩ := first
            rw [checkAck_eq, arb, Bool.or_false] at fails
            exact if_pos fails
        · rw [if_neg fails] at rest
          rw [eq_false_of_ne_true fails] at here
          rcases ih rest tells with ⟨front, c, others, rfl, rfl, calls, ret⟩ |
            ⟨log', others, rfl, calls, path, tells⟩
          · refine Or.inl ⟨b :: front, c, others, rfl, ?_, ?_, ret⟩
            · rw [here]
              rfl
            · rw [List.map_cons, calls]
              rfl
          · refine Or.inr ⟨log', others, ?_, ?_, path, tells⟩
            · rw [here]
              rfl
            · rw [List.map_cons, calls]
              rfl

/-- The two receptions of a read. -/
theorem path_rxTail (path : (rxTail errPtr).Path log res)
    (tells : List.Forall₂ (fun e b => Tells e.1 e.2 b) log bits) :
    log.map (·.1) = [ByteOp.rx ACK, .rx (NACK ||| STOP)] ∧ ∃ b0 b1 : BitVec 8,
      bits = [lowBits 8 b0 ++ [false], lowBits 8 b1 ++ [true]] ∧
        res.ret = (b0.setWidth 32 <<< 8) + b1.setWidth 32 := by
  have ack : hasFlag ACK NACK = false := by decide
  have nack : hasFlag (NACK ||| STOP) NACK = true := by decide
  cases path with
  | @call _ _ reply0 log _ rest =>
    cases tells with
    | @cons _ _ _ _ first tells =>
      obtain ⟨arb0, b0, byte0, rfl⟩ := first
      beta_reduce at rest
      rw [if_neg (by rw [checkArb_eq, arb0]; exact Bool.false_ne_true)] at rest
      cases rest with
      | @call _ _ reply1 log _ rest =>
        cases tells with
        | @cons _ _ _ _ second tells =>
          obtain ⟨arb1, b1, byte1, rfl⟩ := second
          beta_reduce at rest
          rw [if_neg (by rw [checkArb_eq, arb1]; exact Bool.false_ne_true)] at rest
          cases rest
          cases tells
          refine ⟨rfl, b0, b1, by rw [ack, nack], ?_⟩
          rw [byte0, byte1]

/-- **The result of a transaction is given by the levels of SDA** in the frames of its calls. -/
theorem Txn.outcome {t : Txn} (path : t.prog.Path log res)
    (tells : List.Forall₂ (fun e b => Tells e.1 e.2 b) log bits) :
    log.map (·.1) = t.calls.take bits.length ∧ t.Outcome bits res.ret := by
  rw [Txn.prog_eq] at path
  rcases path_txAll path tells with ⟨front, b, rest, sent, rfl, calls, ret⟩ |
    ⟨log', rest, rfl, calls, path', tells'⟩
  · rw [calls, ret]
    refine ⟨?_, .nack front b rest sent⟩
    simp [Txn.calls, sent, List.take_append, List.take_of_length_le]
  · have other : t.reads = false → t.finish = .ret ⟨0, none⟩ → log.map (·.1) =
        t.calls.take (t.bytes.map (byteLevels false) ++ rest).length ∧
          t.Outcome (t.bytes.map (byteLevels false) ++ rest) res.ret := by
      intro other finish
      rw [finish] at path'
      cases path'
      cases tells'
      rw [calls, Txn.calls, other, List.append_nil]
      exact ⟨by simp [List.take_of_length_le], .done other⟩
    cases t with
    | read addr tx0 tx1 errPtr =>
      obtain ⟨both, b0, b1, rfl, ret⟩ := path_rxTail path' tells'
      rw [calls, both, ret, Txn.calls, Txn.reads, if_pos rfl]
      refine ⟨(List.take_of_length_le ?_).symm, .read rfl b0 b1⟩
      simp
    | write addr tx0 tx1 d0 d1 errPtr => exact other rfl rfl
    | generalCallReset => exact other rfl rfl

/-! ## Transactions begin with START -/

/-- A byte that begins with START on a free bus. -/
theorem chained_cons {b : CInt × CInt} (sta : free = true → hasFlag b.2 START = true)
    (rest : Chained (hasFlag b.2 STOP) (txAll errPtr k bytes)) :
    Chained free (txAll errPtr k (b :: bytes)) := by
  obtain ⟨start, stop, -, -⟩ := txCommand_fields b.2
  refine ⟨fun bus => start.trans (sta bus), fun status : CInt => ?_⟩
  beta_reduce
  split
  · exact trivial
  · rw [ByteOp.word, stop]
    exact rest

/-- A byte on a bus that the controller owns. -/
theorem chained_owned {b : CInt × CInt}
    (rest : Chained (hasFlag b.2 STOP) (txAll errPtr k bytes)) :
    Chained false (txAll errPtr k (b :: bytes)) :=
  chained_cons (absurd · Bool.false_ne_true) rest

/-- A read goes on owning the bus until its last reception. -/
theorem chained_rxTail : Chained false (rxTail errPtr) := by
  have stop : (rxCommand ACK).getLsbD 6 = false := by decide
  refine ⟨(absurd · Bool.false_ne_true), fun reply0 : CInt × CInt => ?_⟩
  beta_reduce
  split
  · exact trivial
  · refine ⟨fun bus => ?_, fun reply1 : CInt × CInt => ?_⟩
    · rw [ByteOp.word, stop] at bus
      cases bus
    · beta_reduce
      split <;> exact trivial

theorem chained_optByte {tx1 : CInt} (rest : Chained false (txAll errPtr k bytes)) :
    Chained false (txAll errPtr k (optByte tx1 ++ bytes)) := by
  have none : hasFlag 0 STOP = false := by decide
  rw [optByte]
  split
  · exact chained_owned (none ▸ rest)
  · exact rest

/-- Every transaction begins with START, and so does every one after it. -/
theorem Txn.chained (t : Txn) : Chained true t.prog := by
  have sta : hasFlag START START = true := by decide
  have start : hasFlag START STOP = false := by decide
  have none : hasFlag 0 STOP = false := by decide
  rw [Txn.prog_eq]
  cases t with
  | read addr tx0 tx1 errPtr =>
    refine chained_cons (fun _ => sta) (start ▸ chained_owned (none ▸ ?_))
    exact chained_optByte (chained_owned (start ▸ chained_rxTail))
  | write addr tx0 tx1 d0 d1 errPtr =>
    refine chained_cons (fun _ => sta) (start ▸ chained_owned (none ▸ ?_))
    exact chained_optByte (chained_owned (none ▸ chained_owned trivial))
  | generalCallReset =>
    exact chained_cons (fun _ => sta) (start ▸ chained_owned trivial)

end

/-! ## Runs -/

namespace DriverRun

variable {β : Type} {v : BitVec 32} {jobs : ℕ → Prog ByteIface β} {r : Run}
  {hold pull : ℕ → Bool}

/-- The driver is the only controller on its bus. -/
theorem sole (d : DriverRun v jobs r) {p t₀ : ℕ} (run : EnabledRun p t₀ r)
    (boot : d.cpu t₀ = .init (.ret ())) (hp : 3 ≤ p) (scl : Stretching r hold)
    (bus : Peripherals p r pull) (chained : ∀ n, Chained true (jobs n)) :
    SoleRun p t₀ hold pull r :=
  ⟨run, scl, bus, fun _ _ late hw => d.commands run boot hp scl chained late hw⟩

/-- A job begins once the core is enabled. -/
theorem late_of_job (d : DriverRun v jobs r) {t₀ n a : ℕ} {rest : Prog RegIface β}
    (early : ∀ t < t₀, (d.cpu t).booted = false) (cpu : d.cpu a = .job n rest) : t₀ ≤ a := by
  by_contra before
  have booted := early a (by omega)
  rw [cpu] at booted
  cases booted

/-- If `i2c_init` never comes to its end, the core does nothing. -/
theorem dormant_of_never (d : DriverRun v jobs r) (never : ∀ t, (d.cpu t).booted = false) (t : ℕ) :
    (r.st t).Dormant := by
  obtain ⟨dout, start⟩ := d.powerOn
  have dormant : (r.st 0).Dormant := start ▸ powerOn_dormant dout
  refine dormant.forever (fun u _ => ?_) t (Nat.zero_le t)
  obtain ⟨-, -, -, -, quiet⟩ := d.of_not_booted (never u)
  rw [In.asks, quiet _ (Or.inr rfl)]

/-- No arbitration is lost. -/
theorem noAl_of_sole (d : DriverRun v jobs r) (hp : 10 ≤ (v.setWidth 16).toNat)
    (scl : Stretching r hold) (bus : Peripherals (v.setWidth 16).toNat r pull)
    (chained : ∀ n, Chained true (jobs n)) (t : ℕ) : (r.st t).al = false := by
  rcases d.boots with never | ⟨t₀, run, boot, -⟩
  · exact (d.dormant_of_never never t).al
  · exact (d.sole run boot (by omega) scl bus chained).noAl hp t

/-- Every job is done and returns. -/
theorem done_of_fair (d : DriverRun v jobs r) (hp : 3 ≤ (v.setWidth 16).toNat)
    (scl : Stretching r hold) (finite : Recurs fun t => hold t = false)
    (fair : Recurs fun t => d.access t = true) (n : ℕ) :
    ∃ a c x, a ≤ c ∧ d.cpu a = .job n ((jobs n).translate byteImpl) ∧
      d.cpu c = .job n (.ret x) := by
  rcases d.boots with never | ⟨t₀, run, boot, early⟩
  · obtain ⟨t, booted⟩ := d.boots_of_fair fair
    rw [never t] at booted
    cases booted
  · obtain ⟨a, cpu⟩ := d.begins run boot hp scl early finite fair n
    obtain ⟨c, x, le, ended⟩ := d.returns run boot hp scl early finite fair _ cpu
    exact ⟨a, c, x, le, cpu, ended⟩

/-- No glitch is part of a frame. -/
theorem glitch_notMem_frames (log : List ((o : ByteOp) × ByteIface.Reply o)) :
    Symbol.glitch ∉ log.flatMap fun e => e.1.frame := by
  intro inside
  obtain ⟨e, -, here⟩ := List.mem_flatMap.mp inside
  exact glitch_notMem_wordFrame _ _ here

/-- What is seen while a job is done. -/
theorem job_seen (d : DriverRun v jobs r) (hp : 10 ≤ (v.setWidth 16).toNat)
    (scl : Stretching r hold) (bus : Peripherals (v.setWidth 16).toNat r pull)
    (chained : ∀ n, Chained true (jobs n)) {n a c : ℕ} {x : β} (le : a ≤ c)
    (cpu : d.cpu a = .job n ((jobs n).translate byteImpl)) (ended : d.cpu c = .job n (.ret x)) :
    ∃ log, (jobs n).Path log x ∧
      (Reader.listen (wave r) a (c - a)).out = log.flatMap (fun e => e.1.frame) ∧
      ∃ bits, heard r a (c - a) = bits.flatten ∧
        List.Forall₂ (fun e b => Tells e.1 e.2 b) log bits ∧
        ((∀ t, Moves r t → pull t = false) →
          Carries r a (c - a) (log.flatMap fun e => e.1.frame) bits.flatten) := by
  have noAl := d.noAl_of_sole hp scl bus chained
  rcases d.boots with never | ⟨t₀, run, boot, early⟩
  · have booted := never a
    rw [cpu] at booted
    cases booted
  · obtain ⟨log, path, out, bits, caught, tells⟩ := d.job_told run boot (by omega) scl noAl bus
      chained (d.late_of_job early cpu) le cpu ended
    refine ⟨log, path, out, bits, caught, tells, fun free => ?_⟩
    rw [← caught]
    exact bus.answering.carries free out (glitch_notMem_frames log)

/-- **The driver on the bus.** In front of a core that is the only controller on its bus, whatever
the peripherals do, no arbitration is lost, and each job of chained programs that returns has gone
through one of the paths of its program: a listener on SCL and the SDA output of the core reads the
frames of the calls on that path meanwhile, in their order and nothing else, and the reply to each
call says what was on the SDA line in its frame. If the peripherals have let go of SDA where the
core makes START and STOP, the two lines carry these frames, too. If nobody holds SCL low for ever
and the CPU does not stop, every job is done and returns. -/
theorem conversation (d : DriverRun v jobs r) (hp : 10 ≤ (v.setWidth 16).toNat)
    (scl : Stretching r hold) (bus : Peripherals (v.setWidth 16).toNat r pull)
    (chained : ∀ n, Chained true (jobs n)) :
    (∀ t, (r.st t).al = false) ∧
    (∀ n a c x, a ≤ c → d.cpu a = .job n ((jobs n).translate byteImpl) →
      d.cpu c = .job n (.ret x) →
      ∃ log, (jobs n).Path log x ∧
        (Reader.listen (wave r) a (c - a)).out = log.flatMap (fun e => e.1.frame) ∧
        ∃ bits, heard r a (c - a) = bits.flatten ∧
          List.Forall₂ (fun e b => Tells e.1 e.2 b) log bits ∧
          ((∀ t, Moves r t → pull t = false) →
            Carries r a (c - a) (log.flatMap fun e => e.1.frame) bits.flatten)) ∧
    ((Recurs fun t => hold t = false) → (Recurs fun t => d.access t = true) →
      ∀ n, ∃ a c x, a ≤ c ∧ d.cpu a = .job n ((jobs n).translate byteImpl) ∧
        d.cpu c = .job n (.ret x)) :=
  ⟨d.noAl_of_sole hp scl bus chained,
    fun _ _ _ _ le cpu ended => d.job_seen hp scl bus chained le cpu ended,
    fun finite fair => d.done_of_fair (by omega) scl finite fair⟩

/-- A peripheral stretches SCL in the first bit and acknowledges the first byte. -/
def answering : Others := timed (window 100 130) (window 606 670)

/-- SCL is low when it takes SDA and lets go of it, and as long as it holds SDA the controller
writes nothing and keeps its own output while SCL is high. -/
def answersWell {β : Type} (jobs : ℕ → Prog ByteIface β) (t : ℕ) (x : Scene β) : Bool :=
  ((window 606 612 t || window 670 676 t) → (answering.inputs t x).scl = false) &&
    (window 606 670 t →
      (x.core.byte.bit.cState.slot = true → x.core.byte.bit.cState.cmd ≠ .write) ∧
      ((answering.inputs t x).scl = true → x.core.sdaOen = (answering.step jobs t x).core.sdaOen))

section

variable {β : Type} {jobs : ℕ → Prog ByteIface β}
  (checked : answering.checks jobs (answersWell jobs) 70 606 (answering.scene 10 jobs 606) = true)

include checked

theorem answering_held {t : ℕ} (held : window 606 670 t = true) :
    ((bitAt (answering.run 10 jobs) t).cState.slot = true →
      (bitAt (answering.run 10 jobs) t).cState.cmd ≠ .write) ∧
    (sclLine (answering.run 10 jobs) t = true →
      ((answering.run 10 jobs).st t).sdaOen = ((answering.run 10 jobs).st (t + 1)).sdaOen) := by
  obtain ⟨from', until'⟩ := window_iff.mp held
  have here := answering.of_checks 10 jobs checked from' (by omega)
  exact of_decide_eq_true (Bool.and_eq_true_iff.mp here).2 held

theorem answering_peripherals :
    Peripherals 10 (answering.run 10 jobs) (window 606 670) where
  line _ := rfl
  setup := by
    intro t moved n soon
    have few : n ≤ 5 := soon
    have edge : t + 1 = 606 ∨ t + 1 = 670 := by
      by_contra other
      exact moved (congrArg₂ and (decide_eq_decide.mpr (by omega))
        (decide_eq_decide.mpr (by omega)))
    have here := answering.of_checks 10 jobs checked (t := t + 1 + n) (by omega) (by omega)
    obtain ⟨low, -⟩ := Bool.and_eq_true_iff.mp here
    have near : (window 606 612 (t + 1 + n) || window 670 676 (t + 1 + n)) = true := by
      rw [Bool.or_eq_true, window_iff, window_iff]
      omega
    exact of_decide_eq_true low near
  yields := by
    intro t _ slot write
    exact eq_false_of_ne_true fun held => (answering_held checked held).1 slot write

/-- It has let go of SDA where the core makes START and STOP. -/
theorem answering_free (t : ℕ) (moves : Moves (answering.run 10 jobs) t) :
    window 606 670 t = false :=
  eq_false_of_ne_true fun held => moves.2.2 ((answering_held checked held).2 moves.1)

end

/-- The byte `0x35` with START and STOP: the listener reads the frame with the acknowledge slot
released, and SDA is low in it. -/
theorem conversation_answered :
    let r := answering.run 10 fun _ => tx 0x35 (START ||| STOP)
    let frame : List Symbol := [.start, .bit false, .bit false, .bit true, .bit true, .bit false,
      .bit true, .bit false, .bit true, .bit true, .stop]
    let levels := [false, false, true, true, false, true, false, true, false]
    (Reader.listen (wave r) 5 726).out = frame ∧ heard r 5 726 = levels ∧
      Carries r 5 726 frame levels := by
  intro r frame levels
  have chained : ℕ → Chained true (tx 0x35 (START ||| STOP)) :=
    fun _ => ⟨fun _ => by decide, fun _ => trivial⟩
  have scl : Stretching r (window 100 130) := timed_stretching (by decide) (by decide +kernel)
  have checked : answering.checks (fun _ => tx 0x35 (START ||| STOP))
      (answersWell fun _ => tx 0x35 (START ||| STOP)) 70 606
      (answering.scene 10 (fun _ => tx 0x35 (START ||| STOP)) 606) = true := by decide +kernel
  have bus : Peripherals 10 r (window 606 670) := answering_peripherals checked
  let d := answering.driver 10 fun _ => tx 0x35 (START ||| STOP)
  have returned : (d.cpu 731).returned = some (0, 0x41) := by decide +kernel
  obtain ⟨-, seen, -⟩ := conversation d (by decide) scl bus chained
  obtain ⟨log, path, out, bits, caught, tells, carried⟩ :=
    seen 0 5 731 0x41 (by decide) rfl (Cpu.of_returned returned)
  have shown : (ByteOp.tx 0x35 (START ||| STOP)).frame = frame := by decide
  cases path with
  | call rest =>
    cases rest
    cases tells with
    | cons told none =>
      cases none
      rw [List.flatMap_singleton, List.flatten_singleton, told.2] at carried
      rw [List.flatMap_singleton] at out
      rw [List.flatten_singleton, told.2] at caught
      have answer : lowBits 8 (ByteOp.tx 0x35 (START ||| STOP)).byte ++ [rxAck 0x41] =
        levels := by decide
      refine ⟨out.trans shown, caught.trans answer, ?_⟩
      rw [← shown, ← answer]
      exact carried (answering_free checked)

/-- **Transactions on the wires.** In every run of transactions over a core that is the only
controller on its bus, a listener on SCL and the SDA output of the core reads, while one is made,
the frames of its calls up to the first byte that is not acknowledged, or of all of them, and
nothing else, and its result is the one that the levels of the SDA line in these frames call for. If
the peripherals have let go of SDA where the core makes START and STOP, the two lines carry these
frames, too. If nobody holds SCL low for ever and the CPU does not stop, every transaction is made
and returns. -/
theorem transactions_on_the_wires (txns : ℕ → Txn) (d : DriverRun v (fun n => (txns n).prog) r)
    (hp : 10 ≤ (v.setWidth 16).toNat) (scl : Stretching r hold)
    (bus : Peripherals (v.setWidth 16).toNat r pull) :
    (∀ n a c res, a ≤ c → d.cpu a = .job n ((txns n).prog.translate byteImpl) →
      d.cpu c = .job n (.ret res) →
      ∃ bits : List (List Bool), heard r a (c - a) = bits.flatten ∧
        (Reader.listen (wave r) a (c - a)).out =
          ((txns n).calls.take bits.length).flatMap ByteOp.frame ∧
        (txns n).Outcome bits res.ret ∧
        ((∀ t, Moves r t → pull t = false) → Carries r a (c - a)
          (((txns n).calls.take bits.length).flatMap ByteOp.frame) bits.flatten)) ∧
    ((Recurs fun t => hold t = false) → (Recurs fun t => d.access t = true) →
      ∀ n, ∃ a c res, a ≤ c ∧ d.cpu a = .job n ((txns n).prog.translate byteImpl) ∧
        d.cpu c = .job n (.ret res)) := by
  refine ⟨fun n a c res le cpu ended => ?_,
    fun finite fair => d.done_of_fair (by omega) scl finite fair⟩
  obtain ⟨log, path, out, bits, caught, tells, carried⟩ :=
    d.job_seen hp scl bus (fun n => (txns n).chained) le cpu ended
  obtain ⟨calls, outcome⟩ := Txn.outcome path tells
  have frames : (log.flatMap fun e => e.1.frame) =
      ((txns n).calls.take bits.length).flatMap ByteOp.frame := by rw [← calls, List.flatMap_map]
  rw [frames] at out carried
  exact ⟨bits, caught, out, outcome, carried⟩

/-- The first call returns in clock `c`, and none before. -/
def returnsIn (c : ℕ) (res : TxnResult) (t : ℕ) (x : Scene TxnResult) : Bool :=
  x.cpu.returned = if t = c then some (0, res) else none

theorem returned_of_returnsIn {c : ℕ} {res : TxnResult} {x : Scene TxnResult}
    (returns : returnsIn c res c x = true) : x.cpu.returned = some (0, res) :=
  (of_decide_eq_true returns).trans (if_pos rfl)

/-- A general call reset whose address is acknowledged and whose second byte is not. -/
theorem transactions_on_the_wires_answered :
    let r := answering.run 10 fun _ => Txn.generalCallReset.prog
    (r.inp 669).write .command = some 0x50 ∧
      ∃ bits, heard r 5 1293 = bits.flatten ∧
        (Reader.listen (wave r) 5 1293).out =
          (Txn.generalCallReset.calls.take bits.length).flatMap ByteOp.frame ∧
        Txn.generalCallReset.Outcome bits ENACK ∧
        Carries r 5 1293 ((Txn.generalCallReset.calls.take bits.length).flatMap ByteOp.frame)
          bits.flatten := by
  intro r
  have scl : Stretching r (window 100 130) := timed_stretching (by decide) (by decide +kernel)
  let jobs (_ : ℕ) := Txn.generalCallReset.prog
  have answers : answering.checks jobs (answersWell jobs) 70 606
      (answering.scene 10 jobs 606) = true := by decide +kernel
  have bus : Peripherals 10 r (window 606 670) := answering_peripherals answers
  let d := answering.driver 10 jobs
  have second : (r.inp 669).write .command = some 0x50 := by decide +kernel
  -- looking at every clock keeps the evaluation flat
  have checked : answering.checks jobs (returnsIn 1298 ⟨ENACK, none⟩) 1299 0
      (answering.scene 10 jobs 0) = true := by decide +kernel
  have returned : (d.cpu 1298).returned = some (0, ⟨ENACK, none⟩) := by
    rw [answering.driver_cpu 10 jobs]
    exact returned_of_returnsIn (answering.of_checks 10 _ checked (Nat.zero_le 1298) (by decide))
  obtain ⟨seen, -⟩ :=
    transactions_on_the_wires (fun _ => .generalCallReset) d (by decide) scl bus
  obtain ⟨bits, caught, out, outcome, carried⟩ :=
    seen 0 5 1298 _ (by decide) rfl (Cpu.of_returned returned)
  exact ⟨second, bits, caught, out, outcome, carried (answering_free answers)⟩

end DriverRun

end Driver

end Rockling
