import Rockling.Driver.Calls

/-!
# The error codes of a transaction

`status_error_code` looks at `RxACK` before `ArbLost`, and the core clears neither by itself:
`ArbLost` stays until the next START, `RxACK` until the next acknowledge slot or arbitration loss.
Still the result of every transaction tells exactly what happened on the bus during it
(`error_codes`), also after any number of failed ones. The reason is that a lost arbitration clears
`RxACK`, and that the first byte of a transaction carries START, so after it `ArbLost` means a loss
in this transaction (`Going`).
-/

namespace Rockling

namespace Driver

open RTLI2C

/-! ## What is claimed -/

/-- The call receives two bytes and returns them. -/
def Txn.reads : Txn → Bool
  | .read .. => true
  | _ => false

/-- Clock `u` is in the call from `a` to `c` and has its last poll, which reads `status`. -/
structure LastPoll {β : Type} {v : BitVec 32} {jobs : ℕ → Prog ByteIface β} {r : Run}
    (d : DriverRun v jobs r) (a c u : ℕ) (status : CInt) : Prop where
  since : a ≤ u
  before : u < c
  poll : d.polls u = true
  tip : (r.st u).tip = false
  last : ∀ t, u < t → t < c → d.polls t = false
  reads : status = (r.st u).readCsr .status

/-- The result of the call `t`, made from clock `a` to clock `c`, is exact. -/
structure Exact {β : Type} {v : BitVec 32} {jobs : ℕ → Prog ByteIface β} {r : Run}
    (d : DriverRun v jobs r) (t : Txn) (a c : ℕ) (res : TxnResult) : Prop where
  arb : res.ret = EARB ↔ LossIn r a c
  nack : res.ret = ENACK ↔ ¬ LossIn r a c ∧ NackIn r a c
  unk : res.ret ≠ EUNK
  zero : t.reads = false → ¬ LossIn r a c → ¬ NackIn r a c → res.ret = 0
  value : t.reads = true → ¬ LossIn r a c → ¬ NackIn r a c →
    ∃ b0 b1 : BitVec 8, received r a (c - a) = lowBits 8 b0 ++ lowBits 8 b1 ∧
      res.ret.toInt = 256 * b0.toNat + b1.toNat
  stored : res.errStatus.isSome = (negative res.ret && t.errPtr)
  status : ∀ s, res.errStatus = some s → statusErrorCode s = res.ret ∧ ∃ u, LastPoll d a c u s

/-! ## A transaction on its way -/

/-- From clock `a` to clock `b` no arbitration was lost, no byte was answered with NACK, and the
bits `heard` were received. -/
structure Going (r : Run) (a b : ℕ) (heard : List Bool) : Prop where
  loss : ¬ LossIn r a b
  nack : ¬ NackIn r a b
  heard : received r a (b - a) = heard

theorem Going.start (r : Run) (a : ℕ) : Going r a a [] where
  loss := fun ⟨t, low, high, _⟩ => by omega
  nack := fun ⟨t, low, high, _⟩ => by omega
  heard := by rw [Nat.sub_self]; rfl

theorem Going.append {r : Run} {a b c : ℕ} {first second : List Bool} (low : a ≤ b) (high : b ≤ c)
    (h : Going r a b first) (h' : Going r b c second) : Going r a c (first ++ second) where
  loss := fun loss => ((Within.append low high).mp loss).elim h.loss h'.loss
  nack := fun nack => ((Within.append low high).mp nack).elim h.nack h'.nack
  heard := by rw [received_append low high, h.heard, h'.heard]

namespace DriverRun

variable {β : Type} {v : BitVec 32} {jobs : ℕ → Prog ByteIface β} {r : Run}

/-- Once a job is at a later stage of the list of jobs, it stays so. -/
theorem job_le (d : DriverRun v jobs r) {t n : ℕ} {g : Stage β} (cpu : d.cpu t = .job n g.prog)
    {u : ℕ}
    (later : t ≤ u) : ∃ m h, n ≤ m ∧ d.cpu u = .job m (Stage.prog h) := by
  induction u, later using Nat.le_induction with
  | base => exact ⟨n, g, le_rfl, cpu⟩
  | succ u later ih =>
    obtain ⟨m, h, le, here⟩ := ih
    have next := d.stage_next here
    split at next
    · split at next
      · exact ⟨m + 1, _, by omega, next⟩
      · exact ⟨m, _, le, next⟩
    · exact ⟨m, _, le, next⟩

/-- A job that has returned does nothing but wait for the next one. -/
theorem returned (d : DriverRun v jobs r) {b c n : ℕ} {x y : β}
    (cpu : d.cpu b = .job n (Stage.ready (.ret x)).prog) (cpu' : d.cpu c = .job n (.ret y))
    (le : b ≤ c) : y = x ∧ ∀ t, b ≤ t → t ≤ c → d.cpu t = d.cpu b := by
  have stays : ∀ t, b ≤ t → t ≤ c → d.cpu t = d.cpu b := by
    rcases d.acts b with ⟨z, later, acts, same, -⟩ | never
    · rcases Nat.lt_or_ge z c with before | after
      · have next := d.stage_next ((same z later le_rfl).trans cpu)
        rw [if_pos acts] at next
        obtain ⟨m, h, more, there⟩ := d.job_le next (u := c) before
        have := (Cpu.job.inj (there.symm.trans cpu')).1
        omega
      · exact fun t low high => same t low (by omega)
    · exact fun t low _ => (never t low).1
  have same := (cpu'.symm.trans (stays c le le_rfl)).trans cpu
  exact ⟨Prog.ret.inj (Cpu.job.inj same).2, stays⟩

section

variable {p t₀ : ℕ} {hold : ℕ → Bool} (d : DriverRun v jobs r) (run : EnabledRun p t₀ r)
  (boot : d.cpu t₀ = .init (.ret ())) (hp : 3 ≤ p) (scl : Stretching r hold)

include run boot hp scl

/-- While a job that has returned waits, nothing happens. -/
theorem going_of_returned {b c n : ℕ} {x y : β} (late : t₀ ≤ b)
    (cpu : d.cpu b = .job n (Stage.ready (.ret x)).prog) (cpu' : d.cpu c = .job n (.ret y))
    (le : b ≤ c) : Going r b c [] ∧ ∀ t, b ≤ t → t < c → d.polls t = false := by
  have stays := (d.returned cpu cpu' le).2
  have rest : ∀ t, b ≤ t → t ≤ c → (r.st t).InPhase .resting := fun t low high =>
    d.rest_of_ready run boot hp scl (by omega) ((stays t low high).trans cpu)
  have still := fun t (low : b ≤ t) (high : t ≤ c) =>
    d.still_of_rest run boot hp scl (by omega) (rest t low high)
  refine ⟨⟨?_, ?_, received_still fun t low high => (still t low (by omega)).2.2⟩,
    fun t low high => ?_⟩
  · rintro ⟨t, low, high, al⟩
    exact nomatch (still t low high.le).1.symm.trans al
  · rintro ⟨t, low, high, nack⟩
    simp only [nacked, (still t low high.le).2.1, Bool.false_and] at nack
    cases nack
  · rw [polls, stays t low high.le, cpu]
    exact Bool.and_false _

/-! ## One byte -/

section

variable {n a₀ a c : ℕ} {heard : List Bool} {x : β} (from' : a₀ ≤ a) (going : Going r a₀ a heard)
  (late : t₀ ≤ a) (ended : d.cpu c = .job n (.ret x)) (le : a ≤ c)

include from' going late ended le

omit run boot hp scl from' going late in
/-- A call in a job that returns is answered before it does. -/
theorem answered_of_returns {o : ByteOp} {k : ByteIface.Reply o → Prog ByteIface β}
    (cpu : d.cpu a = .job n (Stage.ready (.call o k)).prog) :
    ∃ b w u, b ≤ c ∧ d.Answered n o a b w u ∧
      d.cpu b = .job n (Stage.ready (k (replyAt (r.st u) (r.st (b - 1)) o))).prog := by
  have outside : ¬ d.InJob n c := by
    rintro ⟨g, busy, here⟩
    rw [Stage.isRet_of_prog (Cpu.job.inj (here.symm.trans ended)).2] at busy
    cases busy
  rcases d.answers cpu with ⟨b, w, u, answered, after⟩ | hangs
  · refine ⟨b, w, u, ?_, answered, after⟩
    by_contra early
    exact outside (answered.stays c le (by omega))
  · exact absurd (hangs.stays c le) outside

/-- A transmitted byte. -/
theorem transmits {tx flags : CInt} {k : CInt → Prog ByteIface β}
    (cpu : d.cpu a = .job n (Stage.ready (.call (.tx tx flags) k)).prog)
    (starts : (r.st a).arbLost = true → hasFlag flags START = true) :
    ∃ b u status, a < b ∧ b ≤ c ∧ LastPoll d a b u status ∧
      d.cpu b = .job n (Stage.ready (k status)).prog ∧
      ((LossIn r a₀ b ∧ rxAck status = false ∧ arbLost status = true) ∨
        (¬ LossIn r a₀ b ∧ NackIn r a₀ b ∧ rxAck status = true ∧ arbLost status = false) ∨
        (Going r a₀ b heard ∧ rxAck status = false ∧ arbLost status = false ∧
          (r.st b).arbLost = false)) := by
  obtain ⟨b, w, u, before, answered, after⟩ := d.answered_of_returns ended le cpu
  have rest := d.rest_of_ready run boot hp scl late cpu
  obtain ⟨⟨-, arb, -⟩, outcome⟩ := d.outcome run boot hp scl answered late rest
  obtain ⟨sta, -, rd, wr⟩ := txCommand_fields flags
  obtain ⟨rxack, arblost⟩ := status_bits (r.st u)
  rw [ByteOp.word, sta, rd, wr] at outcome
  have since := answered.since
  have later := answered.later
  have ends := answered.ended
  refine ⟨b, u, (r.st u).readCsr .status, by omega, before,
    ⟨by omega, ends, answered.poll, answered.tip, answered.last, rfl⟩, after, ?_⟩
  rw [rxack, arblost]
  rcases outcome with ⟨loss, ack, lost⟩ | ⟨noLoss, kept, nack, bits⟩
  · exact Or.inl ⟨(Within.append from' (by omega)).mpr (Or.inr loss), ack, lost⟩
  · have cleared : (r.st u).arbLost = false := by
      rw [kept]
      cases before : (r.st a).arbLost with
      | false => rfl
      | true => rw [starts before]; rfl
    have noLoss' : ¬ LossIn r a₀ b := fun loss =>
      ((Within.append from' (by omega)).mp loss).elim going.loss noLoss
    by_cases ack : (r.st u).byte.ackOut = true
    · refine Or.inr (Or.inl ⟨noLoss', ?_, ack, cleared⟩)
      exact (Within.append from' (by omega)).mpr (Or.inr (nack.mpr ⟨rfl, ack⟩))
    · refine Or.inr (Or.inr ⟨?_, eq_false_of_ne_true ack, cleared, arb.trans cleared⟩)
      have here : Going r a b [] := ⟨noLoss, fun nacked => ack (nack.mp nacked).2, bits⟩
      have := going.append from' (by omega) here
      rwa [List.append_nil] at this

/-- A received byte. -/
theorem receives {flags : CInt} {k : CInt × CInt → Prog ByteIface β}
    (cpu : d.cpu a = .job n (Stage.ready (.call (.rx flags) k)).prog)
    (kept : (r.st a).arbLost = false) :
    ∃ b u status, ∃ byte : BitVec 8, a < b ∧ b ≤ c ∧ LastPoll d a b u status ∧
      d.cpu b = .job n (Stage.ready (k (status, byte.setWidth 32))).prog ∧
      ((LossIn r a₀ b ∧ rxAck status = false ∧ arbLost status = true) ∨
        (Going r a₀ b (heard ++ lowBits 8 byte) ∧ arbLost status = false ∧
          (r.st b).arbLost = false)) := by
  obtain ⟨b, w, u, before, answered, after⟩ := d.answered_of_returns ended le cpu
  have rest := d.rest_of_ready run boot hp scl late cpu
  obtain ⟨⟨-, arb, sr⟩, outcome⟩ := d.outcome run boot hp scl answered late rest
  obtain ⟨sta, -, rd, wr⟩ := rxCommand_fields flags
  obtain ⟨rxack, arblost⟩ := status_bits (r.st u)
  rw [ByteOp.word, sta, rd, wr, kept] at outcome
  have since := answered.since
  have later := answered.later
  have ends := answered.ended
  rw [replyAt, RTLI2C.readCsr, sr] at after
  refine ⟨b, u, (r.st u).readCsr .status, (r.st u).byte.sr, by omega, before,
    ⟨by omega, ends, answered.poll, answered.tip, answered.last, rfl⟩, after, ?_⟩
  rw [rxack, arblost]
  rcases outcome with ⟨loss, ack, lost⟩ | ⟨noLoss, cleared, nack, bits⟩
  · exact Or.inl ⟨(Within.append from' (by omega)).mpr (Or.inr loss), ack, lost⟩
  · have here : Going r a b (lowBits 8 (r.st u).byte.sr) :=
      ⟨noLoss, fun nacked => Bool.false_ne_true (nack.mp nacked).1, bits⟩
    exact Or.inr ⟨going.append from' (by omega) here, cleared, arb.trans cleared⟩

end

end

/-! ## A transaction -/

section

variable {txns : ℕ → Txn} {p t₀ : ℕ} {hold : ℕ → Bool} (d : DriverRun v (fun n => (txns n).prog) r)
  (run : EnabledRun p t₀ r) (boot : d.cpu t₀ = .init (.ret ())) (hp : 3 ≤ p)
  (scl : Stretching r hold)
  {n a₀ c : ℕ} {res : TxnResult} (errPtr : Bool) (start : t₀ ≤ a₀)
  (ended : d.cpu c = .job n (.ret res))

/-- The call has failed, and its result says how. -/
structure Failed (d : DriverRun v (fun n => (txns n).prog) r) (errPtr : Bool) (a c : ℕ)
    (res : TxnResult) : Prop where
  result : ∃ u status, LastPoll d a c u status ∧ res = errorExit errPtr status ∧
    ((LossIn r a c ∧ rxAck status = false ∧ arbLost status = true) ∨
      (¬ LossIn r a c ∧ NackIn r a c ∧ rxAck status = true ∧ arbLost status = false))

include run boot hp scl start ended

/-- A byte that fails ends the transaction. -/
theorem fails {a b u : ℕ} {status : CInt} (from' : a₀ ≤ a) (after : a < b) (le : b ≤ c)
    (poll : LastPoll d a b u status)
    (cpu : d.cpu b = .job n (Stage.ready (.ret (errorExit errPtr status))).prog)
    (cause : (LossIn r a₀ b ∧ rxAck status = false ∧ arbLost status = true) ∨
      (¬ LossIn r a₀ b ∧ NackIn r a₀ b ∧ rxAck status = true ∧ arbLost status = false)) :
    Failed d errPtr a₀ c res := by
  obtain ⟨quiet, noPoll⟩ := d.going_of_returned run boot hp scl (by omega) cpu ended le
  have since := poll.since
  have before := poll.before
  refine ⟨u, status, ⟨by omega, by omega, poll.poll, poll.tip, fun t low high => ?_, poll.reads⟩,
    (d.returned cpu ended le).1, ?_⟩
  · rcases Nat.lt_or_ge t b with early | late
    · exact poll.last t low early
    · exact noPoll t late high
  · rcases cause with ⟨loss, ack, arb⟩ | ⟨noLoss, nack, ack, arb⟩
    · exact Or.inl ⟨(Within.append (by omega) le).mpr (Or.inl loss), ack, arb⟩
    · refine Or.inr ⟨fun loss => ?_, (Within.append (by omega) le).mpr (Or.inl nack), ack, arb⟩
      exact ((Within.append (by omega) le).mp loss).elim noLoss quiet.loss

/-- The bytes that a transaction transmits: one of them fails, or it goes on with `k`. -/
theorem transmits_all {k : Prog ByteIface TxnResult} {bytes : List (CInt × CInt)} {a : ℕ}
    (from' : a₀ ≤ a) (going : Going r a₀ a []) (le : a ≤ c)
    (cpu : d.cpu a = .job n (Stage.ready (txAll errPtr k bytes)).prog)
    (starts : (r.st a).arbLost = true → ∃ b bs, bytes = b :: bs ∧ hasFlag b.2 START = true) :
    Failed d errPtr a₀ c res ∨
      ∃ b, a ≤ b ∧ b ≤ c ∧ Going r a₀ b [] ∧ d.cpu b = .job n (Stage.ready k).prog ∧
        (r.st b).arbLost = false := by
  induction bytes generalizing a with
  | nil =>
    refine Or.inr ⟨a, le_rfl, le, going, cpu, eq_false_of_ne_true fun lost => ?_⟩
    obtain ⟨b, bs, none, -⟩ := starts lost
    cases none
  | cons byte bytes ih =>
    obtain ⟨b, u, status, after, before, poll, next, cause⟩ :=
      d.transmits run boot hp scl from' going (by omega) ended le cpu fun lost => by
        obtain ⟨b, bs, same, sta⟩ := starts lost
        rwa [(List.cons.inj same).1]
    have failing : rxAck status = true ∨ arbLost status = true → checkAck status = true := by
      rw [checkAck_eq, Bool.or_eq_true]
      exact id
    rcases cause with ⟨loss, ack, arb⟩ | ⟨noLoss, nack, ack, arb⟩ | ⟨going', ack, arb, kept⟩
    · rw [if_pos (failing (Or.inr arb))] at next
      exact Or.inl (d.fails run boot hp scl errPtr start ended from' after before poll next
        (Or.inl ⟨loss, ack, arb⟩))
    · rw [if_pos (failing (Or.inl ack))] at next
      exact Or.inl (d.fails run boot hp scl errPtr start ended from' after before poll next
        (Or.inr ⟨noLoss, nack, ack, arb⟩))
    · rw [if_neg (by rw [checkAck_eq, ack, arb]; exact Bool.false_ne_true)] at next
      rcases ih (by omega) going' before next (fun lost => by rw [kept] at lost; cases lost) with
        failed | ⟨b', later, rest⟩
      · exact Or.inl failed
      · exact Or.inr ⟨b', by omega, rest⟩

/-- The two receptions that end a read. -/
theorem receives_two {a : ℕ} (from' : a₀ ≤ a) (going : Going r a₀ a []) (le : a ≤ c)
    (cpu : d.cpu a = .job n (Stage.ready (rxTail errPtr)).prog) (kept : (r.st a).arbLost = false) :
    Failed d errPtr a₀ c res ∨
      ∃ b0 b1 : BitVec 8, Going r a₀ c (lowBits 8 b0 ++ lowBits 8 b1) ∧
        res = ⟨(b0.setWidth 32 <<< 8) + b1.setWidth 32, none⟩ := by
  obtain ⟨b, u, status, byte, after, before, poll, next, cause⟩ :=
    d.receives run boot hp scl from' going (by omega) ended le cpu kept
  rcases cause with ⟨loss, ack, arb⟩ | ⟨going', arb, kept'⟩
  · rw [if_pos (by rw [checkArb_eq, arb])] at next
    exact Or.inl (d.fails run boot hp scl errPtr start ended from' after before poll next
      (Or.inl ⟨loss, ack, arb⟩))
  · rw [if_neg (by rw [checkArb_eq, arb]; exact Bool.false_ne_true)] at next
    obtain ⟨b', u', status', byte', after', before', poll', next', cause'⟩ :=
      d.receives run boot hp scl (by omega) going' (by omega) ended before next kept'
    rcases cause' with ⟨loss, ack, arb⟩ | ⟨going'', arb, -⟩
    · rw [if_pos (by rw [checkArb_eq, arb])] at next'
      exact Or.inl (d.fails run boot hp scl errPtr start ended (by omega) after' before' poll' next'
        (Or.inl ⟨loss, ack, arb⟩))
    · rw [if_neg (by rw [checkArb_eq, arb]; exact Bool.false_ne_true)] at next'
      obtain ⟨quiet, -⟩ := d.going_of_returned run boot hp scl (by omega) next' ended before'
      refine Or.inr ⟨byte, byte', ?_, (d.returned next' ended before').1⟩
      have := going''.append (by omega) before' quiet
      rwa [List.append_nil, List.nil_append] at this

end

/-! ## The results -/

/-- A failed call has an exact result. -/
theorem Failed.exact {txns : ℕ → Txn} {d : DriverRun v (fun n => (txns n).prog) r} {t : Txn}
    {a c : ℕ} {res : TxnResult} (h : Failed d t.errPtr a c res) : Exact d t a c res := by
  obtain ⟨u, s, poll, rfl, cause⟩ := h.result
  have stored : (errorExit t.errPtr s).errStatus.isSome = t.errPtr := by
    rw [errorExit]
    cases t.errPtr <;> rfl
  have status : ∀ s', (errorExit t.errPtr s).errStatus = some s' →
      statusErrorCode s' = (errorExit t.errPtr s).ret ∧ ∃ u, LastPoll d a c u s' := by
    intro s' is
    have is : (if t.errPtr then some s else none) = some s' := is
    split at is
    · cases is
      exact ⟨rfl, u, poll⟩
    · cases is
  have ret : (errorExit t.errPtr s).ret =
    if rxAck s then ENACK else if arbLost s then EARB else EUNK :=
    rfl
  rcases cause with ⟨loss, ack, arb⟩ | ⟨noLoss, nack, ack, arb⟩
  · have ret : (errorExit t.errPtr s).ret = EARB := by rw [ret, ack, arb]; rfl
    rw [ret] at status
    refine ⟨?_, ?_, ?_, fun _ no => absurd loss no, fun _ no => absurd loss no, ?_, ?_⟩
    · exact iff_of_true ret loss
    · rw [ret]
      exact iff_of_false (by decide) fun both => both.1 loss
    · rw [ret]
      decide
    · rw [stored, ret]
      exact (Bool.true_and _).symm
    · rw [ret]
      exact status
  · have ret : (errorExit t.errPtr s).ret = ENACK := by rw [ret, ack]; rfl
    rw [ret] at status
    refine ⟨?_, ?_, ?_, fun _ _ no => absurd nack no, fun _ _ no => absurd nack no, ?_, ?_⟩
    · rw [ret]
      exact iff_of_false (by decide) noLoss
    · exact iff_of_true ret ⟨noLoss, nack⟩
    · rw [ret]
      decide
    · rw [stored, ret]
      exact (Bool.true_and _).symm
    · rw [ret]
      exact status

/-- The value of two bytes, the first one the more significant. -/
theorem toInt_two_bytes (b0 b1 : BitVec 8) :
    ((b0.setWidth 32 <<< 8) + b1.setWidth 32 : CInt).toInt = 256 * b0.toNat + b1.toNat := by
  have value : ((b0.setWidth 32 <<< 8) + b1.setWidth 32 : CInt).toNat =
    256 * b0.toNat + b1.toNat := by
    have := b0.isLt
    have := b1.isLt
    simp only [BitVec.toNat_add, BitVec.toNat_shiftLeft, BitVec.toNat_setWidth, Nat.shiftLeft_eq]
    omega
  have := b0.isLt
  have := b1.isLt
  rw [BitVec.toInt_eq_toNat_of_lt (by omega), value]
  push_cast
  rfl

/-- A call that went through has an exact result: it is not negative. -/
theorem exact_of_going {txns : ℕ → Txn} {d : DriverRun v (fun n => (txns n).prog) r} {t : Txn}
    {a c : ℕ} {ret : CInt} {heard : List Bool} (going : Going r a c heard) (nonneg : 0 ≤ ret.toInt)
    (zero : t.reads = false → ret = 0)
    (value : t.reads = true → ∃ b0 b1 : BitVec 8, heard = lowBits 8 b0 ++ lowBits 8 b1 ∧
      ret.toInt = 256 * b0.toNat + b1.toNat) :
    Exact d t a c ⟨ret, none⟩ := by
  have not : ∀ code : CInt, code.toInt < 0 → ret ≠ code := by
    rintro code negative rfl
    omega
  refine ⟨?_, ?_, not EUNK (by decide), fun other _ _ => zero other, fun reads _ _ => ?_, ?_,
    fun s none => nomatch none⟩
  · exact iff_of_false (not EARB (by decide)) going.loss
  · exact iff_of_false (not ENACK (by decide)) fun both => going.nack both.2
  · obtain ⟨b0, b1, bits, same⟩ := value reads
    exact ⟨b0, b1, going.heard.trans bits, same⟩
  · have positive : negative ret = false := by
      have zero : (0 : CInt).toInt = 0 := by decide
      rw [negative, BitVec.slt, zero]
      exact decide_eq_false (by omega)
    rw [positive]
    rfl

/-- **The error codes are exact.** In every run of transactions over the core after `i2c_init`,
whatever happens on the bus, each call returns `EARB` exactly when an arbitration loss was signalled
during it, `ENACK` exactly when none was and a byte it transmitted was answered with NACK, and
otherwise `0`, or the two received bytes if it is a read. The status is stored exactly when the
result is negative and the pointer non-null, and it is the one that caused the failure.

If nobody holds SCL low for ever and the CPU does not stop, every call is made and returns. -/
theorem error_codes (txns : ℕ → Txn) (d : DriverRun v (fun n => (txns n).prog) r) {hold : ℕ → Bool}
    (hp : 3 ≤ (v.setWidth 16).toNat) (scl : Stretching r hold) :
    (∀ n a c res, a ≤ c → d.cpu a = .job n ((txns n).prog.translate byteImpl) →
      d.cpu c = .job n (.ret res) → Exact d (txns n) a c res) ∧
    ((Recurs fun t => hold t = false) → (Recurs fun t => d.access t = true) →
      ∀ n, ∃ a c res, a ≤ c ∧ d.cpu a = .job n ((txns n).prog.translate byteImpl) ∧
        d.cpu c = .job n (.ret res)) := by
  rcases d.boots with never | ⟨t₀, run, boot, early⟩
  · refine ⟨fun n a c res _ cpu => ?_, fun _ fair => ?_⟩
    · have := never a
      rw [cpu] at this
      cases this
    · obtain ⟨t, booted⟩ := d.boots_of_fair fair
      rw [never t] at booted
      cases booted
  · refine ⟨fun n a c res le cpu ended => ?_, fun finite fair n => ?_⟩
    · have late : t₀ ≤ a := by
        by_contra before
        have := early a (by omega)
        rw [cpu] at this
        cases this
      have starts : (r.st a).arbLost = true →
          ∃ b bs, (txns n).bytes = b :: bs ∧ hasFlag b.2 START = true := by
        intro _
        have sta : hasFlag START START = true := by decide
        cases txns n <;> exact ⟨_, _, rfl, sta⟩
      rw [Txn.prog_eq] at cpu
      rcases d.transmits_all run boot hp scl (txns n).errPtr late ended le_rfl (.start r a) le cpu
        starts with failed | ⟨b, since, before, going, next, kept⟩
      · exact failed.exact
      · cases call : txns n with
        | read addr tx0 tx1 errPtr =>
          rw [call] at next
          rcases d.receives_two run boot hp scl errPtr late ended since going before next kept with
            failed | ⟨b0, b1, going', rfl⟩
          · exact Failed.exact (t := .read addr tx0 tx1 errPtr) failed
          · have value := toInt_two_bytes b0 b1
            exact exact_of_going going' (by omega) (fun other => nomatch other)
              fun _ => ⟨b0, b1, rfl, value⟩
        | write addr tx0 tx1 d0 d1 errPtr =>
          rw [call] at next
          obtain ⟨quiet, -⟩ := d.going_of_returned run boot hp scl (by omega) next ended before
          obtain rfl := (d.returned next ended before).1
          exact exact_of_going (going.append since before quiet) (by decide) (fun _ => rfl)
            fun reads => nomatch reads
        | generalCallReset =>
          rw [call] at next
          obtain ⟨quiet, -⟩ := d.going_of_returned run boot hp scl (by omega) next ended before
          obtain rfl := (d.returned next ended before).1
          exact exact_of_going (going.append since before quiet) (by decide) (fun _ => rfl)
            fun reads => nomatch reads
    · obtain ⟨a, cpu⟩ := d.begins run boot hp scl early finite fair n
      obtain ⟨c, res, le, ended⟩ := d.returns run boot hp scl early finite fair _ cpu
      exact ⟨a, c, res, le, cpu, ended⟩

/-- The DAC is written over and over, but has no address `0x60` on this bus. -/
def unanswered (_ : ℕ) : Txn := .write 0x60 0x40 (-1) 0x12 0x34 true

/-- Somebody pulls SDA low in the first address byte, and stretches SCL in the second one. -/
def contested : Others := timed (window 88 110) (window 30 50)

/-- The first call loses the arbitration, and the second one is answered with NACK once `ArbLost` is
clear. Both calls tell so, and store the status that they have seen. -/
theorem error_codes_contested :
    let d := contested.driver 3 fun n => (unanswered n).prog
    Exact d (unanswered 0) 5 57 ⟨EARB, some 0x61⟩ ∧
      Exact d (unanswered 1) 58 327 ⟨ENACK, some 0xc1⟩ := by
  intro d
  have scl : Stretching (contested.run 3 fun n => (unanswered n).prog) (window 88 110) :=
    timed_stretching (by decide) (by decide +kernel)
  have first : d.cpu 5 = .job 0 ((unanswered 0).prog.translate byteImpl) := rfl
  obtain ⟨lost, nacked⟩ : (d.cpu 57).returned = some (0, ⟨EARB, some 0x61⟩) ∧
      (d.cpu 327).returned = some (1, ⟨ENACK, some 0xc1⟩) := by decide +kernel
  have acts : d.access 57 = true := by decide +kernel
  have second : d.cpu 58 = .job 1 ((unanswered 1).prog.translate byteImpl) := by
    rw [d.next, acts, Cpu.of_returned lost]
    rfl
  obtain ⟨exact', -⟩ := error_codes unanswered d (by decide) scl
  exact ⟨exact' 0 5 57 _ (by decide) first (Cpu.of_returned lost),
    exact' 1 58 327 _ (by decide) second (Cpu.of_returned nacked)⟩

end DriverRun

end Driver

end Rockling
