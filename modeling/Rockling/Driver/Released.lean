import Rockling.Driver.BusRelease
import Rockling.Driver.ErrorCodes
import Rockling.Rtl.Release

/-!
# The bus after a transaction, on the lines

`CoreSide` tells from the commands and the replies alone whether the core drives the bus. In front
of the core itself it is right: in every run of transactions, whatever happens on the bus, SCL and
SDA are released when a transaction has returned exactly if `CoreSide` tells so from the replies
that it got (`DriverRun.leaves_as_told`).

The reason is that a program that gives up after a lost arbitration, or goes on with START, never
looks at an `ArbLost` of an earlier command (`Yields`).
-/

namespace Rockling

namespace Driver

open RTLI2C

/-! ## Programs that give way -/

/-- The status in the reply to a call. -/
def ByteOp.status : (o : ByteOp) → ByteIface.Reply o → CInt
  | .tx _ _, status => status
  | .rx _, reply => reply.1

/-- A program that goes on with START, if at all, after an arbitration was `lost`. -/
def Yields {β : Type} : Bool → Prog ByteIface β → Prop
  | _, .ret _ => True
  | lost, .call o k => (lost = true → o.word.getLsbD 7 = true) ∧
      ∀ reply, Yields (arbLost (o.status reply)) (k reply)

/-- Bytes that are sent one after the other, the first one with START. -/
theorem yields_txAll (errPtr : Bool) {k : Prog ByteIface TxnResult} (rest : Yields false k)
    {bytes : List (CInt × CInt)} {lost : Bool}
    (starts : lost = true → ∃ b bs, bytes = b :: bs ∧ hasFlag b.2 START = true) :
    Yields lost (txAll errPtr k bytes) := by
  induction bytes generalizing lost with
  | nil =>
    cases lost with
    | false => exact rest
    | true =>
      obtain ⟨b, bs, none, -⟩ := starts rfl
      cases none
  | cons byte bytes ih =>
    refine ⟨fun isLost => ?_, fun status => ?_⟩
    · obtain ⟨b, bs, same, sta⟩ := starts isLost
      rw [ByteOp.word, (txCommand_fields byte.2).1, (List.cons.inj same).1, sta]
    · change Yields (arbLost status) (if checkAck status = true then _ else _)
      rw [checkAck_eq]
      cases arb : arbLost status with
      | true =>
        rw [Bool.or_true, if_pos rfl]
        exact trivial
      | false =>
        split_ifs
        · exact trivial
        · exact ih fun isLost => absurd isLost Bool.false_ne_true

/-- The two receptions of a read. -/
theorem yields_rxTail (errPtr : Bool) : Yields false (rxTail errPtr) := by
  refine ⟨fun isLost => absurd isLost Bool.false_ne_true, fun reply => ?_⟩
  change Yields (arbLost reply.1) (if checkArb reply.1 = true then _ else _)
  rw [checkArb_eq]
  cases arb : arbLost reply.1 with
  | true =>
    rw [if_pos rfl]
    exact trivial
  | false =>
    rw [if_neg Bool.false_ne_true]
    refine ⟨fun isLost => absurd isLost Bool.false_ne_true, fun reply' => ?_⟩
    change Yields (arbLost reply'.1) (if checkArb reply'.1 = true then _ else _)
    split_ifs <;> exact trivial

/-- Every transaction gives way. -/
theorem Txn.yields (t : Txn) (lost : Bool) : Yields lost t.prog := by
  have sta : hasFlag START START = true := by decide
  have done : Yields false (Prog.ret ⟨0, none⟩ : Prog ByteIface TxnResult) := trivial
  rw [Txn.prog_eq]
  cases t with
  | read addr tx0 tx1 errPtr =>
    exact yields_txAll errPtr (yields_rxTail errPtr) fun _ => ⟨_, _, rfl, sta⟩
  | write addr tx0 tx1 d0 d1 errPtr =>
    exact yields_txAll errPtr done fun _ => ⟨_, _, rfl, sta⟩
  | generalCallReset => exact yields_txAll false done fun _ => ⟨_, _, rfl, sta⟩

/-! ## The replies of a run -/

/-- What a program does depends only on the replies to its own commands. -/
theorem run_reply_congr {β : Type} (q : Prog ByteIface β) {resp resp' : ℕ → Response}
    (s : CoreSide) (same : ∀ k, s.issued ≤ k → resp k = resp' k) :
    q.run (CoreSide.reply resp) s = q.run (CoreSide.reply resp') s := by
  induction q generalizing s with
  | ret x => rfl
  | call o k ih =>
    have here : CoreSide.reply resp o s = CoreSide.reply resp' o s := by
      cases o <;> simp only [CoreSide.reply, same s.issued le_rfl]
    rw [Prog.run_call, Prog.run_call, here]
    refine ih _ _ fun j later => same j ?_
    have more : (CoreSide.reply resp' o s).2.issued = s.issued + 1 := by cases o <;> rfl
    omega

namespace DriverRun

variable {β : Type} {v : BitVec 32} {jobs : ℕ → Prog ByteIface β} {r : Run}

section

variable {p t₀ : ℕ} {hold : ℕ → Bool} (d : DriverRun v jobs r) (run : EnabledRun p t₀ r)
  (boot : d.cpu t₀ = .init (.ret ())) (hp : 3 ≤ p) (scl : Stretching r hold)

include run boot hp scl

/-- After a call the core drives the bus as its command and its reply say. -/
theorem leaves_answered {n a b w u : ℕ} {o : ByteOp} (h : d.Answered n o a b w u) (late : t₀ ≤ a)
    (rest : (r.st a).InPhase .resting)
    (starts : (r.st a).arbLost = true → o.word.getLsbD 7 = true) (s : CoreSide) (rxr : CInt) :
    (r.st b).Leaves (!(s.after o.word ⟨(r.st u).readCsr .status, rxr⟩).driving) := by
  have since := h.since
  have later := h.later
  have ends := h.ended
  obtain ⟨⟨restB, arbB, -⟩, -⟩ := d.outcome run boot hp scl h late rest
  have arbW : (r.st w).arbLost = (r.st a).arbLost :=
    (d.rests_until run boot hp scl late rest since
      fun y low high => h.only y low (by omega) (by omega)).2.2.2
  have left := run.leaves hp scl (d.polite run boot hp scl) (show t₀ ≤ w by omega) h.write
    (show w < b by omega) (fun x low high => h.only x (by omega) high (by omega))
    ⟨restB.1, restB.2.1, restB.2.2.1⟩
  rw [CoreSide.after, (status_bits (r.st u)).2, ← arbB]
  rcases left with ⟨arb, lines⟩ | ⟨arb, lines⟩
  · have clear : (r.st b).arbLost = false := by
      rw [arb, arbW]
      cases before : (r.st a).arbLost with
      | false => rfl
      | true => rw [starts before]; rfl
    rw [clear, Bool.not_false, Bool.true_and, Bool.not_not]
    exact lines
  · rw [arb]
    exact lines

/-- A job that gives way leaves the lines as `CoreSide` tells from the replies it got. -/
theorem leaves_of_job {n c : ℕ} {x : β} (ended : d.cpu c = .job n (.ret x)) (q : Prog ByteIface β)
    {a : ℕ} (late : t₀ ≤ a) (le : a ≤ c) (cpu : d.cpu a = .job n (Stage.ready q).prog)
    (yields : Yields (r.st a).arbLost q) (s : CoreSide)
    (lines : ∀ y, q = .ret y → (r.st a).Leaves (!s.driving)) :
    ∃ resp : ℕ → Response,
      (∀ k, s.issued ≤ k → k < (q.run (CoreSide.reply resp) s).2.issued →
        ∃ u, a ≤ u ∧ u < c ∧ d.polls u = true ∧ (r.st u).tip = false ∧
          (resp k).status = (r.st u).readCsr .status) ∧
      (q.run (CoreSide.reply resp) s).1 = x ∧
      (r.st c).Leaves (!(q.run (CoreSide.reply resp) s).2.driving) := by
  induction q generalizing a s with
  | ret y =>
    obtain ⟨same, stays⟩ := d.returned cpu ended le
    have idle : ∀ t, a ≤ t → t < c → (r.st t).byte.cState = .idle ∧ (r.st t).al = false :=
      fun t low high => by
        have rest := d.rest_of_ready run boot hp scl (show t₀ ≤ t by omega)
          ((stays t low high.le).trans cpu)
        exact ⟨rest.2.1, rest.2.2.2.1⟩
    refine ⟨fun _ => ⟨0, 0⟩, fun k low high => absurd high (Nat.not_lt.mpr low), same.symm, ?_⟩
    exact run.leaves_kept hp scl (d.polite run boot hp scl) late le (lines y rfl)
      (fun t low high => (idle t low high).1)
      fun t low high lost => absurd ((idle t low high).2.symm.trans lost) Bool.false_ne_true
  | call o k ih =>
    obtain ⟨b, w, u, before, answered, next⟩ := d.answered_of_returns ended le cpu
    have rest := d.rest_of_ready run boot hp scl late cpu
    have since := answered.since
    have later := answered.later
    have ends := answered.ended
    let reply : Response := ⟨(r.st u).readCsr .status, (r.st (b - 1)).readCsr .rxr⟩
    have left := d.leaves_answered run boot hp scl answered late rest yields.1 s reply.rxr
    have arb : arbLost (o.status (replyAt (r.st u) (r.st (b - 1)) o)) = (r.st b).arbLost := by
      have kept := (d.outcome run boot hp scl answered late rest).1.2.1
      rw [kept, ← (status_bits (r.st u)).2]
      cases o <;> rfl
    obtain ⟨resp, polled, result, lines'⟩ := ih (replyAt (r.st u) (r.st (b - 1)) o) (by omega)
      before next (arb ▸ yields.2 _) (s.after o.word reply) fun _ _ => left
    let resp' : ℕ → Response := fun j => if j = s.issued then reply else resp j
    have now : resp' s.issued = reply := if_pos rfl
    have first : CoreSide.reply resp' o s =
        (replyAt (r.st u) (r.st (b - 1)) o, s.after o.word reply) := by
      cases o <;> rw [CoreSide.reply, now] <;> rfl
    have others : (k (replyAt (r.st u) (r.st (b - 1)) o)).run (CoreSide.reply resp')
        (s.after o.word reply) = (k (replyAt (r.st u) (r.st (b - 1)) o)).run (CoreSide.reply resp)
        (s.after o.word reply) :=
      run_reply_congr _ _ fun j low => if_neg (by have : s.issued + 1 ≤ j := low; omega)
    refine ⟨resp', fun j low high => ?_, ?_, ?_⟩
    · rw [Prog.run_call, first, others] at high
      obtain same | more := low.eq_or_lt
      · exact ⟨u, by omega, by omega, answered.poll, answered.tip, by rw [← same, now]⟩
      · obtain ⟨u', low', high', poll, tip, status⟩ := polled j more high
        have other : resp' j = resp j := if_neg (by omega)
        exact ⟨u', by omega, high', poll, tip, by rw [other]; exact status⟩
    · rw [Prog.run_call, first, others]
      exact result
    · rw [Prog.run_call, first, others]
      exact lines'

end

/-- **The lines after a transaction.** In every run of transactions over the core, whatever happens
on the bus, a transaction that has returned leaves SCL and SDA released, or SCL held low, as
`CoreSide` tells from the statuses that it read, until the next command. -/
theorem leaves_as_told (txns : ℕ → Txn) (d : DriverRun v (fun n => (txns n).prog) r)
    {hold : ℕ → Bool} (hp : 3 ≤ (v.setWidth 16).toNat) (scl : Stretching r hold) {n a c : ℕ}
    {res : TxnResult} (le : a ≤ c) (cpu : d.cpu a = .job n ((txns n).prog.translate byteImpl))
    (ended : d.cpu c = .job n (.ret res)) :
    ∃ resp : ℕ → Response,
      (∀ k < ((txns n).prog.run (CoreSide.reply resp) (⟨0, false⟩ : CoreSide)).2.issued,
        ∃ u, a ≤ u ∧ u < c ∧ d.polls u = true ∧ (r.st u).tip = false ∧
          (resp k).status = (r.st u).readCsr .status) ∧
      ((txns n).prog.run (CoreSide.reply resp) (⟨0, false⟩ : CoreSide)).1 = res ∧
      (r.st c).Leaves
        (!((txns n).prog.run (CoreSide.reply resp) (⟨0, false⟩ : CoreSide)).2.driving) := by
  rcases d.boots with never | ⟨t₀, run, boot, early⟩
  · have := never a
    rw [cpu] at this
    cases this
  · have late : t₀ ≤ a := by
      by_contra before
      have := early a (by omega)
      rw [cpu] at this
      cases this
    have calls : ∀ y, (txns n).prog ≠ .ret y := by
      intro y same
      rw [Txn.prog_eq] at same
      cases call : txns n <;> rw [call] at same <;> cases same
    let s : CoreSide := ⟨0, false⟩
    obtain ⟨resp, polled, told⟩ := d.leaves_of_job run boot hp scl ended (txns n).prog late le cpu
      ((txns n).yields _) s fun y same => absurd same (calls y)
    exact ⟨resp, fun k high => polled k (Nat.zero_le k) high, told⟩

end DriverRun

end Driver

end Rockling
