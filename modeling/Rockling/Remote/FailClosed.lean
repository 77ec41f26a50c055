import Rockling.Remote.Etherbone
import Mathlib.Tactic.IntervalCases

/-!
# Transactions over a connection that fails

`eb_read32` reports a failed receive as the word with all bits set, and does not tell the end of the
stream from a slow peer. To `i2c_wait_tip` the word with all bits set is a status with a transfer in
progress. So once the connection has failed a poll of the status is never answered: at the end of
the stream `eb_read32` does not return, and after an error it returns a word that is polled again.

What a transaction does on a failed connection therefore depends on the point its program is at.
Before its last poll it is `Stuck`; after it, it has returned or is at the one read that follows a
poll, that of `RXR`, which an error ends and the end of the stream does not.
-/

namespace Rockling

namespace Remote

open Driver (Txn TxnResult)

variable {α : Type} {conn : Conn}

/-! ## A failed connection -/

/-- From call `F` on every send fails, and every receive fails for good or reports that the peer has
closed the connection. -/
structure Dead (env : ℕ → Replies SockIface) (F : ℕ) : Prop where
  send : ∀ n, F ≤ n → ∀ bytes, ∃ errno, env n (.send bytes) = .error (.other errno)
  recv : ∀ n, F ≤ n → ∀ maxLen,
    (env n (.recv maxLen)).fatal = true ∨ (env n (.recv maxLen)).closed = true

/-- A transaction of `remote-bus` over a socket. -/
def txnRun (host : Endian) (csrAddr : Csr → BitVec 32) (t : Txn) (env : ℕ → Replies SockIface) :
    ClockedRun (client (α := TxnResult) (tcp host)).step :=
  (client (tcp host)).exec (.start (txnProg csrAddr t)) env

/-- The access is a poll. -/
def BusOp.isPoll : BusOp → Bool
  | .readWhile _ _ => true
  | _ => false

/-- The program is at a poll. -/
def Polling : Prog BusIface α → Prop
  | .ret _ => False
  | .call o _ => o.isPoll = true

/-- No poll is under way or to come. -/
def PollFree : Prog BusIface α → Prop := Prog.Always fun p => ¬ Polling p

/-- What a run does when the transaction fails closed: it returns after finitely many calls, with a
negative code if the connection failed before the last poll was answered, which is when the program
is still at a poll in call `F` or later. -/
def FailsClosed (r : ClockedRun (client (α := TxnResult) conn).step) (F : ℕ) : Prop :=
  ∃ res, Process.Returns r res ∧
    ((∃ n, F ≤ n ∧ Polling (r.st n).prog) → Driver.negative res.ret = true)

/-- In call `F` or later a receive fails for good. -/
def Errors (r : ClockedRun (client (α := α) conn).step) (F : ℕ) : Prop :=
  ∃ n rawPkt p, F ≤ n ∧ (r.st n).rx = some (rawPkt, p) ∧ (r.inp n (.recv (20 - p))).fatal = true

/-! ## The points of a program -/

/-- A program that cannot return once every read is answered with all bits set. -/
inductive Stuck : Prog BusIface α → Prop where
  | write {val addr : BitVec 32} {k : Unit → Prog BusIface α} (h : Stuck (k ())) :
    Stuck (.call (S := BusIface) (.write val addr) k)
  | read {addr : BitVec 32} {k : BitVec 32 → Prog BusIface α} (h : Stuck (k (-1))) :
    Stuck (.call (S := BusIface) (.read addr) k)
  | poll {addr : BitVec 32} {busy : BitVec 32 → Bool} {k : BitVec 32 → Prog BusIface α}
    (h : busy (-1) = true) : Stuck (.call (S := BusIface) (.readWhile addr busy) k)

/-- The program is at a plain read. -/
def AtRead (prog : Prog BusIface α) : Prop :=
  ∃ (addr : BitVec 32) (k : BitVec 32 → Prog BusIface α),
    prog = .call (S := BusIface) (.read addr) k

/-- The program is at a plain read and returns whatever the value. -/
def LastRead (prog : Prog BusIface α) : Prop :=
  AtRead prog ∧ ∀ v, ∃ a, answer prog v = .ret a

theorem AtRead.reading {prog : Prog BusIface α} (h : AtRead prog) : ∃ addr, Reading prog addr := by
  obtain ⟨addr, k, rfl⟩ := h
  exact ⟨addr, reading_read k⟩

theorem AtRead.not_polling {prog : Prog BusIface α} (h : AtRead prog) : ¬ Polling prog := by
  obtain ⟨addr, k, rfl⟩ := h
  exact Bool.false_ne_true

theorem LastRead.pollFree {prog : Prog BusIface α} (h : LastRead prog) : PollFree prog := by
  obtain ⟨⟨addr, k, rfl⟩, hret⟩ := h
  refine ⟨Bool.false_ne_true, fun v => ?_⟩
  obtain ⟨a, ha⟩ := hret v
  change k v = _ at ha
  rw [ha]
  exact id

/-- Where a transaction can be. -/
inductive Point (prog : Prog BusIface α) : Prop where
  | stuck (h : Stuck prog)
  | lastRead (h : LastRead prog)
  | returned (a : α) (h : prog = .ret a)

theorem Stuck.not_pollFree {prog : Prog BusIface α} (h : Stuck prog) : ¬ PollFree prog := by
  intro hfree
  induction h with
  | write _ ih => exact ih (hfree.2 ())
  | read _ ih => exact ih (hfree.2 (-1))
  | poll _ => exact hfree.1 rfl

/-! ## One call on a failed connection -/

section Step

variable {host : Endian} {r : ClockedRun (client (α := α) (tcp host)).step} {F n : ℕ}
  {prog : Prog BusIface α} {addr : BitVec 32}

theorem Reading.not_returned (reading : Reading prog addr) (rx : Option (Packet × Fin 20)) (a : α) :
    (client conn).next ⟨prog, rx⟩ ≠ .returned a := by
  intro h
  change Client.next conn ⟨prog, rx⟩ = _ at h
  rw [reading, Client.ebRead32] at h
  cases rx with
  | none => cases h
  | some rx =>
    dsimp only at h
    split at h <;> cases h

/-- A receive that fails for good answers the read with all bits set. -/
theorem Reading.fatal_step (reading : Reading prog addr) {rawPkt : Packet} {p : Fin 20}
    (hst : r.st n = ⟨prog, some (rawPkt, p)⟩)
    (hfatal : (r.inp n (.recv (20 - p))).fatal = true) :
    r.st (n + 1) = ⟨answer prog (-1), none⟩ := by
  rw [reading.recv_step hst, recvStream_fatal hfatal]
  rfl

/-- Any other call leaves the program at the read. -/
theorem Reading.dead_step (reading : Reading prog addr) (dead : Dead r.inp F) (hn : F ≤ n)
    (hst : (r.st n).prog = prog) :
    (r.st (n + 1)).prog = prog ∨ (r.st (n + 1) = ⟨answer prog (-1), none⟩ ∧ Errors r F) := by
  cases hrx : (r.st n).rx with
  | none =>
    have hc : r.st n = ⟨prog, none⟩ := by rw [← hst, ← hrx]
    rw [reading.send_step hc]
    exact .inl rfl
  | some rx =>
    obtain ⟨rawPkt, p⟩ := rx
    have hc : r.st n = ⟨prog, some (rawPkt, p)⟩ := by rw [← hst, ← hrx]
    rcases dead.recv n hn (20 - p) with hfatal | hclosed
    · exact .inr ⟨reading.fatal_step hc hfatal, n, rawPkt, p, hn, hrx, hfatal⟩
    · rw [reading.recv_step hc, recvStream_closed hclosed]
      exact .inl rfl

/-- A stuck program stays stuck. -/
theorem Stuck.step (dead : Dead r.inp F) (hn : F ≤ n) (h : Stuck (r.st n).prog) :
    Stuck (r.st (n + 1)).prog := by
  generalize hst : (r.st n).prog = prog at h
  cases h with
  | write hk =>
    rw [write_step hst]
    exact hk
  | read hk =>
    rcases (reading_read _).dead_step dead hn hst with hsame | ⟨hdone, -⟩
    · rw [hsame]
      exact .read hk
    · rw [hdone]
      exact hk
  | poll hbusy =>
    rcases (reading_readWhile _ _).dead_step dead hn hst with hsame | ⟨hdone, -⟩
    · rw [hsame]
      exact .poll hbusy
    · rw [hdone, answer, if_pos hbusy]
      exact .poll hbusy

/-- A stuck program never returns. -/
theorem Stuck.not_returns (dead : Dead r.inp F) (h : Stuck (r.st F).prog) (a : α) :
    ¬ Process.Returns r a := by
  refine Process.not_returns r (P := fun c => Stuck c.prog) h (fun m hm hP => hP.step dead hm) ?_ a
  intro c a hP hreturned
  obtain ⟨prog, rx⟩ := c
  cases hP with
  | write hk => cases hreturned
  | read hk => exact (reading_read _).not_returned rx a hreturned
  | poll hbusy => exact (reading_readWhile _ _).not_returned rx a hreturned

end Step

/-! ## The last read -/

section LastRead

variable {host : Endian} {r : ClockedRun (client (α := α) (tcp host)).step} {F : ℕ}

/-- A program at its last read stays there until a receive fails for good, and then returns. -/
theorem LastRead.stays (dead : Dead r.inp F) (last : LastRead (r.st F).prog) :
    ∀ n, F ≤ n → (r.st n).prog = (r.st F).prog ∨
      ((∃ a, r.st n = ⟨.ret a, none⟩) ∧ Errors r F) := by
  obtain ⟨hread, hret⟩ := last
  obtain ⟨addr, reading⟩ := hread.reading
  intro n hn
  induction n, hn using Nat.le_induction with
  | base => exact .inl rfl
  | succ n hn ih =>
    rcases ih with hsame | ⟨⟨a, hdone⟩, herr⟩
    · rcases reading.dead_step dead hn hsame with hsame' | ⟨hdone, herr⟩
      · exact .inl hsame'
      · obtain ⟨a, ha⟩ := hret (-1)
        exact .inr ⟨⟨a, by rw [hdone, ha]⟩, herr⟩
    · have hreturned : (client (tcp host)).next (r.st n) = .returned a := by
        rw [hdone]
        rfl
      exact .inr ⟨⟨a, by rw [r.next, Process.step_returned hreturned, hdone]⟩, herr⟩

/-- A program at its last read returns exactly if some receive fails for good. -/
theorem LastRead.returns_iff (dead : Dead r.inp F) (last : LastRead (r.st F).prog) :
    (∃ a, Process.Returns r a) ↔ Errors r F := by
  constructor
  · rintro ⟨a, n, hn⟩
    have hlater : (client (tcp host)).next (r.st (max F n)) = .returned a := by
      rw [Process.stays_returned r hn _ (Nat.le_max_right F n)]
      exact hn
    rcases last.stays dead (max F n) (Nat.le_max_left F n) with hsame | ⟨-, herr⟩
    · obtain ⟨addr, reading⟩ := last.1.reading
      rw [← hsame] at reading
      exact absurd hlater (reading.not_returned _ a)
    · exact herr
  · rintro ⟨n, rawPkt, p, hn, hrx, hfatal⟩
    rcases last.stays dead n hn with hsame | ⟨⟨a, hdone⟩, -⟩
    · obtain ⟨addr, reading⟩ := last.1.reading
      obtain ⟨a, ha⟩ := last.2 (-1)
      have hst : r.st n = ⟨(r.st F).prog, some (rawPkt, p)⟩ := by rw [← hsame, ← hrx]
      refine ⟨a, n + 1, ?_⟩
      rw [reading.fatal_step hst hfatal, ha]
      rfl
    · rw [hdone] at hrx
      cases hrx

/-- A program at its last read does not poll again. -/
theorem LastRead.not_polling (dead : Dead r.inp F) (last : LastRead (r.st F).prog) {n : ℕ}
    (hn : F ≤ n) : ¬ Polling (r.st n).prog := by
  rcases last.stays dead n hn with hsame | ⟨⟨a, hdone⟩, -⟩
  · rw [hsame]
    exact last.1.not_polling
  · rw [hdone]
    exact id

end LastRead

/-! ## The points of a transaction -/

section Points

variable {r : ClockedRun (client (α := α) conn).step} {Q : Prog BusIface α → Prop} {n : ℕ}

theorem resume_prog (prog : Prog BusIface α) (out : (Packet × Fin 20) ⊕ BitVec 32) :
    (Client.resume prog out).prog = prog ∨ ∃ v, (Client.resume prog out).prog = answer prog v := by
  cases out with
  | inl rx => exact .inl rfl
  | inr v => exact .inr ⟨v, rfl⟩

/-- A call of a read leaves the program there or answers the read. -/
theorem Reading.step_prog {prog : Prog BusIface α} {addr : BitVec 32} (reading : Reading prog addr)
    (conn : Conn) (rx : Option (Packet × Fin 20)) (replies : Replies SockIface) :
    ((client conn).step ⟨prog, rx⟩ replies).prog = prog ∨
      ∃ v, ((client conn).step ⟨prog, rx⟩ replies).prog = answer prog v := by
  have hnext : (client conn).next ⟨prog, rx⟩ = _ := reading conn rx
  rw [Client.ebRead32] at hnext
  cases rx with
  | none =>
    rw [Process.step_call hnext]
    exact .inl rfl
  | some rx =>
    dsimp only at hnext
    split at hnext
    · rw [Process.step_call hnext]
      exact resume_prog prog _
    · rw [Process.step_call hnext]
      exact resume_prog prog _

theorem always_answer {prog : Prog BusIface α} (h : prog.Always Q) (v : BitVec 32) :
    (answer prog v).Always Q := by
  cases prog with
  | ret a => exact h
  | call o k =>
    cases o with
    | write val addr => exact h
    | read addr => exact h.2 v
    | readWhile addr busy =>
      rw [answer]
      split
      · exact h
      · exact h.2 v

/-- What holds at every point of a program holds of what is left of it after any call. -/
theorem always_step (h : (r.st n).prog.Always Q) : (r.st (n + 1)).prog.Always Q := by
  have hread : ∀ {addr}, Reading (r.st n).prog addr → (r.st (n + 1)).prog.Always Q := by
    intro addr reading
    rw [r.next]
    rcases reading.step_prog conn (r.st n).rx (r.inp n) with hsame | ⟨v, hv⟩
    · rwa [hsame]
    · rw [hv]
      exact always_answer h v
  generalize hst : (r.st n).prog = prog at h hread
  cases prog with
  | ret a =>
    have hreturned : (client conn).next (r.st n) = .returned a := by
      change Client.next conn (r.st n) = _
      rw [Client.next, hst]
    rwa [r.next, Process.step_returned hreturned, hst]
  | call o k =>
    cases o with
    | write val addr =>
      rw [write_step hst]
      exact h.2 ()
    | read addr => exact hread (reading_read k)
    | readWhile addr busy => exact hread (reading_readWhile busy k)

theorem always_run (h : (r.st 0).prog.Always Q) (n : ℕ) : (r.st n).prog.Always Q := by
  induction n with
  | zero => exact h
  | succ n ih => exact always_step ih

end Points

section Txn

variable (csrAddr : Csr → BitVec 32)

/-- A program over the byte interface, over the bus. -/
def lower {β : Type} (p : Prog Driver.ByteIface β) : Prog BusIface β :=
  (p.translate Driver.byteImpl).translate (regImpl csrAddr)

/-- `i2c_wait_tip` takes the word with all bits set for a transfer in progress. -/
theorem tip_allOnes : Driver.csrExtract Driver.STATUS_TIP_OFFSET (-1) = true := by
  decide

/-- A transmission is two writes and a poll, all of them stuck points. -/
theorem points_tx {β : Type} (b flags : CInt) (k : CInt → Prog Driver.ByteIface β)
    (h : ∀ status, (lower csrAddr (k status)).Always Point) :
    (lower csrAddr (.call (S := Driver.ByteIface) (.tx b flags) k)).Always Point := by
  have hpoll : Stuck (.call (S := BusIface)
      (.readWhile (csrAddr .status) (Driver.csrExtract Driver.STATUS_TIP_OFFSET))
      fun status => lower csrAddr (k status)) := .poll tip_allOnes
  exact ⟨.stuck (.write (.write hpoll)), fun _ => ⟨.stuck (.write hpoll), fun _ =>
    ⟨.stuck hpoll, h⟩⟩⟩

/-- A reception is a write and a poll, both stuck points, and a read that is stuck too or the last.
-/
theorem points_rx {β : Type} (flags : CInt) (k : CInt × CInt → Prog Driver.ByteIface β)
    (hend : ∀ status, Stuck (lower csrAddr (k (status, -1))) ∨
      ∀ rxr, ∃ a, lower csrAddr (k (status, rxr)) = .ret a)
    (h : ∀ status rxr, (lower csrAddr (k (status, rxr))).Always Point) :
    (lower csrAddr (.call (S := Driver.ByteIface) (.rx flags) k)).Always Point := by
  have hpoll : Stuck (.call (S := BusIface)
      (.readWhile (csrAddr .status) (Driver.csrExtract Driver.STATUS_TIP_OFFSET))
      fun status : BitVec 32 => .call (S := BusIface) (.read (csrAddr .rxr)) fun rxr : BitVec 32 =>
        lower csrAddr (k (status, rxr))) := .poll tip_allOnes
  refine ⟨.stuck (.write hpoll), fun _ => ⟨.stuck hpoll, fun status => ⟨?_, h status⟩⟩⟩
  rcases hend status with hstuck | hret
  · exact .stuck (.read hstuck)
  · exact .lastRead ⟨⟨csrAddr .rxr, _, rfl⟩, hret⟩

/-- A reception starts at a stuck point. -/
theorem stuck_rx {β : Type} (flags : CInt) (k : CInt × CInt → Prog Driver.ByteIface β) :
    Stuck (lower csrAddr (.call (S := Driver.ByteIface) (.rx flags) k)) :=
  .write (.poll tip_allOnes)

theorem points_txAll (errPtr : Bool) (k : Prog Driver.ByteIface TxnResult)
    (h : (lower csrAddr k).Always Point) (bytes : List (CInt × CInt)) :
    (lower csrAddr (Driver.txAll errPtr k bytes)).Always Point := by
  induction bytes with
  | nil => exact h
  | cons b bytes ih =>
    refine points_tx csrAddr b.1 b.2 _ fun status => ?_
    by_cases hack : Driver.checkAck status = true
    · rw [if_pos hack]
      exact .returned _ rfl
    · rw [if_neg hack]
      exact ih

theorem points_rxTail (errPtr : Bool) : (lower csrAddr (Driver.rxTail errPtr)).Always Point := by
  refine points_rx csrAddr _ _ (fun status => ?_) fun status rx0 => ?_
  · -- the first byte is followed by another reception unless arbitration is lost
    by_cases harb : Driver.checkArb status = true
    · refine .inr fun rxr => ⟨Driver.errorExit errPtr status, ?_⟩
      simp only [harb, if_true]
      rfl
    · simp only [harb, Bool.false_eq_true, if_false]
      exact .inl (stuck_rx csrAddr _ _)
  · by_cases harb : Driver.checkArb status = true
    · simp only [harb, if_true]
      exact .returned _ rfl
    · simp only [harb, Bool.false_eq_true, if_false]
      refine points_rx csrAddr _ _ (fun status' => .inr fun rxr => ?_) fun status' rx1 => ?_
      · dsimp only
        split <;> exact ⟨_, rfl⟩
      · dsimp only
        split <;> exact .returned _ rfl

/-- Every point of a transaction is stuck, its last read or its end. -/
theorem txn_points (t : Txn) : (txnProg csrAddr t).Always Point := by
  have hfinish : (lower csrAddr t.finish).Always Point := by
    cases t with
    | read addr tx0 tx1 errPtr => exact points_rxTail csrAddr errPtr
    | write addr tx0 tx1 d0 d1 errPtr => exact .returned _ rfl
    | generalCallReset => exact .returned _ rfl
  rw [txnProg, Driver.Txn.prog_eq]
  exact points_txAll csrAddr _ _ hfinish _

end Txn

/-! ## Failing closed -/

/-- Where a transaction is when the connection fails decides whether it returns. -/
theorem point_at (host : Endian) (csrAddr : Csr → BitVec 32) (t : Txn)
    (env : ℕ → Replies SockIface) (n : ℕ) : Point ((txnRun host csrAddr t env).st n).prog :=
  (always_run (txn_points csrAddr t) n).here

/-- When a remote transaction fails closed. For every transaction and every socket that has failed
from call `F` on, the transaction returns, and with a negative code if its last poll was not yet
answered, exactly when in call `F` no poll is under way or to come, and a read that is still
outstanding then meets a receive that fails with an error rather than reports a closed connection.
-/
theorem fails_closed_iff (host : Endian) (csrAddr : Csr → BitVec 32) (t : Txn)
    (env : ℕ → Replies SockIface) (F : ℕ) (dead : Dead env F) :
    FailsClosed (txnRun host csrAddr t env) F ↔
      PollFree ((txnRun host csrAddr t env).st F).prog ∧
        (AtRead ((txnRun host csrAddr t env).st F).prog →
          Errors (txnRun host csrAddr t env) F) := by
  have dead' : Dead (txnRun host csrAddr t env).inp F := dead
  cases point_at host csrAddr t env F with
  | stuck hstuck =>
    refine iff_of_false ?_ fun h => hstuck.not_pollFree h.1
    rintro ⟨res, hreturns, -⟩
    exact hstuck.not_returns dead' res hreturns
  | lastRead hlast =>
    constructor
    · rintro ⟨res, hreturns, -⟩
      exact ⟨hlast.pollFree, fun _ => (hlast.returns_iff dead').mp ⟨res, hreturns⟩⟩
    · rintro ⟨-, herrors⟩
      obtain ⟨res, hreturns⟩ := (hlast.returns_iff dead').mpr (herrors hlast.1)
      refine ⟨res, hreturns, ?_⟩
      rintro ⟨n, hn, hpolling⟩
      exact absurd hpolling (hlast.not_polling dead' hn)
  | returned res hret =>
    have hreturned : (client (tcp host)).next ((txnRun host csrAddr t env).st F) =
        .returned res := by
      change Client.next (tcp host) _ = _
      rw [Client.next, hret]
    refine iff_of_true ⟨res, ⟨F, hreturned⟩, ?_⟩ ⟨hret ▸ id, ?_⟩
    · rintro ⟨n, hn, hpolling⟩
      rw [Process.stays_returned _ hreturned n hn, hret] at hpolling
      exact hpolling.elim
    · rintro ⟨addr, k, hk⟩
      rw [hret] at hk
      cases hk

/-- A socket that answers every request with the word 0 until call `F` and is reset then. -/
def resetFrom (F : ℕ) : ℕ → Replies SockIface
  | n, .send _ => if n < F then .ok 20 else .error (.other 104)
  | n, .recv m =>
    if n < F then .got (List.replicate (min m 20) 0) (by simp) else .failed (.other 104)

theorem dead_resetFrom (F : ℕ) : Dead (resetFrom F) F where
  send := fun n hn _ => ⟨104, if_neg (Nat.not_lt.mpr hn)⟩
  recv := by
    intro n hn maxLen
    have hfailed : resetFrom F n (.recv maxLen) = .failed (.other 104) :=
      if_neg (Nat.not_lt.mpr hn)
    rw [hfailed]
    exact .inl rfl

/-- Addresses for the registers. -/
def someAddr (r : Csr) : BitVec 32 := BitVec.ofNat 32 (0x82003000 + 4 * r.ctorIdx)

/-- A connection that is reset after the two polls of a general call reset. -/
theorem fails_closed_iff_late :
    FailsClosed (txnRun .little someAddr .generalCallReset (resetFrom 8)) 8 := by
  have hend : ((txnRun .little someAddr .generalCallReset (resetFrom 8)).st 8).prog =
      .ret ⟨0, none⟩ := by
    rfl
  refine (fails_closed_iff .little someAddr .generalCallReset (resetFrom 8) 8
    (dead_resetFrom 8)).mpr ⟨hend ▸ id, ?_⟩
  rintro ⟨addr, k, hk⟩
  rw [hend] at hk
  cases hk

/-- A general call reset whose connection is reset from the first call on never returns. -/
theorem reset_hangs : ¬ ∀ (host : Endian) (csrAddr : Csr → BitVec 32) (t : Txn)
    (env : ℕ → Replies SockIface) (F : ℕ), Dead env F →
      FailsClosed (txnRun host csrAddr t env) F := by
  intro h
  obtain ⟨res, hreturns, -⟩ :=
    h .little someAddr .generalCallReset (resetFrom 0) 0 (dead_resetFrom 0)
  have hstuck : Stuck ((txnRun .little someAddr .generalCallReset (resetFrom 0)).st 0).prog :=
    .write (.write (.poll tip_allOnes))
  exact hstuck.not_returns (dead_resetFrom 0) res hreturns

end Remote

end Rockling
