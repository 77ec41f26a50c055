import Rockling.Rtl.Outcome

/-!
# Who holds the bus between two commands

Each bit command but STOP ends with SCL pulled low, STOP and a lost arbitration release both lines,
and an idle bit controller keeps what it drives. So after a command the core has released the bus if
the command carried STO or lost the arbitration, and holds SCL low otherwise (`EnabledRun.leaves`).
-/

namespace Rockling

/-- What a bit command leaves on the lines. -/
theorem BitFsm.exec_leaves {x : BitFsm} {cmd : Cmd} {din : Bool}
    (ack : (x.exec cmd din).cmdAck = true) :
    (x.exec cmd din).sclOen = (x.cState.cmd == .stop) ∧
      (x.cState.cmd = .stop → (x.exec cmd din).sdaOen = true) := by
  obtain ⟨c, k, scl, sda, chk⟩ := x
  cases c
  case stopD => exact ⟨rfl, fun _ => rfl⟩
  case startE => exact ⟨rfl, fun stop => by cases stop⟩
  case rdD => exact ⟨rfl, fun stop => by cases stop⟩
  case wrD => exact ⟨rfl, fun stop => by cases stop⟩
  all_goals cases ack

namespace RTLI2C

/-- The core has released both lines if `free`, and holds SCL low otherwise. -/
structure Leaves (free : Bool) (s : RTLI2C) : Prop where
  scl : s.sclOen = free
  sda : free = true → s.sdaOen = true

section

variable {p k a : ℕ} {line free : Bool} {s : RTLI2C} {i : In}

/-- An arbitration loss releases the lines. -/
theorem leaves_lost (rst : s.rst = false) (al : s.al = true) : (s.step i).Leaves true := by
  have bit := (step_lost (i := i) rst al).2
  constructor
  · rw [sclOen, bit]
    rfl
  · intro _
    rw [sdaOen, bit]
    rfl

/-- A core at rest keeps what it drives. -/
theorem Leaves.rest (h : s.Leaves free) (inStep : s.InStep) (on : s.On p)
    (idle : s.byte.cState = .idle) (lost : s.al = true → free = true) :
    (s.step i).Leaves free := by
  cases al : s.al with
  | true =>
    rw [lost al]
    exact leaves_lost on.rst al
  | false =>
    have bit := inStep.bit_idle idle
    have same : (s.step i).sclOen = s.sclOen ∧ (s.step i).sdaOen = s.sdaOen := by
      rw [sclOen, sdaOen, step_bit]
      rcases s.byte.bit.fsm_cases (on.running i) with ⟨al', -⟩ | ⟨-, -, fsm⟩ | ⟨-, -, fsm⟩
      · rw [show s.byte.bit.al = false from al] at al'
        cases al'
      · rw [fsm, BitFsm.exec, bit]
        exact ⟨rfl, rfl⟩
      · rw [fsm]
        exact ⟨rfl, rfl⟩
    exact ⟨same.1.trans h.scl, fun isFree => same.2.trans (h.sda isFree)⟩

/-- A bit command that is acknowledged leaves SCL low, unless it is a STOP. -/
theorem InStep.leaves (h : s.InStep) (on : s.On p) (ack : (s.step i).byte.bit.cmdAck = true) :
    (s.step i).Leaves ((s.step i).byte.coreCmd == .stop) := by
  have bit : (s.step i).byte.bit = s.byte.bit.step (s.byte.bitIn (s.byteIn i)) := step_bit
  rcases s.byte.bit.fsm_cases (on.running i) with ⟨-, fsm⟩ | ⟨al, -, fsm⟩ | ⟨-, -, fsm⟩
  · rw [bit, fsm] at ack
    cases ack
  · rw [bit, fsm] at ack
    have going : s.byte.bit.cState ≠ .idle := by
      intro idle
      have last := (BitFsm.exec_cmdAck ack).2
      rw [idle] at last
      cases last
    have busy : s.byte.cState ≠ .idle := fun idle => going (h.bit_idle idle)
    have wait : s.byte.bit.cmdAck = false :=
      eq_false_of_ne_true fun acked => going (h.acked acked).1
    -- the byte controller still asks for the command that the bit controller has run
    have asked : (s.step i).byte.coreCmd = s.byte.bit.cState.cmd := by
      rw [RTLI2C.step_wait on.rst al busy wait, h.group going]
    obtain ⟨scl, sda⟩ := BitFsm.exec_leaves ack
    rw [asked]
    refine ⟨?_, fun stop => ?_⟩
    · rw [sclOen, bit, fsm]
      exact scl
    · rw [sdaOen, bit, fsm]
      exact sda (beq_iff_eq.mp stop)
  · rw [bit, fsm] at ack
    cases ack

/-- The end of a command. -/
theorem InStep.leaves_done (h : s.InStep) (on : s.On p) (hp : 3 ≤ p)
    (timed : s.byte.bit.Timed p k a line) (running : s.InPhase .running)
    (hw : i.write .command = none)
    (acked : s.byte.bit.cmdAck = true → s.Leaves (s.byte.coreCmd == .stop))
    (done : (s.step i).done = true) : (s.step i).Leaves (s.step i).stop := by
  cases al : s.al with
  | true =>
    have byte := (RTLI2C.step_lost (i := i) on.rst al).1
    rw [RTLI2C.done, byte] at done
    cases done
  | false =>
    cases ack : s.byte.bit.cmdAck with
    | false =>
      rw [RTLI2C.done, RTLI2C.step_wait on.rst al running.2.1 ack] at done
      cases done
    | true =>
      have left := acked ack
      have keeps := (running_step_advance h on hp timed running al ack hw).2.1
      have stop : (s.step i).stop = s.stop := congrArg (BitVec.getLsbD · 6) keeps
      have ends : s.byte.cState.succ s.read s.stop (s.byte.dcnt == 0) = .idle := by
        rw [RTLI2C.done, RTLI2C.step_advance h on.rst al running.2.2.1 running.2.1 ack] at done
        exact beq_iff_eq.mp done
      -- the last bit command was STOP if the command carries STO, and the acknowledge otherwise
      have last : (s.byte.coreCmd == .stop) = s.stop := by
        rw [h.coreCmd]
        rcases ByteState.succ_eq_idle ends with state | state | state
        · exact absurd state running.2.1
        · rw [state] at ends ⊢
          cases hstop : s.stop with
          | true =>
            rw [hstop] at ends
            cases ends
          | false => cases s.read <;> rfl
        · rw [h.stop state, state]
          rfl
      rw [last] at left
      have same : (s.step i).sclOen = s.sclOen ∧ (s.step i).sdaOen = s.sdaOen := by
        have en := (h.acked ack).2.1
        rw [sclOen, sdaOen, step_bit]
        rcases s.byte.bit.fsm_cases (on.running i) with ⟨al', -⟩ | ⟨-, en', -⟩ | ⟨-, -, fsm⟩
        · rw [show s.byte.bit.al = false from al] at al'
          cases al'
        · rw [en] at en'
          cases en'
        · rw [fsm]
          exact ⟨rfl, rfl⟩
      rw [stop]
      exact ⟨same.1.trans left.scl, fun isFree => same.2.trans (left.sda isFree)⟩

end

/-! ## Runs -/

section Run

variable {p t₀ : ℕ} {hold : ℕ → Bool} {r : Run}

/-- The lines at the acknowledge of a bit command. -/
theorem EnabledRun.leaves_acked (run : EnabledRun p t₀ r) (hp : 3 ≤ p) (scl : Stretching r hold)
    (polite : ∀ t, t₀ ≤ t → (r.st t).Polite (r.inp t)) {t : ℕ} (late : t₀ ≤ t)
    (ack : (r.st t).byte.bit.cmdAck = true) :
    (r.st t).Leaves ((r.st t).byte.coreCmd == .stop) := by
  obtain same | later := late.eq_or_lt
  · -- nothing is acknowledged in the first clock
    obtain ⟨k, a, line, sound⟩ := run.sound_at hp scl polite le_rfl
    obtain ⟨-, b, waiting⟩ := run.waiting scl t₀ le_rfl
    rw [← same] at ack
    exact absurd waiting.dormant.idle (sound.inStep.acked ack).2.2
  · obtain ⟨u, rfl⟩ : ∃ u, t = u + 1 := ⟨t - 1, by omega⟩
    obtain ⟨k, a, line, sound⟩ := run.sound_at hp scl polite (t := u) (by omega)
    rw [r.next] at ack ⊢
    exact sound.inStep.leaves (run.on u (by omega)) ack

/-- While the byte controller is idle the core keeps what it drives. -/
theorem EnabledRun.leaves_kept (run : EnabledRun p t₀ r) (hp : 3 ≤ p) (scl : Stretching r hold)
    (polite : ∀ t, t₀ ≤ t → (r.st t).Polite (r.inp t)) {free : Bool} {e u : ℕ} (late : t₀ ≤ e)
    (later : e ≤ u) (here : (r.st e).Leaves free)
    (idle : ∀ y, e ≤ y → y < u → (r.st y).byte.cState = .idle)
    (lost : ∀ y, e ≤ y → y < u → (r.st y).al = true → free = true) : (r.st u).Leaves free := by
  induction u, later using Nat.le_induction with
  | base => exact here
  | succ u later ih =>
    obtain ⟨k, a, line, sound⟩ := run.sound_at hp scl polite (t := u) (by omega)
    have before := ih (fun y low high => idle y low (by omega)) fun y low high =>
      lost y low (by omega)
    rw [r.next]
    exact before.rest sound.inStep (run.on u (by omega)) (idle u later (by omega))
      (lost u later (by omega))

/-- A command is done from its third clock on, and the lines show whether it carries STO. -/
theorem EnabledRun.leaves_done (run : EnabledRun p t₀ r) (hp : 3 ≤ p) (scl : Stretching r hold)
    (polite : ∀ t, t₀ ≤ t → (r.st t).Polite (r.inp t)) {w e : ℕ} {v : BitVec 32} (late : t₀ ≤ w)
    (hw : (r.inp w).write .command = some v) (after : w < e)
    (only : ∀ x, w < x → x < e → (r.inp x).write .command = none)
    (done : (r.st e).done = true) : w + 2 ≤ e ∧ (r.st e).Leaves (v.getLsbD 6) := by
  obtain ⟨u, rfl⟩ : ∃ u, e = u + 1 := ⟨e - 1, by omega⟩
  have second : w < u := by
    by_contra early
    obtain rfl : u = w := by omega
    obtain ⟨command, idle, al, -⟩ := polite u late v hw
    rw [r.next, RTLI2C.done, step_idle (run.on u late).rst al idle (go_of_command_zero command)]
      at done
    cases done
  obtain ⟨k, a, line, sound⟩ := run.sound_at hp scl polite (t := u) (by omega)
  have on := run.on u (by omega)
  have quiet := only u second (by omega)
  have running : (r.st u).InPhase .running := by
    obtain ⟨f, phase⟩ := sound.phase
    cases f with
    | running => exact phase
    | pending =>
      have next := (pending_step sound.inStep on hp sound.timed phase quiet).2.1
      rw [← r.next] at next
      exact absurd (next.2.2.1.symm.trans done) Bool.false_ne_true
    | finishing =>
      have next := (finishing_step sound.inStep on hp sound.timed phase quiet).2.1
      rw [← r.next] at next
      exact absurd (next.2.2.1.symm.trans done) Bool.false_ne_true
    | resting =>
      have next := (quiet_step sound.inStep on hp sound.timed phase.1 phase.2.1 quiet).2
      rw [← r.next] at next
      exact absurd (next.2.2.1.symm.trans done) Bool.false_ne_true
    | clearing =>
      have next := (quiet_step sound.inStep on hp sound.timed phase.1 phase.2.1 quiet).2
      rw [← r.next] at next
      exact absurd (next.2.2.1.symm.trans done) Bool.false_ne_true
  have acked := run.leaves_acked hp scl polite (t := u) (by omega)
  obtain ⟨n, eq⟩ : ∃ n, u + 1 = w + n + 2 := ⟨u - w - 1, by omega⟩
  have stop : (r.st (u + 1)).stop = v.getLsbD 6 := by
    have fate := run.fate hp scl polite late hw n fun x low high => only x low (by omega)
    rw [← eq] at fate
    cases fate with
    | running phase => exact absurd (phase.2.2.1.symm.trans done) Bool.false_ne_true
    | completed e' after' before' done' ended =>
      rcases ended with ⟨-, word⟩ | ⟨-, rest⟩
      · rw [RTLI2C.stop, word, BitVec.getLsbD_setWidth]
        rfl
      · exact absurd (rest.2.2.symm.trans done) Bool.false_ne_true
    | lost e' after' before' al ended => exact absurd (ended.2.2.symm.trans done) Bool.false_ne_true
  rw [r.next] at done stop ⊢
  rw [← stop]
  exact ⟨by omega, sound.inStep.leaves_done on hp sound.timed running quiet acked done⟩

/-- A command is in its register in the clock after its write. -/
theorem EnabledRun.transfers_next (run : EnabledRun p t₀ r) (hp : 3 ≤ p) (scl : Stretching r hold)
    (polite : ∀ t, t₀ ≤ t → (r.st t).Polite (r.inp t)) {w : ℕ} {v : BitVec 32} (late : t₀ ≤ w)
    (hw : (r.inp w).write .command = some v) : (r.st (w + 1)).transfers = true := by
  obtain ⟨k, a, line, sound⟩ := run.sound_at hp scl polite late
  obtain ⟨command, idle, al, asks⟩ := polite w late v hw
  have done : (r.st w).done = false := by
    obtain ⟨f, phase⟩ := sound.phase
    cases f with
    | finishing =>
      have transfers := phase.1
      rw [transfers_of_zero command] at transfers
      cases transfers
    | _ => exact phase.2.2.1
  have pending := (write_step sound.inStep (run.on w late) hp sound.timed command idle done al hw
    asks).2.1
  rw [← r.next] at pending
  exact pending.1

/-- **Who holds the bus after a command.** Once the core is quiescent again, the command has been
carried out and SCL is held low unless it carried STO, or it has lost the arbitration and both lines
are released; `ArbLost` tells which for a command with `STA`. -/
theorem EnabledRun.leaves (run : EnabledRun p t₀ r) (hp : 3 ≤ p) (scl : Stretching r hold)
    (polite : ∀ t, t₀ ≤ t → (r.st t).Polite (r.inp t)) {w u : ℕ} {v : BitVec 32} (late : t₀ ≤ w)
    (hw : (r.inp w).write .command = some v) (after : w < u)
    (only : ∀ x, w < x → x < u → (r.inp x).write .command = none) (rest : (r.st u).Quiescent) :
    ((r.st u).arbLost = ((r.st w).arbLost && !v.getLsbD 7) ∧ (r.st u).Leaves (v.getLsbD 6)) ∨
      ((r.st u).arbLost = true ∧ (r.st u).Leaves true) := by
  have fate := fun n (high : w + n + 2 ≤ u) =>
    run.fate hp scl polite late hw n fun x low before => only x low (by omega)
  have second : w + 2 ≤ u := by
    by_contra early
    obtain rfl : u = w + 1 := by omega
    have transfers := run.transfers_next hp scl polite late hw
    rw [transfers_of_zero rest.1] at transfers
    cases transfers
  obtain ⟨m, eq⟩ := Nat.exists_eq_add_of_le second
  obtain rfl : u = w + m + 2 := by omega
  cases fate m le_rfl with
  | running phase => exact absurd rest.2.1 phase.2.1
  | completed e after' before done ended calm first record arb =>
    obtain ⟨third, here⟩ := run.leaves_done hp scl polite late hw after'
      (fun x low high => only x low (by omega)) done
    refine Or.inl ⟨arb, run.leaves_kept hp scl polite (by omega) before here (fun y low high => ?_)
      fun y low high lost => ?_⟩
    · obtain ⟨n, rfl⟩ : ∃ n, y = w + n + 2 := ⟨y - w - 2, by omega⟩
      cases fate n (by omega) with
      | running phase word calm' =>
        obtain same | earlier := low.eq_or_lt
        · rw [same] at done
          exact absurd (phase.2.2.1.symm.trans done) Bool.false_ne_true
        · exact absurd ((calm' e after' earlier).2.symm.trans done) Bool.false_ne_true
      | completed e' after'' before'' done'' ended'' =>
        exact ended''.elim (fun finishing => finishing.1.2.1) fun quiet => quiet.2.2.1
      | lost e' after'' before'' al ended'' => exact ended''.2.1
    · exact absurd ((calm y (by omega) (by omega)).symm.trans lost) Bool.false_ne_true
  | lost e after' before al ended calm never ack arb =>
    have here : (r.st (e + 1)).Leaves true := by
      rw [r.next]
      exact leaves_lost (run.on e (by omega)).rst al
    refine Or.inr ⟨arb, run.leaves_kept hp scl polite (by omega) before here (fun y low high => ?_)
      fun y low high lost => rfl⟩
    have third : w + 2 ≤ y := by omega
    obtain ⟨n, rfl⟩ : ∃ n, y = w + n + 2 := ⟨y - w - 2, by omega⟩
    cases fate n (by omega) with
    | running phase word calm' =>
      exact absurd ((calm' e after' low).1.symm.trans al) Bool.false_ne_true
    | completed e' after'' before'' done'' ended'' calm' =>
      exact absurd ((calm' e after' (by omega)).symm.trans al) Bool.false_ne_true
    | lost e' after'' before'' al' ended'' => exact ended''.2.1

end Run

end RTLI2C

end Rockling
