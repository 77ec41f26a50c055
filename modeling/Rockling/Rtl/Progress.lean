import Rockling.Lib.Eventually
import Rockling.Rtl.Jobs
import Rockling.Rtl.Pace

/-!
# Every command ends

When nobody holds SCL low for ever, the divider enables the bit controller again and again
(`EnabledRun.enabled_recurs`), and every enabled clock brings a running command nearer to its end,
so each command ends, acknowledged or with an arbitration loss (`EnabledRun.ends`).

What could stop the divider for good is a stretch that it waits for while the controller itself
holds SCL low. `Stalls` excludes this: the divider waits only while SCL is released, and as long as
it does, nothing is executed that pulls SCL low.
-/

namespace Rockling

open TwoWire (Symbol)

/-- The enabled clocks that a bit command takes from a state on; `idle` stands for the clock that
starts it. -/
def BitState.rank : BitState → ℕ
  | .idle => 6
  | .startA => 5
  | .startB | .stopA | .rdA | .wrA => 4
  | .startC | .stopB | .rdB | .wrB => 3
  | .startD | .stopC | .rdC | .wrC => 2
  | .startE | .stopD | .rdD | .wrD => 1

/-- An enabled clock completes a bit command or brings its end nearer. -/
theorem BitFsm.exec_rank {x : BitFsm} {cmd : Cmd} (din : Bool)
    (asked : x.cState ≠ .idle ∨ cmd ≠ .nop) :
    ((x.exec cmd din).cmdAck = true ∧ (x.exec cmd din).cState.rank = 6 ∧ x.cState.rank = 1) ∨
      ((x.exec cmd din).cmdAck = false ∧ (x.exec cmd din).cState.rank < x.cState.rank) := by
  obtain ⟨c, k, scl, sda, chk⟩ := x
  cases c
  case idle =>
    cases cmd
    case nop => exact absurd rfl (asked.resolve_left fun not => not rfl)
    all_goals simp [exec, Cmd.first, BitState.rank]
  all_goals simp [exec, BitState.rank]

/-! ## The divider -/

namespace BitCtrl

/-- What the divider does around a release of SCL; `cmd` is what the byte controller asks for. In
the clock of the release either a rising state has just been entered, or an arbitration was lost. -/
structure Stalls (cmd : Cmd) (b : BitCtrl) : Prop where
  wait : b.peripheralWait = true → b.sclOen = true ∧ b.scl.d = false ∧
    (b.clkEn = true → 1 ≤ b.cnt ∧ (b.cState.rising = true ∨ b.cState = .idle)) ∧
    (b.cnt = 0 → b.clkEn = false ∧ b.cState = .idle)
  fresh : b.sclOen = true → b.dsclOen = false →
    (b.cState.rising = true ∧ b.clkEn = false ∧ 2 ≤ b.cnt) ∨ (b.cState = .idle ∧ cmd = .nop)

variable {p k a : ℕ} {line : Bool} {b : BitCtrl} {i : BitIn} {cmd' : Cmd}

theorem step_peripheralWait (wait : (b.step i).peripheralWait = true) :
    b.scl.s = false ∧ ((b.sclOen = true ∧ b.dsclOen = false) ∨ b.peripheralWait = true) := by
  simp only [step, Bool.or_eq_true, Bool.and_eq_true, Bool.not_eq_true'] at wait
  tauto

/-- The clock in which the divider starts or goes on waiting: SCL is released. -/
theorem Stalls.step_wait (h : b.Stalls i.cmd) (hp : 3 ≤ p) (hi : i.Running p)
    (wait : (b.step i).peripheralWait = true) :
    (b.step i).sclOen = true ∧ (b.step i).scl.d = false ∧
      ((b.step i).clkEn = true → 1 ≤ (b.step i).cnt ∧
        ((b.step i).cState.rising = true ∨ (b.step i).cState = .idle)) ∧
      ((b.step i).cnt = 0 → (b.step i).clkEn = false ∧ (b.step i).cState = .idle) := by
  obtain ⟨s, since⟩ := step_peripheralWait wait
  have clkEn := step_clkEn (b := b) hi
  have cnt := step_cnt (b := b) hi
  -- a reload leaves the counter at `p`
  have loaded : (b.step i).clkEn = true → (b.step i).cnt = p := fun en => by
    rw [clkEn] at en
    rw [cnt, if_pos en]
  suffices main : (b.step i).sclOen = true ∧
      ((b.step i).clkEn = true → (b.step i).cState.rising = true ∨ (b.step i).cState = .idle) ∧
      ((b.step i).cnt = 0 → (b.step i).cState = .idle) by
    obtain ⟨high, state, idle⟩ := main
    refine ⟨high, by rw [step_d hi, s], fun en => ⟨by rw [loaded en]; omega, state en⟩,
      fun zero => ⟨eq_false_of_ne_true fun en => ?_, idle zero⟩⟩
    have := loaded en
    omega
  have idle_of (high : (b.step i).sclOen = true) (idle : (b.step i).cState = .idle) :
      (b.step i).sclOen = true ∧
        ((b.step i).clkEn = true → (b.step i).cState.rising = true ∨ (b.step i).cState = .idle) ∧
        ((b.step i).cnt = 0 → (b.step i).cState = .idle) :=
    ⟨high, fun _ => Or.inr idle, fun _ => idle⟩
  rcases b.fsm_cases hi with ⟨-, fsm⟩ | ⟨-, en, fsm⟩ | ⟨-, en, fsm⟩
  · exact idle_of (by rw [fsm]; rfl) (by rw [fsm]; rfl)
  · rcases since with ⟨high, low⟩ | waiting
    · rcases h.fresh high low with ⟨-, off, -⟩ | ⟨idle, nop⟩
      · rw [en] at off
        cases off
      · refine idle_of (by rw [fsm]; simp [BitFsm.exec, idle, high]) ?_
        rw [fsm, nop]
        exact BitFsm.exec_idle_nop idle
    · obtain ⟨high, d, enabled, -⟩ := h.wait waiting
      obtain ⟨positive, state⟩ := enabled en
      have nonzero : (b.cnt == 0) = false := by simp only [beq_eq_false_iff_ne]; omega
      have sync : b.sclSync = false := by simp [sclSync, d]
      refine ⟨?_, fun en' => ?_, fun zero => ?_⟩
      · rw [fsm]
        rcases state with rising | idle
        · exact (BitFsm.exec_rising _ _ rising).1
        · simp [BitFsm.exec, idle, high]
      · rw [clkEn, nonzero, sync] at en'
        cases en'
      · rw [cnt, nonzero, sync, waiting] at zero
        simp only [Bool.or_self, Bool.false_eq_true, if_false, if_true] at zero
        omega
  · have high' : (b.step i).sclOen = b.sclOen := by rw [fsm]
    have state' : (b.step i).cState = b.cState := by rw [fsm]
    rw [high', state']
    rcases since with ⟨high, low⟩ | waiting
    · rcases h.fresh high low with ⟨rising, -, two⟩ | ⟨idle, -⟩
      · refine ⟨high, fun _ => Or.inl rising, fun zero => ?_⟩
        have le := step_cnt (b := b) hi
        split_ifs at le <;> omega
      · exact ⟨high, fun _ => Or.inr idle, fun _ => idle⟩
    · obtain ⟨high, d, -, empty⟩ := h.wait waiting
      have sync : b.sclSync = false := by simp [sclSync, d]
      refine ⟨high, fun en' => ?_, fun zero => ?_⟩
      · rw [clkEn, sync, Bool.or_false, beq_iff_eq] at en'
        exact Or.inr (empty en').2
      · rw [cnt, sync, waiting, Bool.or_false] at zero
        by_cases none : b.cnt = 0
        · exact (empty none).2
        · rw [if_neg (by simpa using none), if_pos rfl] at zero
          exact absurd zero none

/-- One clock. After an arbitration loss the byte controller asks for nothing. -/
theorem Stalls.step (h : b.Stalls i.cmd) (timed : b.Timed p k a line) (hp : 3 ≤ p)
    (hi : i.Running p) (lost : b.al = true → cmd' = .nop) : (b.step i).Stalls cmd' where
  wait := h.step_wait hp hi
  fresh := by
    intro high low
    have low : b.sclOen = false := low
    rcases b.fsm_cases hi with ⟨al, fsm⟩ | ⟨-, en, fsm⟩ | ⟨-, -, fsm⟩
    · exact Or.inr ⟨by rw [fsm]; rfl, lost al⟩
    · have before : b.cState.before = true := by
        by_contra after
        rw [timed.up (eq_false_of_ne_true after)] at low
        cases low
      rw [fsm] at high ⊢
      rcases BitFsm.exec_low i.cmd i.din before low with
        ⟨low', -, -⟩ | ⟨-, rising, -, -⟩
      · rw [high] at low'
        cases low'
      · have divider := timed.divider_exec hp hi en
        exact Or.inl ⟨rising, by rw [divider.1, sclSync_of_low low], by omega⟩
    · rw [fsm] at high
      rw [low] at high
      cases high

end BitCtrl

namespace RTLI2C

variable {p t₀ : ℕ} {hold : ℕ → Bool} {r : Run}

/-- The bit counter is three bits wide. -/
theorem EnabledRun.dcnt_lt (run : EnabledRun p t₀ r) (t : ℕ) : (r.st t).byte.dcnt < 8 := by
  induction t with
  | zero =>
    obtain ⟨dout, start⟩ := run.powerOn
    rw [start]
    exact Nat.zero_lt_succ 7
  | succ t ih =>
    rw [r.next]
    exact step_dcnt_lt ih

/-- In every clock of an enabled run. -/
theorem EnabledRun.stalls (run : EnabledRun p t₀ r) (hp : 3 ≤ p) (scl : Stretching r hold)
    (polite : ∀ t, t₀ ≤ t → (r.st t).Polite (r.inp t)) {t : ℕ} (late : t₀ ≤ t) :
    (bitAt r t).Stalls (r.st t).byte.coreCmd := by
  obtain ⟨a₀, sound⟩ := run.sound hp scl polite
  induction t, late using Nat.le_induction with
  | base =>
    obtain ⟨-, a, waiting⟩ := run.waiting scl t₀ le_rfl
    refine ⟨fun wait => ?_, fun _ low => ?_⟩
    · rw [waiting.wait] at wait
      cases wait
    · rw [waiting.dsclOen] at low
      cases low
  | succ t late ih =>
    obtain ⟨k, rfl⟩ := Nat.exists_eq_add_of_le late
    have on := run.on _ late
    rw [bitAt, r.next, step_bit]
    refine BitCtrl.Stalls.step ih (sound k).timed hp (on.running _) fun al => ?_
    rw [(step_lost on.rst al).1]
    rfl

/-! ## Enabled clocks -/

section Never

variable {t : ℕ} (run : EnabledRun p t₀ r) (late : t₀ ≤ t)
  (never : ∀ u, t ≤ u → (bitAt r u).clkEn = false)

include run late never

/-- Without an enabled clock at most one arbitration loss is signalled. -/
theorem no_more_al : ∃ u, t ≤ u ∧ ∀ v, u ≤ v → (r.st v).al = false := by
  by_cases some : ∃ u, t ≤ u ∧ (r.st u).al = true
  · obtain ⟨u, later, al⟩ := some
    have idle : ∀ v, u + 1 ≤ v → (bitAt r v).cState = .idle ∧ (bitAt r v).sdaChk = false := by
      refine r.invariant_from (P := fun s => s.byte.bit.cState = .idle ∧ s.byte.bit.sdaChk = false)
        ?_ fun v after idle => ?_
      · rw [r.next, (step_lost (run.on u (by omega)).rst al).2]
        exact ⟨rfl, rfl⟩
      · rw [step_bit]
        rcases (bitAt r v).fsm_cases ((run.on v (by omega)).running (r.inp v)) with
          ⟨-, fsm⟩ | ⟨-, en, -⟩ | ⟨-, -, fsm⟩
        · rw [fsm]
          exact ⟨rfl, rfl⟩
        · rw [never v (by omega)] at en
          cases en
        · rw [fsm]
          exact idle
    refine ⟨u + 2, by omega, fun v after => ?_⟩
    obtain ⟨w, rfl⟩ : ∃ w, v = w + 1 := ⟨v - 1, by omega⟩
    rw [r.next]
    exact al_of_idle (idle w (by omega)).1 (idle w (by omega)).2
  · exact ⟨t, le_rfl, fun v later => eq_false_of_ne_true fun al => some ⟨v, later, al⟩⟩

/-- Without an enabled clock and an arbitration loss SCL is left as it is. -/
theorem sclOen_stays (noAl : ∀ u, t ≤ u → (r.st u).al = false) {u : ℕ} (later : t ≤ u) :
    (r.st u).sclOen = (r.st t).sclOen := by
  induction u, later using Nat.le_induction with
  | base => rfl
  | succ u later ih =>
    rw [← ih, sclOen, sclOen, r.next, step_bit]
    rcases (bitAt r u).fsm_cases ((run.on u (by omega)).running (r.inp u)) with
      ⟨lost, -⟩ | ⟨-, en, -⟩ | ⟨-, -, fsm⟩
    · rw [show (bitAt r u).al = false from noAl u later] at lost
      cases lost
    · rw [never u later] at en
      cases en
    · rw [fsm]

/-- But a divider that neither waits nor is reloaded early does enable a clock. -/
theorem divider_ticks (wait : ∀ u, t ≤ u → (bitAt r u).peripheralWait = false)
    (sync : ∀ u, t ≤ u → (bitAt r u).sclSync = false) : False := by
  have running := fun u later => (run.on u (le_trans late later)).running (r.inp u)
  obtain ⟨u, later, zero⟩ := reaches_zero (fun u => (bitAt r u).cnt) (t := t)
    fun u later positive => by
      have cnt := BitCtrl.step_cnt (b := bitAt r u) (running u later)
      rw [sync u later, wait u later, ← step_bit, ← r.next] at cnt
      have nonzero : ((bitAt r u).cnt == 0) = false := by simpa using positive
      rw [nonzero] at cnt
      simp only [Bool.or_self, Bool.false_eq_true, if_false] at cnt
      have positive : (bitAt r u).cnt ≠ 0 := positive
      show (bitAt r (u + 1)).cnt + 1 = (bitAt r u).cnt
      rw [bitAt, cnt]
      omega
  have en := BitCtrl.step_clkEn (b := bitAt r u) (running u later)
  rw [← step_bit, ← r.next, show (bitAt r u).cnt = 0 from zero,
    show (r.st (u + 1)).byte.bit.clkEn = false from never (u + 1) (by omega)] at en
  cases en

end Never

/-- On a line that stays high the filtered line is high in the end. -/
theorem EnabledRun.filter_fills (run : EnabledRun p t₀ r) (hp : 3 ≤ p) (scl : Stretching r hold)
    (polite : ∀ t, t₀ ≤ t → (r.st t).Polite (r.inp t)) {t : ℕ} (late : t₀ ≤ t)
    (high : ∀ u, t ≤ u → sclLine r u = true) (u : ℕ) (after : t + (2 * filterPeriod p + 3) ≤ u) :
    (bitAt r u).scl.s = true := by
  obtain ⟨a₀, sound⟩ := run.sound hp scl polite
  have fills : ∀ n,
      (bitAt r (t + n)).scl.Filling (filterPeriod p) (bitAt r (t + n)).filterCnt n true := by
    intro n
    have lt : (bitAt r (t + n)).filterCnt < filterPeriod p := by
      obtain ⟨k, eq⟩ := Nat.exists_eq_add_of_le (show t₀ ≤ t + n by omega)
      rw [eq]
      exact (sound k).timed.filterCnt_lt
    induction n with
    | zero => exact .start lt
    | succ n ih =>
      have running := (run.on (t + n) (by omega)).running (r.inp (t + n))
      have lt' : (bitAt r (t + n)).filterCnt < filterPeriod p := by
        obtain ⟨k, eq⟩ := Nat.exists_eq_add_of_le (show t₀ ≤ t + n by omega)
        rw [eq]
        exact (sound k).timed.filterCnt_lt
      have next := (ih lt').step lt'
      have line : ((bitAt r (t + n)).scl.step ((bitAt r (t + n)).filterCnt == 0) true) =
          (bitAt r (t + n + 1)).scl := by
        rw [bitAt, bitAt, r.next, step_bit, BitCtrl.step_scl running]
        exact congrArg _ (high (t + n) (by omega)).symm
      have count : LineFilter.tickNext (filterPeriod p) (bitAt r (t + n)).filterCnt =
          (bitAt r (t + n + 1)).filterCnt := by
        rw [bitAt, bitAt, r.next, step_bit, BitCtrl.step_filterCnt running]
      rw [line, count] at next
      exact next
  obtain ⟨n, rfl⟩ := Nat.exists_eq_add_of_le (show t ≤ u by omega)
  exact (fills n).s (by omega)

/-- **The divider never stops** unless somebody holds SCL low for ever. -/
theorem EnabledRun.enabled_recurs (run : EnabledRun p t₀ r) (hp : 3 ≤ p) (scl : Stretching r hold)
    (polite : ∀ t, t₀ ≤ t → (r.st t).Polite (r.inp t)) (finite : Recurs fun t => hold t = false) :
    Recurs fun t => (bitAt r t).clkEn = true := by
  intro t
  by_contra none
  have never : ∀ u, max t t₀ ≤ u → (bitAt r u).clkEn = false := fun u later =>
    eq_false_of_ne_true fun en => none ⟨u, le_trans (le_max_left _ _) later, en⟩
  have late : t₀ ≤ max t t₀ := le_max_right _ _
  obtain ⟨u, later, noAl⟩ := no_more_al run late never
  have lateU := le_trans late later
  have neverU : ∀ v, u ≤ v → (bitAt r v).clkEn = false := fun v after =>
    never v (le_trans later after)
  have stays := fun v after => sclOen_stays run lateU neverU noAl (u := v) after
  by_cases high : (r.st u).sclOen = true
  · -- once the line is high it stays so, and the filtered line follows
    obtain ⟨v, after, free⟩ := finite u
    have up : ∀ w, v ≤ w → sclLine r w = true := by
      intro w beyond
      induction w, beyond using Nat.le_induction with
      | base => rw [sclLine, scl.line, stays v after, high, free]; rfl
      | succ w beyond ih => exact scl.keeps ih (by rw [stays (w + 1) (by omega), high])
    have s := run.filter_fills hp scl polite (le_trans lateU after) up
    refine divider_ticks (t := v + (2 * filterPeriod p + 4)) run (by omega)
      (fun w beyond => neverU w (by omega)) (fun w beyond => ?_) fun w beyond => ?_
    · obtain ⟨x, rfl⟩ : ∃ x, w = x + 1 := ⟨w - 1, by omega⟩
      have risen : (r.st x).byte.bit.scl.s = true := s x (by omega)
      rw [bitAt, r.next, step_bit]
      simp [BitCtrl.step, risen]
    · simp [BitCtrl.sclSync, s w (by omega)]
  · have low : ∀ v, u ≤ v → (r.st v).sclOen = false := fun v after => by
      rw [stays v after]
      exact eq_false_of_ne_true high
    refine divider_ticks run lateU neverU (fun v after => eq_false_of_ne_true fun wait => ?_)
      fun v after => BitCtrl.sclSync_of_low (low v after)
    have released := ((run.stalls hp scl polite (le_trans lateU after)).wait wait).1
    rw [show (bitAt r v).sclOen = false from low v after] at released
    cases released

/-! ## The end of a command -/

/-- The enabled clocks that a running command still takes, from a count of its symbols. -/
def rank (s : RTLI2C) : ℕ := 6 * s.left.length + s.byte.bit.cState.rank

section

variable {k a : ℕ} {line : Bool} {s : RTLI2C} {i : In}

/-- A clock in which a command waits for its bit command. -/
theorem rank_wait (h : s.InStep) (on : s.On p) (al : s.al = false) (busy : s.byte.cState ≠ .idle)
    (wait : s.byte.bit.cmdAck = false) (command : (s.step i).command = s.command)
    (txr : (s.step i).txr = s.txr) :
    (s.step i).rank ≤ s.rank ∧ (s.byte.bit.clkEn = true → (s.step i).rank < s.rank) := by
  have next := left_wait (i := i) on al busy wait command txr
  rw [rank, rank, next, step_bit]
  rcases s.byte.bit.fsm_cases (on.running i) with ⟨lost, -⟩ | ⟨-, en, fsm⟩ | ⟨-, en, fsm⟩
  · rw [show s.byte.bit.al = false from al] at lost
    cases lost
  · have asked : s.byte.bit.cState ≠ .idle ∨ (s.byte.bitIn (s.byteIn i)).cmd ≠ .nop :=
      Or.inr fun nop => busy (ByteState.cmd_eq_nop.mp (h.coreCmd.symm.trans nop))
    have nonempty : s.left ≠ [] := by
      simp only [left, wait, Bool.false_eq_true, if_false]
      exact todo_ne_nil h busy
    have length := List.length_pos_of_ne_nil nonempty
    rw [fsm]
    rcases BitFsm.exec_rank (s.byte.bitIn (s.byteIn i)).din asked with
      ⟨ack, full, one⟩ | ⟨noAck, less⟩
    · rw [ack, if_pos rfl, List.length_tail, full]
      omega
    · rw [noAck, if_neg Bool.false_ne_true]
      omega
  · rw [fsm, en]
    simp

/-- A clock in which a bit command is acknowledged; it is not an enabled one. -/
theorem rank_advance (h : s.InStep) (on : s.On p) (hp : 3 ≤ p)
    (timed : s.byte.bit.Timed p k a line) (dcnt : s.byte.dcnt < 8) (al : s.al = false)
    (done : s.done = false) (busy : s.byte.cState ≠ .idle) (ack : s.byte.bit.cmdAck = true)
    (command : (s.step i).command = s.command) (txr : (s.step i).txr = s.txr) :
    (s.step i).rank ≤ s.rank ∧ (s.byte.bit.clkEn = true → (s.step i).rank < s.rank) := by
  obtain ⟨idle, en, -⟩ := h.acked ack
  have idle' := h.bit_stays_idle (i := i) on (Or.inr ack)
  have noAck := h.noAck_next (i := i) on hp timed (Or.inr ack)
  rw [rank, rank, left_advance h on dcnt al done busy ack noAck command txr, idle, idle', en]
  exact ⟨le_rfl, fun h => nomatch h⟩

end

/-- The bit counter and the timing of one clock of an enabled run, and what one clock does to a
running command. -/
theorem EnabledRun.running_next (run : EnabledRun p t₀ r) (hp : 3 ≤ p) (scl : Stretching r hold)
    (polite : ∀ t, t₀ ≤ t → (r.st t).Polite (r.inp t)) {t : ℕ} (late : t₀ ≤ t)
    (running : (r.st t).InPhase .running) (txr : (r.inp t).write .txr = none) :
    ((r.st (t + 1)).InPhase .finishing ∨ (r.st (t + 1)).InPhase .clearing) ∨
      ((r.st (t + 1)).InPhase .running ∧ (r.st (t + 1)).rank ≤ (r.st t).rank ∧
        ((bitAt r t).clkEn = true → (r.st (t + 1)).rank < (r.st t).rank)) := by
  obtain ⟨a₀, sound⟩ := run.sound hp scl polite
  obtain ⟨k, rfl⟩ := Nat.exists_eq_add_of_le late
  obtain ⟨timed, inStep, -, -, -⟩ := sound k
  have on := run.on _ late
  have hw := (polite _ late).no_write running.1
  have kept : (RTLI2C.step (r.st (t₀ + k)) (r.inp (t₀ + k))).txr = (r.st (t₀ + k)).txr := by
    simp [RTLI2C.step, txr]
  rw [r.next]
  by_cases al : (r.st (t₀ + k)).al = true
  · exact Or.inl (Or.inr (running_step_lost on running al hw).2)
  · have al := eq_false_of_ne_true al
    by_cases ack : (r.st (t₀ + k)).byte.bit.cmdAck = true
    · obtain ⟨-, command, phase⟩ := running_step_advance inStep on hp timed running al ack hw
      have rank := rank_advance inStep on hp timed (run.dcnt_lt _) al running.2.2.1 running.2.1 ack
        command kept
      split at phase
      · exact Or.inl (Or.inl phase)
      · exact Or.inr ⟨phase, rank⟩
    · have wait := eq_false_of_ne_true ack
      obtain ⟨-, phase, command⟩ := running_step_wait inStep on hp timed running al wait hw
      exact Or.inr ⟨phase, rank_wait inStep on al running.2.1 wait command kept⟩

/-- **Every command ends**, unless somebody holds SCL low for ever. -/
theorem EnabledRun.ends (run : EnabledRun p t₀ r) (hp : 3 ≤ p) (scl : Stretching r hold)
    (polite : ∀ t, t₀ ≤ t → (r.st t).Polite (r.inp t)) (finite : Recurs fun t => hold t = false)
    {t : ℕ} (late : t₀ ≤ t) (running : (r.st t).InPhase .running)
    (txr : ∀ u, t ≤ u → (∀ v, t ≤ v → v ≤ u → (r.st v).InPhase .running) →
      (r.inp u).write .txr = none) :
    ∃ u, t < u ∧ ((r.st u).InPhase .finishing ∨ (r.st u).InPhase .clearing) ∧
      ∀ v, t ≤ v → v < u → (r.st v).InPhase .running := by
  have nears : Nears (fun u => t ≤ u ∧ ∀ v, t ≤ v → v ≤ u → (r.st v).InPhase .running)
      (fun u => (r.st u).InPhase .finishing ∨ (r.st u).InPhase .clearing)
      (fun u => (bitAt r u).clkEn = true) fun u => (r.st u).rank := by
    rintro u ⟨later, all⟩
    rcases run.running_next hp scl polite (by omega) (all u later le_rfl) (txr u later all) with
      ended | ⟨going, rank⟩
    · exact Or.inl ended
    · refine Or.inr ⟨⟨by omega, fun v low high => ?_⟩, rank⟩
      rcases Nat.lt_or_ge u v with new | old
      · rwa [show v = u + 1 by omega]
      · exact all v low old
  obtain ⟨u, after, ended, all⟩ := (run.enabled_recurs hp scl polite finite).leads_to nears
    ⟨le_rfl, fun v low high => le_antisymm low high ▸ running⟩
  exact ⟨u, after, ended, fun v low high => (all v low high).2 v low le_rfl⟩

/-- The last clock of a command: it is acknowledged, or it is the one clock in which it loses the
arbitration. -/
theorem EnabledRun.finishes (run : EnabledRun p t₀ r) (hp : 3 ≤ p) (scl : Stretching r hold)
    (polite : ∀ t, t₀ ≤ t → (r.st t).Polite (r.inp t)) (finite : Recurs fun t => hold t = false)
    {t : ℕ} (late : t₀ ≤ t) (running : (r.st t).InPhase .running)
    (txr : ∀ u, t ≤ u → (∀ v, t ≤ v → v ≤ u → (r.st v).InPhase .running) →
      (r.inp u).write .txr = none) :
    ∃ e, t ≤ e ∧
      ((r.st e).InPhase .finishing ∨ ((r.st e).InPhase .running ∧ (r.st e).al = true)) ∧
      ∀ u, t ≤ u → u < e → (r.st u).InPhase .running ∧ (r.st u).al = false := by
  obtain ⟨u, after, ended, going⟩ := run.ends hp scl polite finite late running txr
  -- what the running clocks lead to
  have next : ∀ v, t ≤ v → v < u → ((r.st v).al = true ∧ (r.st (v + 1)).InPhase .clearing) ∨
      ((r.st v).al = false ∧ (r.st (v + 1)).command = (r.st v).command ∧
        ((r.st (v + 1)).InPhase .running ∨ (r.st (v + 1)).InPhase .finishing)) := by
    intro v low high
    have here := going v low high
    obtain ⟨k, a, line, sound⟩ := run.sound_at hp scl polite (t := v) (by omega)
    rw [r.next]
    exact running_step sound.inStep (run.on v (by omega)) hp sound.timed here
      ((polite v (by omega)).no_write here.1)
  have calm : ∀ v, t ≤ v → v + 1 < u → (r.st v).al = false := by
    intro v low high
    rcases next v low (by omega) with ⟨-, lost⟩ | ⟨al, -⟩
    · exact absurd lost.2.1 (going (v + 1) (by omega) high).2.1
    · exact al
  obtain ⟨z, rfl⟩ : ∃ z, u = z + 1 := ⟨u - 1, by omega⟩
  have last := going z (by omega) (by omega)
  rcases next z (by omega) (by omega) with ⟨al, -⟩ | ⟨al, -, phase⟩
  · exact ⟨z, by omega, Or.inr ⟨last, al⟩, fun v low high =>
      ⟨going v low (by omega), calm v low (by omega)⟩⟩
  · refine ⟨z + 1, by omega, Or.inl ?_, fun v low high => ⟨going v low high, ?_⟩⟩
    · have idle : (r.st (z + 1)).byte.cState = .idle :=
        ended.elim (fun finishing => finishing.2.1) fun clearing => clearing.2.1
      exact phase.resolve_left fun running => running.2.1 idle
    · rcases Nat.lt_or_ge v z with before | here
      · exact calm v low (by omega)
      · rwa [show v = z by omega]

end RTLI2C

end Rockling
