import Rockling.Rtl.Ownership

/-!
# Bounds on the bus clock

The bounds that the prescale gives on the bus clock, over whole runs and however long others stretch
it: the controller releases SCL at most once every five divider periods, holds it low for at least
three, and leaves it alone for at least two once the filtered line has risen
(`bus_clock_bounds`). The pace of one clock comes from `Paced`; here it is added up.
-/

namespace Rockling

namespace RTLI2C

variable {p t₀ a₀ : ℕ} {hold : ℕ → Bool} {r : Run}

/-- The controller starts to drive SCL low after clock `t`. -/
def Falls (r : Run) (t : ℕ) : Prop := (r.st t).sclOen = true ∧ (r.st (t + 1)).sclOen = false

/-- The controller lets go of SCL after clock `t`. -/
def Releases (r : Run) (t : ℕ) : Prop := (r.st t).sclOen = false ∧ (r.st (t + 1)).sclOen = true

/-! ## Adding up, from the clock that enables the core -/

section Sums

/-- Every clock from `t₀` on is paced. -/
abbrev AllPaced (p t₀ a₀ : ℕ) (r : Run) : Prop :=
  ∀ k, Paced p k (ageAt r t₀ a₀ k) (sclLine r (t₀ + k)) (r.st (t₀ + k))

/-- Since the last fall at most the time since any fall has passed. -/
theorem ageAt_le {n : ℕ} (fall : Falls r (t₀ + n)) {k : ℕ} (later : n + 1 ≤ k) :
    ageAt r t₀ a₀ k + (n + 1) ≤ k := by
  induction k, later using Nat.le_induction with
  | base =>
    rw [ageAt, BitCtrl.ageNext_fall fall.1 fall.2]
    omega
  | succ k later ih =>
    rw [ageAt, BitCtrl.ageNext]
    split <;> omega

variable (run : OwnedRun p t₀ hold r) (hp : 3 ≤ p) (paced : AllPaced p t₀ a₀ r)

include run hp paced

/-- What a release tells. -/
theorem release_paced {k : ℕ} (release : Releases r (t₀ + k)) :
    3 * (p + 1) ≤ ageAt r t₀ a₀ k + 1 ∧ (bitAt r (t₀ + k)).clkEn = true ∧
      (bitAt r (t₀ + k)).cState.periodRank = 4 ∧ (bitAt r (t₀ + k + 1)).cState.rising = true := by
  have on := run.enabled.on (t₀ + k) (Nat.le_add_right _ _)
  have high := release.2
  rw [r.next] at high
  have rel := (paced k).paced.release (paced k).timed hp (on.running (r.inp (t₀ + k)))
    (run.noAl _) release.1 high
  rw [← step_bit, ← r.next] at rel
  exact rel

/-- SCL is low for three divider periods. -/
theorem low_three {n : ℕ} (fall : Falls r (t₀ + n)) {k : ℕ} (later : n + 1 ≤ k)
    (soon : k < n + 1 + 3 * (p + 1)) : (r.st (t₀ + k)).sclOen = false := by
  induction k, later using Nat.le_induction with
  | base => exact fall.2
  | succ k later ih =>
    have low := ih (by omega)
    by_contra high
    have rel := (release_paced run hp paced (k := k) ⟨low, eq_true_of_ne_false high⟩).1
    have age : ageAt r t₀ a₀ k + (n + 1) ≤ k := ageAt_le fall later
    omega

/-- After the first release the divider is never reloaded early. -/
theorem calm {n : ℕ} (release : Releases r (t₀ + n)) {k : ℕ} (later : n + 1 ≤ k)
    (high : (r.st (t₀ + k)).sclOen = true) : 2 * filterPeriod p + 4 ≤ ageAt r t₀ a₀ k := by
  have long {j : ℕ} (rel : Releases r (t₀ + j)) :
      2 * filterPeriod p + 4 ≤ ageAt r t₀ a₀ (j + 1) := by
    have age := (release_paced run hp paced rel).1
    rw [ageAt, BitCtrl.ageNext_of_low rel.1]
    unfold filterPeriod
    omega
  induction k, later using Nat.le_induction with
  | base => exact long release
  | succ k later ih =>
    by_cases before : (r.st (t₀ + k)).sclOen = true
    · have age := ih before
      have high' : (bitAt r (t₀ + k + 1)).sclOen = true := high
      rw [ageAt, BitCtrl.ageNext_of_high high']
      omega
    · exact long ⟨eq_false_of_ne_true before, high⟩

theorem no_sync {n : ℕ} (release : Releases r (t₀ + n)) {k : ℕ} (later : n + 1 ≤ k) :
    (bitAt r (t₀ + k)).sclSync = false := by
  by_cases high : (r.st (t₀ + k)).sclOen = true
  · rw [BitCtrl.sclSync_eq,
      show (bitAt r (t₀ + k)).scl.falls = false from
        (paced k).timed.settling.not_falls (calm run hp paced release later high)]
    rfl
  · exact BitCtrl.sclSync_of_low (eq_false_of_ne_true high)

/-- A rank that steps raise by at most one is kept below the time that has passed. -/
theorem rank_le (rank : BitState → ℕ)
    (step : ∀ (x : BitFsm) cmd din, rank (x.exec cmd din).cState ≤ rank x.cState + 1)
    {n c : ℕ} (release : Releases r (t₀ + n)) {m : ℕ} (after : n + 1 ≤ m)
    (base : rank (bitAt r (t₀ + m)).cState * (p + 1) + (bitAt r (t₀ + m)).pace p + c ≤ m + 1)
    {k : ℕ} (later : m ≤ k) :
    rank (bitAt r (t₀ + k)).cState * (p + 1) + (bitAt r (t₀ + k)).pace p + c ≤ k + 1 := by
  induction k, later using Nat.le_induction with
  | base => exact base
  | succ k later ih =>
    have on := run.enabled.on (t₀ + k) (Nat.le_add_right _ _)
    have next := BitCtrl.rank_step rank (paced k).timed hp (on.running (r.inp (t₀ + k)))
      (run.noAl _) (no_sync run hp paced release (by omega)) fun _ => step _ _ _
    rw [← step_bit, ← r.next] at next
    have sum := next.trans (Nat.add_le_add_right (Nat.le_sub_of_add_le ih) 1)
    have here : rank (bitAt r (t₀ + (k + 1))).cState * (p + 1) + (bitAt r (t₀ + (k + 1))).pace p ≤
      k + 1 - c + 1 := sum
    omega

/-- The state entered with a release has used up one clock of its divider period. -/
theorem pace_of_release {n : ℕ} (release : Releases r (t₀ + n)) :
    (bitAt r (t₀ + (n + 1))).pace p ≤ 1 := by
  have on := run.enabled.on (t₀ + n) (Nat.le_add_right _ _)
  have en := (release_paced run hp paced release).2.1
  have pace := (BitCtrl.pace_exec (paced n).timed hp (on.running (r.inp (t₀ + n))) en
    (BitCtrl.sclSync_of_low release.1)).2.2
  rw [← step_bit, ← r.next] at pace
  exact pace

/-- Releases are five divider periods apart. -/
theorem period_five {n k : ℕ} (first : Releases r (t₀ + n)) (second : Releases r (t₀ + k))
    (later : n < k) : n + 5 * (p + 1) ≤ k := by
  have rising := (release_paced run hp paced first).2.2.2
  have zero : (bitAt r (t₀ + (n + 1))).cState.periodRank = 0 := by
    have rising' : (bitAt r (t₀ + (n + 1))).cState.rising = true := rising
    revert rising'
    cases (bitAt r (t₀ + (n + 1))).cState <;> decide
  have sum := rank_le run hp paced BitState.periodRank BitFsm.exec_periodRank first le_rfl
    (c := n + 1) (by have := pace_of_release run hp paced first; rw [zero]; omega) later
  obtain ⟨-, en, fourth, -⟩ := release_paced run hp paced second
  rw [fourth, BitCtrl.pace, if_pos en] at sum
  omega

/-- Until the filtered line has risen the divider is stopped in the state entered with the release.
-/
theorem stopped {n : ℕ} (release : Releases r (t₀ + n)) {k : ℕ} (later : n + 1 ≤ k)
    (lowYet : ∀ j, n + 1 ≤ j → j < k → (bitAt r (t₀ + j)).scl.s = false) :
    (bitAt r (t₀ + k)).cState.rising = true ∧ (bitAt r (t₀ + k)).clkEn = false ∧
      ((bitAt r (t₀ + k)).dsclOen = false ∨ (bitAt r (t₀ + k)).peripheralWait = true) := by
  induction k, later using Nat.le_induction with
  | base =>
    have rising := (release_paced run hp paced release).2.2.2
    have fresh : (bitAt r (t₀ + (n + 1))).dsclOen = false := by
      show (r.st (t₀ + n + 1)).byte.bit.dsclOen = false
      rw [r.next]
      exact release.1
    refine ⟨rising, ?_, Or.inl fresh⟩
    rcases ((paced (n + 1)).paced.rising rising).2 with
      ⟨-, -, -, off, -, -⟩ | ⟨-, oen, -, -, -⟩ | ⟨-, oen, -⟩
    · exact off
    · rw [fresh] at oen
      cases oen
    · rw [fresh] at oen
      cases oen
  | succ k later ih =>
    obtain ⟨rising, off, way⟩ := ih fun j hj hk => lowYet j hj (by omega)
    have high := ((paced k).paced.rising rising).1
    have on := run.enabled.on (t₀ + k) (Nat.le_add_right _ _)
    have s := lowYet k (by omega) (by omega)
    have rising' : (bitAt r (t₀ + k + 1)).cState.rising = true := by
      rw [bitAt, r.next, step_bit]
      rcases (bitAt r (t₀ + k)).fsm_cases (on.running (r.inp (t₀ + k))) with
        ⟨lost, -⟩ | ⟨-, en, -⟩ | ⟨-, -, fsm⟩
      · rw [show (bitAt r (t₀ + k)).al = false from run.noAl _] at lost
        cases lost
      · rw [off] at en
        cases en
      · rw [fsm]
        exact rising
    have wait' : (bitAt r (t₀ + k + 1)).peripheralWait = true := by
      rw [bitAt, r.next, step_bit]
      rcases way with fresh | wait
      · simp [BitCtrl.step, high, fresh, s]
      · simp [BitCtrl.step, wait, s]
    refine ⟨rising', ?_, Or.inr wait'⟩
    rcases ((paced (k + 1)).paced.rising rising').2 with
      ⟨-, -, -, off', -, -⟩ | ⟨-, -, -, off', -⟩ | ⟨-, -, wait⟩
    · exact off'
    · exact off'
    · have wait'' : (bitAt r (t₀ + k + 1)).peripheralWait = false := wait
      rw [wait'] at wait''
      cases wait''

/-- In the clock after the filtered line has risen the divider has two clocks behind it. -/
theorem pace_of_risen {n : ℕ} (release : Releases r (t₀ + n)) {k : ℕ} (later : n + 1 ≤ k)
    (lowYet : ∀ j, n + 1 ≤ j → j < k → (bitAt r (t₀ + j)).scl.s = false)
    (risen : (bitAt r (t₀ + k)).scl.s = true) :
    (bitAt r (t₀ + (k + 1))).cState.highRank = 0 ∧ (bitAt r (t₀ + (k + 1))).pace p ≤ 2 ∧
      (r.st (t₀ + k)).sclOen = true ∧ (r.st (t₀ + (k + 1))).sclOen = true := by
  obtain ⟨rising, off, way⟩ := stopped run hp paced release later lowYet
  obtain ⟨high, cases⟩ := (paced k).paced.rising rising
  have on := run.enabled.on (t₀ + k) (Nat.le_add_right _ _)
  have running := on.running (r.inp (t₀ + k))
  have sync := no_sync run hp paced release later
  obtain ⟨cnt, wait⟩ : (bitAt r (t₀ + k)).cnt + 2 = p ∧
      (bitAt r (t₀ + k)).peripheralWait = true := by
    rcases cases with ⟨-, -, -, -, s, -⟩ | ⟨-, -, cnt, -, wait⟩ | ⟨-, oen, wait⟩
    · rw [risen] at s
      cases s
    · exact ⟨cnt, wait⟩
    · rcases way with fresh | held
      · rw [oen] at fresh
        cases fresh
      · rw [wait] at held
        cases held
  have nonzero : ((bitAt r (t₀ + k)).cnt == 0) = false := by
    simp only [beq_eq_false_iff_ne]
    omega
  show (r.st (t₀ + k + 1)).byte.bit.cState.highRank = 0 ∧
    (r.st (t₀ + k + 1)).byte.bit.pace p ≤ 2 ∧ (r.st (t₀ + k)).sclOen = true ∧
      (r.st (t₀ + k + 1)).sclOen = true
  rw [r.next, sclOen, sclOen, step_bit]
  rcases (bitAt r (t₀ + k)).fsm_cases running with ⟨lost, -⟩ | ⟨-, en, -⟩ | ⟨-, -, fsm⟩
  · rw [show (bitAt r (t₀ + k)).al = false from run.noAl _] at lost
    cases lost
  · rw [off] at en
    cases en
  · have rank : (bitAt r (t₀ + k)).cState.highRank = 0 := by
      revert rising
      cases (bitAt r (t₀ + k)).cState <;> decide
    refine ⟨by rw [fsm]; exact rank, ?_, high, by rw [fsm]; exact high⟩
    rw [BitCtrl.pace, BitCtrl.step_clkEn running, BitCtrl.step_cnt running, sync, wait, nonzero]
    have left : (r.st (t₀ + k)).byte.bit.cnt + 2 = p := cnt
    simp only [Bool.or_self, Bool.false_eq_true, if_false, if_true]
    omega

/-- Once the filtered line has risen, SCL is left alone for two divider periods. -/
theorem high_two {n : ℕ} (release : Releases r (t₀ + n)) {m : ℕ} (later : n + 1 ≤ m)
    (lowYet : ∀ j, n + 1 ≤ j → j < m → (bitAt r (t₀ + j)).scl.s = false)
    (risen : (bitAt r (t₀ + m)).scl.s = true) {k : ℕ} (after : m ≤ k)
    (soon : k < m + 2 * (p + 1)) : (r.st (t₀ + k)).sclOen = true := by
  obtain ⟨zero, pace, high₀, high₁⟩ := pace_of_risen run hp paced release later lowYet risen
  induction k, after using Nat.le_induction with
  | base => exact high₀
  | succ k after ih =>
    have high := ih (by omega)
    by_contra low
    have low' : (r.st (t₀ + k + 1)).sclOen = false := eq_false_of_ne_true low
    have first : m + 1 ≤ k := by
      by_contra early
      obtain rfl : k = m := by omega
      exact low high₁
    have on := run.enabled.on (t₀ + k) (Nat.le_add_right _ _)
    rw [r.next] at low'
    obtain ⟨en, rank⟩ : (bitAt r (t₀ + k)).clkEn = true ∧
        1 ≤ (bitAt r (t₀ + k)).cState.highRank :=
          (paced k).paced.fall (on.running (r.inp (t₀ + k))) (run.noAl _)
      (fun en idle high => (paced k).owned.cmd (paced k).inStep en idle high) high low'
    have sum := rank_le run hp paced BitState.highRank BitFsm.exec_highRank release
      (m := m + 1) (c := m) (by omega) (by rw [zero]; omega) first
    rw [BitCtrl.pace, if_pos en] at sum
    have le := Nat.mul_le_mul_right (p + 1) rank
    omega

end Sums

/-! ## Who owns the bus, from the commands written -/

/-- No command has been written before clock `t`, or the last one carried STO. -/
def freeAt (r : Run) : ℕ → Bool
  | 0 => true
  | t + 1 =>
    match (r.inp t).write .command with
    | some v => v.getLsbD 6
    | none => freeAt r t

/-- A core whose last command carried STO if `free` is set: otherwise it keeps SCL low when the
command is over. -/
structure Follows (free : Bool) (s : RTLI2C) : Prop where
  command : s.transfers = true → s.stop = free
  quiet : s.command = 0 → free = false → s.sclOen = false
  done : s.done = true → s.stop = false → s.sclOen = false

section Follows

variable {k a : ℕ} {line free : Bool} {s : RTLI2C} {i : In}

theorem ne_zero_of_transfers (h : s.transfers = true) : s.command ≠ 0 := by
  intro zero
  rw [transfers_of_zero zero] at h
  cases h

/-- While a command runs, nothing changes but its end. -/
theorem Follows.keep (h : Follows free s) (transfers : s.transfers = true)
    (keeps : (s.step i).command = s.command)
    (done : (s.step i).done = true → s.stop = false → (s.step i).sclOen = false) :
    Follows free (s.step i) where
  command := fun _ => by rw [stop, keeps, ← stop, h.command transfers]
  quiet := fun zero => absurd (keeps ▸ zero) (ne_zero_of_transfers transfers)
  done := fun fin sto => done fin (by rwa [stop, keeps, ← stop] at sto)

/-- A quiescent core, whether it is given a command or not. -/
theorem Follows.step_quiescent (h : Follows free s) (paced : Paced p k a line s) (hp : 3 ≤ p)
    (on : s.On p) (al : s.al = false) (polite : s.Polite i) (command : s.command = 0)
    (idle : s.byte.cState = .idle) (done : s.done = false) :
    Follows (match i.write .command with | some v => v.getLsbD 6 | none => free) (s.step i) := by
  have same := step_sclOen_idle (i := i) on al (paced.inStep.bit_idle idle)
  have fsm := step_idle (i := i) on.rst al idle (go_of_command_zero command)
  have notDone : (s.step i).done = false := by rw [RTLI2C.done, fsm]
  cases hw : i.write .command with
  | none =>
    have zero : (s.step i).command = 0 := by rw [step_command hw, command, ite_self]
    exact {
      command := fun transfers => absurd zero (ne_zero_of_transfers transfers)
      quiet := fun _ notFree => by rw [same, h.quiet command notFree]
      done := fun fin => by rw [notDone] at fin; cases fin }
  | some v =>
    obtain ⟨-, -, -, asks⟩ := polite v hw
    obtain ⟨-, pending, new⟩ := write_step paced.inStep on hp paced.timed command idle done
      al hw asks
    exact {
      command := fun _ => by simp [stop, new]
      quiet := fun zero => absurd zero (ne_zero_of_transfers pending.1)
      done := fun fin => by rw [notDone] at fin; cases fin }

/-- One clock. -/
theorem Follows.step (h : Follows free s) (paced : Paced p k a line s) (hp : 3 ≤ p)
    (on : s.On p) (al : s.al = false) (polite : s.Polite i) :
    Follows (match i.write .command with | some v => v.getLsbD 6 | none => free) (s.step i) := by
  obtain ⟨f, ph⟩ := paced.phase
  have inStep := paced.inStep
  cases f with
  | resting => exact h.step_quiescent paced hp on al polite ph.1 ph.2.1 ph.2.2.1
  | pending =>
    have hw := polite.no_write ph.1
    have next := pending_step inStep on hp paced.timed ph hw
    rw [hw]
    refine h.keep ph.1 next.2.2.1 fun done => ?_
    rw [next.2.1.2.2.1] at done
    cases done
  | running =>
    have hw := polite.no_write ph.1
    have transfers := ph.1
    have busy := ph.2.1
    rw [hw]
    by_cases ack : s.byte.bit.cmdAck = true
    · have next := running_step_advance inStep on hp paced.timed ph al ack hw
      have fsm := step_advance (i := i) inStep on.rst al ph.2.2.1 busy ack
      refine h.keep transfers next.2.1 fun fin sto => ?_
      have ended : s.byte.cState.succ s.read s.stop (s.byte.dcnt == 0) = .idle := by
        rw [RTLI2C.done, fsm] at fin
        simpa using fin
      rw [step_sclOen_idle on al (inStep.acked ack).1, paced.owned.acked ack, inStep.coreCmd]
      rcases ByteState.succ_eq_idle ended with idle | slot | last
      · exact absurd idle busy
      · rw [slot]
        cases s.read <;> rfl
      · rw [inStep.stop last] at sto
        cases sto
    · have next := running_step_wait inStep on hp paced.timed ph al (eq_false_of_ne_true ack) hw
      refine h.keep transfers next.2.2 fun fin => ?_
      rw [next.2.1.2.2.1] at fin
      cases fin
  | finishing =>
    have hw := polite.no_write ph.1
    have clear := finishing_step inStep on hp paced.timed ph hw
    obtain ⟨transfers, idle, done, -, -⟩ := ph
    rw [hw]
    exact {
      command := fun transfers' => absurd clear.2.1.1 (ne_zero_of_transfers transfers')
      quiet := fun _ notFree => by
        rw [step_sclOen_idle on al (inStep.bit_idle idle)]
        exact h.done done ((h.command transfers).trans notFree)
      done := fun fin => by
        rw [clear.2.1.2.2.1] at fin
        cases fin }
  | clearing => exact h.step_quiescent paced hp on al polite ph.1 ph.2.1 ph.2.2.1

end Follows

/-- A run in which commands are written one at a time, while the core is quiescent; each asks for
exactly one transfer, and begins with START if it is the first or follows one with STO. No
arbitration is lost. -/
structure SerialRun (p t₀ : ℕ) (hold : ℕ → Bool) (r : Run) : Prop where
  enabled : EnabledRun p t₀ r
  scl : Stretching r hold
  noAl : ∀ t, (r.st t).al = false
  commands : ∀ t v, t₀ ≤ t → (r.inp t).write .command = some v →
    (r.st t).command = 0 ∧ (r.st t).byte.cState = .idle ∧ isTransfer v = true ∧
      (freeAt r t = true → v.getLsbD 7 = true)

theorem SerialRun.polite (run : SerialRun p t₀ hold r) (t : ℕ) (late : t₀ ≤ t) :
    (r.st t).Polite (r.inp t) := by
  intro v hw
  obtain ⟨command, idle, asks, -⟩ := run.commands t v late hw
  exact ⟨command, idle, run.noAl t, asks⟩

/-- No command is written before the core is enabled. -/
theorem EnabledRun.freeAt (run : EnabledRun p t₀ r) {t : ℕ} (early : t ≤ t₀) :
    freeAt r t = true := by
  induction t with
  | zero => rfl
  | succ t ih =>
    rw [RTLI2C.freeAt, (run.disabled t (by omega)).2]
    exact ih (by omega)

/-- A command without START finds the bus owned. -/
theorem SerialRun.claims (run : SerialRun p t₀ hold r) {t : ℕ} (late : t₀ ≤ t)
    (follows : Follows (freeAt r t) (r.st t)) : (r.st t).Claims (r.inp t) := by
  intro v hw
  obtain ⟨command, -, -, sta⟩ := run.commands t v late hw
  by_cases free : freeAt r t = true
  · exact Or.inl (sta free)
  · exact Or.inr (follows.quiet command (eq_false_of_ne_true free))

/-- Whoever follows the rule on START owns the bus when it does not begin with one. -/
theorem SerialRun.owned (run : SerialRun p t₀ hold r) (hp : 3 ≤ p) : OwnedRun p t₀ hold r := by
  obtain ⟨high, a₀, waiting⟩ := run.enabled.waiting run.scl t₀ le_rfl
  have all : ∀ k, Paced p k (ageAt r t₀ a₀ k) (sclLine r (t₀ + k)) (r.st (t₀ + k)) ∧
      Follows (freeAt r (t₀ + k)) (r.st (t₀ + k)) := by
    intro k
    induction k with
    | zero =>
      rw [Nat.add_zero, high, run.enabled.freeAt le_rfl]
      exact ⟨waiting.paced run.enabled.cnt, {
        command := fun transfers => absurd waiting.command (ne_zero_of_transfers transfers)
        quiet := fun _ free => by cases free
        done := fun done => by rw [waiting.done] at done; cases done }⟩
    | succ k ih =>
      obtain ⟨paced, follows⟩ := ih
      have late : t₀ ≤ t₀ + k := Nat.le_add_right _ _
      have on := run.enabled.on _ late
      have polite := run.polite _ late
      have keeps := run.scl.keeps (t := t₀ + k)
      have oen := run.scl.oen (t := t₀ + k + 1)
      rw [r.next] at keeps oen
      have next := paced.step hp on (run.noAl _) polite (run.claims late follows) rfl keeps oen
      have follow := follows.step paced hp on (run.noAl _) polite
      rw [← r.next] at next follow
      exact ⟨next, follow⟩
  refine ⟨run.enabled, run.scl, run.noAl, run.polite, fun t late => ?_⟩
  obtain ⟨k, rfl⟩ := Nat.exists_eq_add_of_le late
  exact run.claims late (all k).2

/-! ## The bounds -/

/-- The system clock, in Hz. -/
def SYS_CLK_FREQ : ℕ := 12000000

/-- **The prescale bounds the bus clock, however long others stretch it.** Releases of SCL are at
least `5 * (p + 1)` clocks apart, SCL is held low for at least `3 * (p + 1)` clocks at a time, and
it is left alone for at least `2 * (p + 1)` clocks once the filtered line reads high after a
release. At the prescale that `i2c_init` configures these are 10 µs (100 kHz), more than 4.7 µs and
4 µs. -/
theorem bus_clock_bounds (hp : 3 ≤ p) (run : SerialRun p t₀ hold r) :
    (∀ t₁ t₂, Releases r t₁ → Releases r t₂ → t₁ < t₂ → t₁ + 5 * (p + 1) ≤ t₂) ∧
    (∀ t₁ t, Falls r t₁ → t₁ < t → t < t₁ + 1 + 3 * (p + 1) → (r.st t).sclOen = false) ∧
    (∀ t₁ t₂ t, Releases r t₁ → t₁ < t₂ → (bitAt r t₂).scl.s = true →
      (∀ u, t₁ < u → u < t₂ → (bitAt r u).scl.s = false) →
      t₂ ≤ t → t < t₂ + 2 * (p + 1) → (r.st t).sclOen = true) ∧
    (p = 23 → SYS_CLK_FREQ ≤ 100000 * (5 * (p + 1)) ∧ 47 * SYS_CLK_FREQ ≤ 3 * (p + 1) * 10000000 ∧
      40 * SYS_CLK_FREQ ≤ 2 * (p + 1) * 10000000) := by
  have owned := run.owned hp
  obtain ⟨a₀, paced⟩ := owned.paced hp
  -- nothing moves before the core is enabled
  have quiet : ∀ t ≤ t₀, (r.st t).sclOen = true := fun t early =>
    let ⟨_, _, waiting⟩ := run.enabled.waiting run.scl t early
    waiting.dormant.sclOen
  have falls : ∀ t, Falls r t → t₀ ≤ t := by
    intro t fall
    by_contra early
    have high := quiet (t + 1) (by omega)
    rw [fall.2] at high
    cases high
  have releases : ∀ t, Releases r t → t₀ ≤ t := by
    intro t release
    by_contra early
    have high := quiet t (by omega)
    rw [release.1] at high
    cases high
  refine ⟨fun t₁ t₂ first second later => ?_, fun t₁ t fall later soon => ?_,
    fun t₁ t₂ t release later risen lowYet after soon => ?_, fun is => ?_⟩
  · obtain ⟨n, rfl⟩ := Nat.exists_eq_add_of_le (releases t₁ first)
    obtain ⟨k, rfl⟩ := Nat.exists_eq_add_of_le (releases t₂ second)
    have apart := period_five owned hp paced first second (by omega)
    omega
  · obtain ⟨n, rfl⟩ := Nat.exists_eq_add_of_le (falls t₁ fall)
    obtain ⟨k, rfl⟩ := Nat.exists_eq_add_of_le (show t₀ ≤ t by omega)
    exact low_three owned hp paced fall (by omega) (by omega)
  · obtain ⟨n, rfl⟩ := Nat.exists_eq_add_of_le (releases t₁ release)
    obtain ⟨m, rfl⟩ := Nat.exists_eq_add_of_le (show t₀ ≤ t₂ by omega)
    obtain ⟨k, rfl⟩ := Nat.exists_eq_add_of_le (show t₀ ≤ t by omega)
    exact high_two owned hp paced release (by omega)
      (fun j hj hm => lowYet (t₀ + j) (by omega) (by omega)) risen (by omega) (by omega)
  · subst is
    decide

/-- The bounds on the run that sends one byte at prescale 3, with a bit that is stretched. -/
theorem bus_clock_bounds_sample :
    3 ≤ 3 ∧ SerialRun 3 3 sampleHold sampleRun ∧
      ∀ t₁ t₂, Releases sampleRun t₁ → Releases sampleRun t₂ → t₁ < t₂ → t₁ + 5 * (3 + 1) ≤ t₂ := by
  have serial : SerialRun 3 3 sampleHold sampleRun := by
    refine ⟨sampleRun_enabled, sampleRun_stretching, sampleRun_noAl, fun t v _ hw => ?_⟩
    obtain ⟨rfl, rfl⟩ := sampleRun_command hw
    exact ⟨by decide +kernel, by decide +kernel, by decide, fun _ => by decide⟩
  exact ⟨le_rfl, serial, (bus_clock_bounds le_rfl serial).1⟩

end RTLI2C

end Rockling
