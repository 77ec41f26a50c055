import Rockling.Rtl.Pace

/-!
# Owning the bus

A core that holds SCL low owns the bus. When every command either begins with a START or finds the
bus owned, and no arbitration is lost, a bit command other than START always starts with SCL low
(`Owned`). This is what `Paced` asks of the byte controller, so in such a run the pace of SCL is
kept in every clock.
-/

namespace Rockling

namespace BitFsm

variable {x : BitFsm} {cmd : Cmd} {din : Bool}

/-- Only a STOP ends with SCL released. -/
theorem exec_last_sclOen (last : x.cState.isLast = true) :
    (x.exec cmd din).sclOen = (x.cState.cmd == .stop) := by
  obtain ⟨c, k, scl, sda, chk⟩ := x
  cases c <;> first | rfl | cases last

/-- A bit command is back before its release of SCL only once it is over. -/
theorem exec_back (notBefore : x.cState.before = false)
    (before : (x.exec cmd din).cState.before = true) : (x.exec cmd din).cmdAck = true := by
  obtain ⟨c, k, scl, sda, chk⟩ := x
  cases c <;> first | rfl | (cases notBefore; done) | cases before

/-- Before its release of SCL a bit command does not let go of it. -/
theorem exec_before_sclOen (low : x.sclOen = false)
    (before : (x.exec cmd din).cState.before = true) (prior : x.cState.before = true) :
    (x.exec cmd din).sclOen = false := by
  rcases exec_low cmd din prior low with ⟨low', -, -⟩ | ⟨-, rising, -, -⟩
  · exact low'
  · rw [BitCtrl.not_rising_of_before before] at rising
    cases rising

end BitFsm

namespace RTLI2C

/-- A command other than one that starts with START finds SCL held low by the controller, and so
does each of its bit commands. -/
structure Owned (s : RTLI2C) : Prop where
  acked : s.byte.bit.cmdAck = true → s.sclOen = (s.byte.coreCmd == .stop)
  bus : s.byte.coreCmd ≠ .nop → s.byte.coreCmd ≠ .start → s.byte.bit.cmdAck = false →
    s.byte.bit.cState.before = true → s.sclOen = false
  pending : s.transfers = true → s.byte.cState = .idle → s.done = false →
    s.start = true ∨ s.sclOen = false

/-- A command that may be written: it begins with START unless the core owns the bus. -/
def Claims (s : RTLI2C) (i : In) : Prop :=
  ∀ v, i.write .command = some v → v.getLsbD 7 = true ∨ s.sclOen = false

section

variable {p k a : ℕ} {line : Bool} {s : RTLI2C} {i : In}

/-- What `Paced` asks for: with SCL released only a START is executed. -/
theorem Owned.cmd (h : s.Owned) (inStep : s.InStep) (en : s.byte.bit.clkEn = true)
    (idle : s.byte.bit.cState = .idle) (high : s.sclOen = true) :
    s.byte.coreCmd = .nop ∨ s.byte.coreCmd = .start := by
  by_contra other
  rw [not_or] at other
  have noAck : s.byte.bit.cmdAck = false := by
    by_contra ack
    rw [(inStep.acked (by simpa using ack)).2.1] at en
    cases en
  have low := h.bus other.1 other.2 noAck (by rw [idle]; rfl)
  rw [high] at low
  cases low

/-- An idle bit controller leaves SCL as it is. -/
theorem step_sclOen_idle (on : s.On p) (al : s.al = false) (idle : s.byte.bit.cState = .idle) :
    (s.step i).sclOen = s.sclOen := by
  simp only [sclOen, step_bit]
  rcases s.byte.bit.fsm_cases (on.running i) with ⟨lost, -⟩ | ⟨-, -, fsm⟩ | ⟨-, -, fsm⟩
  · rw [show s.byte.bit.al = false from al] at lost
    cases lost
  · rw [fsm]
    simp [BitFsm.exec, idle]
  · rw [fsm]

theorem owned_of_nop (nop : s.byte.coreCmd = .nop) (noAck : s.byte.bit.cmdAck = false)
    (pending : s.transfers = true → s.byte.cState = .idle → s.done = false →
      s.start = true ∨ s.sclOen = false) : s.Owned where
  acked := fun ack => by rw [noAck] at ack; cases ack
  bus := fun not => absurd nop not
  pending := pending

/-- A quiescent core. -/
theorem Owned.step_quiescent (inStep : s.InStep) (on : s.On p) (hp : 3 ≤ p)
    (timed : s.byte.bit.Timed p k a line) (al : s.al = false) (claims : s.Claims i)
    (command : s.command = 0) (idle : s.byte.cState = .idle) (done : s.done = false) :
    (s.step i).Owned := by
  have fsm := step_idle (i := i) on.rst al idle (go_of_command_zero command)
  refine owned_of_nop ?_ (inStep.noAck_next on hp timed (Or.inl idle)) fun transfers _ _ => ?_
  · rw [fsm]
    simp [inStep.coreCmd, idle, ByteState.cmd]
  · rw [step_sclOen_idle on al (inStep.bit_idle idle)]
    cases hw : i.write .command with
    | none =>
      have zero : (s.step i).command = 0 := by rw [step_command hw, command, ite_self]
      rw [transfers_of_zero zero] at transfers
      cases transfers
    | some v =>
      refine (claims v hw).imp_left fun sta => ?_
      simpa [start, command_of_write hw done al, BitVec.getLsbD_setWidth] using sta

/-- A bit command that goes on. -/
theorem Owned.step_wait (h : s.Owned) (inStep : s.InStep) (on : s.On p)
    (al : s.al = false) (busy : s.byte.cState ≠ .idle)
    (wait : s.byte.bit.cmdAck = false) : (s.step i).Owned := by
  have fsm := RTLI2C.step_wait (i := i) on.rst al busy wait
  have coreCmd : (s.step i).byte.coreCmd = s.byte.coreCmd := by rw [fsm]
  have state : (s.step i).byte.cState = s.byte.cState := by rw [fsm]
  refine ⟨fun ack => ?_, fun nop start noAck before => ?_, fun _ idle => ?_⟩
  · rw [coreCmd]
    simp only [sclOen, step_bit] at ack ⊢
    rcases s.byte.bit.fsm_cases (on.running i) with ⟨-, bit⟩ | ⟨-, -, bit⟩ | ⟨-, -, bit⟩
    · rw [bit] at ack
      cases ack
    · rw [bit] at ack ⊢
      have last := (BitFsm.exec_cmdAck ack).2
      rw [BitFsm.exec_last_sclOen last, inStep.group fun idle => by rw [idle] at last; cases last]
    · rw [bit] at ack
      cases ack
  · rw [coreCmd] at nop start
    have low := h.bus nop start wait
    simp only [sclOen, step_bit] at noAck before low ⊢
    rcases s.byte.bit.fsm_cases (on.running i) with ⟨lost, -⟩ | ⟨-, -, bit⟩ | ⟨-, -, bit⟩
    · rw [show s.byte.bit.al = false from al] at lost
      cases lost
    · rw [bit] at noAck before ⊢
      by_cases prior : s.byte.bit.cState.before = true
      · exact BitFsm.exec_before_sclOen (low prior) before prior
      · rw [BitFsm.exec_back (by simpa using prior) before] at noAck
        cases noAck
    · rw [bit] at before ⊢
      exact low before
  · rw [state] at idle
    exact absurd idle busy

/-- A bit command that is over. -/
theorem Owned.step_advance (h : s.Owned) (inStep : s.InStep) (on : s.On p) (hp : 3 ≤ p)
    (timed : s.byte.bit.Timed p k a line) (al : s.al = false) (done : s.done = false)
    (busy : s.byte.cState ≠ .idle) (ack : s.byte.bit.cmdAck = true) : (s.step i).Owned := by
  have fsm := RTLI2C.step_advance (i := i) inStep on.rst al done busy ack
  have noAck := inStep.noAck_next (i := i) on hp timed (Or.inr ack)
  have same := step_sclOen_idle (i := i) on al (inStep.acked ack).1
  refine ⟨fun ack' => ?_, fun nop _ _ _ => ?_, fun _ idle done' => ?_⟩
  · rw [noAck] at ack'
    cases ack'
  · rw [same, h.acked ack, inStep.coreCmd]
    cases state : s.byte.cState
    case stop =>
      refine absurd ?_ nop
      rw [fsm, state]
      rfl
    case ack => cases s.read <;> rfl
    all_goals rfl
  · rw [RTLI2C.done, fsm] at done'
    rw [fsm] at idle
    simp only [beq_eq_false_iff_ne] at done'
    exact absurd idle done'

/-- A pending command: without START it finds SCL low. -/
theorem Owned.step_pending (h : s.Owned) (inStep : s.InStep) (on : s.On p) (hp : 3 ≤ p)
    (timed : s.byte.bit.Timed p k a line) (ph : s.InPhase .pending) : (s.step i).Owned := by
  obtain ⟨transfers, idle, done, al⟩ := ph
  have fsm := step_begin (i := i) on.rst al idle done transfers
  have noAck := inStep.noAck_next (i := i) on hp timed (Or.inl idle)
  have same := step_sclOen_idle (i := i) on al (inStep.bit_idle idle)
  refine ⟨fun ack => ?_, fun _ notStart _ _ => ?_, fun _ idle' _ => ?_⟩
  · rw [noAck] at ack
    cases ack
  · rw [same]
    refine (h.pending transfers idle done).resolve_left fun sta => notStart ?_
    rw [fsm, sta]
    rfl
  · rw [fsm] at idle'
    exact absurd idle' (ByteState.first_ne_idle _ _)

/-- **Ownership is kept** in every clock without an arbitration loss whose command, if it writes
one, begins with START or finds the bus owned. -/
theorem Owned.step (h : s.Owned) (inStep : s.InStep) (on : s.On p) (hp : 3 ≤ p)
    (timed : s.byte.bit.Timed p k a line) (al : s.al = false) (polite : s.Polite i)
    (claims : s.Claims i) (ph : ∃ f, s.InPhase f) : (s.step i).Owned := by
  obtain ⟨f, ph⟩ := ph
  cases f with
  | resting => exact step_quiescent inStep on hp timed al claims ph.1 ph.2.1 ph.2.2.1
  | pending => exact h.step_pending inStep on hp timed ph
  | running =>
    by_cases ack : s.byte.bit.cmdAck = true
    · exact h.step_advance inStep on hp timed al ph.2.2.1 ph.2.1 ack
    · exact h.step_wait inStep on al ph.2.1 (by simpa using ack)
  | finishing =>
    have clear := finishing_step inStep on hp timed ph (polite.no_write ph.1)
    refine owned_of_nop ?_ (inStep.noAck_next on hp timed (Or.inl ph.2.1)) fun transfers => ?_
    · rw [clear.1.coreCmd, clear.2.1.2.1]
      rfl
    · rw [transfers_of_zero clear.2.1.1] at transfers
      cases transfers
  | clearing => exact step_quiescent inStep on hp timed al claims ph.1 ph.2.1 ph.2.2.1

end

/-! ## Runs -/

/-- A run in which commands are written one at a time, each beginning with START or on an owned bus,
and no arbitration is lost. -/
structure OwnedRun (p t₀ : ℕ) (hold : ℕ → Bool) (r : Run) : Prop where
  enabled : EnabledRun p t₀ r
  scl : Stretching r hold
  noAl : ∀ t, (r.st t).al = false
  polite : ∀ t, t₀ ≤ t → (r.st t).Polite (r.inp t)
  claims : ∀ t, t₀ ≤ t → (r.st t).Claims (r.inp t)

/-- What holds in every clock of such a run. -/
structure Paced (p k a : ℕ) (line : Bool) (s : RTLI2C) : Prop extends Sound p k a line s where
  owned : s.Owned
  paced : s.byte.bit.Paced p a line

section

variable {p t₀ : ℕ} {hold : ℕ → Bool} {r : Run}

theorem Waiting.paced {a : ℕ} {s : RTLI2C} (h : s.Waiting a) (cnt : s.byte.bit.cnt = p) :
    Paced p 0 a true s where
  toSound := h.sound cnt
  owned := by
    refine owned_of_nop h.dormant.coreCmd ?_ fun transfers => ?_
    · rw [h.dormant.released]
      rfl
    · rw [transfers_of_zero h.command] at transfers
      cases transfers
  paced := by
    have idle : s.byte.bit.cState = .idle := by rw [h.dormant.released]; rfl
    exact BitCtrl.paced_still h.dormant.sclOen rfl h.dsclOen h.wait fun _ => by rw [idle]; rfl

/-- One clock without an arbitration loss that keeps to the rules. -/
theorem Paced.step {k a : ℕ} {line line' : Bool} {s : RTLI2C} {i : In} (h : Paced p k a line s)
    (hp : 3 ≤ p) (on : s.On p) (al : s.al = false) (polite : s.Polite i) (claims : s.Claims i)
    (high : i.scl = line) (keeps : line = true → (s.step i).sclOen = true → line' = true)
    (oen : line' = true → (s.step i).sclOen = true) :
    Paced p (k + 1) (BitCtrl.ageNext a s.byte.bit (s.step i).byte.bit) line' (s.step i) where
  toSound := h.toSound.step hp on polite high keeps oen
  owned := h.owned.step h.inStep on hp h.timed al polite claims h.phase
  paced := h.paced.step h.timed hp (on.running i) al
    (fun en idle high => h.owned.cmd h.inStep en idle high) keeps

/-- **Every clock of an owned run is paced.** -/
theorem OwnedRun.paced (run : OwnedRun p t₀ hold r) (hp : 3 ≤ p) :
    ∃ a₀, ∀ k, Paced p k (ageAt r t₀ a₀ k) (sclLine r (t₀ + k)) (r.st (t₀ + k)) := by
  obtain ⟨high, a₀, waiting⟩ := run.enabled.waiting run.scl t₀ le_rfl
  refine ⟨a₀, fun k => ?_⟩
  induction k with
  | zero =>
    rw [Nat.add_zero, high]
    exact waiting.paced run.enabled.cnt
  | succ k ih =>
    have late : t₀ ≤ t₀ + k := Nat.le_add_right _ _
    have keeps := run.scl.keeps (t := t₀ + k)
    have oen := run.scl.oen (t := t₀ + k + 1)
    rw [r.next] at keeps oen
    have next := ih.step hp (run.enabled.on _ late) (run.noAl _) (run.polite _ late)
      (run.claims _ late) rfl keeps oen
    rw [← r.next] at next
    exact next

end

theorem sampleRun_owned : OwnedRun 3 3 sampleHold sampleRun where
  enabled := sampleRun_enabled
  scl := sampleRun_stretching
  noAl := sampleRun_noAl
  polite := by
    intro t _ v hw
    obtain ⟨rfl, rfl⟩ := sampleRun_command hw
    exact ⟨by decide +kernel, by decide +kernel, sampleRun_noAl 4, by decide⟩
  claims := by
    intro t _ v hw
    obtain ⟨rfl, rfl⟩ := sampleRun_command hw
    exact Or.inl (by decide)

end RTLI2C

end Rockling
