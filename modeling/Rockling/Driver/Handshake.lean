import Rockling.Driver.Scene

/-!
# The handshake of a command

The command register is written by the driver and cleared by the core, `TIP` is a registered copy of
it, and an arbitration loss may end a command at any time. The driver only ever looks at `TIP`.
Still every command that it writes is carried out exactly once: it starts the byte controller two
clocks later, nothing else ever does, it keeps the command register until its own end, and `TIP` is
set until after that (`CarriedOut`). What the driver reads from then on is the outcome of this
command (`Shows`).
-/

namespace Rockling

namespace Driver

open RTLI2C

/-! ## What one command is to do -/

/-- Command `x`, written in clock `w`, is carried out: it starts two clocks later and has the
command register and the byte controller to itself up to clock `e`, in which it is acknowledged or
loses the arbitration. -/
structure CarriedOut (r : Run) (w e : ℕ) (x : BitVec 32) : Prop where
  later : w + 2 ≤ e
  ends : (r.st e).done = true ∨ (r.st e).al = true
  first : ∀ u, w < u → u < e → (r.st u).done = false ∧ (r.st u).al = false
  word : ∀ u, w < u → u ≤ e → (r.st u).command = x.setWidth 8
  waits : (r.st (w + 1)).byte.cState = .idle
  busy : ∀ u, w + 2 ≤ u → u < e → (r.st u).byte.cState ≠ .idle
  back : (r.st (e + 1)).command = 0 ∧ (r.st (e + 1)).byte.cState = .idle
  tip : ∀ u, w + 2 ≤ u → u ≤ e + 1 → (r.st u).tip = true
  alone : ∀ u, w < u → u ≤ e → (r.inp u).write .command = none

/-- What the registers show in clock `u` of command `x`, written in clock `w` and over in clock `e`.
If it was acknowledged, `RxACK` is the one acknowledge bit delivered since, and RXR holds the eight
bits of a reception. `ArbLost` is kept from before unless the command has `STA`. -/
structure Shows (r : Run) (w e : ℕ) (x : BitVec 32) (u : ℕ) : Prop where
  ack : (r.st e).al = false → ackLevels r w (u - w - 1) = [(r.st u).byte.ackOut]
  data : (r.st e).al = false → x.getLsbD 5 = true →
    dataLevels r w (u - w) = lowBits 8 (r.st u).byte.sr
  kept : (r.st e).al = false → (r.st u).arbLost = ((r.st w).arbLost && !x.getLsbD 7)
  lost : (r.st e).al = true → (r.st u).byte.ackOut = false ∧ (r.st u).arbLost = true

/-- Command `x`, written in clock `w`, is over in clock `u`, in which the core rests. It was
acknowledged in clock `e`, with one acknowledge bit and the eight bits of a reception, or lost the
arbitration in it. -/
inductive Ended (r : Run) (w : ℕ) (x : BitVec 32) (u : ℕ) : Prop
  | completed (e : ℕ) (after : w < e) (before : e < u) (done : (r.st e).done = true)
      (calm : ∀ y, w < y → y ≤ u → (r.st y).al = false)
      (first : ∀ y, w < y → y < e → (r.st y).done = false)
      (ack : ackLevels r w (u - w - 1) = [(r.st u).byte.ackOut])
      (data : x.getLsbD 5 = true → dataLevels r w (u - w) = lowBits 8 (r.st u).byte.sr)
      (arb : (r.st u).arbLost = ((r.st w).arbLost && !x.getLsbD 7))
  | lost (e : ℕ) (after : w < e) (before : e < u) (al : (r.st e).al = true)
      (calm : ∀ y, w < y → y < e → (r.st y).al = false)
      (never : ∀ y, w < y → y ≤ u → (r.st y).done = false)
      (ack : (r.st u).byte.ackOut = false) (arb : (r.st u).arbLost = true)

namespace DriverRun

variable {β : Type} {v : BitVec 32} {jobs : ℕ → Prog ByteIface β} {r : Run}

/-- The CPU polls in clock `t`. -/
def polls (d : DriverRun v jobs r) (t : ℕ) : Bool := d.access t && (d.cpu t).polls

section

variable {p t₀ : ℕ} {hold : ℕ → Bool} (d : DriverRun v jobs r) (run : EnabledRun p t₀ r)
  (boot : d.cpu t₀ = .init (.ret ())) (hp : 3 ≤ p) (scl : Stretching r hold)

include run boot hp scl

theorem polite (t : ℕ) (late : t₀ ≤ t) : (r.st t).Polite (r.inp t) :=
  (d.coupled run boot hp scl late).polite

theorem sound_at {t : ℕ} (late : t₀ ≤ t) : ∃ k a line, Sound p k a line (r.st t) :=
  run.sound_at hp scl (d.polite run boot hp scl) late

/-! ## The start -/

/-- A command is pending in the clock after its write, and runs in the clock after that. -/
theorem starts {w : ℕ} {x : BitVec 32} (late : t₀ ≤ w)
    (write : (r.inp w).write .command = some x) :
    (r.st (w + 1)).InPhase .pending ∧ (r.st (w + 1)).command = x.setWidth 8 ∧
      (r.st (w + 2)).InPhase .running := by
  obtain ⟨k, a, line, here⟩ := d.sound_at run boot hp scl late
  obtain ⟨k', a', line', next⟩ := d.sound_at run boot hp scl (t := w + 1) (by omega)
  obtain ⟨command, idle, done, al, -⟩ := ((d.coupled run boot hp scl late).of_write write).1
  have asks := (d.polite run boot hp scl w late x write).2.2.2
  have pending := (write_step here.inStep (run.on w late) hp here.timed command idle done al write
    asks).2
  rw [← r.next] at pending
  have noWrite := (d.polite run boot hp scl (w + 1) (by omega)).no_write pending.1.1
  have running := (pending_step next.inStep (run.on (w + 1) (by omega)) hp next.timed pending.1
    noWrite).2.1
  rw [← r.next] at running
  exact ⟨pending.1, pending.2, running⟩

/-- Only a command makes the byte controller leave its idle state. -/
theorem leaves_idle {t : ℕ} (late : t₀ ≤ t) (idle : (r.st t).byte.cState = .idle)
    (leaves : (r.st (t + 1)).byte.cState ≠ .idle) :
    ∃ w x, t = w + 1 ∧ t₀ ≤ w ∧ (r.inp w).write .command = some x := by
  obtain ⟨k, a, line, here⟩ := d.sound_at run boot hp scl late
  have on := run.on t late
  have polite := d.polite run boot hp scl t late
  -- a quiescent core stays idle for another clock
  have stays : (r.st t).command = 0 → (r.st t).done = false → False := by
    intro command done
    have next := (quiescent_step here.inStep on hp here.timed polite command idle done).2
    rw [← r.next] at next
    rcases next with rest | pending
    · exact leaves rest.2.1
    · exact leaves pending.2.1
  obtain ⟨f, phase⟩ := here.phase
  cases f with
  | resting => exact (stays phase.1 phase.2.2.1).elim
  | clearing => exact (stays phase.1 phase.2.2.1).elim
  | running => exact absurd idle phase.2.1
  | finishing =>
    have next := (finishing_step here.inStep on hp here.timed phase (polite.no_write phase.1)).2.1
    rw [← r.next] at next
    exact absurd next.2.1 leaves
  | pending =>
    have after : t₀ ≠ t := by
      rintro rfl
      have zero := (rests_at_boot run scl).1
      have transfers := phase.1
      rw [transfers_of_zero zero] at transfers
      cases transfers
    obtain ⟨w, rfl⟩ : ∃ w, t = w + 1 := ⟨t - 1, by omega⟩
    cases write : (r.inp w).write .command with
    | some x => exact ⟨w, x, rfl, by omega, write⟩
    | none =>
      obtain ⟨k', a', line', before⟩ := d.sound_at run boot hp scl (t := w) (by omega)
      have fresh := not_pending_next before.inStep (run.on w (by omega)) hp before.timed
        before.phase
        write
      rw [← r.next] at fresh
      exact absurd phase fresh

/-! ## The end -/

/-- While a command is in progress the driver does not write TXR or the command register. -/
theorem no_write_of_running {t : ℕ} (late : t₀ ≤ t) (running : (r.st t).InPhase .running)
    (reg : Csr) : (r.inp t).write reg = none := by
  cases write : (r.inp t).write reg with
  | none => rfl
  | some x =>
    have rest := ((d.coupled run boot hp scl late).of_write write).1
    exact absurd rest.2.1 running.2.1

/-- **A command is carried out**, unless somebody holds SCL low for ever. -/
theorem carries_out (finite : Recurs fun t => hold t = false) {w : ℕ} {x : BitVec 32}
    (late : t₀ ≤ w) (write : (r.inp w).write .command = some x) : ∃ e, CarriedOut r w e x := by
  have polite := d.polite run boot hp scl
  obtain ⟨pending, command, running⟩ := d.starts run boot hp scl late write
  obtain ⟨e, later, ended, going⟩ := run.finishes hp scl polite finite (by omega) running
    fun u _ all => d.no_write_of_running run boot hp scl (by omega) (all u (by omega) le_rfl) .txr
  have busy : ∀ y, w + 2 ≤ y → y ≤ e → (r.st y).transfers = true ∧ (r.st y).tip = true := by
    intro y low high
    rcases Nat.lt_or_ge y e with before | here
    · have running := (going y low before).1
      exact ⟨running.1, running.2.2.2⟩
    · rw [show y = e by omega]
      rcases ended with finishing | ⟨running, -⟩
      · exact ⟨finishing.1, finishing.2.2.2.2⟩
      · exact ⟨running.1, running.2.2.2⟩
  have alone : ∀ y, w < y → y ≤ e → (r.inp y).write .command = none := by
    intro y low high
    refine (polite y (by omega)).no_write ?_
    rcases Nat.lt_or_ge y (w + 2) with early | after
    · rw [show y = w + 1 by omega]
      exact pending.1
    · exact (busy y after high).1
  have first : ∀ y, w < y → y < e → (r.st y).done = false ∧ (r.st y).al = false := by
    intro y low high
    rcases Nat.lt_or_ge y (w + 2) with early | after
    · rw [show y = w + 1 by omega]
      exact pending.2.2
    · obtain ⟨running, al⟩ := going y after high
      exact ⟨running.2.2.1, al⟩
  have word : ∀ y, w < y → y ≤ e → (r.st y).command = x.setWidth 8 := by
    intro y low
    induction y, Nat.succ_le_of_lt low using Nat.le_induction with
    | base => exact fun _ => command
    | succ y low' ih =>
      intro high
      obtain ⟨done, al⟩ := first y (by omega) (by omega)
      rw [← ih (by omega) (by omega), r.next, step_command (alone y (by omega) (by omega)),
        done, al]
      rfl
  have clearing : (r.st (e + 1)).InPhase .clearing := by
    obtain ⟨k, a, line, sound⟩ := d.sound_at run boot hp scl (t := e) (by omega)
    have on := run.on e (by omega)
    have quiet := alone e (by omega) le_rfl
    rw [r.next]
    rcases ended with finishing | ⟨running, al⟩
    · exact (finishing_step sound.inStep on hp sound.timed finishing quiet).2.1
    · exact (running_step_lost on running al quiet).2
  refine ⟨e, later, ?_, first, word, pending.2.1, fun y low high => (going y low high).1.2.1,
    ⟨clearing.1, clearing.2.1⟩, fun y low high => ?_, alone⟩
  · exact ended.imp (fun finishing => finishing.2.2.1) fun lost => lost.2
  · rcases Nat.lt_or_ge y (e + 1) with before | here
    · exact (busy y low (by omega)).2
    · rw [show y = e + 1 by omega]
      exact clearing.2.2.2

/-! ## The outcome -/

/-- A core that rests keeps what it shows until the next command. -/
theorem rests_until {u : ℕ} (late : t₀ ≤ u) (rest : (r.st u).InPhase .resting)
    {t : ℕ} (later : u ≤ t)
    (quiet : ∀ y, u ≤ y → y < t → (r.inp y).write .command = none) :
    (r.st t).InPhase .resting ∧ (r.st t).byte.sr = (r.st u).byte.sr ∧
      (r.st t).byte.ackOut = (r.st u).byte.ackOut ∧ (r.st t).arbLost = (r.st u).arbLost := by
  induction t, later using Nat.le_induction with
  | base => exact ⟨rest, rfl, rfl, rfl⟩
  | succ t later ih =>
    obtain ⟨here, sr, ack, arb⟩ := ih fun y low high => quiet y low (by omega)
    obtain ⟨k, a, line, sound⟩ := d.sound_at run boot hp scl (t := t) (by omega)
    have on := run.on t (by omega)
    have next := (quiet_step sound.inStep on hp sound.timed here.1 here.2.1
      (quiet t later (by omega))).2
    obtain ⟨command, idle, -, al, -⟩ := here
    have fsm := step_idle (i := r.inp t) on.rst al idle (go_of_command_zero command)
    have still := sound.inStep.settled idle
    rw [← sr, ← ack, ← arb]
    rw [r.next]
    refine ⟨next, ?_, by rw [fsm], ?_⟩
    · rw [step_sr on.rst, srNext, still.1, still.2]
      rfl
    · rw [step_arbLost, al, start_of_zero command]
      simp

/-- While the byte controller is busy, it is so with the last command. -/
theorem word_of_busy {w t : ℕ} {x : BitVec 32} (late : t₀ ≤ w)
    (write : (r.inp w).write .command = some x) (after : w < t)
    (only : ∀ y, w < y → y < t → (r.inp y).write .command = none)
    (busy : (r.st t).byte.cState ≠ .idle) : (r.st t).command = x.setWidth 8 := by
  have waits := (d.starts run boot hp scl late write).1.2.1
  have second : t ≠ w + 1 := by
    rintro rfl
    exact busy waits
  obtain ⟨n, rfl⟩ : ∃ n, t = w + n + 2 := ⟨t - w - 2, by omega⟩
  cases run.fate hp scl (d.polite run boot hp scl) late write n only with
  | running phase word => exact word
  | completed e after' before done ended =>
    exact absurd (ended.elim (fun finishing => finishing.1.2.1) fun rest => rest.2.2.1) busy
  | lost e after' before al ended => exact absurd ended.2.1 busy

/-- A command that was written is over once the core rests. -/
theorem ended {w u : ℕ} {x : BitVec 32} (late : t₀ ≤ w)
    (write : (r.inp w).write .command = some x) (after : w < u) (rest : (r.st u).InPhase .resting)
    (only : ∀ y, w < y → y < u → (r.inp y).write .command = none) : Ended r w x u := by
  have pending := (d.starts run boot hp scl late write).1.1
  have second : u ≠ w + 1 := by
    rintro rfl
    rw [transfers_of_zero rest.1] at pending
    cases pending
  obtain ⟨n, rfl⟩ : ∃ n, u = w + n + 2 := ⟨u - w - 2, by omega⟩
  have acks : w + n + 2 - w - 1 = n + 1 := by omega
  have data : w + n + 2 - w = n + 2 := by omega
  obtain ⟨k, a, line, sound⟩ := d.sound_at run boot hp scl (t := w + n + 2) (by omega)
  have settled := sound.inStep.settled rest.2.1
  have sr : (r.st (w + n + 2)).srNext = (r.st (w + n + 2)).byte.sr := by
    rw [srNext, settled.1, settled.2]
    rfl
  cases run.fate hp scl (d.polite run boot hp scl) late write n only with
  | running phase => exact absurd rest.2.1 phase.2.1
  | completed e after' before done ended calm first record arb =>
    have past : e < w + n + 2 := by
      rcases ended with ⟨finishing, -⟩ | ⟨past, -⟩
      · have clash := rest.2.2.1.symm.trans finishing.2.2.1
        cases clash
      · exact past
    refine .completed e after' past done calm first ?_ (fun reads => ?_) arb
    · rw [acks, record.acks, rest.2.1]
    · rw [data, record.data reads, rest.2.1, sr]
  | lost e after' before al ended calm never ack arb =>
    exact .lost e after' before al calm never ack arb

/-- Once the core rests it shows the outcome of the command. -/
theorem shows {w e u : ℕ} {x : BitVec 32} (late : t₀ ≤ w)
    (write : (r.inp w).write .command = some x) (carried : CarriedOut r w e x) (after : w < u)
    (rest : (r.st u).InPhase .resting)
    (only : ∀ y, w < y → y < u → (r.inp y).write .command = none) :
    e < u ∧ Shows r w e x u := by
  have later := carried.later
  cases d.ended run boot hp scl late write after rest only with
  | completed e' after' before done calm first ack data arb =>
    obtain rfl : e = e' := by
      rcases lt_trichotomy e e' with less | same | more
      · rcases carried.ends with done' | al
        · exact nomatch (first e (by omega) less).symm.trans done'
        · exact nomatch (calm e (by omega) (by omega)).symm.trans al
      · exact same
      · exact nomatch (carried.first e' after' more).1.symm.trans done
    refine ⟨before, fun _ => ack, fun _ => data, fun _ => arb, fun lost => ?_⟩
    rw [calm e after' before.le] at lost
    cases lost
  | lost e' after' before al calm never ack arb =>
    obtain rfl : e = e' := by
      rcases lt_trichotomy e e' with less | same | more
      · rcases carried.ends with done | al'
        · exact nomatch (never e (by omega) (by omega)).symm.trans done
        · exact nomatch (calm e (by omega) less).symm.trans al'
      · exact same
      · exact nomatch (carried.first e' after' more).2.symm.trans al
    refine ⟨before, fun kept => ?_, fun kept => ?_, fun kept => ?_, fun _ => ⟨ack, arb⟩⟩
    all_goals
      rw [al] at kept
      cases kept

/-- A poll that reads `TIP` clear finds the core at rest. -/
theorem rest_of_poll {u : ℕ} (late : t₀ ≤ u) (poll : d.polls u = true)
    (tip : (r.st u).tip = false) : (r.st u).InPhase .resting := by
  obtain ⟨acts, poll⟩ := Bool.and_eq_true_iff.mp poll
  obtain ⟨k, a, line, sound⟩ := d.sound_at run boot hp scl late
  cases d.coupled run boot hp scl late with
  | booted cpu rest => exact rest
  | stage n g cpu fits =>
    cases g with
    | polling o k =>
      refine resting_of_tip sound.phase (fun pending => ?_) tip
      rw [fits pending] at acts
      cases acts
    | _ => exact fits

end

/-- Before the core is enabled it is given no command and does nothing. -/
theorem dormant_before (d : DriverRun v jobs r) {t : ℕ}
    (early : ∀ u < t, (d.cpu u).booted = false) : (r.st t).Dormant := by
  induction t with
  | zero =>
    obtain ⟨dout, start⟩ := d.powerOn
    rw [start]
    exact powerOn_dormant dout
  | succ t ih =>
    obtain ⟨-, -, -, -, quiet⟩ := d.of_not_booted (early t (Nat.lt_succ_self t))
    rw [r.next]
    refine (ih fun u before => early u (by omega)).step ?_
    rw [In.asks, quiet _ (Or.inr rfl)]

/-- The driver uses TXR and the command register once `i2c_init` is over. -/
theorem booted_of_write (d : DriverRun v jobs r) {t : ℕ} {reg : Csr} {x : BitVec 32}
    (which : reg = .txr ∨ reg = .command) (write : (r.inp t).write reg = some x) :
    (d.cpu t).booted = true := by
  refine eq_true_of_ne_false fun early => ?_
  obtain ⟨-, -, -, -, quiet⟩ := d.of_not_booted early
  rw [quiet reg which] at write
  cases write

/-- **The handshake.** In every run of the driver in front of the core, however SCL is stretched and
whatever arbitration is lost:

* TXR and the command register are written only while the command register is clear and the byte
  controller idle;
* the byte controller leaves its idle state two clocks after each write of a command, and at no
  other time;
* each command is carried out, with `TIP` set from two clocks after its write to after its end;
* from a poll that reads `TIP` clear to the next command, `RXR`, `RxACK` and `ArbLost` do not change
  and show the outcome of the command. -/
theorem handshake (d : DriverRun v jobs r) {hold : ℕ → Bool} (hp : 3 ≤ (v.setWidth 16).toNat)
    (scl : Stretching r hold) (finite : Recurs fun t => hold t = false) :
    (∀ t reg x, reg = .txr ∨ reg = .command → (r.inp t).write reg = some x →
      (r.st t).command = 0 ∧ (r.st t).byte.cState = .idle) ∧
    (∀ t, ((r.st t).byte.cState = .idle ∧ (r.st (t + 1)).byte.cState ≠ .idle) ↔
      ∃ w x, t = w + 1 ∧ (r.inp w).write .command = some x) ∧
    ∀ w x, (r.inp w).write .command = some x → ∃ e, CarriedOut r w e x ∧
      ∀ u, w < u → (∀ y, w < y → y < u → (r.inp y).write .command = none) →
        d.polls u = true → (r.st u).tip = false →
        e < u ∧ ∀ t, u ≤ t → (∀ y, u ≤ y → y < t → (r.inp y).write .command = none) →
          Shows r w e x t ∧ (r.st t).byte.sr = (r.st u).byte.sr ∧
            (r.st t).byte.ackOut = (r.st u).byte.ackOut ∧ (r.st t).arbLost = (r.st u).arbLost := by
  rcases d.boots with never | ⟨t₀, run, boot, early⟩
  · have dormant := fun t => d.dormant_before (t := t) fun u _ => never u
    have silent : ∀ t reg x, reg = .txr ∨ reg = .command → (r.inp t).write reg ≠ some x := by
      intro t reg x which write
      have booted := d.booted_of_write which write
      rw [never t] at booted
      cases booted
    refine ⟨fun t reg x which write => absurd write (silent t reg x which), fun t => ⟨?_, ?_⟩,
      fun w x write => absurd write (silent w _ x (Or.inr rfl))⟩
    · rintro ⟨-, leaves⟩
      exact absurd (dormant (t + 1)).idle leaves
    · rintro ⟨w, x, -, write⟩
      exact absurd write (silent w _ x (Or.inr rfl))
  · have late : ∀ {t reg x}, reg = .txr ∨ reg = .command → (r.inp t).write reg = some x →
      t₀ ≤ t := by
      intro t reg x which write
      by_contra before
      have booted := d.booted_of_write which write
      rw [early t (by omega)] at booted
      cases booted
    refine ⟨fun t reg x which write => ?_, fun t => ⟨?_, ?_⟩, fun w x write => ?_⟩
    · have rest := ((d.coupled run boot hp scl (late which write)).of_write write).1
      exact ⟨rest.1, rest.2.1⟩
    · rintro ⟨idle, leaves⟩
      by_cases before : t < t₀
      · exact absurd (d.dormant_before fun u less => early u (by omega)).idle leaves
      · obtain ⟨w, x, here, -, write⟩ := d.leaves_idle run boot hp scl (by omega) idle leaves
        exact ⟨w, x, here, write⟩
    · rintro ⟨w, x, rfl, write⟩
      obtain ⟨pending, -, running⟩ := d.starts run boot hp scl (late (Or.inr rfl) write) write
      exact ⟨pending.2.1, running.2.1⟩
    · have after := late (Or.inr rfl) write
      obtain ⟨e, carried⟩ := d.carries_out run boot hp scl finite after write
      refine ⟨e, carried, fun u later only poll tip => ?_⟩
      have rest := d.rest_of_poll run boot hp scl (by omega) poll tip
      refine ⟨(d.shows run boot hp scl after write carried later rest only).1,
        fun t since quiet => ?_⟩
      obtain ⟨rest', same⟩ := d.rests_until run boot hp scl (by omega) rest since quiet
      refine ⟨(d.shows run boot hp scl after write carried (by omega) rest' fun y low high => ?_).2,
        same⟩
      rcases Nat.lt_or_ge y u with before | from'
      · exact only y low before
      · exact quiet y from' high

/-- A byte with START, and whatever became of it another byte. -/
def twoBytes (_ : ℕ) : Prog ByteIface CInt := tx 0xff START >>= fun _ => tx 0xff 0

/-- Somebody pulls SDA low while the first byte is sent, and stretches SCL in the second one. -/
def crossing : Others := timed (window 80 110) (window 30 50)

theorem crossing_stretching : Stretching (crossing.run 3 twoBytes) (window 80 110) :=
  timed_stretching (by decide) (by decide +kernel)

/-- The command of the second byte is the last one for a while. -/
theorem crossing_quiet {y : ℕ} (late : 58 < y) (soon : y < 301) :
    ((crossing.run 3 twoBytes).inp y).write .command = none := by
  have checked := crossing.of_checks 3 twoBytes (n := 242) (a := 59) (p := fun t x =>
    ((crossing.inputs t x).write .command).isNone) (by decide +kernel) (Nat.succ_le_of_lt late)
    (by omega)
  exact Option.isNone_iff_eq_none.mp checked

/-- **`ArbLost` is not always that of the last command.** The first byte loses the arbitration, the
second one is acknowledged, and still the poll after it reads `ArbLost` set, since a command without
`STA` keeps it. -/
theorem loss_outlives_command :
    let r := crossing.run 3 twoBytes
    Stretching r (window 80 110) ∧ (Recurs fun t => window 80 110 t = false) ∧
    (r.inp 58).write .command = some 0x10 ∧
    ∃ e, CarriedOut r 58 e 0x10 ∧ (r.st e).done = true ∧ (r.st e).al = false ∧
      e < 301 ∧ (∀ y, 58 < y → y < 301 → (r.inp y).write .command = none) ∧
      (crossing.driver 3 twoBytes).polls 301 = true ∧ (r.st 301).tip = false ∧
      (r.st 301).arbLost = true := by
  intro r
  have scl : Stretching r (window 80 110) := crossing_stretching
  have finite := window_recurs 80 110
  obtain ⟨write, booted⟩ : (r.inp 58).write .command = some 0x10 ∧
      ((crossing.driver 3 twoBytes).cpu 58).booted = true := by decide +kernel
  obtain ⟨poll, tip, arb, ack⟩ : (crossing.driver 3 twoBytes).polls 301 = true ∧
      (r.st 301).tip = false ∧ (r.st 301).arbLost = true ∧
      (r.st 301).byte.ackOut = true := by decide +kernel
  rcases (crossing.driver 3 twoBytes).boots with never | ⟨t₀, run, boot, early⟩
  · rw [never 58] at booted
    cases booted
  · have late : t₀ ≤ 58 := by
      by_contra before
      rw [early 58 (by omega)] at booted
      cases booted
    obtain ⟨e, carried⟩ := (crossing.driver 3 twoBytes).carries_out run boot (by decide) scl finite
      late write
    have rest := (crossing.driver 3 twoBytes).rest_of_poll run boot (by decide) scl (by omega) poll
      tip
    obtain ⟨before, shown⟩ := (crossing.driver 3 twoBytes).shows run boot (by decide) scl late
      write carried (by decide) rest fun _ => crossing_quiet
    have al : (r.st e).al = false := by
      by_contra lost
      have acked := (shown.lost (eq_true_of_ne_false lost)).1
      rw [ack] at acked
      cases acked
    have done : (r.st e).done = true := by
      refine carried.ends.resolve_right fun lost => ?_
      rw [al] at lost
      cases lost
    exact ⟨scl, finite, write, e, carried, done, al, before, fun _ => crossing_quiet, poll, tip,
      arb⟩

/-- The second byte in the same run: it is carried out, and the poll after it shows its outcome. -/
theorem handshake_crossing :
    let r := crossing.run 3 twoBytes
    ∃ e, CarriedOut r 58 e 0x10 ∧ e < 301 ∧ Shows r 58 e 0x10 301 := by
  intro r
  obtain ⟨write, poll, tip⟩ : (r.inp 58).write .command = some 0x10 ∧
      (crossing.driver 3 twoBytes).polls 301 = true ∧ (r.st 301).tip = false := by decide +kernel
  obtain ⟨-, -, carries⟩ := handshake (crossing.driver 3 twoBytes) (by decide) crossing_stretching
    (window_recurs 80 110)
  obtain ⟨e, carried, shown⟩ := carries 58 0x10 write
  obtain ⟨past, after⟩ := shown 301 (by decide) (fun _ => crossing_quiet) poll tip
  exact ⟨e, carried, past, (after 301 le_rfl fun y low high => absurd high (by omega)).1⟩

end DriverRun

end Driver

end Rockling
