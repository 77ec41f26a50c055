import Rockling.Rtl.Outcome
import Rockling.Rtl.Sampling

/-!
# What a whole run puts on the bus

A listener on the SCL line and the controller's SDA output need not arrive with a command: over any
number of commands he reads the frames of the commands one after the other, and nothing in between
(`transcript_told`). What the controller takes from the SDA line in the meantime is its level in
clocks in which SCL is high (`slotOver_line`, `shift_line`).
-/

namespace Rockling

open TwoWire (Symbol Levels Reader)

namespace RTLI2C

/-- What the controller shows in the `n` clocks from `a` on. -/
abbrev told (r : Run) (a n : ℕ) : List Symbol := collect (fun t => (r.st t).shows) a n

/-- The levels of the SDA line at the bits of the `n` clocks from `a` on. -/
abbrev caught (r : Run) (a n : ℕ) : List Bool :=
  collect (fun t => (r.st t).hears (r.inp t).sda) a n

/-- The frame of the command that is written in clock `t`, if one is. -/
def commandIn (r : Run) (t : ℕ) : List Symbol :=
  match (r.inp t).write .command with
  | some v => wordFrame v (r.st t).txr
  | none => []

/-- An idle bit controller hears nothing. -/
theorem hears_of_idle {s : RTLI2C} {sda : Bool} (idle : s.byte.bit.cState = .idle) :
    s.hears sda = [] := by
  rw [hears, idle]
  cases s.byte.bit.clkEn <;> rfl

section

variable {p t₀ : ℕ} {hold pull : ℕ → Bool} {r : Run}

/-- Without an arbitration loss `ArbLost` stays clear. -/
theorem EnabledRun.arbLost_clear (run : EnabledRun p t₀ r) (noAl : ∀ t, (r.st t).al = false)
    (t : ℕ) : (r.st t).arbLost = false := by
  induction t with
  | zero =>
    obtain ⟨dout, start⟩ := run.powerOn
    rw [start]
    rfl
  | succ t ih =>
    rw [r.next]
    change ((r.st t).al || ((r.st t).arbLost && !(r.st t).start)) = false
    rw [noAl, ih]
    rfl

/-- A listener who arrives while the bit controller is idle is told everything that it shows. -/
theorem OwnedRun.listen_eq (run : OwnedRun p t₀ hold r) (hp : 3 ≤ p) {t : ℕ} (late : t₀ ≤ t)
    (idle : (bitAt r t).cState = .idle) (n : ℕ) :
    (Reader.listen (wave r) t n).out = told r t n ∧ heard r t n = caught r t n := by
  have reads := fun n => (run.keeps_up hp late idle n).2
  induction n with
  | zero => exact ⟨rfl, rfl⟩
  | succ n ih =>
    have out : (Reader.listen (wave r) t (n + 1)).out =
        (Reader.listen (wave r) t n).out ++ (r.st (t + n)).shows :=
      congrArg ((Reader.listen (wave r) t n).out ++ ·) (reads n)
    rw [out, ih.1, heard, reads n, hears_eq, ih.2]
    exact ⟨rfl, rfl⟩

/-- **What was told and what remains are the frames of the commands**, from a clock in which the
core is quiescent on. -/
theorem OwnedRun.told_remaining (run : OwnedRun p t₀ hold r) (hp : 3 ≤ p) {t : ℕ} (late : t₀ ≤ t)
    (command : (r.st t).command = 0) (idle : (r.st t).byte.cState = .idle)
    (txr : ∀ u, t ≤ u → (r.st u).command ≠ 0 → (r.inp u).write .txr = none) (n : ℕ) :
    told r t n ++ (r.st (t + n)).remaining = collect (commandIn r) t n := by
  induction n with
  | zero =>
    have drained := Or.inl (b := (r.st t).done = true) (transfers_of_zero command)
    rw [told, collect, collect, Nat.add_zero, remaining_of_over idle drained]
    rfl
  | succ n ih =>
    rw [told, collect, collect, ← ih, commandIn, List.append_assoc, List.append_assoc, Nat.add_succ]
    congr 1
    cases hw : (r.inp (t + n)).write .command with
    | none =>
      obtain ⟨a₀, paced⟩ := run.paced hp
      obtain ⟨k, eq⟩ := Nat.exists_eq_add_of_le (show t₀ ≤ t + n by omega)
      have sound := (paced k).toSound
      rw [← eq] at sound
      have rest := remaining_step sound (run.enabled.on _ (by omega)) hp (run.enabled.dcnt_lt _)
        (run.noAl _) hw (txr (t + n) (by omega))
      rw [← r.next] at rest
      rw [← rest, List.append_nil]
    | some v =>
      obtain ⟨zero, quiet, -, -⟩ := run.polite (t + n) (by omega) v hw
      obtain ⟨bit, ⟨transfers, idle', done, -⟩, word, same⟩ :=
        run.pending hp (show t₀ ≤ t + n by omega) hw
      rw [shows_of_idle bit, remaining_of_over quiet (Or.inl (transfers_of_zero zero)), remaining,
        if_pos ⟨idle', transfers, done⟩, frame_of_word word, same]

/-- One command, from its write to a clock in which the core is quiescent again. -/
theorem OwnedRun.exchange (run : OwnedRun p t₀ hold r) (hp : 3 ≤ p) (answers : Answering r pull)
    {w u : ℕ} {v : BitVec 32} (late : t₀ ≤ w) (hw : (r.inp w).write .command = some v)
    (txr : ∀ t, w ≤ t → (r.st t).command ≠ 0 → (r.inp t).write .txr = none) (later : w < u)
    (only : ∀ t, w < t → t < u → (r.inp t).write .command = none)
    (command : (r.st u).command = 0) (idle : (r.st u).byte.cState = .idle) :
    told r w (u - w) = wordFrame v (r.st w).txr ∧
      ∃ data, caught r w (u - w) = data ++ [(r.st u).byte.ackOut] ∧
        (v.getLsbD 5 = true → data = lowBits 8 (r.st u).byte.sr) := by
  obtain ⟨zero, quiet, -, -⟩ := run.polite w late v hw
  obtain ⟨bit, pending, -, -⟩ := run.pending hp late hw
  constructor
  · have whole := run.told_remaining hp late zero quiet txr (u - w)
    have rest : collect (commandIn r) (w + 1) (u - (w + 1)) = [] :=
      collect_nil fun t low high => by rw [commandIn, only t (by omega) (by omega)]
    rw [show w + (u - w) = u by omega, remaining_of_over idle (Or.inl (transfers_of_zero command)),
      List.append_nil, collect_append (b := w + 1) (by omega) (by omega), rest,
      show w + 1 - w = 1 by omega, collect, collect, Nat.add_zero, commandIn, hw] at whole
    simpa using whole
  · have second : w + 2 ≤ u := by
      by_contra early
      obtain rfl : u = w + 1 := by omega
      have transfers := pending.1
      rw [transfers_of_zero command] at transfers
      cases transfers
    obtain ⟨n, rfl⟩ := Nat.exists_eq_add_of_le second
    obtain ⟨a₀, paced⟩ := run.paced hp
    obtain ⟨k, eq⟩ := Nat.exists_eq_add_of_le (show t₀ ≤ w + 2 + n by omega)
    have inStep := (paced k).inStep
    rw [← eq] at inStep
    obtain ⟨⟨⟨data, bits, known⟩, -⟩, -⟩ := run.gathered hp answers late hw n
      fun t low high => only t low (by omega)
    rw [show w + n + 2 = w + 2 + n by omega] at bits known
    have ack : (r.st (w + 2 + n)).ackBits = [(r.st (w + 2 + n)).byte.ackOut] := by
      rw [ackBits, idle]
    have still : (r.st (w + 2 + n)).srNext = (r.st (w + 2 + n)).byte.sr := by
      obtain ⟨ld, shift⟩ := inStep.settled idle
      rw [srNext, ld, shift]
      rfl
    refine ⟨data, ?_, fun rd => (known rd).trans ?_⟩
    · rw [show w + 2 + n - w = n + 2 by omega, ← (run.listen_eq hp late bit (n + 2)).2, bits, ack]
    · rw [dataBits, idle, still]

/-! ## The levels of the line -/

/-- The bit that a bit command delivers is the level of SDA in its last clock, and SCL is high
there. -/
theorem OwnedRun.dout_line (run : OwnedRun p t₀ hold r) (hp : 3 ≤ p) (answers : Answering r pull)
    {u : ℕ} (late : t₀ ≤ u) (ack : (bitAt r (u + 1)).cmdAck = true)
    (start : (r.st (u + 1)).byte.cState ≠ .start) (stop : (r.st (u + 1)).byte.cState ≠ .stop) :
    sclLine r u = true ∧ (bitAt r (u + 1)).dout = (r.inp u).sda ∧
      (bitAt r (u + 1)).scl.d = true := by
  obtain ⟨a₀, paced⟩ := run.paced hp
  obtain ⟨k, eq⟩ := Nat.exists_eq_add_of_le late
  have here := paced k
  have sampled := run.sampled hp answers paced k
  rw [← eq] at here sampled
  have on := run.enabled.on u late
  -- the bit controller is busy in the clock before, so the byte controller waits in its state
  have going : (bitAt r u).cState ≠ .idle := by
    intro idle
    rw [bitAt, r.next, step_bit] at ack
    rcases (bitAt r u).fsm_cases (on.running (r.inp u)) with ⟨-, fsm⟩ | ⟨-, -, fsm⟩ | ⟨-, -, fsm⟩
    · rw [fsm] at ack
      cases ack
    · rw [fsm] at ack
      have last := (BitFsm.exec_cmdAck ack).2
      rw [idle] at last
      cases last
    · rw [fsm] at ack
      cases ack
  have busy : (r.st u).byte.cState ≠ .idle := fun idle => going (here.inStep.bit_idle idle)
  have wait : (bitAt r u).cmdAck = false := eq_false_of_ne_true fun acked =>
    going (here.inStep.acked acked).1
  have fsm := step_wait (i := r.inp u) on.rst (run.noAl u) busy wait
  rw [← r.next] at fsm
  have state : (r.st (u + 1)).byte.cState = (r.st u).byte.cState := by rw [fsm]
  rw [bitAt, r.next] at ack ⊢
  rw [state] at start stop
  rcases slot_end here.inStep on here.paced here.timed sampled ack with
    ⟨other, -⟩ | ⟨-, -, dout, d, up⟩
  · exact absurd other (not_or.mpr ⟨start, stop⟩)
  · exact ⟨up, dout, d⟩

/-- **The acknowledge bit is the level of the line**: at the end of an acknowledge slot `dout` is
the level of SDA in the clock before, in which SCL was high. -/
theorem OwnedRun.slotOver_line (run : OwnedRun p t₀ hold r) (hp : 3 ≤ p)
    (answers : Answering r pull) {u : ℕ} (late : t₀ ≤ u) (ends : (r.st (u + 1)).slotOver = true) :
    sclLine r u = true ∧ (bitAt r (u + 1)).dout = (r.inp u).sda := by
  simp only [slotOver, Bool.and_eq_true, beq_iff_eq] at ends
  obtain ⟨⟨state, ack⟩, -⟩ := ends
  have read := run.dout_line hp answers late ack (by rw [state]; decide) (by rw [state]; decide)
  exact ⟨read.1, read.2.1⟩

/-- **The bits of a byte are the levels of the line**: when the shift register moves, it takes the
level of SDA two clocks ago, at which time SCL was high. -/
theorem OwnedRun.shift_line (run : OwnedRun p t₀ hold r) (hp : 3 ≤ p)
    (answers : Answering r pull) {u : ℕ} (late : t₀ ≤ u)
    (shift : (r.st (u + 2)).byte.shift = true) :
    sclLine r u = true ∧ (bitAt r (u + 2)).dout = (r.inp u).sda := by
  obtain ⟨a₀, paced⟩ := run.paced hp
  obtain ⟨k, eq⟩ := Nat.exists_eq_add_of_le (show t₀ ≤ u + 1 by omega)
  have here := (paced k).toSound
  rw [← eq] at here
  have on := run.enabled.on (u + 1) (by omega)
  have al := run.noAl (u + 1)
  have next : r.st (u + 2) = (r.st (u + 1)).step (r.inp (u + 1)) := r.next _
  rw [next] at shift
  have rests : (r.st (u + 1)).byte.cState = .idle →
      (r.st (u + 1)).byte.go ((r.st (u + 1)).byteIn (r.inp (u + 1))) = false → False := by
    intro idle quiet
    rw [step_idle on.rst al idle quiet] at shift
    cases shift
  obtain ⟨f, phase⟩ := here.phase
  cases f with
  | resting => exact (rests phase.2.1 (go_of_command_zero phase.1)).elim
  | clearing => exact (rests phase.2.1 (go_of_command_zero phase.1)).elim
  | finishing =>
    have acked : (r.st (u + 1)).byte.cmdAck = true := phase.2.2.1
    exact (rests phase.2.1 (by simp [ByteCtrl.go, acked])).elim
  | pending =>
    rw [step_begin on.rst al phase.2.1 phase.2.2.1 phase.1] at shift
    cases shift
  | running =>
    have busy := phase.2.1
    have ack : (bitAt r (u + 1)).cmdAck = true := by
      by_contra wait
      rw [step_wait on.rst al busy (eq_false_of_ne_true wait)] at shift
      cases shift
    rw [step_advance here.inStep on.rst al phase.2.2.1 busy ack] at shift
    obtain ⟨start, stop⟩ : (r.st (u + 1)).byte.cState ≠ .start ∧
        (r.st (u + 1)).byte.cState ≠ .stop := by
      constructor
      · intro state
        rw [state] at shift
        cases shift
      · intro state
        rw [state] at shift
        cases shift
    obtain ⟨up, dout, d⟩ := run.dout_line hp answers late ack start stop
    have kept : ((r.st (u + 1)).step (r.inp (u + 1))).byte.bit.dout =
        if (bitAt r (u + 1)).scl.s && !(bitAt r (u + 1)).scl.d then (bitAt r (u + 1)).sda.s
        else (bitAt r (u + 1)).dout := rfl
    rw [bitAt, next, kept, d, Bool.not_true, Bool.and_false]
    exact ⟨up, dout⟩

/-- The acknowledge bits and the data bits of commands are levels of SDA while SCL is high. -/
theorem OwnedRun.levels_line (run : OwnedRun p t₀ hold r) (hp : 3 ≤ p) (answers : Answering r pull)
    {w : ℕ} (late : t₀ ≤ w) (n : ℕ) :
    ackLevels r w n =
      collect (fun t => if (r.st (t + 1)).slotOver then [(r.inp t).sda] else []) w n ∧
    dataLevels r (w + 1) n =
      collect (fun t => if (r.st (t + 2)).byte.shift then [(r.inp t).sda] else []) w n := by
  induction n with
  | zero => exact ⟨rfl, rfl⟩
  | succ n ih =>
    have place : w + 1 + n + 1 = w + n + 2 := by omega
    rw [ackLevels, dataLevels, ih.1, ih.2, collect, collect, place]
    constructor
    · split_ifs with ends
      · rw [(run.slotOver_line hp answers (show t₀ ≤ w + n by omega) ends).2]
      · rfl
    · split_ifs with shift
      · rw [(run.shift_line hp answers (show t₀ ≤ w + n by omega) shift).2]
      · rfl

/-! ## The transcript -/

/-- **The transcript of a run.** A listener who arrives while the core is quiescent has read, when
it is quiescent again, the frames of the commands written in between, one after the other. -/
theorem transcript_told (run : OwnedRun p t₀ hold r) (hp : 3 ≤ p) {t n : ℕ} (late : t₀ ≤ t)
    (command : (r.st t).command = 0) (idle : (r.st t).byte.cState = .idle)
    (txr : ∀ u, t ≤ u → (r.st u).command ≠ 0 → (r.inp u).write .txr = none)
    (command' : (r.st (t + n)).command = 0) (idle' : (r.st (t + n)).byte.cState = .idle) :
    (Reader.listen (wave r) t n).out = collect (commandIn r) t n := by
  obtain ⟨a₀, paced⟩ := run.paced hp
  obtain ⟨k, eq⟩ := Nat.exists_eq_add_of_le late
  have bit := (paced k).inStep.bit_idle (by rw [← eq]; exact idle)
  rw [← eq] at bit
  rw [(run.listen_eq hp late bit n).1, ← run.told_remaining hp late command idle txr n,
    remaining_of_over idle' (Or.inl (transfers_of_zero command')), List.append_nil]

end

/-- What a listener reads in the run that sends one byte at prescale 3. -/
theorem transcript_told_sample :
    (Reader.listen (wave sampleRun) 3 (300 - 3)).out =
      [.start, .bit false, .bit false, .bit true, .bit true, .bit false, .bit true, .bit false,
        .bit true, .bit true, .stop] := by
  have none : ∀ t, 5 ≤ t → commandIn sampleRun t = [] := fun t late => by
    rw [commandIn, sampleRun_write late]
  have whole : collect (commandIn sampleRun) 3 (300 - 3) =
      collect (commandIn sampleRun) 4 (5 - 4) :=
    collect_inside (by decide) (by decide) (by decide) (by decide +kernel)
      (collect_nil fun t low _ => none t low)
  have told := transcript_told sampleRun_owned le_rfl (t := 3) (n := 300 - 3) le_rfl
    (by decide +kernel) (by decide +kernel)
    (fun u late busy => by
      have later : 5 ≤ u := by
        by_contra early
        obtain rfl | rfl : u = 3 ∨ u = 4 := by omega
        · exact busy (by decide +kernel)
        · exact busy (by decide +kernel)
      exact sampleRun_write later)
    (by decide +kernel) (by decide +kernel)
  rw [told, whole]
  decide +kernel

end RTLI2C

end Rockling
