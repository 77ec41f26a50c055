import Rockling.Rtl.Progress

/-!
# What a command leaves behind

A command that is written to a quiescent core runs, and is over once it is acknowledged or loses the
arbitration. `Fate` says which of the three holds in a clock, and with it what the registers that
the CPU reads show: the acknowledge bit, the byte received, and `ArbLost`. It is kept in every clock
that writes no other command (`EnabledRun.fate`), whatever arbitration is lost.
-/

namespace Rockling

namespace RTLI2C

/-! ## The bits of a command -/

/-- The acknowledge slot of the command is over in this clock. Its bit is `dout`. -/
def slotOver (s : RTLI2C) : Bool := s.byte.cState == .ack && s.byte.bit.cmdAck && !s.al

/-- The acknowledge bits that the bit controller delivers after clock `w`, before clock `w + n + 1`.
-/
def ackLevels (r : Run) (w : ℕ) : ℕ → List Bool
  | 0 => []
  | n + 1 => ackLevels r w n ++
      if (r.st (w + n + 1)).slotOver then [(r.st (w + n + 1)).byte.bit.dout] else []

/-- The bits that enter the shift register after clock `w`, up to clock `w + n`. -/
def dataLevels (r : Run) (w : ℕ) : ℕ → List Bool
  | 0 => []
  | n + 1 => dataLevels r w n ++
      if (r.st (w + n + 1)).byte.shift then [(r.st (w + n + 1)).byte.bit.dout] else []

/-- The registers of a command with the bits it has been given; `rd` says that it is a reception. -/
structure Record (rd : Bool) (acks data : List Bool) (s : RTLI2C) : Prop where
  acks : acks = match s.byte.cState with
    | .start | .read | .write | .ack => []
    | .stop | .idle => [s.byte.ackOut]
  data : rd = true → data = match s.byte.cState with
    | .start | .write => []
    | .read => lowBits (7 - s.dcntNext) s.srNext
    | .ack | .stop | .idle => lowBits 8 s.srNext

section

variable {p k a : ℕ} {line rd : Bool} {s : RTLI2C} {i : In} {acks data : List Bool}

/-- A command that begins. -/
theorem record_begin (rd : Bool) (on : s.On p) (ph : s.InPhase .pending) :
    (s.step i).Record rd [] [] ∧ (s.step i).byte.shift = false := by
  obtain ⟨transfers, idle, done, al⟩ := ph
  have fsm := step_begin (i := i) on.rst al idle done transfers
  refine ⟨⟨?_, fun _ => ?_⟩, by rw [fsm]⟩
  · rw [fsm]
    cases s.start <;> cases s.read <;> rfl
  · rw [dcntNext, fsm]
    cases s.start <;> cases s.read <;> rfl

/-- Waiting for the bit controller. -/
theorem Record.step_wait (h : s.Record rd acks data) (on : s.On p) (al : s.al = false)
    (busy : s.byte.cState ≠ .idle) (wait : s.byte.bit.cmdAck = false) :
    (s.step i).Record rd acks data ∧ (s.step i).byte.shift = false := by
  have fsm := RTLI2C.step_wait (i := i) on.rst al busy wait
  obtain ⟨sr, dcnt⟩ := next_wait (i := i) on al busy wait
  refine ⟨⟨?_, fun isRd => ?_⟩, by rw [fsm]⟩
  · rw [h.acks, fsm]
  · rw [h.data isRd, sr, dcnt, fsm]

/-- An acknowledge hands its bit over. -/
theorem Record.step_advance (h : s.Record rd acks data) (inStep : s.InStep) (on : s.On p)
    (dcnt : s.byte.dcnt < 8) (read : rd = s.read) (al : s.al = false) (done : s.done = false)
    (busy : s.byte.cState ≠ .idle) (ack : s.byte.bit.cmdAck = true) :
    (s.step i).Record rd (acks ++ if s.slotOver then [s.byte.bit.dout] else [])
      (data ++ if (s.step i).byte.shift then [(s.step i).byte.bit.dout] else []) := by
  have fsm := RTLI2C.step_advance (i := i) inStep on.rst al done busy ack
  obtain ⟨next, nextCount, here, hereCount⟩ := next_advance (i := i) inStep on al done busy ack
  have rdRead := inStep.read
  have wrRead := inStep.write
  obtain ⟨hacks, hdata⟩ := h
  rw [here, hereCount] at hdata
  constructor
  · rw [slotOver, ack, al, fsm]
    cases state : s.byte.cState <;> rw [state] at hacks
    case idle => exact absurd state busy
    case ack => cases s.stop <;> simp [hacks, ByteState.succ]
    case start => cases s.read <;> simp [hacks, ByteState.succ]
    case stop => simp [hacks, ByteState.succ]
    all_goals
      by_cases zero : s.byte.dcnt = 0 <;> simp [hacks, ByteState.succ, zero]
  · intro isRd
    have hdata := hdata isRd
    rw [next, nextCount, fsm]
    cases state : s.byte.cState <;> rw [state] at hdata
    case idle => exact absurd state busy
    case start => simp [hdata, ByteState.succ, ← read, isRd, lowBits]
    case read =>
      have hdata : data = lowBits (7 - s.byte.dcnt) s.byte.sr := hdata
      have bit : data ++ (if true then [(s.step i).byte.bit.dout] else []) = _ :=
        (congrArg (· ++ [(s.step i).byte.bit.dout]) hdata).trans (lowBits_more dcnt _ _).symm
      refine bit.trans ?_
      by_cases zero : s.byte.dcnt = 0 <;> simp [ByteState.succ, zero]
    case write =>
      rw [read, wrRead state] at isRd
      cases isRd
    case ack => cases s.stop <;> simp [hdata, ByteState.succ]
    case stop => simp [hdata, ByteState.succ]

/-- A byte controller at rest leaves the registers alone. -/
theorem Record.step_idle (h : s.Record rd acks data) (on : s.On p) (al : s.al = false)
    (idle : s.byte.cState = .idle) (quiet : s.byte.go (s.byteIn i) = false) :
    (s.step i).Record rd acks data ∧ (s.step i).byte.shift = false := by
  have fsm := RTLI2C.step_idle (i := i) on.rst al idle quiet
  have sr : (s.step i).srNext = s.srNext := by
    rw [srNext, step_sr on.rst, fsm]
    rfl
  obtain ⟨hacks, hdata⟩ := h
  rw [idle] at hacks hdata
  refine ⟨⟨?_, fun isRd => ?_⟩, by rw [fsm]⟩
  · rw [hacks, fsm, idle]
  · rw [hdata isRd, sr, fsm, idle]

end

/-! ## The fate of a command -/

/-- The command `v`, written in clock `w`, seen from the later clock `u`: it runs, it was
acknowledged in clock `e`, or it lost the arbitration, as was first signalled in clock `e`.
`ArbLost` is cleared by a command with `STA`. -/
inductive Fate (r : Run) (w : ℕ) (v : BitVec 32) (acks data : List Bool) (u : ℕ) : Prop
  | running (phase : (r.st u).InPhase .running) (word : (r.st u).command = v.setWidth 8)
      (calm : ∀ x, w < x → x < u → (r.st x).al = false ∧ (r.st x).done = false)
      (record : (r.st u).Record (v.getLsbD 5) acks data)
      (arb : (r.st u).arbLost = ((r.st w).arbLost && !v.getLsbD 7))
  | completed (e : ℕ) (after : w < e) (before : e ≤ u) (done : (r.st e).done = true)
      (ended : ((r.st u).InPhase .finishing ∧ (r.st u).command = v.setWidth 8) ∨
        (e < u ∧ (r.st u).Quiescent))
      (calm : ∀ x, w < x → x ≤ u → (r.st x).al = false)
      (first : ∀ x, w < x → x < e → (r.st x).done = false)
      (record : (r.st u).Record (v.getLsbD 5) acks data)
      (arb : (r.st u).arbLost = ((r.st w).arbLost && !v.getLsbD 7))
  | lost (e : ℕ) (after : w < e) (before : e < u) (al : (r.st e).al = true)
      (ended : (r.st u).Quiescent)
      (calm : ∀ x, w < x → x < e → (r.st x).al = false)
      (never : ∀ x, w < x → x ≤ u → (r.st x).done = false)
      (ack : (r.st u).byte.ackOut = false) (arb : (r.st u).arbLost = true)

section

variable {p t₀ : ℕ} {hold : ℕ → Bool} {r : Run}

theorem slotOver_of_idle {s : RTLI2C} (idle : s.byte.cState = .idle) : s.slotOver = false := by
  simp [slotOver, idle]

theorem step_arbLost {s : RTLI2C} {i : In} :
    (s.step i).arbLost = (s.al || (s.arbLost && !s.start)) := rfl

theorem start_of_zero {s : RTLI2C} (h : s.command = 0) : s.start = false := by
  simp [start, h]

/-- The fate of a running command in the next clock. -/
theorem fate_step_running (run : EnabledRun p t₀ r) (hp : 3 ≤ p) {w u k a : ℕ} {v : BitVec 32}
    {line : Bool} {acks data : List Bool} (late : t₀ ≤ u) (later : w < u)
    (sound : Sound p k a line (r.st u)) (noWrite : (r.inp u).write .command = none)
    (phase : (r.st u).InPhase .running) (word : (r.st u).command = v.setWidth 8)
    (calm : ∀ x, w < x → x < u → (r.st x).al = false ∧ (r.st x).done = false)
    (record : (r.st u).Record (v.getLsbD 5) acks data)
    (arb : (r.st u).arbLost = ((r.st w).arbLost && !v.getLsbD 7)) :
    Fate r w v (acks ++ if (r.st u).slotOver then [(r.st u).byte.bit.dout] else [])
      (data ++ if (r.st (u + 1)).byte.shift then [(r.st (u + 1)).byte.bit.dout] else [])
        (u + 1) := by
  have on := run.on u late
  have inStep := sound.inStep
  have read : v.getLsbD 5 = (r.st u).read := by
    rw [RTLI2C.read, word, BitVec.getLsbD_setWidth]
    rfl
  have start : (r.st u).start = v.getLsbD 7 := by
    rw [RTLI2C.start, word, BitVec.getLsbD_setWidth]
    rfl
  have soFar : ∀ x, w < x → x < u + 1 → (r.st x).done = false := fun x low high => by
    rcases Nat.lt_or_ge x u with before | here
    · exact (calm x low before).2
    · rw [show x = u by omega]
      exact phase.2.2.1
  by_cases al : (r.st u).al = true
  · have lost := step_lost (i := r.inp u) on.rst al
    have ended := (running_step_lost on phase al noWrite).2
    rw [← r.next] at lost ended
    refine .lost u later (Nat.lt_succ_self u) al ⟨ended.1, ended.2.1, ended.2.2.1⟩
      (fun x low high => (calm x low high).1) (fun x low high => ?_) (by rw [lost.1]; rfl) ?_
    · rcases Nat.lt_or_ge x (u + 1) with before | here
      · exact soFar x low before
      · rw [show x = u + 1 by omega]
        exact ended.2.2.1
    · rw [r.next, step_arbLost, al]
      rfl
  · have al := eq_false_of_ne_true al
    have noAl : ∀ x, w < x → x < u + 1 → (r.st x).al = false := fun x low high => by
      rcases Nat.lt_or_ge x u with before | here
      · exact (calm x low before).1
      · rwa [show x = u by omega]
    have arb' : (r.st (u + 1)).arbLost = ((r.st w).arbLost && !v.getLsbD 7) := by
      rw [r.next, step_arbLost, al, arb, start]
      cases (r.st w).arbLost <;> cases v.getLsbD 7 <;> rfl
    by_cases ack : (r.st u).byte.bit.cmdAck = true
    · obtain ⟨-, keeps, next⟩ := running_step_advance inStep on hp sound.timed phase al ack noWrite
      have record' := record.step_advance (i := r.inp u) inStep on (run.dcnt_lt u) read al
        phase.2.2.1 phase.2.1 ack
      rw [← r.next] at keeps next record'
      split at next
      · refine .completed (u + 1) (by omega) le_rfl next.2.2.1 (Or.inl ⟨next, keeps.trans word⟩)
          (fun x low high => ?_)
          soFar record' arb'
        rcases Nat.lt_or_ge x (u + 1) with before | here
        · exact noAl x low before
        · rw [show x = u + 1 by omega]
          exact next.2.2.2.1
      · exact .running next (keeps.trans word)
          (fun x low high => ⟨noAl x low high, soFar x low high⟩)
          record' arb'
    · have wait := eq_false_of_ne_true ack
      obtain ⟨-, next, keeps⟩ := running_step_wait inStep on hp sound.timed phase al wait noWrite
      obtain ⟨record', shift⟩ := record.step_wait (i := r.inp u) on al phase.2.1 wait
      rw [← r.next] at keeps next record' shift
      have slot : (r.st u).slotOver = false := by simp [slotOver, wait]
      rw [slot, shift, if_neg Bool.false_ne_true, if_neg Bool.false_ne_true, List.append_nil,
        List.append_nil]
      exact .running next (keeps.trans word) (fun x low high => ⟨noAl x low high, soFar x low high⟩)
        record' arb'

/-- The fate of an acknowledged command in the next clock. -/
theorem fate_step_completed (run : EnabledRun p t₀ r) (hp : 3 ≤ p) {w u k a e : ℕ} {v : BitVec 32}
    {line : Bool} {acks data : List Bool} (late : t₀ ≤ u) (sound : Sound p k a line (r.st u))
    (noWrite : (r.inp u).write .command = none) (after : w < e) (before : e ≤ u)
    (done : (r.st e).done = true)
    (ended : ((r.st u).InPhase .finishing ∧ (r.st u).command = v.setWidth 8) ∨
      (e < u ∧ (r.st u).Quiescent))
    (calm : ∀ x, w < x → x ≤ u → (r.st x).al = false)
    (first : ∀ x, w < x → x < e → (r.st x).done = false)
    (record : (r.st u).Record (v.getLsbD 5) acks data)
    (arb : (r.st u).arbLost = ((r.st w).arbLost && !v.getLsbD 7)) :
    Fate r w v (acks ++ if (r.st u).slotOver then [(r.st u).byte.bit.dout] else [])
      (data ++ if (r.st (u + 1)).byte.shift then [(r.st (u + 1)).byte.bit.dout] else [])
        (u + 1) := by
  have on := run.on u late
  have inStep := sound.inStep
  have al := calm u (by omega) le_rfl
  obtain ⟨idle, go, rest, start⟩ : (r.st u).byte.cState = .idle ∧
      (r.st u).byte.go ((r.st u).byteIn (r.inp u)) = false ∧ (r.st (u + 1)).Quiescent ∧
      ((r.st u).start = v.getLsbD 7 ∨ (r.st u).start = false) := by
    rw [r.next]
    rcases ended with ⟨finishing, word⟩ | ⟨-, command, idle, -⟩
    · have next := (finishing_step inStep on hp sound.timed finishing noWrite).2.1
      refine ⟨finishing.2.1, ?_, ⟨next.1, next.2.1, next.2.2.1⟩, Or.inl ?_⟩
      · simp [ByteCtrl.go, show (r.st u).byte.cmdAck = true from finishing.2.2.1]
      · rw [RTLI2C.start, word, BitVec.getLsbD_setWidth]
        rfl
    · have next := (quiet_step inStep on hp sound.timed command idle noWrite).2
      exact ⟨idle, go_of_command_zero command, ⟨next.1, next.2.1, next.2.2.1⟩,
        Or.inr (start_of_zero command)⟩
  obtain ⟨record', shift⟩ := record.step_idle (i := r.inp u) on al idle go
  rw [← r.next] at record' shift
  rw [slotOver_of_idle idle, shift, if_neg Bool.false_ne_true, if_neg Bool.false_ne_true,
    List.append_nil, List.append_nil]
  refine .completed e after (by omega) done (Or.inr ⟨by omega, rest⟩) (fun x low high => ?_) first
    record' ?_
  · rcases Nat.lt_or_ge x (u + 1) with before | here
    · exact calm x low (by omega)
    · rw [show x = u + 1 by omega, r.next]
      exact inStep.al_next idle
  · rw [r.next, step_arbLost, al, arb]
    rcases start with start | start <;> rw [start]
    · cases (r.st w).arbLost <;> cases v.getLsbD 7 <;> rfl
    · cases (r.st w).arbLost <;> cases v.getLsbD 7 <;> rfl

/-- The fate of a command without arbitration in the next clock. -/
theorem fate_step_lost (run : EnabledRun p t₀ r) (hp : 3 ≤ p) {w u k a e : ℕ} {v : BitVec 32}
    {line : Bool} {acks data : List Bool} (late : t₀ ≤ u) (sound : Sound p k a line (r.st u))
    (noWrite : (r.inp u).write .command = none) (after : w < e) (before : e < u)
    (al : (r.st e).al = true) (ended : (r.st u).Quiescent)
    (calm : ∀ x, w < x → x < e → (r.st x).al = false)
    (never : ∀ x, w < x → x ≤ u → (r.st x).done = false)
    (ack : (r.st u).byte.ackOut = false) (arb : (r.st u).arbLost = true) :
    Fate r w v acks data (u + 1) := by
  have on := run.on u late
  obtain ⟨command, idle, -⟩ := ended
  have next := (quiet_step sound.inStep on hp sound.timed command idle noWrite).2
  have ack' : (r.st (u + 1)).byte.ackOut = false := by
    rw [r.next]
    by_cases again : (r.st u).al = true
    · rw [(step_lost on.rst again).1]
      rfl
    · rw [step_idle on.rst (eq_false_of_ne_true again) idle (go_of_command_zero command)]
      exact ack
  have arb' : (r.st (u + 1)).arbLost = true := by
    rw [r.next, step_arbLost, arb, start_of_zero command]
    exact Bool.or_true _
  rw [← r.next] at next
  refine .lost e after (by omega) al ⟨next.1, next.2.1, next.2.2.1⟩ calm (fun x low high => ?_) ack'
    arb'
  rcases Nat.lt_or_ge x (u + 1) with earlier | here
  · exact never x low (by omega)
  · rw [show x = u + 1 by omega]
    exact next.2.2.1

/-- **The fate of a command**, in every clock from its start until another one is written. -/
theorem EnabledRun.fate (run : EnabledRun p t₀ r) (hp : 3 ≤ p) (scl : Stretching r hold)
    (polite : ∀ t, t₀ ≤ t → (r.st t).Polite (r.inp t)) {w : ℕ} {v : BitVec 32} (late : t₀ ≤ w)
    (hw : (r.inp w).write .command = some v) (n : ℕ)
    (only : ∀ x, w < x → x < w + n + 2 → (r.inp x).write .command = none) :
    Fate r w v (ackLevels r w (n + 1)) (dataLevels r w (n + 2)) (w + n + 2) := by
  have soundAt := fun u (later : t₀ ≤ u) => run.sound_at hp scl polite later
  induction n with
  | zero =>
    obtain ⟨k, a, line, here⟩ := soundAt w late
    obtain ⟨k', a', line', next⟩ := soundAt (w + 1) (by omega)
    have on := run.on w late
    have on' := run.on (w + 1) (by omega)
    obtain ⟨command, idle, al, asks⟩ := polite w late v hw
    have done : (r.st w).done = false := by
      obtain ⟨f, ph⟩ := here.phase
      cases f with
      | finishing =>
        have transfers := ph.1
        rw [transfers_of_zero command] at transfers
        cases transfers
      | _ => exact ph.2.2.1
    have written := write_step here.inStep on hp here.timed command idle done al hw asks
    have calm := step_idle (i := r.inp w) on.rst al idle (go_of_command_zero command)
    have shift : (r.st (w + 1)).byte.shift = false := by rw [r.next, calm]
    rw [← r.next] at written
    obtain ⟨-, pending, word⟩ := written
    have noWrite := only (w + 1) (by omega) (by omega)
    have starts := pending_step next.inStep on' hp next.timed pending noWrite
    obtain ⟨record, shift'⟩ := record_begin (i := r.inp (w + 1)) (v.getLsbD 5) on' pending
    rw [← r.next] at starts record shift'
    have start : (r.st (w + 1)).start = v.getLsbD 7 := by
      rw [RTLI2C.start, word, BitVec.getLsbD_setWidth]
      rfl
    have arb : (r.st (w + 2)).arbLost = ((r.st w).arbLost && !v.getLsbD 7) := by
      have one : (r.st (w + 1)).arbLost = (r.st w).arbLost := by
        rw [r.next, step_arbLost, al, start_of_zero command, Bool.not_false, Bool.and_true,
          Bool.false_or]
      have two : (r.st (w + 2)).arbLost = ((r.st (w + 1)).al ||
          ((r.st (w + 1)).arbLost && !(r.st (w + 1)).start)) := congrArg arbLost (r.next (w + 1))
      rw [two, pending.2.2.2, one, start, Bool.false_or]
    have acks : ackLevels r w 1 = [] := by
      simp [ackLevels, slotOver_of_idle pending.2.1]
    have data : dataLevels r w 2 = [] := by
      simp [dataLevels, shift, show (r.st (w + 1 + 1)).byte.shift = false from shift']
    rw [Nat.zero_add, Nat.zero_add, acks, data]
    refine .running starts.2.1 (starts.2.2.1.trans word) (fun x low high => ?_) record arb
    rw [show x = w + 1 by omega]
    exact ⟨pending.2.2.2, pending.2.2.1⟩
  | succ n ih =>
    have before := ih fun x low high => only x low (by omega)
    obtain ⟨k, a, line, here⟩ := soundAt (w + n + 2) (by omega)
    have noWrite := only (w + n + 2) (by omega) (by omega)
    have acks : ackLevels r w (n + 2) = ackLevels r w (n + 1) ++
        if (r.st (w + n + 2)).slotOver then [(r.st (w + n + 2)).byte.bit.dout] else [] := rfl
    have data : dataLevels r w (n + 3) = dataLevels r w (n + 2) ++
        if (r.st (w + n + 3)).byte.shift then [(r.st (w + n + 3)).byte.bit.dout] else [] := rfl
    show Fate r w v (ackLevels r w (n + 2)) (dataLevels r w (n + 3)) (w + n + 2 + 1)
    rw [acks, data]
    cases before with
    | running phase word calm record arb =>
      exact fate_step_running run hp (by omega) (by omega) here noWrite phase word calm record arb
    | completed e after before done ended calm first record arb =>
      exact fate_step_completed run hp (by omega) here noWrite after before done ended calm first
        record arb
    | lost e after before al ended calm never ack arb =>
      exact fate_step_lost run hp (by omega) here noWrite after before al ended calm never ack arb

end

end RTLI2C

end Rockling
