import Rockling.Rtl.Waveform

/-!
# What the controller reads

The SCL and the SDA line go through the same filter at the same sampling clocks. At the release of
SCL the path of SCL is empty, so from then on its set samples were all taken while the line was
high, and the samples of SDA next to them hold the level of the bit. The bit controller takes SDA
when the filtered SCL rises, and that is this level (`Sampled`). The byte controller collects the
bits in its shift register and the acknowledge in `RxACK` (`Gathered`).

With this the contract of a command is complete (`command_waveform`): what the controller puts on
the wires, and what it reads from them.
-/

namespace Rockling

open TwoWire (Symbol Levels Reader)

theorem BitState.not_before_of_slot {c : BitState} (slot : c.slot = true) : c.before = false := by
  revert slot
  cases c <;> decide

namespace BitFsm

variable {x : BitFsm} {cmd : Cmd} {din : Bool}

/-- A bit is on the wires from the release of SCL on. -/
theorem exec_slot (slot : (x.exec cmd din).cState.slot = true) :
    x.cState.slot = true ∨ (x.cState.isSetup = true ∧ x.cState.lowRank = 2) := by
  obtain ⟨c, k, scl, sda, chk⟩ := x
  cases c <;> first | exact Or.inl rfl | exact Or.inr ⟨rfl, rfl⟩ | cases slot | skip
  cases cmd <;> cases slot

end BitFsm

namespace BitCtrl

/-- A bit is on the wires, `a` clocks after SCL was pulled low, with the SDA line at `sda`. Once the
filtered SCL has risen it is read. -/
structure Sampled (p a : ℕ) (line sda : Bool) (b : BitCtrl) : Prop where
  age : 2 * filterPeriod p + 4 ≤ a
  empty : line = false → b.scl.Empty
  tracks : line = true → b.scl.Tracks sda b.sda
  read : b.dsclOen = true → b.peripheralWait = false →
    line = true ∧ b.scl.s = true ∧ b.scl.d = true ∧ b.dout = sda

variable {p k a : ℕ} {line line' sda' : Bool} {b : BitCtrl} {i : BitIn}

/-- The release of SCL finds the path of SCL empty. -/
theorem Paced.sampled_release (h : b.Paced p a line) (timed : b.Timed p k a line) (hp : 3 ≤ p)
    (hi : i.Running p) (high : i.sclI = line) (en : b.clkEn = true)
    (setup : b.cState.isSetup = true) (second : b.cState.lowRank = 2) :
    (b.step i).Sampled p (ageNext a b (b.step i)) line' sda' := by
  have low := (timed.setup setup).1
  obtain ⟨-, -, long⟩ := h.low low
  have down : line = false := eq_false_of_ne_true fun up => by
    rw [timed.line_oen up] at low
    cases low
  have full : b.pace p = p + 1 := by simp [pace, en]
  rw [second, full] at long
  have settled := timed.settling
  rw [down] at settled
  have empty := settled.empty (by unfold filterPeriod; omega)
  have empty' : (b.step i).scl.Empty := by
    rw [step_scl hi, high, down]
    exact empty.step
  refine ⟨?_, fun _ => empty', fun _ => empty'.tracks, fun oen => ?_⟩
  · rw [ageNext_of_low low]
    unfold filterPeriod
    omega
  · have oen : b.sclOen = true := oen
    rw [low] at oen
    cases oen

/-- While the bit is on the wires. -/
theorem Sampled.step_slot (h : b.Sampled p a line i.sdaI) (stalls : b.Stalls i.cmd)
    (timed : b.Timed p k a line) (paced : b.Paced p a line) (hi : i.Running p)
    (scl : i.sclI = line) (slot : b.cState.slot = true) (high' : (b.step i).sclOen = true)
    (keeps : line = true → line' = true) (stays : line = true → sda' = i.sdaI) :
    (b.step i).Sampled p (ageNext a b (b.step i)) line' sda' := by
  have age := h.age
  have settling := timed.settling
  have high : b.sclOen = true := timed.up (BitState.not_before_of_slot slot)
  -- a bit that is not read yet: the divider waits, or will from the next clock on
  have unread : ¬ (b.dsclOen = true ∧ b.peripheralWait = false) →
      (b.dsclOen = false ∧ b.scl.s = false) ∨ (b.peripheralWait = true ∧ b.scl.d = false) := by
    intro not
    by_cases wait : b.peripheralWait = true
    · exact Or.inr ⟨wait, (stalls.wait wait).2.1⟩
    · refine Or.inl ?_
      have oen : b.dsclOen = false := by simpa [eq_false_of_ne_true wait] using not
      by_cases rising : b.cState.rising = true
      · rcases (paced.rising rising).2 with ⟨-, -, -, -, s, -⟩ | ⟨-, held, -⟩ | ⟨-, held, -⟩
        · exact ⟨oen, s⟩
        · rw [oen] at held
          cases held
        · rw [oen] at held
          cases held
      · rw [(paced.still high (eq_false_of_ne_true rising)).2.1] at oen
        cases oen
  have waited : (b.step i).peripheralWait =
    ((b.sclOen && !b.dsclOen && !b.scl.s) || (b.peripheralWait && !b.scl.s)) := rfl
  rw [ageNext_of_high high']
  by_cases up : line = true
  · have up' := keeps up
    have now := stays up
    have tracks := h.tracks up
    refine ⟨by omega, fun down => ?_, fun _ => ?_, fun _ wait => ?_⟩
    · rw [up'] at down
      cases down
    · rw [step_scl hi, step_sda hi, now]
      exact tracks.step fun _ => rfl
    · -- the filtered line has risen, now or before
      have risen : b.scl.s = true ∧ (b.step i).dout = i.sdaI := by
        have dout : (b.step i).dout = if b.scl.s && !b.scl.d then b.sda.s else b.dout := rfl
        by_cases before : b.dsclOen = true ∧ b.peripheralWait = false
        · obtain ⟨-, s, d, read⟩ := h.read before.1 before.2
          refine ⟨s, ?_⟩
          rw [dout, s, d]
          exact read
        · rcases unread before with ⟨oen, s⟩ | ⟨waiting, d⟩
          · rw [waited, high, oen, s] at wait
            cases wait
          · have s : b.scl.s = true := by
              rw [waited, waiting] at wait
              revert wait
              cases b.scl.s <;> simp
            refine ⟨s, ?_⟩
            rw [dout, s, d]
            exact tracks.s s
      rw [step_s hi, step_d hi, now]
      exact ⟨up', settling.s (by omega) risen.1, risen.1, risen.2⟩
  · have down := eq_false_of_ne_true up
    have empty := h.empty down
    have empty' : (b.step i).scl.Empty := by
      rw [step_scl hi, scl, down]
      exact empty.step
    refine ⟨by omega, fun _ => empty', fun _ => empty'.tracks, fun _ wait => ?_⟩
    by_cases before : b.dsclOen = true ∧ b.peripheralWait = false
    · exact absurd (h.read before.1 before.2).1 up
    · rcases unread before with ⟨oen, s⟩ | ⟨waiting, -⟩
      · rw [waited, high, oen, s] at wait
        cases wait
      · rw [waited, waiting, empty.s] at wait
        simp at wait

/-- **A bit on the wires is sampled**, in every clock without an arbitration loss. -/
theorem Sampled.step (line' sda' : Bool) (h : b.cState.slot = true → b.Sampled p a line i.sdaI)
    (stalls : b.Stalls i.cmd) (timed : b.Timed p k a line) (paced : b.Paced p a line) (hp : 3 ≤ p)
    (hi : i.Running p) (al : b.al = false) (scl : i.sclI = line)
    (high' : (b.step i).cState.slot = true → (b.step i).sclOen = true)
    (keeps : line = true → (b.step i).sclOen = true → line' = true)
    (stays : b.cState.slot = true → (b.step i).cState.slot = true → line = true → sda' = i.sdaI)
    (slot' : (b.step i).cState.slot = true) :
    (b.step i).Sampled p (ageNext a b (b.step i)) line' sda' := by
  have go : b.cState.slot = true → (b.step i).Sampled p (ageNext a b (b.step i)) line' sda' :=
    fun slot => (h slot).step_slot stalls timed paced hi scl slot (high' slot')
      (fun up => keeps up (high' slot')) (stays slot slot')
  rcases b.fsm_cases hi with ⟨lost, -⟩ | ⟨-, en, fsm⟩ | ⟨-, -, fsm⟩
  · rw [al] at lost
    cases lost
  · rcases BitFsm.exec_slot (by rw [fsm] at slot'; exact slot') with slot | ⟨setup, second⟩
    · exact go slot
    · exact paced.sampled_release timed hp hi scl en setup second
  · exact go (by rw [fsm] at slot'; exact slot')

end BitCtrl

/-! ## Collecting the bits -/

namespace RTLI2C

section

variable {p k a : ℕ} {line : Bool} {s : RTLI2C} {i : In} {rd : Bool} {heard : List Bool}

/-- The bits of the byte that a running command with `RD` has read. -/
def dataBits (s : RTLI2C) : List Bool :=
  match s.byte.cState with
  | .start | .write => []
  | .read =>
    lowBits (7 - s.dcntNext) s.srNext ++ if s.byte.bit.cmdAck then [s.byte.bit.dout] else []
  | .ack | .stop | .idle => lowBits 8 s.srNext

/-- The acknowledge bit that a running command has read. -/
def ackBits (s : RTLI2C) : List Bool :=
  match s.byte.cState with
  | .start | .write | .read => []
  | .ack => if s.byte.bit.cmdAck then [s.byte.bit.dout] else []
  | .stop | .idle => [s.byte.ackOut]

/-- The bits on the wires that the command has come to know. -/
structure Gathered (rd : Bool) (s : RTLI2C) (heard : List Bool) : Prop where
  bits : ∃ data, heard = data ++ s.ackBits ∧ (rd = true → data = s.dataBits)
  settled : s.byte.bit.cmdAck = true → s.byte.cState = .read → s.byte.bit.scl.d = true

/-- What this clock adds to the bits on the wires, with the SDA line at `sda`. -/
def hears (s : RTLI2C) (sda : Bool) : List Bool :=
  if s.byte.bit.clkEn && (s.byte.bit.cState == .rdD || s.byte.bit.cState == .wrD) then [sda] else []

/-- A command that begins has read nothing. -/
theorem gathered_begin (rd : Bool) (on : s.On p) (hp : 3 ≤ p) (inStep : s.InStep)
    (timed : s.byte.bit.Timed p k a line) (ph : s.InPhase .pending) :
    (s.step i).Gathered rd [] := by
  obtain ⟨transfers, idle, done, al⟩ := ph
  have fsm := step_begin (i := i) on.rst al idle done transfers
  have noAck := inStep.noAck_next (i := i) on hp timed (Or.inl idle)
  refine ⟨⟨[], ?_, fun _ => ?_⟩, fun ack => by rw [noAck] at ack; cases ack⟩
  · rw [ackBits, fsm]
    cases s.start <;> cases s.read <;> rfl
  · rw [dataBits, noAck, dcntNext, fsm]
    cases s.start <;> cases s.read <;> rfl

/-- The bits stay as they are when the byte controller rests. -/
theorem Gathered.step_idle (h : s.Gathered rd heard) (on : s.On p) (al : s.al = false)
    (idle : s.byte.cState = .idle) (quiet : s.byte.go (s.byteIn i) = false) :
    (s.step i).Gathered rd heard := by
  have fsm := RTLI2C.step_idle (i := i) on.rst al idle quiet
  have state : (s.step i).byte.cState = .idle := by rw [fsm]; exact idle
  obtain ⟨data, eq, known⟩ := h.bits
  refine ⟨⟨data, ?_, fun rd => ?_⟩, fun _ read => by rw [state] at read; cases read⟩
  · rw [eq, ackBits, ackBits, idle, fsm, idle]
  · have sr : (s.step i).srNext = s.srNext := by
      rw [srNext, step_sr on.rst, fsm]
      rfl
    rw [known rd, dataBits, dataBits, idle, state, sr]

/-- The acknowledge of a bit command hands its bit over. -/
theorem Gathered.step_advance (h : s.Gathered rd heard) (inStep : s.InStep) (on : s.On p)
    (hp : 3 ≤ p)
    (timed : s.byte.bit.Timed p k a line) (dcnt : s.byte.dcnt < 8) (read : rd = s.read)
    (al : s.al = false) (done : s.done = false) (busy : s.byte.cState ≠ .idle)
    (ack : s.byte.bit.cmdAck = true) : (s.step i).Gathered rd heard := by
  have fsm := RTLI2C.step_advance (i := i) inStep on.rst al done busy ack
  have noAck := inStep.noAck_next (i := i) on hp timed (Or.inr ack)
  obtain ⟨next, nextCount, here, hereCount⟩ := next_advance (i := i) inStep on al done busy ack
  have dout : s.byte.cState = .read → (s.step i).byte.bit.dout = s.byte.bit.dout := fun state => by
    have kept : (s.step i).byte.bit.dout = if s.byte.bit.scl.s && !s.byte.bit.scl.d then
        s.byte.bit.sda.s else s.byte.bit.dout := rfl
    rw [kept, h.settled ack state, Bool.not_true, Bool.and_false]
    rfl
  obtain ⟨data, eq, known⟩ := h.bits
  refine ⟨⟨if rd then (s.step i).dataBits else data, ?_, fun isRd => if_pos isRd⟩,
    fun ack' => by rw [noAck] at ack'; cases ack'⟩
  have rdRead := inStep.read
  have wrRead := inStep.write
  have ended := inStep.stop
  rw [dataBits, here, hereCount, ack] at known
  rw [ackBits, ack] at eq
  rw [dataBits, ackBits, next, nextCount, noAck, fsm]
  cases state : s.byte.cState <;> simp only [state, if_pos] at eq known
  case idle => exact absurd state busy
  case start =>
    cases isRd : rd
    · simp [eq, ByteState.succ, ← read, isRd]
    · simp [eq, known isRd, ByteState.succ, ← read, isRd, lowBits]
  case read =>
    have isRd : rd = true := read.trans (rdRead state)
    rw [dout state, isRd, if_pos rfl, eq, known isRd, ← lowBits_more dcnt]
    by_cases zero : s.byte.dcnt = 0 <;> simp [ByteState.succ, zero]
  case write =>
    have isWr : rd = false := read.trans (wrRead state)
    rw [isWr, eq]
    by_cases zero : s.byte.dcnt = 0 <;> simp [ByteState.succ, zero]
  case ack =>
    cases isRd : rd
    · cases s.stop <;> simp [eq, ByteState.succ]
    · cases s.stop <;> simp [eq, known isRd, ByteState.succ]
  case stop =>
    cases isRd : rd
    · simp [eq, ByteState.succ]
    · simp [eq, known isRd, ByteState.succ]

/-- The end of a bit on the wires. -/
theorem slot_end (inStep : s.InStep) (on : s.On p) (paced : s.byte.bit.Paced p a line)
    (timed : s.byte.bit.Timed p k a line)
    (sampled : s.byte.bit.cState.slot = true → s.byte.bit.Sampled p a line i.sda)
    (ack : (s.step i).byte.bit.cmdAck = true) :
    ((s.byte.cState = .start ∨ s.byte.cState = .stop) ∧ s.hears i.sda = []) ∨
      ((s.byte.cState = .read ∨ s.byte.cState = .write ∨ s.byte.cState = .ack) ∧
        s.hears i.sda = [i.sda] ∧ (s.step i).byte.bit.dout = i.sda ∧
        (s.step i).byte.bit.scl.d = true ∧ line = true) := by
  have running := on.running i
  obtain ⟨en, last⟩ : s.byte.bit.clkEn = true ∧ s.byte.bit.cState.isLast = true := by
    rw [step_bit] at ack
    rcases s.byte.bit.fsm_cases running with ⟨-, fsm⟩ | ⟨-, en, fsm⟩ | ⟨-, -, fsm⟩
    · rw [fsm] at ack
      cases ack
    · rw [fsm] at ack
      exact ⟨en, (BitFsm.exec_cmdAck ack).2⟩
    · rw [fsm] at ack
      cases ack
  have high := (timed.last last).1
  have group := inStep.group fun idle => by rw [idle] at last; cases last
  rw [inStep.coreCmd] at group
  by_cases slot : s.byte.bit.cState.slot = true
  · right
    have still : s.byte.bit.cState.rising = false := by
      revert last
      cases s.byte.bit.cState <;> decide
    obtain ⟨-, oen, wait⟩ := paced.still high still
    obtain ⟨up, set, before, read⟩ := (sampled slot).read oen wait
    have dout : (s.step i).byte.bit.dout = if s.byte.bit.scl.s && !s.byte.bit.scl.d then
        s.byte.bit.sda.s else s.byte.bit.dout := rfl
    refine ⟨?_, ?_, ?_, ?_, up⟩
    · revert group slot
      cases s.byte.bit.cState <;> cases s.byte.cState <;> cases s.read <;>
        simp [BitState.slot, BitState.cmd, ByteState.cmd]
    · rw [hears, en]
      revert slot last
      cases s.byte.bit.cState <;> simp [BitState.slot, BitState.isLast]
    · rw [dout, set, before]
      exact read
    · rw [step_bit, BitCtrl.step_d running, set]
  · left
    constructor
    · revert group slot last
      cases s.byte.bit.cState <;> cases s.byte.cState <;> cases s.read <;>
        simp [BitState.slot, BitState.cmd, ByteState.cmd, BitState.isLast]
    · rw [hears]
      revert slot
      cases s.byte.bit.cState <;> simp [BitState.slot]

/-- A bit command that goes on. -/
theorem Gathered.step_wait (h : s.Gathered rd heard) (inStep : s.InStep) (on : s.On p)
    (timed : s.byte.bit.Timed p k a line) (paced : s.byte.bit.Paced p a line)
    (sampled : s.byte.bit.cState.slot = true → s.byte.bit.Sampled p a line i.sda)
    (read : rd = s.read) (al : s.al = false) (busy : s.byte.cState ≠ .idle)
    (wait : s.byte.bit.cmdAck = false) : (s.step i).Gathered rd (heard ++ s.hears i.sda) := by
  have fsm := RTLI2C.step_wait (i := i) on.rst al busy wait
  obtain ⟨sr, dcnt⟩ := next_wait (i := i) on al busy wait
  have state : (s.step i).byte.cState = s.byte.cState := by rw [fsm]
  have ackOut : (s.step i).byte.ackOut = s.byte.ackOut := by rw [fsm]
  obtain ⟨data, eq, known⟩ := h.bits
  rw [ackBits, wait] at eq
  rw [dataBits, wait] at known
  by_cases ack : (s.step i).byte.bit.cmdAck = true
  · rcases slot_end inStep on paced timed sampled ack with ⟨cmd, none⟩ | ⟨cmd, some, dout, d, -⟩
    · rw [none, List.append_nil]
      refine ⟨⟨data, ?_, fun isRd => ?_⟩, fun _ read' => ?_⟩
      · rw [eq, ackBits, state, ackOut]
        rcases cmd with cmd | cmd <;> rw [cmd]
      · rw [known isRd, dataBits, state, sr]
        rcases cmd with cmd | cmd <;> rw [cmd]
      · rw [state] at read'
        rcases cmd with cmd | cmd <;> rw [cmd] at read' <;> cases read'
    · rw [some]
      refine ⟨?_, fun _ _ => d⟩
      rcases cmd with cmd | cmd | cmd <;> rw [cmd] at eq known
      · refine ⟨data ++ [i.sda], ?_, fun isRd => ?_⟩
        · rw [eq, ackBits, state, cmd]
          simp
        · rw [known isRd, dataBits, state, cmd, ack, sr, dcnt, dout]
          simp
      · refine ⟨data ++ [i.sda], ?_, fun isRd => ?_⟩
        · rw [eq, ackBits, state, cmd]
          simp
        · rw [read, inStep.write cmd] at isRd
          cases isRd
      · refine ⟨data, ?_, fun isRd => ?_⟩
        · rw [eq, ackBits, state, cmd, ack, dout]
          simp
        · rw [known isRd, dataBits, state, cmd, sr]
  · have ack := eq_false_of_ne_true ack
    have none : s.hears i.sda = [] := by
      rw [hears]
      rw [step_bit] at ack
      rcases s.byte.bit.fsm_cases (on.running i) with ⟨lost, -⟩ | ⟨-, en, fsm⟩ | ⟨-, en, fsm⟩
      · rw [show s.byte.bit.al = false from al] at lost
        cases lost
      · rw [fsm] at ack
        rw [if_neg]
        intro both
        revert ack both
        cases bit : s.byte.bit.cState <;> simp [BitFsm.exec, bit]
      · rw [en]
        rfl
    rw [none, List.append_nil]
    refine ⟨⟨data, ?_, fun isRd => ?_⟩, fun ack' => by rw [ack] at ack'; cases ack'⟩
    · rw [eq, ackBits, state, ackOut, ack]
      rfl
    · rw [known isRd, dataBits, state, ack, sr, dcnt]
      rfl

end

/-! ## Runs -/

/-- `pull t` says that others pull SDA low in clock `t`. The line is a wired AND, and they keep
their outputs while SCL is high. -/
structure Answering (r : Run) (pull : ℕ → Bool) : Prop where
  line : ∀ t, (r.inp t).sda = ((r.st t).sdaOen && !pull t)
  stays : ∀ t, sclLine r t = true → sclLine r (t + 1) = true → pull (t + 1) = pull t

/-- The levels of the SDA line at the bits that a listener, who arrives in clock `t`, reads. -/
def heard (r : Run) (t : ℕ) : ℕ → List Bool
  | 0 => []
  | n + 1 => heard r t n ++ ((Reader.listen (wave r) t n).reads (wave r (t + n + 1))).filterMap
      fun
        | .bit _ => some (r.inp (t + n)).sda
        | _ => none

/-- The bits that a clock shows are the ones it hears. -/
theorem hears_eq (s : RTLI2C) (sda : Bool) :
    (s.shows.filterMap fun | .bit _ => some sda | _ => none) = s.hears sda := by
  rw [shows, hears]
  cases s.byte.bit.clkEn
  · rfl
  · cases s.byte.bit.cState <;> rfl

section

variable {p t₀ : ℕ} {hold pull : ℕ → Bool} {r : Run}

/-- While a bit is on the wires the controller keeps its SDA output. -/
theorem Drives.sda_stays {k a : ℕ} {line : Bool} {s : RTLI2C} {i : In} (h : s.Drives)
    (paced : Paced p k a line s) (on : s.On p) (al : s.al = false)
    (slot : (s.step i).byte.bit.cState.slot = true) (up : (s.step i).sclOen = true)
    (before : s.sclOen = true) : (s.step i).sdaOen = s.sdaOen := by
  rw [sclOen, step_bit] at up
  rw [step_bit] at slot
  rw [sdaOen, sdaOen, step_bit]
  rcases s.byte.bit.fsm_cases (on.running i) with ⟨lost, -⟩ | ⟨-, en, fsm⟩ | ⟨-, -, fsm⟩
  · rw [show s.byte.bit.al = false from al] at lost
    cases lost
  · rcases h.moves paced.timed paced.paced en fsm with
      ⟨low, -, -⟩ | ⟨-, same, -, -, -⟩ | ⟨-, low', -, -⟩ |
      ⟨-, -, -, -, -, slot'⟩ | ⟨-, -, -, -, -, slot'⟩
    · rw [show s.sclOen = false from low] at before
      cases before
    · exact same
    · rw [low'] at up
      cases up
    · rw [slot'] at slot
      cases slot
    · rw [slot'] at slot
      cases slot
  · rw [fsm]

theorem OwnedRun.sda_stays (run : OwnedRun p t₀ hold r) (hp : 3 ≤ p) {t : ℕ} (late : t₀ ≤ t)
    (slot : (bitAt r (t + 1)).cState.slot = true) (up : (bitAt r (t + 1)).sclOen = true)
    (before : (bitAt r t).sclOen = true) : (r.st (t + 1)).sdaOen = (r.st t).sdaOen := by
  obtain ⟨a₀, paced⟩ := run.paced hp
  obtain ⟨k, rfl⟩ := Nat.exists_eq_add_of_le late
  rw [bitAt, r.next] at slot up
  rw [r.next]
  exact (run.drives hp late).sda_stays (paced k) (run.enabled.on _ late) (run.noAl _) slot up before

/-- **Every bit on the wires is sampled.** -/
theorem OwnedRun.sampled (run : OwnedRun p t₀ hold r) (hp : 3 ≤ p) (answers : Answering r pull)
    {a₀ : ℕ} (paced : ∀ k, Paced p k (ageAt r t₀ a₀ k) (sclLine r (t₀ + k)) (r.st (t₀ + k)))
    (k : ℕ) :
    (bitAt r (t₀ + k)).cState.slot = true →
      (bitAt r (t₀ + k)).Sampled p (ageAt r t₀ a₀ k) (sclLine r (t₀ + k)) (r.inp (t₀ + k)).sda := by
  induction k with
  | zero =>
    intro slot
    rw [(paced 0).timed.early (by omega)] at slot
    cases slot
  | succ k ih =>
    have late : t₀ ≤ t₀ + k := Nat.le_add_right _ _
    have keeps := run.scl.keeps (t := t₀ + k)
    have up : (r.st (t₀ + k + 1)).byte.bit.cState.slot = true →
        (r.st (t₀ + k + 1)).byte.bit.sclOen = true := fun slot =>
      (paced (k + 1)).timed.up (BitState.not_before_of_slot slot)
    have stays : (bitAt r (t₀ + k)).cState.slot = true →
        (r.st (t₀ + k + 1)).byte.bit.cState.slot = true → sclLine r (t₀ + k) = true →
          (r.inp (t₀ + k + 1)).sda = (r.inp (t₀ + k)).sda := by
      intro slot slot' line
      have high := run.scl.oen line
      have same := run.sda_stays hp late slot' (up slot') high
      rw [answers.line, answers.line, same, answers.stays _ line (keeps line (up slot'))]
    intro slot'
    rw [r.next] at keeps up stays
    have next := BitCtrl.Sampled.step (sclLine r (t₀ + k + 1)) (r.inp (t₀ + k + 1)).sda
      ih (run.enabled.stalls hp run.scl run.polite late)
      (paced k).timed (paced k).paced hp ((run.enabled.on _ late).running (r.inp (t₀ + k)))
      (run.noAl _) rfl up keeps stays
    rw [← step_bit, ← r.next] at next
    exact next slot'

/-- **The bits on the wires are gathered**, from the clock of a command write until the next command
is written. -/
theorem OwnedRun.gathered (run : OwnedRun p t₀ hold r) (hp : 3 ≤ p) (answers : Answering r pull)
    {t : ℕ} {v : BitVec 32} (late : t₀ ≤ t) (hw : (r.inp t).write .command = some v) (n : ℕ)
    (only : ∀ u, t < u → u < t + n + 2 → (r.inp u).write .command = none) :
    (r.st (t + n + 2)).Gathered (v.getLsbD 5) (heard r t (n + 2)) ∧
      (r.st (t + n + 2)).Underway (v.setWidth 8) := by
  obtain ⟨a₀, paced⟩ := run.paced hp
  obtain ⟨bit, pending, word, -⟩ := run.pending hp late hw
  have grows : ∀ n, heard r t (n + 1) =
      heard r t n ++ (r.st (t + n)).hears (r.inp (t + n)).sda := by
    intro n
    rw [heard, (run.keeps_up hp late bit n).2, hears_eq]
  have silent : ∀ {s : RTLI2C} {sda}, s.byte.bit.cState = .idle → s.hears sda = [] := by
    intro s sda idle
    rw [hears, idle]
    cases s.byte.bit.clkEn <;> rfl
  induction n with
  | zero =>
    obtain ⟨k, eq⟩ := Nat.exists_eq_add_of_le (show t₀ ≤ t + 1 by omega)
    have here := (paced k).toSound
    have on := run.enabled.on (t + 1) (by omega)
    rw [← eq] at here
    have noWrite := only (t + 1) (by omega) (by omega)
    have next := pending_step here.inStep on hp here.timed pending noWrite
    have none : heard r t 2 = [] := by
      rw [grows, grows, Nat.add_zero, silent bit, silent (here.inStep.bit_idle pending.2.1)]
      rfl
    have start := gathered_begin (i := r.inp (t + 1)) (v.getLsbD 5) on hp here.inStep here.timed
      pending
    rw [← r.next] at next start
    refine ⟨?_, Or.inl ⟨next.2.1, next.2.2.1.trans word⟩⟩
    rw [Nat.zero_add, none]
    exact start
  | succ n ih =>
    obtain ⟨gathered, under⟩ := ih fun u after before => only u after (by omega)
    obtain ⟨k, eq⟩ := Nat.exists_eq_add_of_le (show t₀ ≤ t + n + 2 by omega)
    have here := paced k
    have sampled := run.sampled hp answers paced k
    have on := run.enabled.on (t + n + 2) (by omega)
    rw [← eq] at here sampled
    have noWrite := only (t + n + 2) (by omega) (by omega)
    have under' := under.step here.inStep on hp here.timed noWrite
    have al := run.noAl (t + n + 2)
    rw [← r.next] at under'
    refine ⟨?_, under'⟩
    have more : heard r t (n + 1 + 2) =
      heard r t (n + 2) ++ (r.st (t + n + 2)).hears (r.inp (t + n + 2)).sda := grows (n + 2)
    have next : r.st (t + (n + 1) + 2) = (r.st (t + n + 2)).step (r.inp (t + n + 2)) := r.next _
    rw [more, next]
    have rest : (r.st (t + n + 2)).byte.cState = .idle →
        (r.st (t + n + 2)).byte.go ((r.st (t + n + 2)).byteIn (r.inp (t + n + 2))) = false →
        ((r.st (t + n + 2)).step (r.inp (t + n + 2))).Gathered (v.getLsbD 5)
          (heard r t (n + 2) ++ (r.st (t + n + 2)).hears (r.inp (t + n + 2)).sda) := by
      intro idle quiet
      rw [silent (here.inStep.bit_idle idle), List.append_nil]
      exact gathered.step_idle on al idle quiet
    rcases under with ⟨running, word'⟩ | finishing | ⟨command, idle, -⟩
    · have read : v.getLsbD 5 = (r.st (t + n + 2)).read := by
        rw [RTLI2C.read, word', BitVec.getLsbD_setWidth]
        rfl
      by_cases ack : (r.st (t + n + 2)).byte.bit.cmdAck = true
      · have quiet : (r.st (t + n + 2)).hears (r.inp (t + n + 2)).sda = [] :=
          silent (here.inStep.acked ack).1
        rw [quiet, List.append_nil]
        exact gathered.step_advance here.inStep on hp here.timed (run.enabled.dcnt_lt _) read al
          running.2.2.1 running.2.1 ack
      · exact gathered.step_wait here.inStep on here.timed here.paced sampled read al running.2.1
          (eq_false_of_ne_true ack)
    · have acked : (r.st (t + n + 2)).byte.cmdAck = true := finishing.2.2.1
      exact rest finishing.2.1 (by simp [ByteCtrl.go, acked])
    · exact rest idle (go_of_command_zero command)

/-! ## The contract -/

/-- **The waveform of a command.** Every command that is written to a quiescent core, with a START
or on a bus that the core owns, is completed. A listener who arrives with the write then reads the
symbols of the command word and the byte in `TXR`, and nothing else until the next command is
written. `RxACK` is the level of the SDA line in the acknowledge slot, and after a command with `RD`
the register `RXR` holds the levels in the eight slots before it. -/
theorem command_waveform (hp : 3 ≤ p) (run : OwnedRun p t₀ hold r)
    (finite : Recurs fun t => hold t = false) (answers : Answering r pull) {t : ℕ} {v : BitVec 32}
    (late : t₀ ≤ t) (hw : (r.inp t).write .command = some v)
    (txr : ∀ u, Holds r t u → (r.inp u).write .txr = none) :
    ∃ e, t < e ∧ (∀ u, t < u → u < e → (r.st u).done = false) ∧ (r.st e).done = true ∧
      ∀ n, e ≤ t + n → (∀ u, t < u → u < t + n → (r.inp u).write .command = none) →
        (Reader.listen (wave r) t n).out = wordFrame v (r.st t).txr ∧
        ∃ data, heard r t n = data ++ [(r.st (t + n)).byte.ackOut] ∧
          (v.getLsbD 5 = true → data = lowBits 8 (r.st (t + n)).byte.sr) := by
  obtain ⟨a₀, paced⟩ := run.paced hp
  have sound : ∀ u, t₀ ≤ u → (r.st u).InStep ∧
      ∃ k, (bitAt r u).Timed p k (ageAt r t₀ a₀ k) (sclLine r u) := by
    intro u later
    obtain ⟨k, rfl⟩ := Nat.exists_eq_add_of_le later
    exact ⟨(paced k).inStep, k, (paced k).timed⟩
  obtain ⟨-, pending, -, -⟩ := run.pending hp late hw
  have silent : (r.inp (t + 1)).write .command = none :=
    (run.polite _ (by omega)).no_write pending.1
  have running : (r.st (t + 2)).InPhase .running := by
    obtain ⟨inStep, k, timed⟩ := sound (t + 1) (by omega)
    have next := pending_step inStep (run.enabled.on _ (by omega)) hp timed pending silent
    rw [← r.next] at next
    exact next.2.1
  -- without an arbitration loss the command can only be acknowledged
  obtain ⟨e, after, ended, all⟩ := run.enabled.finishes hp run.scl run.polite finite
    (show t₀ ≤ t + 2 by omega) running fun u later all => by
      refine txr u ⟨by omega, fun zero => ?_, fun w low high => ?_⟩
      · have transfers := (all u later le_rfl).1
        rw [transfers_of_zero zero] at transfers
        cases transfers
      · rcases Nat.lt_or_ge w (t + 2) with first | running
        · rwa [show w = t + 1 by omega]
        · exact (run.polite _ (by omega)).no_write (all w running (by omega)).1
  have finishing : (r.st e).InPhase .finishing := by
    refine ended.resolve_right fun lost => ?_
    rw [run.noAl] at lost
    cases lost.2
  refine ⟨e, by omega, fun u low high => ?_, finishing.2.2.1, fun n late' only => ?_⟩
  · rcases Nat.lt_or_ge u (t + 2) with first | running
    · rw [show u = t + 1 by omega]
      exact pending.2.2.1
    · exact (all u running high).1.2.2.1
  · -- and then stays over
    have stays : ∀ u, e ≤ u → u ≤ t + n → (r.st u).InPhase .finishing ∨
        ((r.st u).command = 0 ∧ (r.st u).byte.cState = .idle ∧ (r.st u).done = false) := by
      intro u low high
      induction u, low using Nat.le_induction with
      | base => exact Or.inl finishing
      | succ u low ih =>
        obtain ⟨inStep, k, timed⟩ := sound u (by omega)
        have on := run.enabled.on u (by omega)
        have noWrite := only u (by omega) (by omega)
        rw [r.next]
        rcases ih (by omega) with finishing | ⟨command, idle, -⟩
        · have clear := (finishing_step inStep on hp timed finishing noWrite).2.1
          exact Or.inr ⟨clear.1, clear.2.1, clear.2.2.1⟩
        · have rest := (quiet_step inStep on hp timed command idle noWrite).2
          exact Or.inr ⟨rest.1, rest.2.1, rest.2.2.1⟩
    have now := stays (t + n) late' le_rfl
    have idle : (r.st (t + n)).byte.cState = .idle := now.elim (·.2.1) (·.2.1)
    have nothing : (r.st (t + n)).remaining = [] := remaining_of_over idle
      (now.elim (fun finishing => Or.inr finishing.2.2.1) fun rest =>
        Or.inl (transfers_of_zero rest.1))
    obtain ⟨m, rfl⟩ : ∃ m, n = m + 2 := ⟨n - 2, by omega⟩
    constructor
    · have told := run.frame_told hp late hw txr (m + 1) only
      rw [show t + (m + 1) + 1 = t + (m + 2) from rfl, nothing, List.append_nil] at told
      exact told
    · obtain ⟨⟨⟨data, eq, known⟩, -⟩, -⟩ := run.gathered hp answers late hw m only
      have ack : (r.st (t + (m + 2))).ackBits = [(r.st (t + (m + 2))).byte.ackOut] := by
        rw [ackBits, idle]
      have still : (r.st (t + (m + 2))).srNext = (r.st (t + (m + 2))).byte.sr := by
        obtain ⟨ld, shift⟩ := (sound (t + (m + 2)) (by omega)).1.settled idle
        rw [srNext, ld, shift]
        rfl
      refine ⟨data, eq.trans (congrArg (data ++ ·) ack), fun rd => (known rd).trans ?_⟩
      show (r.st (t + (m + 2))).dataBits = _
      rw [dataBits, idle, still]

end

/-- The others in the sample run let go of SCL. -/
theorem sampleHold_finite : Recurs fun t => sampleHold t = false := fun t =>
  ⟨max t 75, le_max_left t 75, decide_eq_false (by omega)⟩

/-- They keep SDA while SCL is high. -/
theorem sampleRun_answering : Answering sampleRun samplePull where
  line := fun _ => rfl
  stays := by
    intro t high high'
    by_cases begins : t = 241
    · rw [begins] at high
      exact absurd high (by decide +kernel)
    by_cases ends : t = 267
    · rw [ends] at high
      exact absurd high (by decide +kernel)
    exact decide_eq_decide.mpr (by omega)

/-- The contract on the run that sends one byte at prescale 3, stretched and acknowledged. -/
theorem command_waveform_sample :
    3 ≤ 3 ∧ OwnedRun 3 3 sampleHold sampleRun ∧ (Recurs fun t => sampleHold t = false) ∧
      Answering sampleRun samplePull ∧ 3 ≤ 4 ∧ (sampleRun.inp 4).write .command = some 0xd0 ∧
      (∀ u, Holds sampleRun 4 u → (sampleRun.inp u).write .txr = none) ∧
      (Reader.listen (wave sampleRun) 4 296).out =
        [.start, .bit false, .bit false, .bit true, .bit true, .bit false, .bit true, .bit false,
          .bit true, .bit true, .stop] ∧
      ∃ data, heard sampleRun 4 296 = data ++ [false] := by
  have txr : ∀ u, Holds sampleRun 4 u → (sampleRun.inp u).write .txr = none :=
    fun u holds => sampleRun_write holds.1
  refine ⟨le_rfl, sampleRun_owned, sampleHold_finite, sampleRun_answering, by decide, rfl, txr, ?_⟩
  obtain ⟨e, after, first, -, told⟩ := command_waveform le_rfl sampleRun_owned sampleHold_finite
    sampleRun_answering (t := 4) (by decide) rfl txr
  obtain ⟨done, byte, acked⟩ : (sampleRun.st 289).done = true ∧ (sampleRun.st 4).txr = 0x35 ∧
      (sampleRun.st (4 + 296)).byte.ackOut = false := by decide +kernel
  have bound : e ≤ 289 := by
    by_contra later
    exact nomatch (first 289 (by decide) (by omega)).symm.trans done
  obtain ⟨out, data, heard, -⟩ := told 296 (by omega) fun u low _ => sampleRun_write low
  rw [acked] at heard
  refine ⟨out.trans ?_, data, heard⟩
  rw [byte]
  decide

end RTLI2C

end Rockling
