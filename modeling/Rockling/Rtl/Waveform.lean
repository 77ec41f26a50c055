import Rockling.Rtl.Ownership
import Rockling.Rtl.Progress

/-!
# The waveform of a command

What a listener on the SCL line and the controller's own SDA output reads from the clock of a
command write on. The bit controller shows a symbol in one clock of each bit command and nothing in
the others, and between the symbols it moves SDA only while the line is low (`Heard.step`). The
symbols it has not shown yet are those that the byte controller has left to do, so what was read and
what is `owed` always make up the frame of the command, and at its end the frame has been read
(`frame_read`).
-/

namespace Rockling

open TwoWire (Symbol Levels Reader)

namespace BitState

/-- The level of SDA in the states in which SCL may be high; `datum` is the bit to be written. -/
def sda (datum : Bool) : BitState → Option Bool
  | .startB | .startC | .rdB | .rdC | .rdD => some true
  | .startD | .startE | .stopB | .stopC | .stopD => some false
  | .wrB | .wrC | .wrD => some datum
  | .idle | .startA | .stopA | .rdA | .wrA => none

/-- What a listener reads when a state is executed. -/
def shows (datum : Bool) : BitState → List Symbol
  | .startC => [.start]
  | .stopD => [.stop]
  | .rdD => [.bit true]
  | .wrD => [.bit datum]
  | _ => []

/-- A bit is on the wires. -/
def slot : BitState → Bool
  | .rdC | .rdD | .wrC | .wrD => true
  | _ => false

/-- The START has been shown, though its bit command is not over. -/
def started : BitState → Bool
  | .startD | .startE => true
  | _ => false

end BitState

/-- What a listener reads from a bit command. -/
def Cmd.shows (datum : Bool) : Cmd → List Symbol
  | .nop => []
  | .start => [.start]
  | .stop => [.stop]
  | .read => [.bit true]
  | .write => [.bit datum]

namespace BitFsm

/-- What an enabled clock does to the wires: SDA moves while SCL is low, or stays, or makes a START
or a STOP. -/
inductive Moves (datum : Bool) (x x' : BitFsm) : Prop where
  | low (low : x.sclOen = false) (low' : x'.sclOen = false) (shows : x.cState.shows datum = [])
  | same (high' : x'.sclOen = true) (sda : x'.sdaOen = x.sdaOen)
      (shows : x.cState.shows datum = [])
      (slot : x'.cState.slot = true → x.sclOen = true → x.cState.slot = true)
      (started : x'.cState.started = true → x.cState.started = true ∧ x.sclOen = true)
  | fall (high : x.sclOen = true) (low' : x'.sclOen = false) (sda : x'.sdaOen = x.sdaOen)
      (shows : (x.cState.slot = true ∧ x.cState.shows datum = [.bit x.sdaOen]) ∨
        (x.cState.started = true ∧ x.cState.shows datum = []))
  | start (high : x.sclOen = true) (high' : x'.sclOen = true) (before : x.sdaOen = true)
      (after : x'.sdaOen = false) (shows : x.cState.shows datum = [.start])
      (slot : x'.cState.slot = false)
  | stop (high : x.sclOen = true) (high' : x'.sclOen = true) (before : x.sdaOen = false)
      (after : x'.sdaOen = true) (shows : x.cState.shows datum = [.stop])
      (slot : x'.cState.slot = false)

variable {x : BitFsm} {cmd : Cmd} {datum din : Bool}

/-- Every enabled clock moves the wires in a legal way. -/
theorem exec_moves (sda : ∀ v, x.cState.sda datum = some v → x.sdaOen = v)
    (idle : x.sclOen = true → x.cState = .idle ∨ x.cState = .startA → x.sdaOen = true)
    (write : x.cState.cmd = .write → din = datum)
    (free : x.sclOen = true → x.cState.before = true → x.cState.free = true)
    (up : x.cState.before = false → x.sclOen = true) : Moves datum x (x.exec cmd din) := by
  obtain ⟨c, ack, scl, sdaO, chk⟩ := x
  cases c
  case idle =>
    cases scl
    · exact .low rfl rfl rfl
    · refine .same rfl rfl rfl ?_ ?_ <;> cases cmd <;> exact fun h => nomatch h
  case startA =>
    cases scl
    · exact .low rfl rfl rfl
    · exact .same rfl (idle rfl (Or.inr rfl)).symm rfl (fun h => nomatch h) (fun h => nomatch h)
  case startB => exact .same rfl (sda _ rfl).symm rfl (fun h => nomatch h) (fun h => nomatch h)
  case startC => exact .start (up rfl) rfl (sda _ rfl) rfl rfl rfl
  case startD =>
    exact .same rfl (sda _ rfl).symm rfl (fun h => nomatch h) (fun _ => ⟨rfl, up rfl⟩)
  case startE => exact .fall (up rfl) rfl (sda _ rfl).symm (Or.inr ⟨rfl, rfl⟩)
  case stopB => exact .same rfl (sda _ rfl).symm rfl (fun h => nomatch h) (fun h => nomatch h)
  case stopC => exact .same rfl (sda _ rfl).symm rfl (fun h => nomatch h) (fun h => nomatch h)
  case stopD => exact .stop (up rfl) rfl (sda _ rfl) rfl rfl rfl
  case rdB =>
    cases scl
    · exact .same rfl (sda _ rfl).symm rfl (fun _ h => nomatch h) (fun h => nomatch h)
    · cases free rfl rfl
  case rdC => exact .same rfl (sda _ rfl).symm rfl (fun _ _ => rfl) (fun h => nomatch h)
  case rdD =>
    have level : sdaO = true := sda _ rfl
    exact .fall (up rfl) rfl level.symm (Or.inl ⟨rfl, by rw [level]; rfl⟩)
  case wrB =>
    cases scl
    · exact .same rfl ((write rfl).trans (sda _ rfl).symm) rfl (fun _ h => nomatch h)
        (fun h => nomatch h)
    · cases free rfl rfl
  case wrC =>
    exact .same rfl ((write rfl).trans (sda _ rfl).symm) rfl (fun _ _ => rfl) (fun h => nomatch h)
  case wrD =>
    have level : sdaO = datum := sda _ rfl
    exact .fall (up rfl) rfl ((write rfl).trans level.symm) (Or.inl ⟨rfl, by rw [level]; rfl⟩)
  all_goals
    cases scl
    · exact .low rfl rfl rfl
    · cases free rfl rfl

/-- The level of SDA is kept. -/
theorem exec_sda (write : x.cState.cmd = .write → din = datum) (v : Bool)
    (level : (x.exec cmd din).cState.sda datum = some v) : (x.exec cmd din).sdaOen = v := by
  obtain ⟨c, ack, scl, sdaO, chk⟩ := x
  cases c
  case idle => cases cmd <;> cases level
  case wrA => exact (write rfl).trans (Option.some.inj level)
  case wrB => exact (write rfl).trans (Option.some.inj level)
  case wrC => exact (write rfl).trans (Option.some.inj level)
  all_goals first | exact Option.some.inj level | cases level

/-- A released bus has SDA high. -/
theorem exec_released
    (idle : x.sclOen = true → x.cState = .idle ∨ x.cState = .startA → x.sdaOen = true)
    (high : (x.exec cmd din).sclOen = true)
    (state : (x.exec cmd din).cState = .idle ∨ (x.exec cmd din).cState = .startA) :
    (x.exec cmd din).sdaOen = true := by
  obtain ⟨c, ack, scl, sdaO, chk⟩ := x
  cases c
  case idle => exact idle high (Or.inl rfl)
  case stopD => rfl
  all_goals first | (cases high; done) | rcases state with state | state <;> cases state

/-- A symbol is shown once in a bit command. -/
theorem exec_shows (cmd : Cmd) (datum din : Bool) (busy : x.cState ≠ .idle) :
    ((x.exec cmd din).cmdAck || (x.exec cmd din).cState.started) =
        (x.cState.started || !(x.cState.shows datum).isEmpty) ∧
      (x.cState.started = true → x.cState.shows datum = []) ∧
      (x.cState.shows datum ≠ [] → x.cState.shows datum = x.cState.cmd.shows datum) := by
  obtain ⟨c, ack, scl, sdaO, chk⟩ := x
  cases c <;> first | exact absurd rfl busy | simp [exec, BitState.started, BitState.shows,
    BitState.cmd, Cmd.shows]

end BitFsm

/-! ## The wires of one bit command -/

namespace BitCtrl

/-- The SDA output of the controller, when `datum` is the bit to be written and `din` the bit that
the byte controller offers. The bit offered in the clock in which `wrA` is entered may still be the
bit before. -/
structure Drives (datum din : Bool) (b : BitCtrl) : Prop where
  sda : ∀ v, b.cState.sda datum = some v → b.sdaOen = v
  idle : b.sclOen = true → b.cState = .idle ∨ b.cState = .startA → b.sdaOen = true
  write : b.cState.cmd = .write → din = datum ∨ (b.cState = .wrA ∧ b.clkEn = false)

/-- The listener on a line whose level is `line`. -/
structure Heard (line : Bool) (b : BitCtrl) (x : Reader) : Prop where
  last : x.last = ⟨line, b.sdaOen⟩
  slot : b.cState.slot = true → line = true → x.pending = some b.sdaOen
  started : b.cState.started = true → x.pending = none

variable {p k a : ℕ} {line line' datum : Bool} {b : BitCtrl} {i : BitIn} {x : Reader}

/-- An enabled clock moves the wires in a legal way. -/
theorem Drives.moves (drives : b.Drives datum i.din) (timed : b.Timed p k a line)
    (paced : b.Paced p a line) (en : b.clkEn = true)
    (fsm : (b.step i).toBitFsm = b.toBitFsm.exec i.cmd i.din) :
    BitFsm.Moves datum b.toBitFsm (b.step i).toBitFsm := by
  have write : b.cState.cmd = .write → i.din = datum := fun cmd =>
    (drives.write cmd).resolve_right fun wait => by rw [en] at wait; cases wait.2
  rw [fsm]
  exact BitFsm.exec_moves drives.sda drives.idle write paced.free timed.up

/-- Nothing is read in a clock that is not enabled. -/
theorem Heard.step_wait (h : b.Heard line x) (timed : b.Timed p k a line) (paced : b.Paced p a line)
    (fsm : (b.step i).toBitFsm = { b.toBitFsm with cmdAck := false })
    (keeps : line = true → (b.step i).sclOen = true → line' = true) :
    (b.step i).Heard line' (x.step ⟨line', (b.step i).sdaOen⟩) ∧
      (x.step ⟨line', (b.step i).sdaOen⟩).out = x.out := by
  have sda : (b.step i).sdaOen = b.sdaOen := by rw [fsm]
  have state : (b.step i).cState = b.cState := by rw [fsm]
  have same : x.last.sda = b.sdaOen := by rw [h.last]
  have scl : x.last.scl = line := by rw [h.last]
  rw [sda]
  by_cases up : line = true
  · have up' : line' = true := keeps up (by rw [fsm]; exact timed.line_oen up)
    subst up up'
    rw [Reader.step_high scl rfl same]
    exact ⟨⟨by rw [sda], by rw [state, sda]; exact h.slot, by rw [state]; exact h.started⟩, rfl⟩
  · have low : line = false := eq_false_of_ne_true up
    subst low
    have notStarted : b.cState.started = false := by
      by_contra started
      rw [Bool.not_eq_false] at started
      have high : b.sclOen = true := timed.up (by revert started; cases b.cState <;> decide)
      have rising : b.cState.rising = false := by revert started; cases b.cState <;> decide
      cases (paced.still high rising).1
    cases up' : line'
    · rw [Reader.step_low scl rfl]
      exact ⟨⟨by rw [sda], (fun _ up => nomatch up), fun _ => rfl⟩, rfl⟩
    · rw [Reader.step_rise scl rfl same]
      refine ⟨⟨by rw [sda], fun _ _ => by rw [sda], fun started => ?_⟩, rfl⟩
      rw [state, notStarted] at started
      cases started

/-- An enabled clock shows what its state shows. -/
theorem Heard.step_exec (h : b.Heard line x) (drives : b.Drives datum i.din)
    (timed : b.Timed p k a line) (paced : b.Paced p a line) (en : b.clkEn = true)
    (fsm : (b.step i).toBitFsm = b.toBitFsm.exec i.cmd i.din)
    (keeps : line = true → (b.step i).sclOen = true → line' = true)
    (oen : line' = true → (b.step i).sclOen = true) :
    (b.step i).Heard line' (x.step ⟨line', (b.step i).sdaOen⟩) ∧
      (x.step ⟨line', (b.step i).sdaOen⟩).out = x.out ++ b.cState.shows datum := by
  have moves := drives.moves timed paced en fsm
  have last : x.last.sda = b.sdaOen := by rw [h.last]
  have scl : x.last.scl = line := by rw [h.last]
  have down : (b.step i).sclOen = false → line' = false := fun low =>
    eq_false_of_ne_true fun up => by rw [oen up] at low; cases low
  rcases moves with ⟨low, low', shows⟩ | ⟨high', sda, shows, slot, started⟩ |
    ⟨high, low', sda, shows⟩ | ⟨high, high', before, after, shows, slot⟩ |
    ⟨high, high', before, after, shows, slot⟩
  · have line₀ : line = false := eq_false_of_ne_true fun up => by
      rw [timed.line_oen up] at low
      cases low
    have line₁ := down low'
    subst line₀ line₁
    rw [Reader.step_low scl rfl, shows, List.append_nil]
    exact ⟨⟨rfl, (fun _ up => nomatch up), fun _ => rfl⟩, rfl⟩
  · rw [shows, List.append_nil]
    by_cases high : b.sclOen = true
    · have line₀ := (paced.line_of_en high en).1
      have line₁ := keeps line₀ high'
      subst line₀ line₁
      rw [Reader.step_high scl rfl (last.trans sda.symm)]
      exact ⟨⟨rfl, fun inSlot _ => by rw [sda]; exact h.slot (slot inSlot high) rfl,
        fun begun => h.started (started begun).1⟩, rfl⟩
    · have line₀ : line = false := eq_false_of_ne_true fun up => high (timed.line_oen up)
      subst line₀
      have notStarted : (b.step i).cState.started = false := by
        by_contra begun
        rw [Bool.not_eq_false] at begun
        exact high (started begun).2
      cases up' : line'
      · rw [Reader.step_low scl rfl]
        exact ⟨⟨rfl, (fun _ up => nomatch up), fun _ => rfl⟩, rfl⟩
      · rw [Reader.step_rise scl rfl (last.trans sda.symm)]
        refine ⟨⟨rfl, fun _ _ => rfl, fun begun => ?_⟩, rfl⟩
        rw [notStarted] at begun
        cases begun
  · have line₀ := (paced.line_of_en high en).1
    have line₁ := down low'
    subst line₀ line₁
    rw [Reader.step_fall scl rfl (last.trans sda.symm)]
    refine ⟨⟨rfl, (fun _ up => nomatch up), fun _ => rfl⟩, ?_⟩
    rcases shows with ⟨slot, shows⟩ | ⟨begun, shows⟩
    · rw [shows, h.slot slot rfl]
      rfl
    · rw [shows, h.started begun]
      rfl
  · have line₀ := (paced.line_of_en high en).1
    have line₁ := keeps line₀ high'
    subst line₀ line₁
    rw [Reader.step_start scl rfl (last.trans before) after, shows]
    exact ⟨⟨rfl, fun inSlot => (by rw [slot] at inSlot; cases inSlot), fun _ => rfl⟩, rfl⟩
  · have line₀ := (paced.line_of_en high en).1
    have line₁ := keeps line₀ high'
    subst line₀ line₁
    rw [Reader.step_stop scl rfl (last.trans before) after, shows]
    exact ⟨⟨rfl, fun inSlot => (by rw [slot] at inSlot; cases inSlot), fun _ => rfl⟩, rfl⟩

/-- **One clock shows what its state shows if it is enabled, and nothing otherwise.** -/
theorem Heard.step (h : b.Heard line x) (drives : b.Drives datum i.din)
    (timed : b.Timed p k a line) (paced : b.Paced p a line) (hi : i.Running p) (al : b.al = false)
    (keeps : line = true → (b.step i).sclOen = true → line' = true)
    (oen : line' = true → (b.step i).sclOen = true) :
    (b.step i).Heard line' (x.step ⟨line', (b.step i).sdaOen⟩) ∧
      (x.step ⟨line', (b.step i).sdaOen⟩).out =
        x.out ++ if b.clkEn then b.cState.shows datum else [] := by
  rcases b.fsm_cases hi with ⟨lost, -⟩ | ⟨-, en, fsm⟩ | ⟨-, en, fsm⟩
  · rw [al] at lost
    cases lost
  · rw [en, if_pos rfl]
    exact h.step_exec drives timed paced en fsm keeps oen
  · rw [en, if_neg Bool.false_ne_true, List.append_nil]
    exact h.step_wait timed paced fsm keeps

end BitCtrl

/-! ## The bit to be written -/

namespace RTLI2C

variable {p k a : ℕ} {line line' : Bool} {s : RTLI2C} {i : In} {x : Reader}

/-- The bit to be written: the flag in an acknowledge slot, else the top of the shift register. -/
def datum (s : RTLI2C) : Bool := if s.byte.cState = .ack then s.ack else s.byte.sr.msb

/-- The bit controller drives SDA as the byte controller means it to. -/
abbrev Drives (s : RTLI2C) : Prop := s.byte.bit.Drives s.datum s.byte.coreTxd

/-- Without an arbitration loss a released bus keeps SDA high. -/
theorem step_released (h : s.Drives) (on : s.On p) (al : s.al = false)
    (high : (s.step i).byte.bit.sclOen = true)
    (state : (s.step i).byte.bit.cState = .idle ∨ (s.step i).byte.bit.cState = .startA) :
    (s.step i).byte.bit.sdaOen = true := by
  rw [step_bit] at high state ⊢
  rcases s.byte.bit.fsm_cases (on.running i) with ⟨lost, -⟩ | ⟨-, -, fsm⟩ | ⟨-, -, fsm⟩
  · rw [show s.byte.bit.al = false from al] at lost
    cases lost
  · rw [fsm] at high state ⊢
    exact BitFsm.exec_released h.idle high state
  · rw [fsm] at high state ⊢
    exact h.idle high state

/-- An idle bit controller. -/
theorem Drives.step_still (h : s.Drives) (on : s.On p) (al : s.al = false)
    (idle : (s.step i).byte.bit.cState = .idle) : (s.step i).Drives where
  sda := fun v level => by rw [idle] at level; cases level
  idle := step_released h on al
  write := fun cmd => by rw [idle] at cmd; cases cmd

/-- While the bit controller is busy, the bit offered becomes the bit to be written, which stays. -/
theorem datum_wait (h : s.InStep) (on : s.On p) (al : s.al = false) (busy : s.byte.cState ≠ .idle)
    (wait : s.byte.bit.cmdAck = false) (command : (s.step i).command = s.command)
    (going : s.byte.bit.cState ≠ .idle) :
    (s.step i).datum = s.datum ∧ (s.step i).byte.coreTxd = s.datum := by
  have fsm := step_wait (i := i) on.rst al busy wait
  have ld : s.byte.ld = false := eq_false_of_ne_true fun ld => going (h.loading (Or.inl ld)).1
  have shift : s.byte.shift = false :=
    eq_false_of_ne_true fun shift => going (h.loading (Or.inr shift)).1
  have sr : (s.step i).byte.sr = s.byte.sr := by simp [step_sr on.rst, srNext, ld, shift]
  have flag : (s.step i).ack = s.ack := congrArg (BitVec.getLsbD · 3) command
  constructor
  · rw [datum, flag, sr, fsm]
    rfl
  · rw [fsm]
    rfl

/-- A bit command that goes on. -/
theorem Drives.step_wait (h : s.Drives) (inStep : s.InStep) (on : s.On p) (hp : 3 ≤ p)
    (timed : s.byte.bit.Timed p k a line) (owned : s.Owned) (al : s.al = false)
    (busy : s.byte.cState ≠ .idle) (wait : s.byte.bit.cmdAck = false)
    (command : (s.step i).command = s.command) : (s.step i).Drives := by
  have keep := datum_wait (i := i) inStep on al busy wait command
  have released := step_released (i := i) h on al
  have running := on.running i
  rcases s.byte.bit.fsm_cases running with ⟨lost, -⟩ | ⟨-, en, fsm⟩ | ⟨-, en, fsm⟩
  · rw [show s.byte.bit.al = false from al] at lost
    cases lost
  · have write : s.byte.bit.cState.cmd = .write → s.byte.coreTxd = (s.step i).datum := by
      intro cmd
      have going : s.byte.bit.cState ≠ .idle := fun idle => by rw [idle] at cmd; cases cmd
      refine ((h.write cmd).resolve_right fun early => ?_).trans (keep going).1.symm
      rw [en] at early
      cases early.2
    refine ⟨fun v level => ?_, released, fun cmd => ?_⟩
    · rw [step_bit, fsm] at level ⊢
      exact BitFsm.exec_sda write v level
    · by_cases going : s.byte.bit.cState = .idle
      · -- a write begins: SCL is low, so the next clock is not enabled
        right
        have first : (s.step i).byte.bit.cState = s.byte.coreCmd.first := by
          rw [step_bit, fsm]
          simp [BitFsm.exec, going, ByteCtrl.bitIn]
        have asked : s.byte.coreCmd = .write := by
          rw [first] at cmd
          revert cmd
          cases s.byte.coreCmd <;> simp [Cmd.first, BitState.cmd]
        have low := owned.bus (by simp [asked]) (by simp [asked]) wait (by rw [going]; rfl)
        refine ⟨by rw [first, asked]; rfl, ?_⟩
        have divider := (timed.divider_exec hp running en).1
        rw [step_bit, divider]
        exact BitCtrl.sclSync_of_low low
      · left
        rw [(keep going).2, (keep going).1]
  · have state : (s.step i).byte.bit.cState = s.byte.bit.cState := by rw [step_bit, fsm]
    refine ⟨fun v level => ?_, released, fun cmd => ?_⟩
    · have going : s.byte.bit.cState ≠ .idle := by
        intro idle
        rw [state, idle] at level
        cases level
      have sda : (s.step i).byte.bit.sdaOen = s.byte.bit.sdaOen := by rw [step_bit, fsm]
      rw [sda]
      rw [state, (keep going).1] at level
      exact h.sda v level
    · have going : s.byte.bit.cState ≠ .idle := fun idle => by rw [state, idle] at cmd; cases cmd
      left
      rw [(keep going).2, (keep going).1]

/-- One clock without an arbitration loss. -/
theorem Drives.step (h : s.Drives) (paced : Paced p k a line s) (on : s.On p) (hp : 3 ≤ p)
    (al : s.al = false) (polite : s.Polite i) : (s.step i).Drives := by
  have inStep := paced.inStep
  by_cases still : s.byte.cState = .idle ∨ s.byte.bit.cmdAck = true
  · exact h.step_still on al (inStep.bit_stays_idle on still)
  · obtain ⟨busy, wait⟩ := not_or.mp still
    obtain ⟨f, ph⟩ := paced.phase
    cases f with
    | running =>
      refine h.step_wait inStep on hp paced.timed paced.owned al busy (eq_false_of_ne_true wait) ?_
      rw [step_command (polite.no_write ph.1), ph.2.2.1, al]
      rfl
    | _ => exact absurd ph.2.1 busy

/-! ## What has not been shown yet -/

/-- The symbols of a running command that have not been shown. -/
def owed (s : RTLI2C) : List Symbol :=
  if s.byte.bit.cmdAck || s.byte.bit.cState.started then s.todo.tail else s.todo

/-- What this clock shows. -/
def shows (s : RTLI2C) : List Symbol :=
  if s.byte.bit.clkEn then s.byte.bit.cState.shows s.datum else []

/-- The head of the list is what the bit controller is doing. -/
theorem todo_head (h : s.InStep) (going : s.byte.bit.cState ≠ .idle) :
    s.todo = s.byte.bit.cState.cmd.shows s.datum ++ s.todo.tail := by
  have ld : s.byte.ld = false := eq_false_of_ne_true fun ld => going (h.loading (Or.inl ld)).1
  have shift : s.byte.shift = false :=
    eq_false_of_ne_true fun shift => going (h.loading (Or.inr shift)).1
  have read := h.read
  have write := h.write
  have stop := h.stop
  rw [h.group going, h.coreCmd, todo, datum, srNext, ld, shift]
  cases state : s.byte.cState
  case idle => exact absurd (h.bit_idle state) going
  case start => rfl
  case read => simp [bits, ByteState.cmd, Cmd.shows, read state, List.range_succ_eq_map]
  case write =>
    simp [bits, ByteState.cmd, Cmd.shows, write state, List.range_succ_eq_map, BitVec.msb]
  case ack => cases rd : s.read <;> simp [ackSlot, ByteState.cmd, Cmd.shows, rd]
  case stop => simp [stopSlot, stop state, ByteState.cmd, Cmd.shows]

/-- A clock in which the command runs shows the head of what is owed, or nothing. -/
theorem owed_step (h : s.InStep) (on : s.On p) (hp : 3 ≤ p) (timed : s.byte.bit.Timed p k a line)
    (dcnt : s.byte.dcnt < 8) (al : s.al = false) (done : s.done = false)
    (busy : s.byte.cState ≠ .idle) (command : (s.step i).command = s.command)
    (txr : (s.step i).txr = s.txr) : s.owed = s.shows ++ (s.step i).owed := by
  by_cases ack : s.byte.bit.cmdAck = true
  · obtain ⟨idle, en, -⟩ := h.acked ack
    have idle' := h.bit_stays_idle (i := i) on (Or.inr ack)
    have noAck := h.noAck_next (i := i) on hp timed (Or.inr ack)
    rw [owed, owed, shows, todo_advance h on dcnt al done busy ack command txr, ack,
      en, noAck, idle']
    rfl
  · have wait : s.byte.bit.cmdAck = false := eq_false_of_ne_true ack
    rw [owed, owed, shows, todo_wait on al busy wait command txr, wait, Bool.false_or]
    rcases s.byte.bit.fsm_cases (on.running i) with ⟨lost, -⟩ | ⟨-, en, fsm⟩ | ⟨-, en, fsm⟩
    · rw [show s.byte.bit.al = false from al] at lost
      cases lost
    · rw [en, if_pos rfl, step_bit, fsm]
      by_cases going : s.byte.bit.cState = .idle
      · rw [going]
        cases cmd : s.byte.coreCmd <;>
          simp [BitFsm.exec, going, ByteCtrl.bitIn, cmd, Cmd.first, BitState.started,
            BitState.shows]
      · have head := todo_head h going
        obtain ⟨once, begun, only⟩ := BitFsm.exec_shows
          (s.byte.bitIn (s.byteIn i)).cmd s.datum (s.byte.bitIn (s.byteIn i)).din going
        rw [once]
        by_cases started : s.byte.bit.cState.started = true
        · rw [started, begun started]
          rfl
        · rw [eq_false_of_ne_true started, Bool.false_or]
          by_cases shown : s.byte.bit.cState.shows s.datum = []
          · rw [shown]
            rfl
          · have full : (!(s.byte.bit.cState.shows s.datum).isEmpty) = true := by
              simpa using shown
            rw [full, if_neg Bool.false_ne_true, if_pos rfl, only shown]
            exact head
    · have state : (s.step i).byte.bit.cState = s.byte.bit.cState := by rw [step_bit, fsm]
      have noAck : (s.step i).byte.bit.cmdAck = false := by rw [step_bit, fsm]
      rw [en, noAck, state, Bool.false_or]
      rfl

/-- What a listener has still to read: all of a pending command, what is owed of a running one. -/
def remaining (s : RTLI2C) : List Symbol :=
  if s.byte.cState = .idle ∧ s.transfers = true ∧ s.done = false then s.frame else s.owed

theorem remaining_of_busy (busy : s.byte.cState ≠ .idle) : s.remaining = s.owed := by
  rw [remaining, if_neg fun h => busy h.1]

theorem remaining_of_over (idle : s.byte.cState = .idle)
    (ended : s.transfers = false ∨ s.done = true) : s.remaining = [] := by
  have not : ¬ (s.byte.cState = .idle ∧ s.transfers = true ∧ s.done = false) := by
    rintro ⟨-, transfers, done⟩
    rcases ended with off | fin
    · rw [transfers] at off
      cases off
    · rw [fin] at done
      cases done
  rw [remaining, if_neg not, owed, todo, idle]
  simp

/-- An idle bit controller shows nothing. -/
theorem shows_of_idle (idle : s.byte.bit.cState = .idle) : s.shows = [] := by
  rw [shows, idle]
  exact ite_self _

/-- **Every clock shows what it takes from the rest of the command.** -/
theorem remaining_step (h : Sound p k a line s) (on : s.On p) (hp : 3 ≤ p) (dcnt : s.byte.dcnt < 8)
    (al : s.al = false) (hw : i.write .command = none)
    (txr : s.command ≠ 0 → i.write .txr = none) :
    s.remaining = s.shows ++ (s.step i).remaining := by
  obtain ⟨timed, inStep, ⟨f, ph⟩, -, -⟩ := h
  have kept : s.transfers = true → (s.step i).txr = s.txr := fun transfers => by
    have nonzero : s.command ≠ 0 := fun zero => by
      rw [transfers_of_zero zero] at transfers
      cases transfers
    simp [RTLI2C.step, txr nonzero]
  have quiescent : s.command = 0 → s.byte.cState = .idle →
      s.remaining = s.shows ++ (s.step i).remaining := by
    intro command idle
    have next := (quiet_step inStep on hp timed command idle hw).2
    rw [remaining_of_over idle (Or.inl (transfers_of_zero command)),
      remaining_of_over next.2.1 (Or.inl (transfers_of_zero next.1)),
      shows_of_idle (inStep.bit_idle idle)]
    rfl
  cases f with
  | resting => exact quiescent ph.1 ph.2.1
  | clearing => exact quiescent ph.1 ph.2.1
  | pending =>
    obtain ⟨inStep', running, command, -⟩ := pending_step inStep on hp timed ph hw
    have idle' := inStep.bit_stays_idle (i := i) on (Or.inl ph.2.1)
    have noAck := inStep.noAck_next (i := i) on hp timed (Or.inl ph.2.1)
    have todo := todo_begin on ph command (kept ph.1)
    rw [remaining, if_pos ⟨ph.2.1, ph.1, ph.2.2.1⟩, remaining_of_busy running.2.1, owed, noAck,
      idle', shows_of_idle (inStep.bit_idle ph.2.1), todo]
    rfl
  | running =>
    have running := ph
    obtain ⟨transfers, busy, done, -⟩ := ph
    have command : (s.step i).command = s.command := by
      rw [step_command hw, done, al]
      rfl
    have owes := owed_step inStep on hp timed dcnt al done busy command (kept transfers)
    have here := remaining_of_busy busy
    by_cases going : (s.step i).byte.cState = .idle
    · -- the last acknowledge: there is nothing left to do
      have empty : (s.step i).owed = [] := by simp [owed, todo, going]
      have fin : (s.step i).done = true := by
        by_cases ack : s.byte.bit.cmdAck = true
        · have next := (running_step_advance inStep on hp timed running al ack hw).2.2
          split at next
          · exact next.2.2.1
          · exact absurd going next.2.1
        · have next := running_step_wait inStep on hp timed running al (eq_false_of_ne_true ack) hw
          exact absurd going next.2.1.2.1
      rw [here, owes, empty, remaining_of_over going (Or.inr fin)]
    · rw [here, owes, remaining_of_busy going]
  | finishing =>
    have next := (finishing_step inStep on hp timed ph hw).2.1
    rw [remaining_of_over ph.2.1 (Or.inr ph.2.2.1),
      remaining_of_over next.2.1 (Or.inl (transfers_of_zero next.1)),
      shows_of_idle (inStep.bit_idle ph.2.1)]
    rfl

/-! ## Runs -/

/-- The levels that a listener sees: the SCL line and the controller's own SDA output. -/
def wave (r : Run) (t : ℕ) : Levels := ⟨sclLine r t, (r.st t).sdaOen⟩

/-- The symbols that a command word and a byte stand for: a START if `STA` is set, the byte and a
released acknowledge slot for `WR`, a released byte and the `ACK` flag for `RD`, and a STOP if `STO`
is set. -/
def wordFrame (v : BitVec 32) (txr : BitVec 8) : List Symbol :=
  (if v.getLsbD 7 then [.start] else []) ++
  (if v.getLsbD 5 then List.replicate 8 (.bit true) ++ [.bit (v.getLsbD 3)]
   else (List.range 8).map (fun j => .bit (txr.getMsbD j)) ++ [.bit true]) ++
  (if v.getLsbD 6 then [.stop] else [])

theorem frame_of_word {s : RTLI2C} {v : BitVec 32} (h : s.command = v.setWidth 8) :
    s.frame = wordFrame v s.txr := by
  have field : ∀ n, n < 8 → s.command.getLsbD n = v.getLsbD n := fun n lt => by
    rw [h, BitVec.getLsbD_setWidth, decide_eq_true lt, Bool.true_and]
  have start' : s.start = v.getLsbD 7 := field 7 (by decide)
  have stop' : s.stop = v.getLsbD 6 := field 6 (by decide)
  have read' : s.read = v.getLsbD 5 := field 5 (by decide)
  have ack' : s.ack = v.getLsbD 3 := field 3 (by decide)
  rw [frame, wordFrame, ackSlot, stopSlot, start', stop', read', ack']
  cases v.getLsbD 5 <;> simp [bits, List.range_succ]

section

variable {p t₀ : ℕ} {hold : ℕ → Bool} {r : Run}

/-- In every clock of an owned run SDA is driven as it is meant to be. -/
theorem OwnedRun.drives (run : OwnedRun p t₀ hold r) (hp : 3 ≤ p) {t : ℕ} (late : t₀ ≤ t) :
    (r.st t).Drives := by
  obtain ⟨a₀, paced⟩ := run.paced hp
  induction t, late using Nat.le_induction with
  | base =>
    obtain ⟨-, a, waiting⟩ := run.enabled.waiting run.scl t₀ le_rfl
    have idle : (bitAt r t₀).cState = .idle := by rw [bitAt, waiting.dormant.released]; rfl
    exact {
      sda := fun v level => by rw [idle] at level; cases level
      idle := fun _ _ => waiting.dormant.sdaOen
      write := fun cmd => by rw [idle] at cmd; cases cmd }
  | succ t late ih =>
    obtain ⟨k, rfl⟩ := Nat.exists_eq_add_of_le late
    rw [r.next]
    exact ih.step (paced k) (run.enabled.on _ late) hp (run.noAl _) (run.polite _ late)

/-- In clock `u` the command written in clock `t` is in the command register. -/
def Holds (r : Run) (t u : ℕ) : Prop :=
  t < u ∧ (r.st u).command ≠ 0 ∧ ∀ w, t < w → w < u → (r.inp w).write .command = none

/-- A listener who arrives while the bit controller is idle keeps up with it. -/
theorem OwnedRun.keeps_up (run : OwnedRun p t₀ hold r) (hp : 3 ≤ p) {t : ℕ} (late : t₀ ≤ t)
    (idle : (bitAt r t).cState = .idle) (n : ℕ) :
    (bitAt r (t + n)).Heard (sclLine r (t + n)) (Reader.listen (wave r) t n) ∧
      (Reader.listen (wave r) t n).reads (wave r (t + n + 1)) = (r.st (t + n)).shows := by
  obtain ⟨a₀, paced⟩ := run.paced hp
  -- one clock of the listener
  have listens : ∀ u x, t₀ ≤ u → (bitAt r u).Heard (sclLine r u) x →
      (bitAt r (u + 1)).Heard (sclLine r (u + 1)) (x.step (wave r (u + 1))) ∧
        x.reads (wave r (u + 1)) = (r.st u).shows := by
    intro u x later heard
    obtain ⟨k, rfl⟩ := Nat.exists_eq_add_of_le later
    have keeps := run.scl.keeps (t := t₀ + k)
    have oen := run.scl.oen (t := t₀ + k + 1)
    rw [r.next] at keeps oen
    have next := heard.step (run.drives hp later) (paced k).timed (paced k).paced
      ((run.enabled.on _ later).running (r.inp (t₀ + k))) (run.noAl _) keeps oen
    rw [← step_bit, ← r.next] at next
    exact ⟨next.1, List.append_cancel_left next.2⟩
  have heard : ∀ n, (bitAt r (t + n)).Heard (sclLine r (t + n)) (Reader.listen (wave r) t n) := by
    intro n
    induction n with
    | zero =>
      exact ⟨rfl, fun slot => (by rw [Nat.add_zero, idle] at slot; cases slot),
        fun started => (by rw [Nat.add_zero, idle] at started; cases started)⟩
    | succ n ih => exact (listens (t + n) _ (by omega) ih).1
  exact ⟨heard n, (listens (t + n) _ (by omega) (heard n)).2⟩

/-- A command write leaves its command pending. -/
theorem OwnedRun.pending (run : OwnedRun p t₀ hold r) (hp : 3 ≤ p) {t : ℕ} {v : BitVec 32}
    (late : t₀ ≤ t) (hw : (r.inp t).write .command = some v) :
    (bitAt r t).cState = .idle ∧ (r.st (t + 1)).InPhase .pending ∧
      (r.st (t + 1)).command = v.setWidth 8 ∧ (r.st (t + 1)).txr = (r.st t).txr := by
  obtain ⟨a₀, paced⟩ := run.paced hp
  obtain ⟨k, rfl⟩ := Nat.exists_eq_add_of_le late
  obtain ⟨command, idle, -, asks⟩ := run.polite _ late v hw
  have inStep := (paced k).inStep
  have done : (r.st (t₀ + k)).done = false := by
    obtain ⟨f, ph⟩ := (paced k).phase
    cases f with
    | finishing =>
      have transfers := ph.1
      rw [transfers_of_zero command] at transfers
      cases transfers
    | _ => exact ph.2.2.1
  have next := write_step inStep (run.enabled.on _ late) hp (paced k).timed command idle done
    (run.noAl _) hw asks
  rw [r.next]
  refine ⟨inStep.bit_idle idle, next.2.1, next.2.2, ?_⟩
  simp [RTLI2C.step, In.write_other hw (show Csr.command ≠ .txr by decide)]

/-- **What was read and what remains make up the frame**, from the clock of the write until the next
command is written. -/
theorem OwnedRun.frame_told (run : OwnedRun p t₀ hold r) (hp : 3 ≤ p) {t : ℕ} {v : BitVec 32}
    (late : t₀ ≤ t) (hw : (r.inp t).write .command = some v)
    (txr : ∀ u, Holds r t u → (r.inp u).write .txr = none) (n : ℕ)
    (only : ∀ u, t < u → u < t + n + 1 → (r.inp u).write .command = none) :
    (Reader.listen (wave r) t (n + 1)).out ++ (r.st (t + n + 1)).remaining =
      wordFrame v (r.st t).txr := by
  obtain ⟨bit, ⟨transfers, idle, done, -⟩, word, same⟩ := run.pending hp late hw
  have reads := fun n => (run.keeps_up hp late bit n).2
  induction n with
  | zero =>
    have nothing : (Reader.listen (wave r) t 0).reads (wave r (t + 1)) = (r.st t).shows := reads 0
    rw [shows_of_idle bit] at nothing
    have out : (Reader.listen (wave r) t 1).out = [] := nothing
    rw [out, Nat.add_zero, remaining, if_pos ⟨idle, transfers, done⟩, frame_of_word word, same]
    rfl
  | succ n ih =>
    have told := ih fun u after before => only u after (by omega)
    obtain ⟨a₀, paced⟩ := run.paced hp
    obtain ⟨k, eq⟩ := Nat.exists_eq_add_of_le (show t₀ ≤ t + n + 1 by omega)
    have sound := (paced k).toSound
    rw [← eq] at sound
    have rest := remaining_step sound (run.enabled.on _ (by omega)) hp (run.enabled.dcnt_lt _)
      (run.noAl _) (only (t + n + 1) (by omega) (by omega)) fun nonzero =>
        txr (t + n + 1) ⟨by omega, nonzero, fun w after before => only w after (by omega)⟩
    rw [← r.next] at rest
    have out : (Reader.listen (wave r) t (n + 2)).out =
        (Reader.listen (wave r) t (n + 1)).out ++ (r.st (t + n + 1)).shows :=
      congrArg ((Reader.listen (wave r) t (n + 1)).out ++ ·) (reads (n + 1))
    rw [← told, rest, ← List.append_assoc, ← out]
    rfl

end

end RTLI2C

end Rockling
