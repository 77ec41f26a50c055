import Rockling.Lib.TwoWire
import Rockling.Rtl.Phases

/-!
# What is left of a command

A command is a list of symbols to put on the wires: a START if it has `STA`, the eight bits of the
byte, the acknowledge slot, and a STOP if it has `STO`. `todo` reads off the state of the byte
controller which of them are not done, the one in progress included. Waiting for the bit controller
leaves the list alone and each acknowledge takes its head off (`todo_wait`, `todo_advance`), so what
the byte controller still does is known from one list and no separate counting is needed.

Every enabled clock then brings the end of a running command nearer: `rank` counts the enabled
clocks that are left.
-/

namespace Rockling

open TwoWire (Symbol)

/-- The low `n` bits of a byte, the most significant first. -/
def lowBits (n : ℕ) (v : BitVec 8) : List Bool := (List.range n).map fun j => v.getLsbD (n - 1 - j)

theorem lowBits_shiftConcat {n : ℕ} (lt : n < 8) (v : BitVec 8) (b : Bool) :
    lowBits (n + 1) (v.shiftConcat b) = lowBits n v ++ [b] := by
  rw [lowBits, List.range_succ, List.map_append]
  congr 1
  · refine List.map_congr_left fun j hj => ?_
    have below := List.mem_range.mp hj
    have above : ¬ n + 1 - 1 - j = 0 := by omega
    have inside : n + 1 - 1 - j < 8 := by omega
    rw [BitVec.getLsbD_shiftConcat, decide_eq_true inside, if_neg above, Bool.true_and]
    congr 1
    omega
  · simp [BitVec.getLsbD_shiftConcat]

/-- The bits in the shift register once one more is shifted in, by the count of those to come. -/
theorem lowBits_more {dcnt : ℕ} (lt : dcnt < 8) (sr : BitVec 8) (b : Bool) :
    (if dcnt = 0 then lowBits 8 (sr.shiftConcat b)
      else lowBits (7 - (dcnt + 7) % 8) (sr.shiftConcat b)) = lowBits (7 - dcnt) sr ++ [b] := by
  rw [← lowBits_shiftConcat (by omega)]
  split
  next zero => rw [zero]
  next some => rw [show 7 - (dcnt + 7) % 8 = 7 - dcnt + 1 by omega]

namespace RTLI2C

variable {p k a : ℕ} {line : Bool} {s : RTLI2C} {i : In}

/-! ## The list -/

/-- The first `n` bits of a byte, the most significant first. A command with `RD` leaves them to the
peripheral. -/
def bits (rd : Bool) (n : ℕ) (v : BitVec 8) : List Symbol :=
  (List.range n).map fun j => .bit (rd || v.getMsbD j)

/-- The STOP, if the command has one. -/
def stopSlot (s : RTLI2C) : List Symbol := if s.stop then [.stop] else []

/-- The acknowledge slot, left to the peripheral by a command without `RD`, and what follows it. -/
def ackSlot (s : RTLI2C) : List Symbol := .bit (!s.read || s.ack) :: s.stopSlot

/-- All symbols of the command in the command register. -/
def frame (s : RTLI2C) : List Symbol :=
  (if s.start then [.start] else []) ++ (bits s.read 8 s.txr ++ s.ackSlot)

/-- The shift register of the next clock. -/
def srNext (s : RTLI2C) : BitVec 8 :=
  if s.byte.ld then s.txr
  else if s.byte.shift then s.byte.sr.shiftConcat s.byte.bit.dout
  else s.byte.sr

/-- The bit counter of the next clock. -/
def dcntNext (s : RTLI2C) : ℕ :=
  if s.byte.ld then 7 else if s.byte.shift then (s.byte.dcnt + 7) % 8 else s.byte.dcnt

theorem step_sr (rst : s.rst = false) : (s.step i).byte.sr = s.srNext := by
  simp [step, ByteCtrl.step, byteIn, rst, srNext]

theorem step_dcnt (rst : s.rst = false) : (s.step i).byte.dcnt = s.dcntNext := by
  simp [step, ByteCtrl.step, byteIn, rst, dcntNext]

/-- The symbols that a running command has not completed. -/
def todo (s : RTLI2C) : List Symbol :=
  match s.byte.cState with
  | .idle => []
  | .start => .start :: (bits s.read 8 s.txr ++ s.ackSlot)
  | .read | .write => bits s.read (s.dcntNext + 1) s.srNext ++ s.ackSlot
  | .ack => s.ackSlot
  | .stop => s.stopSlot

/-- The same without a symbol whose bit command is acknowledged in this clock. -/
def left (s : RTLI2C) : List Symbol := if s.byte.bit.cmdAck then s.todo.tail else s.todo

/-! ## One clock -/

theorem bits_tail {rd b : Bool} {n : ℕ} {v : BitVec 8} (h : n < 8) :
    (bits rd (n + 1) v).tail = bits rd n (v.shiftConcat b) := by
  simp only [bits, List.range_succ_eq_map, List.map_cons, List.tail_cons, List.map_map]
  refine List.map_congr_left fun j hj => ?_
  have lt := List.mem_range.mp hj
  have shift : v.getMsbD (j + 1) = (v.shiftConcat b).getMsbD j := by
    simp only [BitVec.getMsbD, BitVec.getLsbD_shiftConcat]
    have below : ¬ 8 - 1 - j = 0 := by omega
    have index : 8 - 1 - (j + 1) = 8 - 1 - j - 1 := by omega
    have inside : j < 8 ∧ j + 1 < 8 ∧ 8 - 1 - j < 8 := by omega
    simp [below, index, inside]
  simp [Function.comp, shift]

/-- A command word and a byte that do not change keep the parts of the list. -/
theorem slots_keep (command : (s.step i).command = s.command) :
    (s.step i).read = s.read ∧ (s.step i).start = s.start ∧ (s.step i).stopSlot = s.stopSlot ∧
      (s.step i).ackSlot = s.ackSlot := by
  have field : ∀ n, (s.step i).command.getLsbD n = s.command.getLsbD n := fun n => by rw [command]
  have read' : (s.step i).read = s.read := field 5
  have stop' : (s.step i).stop = s.stop := field 6
  have ack' : (s.step i).ack = s.ack := field 3
  refine ⟨read', field 7, ?_, ?_⟩
  · rw [stopSlot, stop', stopSlot]
  · rw [ackSlot, stopSlot, read', stop', ack', ackSlot, stopSlot]

/-- A command that begins has all its symbols before it. -/
theorem todo_begin (on : s.On p) (ph : s.InPhase .pending)
    (command : (s.step i).command = s.command) (txr : (s.step i).txr = s.txr) :
    (s.step i).todo = s.frame := by
  obtain ⟨transfers, idle, done, al⟩ := ph
  obtain ⟨read, start, stop, ack⟩ := slots_keep command
  have fsm := step_begin (i := i) on.rst al idle done transfers
  rw [todo, read, ack, srNext, dcntNext, txr, fsm]
  simp only [ByteState.first, frame]
  cases s.start <;> cases s.read <;> simp

/-- Waiting for the bit controller leaves the shift register and the counter alone. -/
theorem next_wait (on : s.On p) (al : s.al = false) (busy : s.byte.cState ≠ .idle)
    (wait : s.byte.bit.cmdAck = false) :
    (s.step i).srNext = s.srNext ∧ (s.step i).dcntNext = s.dcntNext := by
  have fsm := step_wait (i := i) on.rst al busy wait
  constructor
  · rw [srNext, step_sr on.rst, fsm]
    rfl
  · rw [dcntNext, step_dcnt on.rst, fsm]
    rfl

/-- Waiting for the bit controller leaves the list alone. -/
theorem todo_wait (on : s.On p) (al : s.al = false) (busy : s.byte.cState ≠ .idle)
    (wait : s.byte.bit.cmdAck = false) (command : (s.step i).command = s.command)
    (txr : (s.step i).txr = s.txr) : (s.step i).todo = s.todo := by
  obtain ⟨read, start, stop, ack⟩ := slots_keep command
  have fsm := step_wait (i := i) on.rst al busy wait
  obtain ⟨sr, dcnt⟩ := next_wait (i := i) on al busy wait
  rw [todo, read, ack, stop, sr, dcnt, txr, fsm]
  rfl

/-- The bit counter is three bits wide. -/
theorem step_dcnt_lt (dcnt : s.byte.dcnt < 8) : (s.step i).byte.dcnt < 8 := by
  simp only [step, ByteCtrl.step]
  split_ifs <;> omega

/-- A bit command is never acknowledged while the shift register is loaded or shifts. -/
theorem InStep.calm (h : s.InStep) (ack : s.byte.bit.cmdAck = true) :
    s.byte.ld = false ∧ s.byte.shift = false := by
  refine ⟨eq_false_of_ne_true fun ld => ?_, eq_false_of_ne_true fun shift => ?_⟩
  · rw [(h.loading (Or.inl ld)).2.1] at ack
    cases ack
  · rw [(h.loading (Or.inr shift)).2.1] at ack
    cases ack

/-- An acknowledge loads or shifts the shift register in the clock after it. -/
theorem next_advance (h : s.InStep) (on : s.On p) (al : s.al = false) (done : s.done = false)
    (busy : s.byte.cState ≠ .idle) (ack : s.byte.bit.cmdAck = true) :
    (s.step i).srNext =
        (if s.byte.cState == .start then (s.step i).txr
          else if s.byte.cState == .read || (s.byte.cState == .write && s.byte.dcnt != 0) then
            s.byte.sr.shiftConcat (s.step i).byte.bit.dout
          else s.byte.sr) ∧
      (s.step i).dcntNext =
        (if s.byte.cState == .start then 7
          else if s.byte.cState == .read || (s.byte.cState == .write && s.byte.dcnt != 0) then
            (s.byte.dcnt + 7) % 8
          else s.byte.dcnt) ∧
      s.srNext = s.byte.sr ∧ s.dcntNext = s.byte.dcnt := by
  have fsm := step_advance (i := i) h on.rst al done busy ack
  have calm := h.calm ack
  have sr : (s.step i).byte.sr = s.byte.sr := by simp [step_sr on.rst, srNext, calm]
  have count : (s.step i).byte.dcnt = s.byte.dcnt := by simp [step_dcnt on.rst, dcntNext, calm]
  refine ⟨by rw [srNext, fsm, sr], by rw [dcntNext, fsm, count], ?_, ?_⟩
  · simp [srNext, calm]
  · simp [dcntNext, calm]

/-- The acknowledge of a bit command takes the head of the list off. -/
theorem todo_advance (h : s.InStep) (on : s.On p) (dcnt : s.byte.dcnt < 8) (al : s.al = false)
    (done : s.done = false) (busy : s.byte.cState ≠ .idle) (ack : s.byte.bit.cmdAck = true)
    (command : (s.step i).command = s.command) (txr : (s.step i).txr = s.txr) :
    (s.step i).todo = s.todo.tail := by
  obtain ⟨read, start, stop, slot⟩ := slots_keep command
  have fsm := step_advance (i := i) h on.rst al done busy ack
  obtain ⟨next, nextCount, here⟩ := next_advance (i := i) h on al done busy ack
  -- one bit less of the byte, or the acknowledge slot after its last bit
  have data : ∀ b, (if s.byte.dcnt = 0 then s.ackSlot
      else bits s.read ((s.byte.dcnt + 7) % 8 + 1) (s.byte.sr.shiftConcat b) ++ s.ackSlot) =
      (bits s.read (s.byte.dcnt + 1) s.byte.sr ++ s.ackSlot).tail := by
    intro b
    have nonempty : bits s.read (s.byte.dcnt + 1) s.byte.sr ≠ [] := by simp [bits]
    rw [List.tail_append_of_ne_nil nonempty, bits_tail (b := b) dcnt]
    split
    next zero => simp [zero, bits]
    next more =>
      have pred : (s.byte.dcnt + 7) % 8 + 1 = s.byte.dcnt := by omega
      rw [pred]
  rw [todo, todo, read, slot, stop, next, nextCount, here.1, here.2, txr, fsm]
  cases state : s.byte.cState
  case idle => exact absurd state busy
  case start => cases s.read <;> simp [ByteState.succ]
  case read =>
    rw [← data (s.step i).byte.bit.dout]
    by_cases zero : s.byte.dcnt = 0 <;> simp [ByteState.succ, zero]
  case write =>
    rw [← data (s.step i).byte.bit.dout]
    by_cases zero : s.byte.dcnt = 0 <;> simp [ByteState.succ, zero]
  case ack =>
    cases sto : s.stop <;> simp [ByteState.succ, ackSlot, stopSlot, sto]
  case stop =>
    have sto := h.stop state
    simp [ByteState.succ, stopSlot, sto]

/-- What is left after a clock of waiting: the bit controller may complete its bit command. -/
theorem left_wait (on : s.On p) (al : s.al = false) (busy : s.byte.cState ≠ .idle)
    (wait : s.byte.bit.cmdAck = false) (command : (s.step i).command = s.command)
    (txr : (s.step i).txr = s.txr) :
    (s.step i).left = if (s.step i).byte.bit.cmdAck then s.left.tail else s.left := by
  simp only [left, todo_wait on al busy wait command txr, wait, Bool.false_eq_true, if_false]

/-- The acknowledge itself leaves nothing undone that was not. -/
theorem left_advance (h : s.InStep) (on : s.On p) (dcnt : s.byte.dcnt < 8) (al : s.al = false)
    (done : s.done = false) (busy : s.byte.cState ≠ .idle) (ack : s.byte.bit.cmdAck = true)
    (noAck : (s.step i).byte.bit.cmdAck = false) (command : (s.step i).command = s.command)
    (txr : (s.step i).txr = s.txr) : (s.step i).left = s.left := by
  simp only [left, todo_advance h on dcnt al done busy ack command txr, ack, noAck, if_true,
    Bool.false_eq_true, if_false]

/-- A busy byte controller has something to do. -/
theorem todo_ne_nil (h : s.InStep) (busy : s.byte.cState ≠ .idle) : s.todo ≠ [] := by
  rw [todo]
  cases state : s.byte.cState
  case idle => exact absurd state busy
  case stop => simp [stopSlot, h.stop state]
  all_goals simp [ackSlot, bits]

end RTLI2C

end Rockling
