import Rockling.Rtl.Transcript

/-!
# Peripherals on the bus

On a bus on which all others are peripherals (`Peripherals`), SDA carries in every slot what its
owner sends: the controller in the bits of a byte that it transmits and in the acknowledge slot of
one that it receives, the peripheral in the other ones. So the levels in the frame of a command are
the byte and the answer to it (`levels_written`, `OwnedRun.levels`).
-/

namespace Rockling

open TwoWire (Symbol)

/-- A slot is entered from the state before it or goes on. -/
theorem BitFsm.exec_slot_cmd {x : BitFsm} {cmd : Cmd} {din : Bool}
    (slot : (x.exec cmd din).cState.slot = true) :
    (x.cState.slot = true ∨ x.cState.isSetup = true) ∧
      x.cState.cmd = (x.exec cmd din).cState.cmd := by
  obtain ⟨c, k, scl, sda, chk⟩ := x
  cases c <;> first | exact ⟨.inl rfl, rfl⟩ | exact ⟨.inr rfl, rfl⟩ | cases slot | skip
  cases cmd <;> cases slot

theorem BitCtrl.step_slot_cmd {p : ℕ} {b : BitCtrl} {i : BitIn} (hi : i.Running p)
    (slot : (b.step i).cState.slot = true) :
    (b.cState.slot = true ∨ b.cState.isSetup = true) ∧ b.cState.cmd = (b.step i).cState.cmd := by
  rcases b.fsm_cases hi with ⟨-, fsm⟩ | ⟨-, -, fsm⟩ | ⟨-, -, fsm⟩
  · rw [fsm] at slot
    cases slot
  · rw [fsm] at slot ⊢
    exact BitFsm.exec_slot_cmd slot
  · rw [fsm] at slot ⊢
    exact ⟨Or.inl slot, rfl⟩

namespace RTLI2C

/-- `pull t` says that others pull SDA low in clock `t`. They move SDA only while SCL is low and
stays so for another sampling period of the filter. -/
structure Timely (p : ℕ) (r : Run) (pull : ℕ → Bool) : Prop where
  line : ∀ t, (r.inp t).sda = ((r.st t).sdaOen && !pull t)
  setup : ∀ t, pull (t + 1) ≠ pull t → ∀ n ≤ filterPeriod p + 2, sclLine r (t + 1 + n) = false

/-- The others are peripherals: they also leave SDA alone in the bits that the controller writes. -/
structure Peripherals (p : ℕ) (r : Run) (pull : ℕ → Bool) : Prop extends Timely p r pull where
  yields : ∀ t, sclLine r t = true → (bitAt r t).cState.slot = true →
    (bitAt r t).cState.cmd = .write → pull t = false

/-- The bits among the symbols. -/
def bitsOf (l : List Symbol) : List Bool :=
  l.filterMap fun
    | .bit b => some b
    | _ => none

@[simp] theorem bitsOf_append (l l' : List Symbol) : bitsOf (l ++ l') = bitsOf l ++ bitsOf l' :=
  List.filterMap_append

/-- The bits in the frame of a command. -/
theorem bitsOf_wordFrame (v : BitVec 32) (txr : BitVec 8) :
    bitsOf (wordFrame v txr) =
      if v.getLsbD 5 then List.replicate 8 true ++ [v.getLsbD 3] else lowBits 8 txr ++ [true] := by
  rw [wordFrame]
  cases v.getLsbD 7 <;> cases v.getLsbD 6 <;> cases v.getLsbD 5 <;>
    simp [bitsOf, lowBits, List.range_succ, BitVec.getMsbD]

section

variable {s : RTLI2C} {sda : Bool}

/-- The slots of the controller carry its bits. The other ones are the data slots of a command with
`RD` and the acknowledge slot of one without. -/
theorem slot_cases (inStep : s.InStep) (writes : s.byte.bit.cState = .wrD → sda = s.datum) :
    s.hears sda = bitsOf s.shows ∨
      (s.hears sda = [sda] ∧ bitsOf s.shows = [true] ∧
        ((s.read = true ∧ 2 ≤ (bitsOf s.remaining).length) ∨
          (s.read = false ∧ bitsOf s.remaining = [true]))) := by
  rw [hears, shows]
  cases en : s.byte.bit.clkEn
  · exact Or.inl rfl
  · cases state : s.byte.bit.cState
    case wrD => exact Or.inl (by rw [writes state]; rfl)
    case rdD =>
      have going : s.byte.bit.cState ≠ .idle := by rw [state]; decide
      have busy : s.byte.cState ≠ .idle := fun idle => going (inStep.bit_idle idle)
      have noAck : s.byte.bit.cmdAck = false :=
        eq_false_of_ne_true fun ack => going (inStep.acked ack).1
      have owed : s.remaining = s.todo := by
        rw [remaining_of_busy busy, owed, noAck, state]
        rfl
      have group := inStep.group going
      rw [inStep.coreCmd, state] at group
      refine Or.inr ⟨rfl, rfl, ?_⟩
      rw [owed, todo]
      cases byte : s.byte.cState
      all_goals rw [byte] at group
      case read =>
        refine Or.inl ⟨inStep.read byte, ?_⟩
        simp [bits, ackSlot, bitsOf]
        omega
      case ack =>
        cases rd : s.read
        · refine Or.inr ⟨rfl, ?_⟩
          rw [ackSlot, rd, stopSlot]
          cases s.stop <;> rfl
        · rw [rd] at group
          cases group
      all_goals cases group
    all_goals exact Or.inl rfl

end

theorem length_bitsOf_bits (rd : Bool) (n : ℕ) (v : BitVec 8) :
    (bitsOf (bits rd n v)).length = n := by
  simp [bits, bitsOf]

theorem bitsOf_stopSlot (s : RTLI2C) : bitsOf s.stopSlot = [] := by
  rw [stopSlot]
  cases s.stop <;> rfl

theorem length_bitsOf_ackSlot (s : RTLI2C) : (bitsOf s.ackSlot).length = 1 :=
  congrArg (fun l => (_ :: l).length) s.bitsOf_stopSlot

/-- How many bits are to come in a bit command other than a reading one. -/
theorem bits_of_cmd {s : RTLI2C} (inStep : s.InStep) (going : s.byte.bit.cState ≠ .idle)
    (notRead : s.byte.bit.cState.cmd ≠ .read) :
    (2 ≤ (bitsOf s.remaining).length ∧ (s.read = false ∨ s.start = true)) ∨
      ((bitsOf s.remaining).length = 1 ∧ s.read = true) ∨
      ((bitsOf s.remaining).length = 0 ∧ s.stop = true) := by
  have busy : s.byte.cState ≠ .idle := fun idle => going (inStep.bit_idle idle)
  have noAck : s.byte.bit.cmdAck = false :=
    eq_false_of_ne_true fun ack => going (inStep.acked ack).1
  have group := inStep.group going
  rw [inStep.coreCmd] at group
  rw [group] at notRead
  have notStarted : s.byte.bit.cState.cmd ≠ .start → s.byte.bit.cState.started = false := by
    cases s.byte.bit.cState <;> simp [BitState.cmd, BitState.started]
  rw [remaining_of_busy busy, owed, noAck, Bool.false_or]
  cases byte : s.byte.cState
  all_goals rw [byte] at group notRead
  case idle => exact absurd byte busy
  case start =>
    have all : (bitsOf (bits s.read 8 s.txr ++ s.ackSlot)).length = 9 := by
      rw [bitsOf_append, List.length_append, length_bitsOf_bits, length_bitsOf_ackSlot]
    have same : bitsOf (if s.byte.bit.cState.started then s.todo.tail else s.todo) =
        bitsOf (bits s.read 8 s.txr ++ s.ackSlot) := by
      rw [todo, byte]
      split <;> rfl
    rw [same, all]
    exact Or.inl ⟨by decide, Or.inr (inStep.start byte)⟩
  case read => exact absurd rfl notRead
  case write =>
    rw [notStarted (by rw [group]; exact Cmd.noConfusion), if_neg Bool.false_ne_true, todo, byte]
    refine Or.inl ⟨?_, Or.inl (inStep.write byte)⟩
    rw [bitsOf_append, List.length_append, length_bitsOf_bits, length_bitsOf_ackSlot]
    omega
  case ack =>
    cases rd : s.read
    · rw [rd] at notRead
      exact absurd rfl notRead
    · rw [notStarted (by rw [group, rd]; exact Cmd.noConfusion), if_neg Bool.false_ne_true, todo,
        byte]
      exact Or.inr (Or.inl ⟨s.length_bitsOf_ackSlot, rfl⟩)
  case stop =>
    rw [notStarted (by rw [group]; exact Cmd.noConfusion), if_neg Bool.false_ne_true, todo, byte]
    exact Or.inr (Or.inr ⟨congrArg List.length s.bitsOf_stopSlot, inStep.stop byte⟩)

/-! ## Runs -/

section

variable {p t₀ : ℕ} {hold pull : ℕ → Bool} {r : Run}

/-- Where SCL is high, the others have not moved SDA for a sampling period. -/
theorem Timely.pull_eq (bus : Timely p r pull) {t n : ℕ} (soon : n ≤ filterPeriod p + 3)
    (high : sclLine r (t + n) = true) : pull t = pull (t + n) := by
  induction n generalizing t with
  | zero => rfl
  | succ n ih =>
    have eq : t + (n + 1) = t + 1 + n := by omega
    rw [eq] at high ⊢
    rw [← ih (by omega) high]
    by_contra moved
    rw [bus.setup t (Ne.symm moved) n (by omega)] at high
    cases high

/-- They keep SDA while SCL is high. -/
theorem Timely.answering (bus : Timely p r pull) : Answering r pull where
  line := bus.line
  stays := fun t _ up => (bus.pull_eq (n := 1) (by omega) up).symm

section

variable (run : OwnedRun p t₀ hold r) (hp : 3 ≤ p) (bus : Peripherals p r pull)
  {w n : ℕ} {v : BitVec 32} (late : t₀ ≤ w) (hw : (r.inp w).write .command = some v)
  (txr : ∀ t, w ≤ t → (r.st t).command ≠ 0 → (r.inp t).write .txr = none)
  (only : ∀ t, w < t → t < w + n → (r.inp t).write .command = none)

include run hp late hw only

include bus in
/-- A clock of the command. -/
theorem slot_at :
    (r.st (w + n)).hears (r.inp (w + n)).sda = bitsOf (r.st (w + n)).shows ∨
      ((r.st (w + n)).hears (r.inp (w + n)).sda = [(r.inp (w + n)).sda] ∧
        bitsOf (r.st (w + n)).shows = [true] ∧
        ((v.getLsbD 5 = true ∧ 2 ≤ (bitsOf (r.st (w + n)).remaining).length) ∨
          (v.getLsbD 5 = false ∧ bitsOf (r.st (w + n)).remaining = [true]))) := by
  by_cases still : (bitAt r (w + n)).cState = .idle
  · rw [hears_of_idle still, shows_of_idle still]
    exact Or.inl rfl
  obtain ⟨a₀, paced⟩ := run.paced hp
  obtain ⟨k, eq⟩ := Nat.exists_eq_add_of_le (show t₀ ≤ w + n by omega)
  have here := paced k
  rw [← eq] at here
  obtain ⟨bit, pending, -, -⟩ := run.pending hp late hw
  obtain ⟨m, rfl⟩ : ∃ m, n = m + 2 := by
    refine ⟨n - 2, ?_⟩
    by_contra early
    obtain rfl | rfl : n = 0 ∨ n = 1 := by omega
    · exact still bit
    · exact still (here.inStep.bit_idle pending.2.1)
  have read : (r.st (w + (m + 2))).read = v.getLsbD 5 := by
    have under := (run.gathered hp bus.answering late hw m fun t low high =>
      only t low (by omega)).2
    rw [show w + m + 2 = w + (m + 2) by omega] at under
    rcases under with ⟨-, word⟩ | finishing | ⟨-, idle, -⟩
    · rw [RTLI2C.read, word, BitVec.getLsbD_setWidth]
      rfl
    · exact absurd (here.inStep.bit_idle finishing.2.1) still
    · exact absurd (here.inStep.bit_idle idle) still
  have writes : (bitAt r (w + (m + 2))).cState = .wrD →
      (r.inp (w + (m + 2))).sda = (r.st (w + (m + 2))).datum := by
    intro wrD
    have slot : (bitAt r (w + (m + 2))).cState.slot = true := by rw [wrD]; rfl
    have oen := here.timed.up (BitState.not_before_of_slot slot)
    have up := (here.paced.still oen (by rw [wrD]; rfl)).1
    have drives := (run.drives hp (show t₀ ≤ w + (m + 2) by omega)).sda
      (r.st (w + (m + 2))).datum (by rw [wrD]; rfl)
    rw [bus.line, bus.yields _ up slot (by rw [wrD]; rfl), Bool.not_false, Bool.and_true]
    exact drives
  rw [← read]
  exact slot_cases here.inStep writes

include txr in
/-- What has been shown so far and what is to come make the frame. -/
theorem frame_remaining (later : 1 ≤ n) :
    told r w n ++ (r.st (w + n)).remaining = wordFrame v (r.st w).txr := by
  obtain ⟨zero, quiet, -, -⟩ := run.polite w late v hw
  have whole := run.told_remaining hp late zero quiet txr n
  have rest : collect (commandIn r) (w + 1) (n - 1) = [] :=
    collect_nil fun t low high => by rw [commandIn, only t (by omega) (by omega)]
  rw [whole, show n = 1 + (n - 1) by omega, collect_add, rest, List.append_nil, collect, collect,
    Nat.add_zero, commandIn, hw]
  rfl

include txr in
/-- The bits shown so far and the ones to come are those of the frame. -/
theorem bits_remaining (later : 1 ≤ n) :
    bitsOf (told r w n) ++ bitsOf (r.st (w + n)).remaining =
      bitsOf (wordFrame v (r.st w).txr) := by
  rw [← bitsOf_append, frame_remaining run hp late hw txr only later]

include txr in
/-- One clock takes from the bits to come what it shows. -/
theorem bits_step (later : 1 ≤ n) (noWrite : (r.inp (w + n)).write .command = none) :
    bitsOf (r.st (w + n)).remaining =
      bitsOf (r.st (w + n)).shows ++ bitsOf (r.st (w + (n + 1))).remaining := by
  have here := bits_remaining run hp late hw txr only later
  have next := bits_remaining run hp late hw txr (n := n + 1) (fun t low high => by
    rcases Nat.lt_or_ge t (w + n) with before | after
    · exact only t low before
    · rwa [show t = w + n by omega]) (by omega)
  rw [← here, told, collect, bitsOf_append, List.append_assoc] at next
  exact (List.append_cancel_left next).symm

include txr bus in
/-- What is on SDA in a transmission: the byte, and the answer to it. -/
theorem levels_written (later : 1 ≤ n) (written : v.getLsbD 5 = false) :
    caught r w n = bitsOf (told r w n) ∨
      (bitsOf (r.st (w + n)).remaining = [] ∧
        ∃ level, caught r w n = lowBits 8 (r.st w).txr ++ [level]) := by
  induction n, later using Nat.le_induction with
  | base =>
    have bit := (run.pending hp late hw).1
    left
    rw [caught, told, collect, collect, collect, collect, Nat.add_zero, hears_of_idle bit,
      shows_of_idle bit]
    rfl
  | succ n later ih =>
    have only' : ∀ t, w < t → t < w + n → (r.inp t).write .command = none :=
      fun t low high => only t low (by omega)
    have here := bits_remaining run hp late hw txr only' later
    have step := bits_step run hp late hw txr only' later (only (w + n) (by omega) (by omega))
    rw [bitsOf_wordFrame, if_neg (by rw [written]; exact Bool.false_ne_true)] at here
    rw [caught, told, collect, collect, bitsOf_append]
    rcases ih only' with same | ⟨drained, level, known⟩
    · rcases slot_at run hp bus late hw only' with agree | ⟨heard, shown, ⟨rd, -⟩ | ⟨-, last⟩⟩
      · left
        rw [← agree]
        exact congrArg (· ++ _) same
      · rw [written] at rd
        cases rd
      · right
        rw [last] at here
        rw [last, shown] at step
        refine ⟨List.append_cancel_left (step.symm.trans (List.append_nil _).symm),
          (r.inp (w + n)).sda, ?_⟩
        rw [heard]
        exact congrArg (· ++ _) (same.trans (List.append_cancel_right here))
    · right
      rw [drained] at step
      obtain ⟨shown, rest⟩ := List.append_eq_nil_iff.mp step.symm
      refine ⟨rest, level, ?_⟩
      rcases slot_at run hp bus late hw only' with agree | ⟨-, shown', -⟩
      · rw [agree, shown, List.append_nil]
        exact known
      · rw [shown] at shown'
        cases shown'

include txr bus in
/-- The last level of a reception is the flag that the controller sends. -/
theorem levels_read (later : 1 ≤ n) (isRd : v.getLsbD 5 = true)
    (drained : bitsOf (r.st (w + n)).remaining = []) :
    (caught r w n).getLast? = some (v.getLsbD 3) := by
  induction n, later using Nat.le_induction with
  | base =>
    have here := bits_remaining run hp late hw txr only le_rfl
    have bit := (run.pending hp late hw).1
    rw [drained, told, collect, collect, Nat.add_zero, shows_of_idle bit, bitsOf_wordFrame,
      if_pos isRd] at here
    cases here
  | succ n later ih =>
    have only' : ∀ t, w < t → t < w + n → (r.inp t).write .command = none :=
      fun t low high => only t low (by omega)
    have here := bits_remaining run hp late hw txr only' later
    have step := bits_step run hp late hw txr only' later (only (w + n) (by omega) (by omega))
    rw [drained, List.append_nil] at step
    rw [bitsOf_wordFrame, if_pos isRd] at here
    rw [caught, collect]
    rcases slot_at run hp bus late hw only' with agree | ⟨-, shown, ⟨-, two⟩ | ⟨wr, -⟩⟩
    · rw [agree, ← step]
      by_cases done : bitsOf (r.st (w + n)).remaining = []
      · rw [done, List.append_nil]
        exact ih only' done
      · rw [List.getLast?_append_of_ne_nil _ done, ← List.getLast?_append_of_ne_nil _ done, here,
          List.getLast?_concat]
    · rw [step, shown] at two
      exact absurd two (by decide)
    · rw [isRd] at wr
      cases wr

end

/-- **What a command and the answer to it look like.** The levels of SDA in the slots of a command,
from its write to a clock in which the core is quiescent again. -/
theorem OwnedRun.levels (run : OwnedRun p t₀ hold r) (hp : 3 ≤ p) (bus : Peripherals p r pull)
    {w u : ℕ} {v : BitVec 32} (late : t₀ ≤ w) (hw : (r.inp w).write .command = some v)
    (txr : ∀ t, w ≤ t → (r.st t).command ≠ 0 → (r.inp t).write .txr = none) (later : w < u)
    (only : ∀ t, w < t → t < u → (r.inp t).write .command = none)
    (command : (r.st u).command = 0) (idle : (r.st u).byte.cState = .idle) :
    caught r w (u - w) =
      if v.getLsbD 5 then lowBits 8 (r.st u).byte.sr ++ [v.getLsbD 3]
      else lowBits 8 (r.st w).txr ++ [(r.st u).byte.ackOut] := by
  obtain ⟨frame, data, known, byte⟩ :=
    run.exchange hp bus.answering late hw txr later only command idle
  obtain ⟨n, rfl⟩ := Nat.exists_eq_add_of_le later.le
  rw [Nat.add_sub_cancel_left] at frame known ⊢
  have drained : bitsOf (r.st (w + n)).remaining = [] := by
    rw [remaining_of_over idle (Or.inl (transfers_of_zero command))]
    rfl
  cases rd : v.getLsbD 5
  · obtain ⟨level, known'⟩ : ∃ level, caught r w n = lowBits 8 (r.st w).txr ++ [level] := by
      rcases levels_written run hp bus late hw txr only (by omega) rd with same | ⟨-, known'⟩
      · rw [frame, bitsOf_wordFrame, rd] at same
        exact ⟨true, same⟩
      · exact known'
    rw [known'] at known
    rw [known', (List.append_inj' known rfl).2]
    rfl
  · have last := levels_read run hp bus late hw txr only (by omega) rd drained
    rw [known, List.getLast?_concat] at last
    rw [known, byte rd, Option.some.inj last]
    rfl

end

end RTLI2C

end Rockling
