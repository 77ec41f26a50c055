import Rockling.Driver.Plant

/-!
# Devices that answer exist

The results about devices behind the core suppose that the others on the bus pull SDA low as the
devices do, that they move it only while SCL is low and stays so for a while, and that they let go
of SCL again. Obliging devices do all that (`Plant.obliging`): they keep SDA while SCL is high, move
it when SCL falls, and hold SCL low until what they have done has passed through the filters.

What they do depends on what driver and core have done, and that depends on what they do. The loop
is closed by `feedback`.
-/

namespace Rockling

open TwoWire (Symbol Reader Target)

namespace Driver

open RTLI2C

variable {β : Type} {v : BitVec 32} {jobs : ℕ → Prog ByteIface β}

/-- For how many clocks obliging devices go on holding SCL low, and whether they pull SDA low. -/
abbrev Obliging := ℕ → ℕ × Bool

/-- They hold SCL low. -/
def Obliging.hold (x : Obliging) (t : ℕ) : Bool := decide (0 < (x t).1)

/-- They pull SDA low. -/
def Obliging.pull (x : Obliging) (t : ℕ) : Bool := (x t).2

namespace Plant

variable (P : Plant v jobs) (nack : ℕ → Bool) (s : Bus)

/-- The run in which others do that. -/
def obliged (x : Obliging) : Run := P.run x.hold x.pull

theorem obliged_line (x : Obliging) (t : ℕ) :
    sclLine (P.obliged x) t = (((P.obliged x).st t).sclOen && !x.hold t) := P.scl _ _ t

/-- The controller pulls SCL low in the next clock, where it is high. -/
def falls (x : Obliging) (t : ℕ) : Bool :=
  sclLine (P.obliged x) t && !((P.obliged x).st (t + 1)).sclOen

/-- What has been on the wires once SCL has fallen. -/
def fallen (x : Obliging) (t : ℕ) : List Symbol :=
  wires (P.obliged x) t ++
    ((Reader.listen (wave (P.obliged x)) 0 t).reads ⟨false, ((P.obliged x).st (t + 1)).sdaOen⟩).map
      (Symbol.atLevel ((P.obliged x).inp t).sda)

/-- What they do in a clock, given what they have done. -/
def obliges (x : Obliging) : Obliging
  | 0 => (0, false)
  | t + 1 =>
    if P.falls x t then
      (filterPeriod (v.setWidth 16).toNat + 3,
        ((Target.mk s []).after (busDevice nack) (P.fallen x t)).pulls (busDevice nack))
    else ((x t).1 - 1, (x t).2)

/-- It depends on nothing but the past. -/
theorem obliges_causal : Causal (P.obliges nack s) := by
  intro (x : Obliging) (y : Obliging) t same
  cases t with
  | zero => rfl
  | succ t =>
    have state {u : ℕ} (soon : u ≤ t + 1) : (P.obliged x).st u = (P.obliged y).st u := by
      refine P.st_congr fun w before => ?_
      rw [Obliging.hold, Obliging.hold, Obliging.pull, Obliging.pull, same w (by omega)]
      exact ⟨rfl, rfl⟩
    have scl {u : ℕ} (soon : u ≤ t) : sclLine (P.obliged x) u = sclLine (P.obliged y) u := by
      have here : (P.run x.hold x.pull).st u = (P.run y.hold y.pull).st u := state (by omega)
      rw [sclLine, sclLine, obliged, obliged, P.scl, P.scl, here, Obliging.hold, Obliging.hold,
        same u (by omega)]
    have sda {u : ℕ} (soon : u ≤ t) : ((P.obliged x).inp u).sda = ((P.obliged y).inp u).sda := by
      have here : (P.run x.hold x.pull).st u = (P.run y.hold y.pull).st u := state (by omega)
      rw [obliged, obliged, P.sda, P.sda, here, Obliging.pull, Obliging.pull, same u (by omega)]
    have waves (u : ℕ) (soon : u ≤ t) : wave (P.obliged x) u = wave (P.obliged y) u := by
      rw [wave, wave, scl soon, state (by omega)]
    have falls : P.falls x t = P.falls y t := by
      rw [Plant.falls, Plant.falls, scl le_rfl, state le_rfl]
    have fallen : P.fallen x t = P.fallen y t := by
      rw [Plant.fallen, Plant.fallen, wires_congr waves fun u before => sda before.le,
        listen_congr waves, sda le_rfl, state le_rfl]
    rw [obliges, obliges, falls, fallen, same t (Nat.lt_succ_self t)]

/-- What they do. -/
def obligingly : Obliging := feedback (P.obliges nack s)

theorem obligingly_zero : P.obligingly nack s 0 = (0, false) :=
  (P.obliges_causal nack s).feedback_eq 0

theorem obligingly_succ (t : ℕ) : P.obligingly nack s (t + 1) =
    if P.falls (P.obligingly nack s) t then
      (filterPeriod (v.setWidth 16).toNat + 3,
        ((Target.mk s []).after (busDevice nack) (P.fallen (P.obligingly nack s) t)).pulls
          (busDevice nack))
    else ((P.obligingly nack s t).1 - 1, (P.obligingly nack s t).2) :=
  (P.obliges_causal nack s).feedback_eq (t + 1)

/-- While they hold SCL low it cannot fall. -/
theorem not_falls_of_holds {x : Obliging} {t : ℕ} (holds : 0 < (x t).1) : P.falls x t = false := by
  rw [falls, P.obliged_line, Obliging.hold, decide_eq_true holds, Bool.not_true, Bool.and_false]
  rfl

/-- They hold SCL low for as long as they have begun to. -/
theorem obligingly_holds {t n : ℕ} (begun : n ≤ (P.obligingly nack s t).1) :
    (P.obligingly nack s (t + n)).1 = (P.obligingly nack s t).1 - n := by
  induction n with
  | zero => rfl
  | succ n ih =>
    have here := ih (by omega)
    rw [← Nat.add_assoc, obligingly_succ, P.not_falls_of_holds (by omega), here]
    rfl

/-- They let go of SCL. -/
theorem obligingly_finite : Recurs fun t => (P.obligingly nack s).hold t = false := by
  intro t
  have free : (P.obligingly nack s).hold (t + (P.obligingly nack s t).1) = false := by
    rw [Obliging.hold, P.obligingly_holds nack s le_rfl, Nat.sub_self]
    rfl
  exact ⟨_, Nat.le_add_right t _, free⟩

theorem obligingly_stretching :
    Stretching (P.obliged (P.obligingly nack s)) (P.obligingly nack s).hold where
  line := P.scl _ _
  start := by
    rw [Obliging.hold, obligingly_zero]
    rfl
  begins := by
    intro t holds
    rw [Obliging.hold, decide_eq_true_eq, obligingly_succ] at holds
    cases falls : P.falls (P.obligingly nack s) t with
    | true =>
      rw [Plant.falls, Bool.and_eq_true, Bool.not_eq_true'] at falls
      exact Or.inr falls.2
    | false =>
      rw [falls] at holds
      have before : 0 < (P.obligingly nack s t).1 := Nat.lt_of_lt_of_le holds (Nat.sub_le _ _)
      exact Or.inl (decide_eq_true before)

theorem obligingly_timely : Timely (v.setWidth 16).toNat (P.obliged (P.obligingly nack s))
    (P.obligingly nack s).pull where
  line := P.sda _ _
  setup := by
    intro t moved n soon
    rw [Obliging.pull, Obliging.pull, obligingly_succ] at moved
    cases falls : P.falls (P.obligingly nack s) t with
    | false =>
      rw [falls] at moved
      exact absurd rfl moved
    | true =>
      have begun : (P.obligingly nack s (t + 1)).1 = filterPeriod (v.setWidth 16).toNat + 3 := by
        rw [obligingly_succ, falls]
        rfl
      have holds := P.obligingly_holds nack s (t := t + 1) (n := n) (by omega)
      rw [P.obliged_line, Obliging.hold, holds, begun, decide_eq_true (by omega)]
      exact Bool.and_false _

/-- They keep SDA as it is unless SCL falls. -/
theorem obligingly_keeps {t : ℕ} (stays : P.falls (P.obligingly nack s) t = false) :
    (P.obligingly nack s).pull (t + 1) = (P.obligingly nack s).pull t := by
  rw [Obliging.pull, obligingly_succ, stays]
  rfl

/-- When it falls they do what the devices do. -/
theorem obligingly_moves {t : ℕ} (falls : P.falls (P.obligingly nack s) t = true) :
    (P.obligingly nack s).pull (t + 1) =
      (devicesAt nack s (P.obliged (P.obligingly nack s)) (t + 1)).pulls (busDevice nack) := by
  have driven : ((P.obliged (P.obligingly nack s)).st (t + 1)).sclOen = false :=
    eq_false_of_ne_true fun high => by simp [Plant.falls, high] at falls
  have line : sclLine (P.obliged (P.obligingly nack s)) (t + 1) = false := by
    rw [P.obliged_line, driven, Bool.false_and]
  have fallen : wires (P.obliged (P.obligingly nack s)) (t + 1) =
      P.fallen (P.obligingly nack s) t := by
    rw [wires, wave, line]
    rfl
  rw [Obliging.pull, obligingly_succ, falls, if_pos rfl, devicesAt, fallen]

/-- A high line stays so as far as they are concerned. -/
theorem obligingly_high {t : ℕ} (high : sclLine (P.obliged (P.obligingly nack s)) t = true)
    (driven : ((P.obliged (P.obligingly nack s)).st (t + 1)).sclOen = true) :
    sclLine (P.obliged (P.obligingly nack s)) (t + 1) = true := by
  rw [P.obliged_line, Bool.and_eq_true, Bool.not_eq_true'] at high
  have free : ¬ 0 < (P.obligingly nack s t).1 := of_decide_eq_false high.2
  have stays : P.falls (P.obligingly nack s) t = false := by
    rw [Plant.falls, driven]
    exact Bool.and_false _
  rw [P.obliged_line, driven, Obliging.hold, obligingly_succ, stays,
    if_neg Bool.false_ne_true, decide_eq_false (by omega)]
  rfl

section

variable (hp : 10 ≤ (v.setWidth 16).toNat) (chained : ∀ n, Chained true (jobs n))
  (orderly : ∀ n, Orderly .free (jobs n)) (blind : ∀ n, Blind (jobs n)) {s : Bus}
  (fresh : s.sends = false)

include hp chained orderly blind fresh

/-- Where the controller makes START or STOP, the devices are quiet before and after it. -/
theorem obligingly_quiet {t : ℕ}
    (answers : AnswersUntil (t + 1) (busDevice nack) s (P.obliged (P.obligingly nack s))
      (P.obligingly nack s).pull)
    (high : sclLine (P.obliged (P.obligingly nack s)) t = true)
    (high' : sclLine (P.obliged (P.obligingly nack s)) (t + 1) = true) :
    (devicesAt nack s (P.obliged (P.obligingly nack s)) t).pulls (busDevice nack) =
      (devicesAt nack s (P.obliged (P.obligingly nack s)) (t + 1)).pulls (busDevice nack) := by
  by_cases moves : (Reader.listen (wave (P.obliged (P.obligingly nack s))) 0 t).reads
      (wave (P.obliged (P.obligingly nack s)) (t + 1)) = []
  · rw [devicesAt, devicesAt, wires, moves, List.map_nil, List.append_nil]
  · have quiet : (devicesAt nack s (P.obliged (P.obligingly nack s)) t).pulls (busDevice nack) =
        false :=
      P.quiet_of_move hp (P.obligingly_stretching nack s) (P.obligingly_timely nack s)
        chained orderly blind fresh answers (Nat.lt_succ_self t) high high' moves
    have last : (Reader.listen (wave (P.obliged (P.obligingly nack s))) 0 t).last.scl = true := by
      rw [Reader.listen_last, Nat.zero_add]
      exact high
    rw [quiet, devicesAt, wires, Target.after, List.foldl_append]
    rcases Reader.reads_high last high' moves with made | made <;> rw [made] <;> rfl

/-- They pull SDA low as the devices do. -/
theorem obligingly_answers (t : ℕ) : (P.obligingly nack s).pull t =
    (devicesAt nack s (P.obliged (P.obligingly nack s)) t).pulls (busDevice nack) := by
  induction t using Nat.strong_induction_on with
  | _ t ih =>
    cases t with
    | zero =>
      have waits : (busDevice nack).sends s = false := fresh
      rw [Obliging.pull, obligingly_zero]
      change false = ((busDevice nack).sends s && _)
      rw [waits, Bool.false_and]
    | succ t =>
      cases falls : P.falls (P.obligingly nack s) t with
      | true => exact P.obligingly_moves nack s falls
      | false =>
        rw [P.obligingly_keeps nack s falls, ih t (Nat.lt_succ_self t)]
        cases high : sclLine (P.obliged (P.obligingly nack s)) t with
        | false =>
          -- nothing that is read now matters
          rw [devicesAt, devicesAt, after_of_low high]
        | true =>
          have driven : ((P.obliged (P.obligingly nack s)).st (t + 1)).sclOen = true :=
            eq_true_of_ne_false fun low => by simp [Plant.falls, high, low] at falls
          exact P.obligingly_quiet nack hp chained orderly blind fresh (fun u soon _ => ih u soon)
            high (P.obligingly_high nack s high driven)

/-- So they do as devices that hear the lines. -/
theorem obligingly_hear : AnswersAs (busDevice nack) s (P.obliged (P.obligingly nack s))
    (P.obligingly nack s).pull := by
  intro t _
  have answers := P.obligingly_answers nack hp chained orderly blind fresh
  have heard := P.onLines_until hp (P.obligingly_stretching nack s) (P.obligingly_timely nack s)
    chained orderly blind fresh (T := t) (fun u _ _ => answers u) le_rfl
  exact (answers t).trans (congrArg (Target.pulls (busDevice nack)) heard.symm)

/-- **Devices that answer exist.** -/
theorem obliging : ∃ hold pull, Stretching (P.run hold pull) hold ∧
    Timely (v.setWidth 16).toNat (P.run hold pull) pull ∧
    AnswersAs (busDevice nack) s (P.run hold pull) pull ∧ (Recurs fun t => hold t = false) :=
  ⟨_, _, P.obligingly_stretching nack s, P.obligingly_timely nack s,
    P.obligingly_hear nack hp chained orderly blind fresh, P.obligingly_finite nack s⟩

end

end Plant

end Driver

end Rockling
