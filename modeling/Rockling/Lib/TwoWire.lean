import Mathlib.Data.List.Basic
import Mathlib.Tactic.Common

/-!
# Reading a two-wire bus

How a listener reads the levels of a clock line and a data line, one pair of levels at a time: while
the clock is high a data line that stays put is a bit, one that falls is a START and one that rises
is a STOP. Between two pairs in which the clock is not low on both sides a data line may only move
in these two ways, so anything else is a glitch.

A bit is only known to be one when the clock falls again. Until then it is `pending`.

The lines are wired ANDs. Where somebody pulls the data line low who moves it only while the clock
is low, and has let go of it where the other one makes START or STOP, a listener on the lines reads
what the other one shows, with the bits at the level of the line, and glitches at most
(`reads_pulled`).
-/

namespace Rockling

namespace TwoWire

/-- The levels of the two lines. -/
structure Levels where
  scl : Bool
  sda : Bool
  deriving DecidableEq, Repr

/-- What is read from the wires. -/
inductive Symbol where
  | start
  | stop
  | bit (level : Bool)
  | glitch
  deriving DecidableEq, Repr

/-- A symbol, with the level of the data line where it is a bit. -/
def Symbol.atLevel (level : Bool) : Symbol → Symbol
  | .bit _ => .bit level
  | symbol => symbol

/-- What has been read, without the glitches. -/
def clean (symbols : List Symbol) : List Symbol := symbols.filter (· ≠ .glitch)

theorem clean_append (l l' : List Symbol) : clean (l ++ l') = clean l ++ clean l' :=
  List.filter_append ..

theorem clean_of_notMem {symbols : List Symbol} (none : Symbol.glitch ∉ symbols) :
    clean symbols = symbols := by
  refine List.filter_eq_self.mpr fun symbol inside => decide_eq_true ?_
  rintro rfl
  exact none inside

/-- The levels of the lines if somebody else also pulls the data line low where `pull` is set. -/
def Levels.pulled (w : Levels) (pull : Bool) : Levels := ⟨w.scl, w.sda && !pull⟩

/-- A listener: the levels it saw last, the bit of the current high period of the clock, and what it
has read. -/
structure Reader where
  last : Levels
  pending : Option Bool
  out : List Symbol
  deriving DecidableEq, Repr

namespace Reader

/-- A listener that has just arrived. -/
def fresh (w : Levels) : Reader := ⟨w, none, []⟩

/-- What one more pair of levels shows. -/
def reads (x : Reader) (w : Levels) : List Symbol :=
  match x.last.scl, w.scl with
  | false, false => []
  | true, true => if x.last.sda = w.sda then [] else if w.sda then [.stop] else [.start]
  | false, true => if x.last.sda = w.sda then [] else [.glitch]
  | true, false => (if x.last.sda = w.sda then [] else [.glitch]) ++ x.pending.toList.map .bit

/-- The bit of the current high period after one more pair of levels. -/
def nextPending (x : Reader) (w : Levels) : Option Bool :=
  match x.last.scl, w.scl with
  | _, false => none
  | false, true => some w.sda
  | true, true => if x.last.sda = w.sda then x.pending else none

/-- One more pair of levels. -/
def step (x : Reader) (w : Levels) : Reader := ⟨w, x.nextPending w, x.out ++ x.reads w⟩

/-- A listener who arrives in clock `t` of a waveform, `n` clocks later. -/
def listen (wave : ℕ → Levels) (t : ℕ) : ℕ → Reader
  | 0 => fresh (wave t)
  | n + 1 => (listen wave t n).step (wave (t + n + 1))

variable {x : Reader} {w : Levels}

theorem listen_last (wave : ℕ → Levels) (t n : ℕ) : (listen wave t n).last = wave (t + n) := by
  cases n <;> rfl

/-- The bit of the current high period is the level of the data line. -/
theorem listen_pending {wave : ℕ → Levels} {t n : ℕ} {level : Bool}
    (h : (listen wave t n).pending = some level) : (listen wave t n).last.sda = level := by
  induction n with
  | zero => cases h
  | succ n ih =>
    rw [listen, step, nextPending] at h
    split at h
    · cases h
    · exact Option.some.inj h
    · split at h
      · next same => exact same.symm.trans (ih h)
      · cases h

/-- A listener who has read nothing and waits for no bit might have just arrived. -/
theorem listen_of_fresh {wave : ℕ → Levels} {t k : ℕ}
    (h : listen wave t k = fresh (wave (t + k))) (n : ℕ) :
    listen wave t (k + n) = listen wave (t + k) n := by
  induction n with
  | zero => exact h
  | succ n ih =>
    rw [← Nat.add_assoc, listen, ih, ← Nat.add_assoc t k n]
    rfl

/-! ## The legal moves -/

/-- Nothing is read while the clock is low. -/
theorem step_low (low : x.last.scl = false) (low' : w.scl = false) :
    x.step w = ⟨w, none, x.out⟩ := by
  simp [step, nextPending, reads, low, low']

/-- With the clock high and the data line at rest nothing is read. -/
theorem step_high (high : x.last.scl = true) (high' : w.scl = true) (same : x.last.sda = w.sda) :
    x.step w = ⟨w, x.pending, x.out⟩ := by
  simp [step, nextPending, reads, high, high', same]

/-- When the clock rises a bit begins. -/
theorem step_rise (low : x.last.scl = false) (high' : w.scl = true) (same : x.last.sda = w.sda) :
    x.step w = ⟨w, some w.sda, x.out⟩ := by
  simp [step, nextPending, reads, low, high', same]

/-- When the clock falls the bit is read. -/
theorem step_fall (high : x.last.scl = true) (low' : w.scl = false) (same : x.last.sda = w.sda) :
    x.step w = ⟨w, none, x.out ++ x.pending.toList.map .bit⟩ := by
  simp [step, nextPending, reads, high, low', same]

/-- A START. -/
theorem step_start (high : x.last.scl = true) (high' : w.scl = true) (before : x.last.sda = true)
    (after : w.sda = false) : x.step w = ⟨w, none, x.out ++ [.start]⟩ := by
  simp [step, nextPending, reads, high, high', before, after]

/-- A STOP. -/
theorem step_stop (high : x.last.scl = true) (high' : w.scl = true) (before : x.last.sda = false)
    (after : w.sda = true) : x.step w = ⟨w, none, x.out ++ [.stop]⟩ := by
  simp [step, nextPending, reads, high, high', before, after]

/-- With the clock high nothing but START and STOP is read. -/
theorem reads_high (high : x.last.scl = true) (high' : w.scl = true) (moves : x.reads w ≠ []) :
    x.reads w = [.start] ∨ x.reads w = [.stop] := by
  rw [reads, high, high'] at moves ⊢
  dsimp only at moves ⊢
  split_ifs at moves ⊢
  · exact absurd rfl moves
  · exact Or.inr rfl
  · exact Or.inl rfl

/-! ## The wired AND -/

theorem clean_glitch (p : Prop) [Decidable p] : clean (if p then [] else [.glitch]) = [] := by
  split <;> rfl

theorem clean_glitch_atLevel (p : Prop) [Decidable p] (level : Bool) :
    clean ((if p then [] else [.glitch] : List Symbol).map (Symbol.atLevel level)) = [] := by
  split <;> rfl

/-- **The wired AND**: what one more pair of levels shows to a listener `y` on the lines and to one
`x` who does not see that somebody else pulls the data line low. -/
theorem reads_pulled {y : Reader} {pull pull' : Bool} (last : y.last = x.last.pulled pull)
    (pending : y.pending = x.pending.map fun b => b && !pull)
    (level : ∀ b, x.pending = some b → x.last.sda = b)
    (keeps : x.last.scl = true → w.scl = true → pull' = pull)
    (quiet : x.last.scl = true → w.scl = true → x.last.sda ≠ w.sda → pull = false) :
    clean (y.reads (w.pulled pull')) = clean ((x.reads w).map (Symbol.atLevel y.last.sda)) ∧
      y.nextPending (w.pulled pull') = (x.nextPending w).map fun b => b && !pull' := by
  rw [reads, reads, nextPending, nextPending, last, Levels.pulled, Levels.pulled]
  cases before : x.last.scl with
  | false =>
    cases now : w.scl with
    | false => exact ⟨rfl, rfl⟩
    | true => exact ⟨(clean_glitch _).trans (clean_glitch_atLevel _ _).symm, rfl⟩
  | true =>
    cases now : w.scl with
    | false =>
      -- the bit is over; a glitch on one side need not be one on the other
      refine ⟨?_, rfl⟩
      dsimp only
      rw [List.map_append, clean_append, clean_append, clean_glitch, clean_glitch_atLevel, pending]
      cases bit : x.pending with
      | none => rfl
      | some b =>
        rw [level b bit]
        rfl
    | true =>
      obtain rfl := keeps before now
      dsimp only
      by_cases same : x.last.sda = w.sda
      · have same' : (x.last.sda && !pull') = (w.sda && !pull') := by rw [same]
        rw [if_pos same, if_pos same, if_pos same', if_pos same', pending]
        exact ⟨rfl, rfl⟩
      · rw [quiet before now same, Bool.not_false, Bool.and_true, Bool.and_true, if_neg same,
          if_neg same, if_neg same]
        cases w.sda <;> exact ⟨rfl, rfl⟩

end Reader

end TwoWire

end Rockling
