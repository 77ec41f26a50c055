import Rockling.Lib.Target
import Rockling.Rtl.Peripherals

/-!
# Devices behind the core

Devices hear nothing but the two lines (`onLines`), and pull SDA as they should (`AnswersAs`).
`wires r t` is what has been on the wires in the first `t` clocks: the symbols that the controller
shows, with the levels of the SDA line at its bits. Where the devices have let go of SDA when the
controller makes START and STOP, this is what they have heard (`Answering.onLines_eq`). They turn
what the controller shows between two clocks into what is on the wires, and are turned by it from
one state into the next (`OwnedRun.served`).
-/

namespace Rockling

open TwoWire (Symbol Levels Reader Device Target)

namespace RTLI2C

/-- What has been on the wires in the first `t` clocks. -/
def wires (r : Run) : ℕ → List Symbol
  | 0 => []
  | t + 1 => wires r t ++
      ((Reader.listen (wave r) 0 t).reads (wave r (t + 1))).map (Symbol.atLevel (r.inp t).sda)

/-- The levels of the two lines. -/
def lines (r : Run) (t : ℕ) : Levels := ⟨sclLine r t, (r.inp t).sda⟩

/-- The device `d`, which was in state `s` at power-on and hears nothing but the two lines. -/
def onLines {σ : Type*} (d : Device σ) (s : σ) (r : Run) (t : ℕ) : Target σ :=
  (Target.mk s []).after d (Reader.listen (lines r) 0 t).out

/-- While SCL is high the others pull SDA low just as the device `d` does, which was in state `s` at
power-on and hears nothing but the two lines. -/
def AnswersAs {σ : Type*} (d : Device σ) (s : σ) (r : Run) (pull : ℕ → Bool) : Prop :=
  ∀ t, sclLine r t = true → pull t = (onLines d s r t).pulls d

/-- So they do before clock `T`, for all that the controller shows. -/
def AnswersUntil {σ : Type*} (T : ℕ) (d : Device σ) (s : σ) (r : Run) (pull : ℕ → Bool) : Prop :=
  ∀ t < T, sclLine r t = true → pull t = ((Target.mk s []).after d (wires r t)).pulls d

theorem AnswersUntil.mono {σ : Type*} {d : Device σ} {s : σ} {r : Run} {pull : ℕ → Bool}
    {T T' : ℕ} (answers : AnswersUntil T d s r pull) (le : T' ≤ T) : AnswersUntil T' d s r pull :=
  fun t before => answers t (before.trans_le le)

/-- What a listener has read before a clock depends on nothing later. -/
theorem listen_congr {r r' : Run} {t : ℕ} (waves : ∀ u ≤ t, wave r u = wave r' u) :
    Reader.listen (wave r) 0 t = Reader.listen (wave r') 0 t := by
  induction t with
  | zero => rw [Reader.listen, Reader.listen, waves 0 le_rfl]
  | succ t ih =>
    rw [Reader.listen, Reader.listen, ih fun u before => waves u (by omega), Nat.zero_add,
      waves (t + 1) le_rfl]

/-- Nor does what has been on the wires. -/
theorem wires_congr {r r' : Run} {t : ℕ} (waves : ∀ u ≤ t, wave r u = wave r' u)
    (sda : ∀ u < t, (r.inp u).sda = (r'.inp u).sda) : wires r t = wires r' t := by
  induction t with
  | zero => rfl
  | succ t ih =>
    rw [wires, wires, ih (fun u before => waves u (by omega)) fun u before => sda u (by omega),
      listen_congr fun u before => waves u (by omega), waves (t + 1) le_rfl, sda t (by omega)]

/-- Nothing that is read when SCL has been low matters to a device. -/
theorem after_of_low {σ : Type*} {d : Device σ} {s : σ} {r : Run} {t : ℕ}
    (low : sclLine r t = false) :
    (Target.mk s []).after d (wires r (t + 1)) = (Target.mk s []).after d (wires r t) := by
  have last : (Reader.listen (wave r) 0 t).last.scl = false := by
    rw [Reader.listen_last, Nat.zero_add]
    exact low
  rw [wires, Reader.reads, last, Target.after, List.foldl_append]
  cases (wave r (t + 1)).scl with
  | false => rfl
  | true =>
    dsimp only
    split_ifs <;> rfl

/-! ## The two lines -/

/-- The controller moves SDA while SCL is high: it makes START or STOP. -/
def Moves (r : Run) (t : ℕ) : Prop :=
  sclLine r t = true ∧ sclLine r (t + 1) = true ∧ (r.st t).sdaOen ≠ (r.st (t + 1)).sdaOen

/-- What has been on the wires in the `n` clocks since a listener arrived in clock `a`. -/
def wiresFrom (r : Run) (a : ℕ) : ℕ → List Symbol
  | 0 => []
  | n + 1 => wiresFrom r a n ++
      ((Reader.listen (wave r) a n).reads (wave r (a + n + 1))).map
        (Symbol.atLevel (r.inp (a + n)).sda)

theorem wiresFrom_zero (r : Run) (t : ℕ) : wiresFrom r 0 t = wires r t := by
  induction t with
  | zero => rfl
  | succ t ih => rw [wiresFrom, wires, ih, Nat.zero_add]

/-- In the `n` clocks from `a` on the two lines carry these symbols, with these levels at their
bits, and glitches at most. -/
structure Carries (r : Run) (a n : ℕ) (symbols : List Symbol) (levels : List Bool) : Prop where
  symbols : (TwoWire.clean (Reader.listen (lines r) a n).out).map (Symbol.atLevel true) =
    symbols.map (Symbol.atLevel true)
  bits : bitsOf (Reader.listen (lines r) a n).out = levels

theorem bitsOf_clean (symbols : List Symbol) : bitsOf (TwoWire.clean symbols) = bitsOf symbols := by
  induction symbols with
  | nil => rfl
  | cons symbol symbols ih =>
    cases symbol with
    | bit level => exact congrArg (level :: ·) ih
    | _ => exact ih

theorem clean_atLevel (level : Bool) (symbols : List Symbol) :
    TwoWire.clean (symbols.map (Symbol.atLevel level)) =
      (TwoWire.clean symbols).map (Symbol.atLevel level) := by
  induction symbols with
  | nil => rfl
  | cons symbol symbols ih =>
    cases symbol with
    | glitch => exact ih
    | _ => exact congrArg (_ :: ·) ih

section

variable {r : Run} {pull : ℕ → Bool} {T : ℕ}

/-- Others who keep SDA while SCL is high, and have let go of it where the controller makes START
and STOP, add nothing but the levels of the bits and glitches. -/
theorem Answering.listen_lines (bus : Answering r pull) (free : ∀ t < T, Moves r t → pull t = false)
    {a n : ℕ} (before : a + n ≤ T) :
    TwoWire.clean (Reader.listen (lines r) a n).out = TwoWire.clean (wiresFrom r a n) ∧
      (Reader.listen (lines r) a n).pending =
        (Reader.listen (wave r) a n).pending.map fun b => b && !pull (a + n) := by
  have pulled (t : ℕ) : lines r t = (wave r t).pulled (pull t) := by
    rw [lines, bus.line]
    rfl
  induction n with
  | zero => exact ⟨rfl, rfl⟩
  | succ n ih =>
    obtain ⟨out, pending⟩ := ih (by omega)
    have last := Reader.listen_last (wave r) a n
    have last' := Reader.listen_last (lines r) a n
    obtain ⟨reads, next⟩ := Reader.reads_pulled (w := wave r (a + n + 1))
      (by rw [last', last, pulled]) pending (fun b => Reader.listen_pending)
      (by rw [last]; exact bus.stays (a + n))
      (by rw [last]; exact fun up up' moves => free (a + n) (by omega) ⟨up, up', moves⟩)
    rw [← pulled, last'] at reads
    rw [← pulled] at next
    refine ⟨?_, next⟩
    rw [Reader.listen, Reader.step, wiresFrom, TwoWire.clean_append, TwoWire.clean_append, out,
      reads]
    rfl

/-- What such devices hear is what is on the wires. -/
theorem Answering.onLines_eq {σ : Type*} (d : Device σ) (s : σ) (bus : Answering r pull)
    (free : ∀ t < T, Moves r t → pull t = false) {t : ℕ} (before : t ≤ T) :
    onLines d s r t = (Target.mk s []).after d (wires r t) := by
  have heard := (bus.listen_lines free (a := 0) (n := t) (by omega)).1
  rw [onLines, ← Target.after_clean, heard, Target.after_clean, wiresFrom_zero]

/-- What is on the wires are the symbols of the controller, with the levels of the line. -/
theorem wiresFrom_heard (r : Run) (a n : ℕ) :
    (wiresFrom r a n).map (Symbol.atLevel true) =
        (Reader.listen (wave r) a n).out.map (Symbol.atLevel true) ∧
      bitsOf (wiresFrom r a n) = heard r a n := by
  induction n with
  | zero => exact ⟨rfl, rfl⟩
  | succ n ih =>
    constructor
    · rw [wiresFrom, Reader.listen, Reader.step, List.map_append, List.map_append, ih.1,
        List.map_map]
      refine congrArg _ (List.map_congr_left fun symbol _ => ?_)
      cases symbol <;> rfl
    · rw [wiresFrom, heard, bitsOf_append, ih.2, bitsOf, List.filterMap_map]
      refine congrArg _ (List.filterMap_congr fun symbol _ => ?_)
      cases symbol <;> rfl

theorem glitch_notMem_wordFrame (v : BitVec 32) (txr : BitVec 8) :
    Symbol.glitch ∉ wordFrame v txr := by
  rw [wordFrame]
  cases v.getLsbD 7 <;> cases v.getLsbD 6 <;> cases v.getLsbD 5 <;> simp

/-- **The two lines carry** what the controller shows, with the levels that it hears. -/
theorem Answering.carries (bus : Answering r pull) (free : ∀ t, Moves r t → pull t = false)
    {a n : ℕ} {symbols : List Symbol} (out : (Reader.listen (wave r) a n).out = symbols)
    (none : Symbol.glitch ∉ symbols) : Carries r a n symbols (heard r a n) := by
  have lines := (bus.listen_lines (fun t _ => free t) (a := a) (n := n) le_rfl).1
  obtain ⟨shape, bits⟩ := wiresFrom_heard r a n
  constructor
  · rw [lines, ← clean_atLevel, shape, out, clean_atLevel,
      TwoWire.clean_of_notMem none]
  · rw [← bitsOf_clean, lines, bitsOf_clean, bits]

end

/-- What is on the wires in the `n` clocks from `a` on. -/
def said (r : Run) (a n : ℕ) : List Symbol :=
  collect (fun t => (r.st t).shows.map (Symbol.atLevel (r.inp t).sda)) a n

theorem bitsOf_said (r : Run) (a n : ℕ) : bitsOf (said r a n) = caught r a n := by
  induction n with
  | zero => rfl
  | succ n ih =>
    rw [said, collect, bitsOf_append, caught, collect, ← hears_eq, bitsOf, bitsOf,
      List.filterMap_map]
    refine congrArg₂ _ ih (List.filterMap_congr fun symbol _ => ?_)
    cases symbol <;> rfl

section

variable {σ : Type*} {d : Device σ} {s : σ} {p t₀ : ℕ} {hold pull : ℕ → Bool} {r : Run}

/-- What the controller has shown and the devices make what has been on the wires. -/
theorem AnswersUntil.serve {t : ℕ} (answers : AnswersUntil t d s r pull)
    (line : ∀ t, (r.inp t).sda = ((r.st t).sdaOen && !pull t)) :
    (Target.mk s []).serve d (Reader.listen (wave r) 0 t).out =
      (wires r t, (Target.mk s []).after d (wires r t)) := by
  have split (t : ℕ) (h : ((Target.mk s []).serve d (Reader.listen (wave r) 0 t).out).1 =
      wires r t) : (Target.mk s []).serve d (Reader.listen (wave r) 0 t).out =
        (wires r t, (Target.mk s []).after d (wires r t)) :=
    Prod.ext h (by rw [Target.serve_snd, h])
  refine split t ?_
  induction t with
  | zero => rfl
  | succ t ih =>
    have out : (Reader.listen (wave r) 0 (t + 1)).out = (Reader.listen (wave r) 0 t).out ++
        (Reader.listen (wave r) 0 t).reads (wave r (t + 1)) := by
      rw [Reader.listen, Nat.zero_add]
      rfl
    rw [out, Target.serve_append, split t (ih (answers.mono (Nat.le_succ t))), wires]
    refine congrArg _ (Target.serve_reads fun b high pending => ?_)
    have level := Reader.listen_pending pending
    rw [Reader.listen_last, Nat.zero_add] at high level
    rw [line, ← level, answers t (Nat.lt_succ_self t) high]
    rfl

/-- Before the core is enabled nothing is on the wires. -/
theorem EnabledRun.listen_early (run : EnabledRun p t₀ r) (scl : Stretching r hold) {t : ℕ}
    (early : t ≤ t₀) : Reader.listen (wave r) 0 t = .fresh (wave r t) := by
  have waits (u : ℕ) (before : u ≤ t₀) : wave r u = ⟨true, true⟩ := by
    obtain ⟨high, _, waiting⟩ := run.waiting scl u before
    rw [wave, high, waiting.dormant.sdaOen]
  induction t with
  | zero => rfl
  | succ t ih =>
    rw [Reader.listen, ih (by omega), Nat.zero_add, waits t (by omega), waits (t + 1) early]
    rfl

/-- A listener who is there from power-on on is told everything that the core shows. -/
theorem OwnedRun.reads_eq (run : OwnedRun p t₀ hold r) (hp : 3 ≤ p) (t : ℕ) :
    (Reader.listen (wave r) 0 t).reads (wave r (t + 1)) = (r.st t).shows := by
  have idle (u : ℕ) (before : u ≤ t₀) : (bitAt r u).cState = .idle := by
    obtain ⟨-, _, waiting⟩ := run.enabled.waiting run.scl u before
    rw [bitAt, waiting.dormant.released]
    rfl
  rcases Nat.lt_or_ge t t₀ with before | late
  · have next := congrArg Reader.out (run.enabled.listen_early run.scl (t := t + 1) before)
    rw [Reader.listen, Nat.zero_add] at next
    rw [shows_of_idle (idle t before.le)]
    exact (List.append_eq_nil_iff.mp next).2
  · obtain ⟨n, rfl⟩ := Nat.exists_eq_add_of_le late
    have fresh : Reader.listen (wave r) 0 t₀ = Reader.fresh (wave r (0 + t₀)) := by
      rw [Nat.zero_add]
      exact run.enabled.listen_early run.scl le_rfl
    have same : Reader.listen (wave r) 0 (t₀ + n) = Reader.listen (wave r) t₀ n := by
      have whole := Reader.listen_of_fresh fresh n
      rwa [Nat.zero_add] at whole
    rw [same]
    exact (run.keeps_up hp le_rfl (idle t₀ le_rfl) n).2

/-- What is on the wires is what the core shows, at the levels of the line. -/
theorem OwnedRun.wires_eq (run : OwnedRun p t₀ hold r) (hp : 3 ≤ p) (t : ℕ) :
    wires r t = said r 0 t ∧ (Reader.listen (wave r) 0 t).out = told r 0 t := by
  induction t with
  | zero => exact ⟨rfl, rfl⟩
  | succ t ih =>
    have reads := run.reads_eq hp t
    constructor
    · rw [wires, reads, ih.1, said, said, collect, Nat.zero_add]
    · have out : (Reader.listen (wave r) 0 (t + 1)).out = (Reader.listen (wave r) 0 t).out ++
          (Reader.listen (wave r) 0 t).reads (wave r (t + 1)) := by
        rw [Reader.listen, Nat.zero_add]
        rfl
      rw [out, ih.2, reads, told, told, collect, Nat.zero_add]

/-- **Devices behind the core.** What the controller shows between two clocks and the state of the
devices make what is on the wires meanwhile and the next state. -/
theorem OwnedRun.served (run : OwnedRun p t₀ hold r) (hp : 3 ≤ p)
    (line : ∀ t, (r.inp t).sda = ((r.st t).sdaOen && !pull t)) {a c : ℕ}
    (answers : AnswersUntil c d s r pull) (le : a ≤ c) :
    ((Target.mk s []).after d (wires r a)).serve d (told r a (c - a)) =
      (said r a (c - a), (Target.mk s []).after d (wires r c)) := by
  obtain ⟨wires, out⟩ := run.wires_eq hp a
  obtain ⟨wires', out'⟩ := run.wires_eq hp c
  have here := (answers.mono le).serve line
  have there := answers.serve line
  have shown : told r 0 c = told r 0 a ++ told r a (c - a) := collect_append (Nat.zero_le a) le
  have whole : RTLI2C.wires r c = RTLI2C.wires r a ++ said r a (c - a) := by
    rw [wires, wires']
    exact collect_append (Nat.zero_le a) le
  rw [out] at here
  rw [out', shown, Target.serve_append, here] at there
  obtain ⟨first, second⟩ := Prod.mk.inj there
  exact Prod.ext (List.append_cancel_left (first.trans whole)) second

end

end RTLI2C

end Rockling
