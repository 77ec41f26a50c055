import Rockling.Lib.TwoWire
import Mathlib.Data.BitVec

/-!
# Devices on a two-wire bus

A device hears the symbols on the wires one at a time. It counts the bits since the last START:
eight make a byte, the ninth is the answer to it. In bytes that it sends it pulls the data line low
for every 0, in the others it pulls it low for the answer if it acknowledges the byte.

What a controller shows and what is on the wires differ in the levels of the bits, since the line is
a wired AND (`Target.serve`). A byte that the controller writes is on the wires as it is, with the
answer of the device (`serve_written`); where it releases the line for a byte, the byte of the
device is (`serve_given`).
-/

namespace Rockling

namespace TwoWire

/-- The bits of a byte, most significant first. -/
def byteBits (b : BitVec 8) : List Bool := (List.range 8).map b.getMsbD

/-- The byte that bits spell. -/
def byteOf (bits : List Bool) : BitVec 8 := bits.foldl BitVec.shiftConcat 0

@[simp] theorem length_byteBits (b : BitVec 8) : (byteBits b).length = 8 := rfl

theorem byteOf_byteBits : ∀ b : BitVec 8, byteOf (byteBits b) = b := by
  decide +kernel

/-- A device as seen byte by byte. -/
structure Device (σ : Type*) where
  start : σ → σ
  stop : σ → σ
  /-- The next byte is sent by the device. -/
  sends : σ → Bool
  /-- The byte that it sends. -/
  byte : σ → BitVec 8
  /-- It acknowledges a byte. -/
  acks : σ → BitVec 8 → Bool
  /-- It has been sent a byte. -/
  took : σ → BitVec 8 → σ
  /-- It has sent a byte, which was answered with this level. -/
  gave : σ → Bool → σ

/-- A device on the wires, with the bits of the current byte. -/
structure Target (σ : Type*) where
  dev : σ
  bits : List Bool

namespace Target

variable {σ : Type*} (d : Device σ)

/-- It pulls the data line low in the next bit. -/
def pulls (x : Target σ) : Bool :=
  if x.bits.length < 8 then d.sends x.dev && !(d.byte x.dev).getMsbD x.bits.length
  else !d.sends x.dev && d.acks x.dev (byteOf x.bits)

/-- A symbol on the wires. -/
def step (x : Target σ) : Symbol → Target σ
  | .start => ⟨d.start x.dev, []⟩
  | .stop => ⟨d.stop x.dev, []⟩
  | .glitch => x
  | .bit level =>
    if x.bits.length < 8 then ⟨x.dev, x.bits ++ [level]⟩
    else if d.sends x.dev then ⟨d.gave x.dev level, []⟩
    else ⟨d.took x.dev (byteOf x.bits), []⟩

/-- After these symbols on the wires. -/
def after (x : Target σ) (wires : List Symbol) : Target σ := wires.foldl (step d) x

/-- What is on the wires when the controller shows a symbol. -/
def onWires (x : Target σ) : Symbol → Symbol
  | .bit level => .bit (level && !x.pulls d)
  | symbol => symbol

/-- What is on the wires when the controller shows these symbols, and the device after them. -/
def serve (x : Target σ) : List Symbol → List Symbol × Target σ
  | [] => ([], x)
  | symbol :: shown =>
    let wires := x.onWires d symbol
    let rest := (x.step d wires).serve shown
    (wires :: rest.1, rest.2)

variable {d} {x : Target σ} {s : σ}

/-- Glitches are nothing to a device. -/
theorem after_clean (symbols : List Symbol) : x.after d (clean symbols) = x.after d symbols := by
  induction symbols generalizing x with
  | nil => rfl
  | cons symbol symbols ih =>
    cases symbol with
    | glitch => exact ih
    | start => exact ih
    | stop => exact ih
    | bit level => exact ih

theorem serve_append (shown shown' : List Symbol) : x.serve d (shown ++ shown') =
    ((x.serve d shown).1 ++ ((x.serve d shown).2.serve d shown').1,
      ((x.serve d shown).2.serve d shown').2) := by
  induction shown generalizing x with
  | nil => rfl
  | cons symbol shown ih =>
    rw [List.cons_append, serve, ih]
    rfl

/-- The device knows nothing but the wires. -/
theorem serve_snd (shown : List Symbol) : (x.serve d shown).2 = x.after d (x.serve d shown).1 := by
  induction shown generalizing x with
  | nil => rfl
  | cons symbol shown ih =>
    rw [serve, after, List.foldl_cons]
    exact ih

/-- The device behind a listener: where the line is low in a bit just if the controller or the
device pulls it low, what is on the wires is what the listener reads, with the levels of the line.
-/
theorem serve_reads {y : Reader} {w : Levels} {level : Bool}
    (line : ∀ b, y.last.scl = true → y.pending = some b → level = (b && !x.pulls d)) :
    (x.serve d (y.reads w)).1 = (y.reads w).map (Symbol.atLevel level) := by
  have bits (high : y.last.scl = true) : (x.serve d (y.pending.toList.map .bit)).1 =
      (y.pending.toList.map Symbol.bit).map (Symbol.atLevel level) := by
    cases pending : y.pending with
    | none => rfl
    | some b =>
      rw [line b high pending]
      rfl
  rw [Reader.reads]
  split
  · rfl
  · split_ifs <;> rfl
  · split_ifs <;> rfl
  · next high _ =>
    split_ifs
    · exact bits high
    · rw [serve_append, List.map_append]
      exact congrArg (.glitch :: ·) (bits high)

/-! ## Bytes -/

/-- While the device receives, the bits of the controller are on the wires. -/
theorem serve_receives (receives : d.sends s = false) {bits data : List Bool}
    (room : bits.length + data.length ≤ 8) :
    (Target.mk s bits).serve d (data.map .bit) = (data.map .bit, ⟨s, bits ++ data⟩) := by
  induction data generalizing bits with
  | nil => rw [List.append_nil]; rfl
  | cons b data ih =>
    rw [List.length_cons] at room
    have inside : bits.length < 8 := by omega
    have wires : (Target.mk s bits).onWires d (.bit b) = .bit b := by
      simp [onWires, pulls, receives, inside]
    have next : (Target.mk s bits).step d (.bit b) = ⟨s, bits ++ [b]⟩ := if_pos inside
    have room' : (bits ++ [b]).length + data.length ≤ 8 := by
      rw [List.length_append, List.length_singleton]
      omega
    rw [List.map_cons, serve, wires, next, ih room', List.append_assoc]
    rfl

/-- **A byte that the controller writes** is on the wires as it is, with the answer of the device.
-/
theorem serve_written (receives : d.sends s = false) (b : BitVec 8) :
    (Target.mk s []).serve d ((byteBits b).map .bit ++ [.bit true]) =
      ((byteBits b).map .bit ++ [.bit (!d.acks s b)], ⟨d.took s b, []⟩) := by
  have full : ¬ ([] ++ byteBits b).length < 8 := Nat.lt_irrefl 8
  have wires : (Target.mk s ([] ++ byteBits b)).onWires d (.bit true) = .bit (!d.acks s b) := by
    rw [onWires, pulls, if_neg full, receives, List.nil_append, byteOf_byteBits]
    rfl
  have next : (Target.mk s ([] ++ byteBits b)).step d (.bit (!d.acks s b)) =
      ⟨d.took s b, []⟩ := by
    rw [step, if_neg full, receives, List.nil_append, byteOf_byteBits]
    rfl
  have data : (Target.mk s []).serve d ((byteBits b).map .bit) = _ :=
    serve_receives receives (Nat.le_refl 8)
  rw [serve_append, data, serve, wires, next]
  rfl

/-- While the device sends, the bits of its byte are on the released wires. -/
theorem serve_sends (sends : d.sends s = true) {n k : ℕ} (whole : k + n = 8) :
    (Target.mk s ((byteBits (d.byte s)).take k)).serve d (List.replicate n (.bit true)) =
      (((byteBits (d.byte s)).drop k).map .bit, ⟨s, byteBits (d.byte s)⟩) := by
  induction n generalizing k with
  | zero =>
    obtain rfl : k = 8 := whole
    rfl
  | succ n ih =>
    have below : k < (byteBits (d.byte s)).length := by rw [length_byteBits]; omega
    have length : ((byteBits (d.byte s)).take k).length = k :=
      List.length_take_of_le below.le
    have bit : (byteBits (d.byte s))[k] = (d.byte s).getMsbD k := by
      simp [byteBits]
    have wires : (Target.mk s ((byteBits (d.byte s)).take k)).onWires d (.bit true) =
        .bit (byteBits (d.byte s))[k] := by
      rw [onWires, pulls, length, if_pos (by omega), sends, bit, Bool.true_and, Bool.true_and,
        Bool.not_not]
    have next : (Target.mk s ((byteBits (d.byte s)).take k)).step d
        (.bit (byteBits (d.byte s))[k]) = ⟨s, (byteBits (d.byte s)).take (k + 1)⟩ := by
      rw [step, length, if_pos (by omega), List.take_succ_eq_append_getElem below]
    rw [List.replicate_succ, serve, wires, next, ih (by omega),
      List.drop_eq_getElem_cons below]
    rfl

/-- **Where the controller releases the line for a byte**, the byte of the device is on the wires,
with the answer of the controller. -/
theorem serve_given (sends : d.sends s = true) (level : Bool) :
    (Target.mk s []).serve d (List.replicate 8 (.bit true) ++ [.bit level]) =
      ((byteBits (d.byte s)).map .bit ++ [.bit level], ⟨d.gave s level, []⟩) := by
  have full : ¬ (byteBits (d.byte s)).length < 8 := Nat.lt_irrefl 8
  have wires : (Target.mk s (byteBits (d.byte s))).onWires d (.bit level) = .bit level := by
    rw [onWires, pulls, if_neg full, sends]
    cases level <;> rfl
  have next : (Target.mk s (byteBits (d.byte s))).step d (.bit level) = ⟨d.gave s level, []⟩ := by
    rw [step, if_neg full, if_pos sends]
  have data := serve_sends (k := 0) sends (Nat.zero_add 8)
  rw [List.take_zero, List.drop_zero] at data
  rw [serve_append, data, serve, wires, next]
  rfl

end Target

end TwoWire

end Rockling
