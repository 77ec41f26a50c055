import Mathlib.Data.BitVec
import Mathlib.Tactic.Common

/-!
# Bytes, words and byte order

Memory as seen by a C program: buffers of bytes, and 32-bit words whose bytes lie in the order of
the host. `be32toh` and `htobe32` make the order of the host disappear: a big-endian word comes out
the same on every host (`be32toh_load`, `store_htobe32`).
-/

namespace Rockling

/-- A byte. -/
abbrev Byte := BitVec 8

/-- A buffer of `n` bytes. -/
abbrev Buffer (n : ℕ) := Fin n → Byte

/-- The byte order of a host. -/
inductive Endian where
  | little
  | big
  deriving DecidableEq, Repr

/-- The word that four bytes spell, most significant byte first. -/
def bigEndian (b0 b1 b2 b3 : Byte) : BitVec 32 := b0 ++ b1 ++ b2 ++ b3

/-- The bytes of a word in the reverse order. -/
def byteSwap (w : BitVec 32) : BitVec 32 :=
  bigEndian (w.extractLsb' 0 8) (w.extractLsb' 8 8) (w.extractLsb' 16 8) (w.extractLsb' 24 8)

namespace Endian

/-- The word that a host reads from four consecutive bytes of its memory. -/
def load : Endian → Byte → Byte → Byte → Byte → BitVec 32
  | little, b0, b1, b2, b3 => bigEndian b3 b2 b1 b0
  | big, b0, b1, b2, b3 => bigEndian b0 b1 b2 b3

/-- The bytes that a host writes for a word. -/
def store : Endian → BitVec 32 → List Byte
  | little, w => [w.extractLsb' 0 8, w.extractLsb' 8 8, w.extractLsb' 16 8, w.extractLsb' 24 8]
  | big, w => [w.extractLsb' 24 8, w.extractLsb' 16 8, w.extractLsb' 8 8, w.extractLsb' 0 8]

/-- `be32toh` on the host. -/
def be32toh : Endian → BitVec 32 → BitVec 32
  | little, w => byteSwap w
  | big, w => w

/-- `htobe32` on the host. -/
def htobe32 : Endian → BitVec 32 → BitVec 32
  | little, w => byteSwap w
  | big, w => w

end Endian

/-- The bytes of a word spelled by four. -/
theorem extract_bigEndian (b0 b1 b2 b3 : Byte) :
    (bigEndian b0 b1 b2 b3).extractLsb' 0 8 = b3 ∧ (bigEndian b0 b1 b2 b3).extractLsb' 8 8 = b2 ∧
      (bigEndian b0 b1 b2 b3).extractLsb' 16 8 = b1 ∧
      (bigEndian b0 b1 b2 b3).extractLsb' 24 8 = b0 := by
  refine ⟨?_, ?_, ?_, ?_⟩ <;>
    · ext i hi
      simp only [bigEndian, BitVec.getElem_extractLsb', BitVec.getLsbD_append]
      grind

/-- A big-endian word in memory is read as what it spells. -/
theorem be32toh_load (host : Endian) (b0 b1 b2 b3 : Byte) :
    host.be32toh (host.load b0 b1 b2 b3) = bigEndian b0 b1 b2 b3 := by
  cases host with
  | big => rfl
  | little =>
    obtain ⟨h0, h1, h2, h3⟩ := extract_bigEndian b3 b2 b1 b0
    simp only [Endian.be32toh, Endian.load, byteSwap, h0, h1, h2, h3]

/-- A word is written to memory most significant byte first. -/
theorem store_htobe32 (host : Endian) (w : BitVec 32) :
    host.store (host.htobe32 w) = Endian.big.store w := by
  cases host with
  | big => rfl
  | little =>
    obtain ⟨h0, h1, h2, h3⟩ := extract_bigEndian (w.extractLsb' 0 8) (w.extractLsb' 8 8)
      (w.extractLsb' 16 8) (w.extractLsb' 24 8)
    simp only [Endian.store, Endian.htobe32, byteSwap, h0, h1, h2, h3]

/-- `memcpy` of `src` into a buffer from an offset on. -/
def memcpy {n : ℕ} (buf : Buffer n) (offset : ℕ) (src : List Byte) : Buffer n :=
  fun i => if offset ≤ i then src[i - offset]?.getD (buf i) else buf i

section Memcpy

variable {n : ℕ} {buf : Buffer n} {offset : ℕ} {src : List Byte} {i : Fin n}

theorem memcpy_before (h : i < offset) : memcpy buf offset src i = buf i := by
  rw [memcpy, if_neg (by omega)]

theorem memcpy_inside {k : ℕ} (hk : k < src.length) (hi : (i : ℕ) = offset + k) :
    memcpy buf offset src i = src[k] := by
  have hsub : (i : ℕ) - offset = k := by omega
  rw [memcpy, if_pos (by omega), hsub, List.getElem?_eq_getElem hk, Option.getD_some]

end Memcpy

end Rockling
