import Mathlib.Data.List.Basic
import Mathlib.Tactic.Common

/-!
# Synchronous FIFOs

The contract of a clocked queue with a write port and a read port, whatever holds its words. In each
clock the word on offer at the write port is accepted if the queue is writable and lost otherwise,
and a read takes the word shown at the output if the queue is readable and nothing otherwise.
-/

namespace Rockling

/-- A clocked FIFO on states `σ`. `contents` lists the words it holds, oldest first; it accepts
every word while it holds fewer than `depth`, and never holds more than `capacity`. -/
structure Fifo (σ α : Type*) where
  init : σ
  step : σ → Bool → α → Bool → σ
  writable : σ → Bool
  readable : σ → Bool
  dout : σ → α
  contents : σ → List α
  depth : ℕ
  capacity : ℕ
  contents_init : contents init = []
  /-- What is read and what is left is what was there and what is accepted. -/
  conserves : ∀ s we din re,
    (if re && readable s then [dout s] else []) ++ contents (step s we din re) =
      contents s ++ if we && writable s then [din] else []
  /-- A word on show stays there until it is read. -/
  stays : ∀ s we din, readable s = true → readable (step s we din false) = true
  room : ∀ s, (contents s).length < depth → writable s = true
  bounded : ∀ s, (contents s).length ≤ capacity

/-- A FIFO that wastes no clock: room stays until a word is offered, and a word it holds is on show
in the next clock unless one is read. -/
structure Fifo.Prompt {σ α : Type*} (f : Fifo σ α) : Prop where
  keeps : ∀ s din re, f.writable s = true → f.writable (f.step s false din re) = true
  shows : ∀ s we din, f.contents s ≠ [] → f.readable (f.step s we din false) = true

namespace Fifo

variable {σ α : Type*} (f : Fifo σ α) (s : σ)

/-- A clock without a read only appends. -/
theorem contents_write (we : Bool) (din : α) : f.contents (f.step s we din false) =
    f.contents s ++ if we && f.writable s then [din] else [] := by
  have h := f.conserves s we din false
  rwa [Bool.false_and, if_neg Bool.false_ne_true, List.nil_append] at h

/-- A clock with a read of a readable queue also removes the word on show. -/
theorem contents_read (we : Bool) (din : α) (hr : f.readable s = true) :
    f.dout s :: f.contents (f.step s we din true) =
      f.contents s ++ if we && f.writable s then [din] else [] := by
  have h := f.conserves s we din true
  rwa [Bool.true_and, if_pos hr, List.singleton_append] at h

/-- A readable queue holds the word on show. -/
theorem contents_ne_nil (hr : f.readable s = true) : f.contents s ≠ [] := by
  intro hnil
  have h := f.conserves s false (f.dout s) true
  rw [hr, hnil] at h
  cases h

end Fifo

end Rockling
