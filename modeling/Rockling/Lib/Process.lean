import Rockling.Lib.Clocked
import Rockling.Lib.Interaction

/-!
# Processes

A `Process` calls an interface like a `Prog` does, but it may loop for ever: it is a machine that in
each state has either returned or makes one more call. An environment answers every call, so an
execution is a `ClockedRun` whose clocks are the calls. Termination is a statement about executions
(`Returns`), and an invariant of the states that have not returned refutes it (`not_returns`).
-/

namespace Rockling

/-- What a process does next: it has returned, or it makes a call and goes on with the reply. -/
inductive Next (S : Signature) (α σ : Type) where
  | returned (a : α)
  | call (o : S.Op) (k : S.Reply o → σ)

/-- A process with states `σ`. -/
structure Process (S : Signature) (α σ : Type) where
  next : σ → Next S α σ

/-- The replies to whatever is called. -/
abbrev Replies (S : Signature) := (o : S.Op) → S.Reply o

namespace Process

variable {S : Signature} {α σ : Type} (p : Process S α σ)

/-- One call; a process that has returned stays as it is. -/
def step (s : σ) (replies : Replies S) : σ :=
  match p.next s with
  | .returned _ => s
  | .call o k => k (replies o)

/-- The execution from a state in an environment that answers the calls in turn. -/
def exec (s : σ) (env : ℕ → Replies S) : ClockedRun p.step := .ofInputs p.step s env

variable {p}

theorem step_returned {s : σ} {a : α} (h : p.next s = .returned a) (replies : Replies S) :
    p.step s replies = s := by
  rw [step, h]

theorem step_call {s : σ} {o : S.Op} {k : S.Reply o → σ} (h : p.next s = .call o k)
    (replies : Replies S) : p.step s replies = k (replies o) := by
  rw [step, h]

/-- The execution returns `a` after finitely many calls. -/
def Returns (r : ClockedRun p.step) (a : α) : Prop := ∃ n, p.next (r.st n) = .returned a

/-- A process that has returned makes no more calls. -/
theorem stays_returned (r : ClockedRun p.step) {n : ℕ} {a : α} (h : p.next (r.st n) = .returned a) :
    ∀ m, n ≤ m → r.st m = r.st n := by
  intro m hnm
  induction m, hnm using Nat.le_induction with
  | base => rfl
  | succ m _ ih => rw [r.next, ih, step_returned h]

/-- What holds after some call, survives every later one and is incompatible with having returned
keeps an execution from returning. -/
theorem not_returns (r : ClockedRun p.step) {P : σ → Prop} {n : ℕ} (h0 : P (r.st n))
    (hstep : ∀ m, n ≤ m → P (r.st m) → P (r.st (m + 1)))
    (hcalls : ∀ s a, P s → p.next s ≠ .returned a) (a : α) : ¬ Returns r a := by
  rintro ⟨m, hm⟩
  have hall : ∀ m, n ≤ m → P (r.st m) :=
    ClockedRun.invariant_from r h0 fun m hnm hP => r.next m ▸ hstep m hnm hP
  rcases Nat.le_total n m with hnm | hmn
  · exact hcalls _ a (hall m hnm) hm
  · refine hcalls _ a h0 ?_
    rw [stays_returned r hm n hmn]
    exact hm

end Process

end Rockling
