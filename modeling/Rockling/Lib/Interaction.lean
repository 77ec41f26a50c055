import Mathlib.Tactic.Common

/-!
# Programs that call an interface

`Prog S α` is a program that calls the operations of a signature `S` and returns an `α`: a finitely
deep tree that branches on the replies. What the operations do is left to whoever runs it. `run`
gives them a meaning in a state, `translate` implements them by programs over a lower signature, and
the two agree (`run_translate`), so a stack of drivers can be reasoned about one layer at a time.
-/

namespace Rockling

/-- The operations of an interface and the replies to each. -/
structure Signature where
  Op : Type
  Reply : Op → Type

/-- A program over an interface. -/
inductive Prog (S : Signature) (α : Type) : Type where
  | ret (a : α)
  | call (o : S.Op) (k : S.Reply o → Prog S α)

namespace Prog

variable {S T : Signature} {α β γ σ : Type}

/-- Run `p`, then `f` on its result. -/
def bind : Prog S α → (α → Prog S β) → Prog S β
  | ret a, f => f a
  | call o k, f => call o fun r => (k r).bind f

instance : Monad (Prog S) where
  pure := ret
  bind := bind

/-- The program that makes one call. -/
def op (o : S.Op) : Prog S (S.Reply o) := call o ret

@[simp] theorem pure_eq (a : α) : (pure a : Prog S α) = ret a := rfl

@[simp] theorem ret_bind (a : α) (f : α → Prog S β) : (ret a >>= f) = f a := rfl

@[simp] theorem call_bind (o : S.Op) (k : S.Reply o → Prog S α) (f : α → Prog S β) :
    (call o k >>= f) = call o fun r => k r >>= f := rfl

@[simp] theorem op_bind (o : S.Op) (f : S.Reply o → Prog S β) : (op o >>= f) = call o f := rfl

theorem bind_ret (p : Prog S α) : (p >>= ret) = p := by
  induction p with
  | ret a => rfl
  | call o k ih => exact congrArg (call o) (funext ih)

theorem bind_assoc (p : Prog S α) (f : α → Prog S β) (g : β → Prog S γ) :
    (p >>= f >>= g) = p >>= fun a => f a >>= g := by
  induction p with
  | ret a => rfl
  | call o k ih => exact congrArg (call o) (funext ih)

/-- The meaning of a program once every operation acts on a state `σ`. -/
def run (h : (o : S.Op) → σ → S.Reply o × σ) : Prog S α → σ → α × σ
  | ret a, s => (a, s)
  | call o k, s => (k (h o s).1).run h (h o s).2

section Run

variable (h : (o : S.Op) → σ → S.Reply o × σ)

@[simp] theorem run_ret (a : α) (s : σ) : (ret a : Prog S α).run h s = (a, s) := rfl

@[simp] theorem run_call (o : S.Op) (k : S.Reply o → Prog S α) (s : σ) :
    (call o k).run h s = (k (h o s).1).run h (h o s).2 := rfl

@[simp] theorem run_ite (c : Prop) [Decidable c] (p q : Prog S α) (s : σ) :
    (if c then p else q).run h s = if c then p.run h s else q.run h s := by
  split <;> rfl

theorem run_bind (p : Prog S α) (f : α → Prog S β) (s : σ) :
    (p >>= f).run h s = (f (p.run h s).1).run h (p.run h s).2 := by
  induction p generalizing s with
  | ret a => rfl
  | call o k ih => exact ih _ _

end Run

/-- Every point that the program can come to satisfies `Q`. -/
def Always (Q : Prog S α → Prop) : Prog S α → Prop
  | ret a => Q (ret a)
  | call o k => Q (call o k) ∧ ∀ r, (k r).Always Q

theorem Always.here {Q : Prog S α → Prop} {p : Prog S α} (h : p.Always Q) : Q p := by
  cases p with
  | ret a => exact h
  | call o k => exact h.1

/-- A program that makes these calls, gets these replies to them, and then returns `a`. -/
inductive Path : Prog S α → List ((o : S.Op) × S.Reply o) → α → Prop
  | ret (a : α) : Path (ret a) [] a
  | call {o : S.Op} {k : S.Reply o → Prog S α} {r : S.Reply o} {log : List ((o : S.Op) × S.Reply o)}
      {a : α} (rest : Path (k r) log a) : Path (call o k) (⟨o, r⟩ :: log) a

/-- Implement every operation of `S` by a program over `T`. -/
def translate (f : (o : S.Op) → Prog T (S.Reply o)) : Prog S α → Prog T α
  | ret a => ret a
  | call o k => f o >>= fun r => (k r).translate f

/-- Running an implementation is running the program with every operation given the meaning of its
implementation. -/
theorem run_translate (f : (o : S.Op) → Prog T (S.Reply o)) (h : (o : T.Op) → σ → T.Reply o × σ)
    (p : Prog S α) (s : σ) : (p.translate f).run h s = p.run (fun o => (f o).run h) s := by
  induction p generalizing s with
  | ret a => rfl
  | call o k ih =>
    rw [translate, run_bind, run_call]
    exact ih _ _

/-- Implement every operation of `S` by a program over `T` that also keeps a state of its own. -/
def translateWith (f : (o : S.Op) → γ → Prog T (S.Reply o × γ)) : Prog S α → γ → Prog T (α × γ)
  | ret a, c => ret (a, c)
  | call o k, c => f o c >>= fun r => (k r.1).translateWith f r.2

/-- Such an implementation runs as the program does on both states at once. -/
theorem run_translateWith (f : (o : S.Op) → γ → Prog T (S.Reply o × γ))
    (h : (o : T.Op) → σ → T.Reply o × σ) (both : (o : S.Op) → γ × σ → S.Reply o × γ × σ)
    (agree : ∀ o c s, ((f o c).run h s).1.1 = (both o (c, s)).1 ∧
      (((f o c).run h s).1.2, ((f o c).run h s).2) = (both o (c, s)).2) (p : Prog S α) (c : γ)
    (s : σ) :
    ((p.translateWith f c).run h s).1.1 = (p.run both (c, s)).1 ∧
      (((p.translateWith f c).run h s).1.2, ((p.translateWith f c).run h s).2) =
        (p.run both (c, s)).2 := by
  induction p generalizing c s with
  | ret a => exact ⟨rfl, rfl⟩
  | call o k ih =>
    obtain ⟨reply, states⟩ := agree o c s
    rw [translateWith, run_bind, run_call, ← reply, ← states]
    exact ih _ _ _

/-- A program that cannot tell between related replies. -/
def Respects (R : (o : S.Op) → S.Reply o → S.Reply o → Prop) : Prog S α → Prop
  | ret _ => True
  | call o k => (∀ r r', R o r r' → k r = k r') ∧ ∀ r, (k r).Respects R

section Respects

variable {R : (o : S.Op) → S.Reply o → S.Reply o → Prop}

theorem Respects.bind {p : Prog S α} {f : α → Prog S β} (first : p.Respects R)
    (second : ∀ a, (f a).Respects R) : (p >>= f).Respects R := by
  induction p with
  | ret a => exact second a
  | call o k ih =>
    exact ⟨fun r r' alike => congrArg (· >>= f) (first.1 r r' alike), fun r => ih r (first.2 r)⟩

/-- One call, when related replies are the same. -/
theorem respects_op {o : S.Op} (same : ∀ r r', R o r r' → r = r') : (op o).Respects R :=
  ⟨fun r r' alike => congrArg ret (same r r' alike), fun _ => trivial⟩

end Respects

end Prog

end Rockling
