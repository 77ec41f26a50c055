import Mathlib.Data.Nat.Init
import Mathlib.Order.Nat
import Mathlib.Tactic.Common

/-!
# Progress along infinite runs

Properties of the clocks of a run that hold again and again, and the rule that turns them into
progress: a phase in which a rank never rises, and falls at every tick, comes to its end.
-/

namespace Rockling

/-- `P` holds again and again. -/
def Recurs (P : ℕ → Prop) : Prop := ∀ t, ∃ u, t ≤ u ∧ P u

/-- What may happen in one clock of the phase `P`: it ends in `Q`, or goes on with a rank that does
not rise and that falls at a tick. -/
def Nears (P Q tick : ℕ → Prop) (rank : ℕ → ℕ) : Prop :=
  ∀ t, P t → Q (t + 1) ∨ (P (t + 1) ∧ rank (t + 1) ≤ rank t ∧ (tick t → rank (t + 1) < rank t))

variable {P Q tick : ℕ → Prop} {rank : ℕ → ℕ}

/-- Up to any later clock the phase ends, or lasts with a rank that has not risen. -/
theorem Nears.lasts (nears : Nears P Q tick rank) {t u : ℕ} (here : P t) (later : t ≤ u) :
    (∃ w, t < w ∧ Q w ∧ ∀ v, t ≤ v → v < w → P v) ∨
      ((∀ v, t ≤ v → v ≤ u → P v) ∧ rank u ≤ rank t) := by
  induction u, later using Nat.le_induction with
  | base => exact Or.inr ⟨fun v low high => le_antisymm low high ▸ here, le_rfl⟩
  | succ u later ih =>
    rcases ih with ended | ⟨all, le⟩
    · exact Or.inl ended
    · rcases nears u (all u later le_rfl) with ended | ⟨going, le', -⟩
      · exact Or.inl ⟨u + 1, by omega, ended, fun v low high => all v low (by omega)⟩
      · refine Or.inr ⟨fun v low high => ?_, le'.trans le⟩
        rcases Nat.lt_or_ge u v with new | old
        · rwa [show v = u + 1 by omega]
        · exact all v low old

/-- **Progress.** A phase that a recurring tick brings nearer to its end comes to its end. -/
theorem Recurs.leads_to (ticks : Recurs tick) (nears : Nears P Q tick rank) {t : ℕ} (here : P t) :
    ∃ u, t < u ∧ Q u ∧ ∀ v, t ≤ v → v < u → P v := by
  induction bound : rank t using Nat.strong_induction_on generalizing t with
  | h n ih =>
    obtain ⟨u, later, ticked⟩ := ticks t
    rcases nears.lasts here later with ended | ⟨all, le⟩
    · exact ended
    · rcases nears u (all u later le_rfl) with ended | ⟨going, -, lt⟩
      · exact ⟨u + 1, by omega, ended, fun v low high => all v low (by omega)⟩
      · obtain ⟨w, after, ended, rest⟩ := ih (rank (u + 1)) (by have := lt ticked; omega) going rfl
        refine ⟨w, by omega, ended, fun v low high => ?_⟩
        rcases Nat.lt_or_ge u v with new | old
        · exact rest v (by omega) high
        · exact all v low old

/-- A phase that only a recurring tick ends comes to its end. -/
theorem Recurs.ends (ticks : Recurs tick) (stays : ∀ t, P t → ¬ tick t → P (t + 1))
    (ends : ∀ t, P t → tick t → Q (t + 1)) {t : ℕ} (here : P t) : ∃ u, t < u ∧ Q u := by
  have nears : Nears P Q tick fun _ => 0 := by
    intro u during
    by_cases ticked : tick u
    · exact Or.inl (ends u during ticked)
    · exact Or.inr ⟨stays u during ticked, le_rfl, fun h => absurd h ticked⟩
  obtain ⟨u, later, ended, -⟩ := ticks.leads_to nears here
  exact ⟨u, later, ended⟩

/-- What only changes in a clock of `P` stays as it is up to the first one, or for ever. -/
theorem stays_until {α : Type*} (f : ℕ → α) (P : ℕ → Prop) {a : ℕ}
    (keeps : ∀ t, a ≤ t → f t = f a → ¬ P t → f (t + 1) = f a) :
    (∃ u, a ≤ u ∧ P u ∧ (∀ t, a ≤ t → t ≤ u → f t = f a) ∧ ∀ t, a ≤ t → t < u → ¬ P t) ∨
      ∀ t, a ≤ t → f t = f a ∧ ¬ P t := by
  have stays : ∀ u, a ≤ u → (∀ t, a ≤ t → t < u → ¬ P t) → f u = f a := by
    intro u later never
    induction u, later using Nat.le_induction with
    | base => rfl
    | succ u later ih =>
      exact keeps u later (ih fun t low high => never t low (by omega)) (never u later (by omega))
  by_cases some : ∃ u, a ≤ u ∧ P u
  · classical
    have least := fun t (low : a ≤ t) (high : t < Nat.find some) (here : P t) =>
      Nat.find_min some high ⟨low, here⟩
    obtain ⟨later, here⟩ := Nat.find_spec some
    exact Or.inl ⟨Nat.find some, later, here, fun t low high =>
      stays t low fun y from' before => least y from' (by omega), least⟩
  · have never := fun t (low : a ≤ t) (here : P t) => some ⟨t, low, here⟩
    exact Or.inr fun t low => ⟨stays t low fun y from' _ => never y from', never t low⟩

/-- A run that gets from each stage of a sequence to the next in at least one clock gets to every
stage, and not before as many clocks. -/
theorem visits {R : ℕ → ℕ → Prop} (start : R 0 0)
    (next : ∀ t i, R t i → ∃ u, t < u ∧ R u (i + 1)) : ∀ i, ∃ t, i ≤ t ∧ R t i := by
  intro i
  induction i with
  | zero => exact ⟨0, le_rfl, start⟩
  | succ i ih =>
    obtain ⟨t, late, here⟩ := ih
    obtain ⟨u, later, there⟩ := next t i here
    exact ⟨u, by omega, there⟩

/-- `P` holds in one of the clocks from `a` to before `b`. -/
def Within (P : ℕ → Prop) (a b : ℕ) : Prop := ∃ t, a ≤ t ∧ t < b ∧ P t

theorem Within.append {a b c : ℕ} (low : a ≤ b) (high : b ≤ c) :
    Within P a c ↔ Within P a b ∨ Within P b c := by
  constructor
  · rintro ⟨t, after, before, here⟩
    rcases Nat.lt_or_ge t b with first | second
    · exact Or.inl ⟨t, after, first, here⟩
    · exact Or.inr ⟨t, second, before, here⟩
  · rintro (⟨t, after, before, here⟩ | ⟨t, after, before, here⟩)
    · exact ⟨t, after, by omega, here⟩
    · exact ⟨t, by omega, before, here⟩

/-- A counter that falls in every clock reaches zero. -/
theorem reaches_zero (count : ℕ → ℕ) {t : ℕ}
    (falls : ∀ u, t ≤ u → count u ≠ 0 → count (u + 1) + 1 = count u) :
    ∃ u, t ≤ u ∧ count u = 0 := by
  by_contra never
  have never : ∀ u, t ≤ u → count u ≠ 0 := fun u later zero => never ⟨u, later, zero⟩
  have all : ∀ n, count (t + n) + n = count t := by
    intro n
    induction n with
    | zero => rfl
    | succ n ih =>
      have next : count (t + (n + 1)) + 1 = count (t + n) :=
        falls (t + n) (Nat.le_add_right t n) (never _ (Nat.le_add_right t n))
      omega
  have := all (count t + 1)
  omega

end Rockling
