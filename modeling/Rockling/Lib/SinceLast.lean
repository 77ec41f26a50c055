import Mathlib.Data.Finset.Card
import Mathlib.Data.Finset.Range
import Mathlib.Algebra.Order.Interval.Finset.SuccPred
import Mathlib.Data.Nat.SuccPred
import Mathlib.Order.Interval.Finset.Nat

/-!
# Times since the last restart

A counter that some times advance and some restart holds the number of advancing times since the
last restart. `sinceLast` is that set of times, and there is one lemma for each way a time can
change it.
-/

namespace Rockling

/-- The times before `t` that are counted and come after the last restart before `t`. -/
def sinceLast (counts restart : ℕ → Bool) (t : ℕ) : Finset ℕ :=
  {k ∈ Finset.range t | counts k = true ∧ ∀ z ∈ Finset.range t, k ≤ z → restart z = false}

section SinceLast

variable {counts restart : ℕ → Bool} {t : ℕ}

theorem not_mem_sinceLast : t ∉ sinceLast counts restart t := by
  simp [sinceLast]

/-- A restart empties the set. -/
theorem sinceLast_restart (h : restart t = true) : sinceLast counts restart (t + 1) = ∅ := by
  refine Finset.filter_eq_empty_iff.mpr fun k hk => ?_
  rintro ⟨-, hz⟩
  have hkt : k ≤ t := Nat.lt_succ_iff.mp (Finset.mem_range.mp hk)
  rw [hz t (Finset.self_mem_range_succ t) hkt] at h
  cases h

/-- Any other time leaves the times that are in it. -/
theorem mem_sinceLast_succ {k : ℕ} (h : restart t = false) (hk : k < t) :
    k ∈ sinceLast counts restart (t + 1) ↔ k ∈ sinceLast counts restart t := by
  simp only [sinceLast, Finset.mem_filter, Finset.mem_range]
  refine ⟨fun ⟨_, hc, hz⟩ => ⟨hk, hc, fun z hzt => hz z (by omega)⟩,
    fun ⟨_, hc, hz⟩ => ⟨by omega, hc, fun z hzt hkz => ?_⟩⟩
  rcases Nat.lt_succ_iff_lt_or_eq.mp hzt with hlt | rfl
  · exact hz z hlt hkz
  · exact h

/-- A counted time that is no restart joins. -/
theorem sinceLast_counted (hc : counts t = true) (h : restart t = false) :
    sinceLast counts restart (t + 1) = insert t (sinceLast counts restart t) := by
  ext k
  rcases Nat.lt_trichotomy k t with hk | rfl | hk
  · rw [mem_sinceLast_succ h hk, Finset.mem_insert]
    exact ⟨.inr, fun hm => hm.resolve_left (by omega)⟩
  · refine iff_of_true ?_ (Finset.mem_insert_self _ _)
    simp only [sinceLast, Finset.mem_filter, Finset.mem_range]
    refine ⟨by omega, hc, fun z hz hkz => ?_⟩
    rw [show z = k by omega]
    exact h
  · refine iff_of_false ?_ ?_ <;> simp only [sinceLast, Finset.mem_insert, Finset.mem_filter,
      Finset.mem_range] <;> omega

/-- A time that is neither counted nor a restart changes nothing. -/
theorem sinceLast_idle (hc : counts t = false) (h : restart t = false) :
    sinceLast counts restart (t + 1) = sinceLast counts restart t := by
  ext k
  rcases Nat.lt_trichotomy k t with hk | rfl | hk
  · exact mem_sinceLast_succ h hk
  · refine iff_of_false ?_ not_mem_sinceLast
    simp [sinceLast, hc]
  · refine iff_of_false ?_ ?_ <;> simp only [sinceLast, Finset.mem_filter, Finset.mem_range] <;>
      omega

/-- The counter advances by one at a counted time. -/
theorem card_sinceLast_counted (hc : counts t = true) (h : restart t = false) :
    (sinceLast counts restart (t + 1)).card = (sinceLast counts restart t).card + 1 := by
  rw [sinceLast_counted hc h, Finset.card_insert_of_notMem not_mem_sinceLast]

/-- Where every time since a restart is counted, the times after the last restart are in the set. -/
theorem sinceLast_interval {a : ℕ} (start : restart a = true) (later : a < t)
    (all : ∀ k, a < k → k < t → counts k = true) :
    ∃ z, a ≤ z ∧ z < t ∧ restart z = true ∧ sinceLast counts restart t = Finset.Ioo z t := by
  induction t, later using Nat.le_induction with
  | base =>
    refine ⟨a, le_rfl, Nat.lt_succ_self a, start, ?_⟩
    rw [sinceLast_restart start, Nat.succ_eq_add_one, Finset.Ioo_add_one_right_eq_Ioc,
      Finset.Ioc_self]
  | succ t later ih =>
    cases h : restart t with
    | true =>
      refine ⟨t, Nat.le_of_succ_le later, Nat.lt_succ_self t, h, ?_⟩
      rw [sinceLast_restart h, Finset.Ioo_add_one_right_eq_Ioc, Finset.Ioc_self]
    | false =>
      obtain ⟨z, le, lt, restarts, interval⟩ := ih fun k low high => all k low (by omega)
      refine ⟨z, le, by omega, restarts, ?_⟩
      rw [sinceLast_counted (all t later (Nat.lt_succ_self t)) h, interval]
      ext k
      simp only [Finset.mem_insert, Finset.mem_Ioo]
      omega

/-- More restarts leave fewer times. -/
theorem sinceLast_subset {restart' : ℕ → Bool} (h : ∀ k, restart k = true → restart' k = true) :
    sinceLast counts restart' t ⊆ sinceLast counts restart t := by
  intro k hk
  simp only [sinceLast, Finset.mem_filter] at hk ⊢
  refine ⟨hk.1, hk.2.1, fun z hz hkz => ?_⟩
  have hz' := hk.2.2 z hz hkz
  cases hr : restart z with
  | false => rfl
  | true => exact absurd (h z hr) (by simp [hz'])

end SinceLast

end Rockling
