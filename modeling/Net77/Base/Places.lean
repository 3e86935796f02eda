import Mathlib.Algebra.BigOperators.Fin
import Mathlib.Algebra.Order.BigOperators.Group.Finset
import Mathlib.Data.Fintype.Basic

/-! Counting over finitely many places, one of which changes at a time. Nothing
here depends on a program. -/
namespace Net77.Base

variable {ι β : Type} [Fintype ι] [DecidableEq ι]

/-- What one place gains, the total gains. -/
theorem sum_update (f : ι → β) (count : β → Nat) (i : ι) (b : β) :
    (∑ j, count (Function.update f i b j)) + count (f i) = (∑ j, count (f j)) + count b := by
  rw [← Finset.add_sum_erase _ _ (Finset.mem_univ i),
    ← Finset.add_sum_erase _ (fun j => count (f j)) (Finset.mem_univ i), Function.update_self]
  have hothers : ∑ j ∈ Finset.univ.erase i, count (Function.update f i b j) =
      ∑ j ∈ Finset.univ.erase i, count (f j) := by
    apply Finset.sum_congr rfl
    intro j hj
    rw [Function.update_of_ne (Finset.ne_of_mem_erase hj)]
  rw [hothers]
  omega

/-- What is there once is in one place. -/
theorem place_of_sum_eq_one {count : ι → Nat} (h : ∑ j, count j = 1) :
    ∃ i, count i = 1 ∧ ∀ j ≠ i, count j = 0 := by
  obtain ⟨i, -, hi⟩ := Finset.exists_ne_zero_of_sum_ne_zero (by rw [h]; decide)
  rw [← Finset.add_sum_erase _ _ (Finset.mem_univ i)] at h
  refine ⟨i, by omega, ?_⟩
  intro j hne
  apply Finset.sum_eq_zero_iff.mp (by omega : ∑ j ∈ Finset.univ.erase i, count j = 0)
  exact Finset.mem_erase.mpr ⟨hne, Finset.mem_univ j⟩

end Net77.Base
