/-
# KernelDev.Lib.Ratios — a ratio of sums and the sum of the ratios

The ratio of two sums is a mean of the ratios of their terms, weighted by the denominators. It is
never above the sum of the ratios.
-/
import Mathlib.Algebra.BigOperators.Ring.List
import Mathlib.Algebra.Order.BigOperators.Group.List
import Mathlib.Algebra.Order.Field.Basic

namespace KernelDev.Lib

variable {ι K : Type*} [Field K]

/-- A ratio of sums is the sum of the ratios to the whole. -/
theorem sum_div_eq (c : ι → K) (x : K) (l : List ι) :
    (l.map c).sum / x = (l.map fun i => c i / x).sum := by
  simp only [div_eq_mul_inv, List.sum_map_mul_right]

variable [LinearOrder K] [IsStrictOrderedRing K] {c p : ι → K} {l : List ι}

/-- **A ratio of sums is at most the sum of the ratios.** -/
theorem sum_div_sum_le (hc : ∀ i ∈ l, 0 ≤ c i) (hp : ∀ i ∈ l, 0 < p i) :
    (l.map c).sum / (l.map p).sum ≤ (l.map fun i => c i / p i).sum := by
  have hnonneg : ∀ x ∈ l.map p, 0 ≤ x := by
    intro x hx
    obtain ⟨i, hi, rfl⟩ := List.mem_map.mp hx
    exact (hp i hi).le
  calc (l.map c).sum / (l.map p).sum = (l.map fun i => c i / (l.map p).sum).sum := sum_div_eq c _ l
    _ ≤ (l.map fun i => c i / p i).sum := by
      apply List.sum_le_sum
      intro i hi
      exact div_le_div_of_nonneg_left (hc i hi) (hp i hi)
        (List.single_le_sum hnonneg _ (List.mem_map_of_mem hi))

end KernelDev.Lib
