/-
# KernelDev.Lib.DemandBound — tasks whose demand fits a window

A task of period `p` and cost `c` asks for at most `⌈d / p⌉ * c` slots of any `d`. When the product
of the `1 + c / p` over the tasks is less than 2, there is a window that holds what all of them ask
for, and that is no longer than any bound on the periods (`exists_demand_le`).

For the proof, let the last multiple of each period up to the bound be tried as the window. If none
will do, each of them is short of the work of all whole periods and of one more job of every task
whose last multiple comes before it; taken in order, the multiples then grow by no more than the
factors of the product (`add_sum_le_mul_prod`), and their weighted sum would have to double.

A sum of the `c / p` of at most 0.693 keeps the product below 2 (`prod_one_add_lt_two`), for any
number of tasks. With the shorter period as the higher priority every job is then done by the end of
its period (`FixedPriority.meets_deadlines`).
-/
import KernelDev.Lib.FixedPriority
import Mathlib.Algebra.Order.BigOperators.Ring.Finset
import Mathlib.Analysis.Complex.ExponentialBounds
import Mathlib.Data.Finset.Max
import Mathlib.Tactic.FieldSimp
import Mathlib.Tactic.Linarith

namespace KernelDev.Lib

open Finset

variable {ι : Type*}

/-! ## Points that do not outrun the sum of what comes before them -/

section
variable {K : Type*} [Field K] [LinearOrder K] [IsStrictOrderedRing K]

/-- **Points each of which is at most `w` and the weighted sum of the points below it have a
weighted sum that grows with the product of the weights.** -/
theorem add_sum_le_mul_prod {s : Finset ι} {u x : ι → K} {w : K} (hu : ∀ i ∈ s, 0 ≤ u i)
    (hx : ∀ i ∈ s, 0 ≤ x i) (h : ∀ j ∈ s, x j ≤ w + ∑ i ∈ s with x i < x j, u i * x i) :
    w + ∑ i ∈ s, u i * x i ≤ w * ∏ i ∈ s, (1 + u i) := by
  classical
  induction s using Finset.induction_on_max_value x with
  | empty => simp
  | insert a s ha hmax ih =>
      -- the greatest point is below no other, and the others are what lies below it at most
      have hlower : ∀ j ∈ s, x j ≤ w + ∑ i ∈ s with x i < x j, u i * x i := by
        intro j hj
        have hout : ¬ x a < x j := not_lt.mpr (hmax j hj)
        simpa [filter_insert, hout] using h j (mem_insert_of_mem hj)
      have htop : x a ≤ w + ∑ i ∈ s, u i * x i := by
        have hsub : ∑ i ∈ s with x i < x a, u i * x i ≤ ∑ i ∈ s, u i * x i := by
          apply sum_le_sum_of_subset_of_nonneg (filter_subset _ _)
          intro i hi _
          exact mul_nonneg (hu i (mem_insert_of_mem hi)) (hx i (mem_insert_of_mem hi))
        have hself := h a (mem_insert_self a s)
        simp only [filter_insert, lt_irrefl, if_false] at hself
        linarith
      have hua : 0 ≤ u a := hu a (mem_insert_self a s)
      have hs := ih (fun i hi => hu i (mem_insert_of_mem hi))
        (fun i hi => hx i (mem_insert_of_mem hi)) hlower
      rw [sum_insert ha, prod_insert ha]
      calc w + (u a * x a + ∑ i ∈ s, u i * x i)
          ≤ w + (u a * (w + ∑ i ∈ s, u i * x i) + ∑ i ∈ s, u i * x i) := by
            have hgrow := mul_le_mul_of_nonneg_left htop hua
            linarith
        _ = (1 + u a) * (w + ∑ i ∈ s, u i * x i) := by ring
        _ ≤ (1 + u a) * (w * ∏ i ∈ s, (1 + u i)) :=
            mul_le_mul_of_nonneg_left hs (by linarith)
        _ = w * ((1 + u a) * ∏ i ∈ s, (1 + u i)) := by ring

end

/-! ## The demand of a window -/

/-- What tasks of these periods and costs ask for at most, of any `d` slots. -/
def demand (s : Finset ι) (period cost : ι → ℕ) (d : ℕ) : ℕ :=
  ∑ i ∈ s, (d ⌈/⌉ period i) * cost i

section
variable {s : Finset ι} {period cost : ι → ℕ} {T : ℕ}

/-- The last multiple of the period up to `T`. -/
def lastMultiple (period : ι → ℕ) (T : ℕ) (i : ι) : ℕ := period i * (T / period i)

theorem lastMultiple_le (i : ι) : lastMultiple period T i ≤ T := Nat.mul_div_le T (period i)

theorem period_le_lastMultiple {i : ι} (hpos : 0 < period i) (hle : period i ≤ T) :
    period i ≤ lastMultiple period T i :=
  Nat.le_mul_of_pos_right _ (Nat.div_pos hle hpos)

/-- Of a window that ends by `T`, the periods of a task are at most those up to its last multiple,
and one more when the window is longer than that. -/
theorem ceilDiv_le {i : ι} (hpos : 0 < period i) {t : ℕ} (ht : t ≤ T) :
    t ⌈/⌉ period i ≤ T / period i + if lastMultiple period T i < t then 1 else 0 := by
  rw [ceilDiv_le_iff_le_mul hpos]
  split
  · calc t ≤ T := ht
      _ ≤ period i * (T / period i + 1) := (Nat.lt_mul_div_succ T hpos).le
  · next hnot => simpa [lastMultiple] using Nat.not_lt.mp hnot

/-- The cost of a task by its period. -/
noncomputable def share (period cost : ι → ℕ) (i : ι) : ℝ := cost i / period i

theorem share_nonneg (i : ι) : 0 ≤ share period cost i := by unfold share; positivity

/-- What the whole periods up to the last multiple cost. -/
theorem share_mul_lastMultiple {i : ι} (hpos : 0 < period i) :
    share period cost i * lastMultiple period T i = ((T / period i * cost i : ℕ) : ℝ) := by
  have hne : (period i : ℝ) ≠ 0 := Nat.cast_ne_zero.mpr hpos.ne'
  rw [share, lastMultiple]
  push_cast
  field_simp

theorem cost_le_share_mul {i : ι} (hpos : 0 < period i) (hle : period i ≤ T) :
    (cost i : ℝ) ≤ share period cost i * lastMultiple period T i := by
  rw [share_mul_lastMultiple hpos]
  exact Nat.cast_le.mpr (Nat.le_mul_of_pos_left _ (Nat.div_pos hle hpos))

/-- The demand of a window that ends by `T` is at most that of the whole periods, and of one more
job of each task whose last multiple lies within the window. -/
theorem demand_le (hpos : ∀ i ∈ s, 0 < period i) (hle : ∀ i ∈ s, period i ≤ T) {t : ℕ}
    (ht : t ≤ T) :
    (demand s period cost t : ℝ) ≤
      ∑ i ∈ s, share period cost i * lastMultiple period T i +
        ∑ i ∈ s with (lastMultiple period T i : ℝ) < t,
          share period cost i * lastMultiple period T i := by
  rw [demand, Nat.cast_sum, sum_filter, ← sum_add_distrib]
  apply sum_le_sum
  intro i hi
  have hceil : t ⌈/⌉ period i * cost i ≤
      T / period i * cost i + if lastMultiple period T i < t then cost i else 0 := by
    calc t ⌈/⌉ period i * cost i
        ≤ (T / period i + if lastMultiple period T i < t then 1 else 0) * cost i :=
          Nat.mul_le_mul_right _ (ceilDiv_le (hpos i hi) ht)
      _ = _ := by rw [Nat.add_mul, ite_mul, Nat.one_mul, Nat.zero_mul]
  have hcast : ((t ⌈/⌉ period i * cost i : ℕ) : ℝ) ≤
      ((T / period i * cost i + if lastMultiple period T i < t then cost i else 0 : ℕ) : ℝ) :=
    Nat.cast_le.mpr hceil
  rw [Nat.cast_add, ← share_mul_lastMultiple (hpos i hi)] at hcast
  simp only [Nat.cast_lt]
  split
  · next hlt =>
      rw [if_pos hlt] at hcast
      have hjob : (cost i : ℝ) ≤ share period cost i * lastMultiple period T i :=
        cost_le_share_mul (hpos i hi) (hle i hi)
      linarith
  · next hnot =>
      rw [if_neg hnot, Nat.cast_zero] at hcast
      exact hcast

/-- **Tasks whose shares have a product of `1 + c / p` below 2 fit a window no longer than any bound
on their periods.** -/
theorem exists_demand_le (hne : s.Nonempty) (hpos : ∀ i ∈ s, 0 < period i)
    (hle : ∀ i ∈ s, period i ≤ T) (hprod : ∏ i ∈ s, (1 + share period cost i) < 2) :
    ∃ t, 0 < t ∧ t ≤ T ∧ demand s period cost t ≤ t := by
  by_contra hnone
  have hover : ∀ i ∈ s, (lastMultiple period T i : ℝ) <
      demand s period cost (lastMultiple period T i) := by
    intro i hi
    by_contra hnot
    refine hnone ⟨lastMultiple period T i, ?_, lastMultiple_le i, ?_⟩
    · exact Nat.lt_of_lt_of_le (hpos i hi) (period_le_lastMultiple (hpos i hi) (hle i hi))
    · exact Nat.cast_le.mp (not_lt.mp hnot)
  have hpoint : ∀ j ∈ s, (lastMultiple period T j : ℝ) ≤
      ∑ i ∈ s, share period cost i * lastMultiple period T i +
        ∑ i ∈ s with (lastMultiple period T i : ℝ) < lastMultiple period T j,
          share period cost i * lastMultiple period T i := fun j hj =>
    (hover j hj).le.trans (demand_le hpos hle (lastMultiple_le j))
  have hdouble := add_sum_le_mul_prod (u := share period cost)
    (x := fun i => (lastMultiple period T i : ℝ)) (fun i _ => share_nonneg i)
    (fun i _ => Nat.cast_nonneg _) hpoint
  -- the least multiple has no other below it, so the whole periods cost something
  have hw : 0 < ∑ i ∈ s, share period cost i * lastMultiple period T i := by
    obtain ⟨j, hj, hmin⟩ := s.exists_min_image (lastMultiple period T) hne
    have hempty : (s.filter fun i =>
        (lastMultiple period T i : ℝ) < lastMultiple period T j) = ∅ := by
      apply filter_false_of_mem
      intro i hi
      exact not_lt.mpr (Nat.cast_le.mpr (hmin i hi))
    have hj' := (hover j hj).trans_le (demand_le hpos hle (lastMultiple_le j))
    rw [hempty, sum_empty, add_zero] at hj'
    exact (Nat.cast_nonneg _).trans_lt hj'
  have htwice := mul_lt_mul_of_pos_left hprod hw
  linarith

/-- A sum of shares of at most 0.693 keeps the product of the `1 + c / p` below 2. -/
theorem prod_one_add_lt_two (hsum : ∑ i ∈ s, share period cost i ≤ 693 / 1000) :
    ∏ i ∈ s, (1 + share period cost i) < 2 :=
  calc ∏ i ∈ s, (1 + share period cost i)
      ≤ Real.exp (∑ i ∈ s, share period cost i) :=
        Real.prod_one_add_le_exp_sum s fun i => share_nonneg i
    _ ≤ Real.exp (693 / 1000) := Real.exp_le_exp.mpr hsum
    _ < Real.exp (Real.log 2) := Real.exp_lt_exp.mpr (by linarith [Real.log_two_gt_d9])
    _ = 2 := Real.exp_log (by norm_num)

/-! ## Rate-monotonic priorities -/

/-- What sporadic tasks release in a window is within their demand. -/
theorem sum_arrived_le {work : ι → ℕ → ℕ} (hpos : ∀ i ∈ s, 0 < period i)
    (hjobs : ∀ i ∈ s, Sporadic (period i) (cost i) (work i)) (t d : ℕ) :
    ∑ i ∈ s, arrived (work i) (t + d) ≤
      ∑ i ∈ s, arrived (work i) t + demand s period cost d := by
  rw [demand, ← sum_add_distrib]
  exact sum_le_sum fun i hi => (hjobs i hi).arrived_le (hpos i hi) t d

/-- **With the shorter period as the higher priority, tasks whose shares add up to 0.693 at most
finish every job within one period of its release.** -/
theorem FixedPriority.meets_deadlines [DecidableEq ι] {work : ι → ℕ → ℕ} {run : ℕ → Option ι}
    (h : FixedPriority s period work run) (hpos : ∀ i ∈ s, 0 < period i)
    (hjobs : ∀ i ∈ s, Sporadic (period i) (cost i) (work i))
    (hsum : ∑ i ∈ s, share period cost i ≤ 693 / 1000) {i : ι} (hi : i ∈ s) (r : ℕ) :
    arrived (work i) (r + 1) ≤ executed run i (r + period i) := by
  -- the level of `i`: the tasks whose jobs may keep it waiting, and itself
  let level := s.filter fun c => period c ≤ period i
  have hsub : level ⊆ s := filter_subset _ _
  have hself : i ∈ level := mem_filter.mpr ⟨hi, le_rfl⟩
  have hdown : ∀ j ∈ level, ∀ c ∈ s, period c ≤ period j → c ∈ level := fun j hj c hc hle =>
    mem_filter.mpr ⟨hc, hle.trans (mem_filter.mp hj).2⟩
  have hlevel : ∑ j ∈ level, share period cost j ≤ 693 / 1000 :=
    (sum_le_sum_of_subset_of_nonneg hsub fun j _ _ => share_nonneg j).trans hsum
  obtain ⟨L, hL, hle, hfits⟩ := exists_demand_le ⟨i, hself⟩ (fun j hj => hpos j (hsub hj))
    (fun j hj => (mem_filter.mp hj).2) (prod_one_add_lt_two hlevel)
  have hdemand : ∀ t,
      ∑ j ∈ level, arrived (work j) (t + L) ≤ ∑ j ∈ level, arrived (work j) t + L := fun t =>
    (sum_arrived_le (fun j hj => hpos j (hsub hj)) (fun j hj => hjobs j (hsub hj)) t L).trans
      (Nat.add_le_add_left hfits _)
  calc arrived (work i) (r + 1) ≤ executed run i (r + L) :=
        h.executed_ge hsub hdown hdemand hL hself r
    _ ≤ executed run i (r + period i) := executed_mono run i (Nat.add_le_add_left hle r)

end

end KernelDev.Lib
