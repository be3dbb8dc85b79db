/-
# KernelDev.Rms.Utilization — the utilization bound and the test of `mp2_admission_control`

README section 8 admits a task when the utilization of the task set it joins, the sum over the tasks
of processing time by period, is at most 0.693. `mp2_admission_control` adds up the processing times
and the periods and divides once, in thousandths and rounding down. That is a mean of the tasks'
utilizations and never above their sum: a task within the bound is admitted. The converse fails, for
two tasks that each take 600 of 1000 ms as well as for one that takes 6935 of 10000.
-/
import KernelDev.Lib.Ratios
import KernelDev.Lib.Sums
import KernelDev.Rms.TaskSet
import Mathlib.Algebra.BigOperators.Ring.Finset
import Mathlib.Tactic.Linarith

namespace KernelDev.Rms

open KernelDev.Lib

/-! ## The utilization of a task set -/

/-- Processing time by period. -/
def TaskParams.utilization (t : TaskParams) : ℚ := t.processingTime.toNat / t.period.toNat

/-- The left-hand side of the README's inequality. -/
def utilization (ts : List TaskParams) : ℚ := (ts.map TaskParams.utilization).sum

def totalPeriods (ts : List TaskParams) : Nat := (ts.map fun t => t.period.toNat).sum

def totalProcessingTimes (ts : List TaskParams) : Nat :=
  (ts.map fun t => t.processingTime.toNat).sum

/-- The periods are positive and nothing that is computed of the tasks wraps. -/
structure InRange (ts : List TaskParams) : Prop where
  period_pos : ∀ t ∈ ts, 0 < t.period
  sum_lt : totalPeriods ts < UInt64.size
  product_lt : totalProcessingTimes ts * 1000 < UInt64.size

/-- Together the tasks work for at least 694 thousandths of their periods together. -/
def Dense (ts : List TaskParams) : Prop := 694 * totalPeriods ts ≤ 1000 * totalProcessingTimes ts

instance (ts : List TaskParams) : Decidable (Dense ts) :=
  inferInstanceAs (Decidable (694 * totalPeriods ts ≤ 1000 * totalProcessingTimes ts))

variable {ts : List TaskParams} {t : TaskParams}

theorem totalPeriods_pos (h : ∀ u ∈ t :: ts, 0 < u.period) : 0 < totalPeriods (t :: ts) := by
  have ht : 0 < t.period.toNat := UInt64.lt_iff_toNat_lt.mp (h t List.mem_cons_self)
  exact Nat.lt_of_lt_of_le ht (Nat.le_add_right _ _)

/-- **The mean that the code computes is never above the utilization.** -/
theorem mean_le_utilization (h : ∀ u ∈ ts, 0 < u.period) :
    (totalProcessingTimes ts : ℚ) / totalPeriods ts ≤ utilization ts := by
  have hmean := sum_div_sum_le (K := ℚ) (l := ts) (c := fun u => (u.processingTime.toNat : ℚ))
    (p := fun u => (u.period.toNat : ℚ)) (fun u _ => Nat.cast_nonneg _)
    (fun u hu => Nat.cast_pos.mpr (UInt64.lt_iff_toNat_lt.mp (h u hu)))
  rw [totalProcessingTimes, totalPeriods, Nat.cast_list_sum, Nat.cast_list_sum, List.map_map,
    List.map_map]
  exact hmean

/-- A dense task set is over the bound. -/
theorem Dense.utilization_gt (hdense : Dense (t :: ts)) (h : ∀ u ∈ t :: ts, 0 < u.period) :
    693 / 1000 < utilization (t :: ts) := by
  have hpos : (0 : ℚ) < totalPeriods (t :: ts) := Nat.cast_pos.mpr (totalPeriods_pos h)
  have hmean : (694 / 1000 : ℚ) ≤ totalProcessingTimes (t :: ts) / totalPeriods (t :: ts) := by
    rw [div_le_div_iff₀ (by norm_num) hpos]
    have hcast : ((694 * totalPeriods (t :: ts) : ℕ) : ℚ) ≤
        (1000 * totalProcessingTimes (t :: ts) : ℕ) := Nat.cast_le.mpr hdense
    push_cast at hcast
    linarith
  calc (693 / 1000 : ℚ) < 694 / 1000 := by norm_num
    _ ≤ totalProcessingTimes (t :: ts) / totalPeriods (t :: ts) := hmean
    _ ≤ utilization (t :: ts) := mean_le_utilization h

/-! ## The test -/

/-- **The test accepts exactly the task sets that are not dense.** -/
theorem utilizationTest_eq_some_zero_iff (h : InRange (t :: ts)) :
    utilizationTest ts t = some 0 ↔ ¬ Dense (t :: ts) := by
  have hpos := totalPeriods_pos h.period_pos
  have hperiod : (ts.foldl (fun acc u => acc + u.period) t.period).toNat =
      totalPeriods (t :: ts) :=
      toNat_foldl_add UInt64.toNat uInt64_toNat_add _ ts t.period h.sum_lt
  have hsum : totalProcessingTimes (t :: ts) < UInt64.size :=
    Nat.lt_of_le_of_lt (Nat.le_mul_of_pos_right _ (by decide)) h.product_lt
  have htime : (ts.foldl (fun acc u => acc + u.processingTime) t.processingTime).toNat =
      totalProcessingTimes (t :: ts) :=
      toNat_foldl_add UInt64.toNat uInt64_toNat_add _ ts t.processingTime hsum
  have hproduct : (ts.foldl (fun acc u => acc + u.processingTime) t.processingTime * 1000).toNat =
      totalProcessingTimes (t :: ts) * 1000 := by
    rw [UInt64.toNat_mul, htime]
    exact Nat.mod_eq_of_lt h.product_lt
  unfold utilizationTest
  extract_lets period time
  have hne : period ≠ 0 := fun hzero => by
    rw [show period.toNat = 0 from congrArg UInt64.toNat hzero] at hperiod
    exact hpos.ne hperiod
  have hquotient : time * 1000 / period ≤ 693 ↔ ¬ Dense (t :: ts) := by
    rw [UInt64.le_iff_toNat_le, UInt64.toNat_div, hproduct, hperiod]
    show _ / _ ≤ 693 ↔ ¬ _ ≤ _
    rw [← Nat.lt_succ_iff, Nat.div_lt_iff_lt_mul hpos, not_le, Nat.mul_comm _ 1000]
  rw [if_neg hne, ← hquotient]
  split
  · next hle => exact iff_of_true rfl hle
  · next hnot => exact iff_of_false (by decide) hnot

/-- **A task set within the bound is accepted.** -/
theorem utilizationTest_of_utilization_le (h : InRange (t :: ts))
    (hle : utilization (t :: ts) ≤ 693 / 1000) : utilizationTest ts t = some 0 :=
  (utilizationTest_eq_some_zero_iff h).mpr fun hdense =>
    (hdense.utilization_gt h.period_pos).not_ge hle

/-- **Admission control decides the utilization bound exactly on the task sets that are within the
bound or dense.** -/
theorem admission_utilization_iff (s : Mp2) (t : TaskParams) (h : InRange (t :: taskSet s)) :
    (mp2AdmissionControl s t.period t.processingTime = some 0 ↔
        utilization (t :: taskSet s) ≤ 693 / 1000) ↔
      utilization (t :: taskSet s) ≤ 693 / 1000 ∨ Dense (t :: taskSet s) := by
  rw [mp2AdmissionControl_eq, utilizationTest_eq_some_zero_iff h]
  constructor
  · intro hiff
    by_cases hdense : Dense (t :: taskSet s)
    · exact .inr hdense
    · exact .inl (hiff.mp hdense)
  · rintro (hle | hdense)
    · exact iff_of_true (fun hdense => (hdense.utilization_gt h.period_pos).not_ge hle) hle
    · exact iff_of_false (not_not.mpr hdense) (hdense.utilization_gt h.period_pos).not_ge

/-- One registered task, which takes `time` of 1000 ms. -/
def oneTask (time : UInt64) : Mp2 :=
  { Mp2.boot (fun _ => ⟨7, 1000, time, 0, 7, .sleeping⟩) 0 with
    live := [0], nextRec := 1, mp2ProcessList := [0] }

/-- A candidate of 200 in 500 ms beside a task of 200 in 1000 ms. -/
theorem admission_utilization_within :
    mp2AdmissionControl (oneTask 200) 500 200 = some 0 ↔
      utilization [⟨8, 500, 200⟩, ⟨7, 1000, 200⟩] ≤ 693 / 1000 :=
  (admission_utilization_iff (oneTask 200) ⟨8, 500, 200⟩
    ⟨by decide, by decide, by decide⟩).mpr (.inl (by decide +kernel))

/-- Two tasks of 600 in 1000 ms each are admitted. -/
theorem admission_utilization_fails :
    mp2AdmissionControl (oneTask 600) 1000 600 = some 0 ∧
      InRange (⟨8, 1000, 600⟩ :: taskSet (oneTask 600)) ∧
      utilization (⟨8, 1000, 600⟩ :: taskSet (oneTask 600)) = 6 / 5 ∧
      ¬ (mp2AdmissionControl (oneTask 600) 1000 600 = some 0 ↔
        utilization (⟨8, 1000, 600⟩ :: taskSet (oneTask 600)) ≤ 693 / 1000) := by
  refine ⟨by decide, ⟨by decide, by decide, by decide⟩, by decide +kernel, fun h => ?_⟩
  have hle : utilization (⟨8, 1000, 600⟩ :: taskSet (oneTask 600)) ≤ 693 / 1000 :=
    h.mp (by decide)
  exact absurd hle (by decide +kernel)

end KernelDev.Rms
