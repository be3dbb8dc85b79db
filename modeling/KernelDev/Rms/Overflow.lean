/-
# KernelDev.Rms.Overflow — the arithmetic of `mp2_admission_control`

The test adds up the periods and the processing times of all tasks in an `unsigned long` each,
multiplies by 1000 and divides. Nothing checks what a registration asks for, so a period of 0
divides by zero on an empty list, and two tasks of half the range of an `unsigned long` do so
together.
-/
import KernelDev.Rms.Utilization
import KernelDev.Wire.Clients

namespace KernelDev.Rms

open KernelDev.Lib KernelDev.Wire

/-! ## One test -/

/-- What `mp2_admission_control` computes for a candidate, step by step: neither sum nor the product
wraps, and the test returns. -/
structure AdmissionExact (s : Mp2) (period processingTime : UInt64) : Prop where
  periods : ExactSum UInt64.toNat (fun i => (s.slab i).period) period s.mp2ProcessList
  times : ExactSum UInt64.toNat (fun i => (s.slab i).processingTime) processingTime s.mp2ProcessList
  product :
    let total := s.mp2ProcessList.foldl (fun acc i => acc + (s.slab i).processingTime)
      processingTime
    (total * 1000).toNat = total.toNat * 1000
  returns : mp2AdmissionControl s period processingTime ≠ none

/-- The periods add up to a number of 64 bits, and the processing times to one that is still of 64
bits when it is multiplied by 1000. -/
def TotalsFit (ts : List TaskParams) : Prop :=
  totalPeriods ts < UInt64.size ∧ totalProcessingTimes ts * 1000 < UInt64.size

instance (ts : List TaskParams) : Decidable (TotalsFit ts) :=
  inferInstanceAs (Decidable (totalPeriods ts < UInt64.size ∧
    totalProcessingTimes ts * 1000 < UInt64.size))

variable {s : Mp2} {t : TaskParams}

theorem totalPeriods_taskSet : totalPeriods (t :: taskSet s) =
    t.period.toNat + (s.mp2ProcessList.map fun i => (s.slab i).period.toNat).sum := by
  simp only [totalPeriods, taskSet, List.map_cons, List.sum_cons, List.map_map]
  rfl

theorem totalProcessingTimes_taskSet : totalProcessingTimes (t :: taskSet s) =
    t.processingTime.toNat +
      (s.mp2ProcessList.map fun i => (s.slab i).processingTime.toNat).sum := by
  simp only [totalProcessingTimes, taskSet, List.map_cons, List.sum_cons, List.map_map]
  rfl

/-- A product is exact if and only if it fits. -/
theorem uInt64_toNat_mul_iff {x y : UInt64} :
    (x * y).toNat = x.toNat * y.toNat ↔ x.toNat * y.toNat < UInt64.size := by
  constructor
  · intro h
    rw [← h]
    exact (x * y).toNat_lt_size
  · intro h
    rw [UInt64.toNat_mul]
    exact Nat.mod_eq_of_lt h

section Sums

variable (s t)

theorem exactPeriods_iff :
    ExactSum UInt64.toNat (fun i => (s.slab i).period) t.period s.mp2ProcessList ↔
      totalPeriods (t :: taskSet s) < UInt64.size := by
  rw [totalPeriods_taskSet]
  exact exactSum_iff UInt64.toNat uInt64_toNat_add UInt64.toNat_lt_size

theorem exactTimes_iff :
    ExactSum UInt64.toNat (fun i => (s.slab i).processingTime) t.processingTime s.mp2ProcessList ↔
      totalProcessingTimes (t :: taskSet s) < UInt64.size := by
  rw [totalProcessingTimes_taskSet]
  exact exactSum_iff UInt64.toNat uInt64_toNat_add UInt64.toNat_lt_size

variable {s t}

theorem toNat_totalProcessingTime (hlt : totalProcessingTimes (t :: taskSet s) < UInt64.size) :
    (s.mp2ProcessList.foldl (fun acc i => acc + (s.slab i).processingTime)
      t.processingTime).toNat = totalProcessingTimes (t :: taskSet s) := by
  rw [totalProcessingTimes_taskSet] at hlt ⊢
  exact toNat_foldl_add UInt64.toNat uInt64_toNat_add _ s.mp2ProcessList t.processingTime hlt

/-- A sum of periods that does not wrap is 0 only if all periods are. -/
theorem returns_iff (hlt : totalPeriods (t :: taskSet s) < UInt64.size) :
    mp2AdmissionControl s t.period t.processingTime ≠ none ↔
      0 < totalPeriods (t :: taskSet s) := by
  have hperiod : (totalPeriod s t.period).toNat = totalPeriods (t :: taskSet s) := by
    rw [totalPeriods_taskSet] at hlt ⊢
    exact toNat_foldl_add UInt64.toNat uInt64_toNat_add _ s.mp2ProcessList t.period hlt
  rw [Ne, mp2AdmissionControl_eq_none, ← hperiod, Nat.pos_iff_ne_zero, Ne, ← UInt64.toNat_inj]
  rfl

end Sums

/-- **The test computes in numbers exactly when the totals are numbers of 64 bits and there is a
period to divide by.** -/
theorem admissionExact_iff :
    AdmissionExact s t.period t.processingTime ↔
      TotalsFit (t :: taskSet s) ∧ 0 < totalPeriods (t :: taskSet s) := by
  constructor
  · intro h
    have hlt := (exactPeriods_iff s t).mp h.periods
    refine ⟨⟨hlt, ?_⟩, (returns_iff hlt).mp h.returns⟩
    rw [← toNat_totalProcessingTime ((exactTimes_iff s t).mp h.times)]
    exact uInt64_toNat_mul_iff.mp h.product
  · rintro ⟨⟨hlt, hproduct⟩, hpos⟩
    have hlt' : totalProcessingTimes (t :: taskSet s) < UInt64.size :=
      Nat.lt_of_le_of_lt (Nat.le_mul_of_pos_right _ (by decide)) hproduct
    refine ⟨(exactPeriods_iff s t).mpr hlt, (exactTimes_iff s t).mpr hlt', ?_,
      (returns_iff hlt).mpr hpos⟩
    apply uInt64_toNat_mul_iff.mpr
    rw [toNat_totalProcessingTime hlt']
    exact hproduct

/-! ## Runs -/

/-- The admission test of a transition, if it is one, is computed in numbers. -/
def ExactAdmission (x : Transition Mp2 Act) : Prop :=
  ∀ c, x.act = .admission c → AdmissionExact x.pre c.period c.processingTime

/-- The totals it is made of fit. -/
def FittingAdmission (x : Transition Mp2 Act) : Prop :=
  match x.act with
  | .admission c => TotalsFit (c.params :: taskSet x.pre)
  | _ => True

instance : DecidablePred FittingAdmission
  | ⟨s, .admission c, _⟩ => inferInstanceAs (Decidable (TotalsFit (c.params :: taskSet s)))
  | ⟨_, .insert _ _ _, _⟩ | ⟨_, .yield _ _, _⟩ | ⟨_, .deregister _ _, _⟩ | ⟨_, .fire _, _⟩
  | ⟨_, .callback _, _⟩ | ⟨_, .dispatch, _⟩ | ⟨_, .tick _, _⟩ | ⟨_, .scribble _ _, _⟩
  | ⟨_, .recycle _, _⟩ => inferInstanceAs (Decidable True)

variable {msecsToJiffies : UInt32 → UInt64}

/-- A test that has returned had something to divide by. -/
theorem exactAdmission_iff {x : Transition Mp2 Act}
    (hx : step msecsToJiffies x.act x.pre = some x.post) :
    ExactAdmission x ↔ FittingAdmission x := by
  obtain ⟨s, act, t⟩ := x
  cases act with
  | admission c =>
      have hreturns : mp2AdmissionControl s c.period c.processingTime ≠ none := by
        intro hnone
        simp [step, hnone] at hx
      constructor
      · exact fun h => (admissionExact_iff.mp (h c rfl)).1
      · rintro hfit _ ⟨rfl⟩
        replace hfit : TotalsFit (c.params :: taskSet s) := hfit
        exact admissionExact_iff.mpr ⟨hfit, (returns_iff hfit.1).mp hreturns⟩
  | insert | yield | deregister | fire | callback | dispatch | tick | scribble | recycle =>
      exact iff_of_true (fun c h => by cases h) trivial

/-- **Along a run all admission tests are computed in numbers, and the one of the next candidate,
exactly when the totals of each are numbers of 64 bits and the candidate's has a period to divide
by.** -/
theorem admissions_exact_iff {memory : RecPtr → Mp2TaskStruct} {jiffies : UInt64}
    {tr : List (Transition Mp2 Act)} {s : Mp2}
    (h : Exec (step msecsToJiffies) (Mp2.boot memory jiffies) tr s) (t : TaskParams) :
    ((∀ x ∈ tr, ExactAdmission x) ∧ AdmissionExact s t.period t.processingTime) ↔
      (∀ x ∈ tr, FittingAdmission x) ∧ TotalsFit (t :: taskSet s) ∧
        0 < totalPeriods (t :: taskSet s) :=
  and_congr (forall₂_congr fun x hx => exactAdmission_iff (h.isStep x hx)) admissionExact_iff

/-- With tasks 7 and 9 registered, task 8 asks for 200 in 1000 ms. -/
theorem admissions_exact_secondTask :
    taskSet (endOf _ _ _ secondTask_runs) = [⟨7, 100, 10⟩, ⟨9, 50, 5⟩] ∧
      (∀ x ∈ runOf _ _ _ secondTask_runs, ExactAdmission x) ∧
      AdmissionExact (endOf _ _ _ secondTask_runs) 1000 200 :=
  ⟨by decide, (admissions_exact_iff (exec_runOf secondTask_runs) ⟨8, 1000, 200⟩).mpr
    ⟨by decide, by decide⟩⟩

/-- Half the range of an `unsigned long`. -/
def halfRange : UInt64 := 0x8000000000000000

/-- Task 7 registers with that period. -/
def halfRangeTask : List Act :=
  [.admission ⟨7, 7, halfRange, 0⟩, .insert ⟨⟨7, 7, halfRange, 0⟩, []⟩ true 7]

theorem halfRangeTask_runs : (runActions (step (·.toUInt64)) halfRangeTask quiet).isSome := rfl

/-- Another task of that period is a division by zero, and so is a task without a period on an empty
list. -/
theorem admissions_exact_fails :
    mp2AdmissionControl quiet 0 5 = none ∧
      mp2AdmissionControl (endOf _ _ _ halfRangeTask_runs) halfRange 5 = none ∧
      ¬ ∀ tr s, Exec (step (·.toUInt64)) quiet tr s →
        ∀ bs pid period processingTime,
          Mp2Says (chomp bs) (.registration pid period processingTime) →
            AdmissionExact s period processingTime := by
  refine ⟨by decide, by decide, fun hall => ?_⟩
  have hexact := hall _ _ (exec_runOf halfRangeTask_runs) _ _ _ _
    (registerProcess_said 8 halfRange 5)
  have hfit := (admissionExact_iff (t := ⟨8, halfRange, 5⟩)).mp hexact
  exact absurd hfit.1 (by decide)

end KernelDev.Rms
