/-
# KernelDev.Rms.Schedulability — what admission control is for

`Return 0: if the process can be scheduled without missing any deadlines`, says the comment above
`mp2_admission_control`. Here a task set is `Schedulable` when no rate-monotonic schedule of it
misses a deadline, whatever its jobs do within their parameters. A set within the utilization
bound is (`WithinBound.schedulable`), and a set of utilization above 1 is not
(`overload_not_schedulable`).

The test of the code and the bound part on the sets between the mean and the sum of the
utilizations. `registered_schedulable` says that this, and a list that changes in the gap of a
registration, is all that can make a run register an unschedulable set. Tasks of one period are
schedulable exactly when their work fits it, and `accepted_unschedulable_iff` says which of these
sets the test accepts all the same.
-/
import KernelDev.Lib.DemandBound
import KernelDev.Rms.Admission
import KernelDev.Rms.Utilization

namespace KernelDev.Rms

open KernelDev.Lib

/-! ## Deadlines -/

/-- The period in milliseconds. -/
def TaskParams.periodMs (t : TaskParams) : ℕ := t.period.toNat

/-- The processing time in milliseconds. -/
def TaskParams.processingMs (t : TaskParams) : ℕ := t.processingTime.toNat

/-- No rate-monotonic schedule of the tasks misses a deadline. A slot is a millisecond; a job comes
at least one period after the one before it, takes no longer than the processing time, and is to be
done one period after its release. -/
def Schedulable (ts : List TaskParams) : Prop :=
  ∀ (work : TaskParams → ℕ → ℕ) (run : ℕ → Option TaskParams),
    (∀ t ∈ ts, Sporadic t.periodMs t.processingMs (work t)) →
    FixedPriority ts.toFinset TaskParams.periodMs work run →
    ∀ t ∈ ts, ∀ r, arrived (work t) (r + 1) ≤ executed run t (r + t.periodMs)

/-- The tasks are distinct, their periods are positive and their utilization is at most 0.693. -/
structure WithinBound (ts : List TaskParams) : Prop where
  nodup : ts.Nodup
  period_pos : ∀ t ∈ ts, 0 < t.period
  utilization_le : utilization ts ≤ 693 / 1000

variable {ts : List TaskParams} {t : TaskParams}

theorem TaskParams.periodMs_pos (h : 0 < t.period) : 0 < t.periodMs :=
  UInt64.lt_iff_toNat_lt.mp h

/-- The shares of distinct tasks add up to the utilization. -/
theorem sum_share_eq (h : ts.Nodup) :
    ∑ t ∈ ts.toFinset, share TaskParams.periodMs TaskParams.processingMs t =
      (utilization ts : ℝ) := by
  have hshare : ∀ t : TaskParams,
      share TaskParams.periodMs TaskParams.processingMs t = (t.utilization : ℝ) := by
    intro t
    simp [share, TaskParams.utilization, TaskParams.periodMs, TaskParams.processingMs]
  rw [List.sum_toFinset _ h, utilization, Rat.cast_list_sum, List.map_map]
  exact congrArg List.sum (List.map_congr_left fun t _ => hshare t)

/-- **A set within the bound is schedulable.** -/
theorem WithinBound.schedulable (h : WithinBound ts) : Schedulable ts := by
  intro work run hjobs hrun t ht r
  have hsum : ∑ t ∈ ts.toFinset, share TaskParams.periodMs TaskParams.processingMs t ≤
      693 / 1000 := by
    have hcast : (utilization ts : ℝ) ≤ ((693 / 1000 : ℚ) : ℝ) := Rat.cast_le.mpr h.utilization_le
    rw [sum_share_eq h.nodup]
    push_cast at hcast
    exact hcast
  exact hrun.meets_deadlines
    (fun u hu => TaskParams.periodMs_pos (h.period_pos u (List.mem_toFinset.mp hu)))
    (fun u hu => hjobs u (List.mem_toFinset.mp hu)) hsum (List.mem_toFinset.mpr ht) r

/-- **A set of utilization above 1 is not schedulable**: the job of every period is too much. -/
theorem overload_not_schedulable (hnodup : ts.Nodup) (hpos : ∀ t ∈ ts, 0 < t.period)
    (hover : 1 < utilization ts) : ¬ Schedulable ts := by
  intro hsched
  let work : TaskParams → ℕ → ℕ := fun t => periodic t.periodMs t.processingMs
  have hmeet := hsched work (slotOf ts TaskParams.periodMs work)
    (fun t _ => sporadic_periodic _ _) (fixedPriority_slotOf ts _ work)
  -- the hyperperiod
  let H := ∏ t ∈ ts.toFinset, t.periodMs
  have hpos' : ∀ t ∈ ts.toFinset, 0 < t.periodMs := fun t ht =>
    TaskParams.periodMs_pos (hpos t (List.mem_toFinset.mp ht))
  have hdvd : ∀ t ∈ ts.toFinset, t.periodMs ∣ H := fun t ht => Finset.dvd_prod_of_mem _ ht
  have hH : 0 < H := Finset.prod_pos hpos'
  have hfits : ∑ t ∈ ts.toFinset, H / t.periodMs * t.processingMs ≤ H :=
    periodic_overload hpos' hH hdvd fun t ht => hmeet t (List.mem_toFinset.mp ht)
  have hcast : (H : ℚ) * utilization ts ≤ H := by
    rw [utilization, ← List.sum_toFinset _ hnodup, Finset.mul_sum]
    calc ∑ t ∈ ts.toFinset, (H : ℚ) * t.utilization
        = ∑ t ∈ ts.toFinset, ((H / t.periodMs * t.processingMs : ℕ) : ℚ) := by
          apply Finset.sum_congr rfl
          intro t ht
          have hne : (t.periodMs : ℚ) ≠ 0 := Nat.cast_ne_zero.mpr (hpos' t ht).ne'
          rw [Nat.cast_mul, Nat.cast_div (hdvd t ht) hne]
          show (H : ℚ) * ((t.processingMs : ℚ) / t.periodMs) = _
          ring
      _ ≤ H := by exact_mod_cast hfits
  have hlt := mul_lt_mul_of_pos_left hover (Nat.cast_pos.mpr hH : (0 : ℚ) < H)
  linarith

/-! ## Tasks of one period -/

/-- **Tasks of one period are schedulable exactly when all their work fits it.** -/
theorem schedulable_iff_of_period_eq {p : UInt64} (hnodup : ts.Nodup) (hp : 0 < p)
    (hall : ∀ t ∈ ts, t.period = p) : Schedulable ts ↔ totalProcessingTimes ts ≤ p.toNat := by
  have hpos : 0 < p.toNat := UInt64.lt_iff_toNat_lt.mp hp
  have hperiod : ∀ t ∈ ts, t.periodMs = p.toNat := fun t ht => congrArg UInt64.toNat (hall t ht)
  constructor
  · intro hsched
    by_contra hnot
    apply overload_not_schedulable hnodup (fun t ht => hall t ht ▸ hp) _ hsched
    have hutil : utilization ts = totalProcessingTimes ts / p.toNat := by
      rw [utilization, totalProcessingTimes, Nat.cast_list_sum, List.map_map, sum_div_eq]
      refine congrArg List.sum (List.map_congr_left fun t ht => ?_)
      rw [TaskParams.utilization, hall t ht]
      rfl
    rw [hutil, lt_div_iff₀ (Nat.cast_pos.mpr hpos), one_mul]
    exact Nat.cast_lt.mpr (Nat.lt_of_not_le hnot)
  · intro hfits work run hjobs hrun t ht r
    have hjobs' : ∀ u ∈ ts.toFinset, Sporadic u.periodMs u.processingMs (work u) := fun u hu =>
      hjobs u (List.mem_toFinset.mp hu)
    have hpos' : ∀ u ∈ ts.toFinset, 0 < u.periodMs := fun u hu => by
      rw [hperiod u (List.mem_toFinset.mp hu)]
      exact hpos
    -- every task has the same priority, and one period holds one job of each
    have hone : demand ts.toFinset TaskParams.periodMs TaskParams.processingMs p.toNat ≤
        p.toNat := by
      refine le_trans ?_ hfits
      show _ ≤ (ts.map TaskParams.processingMs).sum
      rw [demand, ← List.sum_toFinset _ hnodup]
      apply Finset.sum_le_sum
      intro u hu
      have hceil : p.toNat ⌈/⌉ u.periodMs ≤ 1 := by
        rw [hperiod u (List.mem_toFinset.mp hu), ceilDiv_le_iff_le_mul hpos, mul_one]
      exact (Nat.mul_le_mul_right _ hceil).trans_eq (Nat.one_mul _)
    have hdemand : ∀ d, ∑ u ∈ ts.toFinset, arrived (work u) (d + p.toNat) ≤
        ∑ u ∈ ts.toFinset, arrived (work u) d + p.toNat := fun d =>
      (sum_arrived_le hpos' hjobs' d p.toNat).trans (Nat.add_le_add_left hone _)
    rw [hperiod t ht]
    exact hrun.executed_ge (Finset.Subset.refl _) (fun _ _ c hc _ => hc) hdemand hpos
      (List.mem_toFinset.mpr ht) r

/-- **For tasks of one period the test accepts a set that is not schedulable exactly when the work
is longer than the period and, spread over as many periods as there are tasks, below 694
thousandths.** -/
theorem accepted_unschedulable_iff (s : Mp2) (t : TaskParams) (hrange : InRange (t :: taskSet s))
    (hnodup : (t :: taskSet s).Nodup) (hall : ∀ u ∈ taskSet s, u.period = t.period) :
    (mp2AdmissionControl s t.period t.processingTime = some 0 ∧ ¬ Schedulable (t :: taskSet s)) ↔
      t.period.toNat < totalProcessingTimes (t :: taskSet s) ∧
      1000 * totalProcessingTimes (t :: taskSet s) <
        694 * ((taskSet s).length + 1) * t.period.toNat := by
  have hperiods : ∀ u ∈ t :: taskSet s, u.period = t.period := by
    simpa using hall
  have htotal : totalPeriods (t :: taskSet s) = ((taskSet s).length + 1) * t.period.toNat := by
    rw [totalPeriods, List.map_congr_left (g := fun _ => t.period.toNat)
      fun u hu => congrArg UInt64.toNat (hperiods u hu)]
    simp only [List.map_const', List.sum_replicate, List.length_cons, smul_eq_mul]
  rw [mp2AdmissionControl_eq, utilizationTest_eq_some_zero_iff hrange,
    schedulable_iff_of_period_eq hnodup (hrange.period_pos t List.mem_cons_self) hperiods,
    Dense, htotal, not_le, not_le, and_comm, Nat.mul_assoc]

/-- Two tasks of 600 in 1000 ms. -/
theorem accepted_unschedulable_two :
    mp2AdmissionControl (oneTask 600) 1000 600 = some 0 ∧
      ¬ Schedulable (⟨8, 1000, 600⟩ :: taskSet (oneTask 600)) :=
  (accepted_unschedulable_iff (oneTask 600) ⟨8, 1000, 600⟩ ⟨by decide, by decide, by decide⟩
    (by decide) (by decide)).mpr (by decide)

/-! ## What a step does to the task set -/

/-- The test and the bound agree on the set. -/
def Decided (ts : List TaskParams) : Prop :=
  InRange ts ∧ (utilization ts ≤ 693 / 1000 ∨ Dense ts)

theorem inRange_iff : InRange ts ↔ (∀ t ∈ ts, 0 < t.period) ∧ totalPeriods ts < UInt64.size ∧
    totalProcessingTimes ts * 1000 < UInt64.size :=
  ⟨fun h => ⟨h.period_pos, h.sum_lt, h.product_lt⟩, fun ⟨h, h', h''⟩ => ⟨h, h', h''⟩⟩

instance (ts : List TaskParams) : Decidable (InRange ts) := decidable_of_iff _ inRange_iff.symm

instance (ts : List TaskParams) : Decidable (Decided ts) :=
  inferInstanceAs (Decidable (_ ∧ (utilization ts ≤ 693 / 1000 ∨ Dense ts)))

/-- Every record the transition links is one whose set the test decides as the bound does. -/
def LinkDecided (x : Transition Mp2 Act) : Prop :=
  ∀ a ∈ x.post.mp2ProcessList, a ∉ x.pre.mp2ProcessList →
    Decided ((x.post.slab a).params :: taskSet x.pre)

instance : DecidablePred LinkDecided := fun x =>
  inferInstanceAs (Decidable (∀ a ∈ x.post.mp2ProcessList, a ∉ x.pre.mp2ProcessList →
    Decided ((x.post.slab a).params :: taskSet x.pre)))

variable {msecsToJiffies : UInt32 → UInt64} {s : Mp2}

/-- **A step leaves the task set, takes one task from it, or adds the task of the record it links at
the end.** -/
theorem Effect.taskSet_cases {act : Act} {u : Mp2} (he : Effect msecsToJiffies s act u)
    (hwf : WellFormed s) :
    taskSet u = taskSet s ∨ (∃ p, taskSet u = (taskSet s).eraseP p) ∨
      ∃ a ∈ u.mp2ProcessList, a ∉ s.mp2ProcessList ∧
        taskSet u = taskSet s ++ [(u.slab a).params] ∧
        ∀ t ∈ taskSet s, t.pid ≠ (u.slab a).params.pid := by
  have hsame : u.mp2ProcessList = s.mp2ProcessList → taskSet u = taskSet s := fun hlist =>
    taskSet_congr hlist fun a ha => he.sameTask hwf ha
  cases he with
  | @insertLink e found _ _ hnew hfound =>
      have htaken : WellFormed (s.takeAdmitted e) := hwf.takeAdmitted e
      have hparams : ((linked msecsToJiffies e.call found (s.takeAdmitted e)).slab
          s.freeRec).params = e.call.params := linked_params ..
      refine .inr (.inr ⟨s.freeRec, List.mem_append_right _ (List.mem_singleton.mpr rfl),
        hwf.freeRec_not_linked, ?_, ?_⟩)
      · rw [hparams]
        exact taskSet_linked htaken e.call found
      · rw [hparams]
        exact forall_taskSet_pid_ne.mpr hnew
  | deregister d hd => exact .inr (.inl ⟨_, taskSet_removed hwf hd⟩)
  | dispatch h => exact .inl (hsame (by simp))
  | reject | admission | insertDuplicate | insertNoMemory | insertNoTask | yieldUnknown
  | yieldOnTime | yieldLate | deregisterUnknown | fire | callbackNone | callback | dispatchStay
  | tick | scribble | recycle => exact .inl (hsame rfl)

theorem withinBound_nil : WithinBound [] where
  nodup := List.nodup_nil
  period_pos _ ht := absurd ht List.not_mem_nil
  utilization_le := by norm_num [utilization]

theorem WithinBound.sublist {us : List TaskParams} (h : WithinBound ts) (hsub : us.Sublist ts) :
    WithinBound us where
  nodup := h.nodup.sublist hsub
  period_pos t ht := h.period_pos t (hsub.subset ht)
  utilization_le := by
    refine le_trans ((hsub.map _).sum_le_sum ?_) h.utilization_le
    intro x hx
    obtain ⟨t, _, rfl⟩ := List.mem_map.mp hx
    exact div_nonneg (Nat.cast_nonneg _) (Nat.cast_nonneg _)

/-- A task that the test accepts into a set it decides as the bound does leaves the set within the
bound. -/
theorem WithinBound.append (h : WithinBound ts) (hnew : ∀ u ∈ ts, u.pid ≠ t.pid)
    (hdec : Decided (t :: ts)) (hacc : utilizationTest ts t = some 0) :
    WithinBound (ts ++ [t]) where
  nodup := by
    refine List.nodup_append.mpr ⟨h.nodup, List.nodup_singleton _, ?_⟩
    rintro u hu v hv rfl
    exact hnew u hu (by rw [List.mem_singleton.mp hv])
  period_pos := by
    intro u hu
    apply hdec.1.period_pos
    simpa [or_comm] using hu
  utilization_le := by
    have hsparse : ¬ Dense (t :: ts) := (utilizationTest_eq_some_zero_iff hdec.1).mp hacc
    have hle : utilization (t :: ts) ≤ 693 / 1000 := hdec.2.resolve_right hsparse
    simpa [utilization, add_comm] using hle

/-- The invariant: the run is well formed and the registered tasks are within the bound. -/
structure RegisteredWithin (s : Mp2) : Prop where
  history : AdmissionHistory s
  within : WithinBound (taskSet s)

/-- **A step whose gap was quiet and whose test decides as the bound does keeps the registered tasks
within the bound.** -/
theorem RegisteredWithin.step {x : Transition Mp2 Act}
    (hx : step msecsToJiffies x.act x.pre = some x.post) (h : RegisteredWithin x.pre)
    (hquiet : GapQuiet x) (hdec : LinkDecided x) : RegisteredWithin x.post where
  history := h.history.step hx
  within := by
    rcases (effect_of_step hx).taskSet_cases h.history.wellFormed with
      hset | ⟨p, hset⟩ | ⟨a, ha, hnot, hset, hnew⟩
    · rw [hset]
      exact h.within
    · rw [hset]
      exact h.within.sublist List.eraseP_sublist
    · rw [hset]
      have hadm := linkAdmitted_of_gapQuiet hx h.history hquiet a ha hnot
      exact h.within.append hnew (hdec a ha hnot)
        ((mp2AdmissionControl_eq x.pre (x.post.slab a).params).symm.trans hadm)

/-! ## Runs -/

/-- **Along a run whose gaps are quiet, and in which the test never accepts between the mean and the
sum of the utilizations, the registered tasks can be scheduled without missing any deadlines.** -/
theorem registered_schedulable (msecsToJiffies : UInt32 → UInt64)
    (memory : RecPtr → Mp2TaskStruct) (jiffies : UInt64) {tr : List (Transition Mp2 Act)} {s : Mp2}
    (h : Exec (step msecsToJiffies) (Mp2.boot memory jiffies) tr s)
    (hquiet : ∀ x ∈ tr, GapQuiet x) (hdec : ∀ x ∈ tr, LinkDecided x) :
    ∀ x ∈ tr, (taskSet x.post).Nodup ∧ Schedulable (taskSet x.post) := by
  have hboot : RegisteredWithin (Mp2.boot memory jiffies) :=
    ⟨admissionHistory_boot memory jiffies, withinBound_nil⟩
  have hinv := (h.guarded (I := RegisteredWithin) (C := fun x => GapQuiet x ∧ LinkDecided x) hboot
    (fun _ hx hC hI => hI.step hx hC.1 hC.2) fun x hx => ⟨hquiet x hx, hdec x hx⟩).1
  intro x hx
  have hwithin : WithinBound (taskSet x.post) := (hinv x hx).2.within
  exact ⟨hwithin.nodup, hwithin.schedulable⟩

theorem registered_schedulable_joinAndLeave :
    let tr := runOf (step (·.toUInt64)) joinAndLeave quiet joinAndLeave_runs
    tr.map (fun x => (taskSet x.post).map TaskParams.pid) = [[], [7], [7], [7, 8], [8]] ∧
      ∀ x ∈ tr, (taskSet x.post).Nodup ∧ Schedulable (taskSet x.post) :=
  ⟨by decide, registered_schedulable (·.toUInt64) _ _ (exec_runOf joinAndLeave_runs) (by decide)
    (by decide +kernel)⟩

end KernelDev.Rms
