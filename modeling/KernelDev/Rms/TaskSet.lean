/-
# KernelDev.Rms.TaskSet — what the process list is for

The specification of registration and de-registration, in the scheduler's own terms: a task set is
the list of the registered tasks' parameters, a request is served in one piece, and a task is added
when the utilization test accepts it against the set it is added to. Nothing here knows of records,
sleeping processes or locks.

`mp2Registration_taskSet` and `mp2Deregistration_taskSet` say that `mp2.c` implements this when its
calls run one at a time.
-/
import KernelDev.Rms.System

namespace KernelDev.Rms

/-! ## The specification -/

/-- The utilization test of `t` against the set `ts`. -/
def utilizationTest (ts : List TaskParams) (t : TaskParams) : Option Int :=
  let totalPeriod := ts.foldl (fun acc u => acc + u.period) t.period
  let totalProcessingTime := ts.foldl (fun acc u => acc + u.processingTime) t.processingTime
  if totalPeriod = 0 then none
  else if totalProcessingTime * 1000 / totalPeriod ≤ 693 then some 0
  else some 1

/-- One whole request. `served` is what the kernel answers a registration with: memory for the
record, and a process of that pid. -/
inductive Request
  | register (t : TaskParams) (served : Bool)
  | deregister (pid : UInt32)
  deriving DecidableEq, Repr

/-- Serve one request. -/
def serve (ts : List TaskParams) : Request → List TaskParams
  | .register t served =>
      if served = true ∧ utilizationTest ts t = some 0 ∧ ∀ u ∈ ts, u.pid ≠ t.pid then ts ++ [t]
      else ts
  | .deregister pid => ts.eraseP fun u => u.pid = pid

/-! ## The process list as a task set -/

/-- Admission control is the utilization test of the list. -/
theorem mp2AdmissionControl_eq (s : Mp2) (t : TaskParams) :
    mp2AdmissionControl s t.period t.processingTime = utilizationTest (taskSet s) t := by
  simp [mp2AdmissionControl, utilizationTest, taskSet, Mp2TaskStruct.params, List.foldl_map]

theorem forall_taskSet_pid_ne {s : Mp2} {pid : UInt32} :
    (∀ u ∈ taskSet s, u.pid ≠ pid) ↔ ∀ i ∈ s.mp2ProcessList, (s.slab i).pid ≠ pid := by
  simp [taskSet, Mp2TaskStruct.params]

/-- The same list of records, each of them the same task, is the same task set. -/
theorem taskSet_congr {s t : Mp2} (hlist : t.mp2ProcessList = s.mp2ProcessList)
    (hsame : ∀ a ∈ s.mp2ProcessList, SameTask (s.slab a) (t.slab a)) : taskSet t = taskSet s := by
  unfold taskSet
  rw [hlist]
  apply List.map_congr_left
  intro a ha
  have h := hsame a ha
  simp only [Mp2TaskStruct.params, h.pid, h.period, h.processingTime]

/-- Linking a record adds the task of the call at the end. -/
theorem taskSet_linked {msecsToJiffies : UInt32 → UInt64} {s : Mp2} (hwf : WellFormed s)
    (c : RegCall) (found : TaskPtr) :
    taskSet (linked msecsToJiffies c found s) = taskSet s ++ [c.params] := by
  have hold : ∀ a ∈ s.mp2ProcessList,
      ((allocated msecsToJiffies c found s).slab a).params = (s.slab a).params := fun a ha => by
    rw [hwf.allocated_slab ha]
  show (s.mp2ProcessList ++ [s.freeRec]).map
    (fun a => ((allocated msecsToJiffies c found s).slab a).params) = _
  rw [List.map_append, List.map_congr_left hold]
  exact congrArg (fun t => taskSet s ++ [t]) (linked_params c found s)

/-- Removing the record of a pid removes the first task of that pid. -/
theorem taskSet_removed {s : Mp2} (hwf : WellFormed s) {d : RecPtr} (hd : d ∈ s.mp2ProcessList) :
    taskSet (removed d s) = (taskSet s).eraseP fun u => u.pid = (s.slab d).pid := by
  -- among the listed records `d` is told apart by its pid
  have herase : ∀ l : List RecPtr, l ⊆ s.mp2ProcessList →
      l.erase d = l.eraseP fun a => decide ((s.slab a).pid = (s.slab d).pid) := by
    intro l hl
    induction l with
    | nil => rfl
    | cons a l ih =>
        have ha : a ∈ s.mp2ProcessList := hl List.mem_cons_self
        rw [List.erase_cons, List.eraseP_cons, ih fun b hb => hl (List.mem_cons_of_mem _ hb)]
        by_cases had : a = d
        · simp [had]
        · have hpid : (s.slab a).pid ≠ (s.slab d).pid := fun h => had (hwf.pidInj a ha d hd h)
          simp [had, hpid]
  show (s.mp2ProcessList.erase d).map _ = _
  rw [taskSet, List.eraseP_map, herase _ (List.Subset.refl _)]
  rfl

/-! ## One call at a time -/

/-- **A whole registration without interference serves its request.** -/
theorem mp2Registration_taskSet {msecsToJiffies : UInt32 → UInt64} {s t : Mp2} {c : RegCall}
    {alloc : Bool} {found : TaskPtr} {rv : Int} (hwf : WellFormed s)
    (h : mp2Registration msecsToJiffies c alloc found s = some (rv, t)) :
    taskSet t = serve (taskSet s) (.register c.params (alloc && found != 0)) := by
  have htest : mp2AdmissionControl s c.period c.processingTime =
      utilizationTest (taskSet s) c.params := mp2AdmissionControl_eq s c.params
  have hpids : (∀ u ∈ taskSet s, u.pid ≠ c.params.pid) ↔
      ∀ i ∈ s.mp2ProcessList, (s.slab i).pid ≠ c.pid := forall_taskSet_pid_ne
  unfold mp2Registration at h
  rw [htest] at h
  split at h
  · cases h
  · next hadm =>
      obtain ⟨-, rfl⟩ : _ ∧ (mp2RegistrationInsert msecsToJiffies c alloc found s).2 = t := by
        simpa [Prod.ext_iff] using h
      rcases mp2RegistrationInsert_cases msecsToJiffies c alloc found s with
        ⟨⟨i, hi, hpid⟩, heq⟩ | ⟨hnew, ⟨rfl, heq⟩ | ⟨rfl, rfl, heq⟩ | ⟨rfl, hfound, heq⟩⟩
      · rw [heq, serve, if_neg fun hall => hpids.mp hall.2.2 i hi hpid]
      · rw [heq]
        rfl
      · rw [heq]
        exact taskSet_congr rfl fun a ha => by
          rw [hwf.allocated_slab ha]
          exact .refl _
      · rw [heq, taskSet_linked hwf, serve, if_pos ⟨by simpa using hfound, hadm, hpids.mpr hnew⟩]
  · next hne hadm =>
      obtain ⟨-, rfl⟩ : _ ∧ s = t := by simpa [Prod.ext_iff] using h
      rw [serve, if_neg]
      rintro ⟨-, hacc, -⟩
      exact hne (Option.some.inj (hadm.symm.trans hacc))

/-- **A de-registration serves its request.** -/
theorem mp2Deregistration_taskSet {s : Mp2} (hwf : WellFormed s) (pid : UInt32) :
    taskSet (mp2Deregistration pid s) = serve (taskSet s) (.deregister pid) := by
  rcases mp2Deregistration_cases pid s with ⟨heq, hnone⟩ | ⟨d, hd, rfl, heq⟩
  · have hnot : ∀ u ∈ taskSet s, ¬ decide (u.pid = pid) = true := by
      simpa using forall_taskSet_pid_ne.mpr hnone
    rw [heq, serve, List.eraseP_of_forall_not hnot]
  · rw [heq, taskSet_removed hwf hd]
    rfl

end KernelDev.Rms
