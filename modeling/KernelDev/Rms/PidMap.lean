/-
# KernelDev.Rms.PidMap — the process list is a map keyed by pid

`mp2_registration` looks for its pid in the same critical section that links the record, so the
process list never holds two records of one pid, whatever runs between the admission test and that
section. Three loops rely on it: a de-registration stops at the first record of its pid, a yield
takes the first one, and a timer callback advances its deadline once for EVERY entry that matches.
-/
import KernelDev.Rms.System

namespace KernelDev.Rms

open KernelDev.Lib

variable {msecsToJiffies : UInt32 → UInt64} {s : Mp2}

namespace WellFormed

/-- The pids of the list in order are distinct. -/
theorem pids_nodup (h : WellFormed s) : (s.mp2ProcessList.map fun i => (s.slab i).pid).Nodup :=
  h.nodup.map_on h.pidInj

theorem pairwise_pid (h : WellFormed s) :
    s.mp2ProcessList.Pairwise fun a b => (s.slab a).pid ≠ (s.slab b).pid :=
  List.pairwise_map.mp h.pids_nodup

/-- Taking one record off the list takes its pid off the list. -/
theorem erase_eq_filter (h : WellFormed s) {d : RecPtr} (hd : d ∈ s.mp2ProcessList) :
    s.mp2ProcessList.erase d =
      s.mp2ProcessList.filter fun i => (s.slab i).pid ≠ (s.slab d).pid := by
  rw [h.nodup.erase_eq_filter]
  apply List.filter_congr
  intro i hi
  by_cases heq : i = d
  · simp [heq]
  · have hpid : (s.slab i).pid ≠ (s.slab d).pid := fun hpid => heq (h.pidInj i hi d hd hpid)
    simp [heq, hpid]

end WellFormed

/-- **A de-registration removes its pid and nothing else.** -/
theorem mp2Deregistration_filter (h : WellFormed s) (pid : UInt32) :
    (mp2Deregistration pid s).mp2ProcessList =
        s.mp2ProcessList.filter (fun i => (s.slab i).pid ≠ pid) ∧
      (mp2Deregistration pid s).slab = s.slab ∧
      ∀ i ∈ (mp2Deregistration pid s).mp2ProcessList,
        (mp2Deregistration pid s).pendingTimer i = s.pendingTimer i := by
  rcases mp2Deregistration_cases pid s with ⟨heq, hnone⟩ | ⟨d, hd, rfl, heq⟩
  · rw [heq]
    exact ⟨(List.filter_eq_self.mpr (by simpa using hnone)).symm, rfl, fun _ _ => rfl⟩
  · rw [heq]
    refine ⟨h.erase_eq_filter hd, rfl, fun i hi => ?_⟩
    -- the timer deleted is the one embedded in the record removed
    have hid : i ≠ d := (h.nodup.mem_erase_iff.mp hi).1
    simp [removed, hid]

/-- **The process list of every state of a run is a map keyed by pid**: no pid is linked twice, a
de-registration of `pid` leaves the entries of the other pids in their order, with their contents
and timers, and a callback advances its deadline by one period or not at all. -/
theorem mp2ProcessList_keyed (msecsToJiffies : UInt32 → UInt64) (memory : RecPtr → Mp2TaskStruct)
    (jiffies : UInt64) {tr : List (Transition Mp2 Act)} {s : Mp2}
    (h : Exec (step msecsToJiffies) (Mp2.boot memory jiffies) tr s) :
    (s.mp2ProcessList.Pairwise fun a b => (s.slab a).pid ≠ (s.slab b).pid) ∧
      (∀ pid,
        (∀ i ∈ (mp2Deregistration pid s).mp2ProcessList,
          ((mp2Deregistration pid s).slab i).pid ≠ pid) ∧
        (mp2Deregistration pid s).mp2ProcessList =
          s.mp2ProcessList.filter (fun i => (s.slab i).pid ≠ pid) ∧
        ∀ i ∈ (mp2Deregistration pid s).mp2ProcessList,
          (mp2Deregistration pid s).slab i = s.slab i ∧
            (mp2Deregistration pid s).pendingTimer i = s.pendingTimer i) ∧
      ∀ a, (mp2TimerCallback msecsToJiffies a s = s ∨
          ((mp2TimerCallback msecsToJiffies a s).slab a).deadlineJiff =
            (s.slab a).deadlineJiff + msecsToJiffies (s.slab a).period.toUInt32) ∧
        ∀ b, b ≠ a → (mp2TimerCallback msecsToJiffies a s).slab b = s.slab b := by
  have hwf : WellFormed s :=
    (h.invariant (wellFormed_boot memory jiffies) fun _ hx hI => hI.step hx).2
  refine ⟨hwf.pairwise_pid, fun pid => ?_, fun a => ?_⟩
  · obtain ⟨hlist, hslab, htimer⟩ := mp2Deregistration_filter hwf pid
    refine ⟨fun i hi => ?_, hlist, fun i hi => ⟨by rw [hslab], htimer i hi⟩⟩
    rw [hlist] at hi
    rw [hslab]
    simpa using (List.mem_filter.mp hi).2
  · rw [mp2TimerCallback_eq hwf.pids_nodup]
    split
    · refine ⟨.inr ?_, fun b hb => ?_⟩
      · rw [released_slab, if_pos rfl]
      · rw [released_slab, if_neg hb]
    · exact ⟨.inl rfl, fun _ _ => rfl⟩

/-- De-registering process 7 leaves process 9 with its record and its timer. -/
theorem mp2ProcessList_keyed_secondTask :
    let s := endOf (step (·.toUInt64)) secondTask quiet secondTask_runs
    s.mp2ProcessList = [0, 1] ∧ (mp2Deregistration 7 s).mp2ProcessList = [1] ∧
      ∀ i ∈ (mp2Deregistration 7 s).mp2ProcessList,
        (mp2Deregistration 7 s).slab i = s.slab i ∧
          (mp2Deregistration 7 s).pendingTimer i = s.pendingTimer i :=
  ⟨by decide, by decide,
    ((mp2ProcessList_keyed (·.toUInt64) _ _ (exec_runOf secondTask_runs)).2.1 7).2.2⟩

end KernelDev.Rms
