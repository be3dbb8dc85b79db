/-
# KernelDev.Rms.RunningTask — at most one registered task is RUNNING

A record's state and `mp2_curr_task` are written by different operations: the dispatcher writes
both, a yield and a timer callback the state only, and a de-registration neither. The dispatcher
preempts whatever `mp2_curr_task` refers to before it promotes another record, so a listed record
that is RUNNING is the current one at all times.
-/
import KernelDev.Rms.System

namespace KernelDev.Rms

open KernelDev.Lib

variable {msecsToJiffies : UInt32 → UInt64} {s : Mp2}

/-- A listed record in state RUNNING is the one `mp2_curr_task` refers to. -/
def RunningIsCurrent (s : Mp2) : Prop :=
  ∀ a ∈ s.mp2ProcessList, (s.slab a).state = .running → s.mp2CurrTask = some a

theorem runningIsCurrent_boot (memory : RecPtr → Mp2TaskStruct) (jiffies : UInt64) :
    RunningIsCurrent (Mp2.boot memory jiffies) := by
  simp [RunningIsCurrent, Mp2.boot]

/-- There is one current task. -/
theorem RunningIsCurrent.unique (h : RunningIsCurrent s) {a b : RecPtr}
    (ha : a ∈ s.mp2ProcessList) (hb : b ∈ s.mp2ProcessList)
    (hrun : (s.slab a).state = .running) (hrun' : (s.slab b).state = .running) : a = b := by
  have hcurr := h a ha hrun
  rw [h b hb hrun'] at hcurr
  exact (Option.some.inj hcurr).symm

/-- **Every action keeps the RUNNING records current.** -/
theorem RunningIsCurrent.effect {act : Act} {t : Mp2} (h : RunningIsCurrent s) (hwf : WellFormed s)
    (he : Effect msecsToJiffies s act t) : RunningIsCurrent t := by
  cases he with
  | @insertNoTask e =>
      intro a ha hrun
      have hold : (allocated msecsToJiffies e.call 0 (s.takeAdmitted e)).slab a = s.slab a :=
        (hwf.takeAdmitted e).allocated_slab ha
      rw [hold] at hrun
      exact h a ha hrun
  | @insertLink e found =>
      intro a ha hrun
      rcases List.mem_append.mp ha with ha | ha
      · have hold : (linked msecsToJiffies e.call found (s.takeAdmitted e)).slab a = s.slab a :=
          (hwf.takeAdmitted e).allocated_slab ha
        rw [hold] at hrun
        exact h a ha hrun
      · -- the new record is SLEEPING
        rw [List.mem_singleton.mp ha, linked_slab_freeRec] at hrun
        cases hrun
  | yieldOnTime y =>
      intro a ha hrun
      replace hrun : ((s.setState y .sleeping).slab a).state = .running := hrun
      by_cases hay : a = y
      · rw [hay, Mp2.setState_state_same] at hrun
        cases hrun
      · rw [Mp2.setState_slab_other s .sleeping hay] at hrun
        exact h a ha hrun
  | deregister d => exact fun a ha hrun => h a (List.mem_of_mem_erase ha) hrun
  | @callback b d =>
      intro a ha hrun
      rw [released_slab] at hrun
      split at hrun
      · cases hrun
      · exact h a ha hrun
  | dispatch r hr =>
      -- the record preempted is the one that may have been RUNNING
      intro a ha hrun
      rw [dispatched_mp2ProcessList] at ha
      simp only [dispatched_slab] at hrun
      by_cases har : a = r
      · rw [har, dispatched_mp2CurrTask]
      · rw [if_neg har] at hrun
        split at hrun
        · cases hrun
        · next hcurr => exact absurd (h a ha hrun) hcurr
  | scribble hfree =>
      intro a ha hrun
      rw [hwf.store_free_slab hfree ha] at hrun
      exact h a ha hrun
  | reject | admission | insertDuplicate | insertNoMemory | yieldUnknown | yieldLate
  | deregisterUnknown | fire | callbackNone | dispatchStay | tick | recycle => exact h

/-- **In every state of a run a RUNNING record is the current one, so there is at most one.** -/
theorem running_unique (msecsToJiffies : UInt32 → UInt64) (memory : RecPtr → Mp2TaskStruct)
    (jiffies : UInt64) {tr : List (Transition Mp2 Act)} {s : Mp2}
    (h : Exec (step msecsToJiffies) (Mp2.boot memory jiffies) tr s) :
    (∀ a ∈ s.mp2ProcessList, (s.slab a).state = .running → s.mp2CurrTask = some a) ∧
      ∀ a ∈ s.mp2ProcessList, ∀ b ∈ s.mp2ProcessList, (s.slab a).state = .running →
        (s.slab b).state = .running → a = b := by
  have hinv := h.invariant (I := fun s => WellFormed s ∧ RunningIsCurrent s)
    ⟨wellFormed_boot memory jiffies, runningIsCurrent_boot memory jiffies⟩
    fun x hx hI => ⟨hI.1.step hx, hI.2.effect hI.1 (effect_of_step hx)⟩
  have hcurr : RunningIsCurrent s := hinv.2.2
  exact ⟨hcurr, fun a ha b hb => hcurr.unique ha hb⟩

/-- RUNNING moves from record 0 to record 1, which is then the only one. -/
theorem running_unique_preemptRunning :
    let s := endOf (step (·.toUInt64)) preemptRunning quiet preemptRunning_runs
    (∃ x ∈ runOf (step (·.toUInt64)) preemptRunning quiet preemptRunning_runs,
        (x.pre.slab 0).state = .running ∧ (x.post.slab 1).state = .running) ∧
      s.mp2ProcessList = [0, 1] ∧ s.mp2CurrTask = some 1 ∧
      ∀ a ∈ s.mp2ProcessList, (s.slab a).state = .running → a = 1 := by
  intro s
  have hlisted : 1 ∈ s.mp2ProcessList := by decide
  have hrun : (s.slab 1).state = .running := by decide
  obtain ⟨hcurr, hunique⟩ := running_unique (·.toUInt64) _ _ (exec_runOf preemptRunning_runs)
  exact ⟨by decide, by decide, hcurr 1 hlisted hrun,
    fun a ha hrun' => hunique a ha 1 hlisted hrun' hrun⟩

end KernelDev.Rms
