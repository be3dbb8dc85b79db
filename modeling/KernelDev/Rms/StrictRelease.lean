/-
# KernelDev.Rms.StrictRelease — which steps let a sleeping task go

A job is released at the beginning of its period and not before: the state of a registered task may
leave SLEEPING only in the timer callback of that very task. The dispatcher breaks this in one way:
preempting the current task marks it READY even when it has yielded.
`strictRelease_iff` says that nothing else does.
-/
import KernelDev.Rms.System

namespace KernelDev.Rms

open KernelDev.Lib

variable {msecsToJiffies : UInt32 → UInt64}

/-- Across `x`, record `a` stays registered and its state leaves SLEEPING. -/
structure LeavesSleeping (x : Transition Mp2 Act) (a : RecPtr) : Prop where
  before : a ∈ x.pre.mp2ProcessList
  after : a ∈ x.post.mp2ProcessList
  sleeping : (x.pre.slab a).state = .sleeping
  awake : (x.post.slab a).state ≠ .sleeping

/-- Only its own timer callback releases a task. -/
def StrictRelease (x : Transition Mp2 Act) : Prop := ∀ a, LeavesSleeping x a → x.act = .callback a

/-- No dispatcher pass finds a READY task of shorter period than a current task that is registered
and SLEEPING. -/
def SparesSleeping (x : Transition Mp2 Act) : Prop :=
  x.act = .dispatch → ∀ c ∈ x.pre.mp2CurrTask, c ∈ x.pre.mp2ProcessList →
    (x.pre.slab c).state = .sleeping →
      ∀ i ∈ x.pre.mp2ProcessList, (x.pre.slab i).state = .ready →
        (x.pre.slab c).period ≤ (x.pre.slab i).period

instance : DecidablePred SparesSleeping := fun x =>
  inferInstanceAs (Decidable (x.act = .dispatch → ∀ c ∈ x.pre.mp2CurrTask,
    c ∈ x.pre.mp2ProcessList → (x.pre.slab c).state = .sleeping →
      ∀ i ∈ x.pre.mp2ProcessList, (x.pre.slab i).state = .ready →
        (x.pre.slab c).period ≤ (x.pre.slab i).period))

/-! ## One step -/

/-- A step that leaves the states of registered tasks alone, or puts them to sleep, releases
none. -/
theorem strictRelease_of_state {x : Transition Mp2 Act}
    (h : ∀ a ∈ x.pre.mp2ProcessList, (x.post.slab a).state = (x.pre.slab a).state ∨
      (x.post.slab a).state = .sleeping) : StrictRelease x := by
  intro a ha
  rcases h a ha.before with heq | hsleep
  · exact absurd (heq.trans ha.sleeping) ha.awake
  · exact absurd hsleep ha.awake

theorem strictRelease_of_slab {x : Transition Mp2 Act}
    (h : ∀ a ∈ x.pre.mp2ProcessList, x.post.slab a = x.pre.slab a) : StrictRelease x :=
  strictRelease_of_state fun a ha => .inl (by rw [h a ha])

/-- A pass that dispatches releases a sleeping task exactly when the current task is one. -/
theorem strictRelease_dispatch_iff {s : Mp2} {h : RecPtr} (hmem : h ∈ s.mp2ProcessList)
    (hready : (s.slab h).state = .ready) (hlt : (s.slab h).period < (dispatchStart s).1) :
    StrictRelease ⟨s, .dispatch, dispatched h s⟩ ↔
      SparesSleeping ⟨s, .dispatch, dispatched h s⟩ := by
  by_cases hsleep : ∃ c, s.mp2CurrTask = some c ∧ c ∈ s.mp2ProcessList ∧
      (s.slab c).state = .sleeping
  · obtain ⟨c, hcurr, hc, hcs⟩ := hsleep
    rw [dispatchStart_fst_some hcurr] at hlt
    apply iff_of_false
    · -- the current task is marked READY
      intro hstrict
      have hch : c ≠ h := by
        rintro rfl
        rw [hready] at hcs
        cases hcs
      have hleaves : LeavesSleeping ⟨s, .dispatch, dispatched h s⟩ c := by
        refine ⟨hc, by simpa using hc, hcs, ?_⟩
        simp [dispatched_slab, hch, hcurr]
      cases hstrict c hleaves
    · intro hspares
      exact absurd hlt (UInt64.not_lt.mpr (hspares rfl c hcurr hc hcs h hmem hready))
  · apply iff_of_true
    · -- the task dispatched was READY and the one preempted was not asleep
      intro a ha
      have hah : a ≠ h := by
        rintro rfl
        exact absurd (hready.symm.trans ha.sleeping) (by decide)
      have hcurr : s.mp2CurrTask ≠ some a := fun hc => hsleep ⟨a, hc, ha.before, ha.sleeping⟩
      have hasleep : ((dispatched h s).slab a).state = .sleeping := by
        simpa [dispatched_slab, hah, hcurr] using ha.sleeping
      exact absurd hasleep ha.awake
    · intro _ c hcurr hc hcs
      exact absurd ⟨c, hcurr, hc, hcs⟩ hsleep

/-- **One step is a strict release exactly when it spares the sleeping current task.** -/
theorem strictRelease_step_iff {x : Transition Mp2 Act}
    (hx : step msecsToJiffies x.act x.pre = some x.post) (hwf : WellFormed x.pre) :
    StrictRelease x ↔ SparesSleeping x := by
  obtain ⟨s, act, t⟩ := x
  replace hwf : WellFormed s := hwf
  have he : Effect msecsToJiffies s act t := effect_of_step hx
  have htrivial : act ≠ .dispatch → SparesSleeping ⟨s, act, t⟩ := fun hne heq => absurd heq hne
  cases he with
  | insertNoTask | insertLink =>
      -- the record filled in is a fresh one
      apply iff_of_true _ (htrivial (by simp))
      apply strictRelease_of_slab
      exact fun a ha => (hwf.takeAdmitted _).allocated_slab ha
  | yieldOnTime y =>
      apply iff_of_true _ (htrivial (by simp))
      apply strictRelease_of_state
      intro a _
      show ((s.setState y .sleeping).slab a).state = _ ∨ ((s.setState y .sleeping).slab a).state = _
      rw [Mp2.setState_slab_eq]
      split
      · exact .inr rfl
      · exact .inl rfl
  | @callback a d =>
      apply iff_of_true _ (htrivial (by simp))
      -- a callback writes to its own record only
      intro b hb
      by_contra hne
      have hba : b ≠ a := fun heq => hne (by rw [heq])
      apply hb.awake
      show ((released a d _).slab b).state = .sleeping
      rw [released_slab, if_neg hba]
      exact hb.sleeping
  | dispatchStay hmin =>
      apply iff_of_true (strictRelease_of_slab fun _ _ => rfl)
      intro _ c hcurr _ _
      rwa [dispatchStart_fst_some hcurr] at hmin
  | dispatch h hmem hready hlt => exact strictRelease_dispatch_iff hmem hready hlt
  | scribble hfree =>
      apply iff_of_true _ (htrivial (by simp))
      exact strictRelease_of_slab fun b hb => hwf.store_free_slab hfree hb
  | reject | admission | insertDuplicate | insertNoMemory | yieldUnknown | yieldLate
  | deregisterUnknown | deregister | fire | callbackNone | tick | recycle =>
      exact iff_of_true (strictRelease_of_slab fun _ _ => rfl) (htrivial (by simp))

/-! ## Runs -/

/-- **In a run every release is strict exactly when no dispatcher pass preempts a sleeping current
task.** -/
theorem strictRelease_iff (msecsToJiffies : UInt32 → UInt64) (memory : RecPtr → Mp2TaskStruct)
    (jiffies : UInt64) {tr : List (Transition Mp2 Act)} {s : Mp2}
    (h : Exec (step msecsToJiffies) (Mp2.boot memory jiffies) tr s) :
    (∀ x ∈ tr, StrictRelease x) ↔ ∀ x ∈ tr, SparesSleeping x :=
  h.forall_iff (I := WellFormed) (wellFormed_boot memory jiffies)
    (fun _ hx hwf => hwf.step hx) (fun _ hx hwf => strictRelease_step_iff hx hwf)

/-- Process 9 is released after process 7 has yielded until 200, and preempts it. -/
def preemptSleeping : List Act :=
  secondTask ++ [.yield 7 7, .tick 150, .fire 1, .callback 1, .dispatch]

theorem preemptSleeping_runs :
    (runActions (step (·.toUInt64)) preemptSleeping quiet).isSome := rfl

theorem strictRelease_preemptRunning :
    (endOf _ _ _ preemptRunning_runs).mp2CurrTask = some 1 ∧
      ∀ x ∈ runOf (step (·.toUInt64)) preemptRunning quiet preemptRunning_runs,
        StrictRelease x :=
  ⟨rfl, (strictRelease_iff (·.toUInt64) _ _ (exec_runOf preemptRunning_runs)).mpr (by decide)⟩

/-- The pass that dispatches process 9 marks the yielded process 7 READY before its period. -/
theorem strictRelease_fails : ¬ ∀ msecsToJiffies memory jiffies tr s,
    Exec (step msecsToJiffies) (Mp2.boot memory jiffies) tr s → ∀ x ∈ tr, StrictRelease x := by
  intro hall
  have hstrict := hall _ _ _ _ _ (exec_runOf preemptSleeping_runs)
  have hlast : ∃ x ∈ runOf _ _ _ preemptSleeping_runs, x.act = .dispatch ∧
      0 ∈ x.pre.mp2ProcessList ∧ 0 ∈ x.post.mp2ProcessList ∧
      (x.pre.slab 0).state = .sleeping ∧ (x.post.slab 0).state ≠ .sleeping := by decide
  obtain ⟨x, hx, hact, hpre, hpost, hsleeping, hawake⟩ := hlast
  have hcallback := hstrict x hx 0 ⟨hpre, hpost, hsleeping, hawake⟩
  rw [hact] at hcallback
  cases hcallback

end KernelDev.Rms
