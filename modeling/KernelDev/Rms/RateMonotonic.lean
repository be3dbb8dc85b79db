/-
# KernelDev.Rms.RateMonotonic — when a dispatcher pass is rate-monotonic

A pass should leave the CPU with a READY or RUNNING task of least period, a RUNNING incumbent
winning ties, and should put the current process back to `SCHED_NORMAL` when no task is ready. The
scan of `mp2_dispatcher` starts from the current record's period whatever that record's state, so
an incumbent that is READY or SLEEPING is kept unless a READY task lies strictly below it, and is
then neither dispatched nor demoted. `mp2DispatcherPass_rateMonotonic_iff` is the exact condition.
-/
import KernelDev.Rms.Effects

namespace KernelDev.Rms

open KernelDev.Lib (LeastChoice)

variable {s : Mp2}

/-! ## The specification -/

/-- A listed task that is READY or RUNNING. -/
def Runnable (s : Mp2) (a : RecPtr) : Prop :=
  a ∈ s.mp2ProcessList ∧ ((s.slab a).state = .ready ∨ (s.slab a).state = .running)

/-- `mp2_curr_task` is NULL or listed, and a listed RUNNING record is `mp2_curr_task`. -/
structure CurrListed (s : Mp2) : Prop where
  curr : ∀ c, s.mp2CurrTask = some c → c ∈ s.mp2ProcessList
  running : ∀ a ∈ s.mp2ProcessList, (s.slab a).state = .running → s.mp2CurrTask = some a

/-- After the pass the current task is the rate-monotonic choice among the tasks runnable before it;
it is RUNNING, and was woken in this pass unless it was RUNNING already. -/
def DispatchesLeast (s : Mp2) : Prop :=
  ∃ c, (mp2DispatcherPass s).1.mp2CurrTask = some c ∧
    LeastChoice (Runnable s) (fun a => (s.slab a).period)
      (fun a => (s.slab a).state = .running) c ∧
    ((mp2DispatcherPass s).1.slab c).state = .running ∧
    ((s.slab c).state = .running ∨ .wakeUpProcess (s.slab c).task ∈ (mp2DispatcherPass s).2)

/-- Rate-monotonic dispatch, for one pass from `s`. -/
structure RateMonotonicPass (s : Mp2) : Prop where
  dispatch : (∃ a, Runnable s a) → DispatchesLeast s
  idle : (¬ ∃ a, Runnable s a) → ∀ c, s.mp2CurrTask = some c →
    ((mp2DispatcherPass s).1.attr (s.slab c).task).schedPolicy = .schedNormal

/-- The states from which a pass is rate-monotonic. -/
def RateMonotonicState (s : Mp2) : Prop :=
  match s.mp2CurrTask with
  | none =>
      (∃ a ∈ s.mp2ProcessList, (s.slab a).state = .ready) →
        ∃ a ∈ s.mp2ProcessList, (s.slab a).state = .ready ∧ (s.slab a).period < ulongMax
  | some c =>
      (s.slab c).state = .running ∨
      (∃ a ∈ s.mp2ProcessList, (s.slab a).state = .ready ∧
        (s.slab a).period < (s.slab c).period) ∨
      ((∀ a ∈ s.mp2ProcessList, (s.slab a).state ≠ .ready) ∧
        (s.attr (s.slab c).task).schedPolicy = .schedNormal)

/-! ## The two outcomes of a pass -/

/-- Without a RUNNING incumbent only READY tasks are runnable. -/
theorem CurrListed.ready_of_runnable (hs : CurrListed s)
    (hidle : ∀ c, s.mp2CurrTask = some c → (s.slab c).state ≠ .running) {a : RecPtr}
    (ha : Runnable s a) : (s.slab a).state = .ready := by
  obtain ⟨hmem, hready | hrunning⟩ := ha
  · exact hready
  · exact absurd hrunning (hidle a (hs.running a hmem hrunning))

/-- A pass that dispatches a task is rate-monotonic. -/
theorem dispatchesLeast_of_dispatched (hs : CurrListed s) {h : RecPtr} {calls : List KernelCall}
    (hmem : h ∈ s.mp2ProcessList) (hready : (s.slab h).state = .ready)
    (hlt : (s.slab h).period < (dispatchStart s).1)
    (hmin : ∀ i ∈ s.mp2ProcessList, (s.slab i).state = .ready →
      (s.slab h).period ≤ (s.slab i).period)
    (hpass : mp2DispatcherPass s = (dispatched h s, calls))
    (hwake : .wakeUpProcess (s.slab h).task ∈ calls) : DispatchesLeast s := by
  -- a RUNNING task is the incumbent, whose period is where the scan started
  have hrun : ∀ i, i ∈ s.mp2ProcessList → (s.slab i).state = .running →
      (s.slab h).period < (s.slab i).period := by
    intro i hi hrunning
    rwa [dispatchStart_fst_some (hs.running i hi hrunning)] at hlt
  refine ⟨h, by simp [hpass], ⟨⟨hmem, .inl hready⟩, ?_, ?_⟩, by simp [hpass, dispatched_slab],
    .inr (by rw [hpass]; exact hwake)⟩
  · rintro i ⟨hi, hr | hr⟩
    · exact hmin i hi hr
    · exact UInt64.le_of_lt (hrun i hi hr)
  · intro i hrunning hi hleast
    have hle := hleast h ⟨hmem, .inl hready⟩
    exact absurd (hrun i hi.1 hrunning) (UInt64.not_lt.mpr hle)

/-- A RUNNING incumbent with no shorter READY task is the choice already. -/
theorem dispatchesLeast_of_running (hs : CurrListed s) {c : RecPtr} (hcurr : s.mp2CurrTask = some c)
    (hrunning : (s.slab c).state = .running) (hstay : mp2DispatcherPass s = (s, []))
    (hmin : ∀ i ∈ s.mp2ProcessList, (s.slab i).state = .ready →
      (s.slab c).period ≤ (s.slab i).period) : DispatchesLeast s := by
  have honly : ∀ i, i ∈ s.mp2ProcessList → (s.slab i).state = .running → c = i := by
    intro i hi hr
    simpa [hcurr] using hs.running i hi hr
  refine ⟨c, by rw [hstay]; exact hcurr, ⟨⟨hs.curr c hcurr, .inr hrunning⟩, ?_, ?_⟩,
    by rw [hstay]; exact hrunning, .inl hrunning⟩
  · rintro i ⟨hi, hr | hr⟩
    · exact hmin i hi hr
    · rw [honly i hi hr]
      exact UInt64.le_refl _
  · exact fun i hr hi _ => honly i hi.1 hr

/-- A pass that changes nothing without a RUNNING incumbent dispatches nothing. -/
theorem not_dispatchesLeast_of_stay (hstay : mp2DispatcherPass s = (s, []))
    (hidle : ∀ c, s.mp2CurrTask = some c → (s.slab c).state ≠ .running) : ¬ DispatchesLeast s := by
  rintro ⟨c, hcurr, _, hrunning, _⟩
  rw [hstay] at hcurr hrunning
  exact hidle c hcurr hrunning

/-! ## The exact condition -/

/-- **A pass is rate-monotonic exactly from the states of `RateMonotonicState`**: the incumbent is
RUNNING, or a READY task lies strictly below the incumbent's period (`ULONG_MAX` without an
incumbent), or no task is READY and there is no process left to demote. -/
theorem mp2DispatcherPass_rateMonotonic_iff (s : Mp2) (hs : CurrListed s) :
    RateMonotonicPass s ↔ RateMonotonicState s := by
  rcases mp2DispatcherPass_cases s with ⟨hstay, hmin⟩ | ⟨h, hmem, hready, hlt, hmin, _, hpass⟩
  · -- nothing is dispatched: right only for a RUNNING incumbent, or when there is nothing to do
    cases hcurr : s.mp2CurrTask with
    | none =>
        rw [dispatchStart_fst_none hcurr] at hmin
        have hidle : ∀ c, s.mp2CurrTask = some c → (s.slab c).state ≠ .running := by
          simp [hcurr]
        simp only [RateMonotonicState, hcurr]
        constructor
        · rintro ⟨hdispatch, _⟩ ⟨a, ha, har⟩
          exact absurd (hdispatch ⟨a, ha, .inl har⟩) (not_dispatchesLeast_of_stay hstay hidle)
        · intro hcond
          refine ⟨?_, by simp [hcurr]⟩
          rintro ⟨a, ha⟩
          obtain ⟨b, hb, hbr, hblt⟩ := hcond ⟨a, ha.1, hs.ready_of_runnable hidle ha⟩
          exact absurd hblt (UInt64.not_lt.mpr (hmin b hb hbr))
    | some c =>
        rw [dispatchStart_fst_some hcurr] at hmin
        simp only [RateMonotonicState, hcurr]
        by_cases hrunning : (s.slab c).state = .running
        · refine iff_of_true ⟨fun _ => ?_, fun hno => ?_⟩ (.inl hrunning)
          · exact dispatchesLeast_of_running hs hcurr hrunning hstay hmin
          · exact absurd ⟨c, hs.curr c hcurr, .inr hrunning⟩ hno
        · have hidle : ∀ d, s.mp2CurrTask = some d → (s.slab d).state ≠ .running := by
            simpa [hcurr] using hrunning
          constructor
          · rintro ⟨hdispatch, hdemote⟩
            have hno : ¬ ∃ a, Runnable s a := fun ha =>
              not_dispatchesLeast_of_stay hstay hidle (hdispatch ha)
            -- with no READY task the pass had to demote the incumbent's process, and did not
            refine .inr (.inr ⟨fun a ha har => hno ⟨a, ha, .inl har⟩, ?_⟩)
            simpa [hstay] using hdemote hno c hcurr
          · rintro (hr | ⟨a, ha, har, hlt⟩ | ⟨hnone, hnormal⟩)
            · exact absurd hr hrunning
            · exact absurd hlt (UInt64.not_lt.mpr (hmin a ha har))
            · refine ⟨?_, ?_⟩
              · rintro ⟨a, ha⟩
                exact absurd (hs.ready_of_runnable hidle ha) (hnone a ha.1)
              · intro _ d hd
                obtain rfl : c = d := by simpa [hcurr] using hd
                simpa [hstay] using hnormal
  · -- a task below the starting bound is dispatched: always right
    have hdisp : DispatchesLeast s :=
      dispatchesLeast_of_dispatched hs hmem hready hlt hmin hpass (by simp)
    refine iff_of_true ⟨fun _ => hdisp, fun hno => absurd ⟨h, hmem, .inl hready⟩ hno⟩ ?_
    cases hcurr : s.mp2CurrTask with
    | none =>
        rw [dispatchStart_fst_none hcurr] at hlt
        simp only [RateMonotonicState, hcurr]
        exact fun _ => ⟨h, hmem, hready, hlt⟩
    | some c =>
        rw [dispatchStart_fst_some hcurr] at hlt
        simp only [RateMonotonicState, hcurr]
        exact .inr (.inl ⟨h, hmem, hready, hlt⟩)

/-- The current task of period 10 has yielded, and a task of period 20 is READY. -/
def sleepingIncumbent : Mp2 :=
  { Mp2.boot
      (fun a => if a = 0 then ⟨1, 10, 3, 100, 1, .sleeping⟩ else ⟨2, 20, 5, 200, 2, .ready⟩) 0 with
    live := [0, 1]
    nextRec := 2
    mp2ProcessList := [0, 1]
    mp2CurrTask := some 0
    attr := fun t => if t = 1 then fifoAttr else normalAttr }

/-- The current task of period 20 is RUNNING, and a task of period 10 has become READY. -/
def runningIncumbent : Mp2 :=
  { Mp2.boot
      (fun a => if a = 0 then ⟨1, 20, 3, 100, 1, .running⟩ else ⟨2, 10, 5, 200, 2, .ready⟩) 0 with
    live := [0, 1]
    nextRec := 2
    mp2ProcessList := [0, 1]
    mp2CurrTask := some 0
    attr := fun t => if t = 1 then fifoAttr else normalAttr }

theorem sleepingIncumbent_currListed : CurrListed sleepingIncumbent where
  curr := by
    intro c hc
    obtain rfl : 0 = c := by simpa [sleepingIncumbent] using hc
    decide
  running := by decide

theorem runningIncumbent_currListed : CurrListed runningIncumbent where
  curr := by
    intro c hc
    obtain rfl : 0 = c := by simpa [runningIncumbent] using hc
    decide
  running := by decide

/-- The condition is met when a RUNNING task of longer period is preempted. -/
theorem runningIncumbent_rateMonotonic :
    CurrListed runningIncumbent ∧ RateMonotonicPass runningIncumbent :=
  ⟨runningIncumbent_currListed,
    (mp2DispatcherPass_rateMonotonic_iff runningIncumbent runningIncumbent_currListed).mpr
      (.inl rfl)⟩

/-- A yielded current task of shorter period keeps a READY task from being dispatched. -/
theorem rateMonotonicPass_sleepingIncumbent_fails :
    ¬ ∀ s, CurrListed s → RateMonotonicPass s := by
  intro hall
  have hready : Runnable sleepingIncumbent 1 := ⟨by decide, .inl rfl⟩
  obtain ⟨c, hcurr, _, hrunning, _⟩ :=
    (hall sleepingIncumbent sleepingIncumbent_currListed).dispatch ⟨1, hready⟩
  have hkept : (mp2DispatcherPass sleepingIncumbent).1.mp2CurrTask = some 0 := by decide
  obtain rfl : 0 = c := by simpa [hkept] using hcurr
  have hsleeping : ((mp2DispatcherPass sleepingIncumbent).1.slab 0).state = .sleeping := by decide
  rw [hsleeping] at hrunning
  cases hrunning

end KernelDev.Rms
