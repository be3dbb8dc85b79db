/-
# KernelDev.Rms.TimerLifetime — which records a timer callback may still touch

A record embeds its timer, so a callback reads and writes the record the timer sits in.
`mp2_deregistration` calls `del_timer`, which takes a queued timer off the queue and does not wait
for a callback that has already been fired; the record is freed in the same critical section.

`timersOwned_iff` says that a de-registration in that window is the only way a run lets a callback,
or a queued timer, outlive its record, and that in every other run each callback body finds its
record allocated.
-/
import KernelDev.Rms.System

namespace KernelDev.Rms

open KernelDev.Lib

variable {msecsToJiffies : UInt32 → UInt64} {s : Mp2}

/-- No timer, queued or already fired, belongs to a record that is not allocated. -/
structure TimersOwned (s : Mp2) : Prop where
  fired : ∀ a ∈ s.firedTimers, a ∈ s.live
  pending : ∀ a, (s.pendingTimer a).isSome → a ∈ s.live

/-- The body of a callback finds its record allocated. -/
def CallbackOnLive (x : Transition Mp2 Act) : Prop := ∀ a, x.act = .callback a → a ∈ x.pre.live

/-- No de-registration removes a record whose timer has fired and whose callback has not run. -/
def DrainsCallbacks (x : Transition Mp2 Act) : Prop :=
  ∀ pid ∈ x.act.deregisters, ∀ d ∈ x.pre.mp2ProcessList, (x.pre.slab d).pid = pid →
    d ∉ x.pre.firedTimers

-- Not left to instance search, which may go through all the pids there are.
instance : DecidablePred DrainsCallbacks := fun x => x.act.deregisters.decidableForallMem

theorem timersOwned_boot (memory : RecPtr → Mp2TaskStruct) (jiffies : UInt64) :
    TimersOwned (Mp2.boot memory jiffies) := by
  constructor <;> simp [Mp2.boot]

/-! ## One step -/

namespace TimersOwned

theorem modTimer (h : TimersOwned s) {a : RecPtr} (ha : a ∈ s.live) (expires : UInt64) :
    TimersOwned (s.modTimer a expires) where
  fired := h.fired
  pending b hb := by
    by_cases hba : b = a
    · rw [hba]
      exact ha
    · exact h.pending b (by simpa [Mp2.modTimer, hba] using hb)

theorem delTimer (h : TimersOwned s) (a : RecPtr) : TimersOwned (s.delTimer a) where
  fired := h.fired
  pending b hb := by
    by_cases hba : b = a
    · simp [Mp2.delTimer, hba] at hb
    · exact h.pending b (by simpa [Mp2.delTimer, hba] using hb)

/-- More allocated records do no harm. -/
theorem allocated (h : TimersOwned s) (msecsToJiffies : UInt32 → UInt64) (c : RegCall)
    (found : TaskPtr) :
    TimersOwned (allocated msecsToJiffies c found s) where
  fired a ha := List.mem_cons_of_mem _ (h.fired a ha)
  pending a ha := List.mem_cons_of_mem _ (h.pending a ha)

/-- What a set-up leaves in the wheel is of the record it is for. -/
theorem timerSetup (h : TimersOwned s) {a : RecPtr} (ha : a ∈ s.live) :
    TimersOwned (s.timerSetup a) where
  fired b hb := by
    rcases Mp2.mem_timerSetup_firedTimers.mp hb with hb | ⟨rfl, -⟩
    · exact h.fired b hb
    · exact ha
  pending b hb := by
    by_cases hba : b = a
    · simp [Mp2.timerSetup, hba] at hb
    · exact h.pending b (by simpa [Mp2.timerSetup, hba] using hb)

/-- A callback that starts leaves the list of fired ones. -/
theorem callbackStarts (h : TimersOwned s) (a : RecPtr) :
    TimersOwned { s with firedTimers := s.firedTimers.erase a } where
  fired b hb := h.fired b (List.mem_of_mem_erase hb)
  pending := h.pending

/-- **Freeing `d` keeps the timers owned exactly when no callback of `d` is under way.** -/
theorem removed_iff (h : TimersOwned s) (hwf : WellFormed s) (d : RecPtr) :
    TimersOwned (removed d s) ↔ d ∉ s.firedTimers := by
  have herase : ∀ a, a ∈ s.live.erase d ↔ a ≠ d ∧ a ∈ s.live := fun _ =>
    hwf.liveNodup.mem_erase_iff
  constructor
  · intro hpost hd
    exact ((herase d).mp (hpost.fired d hd)).1 rfl
  · intro hd
    refine ⟨fun a ha => (herase a).mpr ⟨?_, h.fired a ha⟩, fun a ha => (herase a).mpr ?_⟩
    · rintro rfl
      exact hd ha
    · -- `del_timer` took the timer of `d` off the queue
      have had : a ≠ d := by
        rintro rfl
        simp [removed] at ha
      exact ⟨had, h.pending a (by simpa [removed, had] using ha)⟩

end TimersOwned

/-- **One step keeps the timers owned exactly when it drains the callbacks of what it frees.** -/
theorem timersOwned_step_iff {x : Transition Mp2 Act}
    (hx : step msecsToJiffies x.act x.pre = some x.post) (hwf : WellFormed x.pre)
    (h : TimersOwned x.pre) : TimersOwned x.post ↔ DrainsCallbacks x := by
  obtain ⟨s, act, t⟩ := x
  replace hwf : WellFormed s := hwf
  replace h : TimersOwned s := h
  have he : Effect msecsToJiffies s act t := effect_of_step hx
  have htrivial : act.deregisters = none → DrainsCallbacks ⟨s, act, t⟩ := by
    intro hact
    simp [DrainsCallbacks, hact]
  cases he with
  | @insertNoTask e =>
      have ht : TimersOwned (s.takeAdmitted e) := ⟨h.fired, h.pending⟩
      exact iff_of_true (ht.allocated _ _ _) (htrivial rfl)
  | @insertLink e found =>
      have ht : TimersOwned (s.takeAdmitted e) := ⟨h.fired, h.pending⟩
      have halloc := (ht.allocated msecsToJiffies e.call found).timerSetup
        (a := (s.takeAdmitted e).freeRec) List.mem_cons_self
      exact iff_of_true ⟨halloc.fired, halloc.pending⟩ (htrivial rfl)
  | yieldOnTime y _ hy =>
      have hmod := h.modTimer (hwf.linkedLive y hy) (s.slab y).deadlineJiff
      exact iff_of_true ⟨hmod.fired, hmod.pending⟩ (htrivial rfl)
  | yieldLate y hy =>
      exact iff_of_true (h.modTimer (hwf.linkedLive y hy) _) (htrivial rfl)
  | @deregisterUnknown writer pid hnone =>
      apply iff_of_true h
      intro p hp d hd hpid
      obtain rfl : pid = p := by simpa [Act.deregisters] using hp
      exact absurd hpid (hnone d hd)
  | @deregister writer pid d hd hpid =>
      rw [h.removed_iff hwf]
      constructor
      · -- `d` is the only record of its pid
        intro hdrained p hp d' hd' hpid'
        obtain rfl : pid = p := by simpa [Act.deregisters] using hp
        obtain rfl : d' = d := hwf.pidInj d' hd' d hd (hpid'.trans hpid.symm)
        exact hdrained
      · intro hdrains
        exact hdrains pid rfl d hd hpid
  | @fire a hpending =>
      -- a queued timer becomes a fired one, of the same record
      refine iff_of_true ⟨?_, (h.delTimer a).pending⟩ (htrivial rfl)
      exact List.forall_mem_cons.mpr ⟨h.pending a hpending, h.fired⟩
  | callbackNone => exact iff_of_true (h.callbackStarts _) (htrivial rfl)
  | @callback a d hfired =>
      -- it re-arms the timer it came from, whose record is allocated
      have hmod := (h.callbackStarts a).modTimer (a := a) (h.fired a hfired) d
      exact iff_of_true ⟨hmod.fired, hmod.pending⟩ (htrivial rfl)
  | dispatch r =>
      refine iff_of_true ⟨?_, ?_⟩ (htrivial rfl)
      · simpa using h.fired
      · simpa using h.pending
  | reject | admission | insertDuplicate | insertNoMemory | yieldUnknown | dispatchStay | tick
  | scribble | recycle => exact iff_of_true ⟨h.fired, h.pending⟩ (htrivial rfl)

/-- A callback whose timer is owned finds its record allocated. -/
theorem callbackOnLive_of_timersOwned {x : Transition Mp2 Act}
    (hx : step msecsToJiffies x.act x.pre = some x.post) (h : TimersOwned x.pre) :
    CallbackOnLive x := by
  intro a ha
  rw [ha] at hx
  simp only [step] at hx
  split at hx
  · next hfired => exact h.fired a hfired
  · cases hx

/-! ## Runs -/

/-- **Along a run no timer outlives its record exactly when no de-registration removes a record
whose callback is under way; and then every callback body finds its record allocated.** -/
theorem timersOwned_iff (msecsToJiffies : UInt32 → UInt64) (memory : RecPtr → Mp2TaskStruct)
    (jiffies : UInt64) {tr : List (Transition Mp2 Act)} {s : Mp2}
    (h : Exec (step msecsToJiffies) (Mp2.boot memory jiffies) tr s) :
    ((∀ x ∈ tr, TimersOwned x.post) ↔ ∀ x ∈ tr, DrainsCallbacks x) ∧
      ((∀ x ∈ tr, DrainsCallbacks x) → ∀ x ∈ tr, CallbackOnLive x) := by
  refine ⟨h.forall_post_iff (I := WellFormed) (wellFormed_boot memory jiffies)
    (timersOwned_boot memory jiffies) (fun _ hx hwf => hwf.step hx)
    (fun _ hx hwf hq => timersOwned_step_iff hx hwf hq), fun hdrains x hx => ?_⟩
  have hall := h.guarded (I := fun s => WellFormed s ∧ TimersOwned s)
    ⟨wellFormed_boot memory jiffies, timersOwned_boot memory jiffies⟩
    (fun x hx hC hI => ⟨hI.1.step hx, (timersOwned_step_iff hx hI.1 hI.2).mpr hC⟩) hdrains
  exact callbackOnLive_of_timersOwned (h.isStep x hx) (hall.1 x hx).1.2

theorem timersOwned_firstDispatch :
    (∃ x ∈ runOf _ _ _ firstDispatch_runs, x.act = .callback 0) ∧
      ∀ x ∈ runOf (step (·.toUInt64)) firstDispatch quiet firstDispatch_runs,
        TimersOwned x.post ∧ CallbackOnLive x := by
  have hdrains : ∀ x ∈ runOf (step (·.toUInt64)) firstDispatch quiet firstDispatch_runs,
      DrainsCallbacks x := by decide
  have hruns := timersOwned_iff (·.toUInt64) _ _ (exec_runOf firstDispatch_runs)
  exact ⟨by decide, fun x hx => ⟨hruns.1.mpr hdrains x hx, hruns.2 hdrains x hx⟩⟩

/-- Process 7 registers and yields; its timer fires, and before the callback takes the lock the
process de-registers and registers again. -/
def deregInWindow : List Act :=
  [.admission ⟨7, 7, 100, 10⟩, .insert ⟨⟨7, 7, 100, 10⟩, []⟩ true 7, .yield 8 7, .fire 0,
    .deregister 9 7, .admission ⟨9, 7, 100, 10⟩, .insert ⟨⟨9, 7, 100, 10⟩, []⟩ true 7, .callback 0]

theorem deregInWindow_runs :
    (runActions (step (·.toUInt64)) deregInWindow quiet).isSome := rfl

/-- The callback then runs on the freed record, finds the pid it reads there registered, and queues
the timer inside the freed record. -/
theorem timersOwned_fails : ¬ ∀ msecsToJiffies memory jiffies tr s,
    Exec (step msecsToJiffies) (Mp2.boot memory jiffies) tr s →
      (∀ x ∈ tr, CallbackOnLive x) ∧ ∀ a, (s.pendingTimer a).isSome → a ∈ s.live := by
  intro hall
  have hpending := (hall _ _ _ _ _ (exec_runOf deregInWindow_runs)).2 0 (by decide)
  exact absurd hpending (by decide)

end KernelDev.Rms
