/-
# KernelDev.Profiler.Unload — mp3_exit against the worker

`mp3_exit` takes `mp3_proc_list_lock`, cancels `dwork`, flushes the workqueue and destroys it, all
while it holds the lock. Cancelling takes `dwork` off the timer or the queue and does not wait for
an execution in progress; flushing waits for the execution in progress and for queued work, not for
work whose timer is still pending.

An execution that is past the threshold test queues `dwork` again and then goes for the lock. If
`mp3_exit` finds it there, neither goes on. If it does not, there is nobody left to queue `dwork`:
what the cancellation has cleared stays clear.
-/
import KernelDev.Profiler.Sampling

namespace KernelDev.Profiler

open KernelDev.Lib

/-! ## The state -/

/-- Where `mp3_exit` is: what it has done last; in `flushing` it is inside `flush_workqueue`. -/
inductive ExitPc
  | idle
  | locked
  | cancelled
  | flushing
  | flushed
  | destroyed
  | freed
  | unlocked
  | returned
  deriving DecidableEq, Repr

namespace ExitPc

def holdsLock : ExitPc → Bool
  | .idle => false
  | .unlocked => false
  | .returned => false
  | _ => true

/-- It has cancelled `dwork`, and executions may be in progress. -/
def cancels : ExitPc → Bool
  | .cancelled => true
  | .flushing => true
  | _ => false

theorem holdsLock_of_cancels {pc : ExitPc} (h : pc.cancels) : pc.holdsLock := by
  cases pc <;> first | rfl | cases h

/-- The workqueue is flushed. -/
def pastFlush : ExitPc → Bool
  | .flushed => true
  | .destroyed => true
  | .freed => true
  | .unlocked => true
  | .returned => true
  | _ => false

end ExitPc

/-- The execution is past the threshold test and has not got the lock yet. -/
def WorkPhase.committed : WorkPhase → Bool
  | .passed => true
  | .requeued => true
  | .stamped => true
  | _ => false

/-- The module while it is unloaded. -/
structure Unloading where
  sampler : Sampler
  exit : ExitPc

def Unloading.boot (mp3 : Mp3) (live : Finset UInt32) (counters : UInt32 → CpuUse) : Unloading where
  sampler := Sampler.boot mp3 live counters
  exit := .idle

/-- `mp3_exit` holds the lock and waits for the execution in progress, which waits for the lock. -/
def Unloading.Deadlocked (s : Unloading) : Prop :=
  s.exit.holdsLock ∧ s.exit = .flushing ∧ s.sampler.phase = .stamped

/-- No work is running or queued: `dwork` is not pending, or only its timer is. -/
def Sampler.flushable (s : Sampler) : Bool :=
  s.phase = .idle ∧ ∀ due ∈ s.dwork, s.now < due

/-! ## The steps -/

inductive UnloadAct
  | sampler (act : SamplerAct)
  | exitLock
  | exitCancel
  | exitFlush
  | exitFlushed
  | exitDestroy
  | exitNoQueue
  | exitFree
  | exitUnlock
  | exitVfree
  deriving DecidableEq, Repr

/-- The step takes `mp3_proc_list_lock`. -/
def SamplerAct.acquires : SamplerAct → Bool
  | .register _ _ => true
  | .unregister _ => true
  | .acquire => true
  | _ => false

/-- The step needs the workqueue and the cache the records are allocated from. -/
def SamplerAct.registers : SamplerAct → Bool
  | .register _ _ => true
  | _ => false

section
variable (msecsToJiffies : UInt32 → UInt64) (pageSize : Nat) (jiffiesToMsecs : UInt64 → UInt32)
  (workqueue : Bool)

/-- `workqueue` says whether `mp3_init` got a workqueue. A registration without one does not return,
nor does one that finds the module taken apart. -/
def unloadStep : UnloadAct → Unloading → Option Unloading
  | .sampler act, s =>
      if (act.acquires → s.exit.holdsLock = false) ∧
          (act.registers → s.exit = .idle ∧ workqueue) then
        (samplerStep msecsToJiffies pageSize jiffiesToMsecs act s.sampler).map fun sampler =>
          { s with sampler := sampler }
      else none
  | .exitLock, s =>
      if s.exit = .idle ∧ s.sampler.phase.holdsLock = false then some { s with exit := .locked }
      else none
  | .exitCancel, s =>
      if s.exit = .locked ∧ workqueue then
        some { s with sampler := { s.sampler with dwork := none }, exit := .cancelled }
      else none
  | .exitFlush, s => if s.exit = .cancelled then some { s with exit := .flushing } else none
  | .exitFlushed, s =>
      if s.exit = .flushing ∧ s.sampler.flushable then some { s with exit := .flushed } else none
  | .exitDestroy, s =>
      if s.exit = .flushed ∧ s.sampler.flushable then some { s with exit := .destroyed } else none
  | .exitNoQueue, s =>
      -- `mp3_workqueue == NULL`
      if s.exit = .locked ∧ workqueue = false then some { s with exit := .destroyed } else none
  | .exitFree, s =>
      if s.exit = .destroyed then
        some { s with sampler := { s.sampler with processList := [] }, exit := .freed }
      else none
  | .exitUnlock, s => if s.exit = .freed then some { s with exit := .unlocked } else none
  | .exitVfree, s =>
      -- `vfree_mem_buffer` takes the lock and releases it
      if s.exit = .unlocked ∧ s.sampler.phase.holdsLock = false then
        some { s with exit := .returned }
      else none

/-- The outcomes of the steps, one constructor each. -/
inductive UnloadEffect (s : Unloading) : UnloadAct → Unloading → Prop
  | sampler {act : SamplerAct} {sampler : Sampler}
      (hfree : act.acquires → s.exit.holdsLock = false)
      (hloaded : act.registers → s.exit = .idle ∧ workqueue)
      (he : SamplerEffect msecsToJiffies pageSize jiffiesToMsecs s.sampler act sampler) :
      UnloadEffect s (.sampler act) { s with sampler := sampler }
  | exitLock (hpc : s.exit = .idle) (hfree : s.sampler.phase.holdsLock = false) :
      UnloadEffect s .exitLock { s with exit := .locked }
  | exitCancel (hpc : s.exit = .locked) :
      UnloadEffect s .exitCancel
        { s with sampler := { s.sampler with dwork := none }, exit := .cancelled }
  | exitFlush (hpc : s.exit = .cancelled) :
      UnloadEffect s .exitFlush { s with exit := .flushing }
  | exitFlushed (hpc : s.exit = .flushing) (hidle : s.sampler.phase = .idle) :
      UnloadEffect s .exitFlushed { s with exit := .flushed }
  | exitDestroy (hpc : s.exit = .flushed) :
      UnloadEffect s .exitDestroy { s with exit := .destroyed }
  | exitNoQueue (hpc : s.exit = .locked) (hnone : workqueue = false) :
      UnloadEffect s .exitNoQueue { s with exit := .destroyed }
  | exitFree (hpc : s.exit = .destroyed) :
      UnloadEffect s .exitFree
        { s with sampler := { s.sampler with processList := [] }, exit := .freed }
  | exitUnlock (hpc : s.exit = .freed) : UnloadEffect s .exitUnlock { s with exit := .unlocked }
  | exitVfree (hpc : s.exit = .unlocked) : UnloadEffect s .exitVfree { s with exit := .returned }

variable {msecsToJiffies pageSize jiffiesToMsecs workqueue}

theorem unloadEffect_of_step {act : UnloadAct} {s t : Unloading}
    (h : unloadStep msecsToJiffies pageSize jiffiesToMsecs workqueue act s = some t) :
    UnloadEffect msecsToJiffies pageSize jiffiesToMsecs workqueue s act t := by
  cases act with
  | sampler act =>
      simp only [unloadStep] at h
      split at h
      · next hguard =>
          obtain ⟨sampler, hstep, rfl⟩ := Option.map_eq_some_iff.mp h
          exact .sampler hguard.1 hguard.2 (samplerEffect_of_step hstep)
      · cases h
  | exitLock =>
      obtain ⟨⟨hpc, hfree⟩, rfl⟩ := by simpa [unloadStep] using h
      exact .exitLock hpc hfree
  | exitCancel =>
      obtain ⟨⟨hpc, _⟩, rfl⟩ := by simpa [unloadStep] using h
      exact .exitCancel hpc
  | exitFlush =>
      obtain ⟨hpc, rfl⟩ := by simpa [unloadStep] using h
      exact .exitFlush hpc
  | exitFlushed =>
      obtain ⟨⟨hpc, hflush⟩, rfl⟩ := by simpa [unloadStep] using h
      have hidle : s.sampler.phase = .idle := (of_decide_eq_true hflush).1
      exact .exitFlushed hpc hidle
  | exitDestroy =>
      obtain ⟨⟨hpc, _⟩, rfl⟩ := by simpa [unloadStep] using h
      exact .exitDestroy hpc
  | exitNoQueue =>
      obtain ⟨⟨hpc, hnone⟩, rfl⟩ := by simpa [unloadStep] using h
      exact .exitNoQueue hpc hnone
  | exitFree =>
      obtain ⟨hpc, rfl⟩ := by simpa [unloadStep] using h
      exact .exitFree hpc
  | exitUnlock =>
      obtain ⟨hpc, rfl⟩ := by simpa [unloadStep] using h
      exact .exitUnlock hpc
  | exitVfree =>
      obtain ⟨⟨hpc, _⟩, rfl⟩ := by simpa [unloadStep] using h
      exact .exitVfree hpc

end

variable {msecsToJiffies : UInt32 → UInt64} {pageSize : Nat} {jiffiesToMsecs : UInt64 → UInt32}
  {workqueue : Bool} {s t : Unloading} {act : UnloadAct}

/-! ## What is left of `dwork` -/

/-- Nobody queues `dwork` again once it is cancelled but an execution past the threshold test, which
does not end while `mp3_exit` holds the lock. -/
structure Cancelled (workqueue : Bool) (s : Unloading) : Prop where
  noQueue : workqueue = false → s.sampler.phase = .idle ∧ s.sampler.dwork = none
  exclusive : s.exit.holdsLock → s.sampler.phase.holdsLock = false
  cancelled : s.exit.cancels → s.sampler.phase = .idle ∨ s.sampler.phase = .started ∨
    s.sampler.phase = .passed → s.sampler.dwork = none
  flushed : s.exit.pastFlush → s.sampler.phase = .idle ∧ s.sampler.dwork = none

theorem cancelled_boot (mp3 : Mp3) (live : Finset UInt32) (counters : UInt32 → CpuUse) :
    Cancelled workqueue (Unloading.boot mp3 live counters) := by
  constructor <;> simp [Unloading.boot, Sampler.boot, WorkPhase.holdsLock, ExitPc.cancels]

/-- With no execution in progress and `dwork` not pending, that does not change but by a
registration. -/
theorem SamplerEffect.rests {s t : Sampler} {act : SamplerAct}
    (he : SamplerEffect msecsToJiffies pageSize jiffiesToMsecs s act t)
    (hact : act.registers = false) (hs : s.phase = .idle ∧ s.dwork = none) :
    t.phase = .idle ∧ t.dwork = none := by
  obtain ⟨hidle, hnone⟩ := hs
  cases he with
  | register => cases hact
  | unregister | increment | tick => exact ⟨hidle, hnone⟩
  | start due hphase hpending =>
      rw [hnone] at hpending
      cases hpending
  | checkReturn hphase | checkPass hphase | requeue hphase | stamp hphase | acquire hphase
  | readNone hphase | read hphase | store hphase =>
      rw [hidle] at hphase
      cases hphase

/-- An execution gets the lock by acquiring it. -/
theorem SamplerEffect.holdsLock {s t : Sampler} {act : SamplerAct}
    (he : SamplerEffect msecsToJiffies pageSize jiffiesToMsecs s act t)
    (hact : act.acquires = false) (hs : s.phase.holdsLock = false) : t.phase.holdsLock = false := by
  cases he with
  | register | unregister | acquire => cases hact
  | increment | tick => exact hs
  | readNone hphase | read hphase =>
      rw [hphase] at hs
      cases hs
  | _ => rfl

/-- While the lock is held by somebody else `dwork` is queued by executions past the threshold test
only. -/
theorem SamplerEffect.dwork_none {s t : Sampler} {act : SamplerAct}
    (he : SamplerEffect msecsToJiffies pageSize jiffiesToMsecs s act t)
    (hact : act.acquires = false) (hfree : s.phase.holdsLock = false)
    (hs : s.phase = .idle ∨ s.phase = .started ∨ s.phase = .passed → s.dwork = none)
    (ht : t.phase = .idle ∨ t.phase = .started ∨ t.phase = .passed) : t.dwork = none := by
  cases he with
  | register | unregister | acquire => cases hact
  | increment | tick => exact hs ht
  | start => rfl
  | checkReturn hphase | checkPass hphase => exact hs (.inr (.inl hphase))
  | requeue | stamp => simp at ht
  | readNone hphase | read hphase | store hphase =>
      rw [hphase] at hfree
      cases hfree

theorem Cancelled.effect (h : Cancelled workqueue s)
    (he : UnloadEffect msecsToJiffies pageSize jiffiesToMsecs workqueue s act t) :
    Cancelled workqueue t := by
  cases he with
  | @sampler act sampler hfree hloaded he =>
      have hacquires : s.exit.holdsLock → act.acquires = false := by
        intro hholds
        by_contra hact
        rw [hfree (Bool.not_eq_false _ ▸ hact)] at hholds
        cases hholds
      refine ⟨fun hnone => ?_, fun hholds => ?_, fun hcancels ht => ?_, fun hpast => ?_⟩
      · refine he.rests ?_ (h.noQueue hnone)
        by_contra hact
        rw [hnone] at hloaded
        exact absurd (hloaded (Bool.not_eq_false _ ▸ hact)).2 (by simp)
      · exact he.holdsLock (hacquires hholds) (h.exclusive hholds)
      · have hholds : s.exit.holdsLock := ExitPc.holdsLock_of_cancels hcancels
        exact he.dwork_none (hacquires hholds) (h.exclusive hholds) (h.cancelled hcancels) ht
      · refine he.rests ?_ (h.flushed hpast)
        by_contra hact
        rw [(hloaded (Bool.not_eq_false _ ▸ hact)).1] at hpast
        cases hpast
  | exitLock hpc hfree =>
      exact ⟨h.noQueue, fun _ => hfree, fun hc => (by cases hc), fun hp => by cases hp⟩
  | exitCancel hpc =>
      exact ⟨fun hnone => ⟨(h.noQueue hnone).1, rfl⟩, fun _ => h.exclusive (by rw [hpc]; rfl),
        fun _ _ => rfl, fun hp => by cases hp⟩
  | exitFlush hpc =>
      exact ⟨h.noQueue, fun _ => h.exclusive (by rw [hpc]; rfl),
        fun _ => h.cancelled (by rw [hpc]; rfl), fun hp => by cases hp⟩
  | exitFlushed hpc hidle =>
      have hnone : s.sampler.dwork = none := h.cancelled (by rw [hpc]; rfl) (.inl hidle)
      exact ⟨h.noQueue, fun _ => h.exclusive (by rw [hpc]; rfl), fun hc => (by cases hc),
        fun _ => ⟨hidle, hnone⟩⟩
  | exitNoQueue hpc hnone =>
      exact ⟨h.noQueue, fun _ => h.exclusive (by rw [hpc]; rfl), fun hc => (by cases hc),
        fun _ => h.noQueue hnone⟩
  | exitDestroy hpc | exitFree hpc =>
      exact ⟨h.noQueue, fun _ => h.exclusive (by rw [hpc]; rfl), fun hc => (by cases hc),
        fun _ => h.flushed (by rw [hpc]; rfl)⟩
  | exitUnlock hpc | exitVfree hpc =>
      exact ⟨h.noQueue, fun hholds => (by cases hholds), fun hc => (by cases hc),
        fun _ => h.flushed (by rw [hpc]; rfl)⟩

/-! ## The deadlock -/

/-- `mp3_exit` waits for an execution that will wait for the lock. -/
def Unloading.Doomed (s : Unloading) : Prop := s.exit = .flushing ∧ s.sampler.phase.committed

theorem Unloading.Deadlocked.doomed (h : s.Deadlocked) : s.Doomed := by
  obtain ⟨_, hpc, hphase⟩ := h
  exact ⟨hpc, by rw [hphase]; rfl⟩

/-- `mp3_exit` does not flush while an execution is past the threshold test and without the lock,
and no execution passes the test while it flushes. -/
structure FlushesQuiet (jiffiesToMsecs : UInt64 → UInt32) (x : Transition Unloading UnloadAct) :
    Prop where
  flush : x.act = .exitFlush → x.pre.sampler.phase.committed = false
  check : x.act = .sampler .check → x.pre.exit = .flushing →
    x.pre.sampler.elapsedMs jiffiesToMsecs < threshSamplingPeriodMs

instance : DecidablePred (FlushesQuiet jiffiesToMsecs) := fun x =>
  decidable_of_iff ((x.act = .exitFlush → x.pre.sampler.phase.committed = false) ∧
      (x.act = .sampler .check → x.pre.exit = .flushing →
        x.pre.sampler.elapsedMs jiffiesToMsecs < threshSamplingPeriodMs))
    ⟨fun h => ⟨h.1, h.2⟩, fun h => ⟨h.flush, h.check⟩⟩

/-- A step that is neither the start of the flush nor a threshold test. -/
theorem flushesQuiet_of_ne {x : Transition Unloading UnloadAct} (hflush : x.act ≠ .exitFlush)
    (hcheck : x.act ≠ .sampler .check) : FlushesQuiet jiffiesToMsecs x :=
  ⟨fun h => absurd h hflush, fun h => absurd h hcheck⟩

/-- Only a threshold test that is passed makes an execution go for the lock. -/
theorem SamplerEffect.committed {s t : Sampler} {act : SamplerAct}
    (he : SamplerEffect msecsToJiffies pageSize jiffiesToMsecs s act t)
    (hs : s.phase.committed = false) (ht : t.phase.committed) :
    act = .check ∧ threshSamplingPeriodMs ≤ s.elapsedMs jiffiesToMsecs := by
  cases he with
  | checkPass hphase hreached => exact ⟨rfl, hreached⟩
  | register | unregister | increment | tick =>
      replace ht : s.phase.committed := ht
      rw [hs] at ht
      cases ht
  | requeue hphase | stamp hphase =>
      rw [hphase] at hs
      cases hs
  | _ => cases ht

/-- An execution that goes for the lock does so until it gets it. -/
theorem SamplerEffect.committed_kept {s t : Sampler} {act : SamplerAct}
    (he : SamplerEffect msecsToJiffies pageSize jiffiesToMsecs s act t)
    (hact : act ≠ .acquire) (hs : s.phase.committed) : t.phase.committed := by
  cases he with
  | acquire => exact absurd rfl hact
  | register | unregister | increment | tick => exact hs
  | requeue | stamp | checkPass => rfl
  | start due hphase | checkReturn hphase | readNone hphase | read hphase | store hphase =>
      rw [hphase] at hs
      cases hs

/-- **One step keeps clear of the deadlock exactly when it is quiet.** -/
theorem doomed_step_iff {x : Transition Unloading UnloadAct}
    (hx : unloadStep msecsToJiffies pageSize jiffiesToMsecs workqueue x.act x.pre = some x.post)
    (hfree : ¬ x.pre.Doomed) : ¬ x.post.Doomed ↔ FlushesQuiet jiffiesToMsecs x := by
  obtain ⟨s, act, t⟩ := x
  replace hfree : ¬ s.Doomed := hfree
  have he : UnloadEffect msecsToJiffies pageSize jiffiesToMsecs workqueue s act t :=
    unloadEffect_of_step hx
  cases he with
  | @sampler act sampler _ _ he =>
      by_cases hpc : s.exit = .flushing
      · have hs : s.sampler.phase.committed = false := by
          by_contra hcommitted
          exact hfree ⟨hpc, Bool.not_eq_false _ ▸ hcommitted⟩
        constructor
        · -- a test made while `mp3_exit` flushes is not passed
          refine fun hquiet => ⟨fun h => (by cases h), fun hact _ => ?_⟩
          obtain rfl := UnloadAct.sampler.inj hact
          cases he with
          | checkReturn _ hbelow => exact hbelow
          | checkPass => exact absurd ⟨hpc, rfl⟩ hquiet
        · rintro hquiet ⟨_, hcommitted⟩
          obtain ⟨rfl, hreached⟩ := he.committed hs hcommitted
          exact absurd (hquiet.check rfl hpc) (UInt32.not_lt.mpr hreached)
      · exact iff_of_true (fun hd => hpc hd.1)
          ⟨fun h => (by cases h), fun _ hflushing => absurd hflushing hpc⟩
  | exitFlush hpc =>
      have hpost : Unloading.Doomed { s with exit := .flushing } ↔ s.sampler.phase.committed := by
        simp [Unloading.Doomed]
      rw [show (¬ _) ↔ ¬ _ from not_congr hpost]
      constructor
      · intro hcommitted
        exact ⟨fun _ => Bool.not_eq_true _ ▸ hcommitted, fun h => by cases h⟩
      · intro hquiet
        rw [hquiet.flush rfl]
        simp
  | exitLock | exitCancel | exitFlushed | exitDestroy | exitNoQueue | exitFree | exitUnlock
  | exitVfree =>
      exact iff_of_true (fun hd => by cases hd.1) (flushesQuiet_of_ne (by simp) (by simp))

/-- **Nothing but the lock lets the execution go on.** -/
theorem Unloading.Doomed.effect (hd : s.Doomed)
    (he : UnloadEffect msecsToJiffies pageSize jiffiesToMsecs workqueue s act t) : t.Doomed := by
  obtain ⟨hpc, hcommitted⟩ := hd
  cases he with
  | @sampler act sampler hfree _ he =>
      have hact : act ≠ .acquire := by
        rintro rfl
        have hheld := hfree rfl
        rw [hpc] at hheld
        cases hheld
      exact ⟨hpc, he.committed_kept hact hcommitted⟩
  | exitFlushed _ hidle =>
      rw [hidle] at hcommitted
      cases hcommitted
  | exitLock hs | exitCancel hs | exitFlush hs | exitDestroy hs | exitNoQueue hs | exitFree hs
  | exitUnlock hs | exitVfree hs =>
      rw [hpc] at hs
      cases hs

/-- The sampler steps under the exit routine, as long as it neither takes the lock nor registers. -/
theorem unloadStep_sampler {act : SamplerAct} {u : Sampler} (hacquires : ¬ act.acquires)
    (hregisters : ¬ act.registers)
    (hstep : samplerStep msecsToJiffies pageSize jiffiesToMsecs act s.sampler = some u) :
    unloadStep msecsToJiffies pageSize jiffiesToMsecs workqueue (.sampler act) s =
      some { s with sampler := u } := by
  rw [unloadStep, if_pos ⟨fun h => absurd h hacquires, fun h => absurd h hregisters⟩, hstep]
  rfl

/-- The execution goes on to where it waits for the lock. -/
theorem Unloading.Doomed.exec (hd : s.Doomed) :
    ∃ tr t, Exec (unloadStep msecsToJiffies pageSize jiffiesToMsecs workqueue) s tr t ∧
      t.Deadlocked := by
  obtain ⟨hpc, hcommitted⟩ := hd
  have hstamp : ∀ s : Unloading, s.exit = .flushing → s.sampler.phase = .requeued →
      ∃ tr t, Exec (unloadStep msecsToJiffies pageSize jiffiesToMsecs workqueue) s tr t ∧
        t.Deadlocked := by
    intro s hpc hphase
    refine ⟨_, { s with sampler := { s.sampler with
      mp3 := { s.sampler.mp3 with oldJiffies := s.sampler.mp3.jiffies }, phase := .stamped } },
      .single (a := .sampler .stamp) ?_, ?_⟩
    · exact unloadStep_sampler nofun nofun (if_pos hphase)
    · exact ⟨by rw [hpc]; rfl, hpc, rfl⟩
  cases hphase : s.sampler.phase with
  | stamped => exact ⟨[], s, .refl s, by rw [hpc]; rfl, hpc, hphase⟩
  | requeued => exact hstamp s hpc hphase
  | passed =>
      have hstep : unloadStep msecsToJiffies pageSize jiffiesToMsecs workqueue
          (.sampler .requeue) s = some { s with sampler :=
            { s.sampler.queueDwork msecsToJiffies with phase := .requeued } } :=
        unloadStep_sampler nofun nofun (if_pos hphase)
      obtain ⟨tr, t, hexec, ht⟩ := hstamp { s with sampler :=
        { s.sampler.queueDwork msecsToJiffies with phase := .requeued } } hpc rfl
      exact ⟨_, t, (Exec.single hstep).trans hexec, ht⟩
  | idle | started | reading =>
      rw [hphase] at hcommitted
      cases hcommitted

/-- **A run keeps clear of the deadlock exactly when all of its steps are quiet.** -/
theorem doomed_iff {mp3 : Mp3} {live : Finset UInt32} {counters : UInt32 → CpuUse}
    {tr : List (Transition Unloading UnloadAct)}
    (h : Exec (unloadStep msecsToJiffies pageSize jiffiesToMsecs workqueue)
      (Unloading.boot mp3 live counters) tr s) :
    (∀ x ∈ tr, ¬ x.post.Doomed) ↔ ∀ x ∈ tr, FlushesQuiet jiffiesToMsecs x :=
  h.forall_post_iff (I := fun _ => True) (Q := fun s => ¬ s.Doomed) trivial
    (fun hd => by cases hd.1) (fun _ _ _ => trivial)
    (fun _ hx _ hQ => doomed_step_iff hx hQ)

/-- A step that is not quiet leads to the deadlock. -/
theorem exec_deadlocked {mp3 : Mp3} {live : Finset UInt32} {counters : UInt32 → CpuUse}
    {tr : List (Transition Unloading UnloadAct)}
    (h : Exec (unloadStep msecsToJiffies pageSize jiffiesToMsecs workqueue)
      (Unloading.boot mp3 live counters) tr s)
    (hloud : ¬ ∀ x ∈ tr, FlushesQuiet jiffiesToMsecs x) :
    ∃ tr' t, Exec (unloadStep msecsToJiffies pageSize jiffiesToMsecs workqueue) s tr' t ∧
      t.Deadlocked := by
  rw [← doomed_iff h] at hloud
  push Not at hloud
  obtain ⟨x, hx, hd⟩ := hloud
  obtain ⟨before, after, rfl⟩ := List.append_of_mem hx
  obtain ⟨_, _, hafter⟩ := h.split
  have hs : s.Doomed := (hafter.invariant hd fun _ hx hI => hI.effect (unloadEffect_of_step hx)).2
  exact hs.exec

end KernelDev.Profiler
