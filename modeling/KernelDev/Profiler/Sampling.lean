/-
# KernelDev.Profiler.Sampling — what keeps the samples coming

An execution of `mp3_work_function` queues the next one itself, after a test that returns when less
than 25 ms have passed since `old_jiffies`. `old_jiffies` is stored some time after `dwork` has been
queued, and the test is made on a 32-bit number of milliseconds, so that an execution can come too
early for it although the workqueue waits for the whole period. It then returns without queueing
`dwork`, and if no registration has done so in the meantime nobody will.

`sampling_continues_iff` says that this branch is the only way for the samples to stop.
-/
import KernelDev.Profiler.Sampler

namespace KernelDev.Profiler

open KernelDev.Lib

variable {msecsToJiffies : UInt32 → UInt64} {pageSize : Nat} {jiffiesToMsecs : UInt64 → UInt32}
  {s t : Sampler}

/-- After the first registration `dwork` is pending whenever no execution is in progress. -/
def Sampling (s : Sampler) : Prop := s.registered → s.phase = .idle → s.dwork.isSome

/-- The threshold test is passed, or made while `dwork` has been queued again. -/
def KeepsQueued (jiffiesToMsecs : UInt64 → UInt32) (x : Transition Sampler SamplerAct) : Prop :=
  x.act = .check →
    threshSamplingPeriodMs ≤ x.pre.elapsedMs jiffiesToMsecs ∨ x.pre.dwork.isSome

instance : DecidablePred (KeepsQueued jiffiesToMsecs) := fun x =>
  inferInstanceAs (Decidable (x.act = .check → _))

/-- The execution has queued the next one. -/
def WorkPhase.hasQueued : WorkPhase → Bool
  | .idle => false
  | .started => false
  | .passed => false
  | _ => true

/-- Work is queued by registrations first, and what an execution has queued stays queued until it
is over. -/
structure QueueKept (s : Sampler) : Prop where
  registered : s.phase ≠ .idle ∨ s.dwork.isSome → s.registered
  queued : s.phase.hasQueued → s.dwork.isSome

theorem queueKept_boot (mp3 : Mp3) (live : Finset UInt32) (counters : UInt32 → CpuUse) :
    QueueKept (Sampler.boot mp3 live counters) := by
  constructor <;> simp [Sampler.boot, WorkPhase.hasQueued]

@[simp] theorem queueDwork_dwork (s : Sampler) : (s.queueDwork msecsToJiffies).dwork.isSome := by
  simp [Sampler.queueDwork]

namespace QueueKept

theorem effect {act : SamplerAct} (h : QueueKept s)
    (he : SamplerEffect msecsToJiffies pageSize jiffiesToMsecs s act t) : QueueKept t := by
  -- an execution in progress was queued by a registration
  have hstarted : ∀ {phase : WorkPhase}, s.phase = phase → phase ≠ .idle → s.registered := by
    rintro phase rfl hne
    exact h.registered (.inl hne)
  cases he with
  | register => exact ⟨fun _ => rfl, fun _ => queueDwork_dwork s⟩
  | unregister | increment | tick => exact ⟨h.registered, h.queued⟩
  | start due hphase hpending =>
      exact ⟨fun _ => h.registered (.inr (by simp [hpending])), fun hq => by cases hq⟩
  | checkReturn hphase =>
      exact ⟨fun _ => hstarted hphase (by simp), fun hq => by cases hq⟩
  | checkPass hphase =>
      exact ⟨fun _ => hstarted hphase (by simp), fun hq => by cases hq⟩
  | requeue hphase =>
      exact ⟨fun _ => hstarted hphase (by simp), fun _ => queueDwork_dwork s⟩
  | stamp hphase =>
      exact ⟨fun _ => hstarted hphase (by simp), fun _ => h.queued (by rw [hphase]; rfl)⟩
  | acquire hphase =>
      exact ⟨fun _ => hstarted hphase (by simp), fun _ => h.queued (by rw [hphase]; rfl)⟩
  | readNone hphase | read hphase =>
      exact ⟨fun _ => hstarted hphase (by simp), fun _ => h.queued (by rw [hphase]; rfl)⟩
  | store hphase =>
      exact ⟨fun _ => hstarted hphase (by simp), fun hq => by cases hq⟩

end QueueKept

/-- **One step keeps the samples coming exactly when it does not return early with `dwork` not
queued.** -/
theorem sampling_step_iff {x : Transition Sampler SamplerAct}
    (hx : samplerStep msecsToJiffies pageSize jiffiesToMsecs x.act x.pre = some x.post)
    (hq : QueueKept x.pre) (h : Sampling x.pre) :
    Sampling x.post ↔ KeepsQueued jiffiesToMsecs x := by
  obtain ⟨s, act, t⟩ := x
  replace hq : QueueKept s := hq
  replace h : Sampling s := h
  have he : SamplerEffect msecsToJiffies pageSize jiffiesToMsecs s act t := samplerEffect_of_step hx
  have hother : act ≠ .check → KeepsQueued jiffiesToMsecs ⟨s, act, t⟩ := fun hne heq =>
    absurd heq hne
  cases he with
  | register => exact iff_of_true (fun _ _ => queueDwork_dwork s) (hother (by simp))
  | unregister | increment | tick => exact iff_of_true h (hother (by simp))
  | start | requeue | stamp | acquire | readNone | read =>
      -- an execution is in progress
      exact iff_of_true (fun _ hidle => by cases hidle) (hother (by simp))
  | checkReturn hphase hbelow =>
      have hreg : s.registered := hq.registered (.inl (by simp [hphase]))
      constructor
      · intro hpost _
        exact .inr (hpost hreg rfl)
      · intro hkeeps _ _
        rcases hkeeps rfl with hreached | hpending
        · exact absurd hbelow (UInt32.not_lt.mpr hreached)
        · exact hpending
  | checkPass hphase hreached =>
      exact iff_of_true (fun _ hidle => by cases hidle) fun _ => .inl hreached
  | store hphase =>
      have hpending : s.dwork.isSome := hq.queued (by rw [hphase]; rfl)
      exact iff_of_true (fun _ _ => hpending) (hother (by simp))

/-- **Along a run `dwork` is pending whenever no execution is in progress, after the first
registration, exactly when every threshold test is passed or made with `dwork` queued again.** -/
theorem sampling_continues_iff (msecsToJiffies : UInt32 → UInt64) (pageSize : Nat)
    (jiffiesToMsecs : UInt64 → UInt32) (mp3 : Mp3) (live : Finset UInt32)
    (counters : UInt32 → CpuUse) {tr : List (Transition Sampler SamplerAct)} {s : Sampler}
    (h : Exec (samplerStep msecsToJiffies pageSize jiffiesToMsecs)
      (Sampler.boot mp3 live counters) tr s) :
    (∀ x ∈ tr, Sampling x.post) ↔ ∀ x ∈ tr, KeepsQueued jiffiesToMsecs x :=
  h.forall_post_iff (I := QueueKept) (queueKept_boot mp3 live counters)
    (fun hreg => by cases hreg)
    (fun _ hx hI => hI.effect (samplerEffect_of_step hx))
    (fun _ hx hI hQ => sampling_step_iff hx hI hQ)

/-- Process 7 registers, and the first execution 50 jiffies later goes through without delay. -/
def firstSample : List SamplerAct :=
  [.register 7 true, .tick 50, .start, .check, .requeue, .stamp, .acquire, .read, .store]

/-- Nothing stored yet, with the clock at 0. -/
def quietSampler : Sampler :=
  Sampler.boot (vmallocMemBuffer 4096 (fun _ => 0) 0) {7} fun _ => ⟨3, 1, 10, 2⟩

/-- One jiffy is one millisecond. -/
def hz1000 : SamplerAct → Sampler → Option Sampler := samplerStep (·.toUInt64) 4096 (·.toUInt32)

theorem firstSample_runs : (runActions hz1000 firstSample quietSampler).isSome := rfl

theorem sampling_firstSample :
    (∃ x ∈ runOf hz1000 firstSample quietSampler firstSample_runs, x.act = .store) ∧
      ∀ x ∈ runOf hz1000 firstSample quietSampler firstSample_runs, Sampling x.post :=
  ⟨by decide, (sampling_continues_iff (·.toUInt64) 4096 (·.toUInt32) _ _ _
    (exec_runOf firstSample_runs)).mpr (by decide)⟩

/-- Another process registers while the first execution has just started, so that the execution
finds `dwork` queued already; and it is 40 ms before it stores `old_jiffies`. The next execution
comes 10 ms after that. -/
def stalled : List SamplerAct :=
  [.register 7 true, .tick 50, .start, .check, .register 8 true, .requeue, .tick 40, .stamp,
    .acquire, .read, .read, .store, .tick 10, .start, .check]

theorem stalled_runs : (runActions hz1000 stalled quietSampler).isSome := rfl

theorem sampling_continues_fails :
    ¬ ∀ msecsToJiffies pageSize jiffiesToMsecs mp3 live counters tr s,
      Exec (samplerStep msecsToJiffies pageSize jiffiesToMsecs) (Sampler.boot mp3 live counters)
        tr s → s.registered → s.phase = .idle → s.dwork.isSome := by
  intro hall
  have hpending := hall (·.toUInt64) 4096 (·.toUInt32) _ _ _ _ _ (exec_runOf stalled_runs) rfl rfl
  exact absurd hpending (by decide)

end KernelDev.Profiler
