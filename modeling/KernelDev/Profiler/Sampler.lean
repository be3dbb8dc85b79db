/-
# KernelDev.Profiler.Sampler — the profiler under any interleaving of its steps

`mp3_work_function` runs in a worker thread. Up to the point where it takes `mp3_proc_list_lock` it
holds no lock, so the threshold test, the re-queueing of `dwork` and the store to `old_jiffies` are
steps of their own; under the lock it calls `get_cpu_use` for one list entry after the other while
the processes go on running. A registration or an unregistration is one critical section.

The workqueue is the kernel's: `queue_delayed_work` does nothing while `dwork` is pending, an
execution starts no earlier than the delay, clears the pending mark and does not overlap another.
The records of `mp3_process_list` are their pids, since nothing reads the other fields. A process is
its pid, and the processes there are do not change.
-/
import KernelDev.Lib.Execution
import KernelDev.Profiler.Buffer
import Mathlib.Data.Finset.Basic

namespace KernelDev.Profiler

open KernelDev.Lib

/-! ## The state -/

/-- The sums of one execution. -/
structure Totals where
  minFlt : UInt64
  majFlt : UInt64
  cpuUtil : UInt64
  deriving DecidableEq, Repr

def Totals.zero : Totals := ⟨0, 0, 0⟩

/-- One entry added to the sums. -/
def Totals.add (t : Totals) (u : CpuUse) : Totals where
  minFlt := t.minFlt + u.minFlt
  majFlt := t.majFlt + u.majFlt
  cpuUtil := t.cpuUtil + u.utime + u.stime

/-- The sample the sums are stored as. -/
def Totals.sample (t : Totals) (jiffies : UInt64) : Sample :=
  ⟨jiffies, t.minFlt, t.majFlt, t.cpuUtil⟩

def CpuUse.zero : CpuUse := ⟨0, 0, 0, 0⟩

/-- Counters going on by what a process uses. -/
def CpuUse.plus (c u : CpuUse) : CpuUse where
  minFlt := c.minFlt + u.minFlt
  majFlt := c.majFlt + u.majFlt
  utime := c.utime + u.utime
  stime := c.stime + u.stime

/-- Where an execution of `mp3_work_function` is: what it has done last. `reading` holds the lock,
with the entries it has still to read and the sums so far. -/
inductive WorkPhase
  | idle
  | started
  | passed
  | requeued
  | stamped
  | reading (left : List UInt32) (totals : Totals)
  deriving DecidableEq, Repr

/-- The execution holds `mp3_proc_list_lock`. -/
def WorkPhase.holdsLock : WorkPhase → Bool
  | .reading _ _ => true
  | _ => false

/-- The module with the worker, the timer queue and the processes. -/
structure Sampler where
  mp3 : Mp3
  /-- `mp3_process_list`. -/
  processList : List UInt32
  /-- The processes there are, and the counters in their `task_struct`. -/
  live : Finset UInt32
  counters : UInt32 → CpuUse
  /-- Jiffies since the start, never wrapping. -/
  now : Nat
  /-- The time before which `dwork` does not run, while it is pending. -/
  dwork : Option Nat
  phase : WorkPhase
  /-- History: there has been a registration. -/
  registered : Bool

/-- After `mp3_init`. -/
def Sampler.boot (mp3 : Mp3) (live : Finset UInt32) (counters : UInt32 → CpuUse) : Sampler where
  mp3 := mp3
  processList := []
  live := live
  counters := counters
  now := 0
  dwork := none
  phase := .idle
  registered := false

/-! ## The operations -/

/-- `SAMPLING_PERIOD_ms`. -/
def samplingPeriodMs : UInt32 := 50

/-- `get_cpu_use`: the counters, which are reset; `none` is its -1, for a pid of no process. -/
def getCpuUse (pid : UInt32) (s : Sampler) : Option CpuUse × Sampler :=
  if pid ∈ s.live then
    (some (s.counters pid), { s with counters := Function.update s.counters pid .zero })
  else (none, s)

section
variable (msecsToJiffies : UInt32 → UInt64)

/-- `queue_delayed_work(mp3_workqueue, &dwork, msecs_to_jiffies(SAMPLING_PERIOD_ms))`. -/
def Sampler.queueDwork (s : Sampler) : Sampler :=
  { s with dwork := s.dwork.or (some (s.now + (msecsToJiffies samplingPeriodMs).toNat)) }

/-- `mp3_registration`. Without memory for the record there is no return: the DEBUG line after the
critical section reads the record through NULL. -/
def mp3Registration (pid : UInt32) (alloc : Bool) (s : Sampler) : Option (Int × Sampler) :=
  if alloc then
    some (0, { s.queueDwork msecsToJiffies with
      processList := s.processList ++ [pid], registered := true })
  else none

/-- `mp3_unregistration`: the first record of the pid goes, if there is one. -/
def mp3Unregistration (pid : UInt32) (s : Sampler) : Int × Sampler :=
  (0, { s with processList := s.processList.erase pid })

variable (pageSize : Nat) (jiffiesToMsecs : UInt64 → UInt32)

/-! ## The steps -/

inductive SamplerAct
  | register (pid : UInt32) (alloc : Bool)
  | unregister (pid : UInt32)
  | increment (pid : UInt32) (use : CpuUse)
  | tick (n : Nat)
  | start
  | check
  | requeue
  | stamp
  | acquire
  | read
  | store
  deriving DecidableEq, Repr

/-- The milliseconds between two executions, as the threshold test computes them. -/
def Sampler.elapsedMs (s : Sampler) : UInt32 := jiffiesToMsecs (s.mp3.jiffies - s.mp3.oldJiffies)

/-- One entry of the list: its use is added to the sums, or it is passed over. -/
def readEntry (pid : UInt32) (totals : Totals) (s : Sampler) : Totals × Sampler :=
  match getCpuUse pid s with
  | (none, s) => (totals, s)
  | (some use, s) => (totals.add use, s)

def samplerStep : SamplerAct → Sampler → Option Sampler
  | .register pid alloc, s =>
      if s.phase.holdsLock then none
      else (mp3Registration msecsToJiffies pid alloc s).map (·.2)
  | .unregister pid, s => if s.phase.holdsLock then none else some (mp3Unregistration pid s).2
  | .increment pid use, s =>
      if pid ∈ s.live then
        some { s with counters := Function.update s.counters pid ((s.counters pid).plus use) }
      else none
  | .tick n, s =>
      some { s with
        now := s.now + n
        mp3 := { s.mp3 with jiffies := s.mp3.jiffies + UInt64.ofNat n } }
  | .start, s =>
      match s.dwork with
      | none => none
      | some due =>
          if s.phase = .idle ∧ due ≤ s.now then some { s with dwork := none, phase := .started }
          else none
  | .check, s =>
      if s.phase = .started then
        some { s with
          phase := if s.elapsedMs jiffiesToMsecs < threshSamplingPeriodMs then .idle else .passed }
      else none
  | .requeue, s =>
      if s.phase = .passed then some { s.queueDwork msecsToJiffies with phase := .requeued }
      else none
  | .stamp, s =>
      if s.phase = .requeued then
        some { s with mp3 := { s.mp3 with oldJiffies := s.mp3.jiffies }, phase := .stamped }
      else none
  | .acquire, s =>
      if s.phase = .stamped then some { s with phase := .reading s.processList .zero } else none
  | .read, s =>
      match s.phase with
      | .reading (pid :: left) totals =>
          let (totals, s) := readEntry pid totals s
          some { s with phase := .reading left totals }
      | _ => none
  | .store, s =>
      match s.phase with
      | .reading [] totals =>
          some { s with
            mp3 := storeSample pageSize (totals.sample s.mp3.jiffies) s.mp3
            phase := .idle }
      | _ => none

/-- The outcomes of the steps, one constructor each. -/
inductive SamplerEffect (s : Sampler) : SamplerAct → Sampler → Prop
  | register {pid : UInt32} (hfree : s.phase.holdsLock = false) :
      SamplerEffect s (.register pid true)
        { s.queueDwork msecsToJiffies with
          processList := s.processList ++ [pid], registered := true }
  | unregister {pid : UInt32} (hfree : s.phase.holdsLock = false) :
      SamplerEffect s (.unregister pid) { s with processList := s.processList.erase pid }
  | increment {pid : UInt32} {use : CpuUse} (hlive : pid ∈ s.live) :
      SamplerEffect s (.increment pid use)
        { s with counters := Function.update s.counters pid ((s.counters pid).plus use) }
  | tick {n : Nat} :
      SamplerEffect s (.tick n)
        { s with
          now := s.now + n
          mp3 := { s.mp3 with jiffies := s.mp3.jiffies + UInt64.ofNat n } }
  | start (due : Nat) (hphase : s.phase = .idle) (hpending : s.dwork = some due)
      (hdue : due ≤ s.now) : SamplerEffect s .start { s with dwork := none, phase := .started }
  | checkReturn (hphase : s.phase = .started)
      (hbelow : s.elapsedMs jiffiesToMsecs < threshSamplingPeriodMs) :
      SamplerEffect s .check { s with phase := .idle }
  | checkPass (hphase : s.phase = .started)
      (hreached : threshSamplingPeriodMs ≤ s.elapsedMs jiffiesToMsecs) :
      SamplerEffect s .check { s with phase := .passed }
  | requeue (hphase : s.phase = .passed) :
      SamplerEffect s .requeue { s.queueDwork msecsToJiffies with phase := .requeued }
  | stamp (hphase : s.phase = .requeued) :
      SamplerEffect s .stamp
        { s with mp3 := { s.mp3 with oldJiffies := s.mp3.jiffies }, phase := .stamped }
  | acquire (hphase : s.phase = .stamped) :
      SamplerEffect s .acquire { s with phase := .reading s.processList .zero }
  | readNone {pid : UInt32} {left : List UInt32} {totals : Totals}
      (hphase : s.phase = .reading (pid :: left) totals) (hdead : pid ∉ s.live) :
      SamplerEffect s .read { s with phase := .reading left totals }
  | read {pid : UInt32} {left : List UInt32} {totals : Totals}
      (hphase : s.phase = .reading (pid :: left) totals) (hlive : pid ∈ s.live) :
      SamplerEffect s .read
        { s with
          counters := Function.update s.counters pid .zero
          phase := .reading left (totals.add (s.counters pid)) }
  | store {totals : Totals} (hphase : s.phase = .reading [] totals) :
      SamplerEffect s .store
        { s with
          mp3 := storeSample pageSize (totals.sample s.mp3.jiffies) s.mp3
          phase := .idle }

variable {msecsToJiffies pageSize jiffiesToMsecs}

theorem samplerEffect_of_step {act : SamplerAct} {s t : Sampler}
    (h : samplerStep msecsToJiffies pageSize jiffiesToMsecs act s = some t) :
    SamplerEffect msecsToJiffies pageSize jiffiesToMsecs s act t := by
  cases act with
  | register pid alloc =>
      cases alloc with
      | false => simp [samplerStep, mp3Registration] at h
      | true =>
          obtain ⟨hfree, rfl⟩ := by simpa [samplerStep, mp3Registration] using h
          exact .register hfree
  | unregister pid =>
      obtain ⟨hfree, rfl⟩ := by simpa [samplerStep, mp3Unregistration] using h
      exact .unregister hfree
  | increment pid use =>
      obtain ⟨hlive, rfl⟩ := by simpa [samplerStep] using h
      exact .increment hlive
  | tick n =>
      obtain rfl := Option.some.inj h
      exact .tick
  | start =>
      simp only [samplerStep] at h
      split at h
      · cases h
      · next due hpending =>
          split at h
          · next hguard =>
              obtain rfl := Option.some.inj h
              exact .start due hguard.1 hpending hguard.2
          · cases h
  | check =>
      simp only [samplerStep] at h
      split at h
      · next hphase =>
          obtain rfl := Option.some.inj h
          split
          · next hbelow => exact .checkReturn hphase hbelow
          · next hreached => exact .checkPass hphase (UInt32.not_lt.mp hreached)
      · cases h
  | requeue =>
      obtain ⟨hphase, rfl⟩ := by simpa [samplerStep] using h
      exact .requeue hphase
  | stamp =>
      obtain ⟨hphase, rfl⟩ := by simpa [samplerStep] using h
      exact .stamp hphase
  | acquire =>
      obtain ⟨hphase, rfl⟩ := by simpa [samplerStep] using h
      exact .acquire hphase
  | read =>
      simp only [samplerStep] at h
      split at h
      · next pid left totals hphase =>
          obtain rfl := Option.some.inj h
          by_cases hlive : pid ∈ s.live
          · simp only [readEntry, getCpuUse, if_pos hlive]
            exact .read hphase hlive
          · simp only [readEntry, getCpuUse, if_neg hlive]
            exact .readNone hphase hlive
      · cases h
  | store =>
      simp only [samplerStep] at h
      split at h
      · next totals hphase =>
          obtain rfl := Option.some.inj h
          exact .store hphase
      · cases h

/-! ## An execution that nothing interrupts -/

/-- What `get_cpu_use` returns for the entries of a list, one after the other. -/
def cpuUses (live : Finset UInt32) : List UInt32 → (UInt32 → CpuUse) → List (Option CpuUse)
  | [], _ => []
  | pid :: pids, counters =>
      if pid ∈ live then
        some (counters pid) :: cpuUses live pids (Function.update counters pid .zero)
      else none :: cpuUses live pids counters

/-- The sums of `takeSample` are those of the execution. -/
theorem takeSample_eq (jiffies : UInt64) (uses : List (Option CpuUse)) :
    takeSample jiffies uses = ((uses.filterMap id).foldl Totals.add .zero).sample jiffies := by
  have hfold : ∀ (us : List CpuUse) (t : Totals), us.foldl Totals.add t =
      ⟨us.foldl (fun acc u => acc + u.minFlt) t.minFlt,
        us.foldl (fun acc u => acc + u.majFlt) t.majFlt,
        us.foldl (fun acc u => acc + u.utime + u.stime) t.cpuUtil⟩ := by
    intro us
    induction us with
    | nil => exact fun _ => rfl
    | cons u us ih => exact fun t => ih (t.add u)
  simp only [takeSample, hfold]
  rfl

/-- Reading a list to its end. -/
theorem exec_reads {left : List UInt32} {totals : Totals} {s : Sampler}
    (hphase : s.phase = .reading left totals) :
    ∃ tr t, Exec (samplerStep msecsToJiffies pageSize jiffiesToMsecs) s tr t ∧ t.mp3 = s.mp3 ∧
      t.phase = .reading [] (((cpuUses s.live left s.counters).filterMap id).foldl Totals.add
        totals) := by
  induction left generalizing totals s with
  | nil => exact ⟨[], s, .refl s, rfl, hphase⟩
  | cons pid left ih =>
      by_cases hlive : pid ∈ s.live
      · have hstep : samplerStep msecsToJiffies pageSize jiffiesToMsecs .read s =
            some { s with
              counters := Function.update s.counters pid .zero
              phase := .reading left (totals.add (s.counters pid)) } := by
          simp only [samplerStep, hphase, readEntry, getCpuUse, if_pos hlive]
        obtain ⟨tr, t, hexec, hmp3, hread⟩ := ih (s := { s with
          counters := Function.update s.counters pid .zero
          phase := .reading left (totals.add (s.counters pid)) }) rfl
        refine ⟨_, t, (Exec.single hstep).trans hexec, hmp3, ?_⟩
        rw [hread]
        simp only [cpuUses, if_pos hlive]
        rfl
      · have hstep : samplerStep msecsToJiffies pageSize jiffiesToMsecs .read s =
            some { s with phase := .reading left totals } := by
          simp only [samplerStep, hphase, readEntry, getCpuUse, if_neg hlive]
        obtain ⟨tr, t, hexec, hmp3, hread⟩ := ih (s := { s with
          phase := .reading left totals }) rfl
        refine ⟨_, t, (Exec.single hstep).trans hexec, hmp3, ?_⟩
        rw [hread]
        simp only [cpuUses, if_neg hlive]
        rfl

/-- **Taken without interruption the steps of an execution do what `mp3WorkFunction` does.** -/
theorem exec_mp3WorkFunction {s : Sampler} (hphase : s.phase = .started) :
    ∃ tr t, Exec (samplerStep msecsToJiffies pageSize jiffiesToMsecs) s tr t ∧ t.phase = .idle ∧
      t.mp3 = mp3WorkFunction pageSize jiffiesToMsecs (cpuUses s.live s.processList s.counters)
        s.mp3 := by
  have hcheck : samplerStep msecsToJiffies pageSize jiffiesToMsecs .check s =
      some { s with phase :=
        if s.elapsedMs jiffiesToMsecs < threshSamplingPeriodMs then .idle else .passed } := by
    simp only [samplerStep, if_pos hphase]
  unfold mp3WorkFunction
  by_cases hbelow : s.elapsedMs jiffiesToMsecs < threshSamplingPeriodMs
  · rw [if_pos hbelow] at hcheck
    have hwork : jiffiesToMsecs (s.mp3.jiffies - s.mp3.oldJiffies) < threshSamplingPeriodMs :=
      hbelow
    exact ⟨_, _, .single hcheck, rfl, by rw [if_pos hwork]⟩
  · rw [if_neg hbelow] at hcheck
    have hwork : ¬ jiffiesToMsecs (s.mp3.jiffies - s.mp3.oldJiffies) < threshSamplingPeriodMs :=
      hbelow
    have hrequeue : Exec (samplerStep msecsToJiffies pageSize jiffiesToMsecs)
        { s with phase := .passed } [⟨_, .requeue, _⟩] _ := .single rfl
    have hstamp := (Exec.single hcheck).trans hrequeue |>.snoc (a := .stamp) rfl
    have hacquire := hstamp.snoc (a := .acquire) rfl
    obtain ⟨tr, t, hexec, hmp3, hread⟩ :=
      @exec_reads msecsToJiffies pageSize jiffiesToMsecs s.processList .zero
        { s.queueDwork msecsToJiffies with
          mp3 := { s.mp3 with oldJiffies := s.mp3.jiffies }
          phase := .reading s.processList .zero } rfl
    have hstore := hacquire.trans hexec |>.snoc (a := .store) (by
      simp only [samplerStep, hread]
      rfl)
    refine ⟨_, _, hstore, rfl, ?_⟩
    rw [if_neg hwork, takeSample_eq, hmp3]
    rfl

end

end KernelDev.Profiler
