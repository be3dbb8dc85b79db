/-
# KernelDev.Profiler.Accounting — where the faults and the CPU time go

`get_cpu_use` resets the counters it reads, and the profiler adds what it reads to the sums of the
execution, which become a sample. A process listed twice is read twice, the second time from
counters that have just been reset; a pid of no process is passed over; an execution that returns
early reads nothing; and membership of the list has no influence on the counters.

So what a process used is, at every moment, in its counters, in the sums of the execution in
progress, or in one of the samples (`faults_accounted`). All of these are `unsigned long`: what is
lost is lost by wrapping around, in multiples of 2^64.
-/
import KernelDev.Profiler.Sampler
import Mathlib.Algebra.BigOperators.Group.Finset.Basic
import Mathlib.Data.Nat.ModEq

namespace KernelDev.Profiler

open KernelDev.Lib

/-! ## Wrapping around -/

/-- `a` is what is left of `b` when some multiple of 2^64 is lost. -/
def Wraps (a b : Nat) : Prop := ∃ k, a + k * 2 ^ 64 = b

namespace Wraps

variable {a b c : Nat}

theorem refl (a : Nat) : Wraps a a := ⟨0, by rw [Nat.zero_mul, Nat.add_zero]⟩

theorem of_eq (h : a = b) : Wraps a b := h ▸ refl a

theorem trans (h : Wraps a b) (h' : Wraps b c) : Wraps a c := by
  obtain ⟨k, rfl⟩ := h
  obtain ⟨k', rfl⟩ := h'
  exact ⟨k + k', by rw [Nat.add_mul, Nat.add_assoc]⟩

theorem add_right (h : Wraps a b) (c : Nat) : Wraps (a + c) (b + c) := by
  obtain ⟨k, rfl⟩ := h
  exact ⟨k, Nat.add_right_comm a c _⟩

theorem add_left (h : Wraps a b) (c : Nat) : Wraps (c + a) (c + b) := by
  rw [Nat.add_comm c a, Nat.add_comm c b]
  exact h.add_right c

theorem modEq (h : Wraps a b) : a ≡ b [MOD 2 ^ 64] := by
  obtain ⟨k, rfl⟩ := h
  exact Nat.ModEq.symm (Nat.add_modEq_left_iff.mpr (Nat.dvd_mul_left ..))

/-- Below 2^64 nothing is lost. -/
theorem eq_of_lt (h : Wraps a b) (hlt : b < 2 ^ 64) : a = b := by
  obtain ⟨k, rfl⟩ := h
  omega

end Wraps

theorem wraps_add (a b : UInt64) : Wraps (a + b).toNat (a.toNat + b.toNat) := by
  refine ⟨(a.toNat + b.toNat) / 2 ^ 64, ?_⟩
  rw [UInt64.toNat_add, Nat.mul_comm]
  exact Nat.mod_add_div _ _

/-! ## What is counted -/

/-- A quantity the profiler counts: what a use of a process has of it, and the sum and the word of a
sample it goes to. Both additions of the code may wrap around. -/
structure Meter where
  use : CpuUse → Nat
  total : Totals → UInt64
  word : Sample → UInt64
  use_zero : use .zero = 0
  total_zero : total .zero = 0
  word_sample : ∀ t jiffies, word (t.sample jiffies) = total t
  add : ∀ t u, Wraps (total (t.add u)).toNat ((total t).toNat + use u)
  plus : ∀ c u, Wraps (use (c.plus u)) (use c + use u)

def minorFaults : Meter where
  use u := u.minFlt.toNat
  total := Totals.minFlt
  word := Sample.minFlt
  use_zero := rfl
  total_zero := rfl
  word_sample _ _ := rfl
  add _ _ := wraps_add _ _
  plus _ _ := wraps_add _ _

def majorFaults : Meter where
  use u := u.majFlt.toNat
  total := Totals.majFlt
  word := Sample.majFlt
  use_zero := rfl
  total_zero := rfl
  word_sample _ _ := rfl
  add _ _ := wraps_add _ _
  plus _ _ := wraps_add _ _

/-- User and system time go to one word. -/
def cpuTime : Meter where
  use u := u.utime.toNat + u.stime.toNat
  total := Totals.cpuUtil
  word := Sample.cpuUtil
  use_zero := rfl
  total_zero := rfl
  word_sample _ _ := rfl
  add t u := by
    have hutime := (wraps_add t.cpuUtil u.utime).add_right u.stime.toNat
    rw [Nat.add_assoc] at hutime
    exact (wraps_add (t.cpuUtil + u.utime) u.stime).trans hutime
  plus c u := by
    have hutime := (wraps_add c.utime u.utime).add_right (c.stime + u.stime).toNat
    have hstime := (wraps_add c.stime u.stime).add_left (c.utime.toNat + u.utime.toNat)
    rw [Nat.add_add_add_comm] at hstime
    exact hutime.trans hstime

namespace Meter

variable (m : Meter)

/-- In the samples written so far. -/
def sampled (s : Sampler) : Nat := (s.mp3.written.map fun w => (m.word w).toNat).sum

/-- Read by the execution in progress and not stored yet. -/
def inProgress (s : Sampler) : Nat :=
  match s.phase with
  | .reading _ totals => (m.total totals).toNat
  | _ => 0

/-- In the counters of the processes. -/
def held (s : Sampler) : Nat := ∑ pid ∈ s.live, m.use (s.counters pid)

/-- In the counters of the processes other than one. -/
def heldByOthers (pid : UInt32) (s : Sampler) : Nat :=
  ∑ p ∈ s.live.erase pid, m.use (s.counters p)

/-- What the processes used during a run. -/
def incremented (tr : List (Transition Sampler SamplerAct)) : Nat :=
  (tr.map fun x =>
    match x.act with
    | .increment _ use => m.use use
    | _ => 0).sum

end Meter

/-! ## One step -/

section

variable {m : Meter} {s t : Sampler} {msecsToJiffies : UInt32 → UInt64} {pageSize : Nat}
  {jiffiesToMsecs : UInt64 → UInt32}

theorem incremented_concat (tr : List (Transition Sampler SamplerAct))
    (x : Transition Sampler SamplerAct) :
    m.incremented (tr ++ [x]) = m.incremented tr + m.incremented [x] := by
  simp [Meter.incremented]

/-- Setting the counters of one process. -/
theorem held_update {pid : UInt32} (hlive : pid ∈ s.live) (c : CpuUse) :
    ∑ p ∈ s.live, m.use (Function.update s.counters pid c p) =
      m.heldByOthers pid s + m.use c := by
  have hrest : ∑ p ∈ s.live.erase pid, m.use (Function.update s.counters pid c p) =
      m.heldByOthers pid s :=
    Finset.sum_congr rfl fun p hp => by rw [Function.update_of_ne (Finset.ne_of_mem_erase hp)]
  rw [← Finset.sum_erase_add _ _ hlive, hrest, Function.update_self]

theorem held_eq {pid : UInt32} (hlive : pid ∈ s.live) :
    m.held s = m.heldByOthers pid s + m.use (s.counters pid) :=
  (Finset.sum_erase_add _ _ hlive).symm

theorem inProgress_of_not_holdsLock (h : s.phase.holdsLock = false) : m.inProgress s = 0 := by
  unfold Meter.inProgress
  cases hphase : s.phase with
  | reading left totals => simp [hphase, WorkPhase.holdsLock] at h
  | idle | started | passed | requeued | stamped => rfl

/-- **One step moves what is counted around**; what a process uses in it comes in, and what wraps
around goes out. -/
theorem wraps_step {act : SamplerAct}
    (he : SamplerEffect msecsToJiffies pageSize jiffiesToMsecs s act t) :
    Wraps (m.sampled t + m.inProgress t + m.held t)
      (m.sampled s + m.inProgress s + m.held s + m.incremented [⟨s, act, t⟩]) := by
  cases he with
  | register | unregister | tick => exact .of_eq rfl
  | @increment pid use hlive =>
      have hinc : m.incremented [⟨s, .increment pid use, { s with
          counters := Function.update s.counters pid ((s.counters pid).plus use) }⟩] =
          m.use use := by
        simp [Meter.incremented]
      rw [hinc, held_eq hlive]
      show Wraps (m.sampled s + m.inProgress s +
        ∑ p ∈ s.live, m.use (Function.update s.counters pid _ p)) _
      rw [held_update hlive, Nat.add_assoc _ _ (m.use use), Nat.add_assoc _ _ (m.use use)]
      exact ((m.plus (s.counters pid) use).add_left _).add_left _
  | start due hphase | checkReturn hphase | checkPass hphase | requeue hphase | stamp hphase =>
      -- before the lock is taken nothing has been read
      have hnone : m.inProgress s = 0 := by simp only [Meter.inProgress, hphase]
      rw [hnone]
      exact .of_eq rfl
  | acquire hphase =>
      have hnone : m.inProgress s = 0 := by simp only [Meter.inProgress, hphase]
      rw [hnone]
      apply Wraps.of_eq
      show m.sampled s + (m.total .zero).toNat + m.held s = _
      rw [m.total_zero]
      rfl
  | readNone hphase =>
      simp only [Meter.inProgress, hphase]
      exact .of_eq rfl
  | @read pid left totals hphase hlive =>
      have hread : m.inProgress s = (m.total totals).toNat := by
        simp only [Meter.inProgress, hphase]
      rw [hread, held_eq hlive]
      show Wraps (m.sampled s + (m.total (totals.add (s.counters pid))).toNat +
        ∑ p ∈ s.live, m.use (Function.update s.counters pid .zero p)) _
      rw [held_update hlive, m.use_zero]
      -- the counters move into the sums
      have hmove := ((m.add totals (s.counters pid)).add_left (m.sampled s)).add_right
        (m.heldByOthers pid s)
      refine hmove.trans (.of_eq ?_)
      show _ = m.sampled s + (m.total totals).toNat +
        (m.heldByOthers pid s + m.use (s.counters pid)) + 0
      omega
  | @store totals hphase =>
      have hread : m.inProgress s = (m.total totals).toNat := by
        simp only [Meter.inProgress, hphase]
      have hsampled : m.sampled { s with
          mp3 := storeSample pageSize (totals.sample s.mp3.jiffies) s.mp3, phase := .idle } =
          m.sampled s + (m.total totals).toNat := by
        simp [Meter.sampled, storeSample, m.word_sample]
      rw [hsampled, hread]
      exact .of_eq rfl

/-- Nothing is counted twice, and nothing is lost but by wrapping around. -/
theorem accounted_run {s₀ : Sampler} {tr : List (Transition Sampler SamplerAct)}
    (h : Exec (samplerStep msecsToJiffies pageSize jiffiesToMsecs) s₀ tr s) :
    Wraps (m.sampled s + m.inProgress s + m.held s)
      (m.sampled s₀ + m.inProgress s₀ + m.held s₀ + m.incremented tr) := by
  refine h.traced (C := fun _ => True) (I := fun tr s =>
    Wraps (m.sampled s + m.inProgress s + m.held s)
      (m.sampled s₀ + m.inProgress s₀ + m.held s₀ + m.incremented tr)) (.of_eq rfl) ?_
    (fun _ _ => trivial)
  intro tr x hx _ hI
  have hstep := wraps_step (m := m) (samplerEffect_of_step hx)
  rw [incremented_concat, ← Nat.add_assoc]
  exact hstep.trans (hI.add_right _)

end

/-! ## Runs -/

/-- **Every fault is counted once.** At every moment of a run the samples written, the sums of the
execution in progress and the counters of the processes add up to the counters at the start and what
was used since, modulo 2^64, and exactly while that is below 2^64; when no execution holds the lock,
the samples and the counters alone do. -/
theorem faults_accounted (msecsToJiffies : UInt32 → UInt64) (pageSize : Nat)
    (jiffiesToMsecs : UInt64 → UInt32) (memory : Nat → UInt64) (jiffies : UInt64)
    (live : Finset UInt32) (counters : UInt32 → CpuUse)
    {tr : List (Transition Sampler SamplerAct)} {s : Sampler}
    (h : Exec (samplerStep msecsToJiffies pageSize jiffiesToMsecs)
      (Sampler.boot (vmallocMemBuffer pageSize memory jiffies) live counters) tr s) :
    ∀ m ∈ [minorFaults, majorFaults, cpuTime],
      m.sampled s + m.inProgress s + m.held s ≡
          ∑ pid ∈ live, m.use (counters pid) + m.incremented tr [MOD 2 ^ 64] ∧
        (∑ pid ∈ live, m.use (counters pid) + m.incremented tr < 2 ^ 64 →
          m.sampled s + m.inProgress s + m.held s =
            ∑ pid ∈ live, m.use (counters pid) + m.incremented tr) ∧
        (s.phase.holdsLock = false → m.inProgress s = 0) := by
  intro m _
  have hrun := accounted_run (m := m) h
  have hsampled : m.sampled (Sampler.boot (vmallocMemBuffer pageSize memory jiffies) live
    counters) = 0 := rfl
  have hread : m.inProgress (Sampler.boot (vmallocMemBuffer pageSize memory jiffies) live
    counters) = 0 := rfl
  have hheld : m.held (Sampler.boot (vmallocMemBuffer pageSize memory jiffies) live counters) =
    ∑ pid ∈ live, m.use (counters pid) := rfl
  rw [hsampled, hread, hheld, Nat.add_zero, Nat.zero_add] at hrun
  exact ⟨hrun.modEq, hrun.eq_of_lt, inProgress_of_not_holdsLock⟩

/-- Process 7 registers, runs, and the first execution samples it. -/
def accountedRun : List SamplerAct :=
  [.register 7 true, .increment 7 ⟨5, 1, 20, 4⟩, .tick 50, .start, .check, .requeue, .stamp,
    .acquire, .read, .increment 7 ⟨2, 0, 1, 0⟩, .store]

def accountedStart : Sampler :=
  Sampler.boot (vmallocMemBuffer 4096 (fun _ => 0) 0) {7} fun _ => ⟨3, 1, 10, 2⟩

def accountedStep : SamplerAct → Sampler → Option Sampler :=
  samplerStep (·.toUInt64) 4096 (·.toUInt32)

theorem accountedRun_runs : (runActions accountedStep accountedRun accountedStart).isSome := rfl

/-- 3 minor faults at the start and 7 since: 8 in the sample, 2 in the counters. -/
theorem faults_accountedRun :
    minorFaults.sampled (endOf accountedStep accountedRun accountedStart accountedRun_runs) = 8 ∧
      minorFaults.sampled (endOf accountedStep accountedRun accountedStart accountedRun_runs) +
          minorFaults.inProgress (endOf accountedStep accountedRun accountedStart
            accountedRun_runs) +
          minorFaults.held (endOf accountedStep accountedRun accountedStart accountedRun_runs) =
        ∑ pid ∈ {7}, minorFaults.use (accountedStart.counters pid) + minorFaults.incremented
          (runOf accountedStep accountedRun accountedStart accountedRun_runs) :=
  ⟨by decide, (faults_accounted (·.toUInt64) 4096 (·.toUInt32) _ _ _ _
    (exec_runOf accountedRun_runs) minorFaults (by simp)).2.1 (by decide)⟩

/-- Two processes with 2^63 minor faults each. -/
def wrappingStart : Sampler :=
  Sampler.boot (vmallocMemBuffer 4096 (fun _ => 0) 0) {7, 8} fun _ => ⟨0x8000000000000000, 0, 0, 0⟩

def wrappingRun : List SamplerAct :=
  [.register 7 true, .register 8 true, .tick 50, .start, .check, .requeue, .stamp, .acquire, .read,
    .read, .store]

theorem wrappingRun_runs : (runActions accountedStep wrappingRun wrappingStart).isSome := rfl

theorem halfRun_runs : (runActions accountedStep (accountedRun.take 9) accountedStart).isSome := rfl

/-- What an execution has read and not stored yet is in neither total, and a sum that wraps around
is in none at any time. -/
theorem faults_accounted_fails :
    (¬ ∀ msecsToJiffies pageSize jiffiesToMsecs memory jiffies live counters tr s,
      Exec (samplerStep msecsToJiffies pageSize jiffiesToMsecs)
          (Sampler.boot (vmallocMemBuffer pageSize memory jiffies) live counters) tr s →
        minorFaults.sampled s + minorFaults.held s =
          ∑ pid ∈ live, minorFaults.use (counters pid) + minorFaults.incremented tr) ∧
      ¬ ∀ msecsToJiffies pageSize jiffiesToMsecs memory jiffies live counters tr s,
        Exec (samplerStep msecsToJiffies pageSize jiffiesToMsecs)
            (Sampler.boot (vmallocMemBuffer pageSize memory jiffies) live counters) tr s →
          s.phase.holdsLock = false → minorFaults.sampled s + minorFaults.held s =
            ∑ pid ∈ live, minorFaults.use (counters pid) + minorFaults.incremented tr := by
  constructor
  · intro hall
    have hhalf := hall (·.toUInt64) 4096 (·.toUInt32) _ _ _ _ _ _ (exec_runOf halfRun_runs)
    exact absurd hhalf (by decide)
  · intro hall
    have hwrapped := hall (·.toUInt64) 4096 (·.toUInt32) _ _ _ _ _ _ (exec_runOf wrappingRun_runs)
      rfl
    exact absurd hwrapped (by decide +kernel)

end KernelDev.Profiler
