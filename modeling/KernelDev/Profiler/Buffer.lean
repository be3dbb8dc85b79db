/-
# KernelDev.Profiler.Buffer — the buffer of the page-fault profiler and the samples written to it

The profiler keeps 128 pages of kernel memory that a user program maps. `mp3_work_function` adds up
what the registered processes used since the last time and stores one sample of four words; a word
that holds -1 is empty. The buffer is addressed by words here, `samplingIdx` is in bytes from
`mem_buffer` as `sampling_idx - mem_buffer` is.
-/
import Mathlib.Logic.Function.Basic
import Mathlib.Tactic.IntervalCases

namespace KernelDev.Profiler

/-! ## The data model -/

/-- -1 in an `unsigned long`. -/
def marker : UInt64 := 0xFFFFFFFFFFFFFFFF

/-- The four words of a sample. -/
structure Sample where
  jiffies : UInt64
  minFlt : UInt64
  majFlt : UInt64
  cpuUtil : UInt64
  deriving DecidableEq, Repr

/-- The words of a sample in the order they are stored. -/
def Sample.word (w : Sample) : Nat → UInt64
  | 0 => w.jiffies
  | 1 => w.minFlt
  | 2 => w.majFlt
  | _ => w.cpuUtil

/-- No word of the sample is the marker. -/
structure Sample.Unmarked (w : Sample) : Prop where
  jiffies : w.jiffies ≠ marker
  minFlt : w.minFlt ≠ marker
  majFlt : w.majFlt ≠ marker
  cpuUtil : w.cpuUtil ≠ marker

theorem Sample.unmarked_iff (w : Sample) : w.Unmarked ↔
    w.jiffies ≠ marker ∧ w.minFlt ≠ marker ∧ w.majFlt ≠ marker ∧ w.cpuUtil ≠ marker :=
  ⟨fun h => ⟨h.jiffies, h.minFlt, h.majFlt, h.cpuUtil⟩,
    fun ⟨h, h', h'', h'''⟩ => ⟨h, h', h'', h'''⟩⟩

instance (w : Sample) : Decidable w.Unmarked := decidable_of_iff _ w.unmarked_iff.symm

theorem Sample.Unmarked.word {w : Sample} (h : w.Unmarked) (k : Nat) : w.word k ≠ marker := by
  unfold Sample.word
  split
  · exact h.jiffies
  · exact h.minFlt
  · exact h.majFlt
  · exact h.cpuUtil

/-- What `get_cpu_use` reports of one process. -/
structure CpuUse where
  minFlt : UInt64
  majFlt : UInt64
  utime : UInt64
  stime : UInt64
  deriving DecidableEq, Repr

/-- The module's buffer and clock. -/
structure Mp3 where
  memBuffer : Nat → UInt64
  samplingIdx : Nat
  jiffies : UInt64
  oldJiffies : UInt64
  /-- History: the samples stored. -/
  written : List Sample

/-! ## The operations -/

def pageCount : Nat := 128

section
variable (pageSize : Nat)

/-- `MEM_BUF_SIZE`, in bytes. -/
def memBufSize : Nat := pageSize * pageCount

/-- The bytes of a sample, `4 * sizeof(unsigned long)`. -/
def sampleSize : Nat := 32

/-- `vmalloc_mem_buffer` over whatever the memory holds, with the clock at `jiffies`. -/
def vmallocMemBuffer (memory : Nat → UInt64) (jiffies : UInt64) : Mp3 where
  memBuffer i := if i < memBufSize pageSize / 8 then marker else memory i
  samplingIdx := 0
  jiffies := jiffies
  oldJiffies := 0
  written := []

/-- Store the four words at byte `off` of the buffer. -/
def putWords (mem : Nat → UInt64) (off : Nat) (w : Sample) : Nat → UInt64 :=
  let p := off / 8
  Function.update (Function.update (Function.update (Function.update mem
    p w.jiffies) (p + 1) w.minFlt) (p + 2) w.majFlt) (p + 3) w.cpuUtil

/-- The end of `mp3_work_function`: wrap around when the sample does not fit, store it, advance. -/
def storeSample (w : Sample) (s : Mp3) : Mp3 :=
  let idx := if s.samplingIdx + sampleSize > memBufSize pageSize then 0 else s.samplingIdx
  { s with
    memBuffer := putWords s.memBuffer idx w
    samplingIdx := idx + sampleSize
    written := s.written ++ [w] }

/-- The sums over the processes for which `get_cpu_use` did not fail, with the time. -/
def takeSample (jiffies : UInt64) (uses : List (Option CpuUse)) : Sample :=
  let uses := uses.filterMap id
  { jiffies := jiffies
    minFlt := uses.foldl (fun acc u => acc + u.minFlt) 0
    majFlt := uses.foldl (fun acc u => acc + u.majFlt) 0
    cpuUtil := uses.foldl (fun acc u => acc + u.utime + u.stime) 0 }

/-- `THRESH_SAMPLING_PERIOD_ms`. -/
def threshSamplingPeriodMs : UInt32 := 25

/-- `mp3_work_function`; `uses` is what `get_cpu_use` returns for the listed processes in order. -/
def mp3WorkFunction (jiffiesToMsecs : UInt64 → UInt32) (uses : List (Option CpuUse)) (s : Mp3) :
    Mp3 :=
  if jiffiesToMsecs (s.jiffies - s.oldJiffies) < threshSamplingPeriodMs then s
  else storeSample pageSize (takeSample s.jiffies uses) { s with oldJiffies := s.jiffies }

end

/-! ## What a run of the work function does -/

/-- The four words land at their places and nothing else changes. -/
theorem putWords_apply (mem : Nat → UInt64) (off : Nat) (w : Sample) (i : Nat) :
    putWords mem off w i =
      if off / 8 ≤ i ∧ i < off / 8 + 4 then w.word (i - off / 8) else mem i := by
  unfold putWords
  simp only [Function.update_apply]
  by_cases h : off / 8 ≤ i ∧ i < off / 8 + 4
  · obtain ⟨k, hk, rfl⟩ : ∃ k < 4, i = off / 8 + k := ⟨i - off / 8, by omega, by omega⟩
    rw [if_pos h, Nat.add_sub_cancel_left]
    interval_cases k <;> simp [Sample.word]
  · rw [if_neg h, if_neg (by omega), if_neg (by omega), if_neg (by omega), if_neg (by omega)]

/-- **What the work function can do.** Below the threshold nothing; otherwise it stores one
sample. -/
theorem mp3WorkFunction_cases (pageSize : Nat) (jiffiesToMsecs : UInt64 → UInt32)
    (uses : List (Option CpuUse)) (s : Mp3) :
    mp3WorkFunction pageSize jiffiesToMsecs uses s = s ∨
      ∃ w, mp3WorkFunction pageSize jiffiesToMsecs uses s =
        storeSample pageSize w { s with oldJiffies := s.jiffies } := by
  unfold mp3WorkFunction
  split
  · exact .inl rfl
  · exact .inr ⟨_, rfl⟩

end KernelDev.Profiler
