/-
# KernelDev.Wire.Retry — clients that repeat a write

Both callbacks return what the operation returned, not the number of bytes, so a client that repeats
`write()` on what is left of its message comes back with most or all of it. `mp2_write` then takes
all of it and does nothing; `mp3_write` returns -1.

`requests_exactlyOnce_iff`: a request to the scheduler is executed exactly once if its message ends
in a newline and it is not a registration that divides by zero; a request to the profiler never
comes to an end without an error.
-/
import KernelDev.Profiler.Sampling
import KernelDev.Profiler.Write
import KernelDev.Rms.System
import KernelDev.Rms.Write

namespace KernelDev.Wire

open KernelDev.Lib

section
variable (msecsToJiffies : UInt32 → UInt64) (writer found : Rms.TaskPtr) (alloc : Bool)

/-- The request is executed exactly once through `mp2_write`, with `rest` behind the buffer and the
locals at `l` in each call, and `others` changing the state between the calls. -/
def Mp2ExactlyOnce (rest : Nat → Bytes) (l : Nat → Rms.Mp2Locals) (others : Nat → Rms.Mp2 → Rms.Mp2)
    (bs : Bytes) (r : Rms.Mp2Request) (s : Rms.Mp2) : Prop :=
  ExactlyOnce (Rms.mp2Perform msecsToJiffies writer alloc found)
    (fun n bs offp s =>
      Rms.mp2Write msecsToJiffies writer alloc found bs (rest n) (l n) offp s) others bs r s

/-- The same through `mp3_write`. -/
def Mp3ExactlyOnce (rest : Nat → Bytes) (l : Nat → Profiler.Mp3Locals)
    (others : Nat → Profiler.Sampler → Profiler.Sampler) (bs : Bytes) (r : Profiler.Mp3Request)
    (s : Profiler.Sampler) : Prop :=
  ExactlyOnce (Profiler.mp3Perform msecsToJiffies alloc)
    (fun n bs offp s => Profiler.mp3Write msecsToJiffies alloc bs (rest n) (l n) offp s) others bs r
    s

end

/-- **When a request is executed exactly once.** -/
theorem requests_exactlyOnce_iff (msecsToJiffies : UInt32 → UInt64) (writer found : Rms.TaskPtr)
    (alloc : Bool) (bs : Bytes) :
    (∀ r s, Rms.Mp2Says (chomp bs) r →
      ((∀ rest l others, Mp2ExactlyOnce msecsToJiffies writer found alloc rest l others bs r s) ↔
        bs.getLast? = some newline ∧
          ∀ pid period processingTime, r = .registration pid period processingTime →
            Rms.totalPeriod s period ≠ 0)) ∧
      ∀ r s, Profiler.Mp3Says (chomp bs) r →
        ∀ rest l others, ¬ Mp3ExactlyOnce msecsToJiffies alloc rest l others bs r s := by
  constructor
  · intro r s hsaid
    rw [← Rms.mp2Perform_isSome msecsToJiffies writer alloc found]
    exact Format.exactlyOnce_iff (fun _ => rfl) (Rms.mp2Format_said.mpr hsaid)
  · intro r s hsaid
    exact Format.not_exactlyOnce (fun _ => by decide)
      (Format.ne_nil_of_said (Profiler.mp3Format_said.mpr hsaid))
      fun _ _ => Profiler.mp3Perform_ret msecsToJiffies alloc

theorem requests_exactlyOnce_yield :
    Rms.Mp2Says (chomp [89, 44, 55, newline]) (.yield 7) ∧
      Mp2ExactlyOnce (fun _ => 0) 1 1 true (fun _ => []) (fun _ => default) (fun _ s => s)
        [89, 44, 55, newline] (.yield 7) Rms.quiet := by
  have hsaid : Rms.Mp2Says (chomp [89, 44, 55, newline]) (.yield 7) :=
    .yield (p := [55]) (by decide)
  exact ⟨hsaid, ((requests_exactlyOnce_iff (fun _ => 0) 1 1 true _).1 _ Rms.quiet hsaid).mpr
    ⟨rfl, fun _ _ _ h => by cases h⟩ _ _ _⟩

/-- `"U 7\n"`: the first call unregisters process 7 and returns 0, and the second returns -1. -/
theorem requests_exactlyOnce_fails :
    Profiler.Mp3Says (chomp [85, 32, 55, newline]) (.unregistration 7) ∧
      clientWrite (fun _ bs offp s =>
          Profiler.mp3Write (fun _ => 0) true bs [] default offp s) (fun _ s => s) 2 0
        [85, 32, 55, newline] 0 Profiler.quietSampler = some ⟨[.unregistration 7], some (-1)⟩ ∧
      ¬ Mp3ExactlyOnce (fun _ => 0) true (fun _ => []) (fun _ => default) (fun _ s => s)
        [85, 32, 55, newline] (.unregistration 7) Profiler.quietSampler := by
  refine ⟨.unregistration (p := [55]) (by decide), by decide, ?_⟩
  exact Format.not_exactlyOnce (fun _ => by decide) (by decide)
    (fun _ _ => Profiler.mp3Perform_ret _ _) _ _ _

end KernelDev.Wire
