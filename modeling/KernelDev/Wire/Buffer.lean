/-
# KernelDev.Wire.Buffer — what the write callbacks free

Both callbacks pass `strsep` the address of the pointer they free in the end. Where `copy_from_user`
fails it is still what `kmalloc` returned; after that `strsep` has moved it. A request that is read
to its end leaves NULL, and the buffer is never freed; one that is given up leaves a pointer into
the buffer.
-/
import KernelDev.Lib.WriteBuffer
import KernelDev.Profiler.Sampling
import KernelDev.Profiler.Write
import KernelDev.Rms.System
import KernelDev.Rms.Write

namespace KernelDev.Wire

open KernelDev.Lib

section
variable (msecsToJiffies : UInt32 → UInt64) (writer found : Rms.TaskPtr) (alloc copied : Bool)

/-- The pointers `mp2_write` gives to `kfree` after its buffer was allocated. -/
def mp2Kfrees (bs rest : Bytes) (l : Rms.Mp2Locals) (s : Rms.Mp2) : List (Option Nat) :=
  Rms.mp2Format.kfrees (Rms.mp2Perform msecsToJiffies writer alloc found) copied bs rest l s

/-- The same of `mp3_write`. -/
def mp3Kfrees (bs rest : Bytes) (l : Profiler.Mp3Locals) (s : Profiler.Sampler) :
    List (Option Nat) :=
  Profiler.mp3Format.kfrees (Profiler.mp3Perform msecsToJiffies alloc) copied bs rest l s

/-- **What was allocated is freed once exactly when the message could not be copied.** -/
theorem buffer_freed_iff (alloc' : Bool) (bs rest : Bytes) (l : Rms.Mp2Locals)
    (l' : Profiler.Mp3Locals) (s : Rms.Mp2) (t : Profiler.Sampler) :
    (mp2Kfrees msecsToJiffies writer found alloc copied bs rest l s = [some 0] ↔ copied = false) ∧
      (mp3Kfrees msecsToJiffies alloc' copied bs rest l' t = [some 0] ↔ copied = false) :=
  ⟨Rms.mp2Format.kfrees_eq_iff _ copied bs rest l s,
    Profiler.mp3Format.kfrees_eq_iff _ copied bs rest l' t⟩

/-- A call that returns has freed something else. -/
theorem mp2Write_kfree {bs rest : Bytes} {l : Rms.Mp2Locals} {s : Rms.Mp2}
    (h : (Rms.mp2Write msecsToJiffies writer alloc found bs rest l 0 s).finish.isSome) :
    ∃ p, p ≠ some 0 ∧ mp2Kfrees msecsToJiffies writer found alloc true bs rest l s = [p] :=
  Rms.mp2Format.kfrees_of_returned _ _ bs rest l s h

theorem mp3Write_kfree {bs rest : Bytes} {l : Profiler.Mp3Locals} {s : Profiler.Sampler}
    (h : (Profiler.mp3Write msecsToJiffies alloc bs rest l 0 s).finish.isSome) :
    ∃ p, p ≠ some 0 ∧ mp3Kfrees msecsToJiffies alloc true bs rest l s = [p] :=
  Profiler.mp3Format.kfrees_of_returned _ _ bs rest l s h

end

/-- `"D,7\n"` and `"U 7\n"` free NULL, `"D,x,1\n"` the buffer from its fifth byte on. -/
theorem buffer_freed_fails :
    mp2Kfrees (fun _ => 0) 1 1 true true [68, 44, 55, newline] [] ⟨0, 0, 0⟩ Rms.quiet = [none] ∧
      mp2Kfrees (fun _ => 0) 1 1 true true [68, 44, 120, 44, 49, newline] [] ⟨0, 0, 0⟩ Rms.quiet =
        [some 4] ∧
      mp3Kfrees (fun _ => 0) true true [85, 32, 55, newline] [] ⟨0⟩ Profiler.quietSampler =
        [none] := by
  decide

end KernelDev.Wire
