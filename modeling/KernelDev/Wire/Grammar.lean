/-
# KernelDev.Wire.Grammar — which messages obey the grammar of the requests

`requests_lawful_iff`: whatever bytes follow a message in memory and whatever the uninitialised
locals hold, `mp2_write` calls exactly the operation its grammar says, or returns an error and
changes nothing, if and only if the message is clear (`Format.Clear`); and so does `mp3_write`.

The parsers count the fields but compare the count with nothing, and look at the first byte of the
command word only. So a message may ask for an operation with fewer fields than it reads, with more,
or by a longer word; and one without a newline goes on with what follows it.
-/
import KernelDev.Profiler.Sampling
import KernelDev.Profiler.Write
import KernelDev.Rms.System
import KernelDev.Rms.Write

namespace KernelDev.Wire

open KernelDev.Lib

/-- **The requests obey their grammar exactly on the clear messages.** -/
theorem requests_lawful_iff (msecsToJiffies : UInt32 → UInt64) (writer found : Rms.TaskPtr)
    (alloc alloc' : Bool) (bs : Bytes) (s : Rms.Mp2) (t : Profiler.Sampler) :
    ((∀ rest l, (Rms.mp2Write msecsToJiffies writer alloc found bs rest l 0 s).Lawful
        (Rms.Mp2Says (chomp bs)) s) ↔ Rms.mp2Format.Clear bs) ∧
      ((∀ rest l, (Profiler.mp3Write msecsToJiffies alloc' bs rest l 0 t).Lawful
        (Profiler.Mp3Says (chomp bs)) t) ↔ Profiler.mp3Format.Clear bs) := by
  have hmp2 : Rms.Mp2Says (chomp bs) = Rms.mp2Format.Says (chomp bs) :=
    funext fun r => propext Rms.mp2Format_said.symm
  have hmp3 : Profiler.Mp3Says (chomp bs) = Profiler.mp3Format.Says (chomp bs) :=
    funext fun r => propext Profiler.mp3Format_said.symm
  rw [hmp2, hmp3]
  exact ⟨Rms.mp2Format.write_lawful_iff _ bs s, Profiler.mp3Format.write_lawful_iff _ bs t⟩

-- "R,5,100,10\n", and without its newline; "RX,5,100,10\n"; "Y,5,1\n"
example : Rms.mp2Format.Clear [82, 44, 53, 44, 49, 48, 48, 44, 49, 48, 10] := by decide
example : ¬ Rms.mp2Format.Clear [82, 44, 53, 44, 49, 48, 48, 44, 49, 48] := by decide
example : ¬ Rms.mp2Format.Clear [82, 88, 44, 53, 44, 49, 48, 48, 44, 49, 48, 10] := by decide
example : ¬ Rms.mp2Format.Clear [89, 44, 53, 44, 49, 10] := by decide

/-- `"D\n"` and `"U\n"` name no process, and the one in the uninitialised local is removed. -/
theorem requests_lawful_fails :
    (∀ r, ¬ Rms.Mp2Says (chomp [68, newline]) r) ∧
      (Rms.mp2Write (fun _ => 0) 1 true 1 [68, newline] [] ⟨7, 0, 0⟩ 0
        Rms.quiet).called = some (.deregistration 7) ∧
      (∀ r, ¬ Profiler.Mp3Says (chomp [85, newline]) r) ∧
      (Profiler.mp3Write (fun _ => 0) true [85, newline] [] ⟨7⟩ 0
        Profiler.quietSampler).called = some (.unregistration 7) := by
  refine ⟨?_, by decide, ?_, by decide⟩
  · rintro r (_ | _ | _)
  · rintro r (_ | _)

end KernelDev.Wire
