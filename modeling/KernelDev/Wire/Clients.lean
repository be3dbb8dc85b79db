/-
# KernelDev.Wire.Clients — the messages the test programs write

`userapp` and `work` print their requests with `printf`; `clients_agree` says that the modules read
the numbers they printed.
-/
import KernelDev.Profiler.Sampling
import KernelDev.Profiler.Write
import KernelDev.Rms.System
import KernelDev.Rms.Write

namespace KernelDev.Wire

open KernelDev.Lib

/-! ## userapp.c -/

/-- `"R,%d,%lu,%lu\n"`. -/
def registerProcess (pid : Int32) (period processingTime : UInt64) : Bytes :=
  [82, 44] ++ decimalInt pid.toInt ++ [44] ++ decimal period.toNat ++ [44] ++
    decimal processingTime.toNat ++ [newline]

/-- `"Y,%d\n"`. -/
def yieldProcess (pid : Int32) : Bytes := [89, 44] ++ decimalInt pid.toInt ++ [newline]

/-- `"D,%d\n"`. -/
def deregisterProcess (pid : Int32) : Bytes := [68, 44] ++ decimalInt pid.toInt ++ [newline]

/-! ## work.c -/

/-- What `echo 'R %u'` writes. -/
def workRegister (mypid : Int32) : Bytes := [82, 32] ++ decimal mypid.toUInt32.toNat ++ [newline]

/-- What `echo 'U %u'` writes. -/
def workUnregister (mypid : Int32) : Bytes := [85, 32] ++ decimal mypid.toUInt32.toNat ++ [newline]

/-! ## What the modules read -/

theorem registerProcess_said (pid : Int32) (period processingTime : UInt64) :
    Rms.Mp2Says (chomp (registerProcess pid period processingTime))
      (.registration pid.toUInt32 period processingTime) := by
  unfold registerProcess
  rw [chomp_of_newline]
  simp only [List.append_assoc, List.cons_append, List.nil_append]
  exact .registration (kstrtoint_decimalInt pid) (kstrtoul_decimal period)
    (kstrtoul_decimal processingTime)

theorem yieldProcess_said (pid : Int32) :
    Rms.Mp2Says (chomp (yieldProcess pid)) (.yield pid.toUInt32) := by
  unfold yieldProcess
  rw [chomp_of_newline]
  exact .yield (kstrtoint_decimalInt pid)

theorem deregisterProcess_said (pid : Int32) :
    Rms.Mp2Says (chomp (deregisterProcess pid)) (.deregistration pid.toUInt32) := by
  unfold deregisterProcess
  rw [chomp_of_newline]
  exact .deregistration (kstrtoint_decimalInt pid)

/-- A pid that is printed with `%u` is read back if it is not negative. -/
theorem kstrtoint_mypid {mypid : Int32} (h : 0 < mypid.toInt) :
    kstrtoint (decimal mypid.toUInt32.toNat) = some mypid.toUInt32 := by
  rcases int32_toInt_cases mypid with ⟨-, hlt⟩ | ⟨heq, -⟩
  · rw [kstrtoint_decimal hlt, UInt32.ofNat_toNat]
  · have hlt := mypid.toUInt32.toNat_lt
    omega

theorem workRegister_said {mypid : Int32} (h : 0 < mypid.toInt) :
    Profiler.Mp3Says (chomp (workRegister mypid)) (.registration mypid.toUInt32) := by
  unfold workRegister
  rw [chomp_of_newline]
  exact .registration (kstrtoint_mypid h)

theorem workUnregister_said {mypid : Int32} (h : 0 < mypid.toInt) :
    Profiler.Mp3Says (chomp (workUnregister mypid)) (.unregistration mypid.toUInt32) := by
  unfold workUnregister
  rw [chomp_of_newline]
  exact .unregistration (kstrtoint_mypid h)

/-- **The modules read the numbers the programs printed**, whatever follows the message in memory
and whatever the locals hold. -/
theorem clients_agree (msecsToJiffies : UInt32 → UInt64) (writer found : Rms.TaskPtr)
    (alloc alloc' : Bool) (s : Rms.Mp2) (t : Profiler.Sampler) (rest : Bytes) (l : Rms.Mp2Locals)
    (l' : Profiler.Mp3Locals) (pid : Int32) (hpid : 0 < pid.toInt)
    (period processingTime : UInt64) :
    (Rms.mp2Write msecsToJiffies writer alloc found (registerProcess pid period processingTime) rest
        l 0 s).called = some (.registration pid.toUInt32 period processingTime) ∧
      (Rms.mp2Write msecsToJiffies writer alloc found (yieldProcess pid) rest l 0 s).called =
        some (.yield pid.toUInt32) ∧
      (Rms.mp2Write msecsToJiffies writer alloc found (deregisterProcess pid) rest l 0 s).called =
        some (.deregistration pid.toUInt32) ∧
      (Profiler.mp3Write msecsToJiffies alloc' (workRegister pid) rest l' 0 t).called =
        some (.registration pid.toUInt32) ∧
      (Profiler.mp3Write msecsToJiffies alloc' (workUnregister pid) rest l' 0 t).called =
        some (.unregistration pid.toUInt32) := by
  refine ⟨?_, ?_, ?_, ?_, ?_⟩
  · exact Rms.mp2Write_called _ _ _ _ (registerProcess_said pid period processingTime)
      List.getLast?_concat rest l s
  · exact Rms.mp2Write_called _ _ _ _ (yieldProcess_said pid) List.getLast?_concat rest l s
  · exact Rms.mp2Write_called _ _ _ _ (deregisterProcess_said pid) List.getLast?_concat rest l s
  · exact Profiler.mp3Write_called _ _ (workRegister_said hpid) List.getLast?_concat rest l' t
  · exact Profiler.mp3Write_called _ _ (workUnregister_said hpid) List.getLast?_concat rest l' t

/-- The process 1234. -/
theorem clients_agree_1234 :
    registerProcess 1234 100 10 = [82, 44, 49, 50, 51, 52, 44, 49, 48, 48, 44, 49, 48, 10] ∧
      workRegister 1234 = [82, 32, 49, 50, 51, 52, 10] ∧
      (Rms.mp2Write (fun _ => 0) 1 true 1 (registerProcess 1234 100 10) [57] default 0
        Rms.quiet).called = some (.registration 1234 100 10) ∧
      (Profiler.mp3Write (fun _ => 0) true (workRegister 1234) [57] default 0
        Profiler.quietSampler).called = some (.registration 1234) := by
  have hagree := clients_agree (fun _ => 0) 1 1 true true Rms.quiet Profiler.quietSampler [57]
    default default 1234 (by decide) 100 10
  exact ⟨by decide, by decide, hagree.1, hagree.2.2.2.1⟩

end KernelDev.Wire
