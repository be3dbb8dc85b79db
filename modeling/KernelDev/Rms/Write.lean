/-
# KernelDev.Rms.Write — the requests written to `/proc/mp2/status`

`mp2_write` cuts the message at commas, stores up to three numbers in `pid`, `period` and
`processing_time`, selects the operation by the first byte and returns what it returned. At another
offset than 0 it takes the whole message and does nothing. The buffer is allocated, filled and freed
without fail.
-/
import KernelDev.Lib.ProcWrite
import KernelDev.Rms.Operations
import KernelDev.Wire.Kstrto

namespace KernelDev.Rms

open KernelDev.Lib KernelDev.Wire

/-- The locals of `mp2_write` that a message is read into; none of them is initialised. -/
structure Mp2Locals where
  pid : UInt32
  period : UInt64
  processingTime : UInt64
  deriving DecidableEq, Repr, Inhabited

/-- The operation a message asks for. -/
inductive Mp2Request
  | registration (pid : UInt32) (period processingTime : UInt64)
  | yield (pid : UInt32)
  | deregistration (pid : UInt32)
  deriving DecidableEq, Repr

/-! ## The parser -/

/-- `","`. -/
def comma : UInt8 := 44

def mp2Fields : List (RequestField Mp2Locals) :=
  [intField "Error: Invalid PID\n" fun pid l => { l with pid := pid },
    ulongField "Error: Invalid period\n" fun period l => { l with period := period },
    ulongField "Error: Invalid processing time\n" fun time l => { l with processingTime := time }]

/-- The `switch` on `op[0]`: `'R'`, `'Y'`, `'D'`. -/
def mp2Command (c : UInt8) : Option (Command Mp2Locals Mp2Request) :=
  if c = 82 then some ⟨3, fun l => .registration l.pid l.period l.processingTime⟩
  else if c = 89 then some ⟨1, fun l => .yield l.pid⟩
  else if c = 68 then some ⟨1, fun l => .deregistration l.pid⟩
  else none

/-- What a command letter stands for. -/
theorem mp2Command_cases {c : UInt8} {cmd : Command Mp2Locals Mp2Request}
    (h : mp2Command c = some cmd) :
    (c = 82 ∧ cmd = ⟨3, fun l => .registration l.pid l.period l.processingTime⟩) ∨
      (c = 89 ∧ cmd = ⟨1, fun l => .yield l.pid⟩) ∨
      (c = 68 ∧ cmd = ⟨1, fun l => .deregistration l.pid⟩) := by
  unfold mp2Command at h
  split at h
  · next hc => exact .inl ⟨hc, (Option.some.inj h).symm⟩
  · split at h
    · next hc => exact .inr (.inl ⟨hc, (Option.some.inj h).symm⟩)
    · split at h
      · next hc => exact .inr (.inr ⟨hc, (Option.some.inj h).symm⟩)
      · cases h

section Reads

variable {tooMany : String} {l m : Mp2Locals}

/-- One field: the pid is read and nothing else. -/
theorem readFields_mp2_one {p : Bytes} (hp : comma ∉ p) :
    (readFields comma tooMany mp2Fields (some p) l).1 = .ok m ↔
      ∃ pid, kstrtoint p = some pid ∧ { l with pid := pid } = m := by
  simp only [mp2Fields, readFields_last hp, intField, Option.map_eq_some_iff]
  constructor
  · rintro ⟨_, ⟨pid, hpid, rfl⟩, rfl⟩
    exact ⟨pid, hpid, rfl⟩
  · rintro ⟨pid, hpid, rfl⟩
    exact ⟨_, ⟨pid, hpid, rfl⟩, rfl⟩

/-- Three fields: all locals are read. -/
theorem readFields_mp2_three {p t c : Bytes} (hp : comma ∉ p) (ht : comma ∉ t) (hc : comma ∉ c) :
    (readFields comma tooMany mp2Fields (some (p ++ comma :: (t ++ comma :: c))) l).1 = .ok m ↔
      ∃ pid period time, kstrtoint p = some pid ∧ kstrtoul t = some period ∧
        kstrtoul c = some time ∧ m = ⟨pid, period, time⟩ := by
  simp only [mp2Fields, readFields_append hp, readFields_append ht, readFields_last hc]
  simp only [intField, ulongField, Option.map_eq_some_iff]
  constructor
  · rintro ⟨_, ⟨pid, hpid, rfl⟩, _, ⟨period, hperiod, rfl⟩, _, ⟨time, htime, rfl⟩, rfl⟩
    exact ⟨pid, period, time, hpid, hperiod, htime, rfl⟩
  · rintro ⟨pid, period, time, hpid, hperiod, htime, rfl⟩
    exact ⟨_, ⟨pid, hpid, rfl⟩, _, ⟨period, hperiod, rfl⟩, _, ⟨time, htime, rfl⟩, rfl⟩

end Reads

/-- The format of the messages. -/
def mp2Format : Format Mp2Locals Mp2Request where
  sep := comma
  fields := mp2Fields
  tooMany := "Error: Invalid number of arguments\n"
  command := mp2Command
  unknown := "Error: Invalid command\n"
  sep_ne_nul := by decide
  sep_not_digit := by decide
  command_nul := rfl
  command_sep := rfl
  arity_pos c cmd h := by
    rcases mp2Command_cases h with ⟨-, rfl⟩ | ⟨-, rfl⟩ | ⟨-, rfl⟩ <;> decide
  determined c cmd h args l l' m m' hcount hm hm' := by
    rcases mp2Command_cases h with ⟨-, rfl⟩ | ⟨-, rfl⟩ | ⟨-, rfl⟩
    · -- a registration reads all three locals
      obtain ⟨p, r, rfl, hp, hr⟩ := cut_of_count (Nat.succ.inj hcount)
      obtain ⟨t, c, rfl, ht, hc⟩ := cut_of_count hr
      rw [readFields_mp2_three hp ht (List.count_eq_zero.mp hc)] at hm hm'
      obtain ⟨pid, period, time, hpid, hperiod, htime, rfl⟩ := hm
      obtain ⟨pid', period', time', hpid', hperiod', htime', rfl⟩ := hm'
      rw [hpid] at hpid'
      rw [hperiod] at hperiod'
      rw [htime] at htime'
      rw [Option.some.inj hpid', Option.some.inj hperiod', Option.some.inj htime']
    all_goals
      have hargs := List.count_eq_zero.mp (Nat.succ.inj hcount)
      rw [readFields_mp2_one hargs] at hm hm'
      obtain ⟨pid, hpid, rfl⟩ := hm
      obtain ⟨pid', hpid', rfl⟩ := hm'
      rw [hpid] at hpid'
      rw [Option.some.inj hpid']

/-! ## mp2_write -/

section
variable (msecsToJiffies : UInt32 → UInt64) (writer : TaskPtr) (alloc : Bool) (found : TaskPtr)

/-- An operation called by the process `writer`: what it returns, if it does, and the state. -/
def mp2Perform : Mp2Request → Mp2 → Option (Int × Mp2)
  | .registration pid period processingTime, s =>
      mp2Registration msecsToJiffies ⟨writer, pid, period, processingTime⟩ alloc found s
  | .yield pid, s => some (0, mp2Yield writer pid s)
  | .deregistration pid, s => some (0, mp2Deregistration pid s)

/-- `mp2_write` on a message `bs`, with `rest` behind the buffer and the locals at `l`. -/
def mp2Write (bs rest : Bytes) (l : Mp2Locals) (offp : Nat) (s : Mp2) : WriteCall Mp2 Mp2Request :=
  mp2Format.write (fun count => count) (mp2Perform msecsToJiffies writer alloc found) bs rest l offp
    s

/-- The divisor of `mp2_admission_control`. -/
def totalPeriod (s : Mp2) (period : UInt64) : UInt64 :=
  s.mp2ProcessList.foldl (fun acc i => acc + (s.slab i).period) period

theorem mp2AdmissionControl_eq_none {s : Mp2} {period processingTime : UInt64} :
    mp2AdmissionControl s period processingTime = none ↔ totalPeriod s period = 0 := by
  unfold mp2AdmissionControl
  extract_lets period' processingTime'
  by_cases h : period' = 0
  · rw [if_pos h]
    exact iff_of_true rfl h
  · rw [if_neg h]
    refine iff_of_false ?_ h
    split <;> simp

/-- A registration returns if its division does. -/
theorem mp2Registration_isSome {c : RegCall} {s : Mp2} :
    (mp2Registration msecsToJiffies c alloc found s).isSome ↔ totalPeriod s c.period ≠ 0 := by
  rw [Ne, ← @mp2AdmissionControl_eq_none s c.period c.processingTime]
  unfold mp2Registration
  split <;> simp [*]

/-- An operation returns unless it divides by a total period of 0. -/
theorem mp2Perform_isSome {r : Mp2Request} {s : Mp2} :
    (mp2Perform msecsToJiffies writer alloc found r s).isSome ↔
      ∀ pid period processingTime, r = .registration pid period processingTime →
        totalPeriod s period ≠ 0 := by
  cases r with
  | registration pid period processingTime =>
      simp only [mp2Perform, mp2Registration_isSome, Mp2Request.registration.injEq]
      constructor
      · rintro h _ _ _ ⟨-, rfl, -⟩
        exact h
      · exact fun h => h pid period processingTime ⟨rfl, rfl, rfl⟩
  | yield pid | deregistration pid => simp [mp2Perform]

end

/-! ## The grammar -/

/-- The text is exactly `R,pid,period,time`, `Y,pid` or `D,pid`, and these are its numbers. -/
inductive Mp2Says : Bytes → Mp2Request → Prop
  | registration {p t c : Bytes} {pid : UInt32} {period processingTime : UInt64}
      (hpid : kstrtoint p = some pid) (hperiod : kstrtoul t = some period)
      (htime : kstrtoul c = some processingTime) :
      Mp2Says (82 :: comma :: (p ++ comma :: (t ++ comma :: c)))
        (.registration pid period processingTime)
  | yield {p : Bytes} {pid : UInt32} (hpid : kstrtoint p = some pid) :
      Mp2Says (89 :: comma :: p) (.yield pid)
  | deregistration {p : Bytes} {pid : UInt32} (hpid : kstrtoint p = some pid) :
      Mp2Says (68 :: comma :: p) (.deregistration pid)

theorem comma_notMem_int {p : Bytes} {pid : UInt32} (h : kstrtoint p = some pid) : comma ∉ p :=
  fun hmem => (bytes_of_kstrtoint (by rw [h]; rfl) comma hmem).ne (.inr (.inr rfl)) rfl

theorem comma_notMem_ulong {t : Bytes} {v : UInt64} (h : kstrtoul t = some v) : comma ∉ t :=
  fun hmem => (bytes_of_kstrtoul (by rw [h]; rfl) comma hmem).ne (.inr (.inr rfl)) rfl

/-- **The format stands for this grammar.** -/
theorem mp2Format_said {s : Bytes} {r : Mp2Request} : mp2Format.Says s r ↔ Mp2Says s r := by
  constructor
  · rintro ⟨c, cmd, args, hcmd, rfl, hcount, hread⟩
    obtain ⟨m, hm, rfl⟩ := hread default
    rcases mp2Command_cases hcmd with ⟨rfl, rfl⟩ | ⟨rfl, rfl⟩ | ⟨rfl, rfl⟩
    · obtain ⟨p, r, rfl, hp, hr⟩ := cut_of_count (Nat.succ.inj hcount)
      obtain ⟨t, c, rfl, ht, hc⟩ := cut_of_count hr
      obtain ⟨pid, period, time, hpid, hperiod, htime, rfl⟩ :=
        (readFields_mp2_three hp ht (List.count_eq_zero.mp hc)).mp hm
      exact .registration hpid hperiod htime
    · have hargs := List.count_eq_zero.mp (Nat.succ.inj hcount)
      obtain ⟨pid, hpid, rfl⟩ := (readFields_mp2_one hargs).mp hm
      exact .yield hpid
    · have hargs := List.count_eq_zero.mp (Nat.succ.inj hcount)
      obtain ⟨pid, hpid, rfl⟩ := (readFields_mp2_one hargs).mp hm
      exact .deregistration hpid
  · intro h
    cases h with
    | @registration p t c pid period time hpid hperiod htime =>
        have hp := comma_notMem_int hpid
        have ht := comma_notMem_ulong hperiod
        have hc := comma_notMem_ulong htime
        refine ⟨82, _, _, rfl, rfl, ?_, fun l => ⟨⟨pid, period, time⟩, ?_, rfl⟩⟩
        · show List.count comma _ + 1 = 3
          rw [List.count_append, List.count_cons_self, List.count_append, List.count_cons_self,
            List.count_eq_zero.mpr hp, List.count_eq_zero.mpr ht, List.count_eq_zero.mpr hc]
        · exact (readFields_mp2_three hp ht hc).mpr ⟨_, _, _, hpid, hperiod, htime, rfl⟩
    | @yield p pid hpid =>
        have hp := comma_notMem_int hpid
        refine ⟨89, _, _, rfl, rfl, ?_, fun l =>
          ⟨{ l with pid := pid }, (readFields_mp2_one hp).mpr ⟨pid, hpid, rfl⟩, rfl⟩⟩
        show List.count comma _ + 1 = 1
        rw [List.count_eq_zero.mpr hp]
    | @deregistration p pid hpid =>
        have hp := comma_notMem_int hpid
        refine ⟨68, _, _, rfl, rfl, ?_, fun l =>
          ⟨{ l with pid := pid }, (readFields_mp2_one hp).mpr ⟨pid, hpid, rfl⟩, rfl⟩⟩
        show List.count comma _ + 1 = 1
        rw [List.count_eq_zero.mpr hp]

/-- A request in a message that ends in a newline is called. -/
theorem mp2Write_called (msecsToJiffies : UInt32 → UInt64) (writer : TaskPtr) (alloc : Bool)
    (found : TaskPtr) {bs : Bytes} {r : Mp2Request} (h : Mp2Says (chomp bs) r)
    (hnl : bs.getLast? = some newline) (rest : Bytes) (l : Mp2Locals) (s : Mp2) :
    (mp2Write msecsToJiffies writer alloc found bs rest l 0 s).called = some r :=
  Format.write_called (mp2Format_said.mpr h) hnl rest l s

end KernelDev.Rms
