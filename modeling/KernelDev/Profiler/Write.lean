/-
# KernelDev.Profiler.Write — the requests written to `/proc/mp3/status`

`mp3_write` cuts the message at blanks, stores one number in `pid`, selects the operation by the
first byte and returns what it returned. At another offset than 0 it returns -1. The buffer is
allocated, filled and freed without fail.
-/
import KernelDev.Lib.ProcWrite
import KernelDev.Profiler.Sampler
import KernelDev.Wire.Kstrto

namespace KernelDev.Profiler

open KernelDev.Lib KernelDev.Wire

/-- The local of `mp3_write` that a message is read into; it is not initialised. -/
structure Mp3Locals where
  pid : UInt32
  deriving DecidableEq, Repr, Inhabited

/-- The operation a message asks for. -/
inductive Mp3Request
  | registration (pid : UInt32)
  | unregistration (pid : UInt32)
  deriving DecidableEq, Repr

/-! ## The parser -/

/-- `" "`. -/
def blank : UInt8 := 32

def mp3Fields : List (RequestField Mp3Locals) :=
  [intField "Error: Invalid PID\n" fun pid l => { l with pid := pid }]

/-- The `switch` on `op[0]`: `'R'`, `'U'`. -/
def mp3Command (c : UInt8) : Option (Command Mp3Locals Mp3Request) :=
  if c = 82 then some ⟨1, fun l => .registration l.pid⟩
  else if c = 85 then some ⟨1, fun l => .unregistration l.pid⟩
  else none

/-- What a command letter stands for. -/
theorem mp3Command_cases {c : UInt8} {cmd : Command Mp3Locals Mp3Request}
    (h : mp3Command c = some cmd) :
    (c = 82 ∧ cmd = ⟨1, fun l => .registration l.pid⟩) ∨
      (c = 85 ∧ cmd = ⟨1, fun l => .unregistration l.pid⟩) := by
  unfold mp3Command at h
  split at h
  · next hc => exact .inl ⟨hc, (Option.some.inj h).symm⟩
  · split at h
    · next hc => exact .inr ⟨hc, (Option.some.inj h).symm⟩
    · cases h

/-- The pid is read. -/
theorem readFields_mp3 {tooMany : String} {l m : Mp3Locals} {p : Bytes} (hp : blank ∉ p) :
    (readFields blank tooMany mp3Fields (some p) l).1 = .ok m ↔
      ∃ pid, kstrtoint p = some pid ∧ ⟨pid⟩ = m := by
  simp only [mp3Fields, readFields_last hp, intField, Option.map_eq_some_iff]
  constructor
  · rintro ⟨_, ⟨pid, hpid, rfl⟩, rfl⟩
    exact ⟨pid, hpid, rfl⟩
  · rintro ⟨pid, hpid, rfl⟩
    exact ⟨_, ⟨pid, hpid, rfl⟩, rfl⟩

/-- The format of the messages. -/
def mp3Format : Format Mp3Locals Mp3Request where
  sep := blank
  fields := mp3Fields
  tooMany := "Error: Invalid number of arguments\n"
  command := mp3Command
  unknown := "Error: Invalid command\n"
  sep_ne_nul := by decide
  sep_not_digit := by decide
  command_nul := rfl
  command_sep := rfl
  arity_pos c cmd h := by
    rcases mp3Command_cases h with ⟨-, rfl⟩ | ⟨-, rfl⟩ <;> decide
  determined c cmd h args l l' m m' hcount hm hm' := by
    have hargs : blank ∉ args := by
      rcases mp3Command_cases h with ⟨-, rfl⟩ | ⟨-, rfl⟩ <;>
        exact List.count_eq_zero.mp (Nat.succ.inj hcount)
    rw [readFields_mp3 hargs] at hm hm'
    obtain ⟨pid, hpid, rfl⟩ := hm
    obtain ⟨pid', hpid', rfl⟩ := hm'
    rw [hpid] at hpid'
    rw [Option.some.inj hpid']

/-! ## mp3_write -/

section
variable (msecsToJiffies : UInt32 → UInt64) (alloc : Bool)

/-- An operation: what it returns, if it does, and the state. -/
def mp3Perform : Mp3Request → Sampler → Option (Int × Sampler)
  | .registration pid, s => mp3Registration msecsToJiffies pid alloc s
  | .unregistration pid, s => some (mp3Unregistration pid s)

/-- `mp3_write` on a message `bs`, with `rest` behind the buffer and the local at `l`. -/
def mp3Write (bs rest : Bytes) (l : Mp3Locals) (offp : Nat) (s : Sampler) :
    WriteCall Sampler Mp3Request :=
  mp3Format.write (fun _ => -1) (mp3Perform msecsToJiffies alloc) bs rest l offp s

/-- An operation that returns returns 0. -/
theorem mp3Perform_ret {r : Mp3Request} {s s' : Sampler} {ret : Int}
    (h : mp3Perform msecsToJiffies alloc r s = some (ret, s')) : ret = 0 := by
  cases r with
  | registration pid =>
      simp only [mp3Perform, mp3Registration] at h
      split at h
      · exact (congrArg Prod.fst (Option.some.inj h)).symm
      · cases h
  | unregistration pid => exact (congrArg Prod.fst (Option.some.inj h)).symm

end

/-! ## The grammar -/

/-- The text is exactly `R pid` or `U pid`, and this is its number. -/
inductive Mp3Says : Bytes → Mp3Request → Prop
  | registration {p : Bytes} {pid : UInt32} (hpid : kstrtoint p = some pid) :
      Mp3Says (82 :: blank :: p) (.registration pid)
  | unregistration {p : Bytes} {pid : UInt32} (hpid : kstrtoint p = some pid) :
      Mp3Says (85 :: blank :: p) (.unregistration pid)

theorem blank_notMem_int {p : Bytes} {pid : UInt32} (h : kstrtoint p = some pid) : blank ∉ p :=
  fun hmem => (bytes_of_kstrtoint (by rw [h]; rfl) blank hmem).ne (.inr (.inl rfl)) rfl

/-- **The format stands for this grammar.** -/
theorem mp3Format_said {s : Bytes} {r : Mp3Request} : mp3Format.Says s r ↔ Mp3Says s r := by
  constructor
  · rintro ⟨c, cmd, args, hcmd, rfl, hcount, hread⟩
    obtain ⟨m, hm, rfl⟩ := hread default
    rcases mp3Command_cases hcmd with ⟨rfl, rfl⟩ | ⟨rfl, rfl⟩
    · have hargs := List.count_eq_zero.mp (Nat.succ.inj hcount)
      obtain ⟨pid, hpid, rfl⟩ := (readFields_mp3 hargs).mp hm
      exact .registration hpid
    · have hargs := List.count_eq_zero.mp (Nat.succ.inj hcount)
      obtain ⟨pid, hpid, rfl⟩ := (readFields_mp3 hargs).mp hm
      exact .unregistration hpid
  · intro h
    have hcount : ∀ {p : Bytes} {pid : UInt32}, kstrtoint p = some pid →
        List.count blank p + 1 = 1 := fun hpid => by
      rw [List.count_eq_zero.mpr (blank_notMem_int hpid)]
    cases h with
    | @registration p pid hpid =>
        exact ⟨82, _, _, rfl, rfl, hcount hpid, fun l =>
          ⟨⟨pid⟩, (readFields_mp3 (blank_notMem_int hpid)).mpr ⟨pid, hpid, rfl⟩, rfl⟩⟩
    | @unregistration p pid hpid =>
        exact ⟨85, _, _, rfl, rfl, hcount hpid, fun l =>
          ⟨⟨pid⟩, (readFields_mp3 (blank_notMem_int hpid)).mpr ⟨pid, hpid, rfl⟩, rfl⟩⟩

/-- A request in a message that ends in a newline is called. -/
theorem mp3Write_called (msecsToJiffies : UInt32 → UInt64) (alloc : Bool) {bs : Bytes}
    {r : Mp3Request} (h : Mp3Says (chomp bs) r) (hnl : bs.getLast? = some newline) (rest : Bytes)
    (l : Mp3Locals) (s : Sampler) :
    (mp3Write msecsToJiffies alloc bs rest l 0 s).called = some r :=
  Format.write_called (mp3Format_said.mpr h) hnl rest l s

end KernelDev.Profiler
