/-
# KernelDev.Profiler.Read — the listing read from `/proc/mp3/status`

`mp3_read` prints `pid: ` of each record. Before an entry it looks whether there is room for an
`unsigned int` at `*offp`, which says little about the room for its digits.
-/
import KernelDev.Lib.Disclosure
import KernelDev.Lib.Overrun
import KernelDev.Profiler.Sampler

namespace KernelDev.Profiler

open KernelDev.Lib

/-- `"%d: \n"` of a pid, which is unsigned and printed as an `int`. -/
def pidLine (pid : UInt32) : Bytes := decimalInt pid.toInt32.toInt ++ [58, 32, 10]

theorem pidLine_length (pid : UInt32) : 4 ≤ (pidLine pid).length ∧ (pidLine pid).length ≤ 64 := by
  have hlo := pid.toInt32.le_toInt
  have hhi := pid.toInt32.toInt_lt
  have hpos := decimalInt_length_pos pid.toInt32.toInt
  have hle : (decimalInt pid.toInt32.toInt).length ≤ 10 + 1 :=
    decimalInt_length_le (by omega) (by omega)
  unfold pidLine
  simp only [List.length_append, List.length_cons, List.length_nil]
  omega

theorem pidLine_noNul (pid : UInt32) : 0 ∉ pidLine pid := by
  unfold pidLine
  rw [List.mem_append, not_or]
  exact ⟨zero_notMem_decimalInt _, by decide⟩

/-- `*offp + sizeof(curr_proc->pid) > count`. -/
def mp3Full (offp count : Nat) : Bool := offp + 4 > count

def mp3ReadFormat : ReadFormat UInt32 where
  text := pidLine
  full := mp3Full
  overflows _ _ := false
  text_length pid := ⟨Nat.le_trans (by omega) (pidLine_length pid).1, (pidLine_length pid).2⟩
  text_noNul := pidLine_noNul
  full_mono := by
    intro o o' count hle h
    unfold mp3Full at *
    rw [decide_eq_true_iff] at *
    omega
  full_of_fits := by
    intro pid o count hlt
    have hlen := (pidLine_length pid).1
    unfold mp3Full
    rw [decide_eq_false_iff_not]
    omega
  overflows_of_fits _ _ := rfl

/-- `mp3_read`. `memory` is what `kmalloc` delivers, `accessible` how much of the user's buffer can
be written. -/
def mp3Read (memory : Nat → UInt8) (accessible : Nat) (s : Sampler) (count offp : Nat) : ReadCall :=
  mp3ReadFormat.read memory accessible s.processList count offp

theorem mp3Full_iff {o count : Nat} : mp3ReadFormat.full o count = true ↔ count < o + 4 := by
  show decide (o + 4 > count) = true ↔ _
  rw [decide_eq_true_iff]

/-! ## The buffer -/

variable {memory : Nat → UInt8} {accessible count : Nat}

/-- The entries behind the first that begin four bytes before the end of the buffer fit where they
are printed, and the first is not reported longer than the buffer. -/
def Mp3Fits (accessible count : Nat) : List UInt32 → Prop
  | [] => True
  | pid :: pids => 4 ≤ count →
      (pidLine pid).length ≤ count + (count - accessible) ∧
        ∀ x ∈ mp3ReadFormat.places (pidLine pid).length (pidLine pid).length pids,
          x.1 + 4 ≤ count → x.1 + (pidLine x.2).length < count

/-- No second entry is printed, and the first is not reported longer than the buffer. -/
def Mp3Alone (accessible count : Nat) : List UInt32 → Prop
  | [] => True
  | pid :: pids => 4 ≤ count →
      (pidLine pid).length ≤ count + (count - accessible) ∧
        (pids = [] ∨ count < (pidLine pid).length + 4)

/-- **`mp3_read` stays inside its buffer exactly when the entries that are begun in it fit where
they are printed, and inside what each `snprintf` is told exactly when only one is begun.** -/
theorem mp3Read_contained_iff (l : List UInt32) :
    ((mp3ReadFormat.read memory accessible l count 0).Contained count ↔
        intMax < count ∨ Mp3Fits accessible count l) ∧
      ((mp3ReadFormat.read memory accessible l count 0).Allotted count ↔
        intMax < count ∨ Mp3Alone accessible count l) := by
  refine ReadFormat.contained_iff_of_cons (C := Mp3Fits accessible count)
    (A := Mp3Alone accessible count) trivial trivial (fun pid pids hcount => ?_) l
  by_cases hroom : 4 ≤ count
  · have hfull : mp3ReadFormat.full 0 count = false := by
      rw [← Bool.not_eq_true, mp3Full_iff]
      omega
    have hfits : mp3ReadFormat.FitsAt count (pidLine pid).length (pidLine pid).length pids ↔
        ∀ x ∈ mp3ReadFormat.places (pidLine pid).length (pidLine pid).length pids,
          x.1 + 4 ≤ count → x.1 + (pidLine x.2).length < count := by
      unfold ReadFormat.FitsAt
      simp only [← Bool.not_eq_true, mp3Full_iff, Nat.not_lt]
      exact Iff.rfl
    have hpos : 0 < count := Nat.lt_of_lt_of_le (by omega) hroom
    rw [ReadFormat.contained_iff_of_first hcount hfull rfl hpos,
      ReadFormat.allotted_iff_of_first hcount hfull rfl, mp3Full_iff]
    constructor
    · rw [Mp3Fits, forall_prop_of_true hroom, ← hfits, and_comm]
      exact Iff.rfl
    · rw [Mp3Alone, forall_prop_of_true hroom, and_comm]
      exact Iff.rfl
  · obtain ⟨hcontained, hallotted⟩ := ReadFormat.read_of_full (e := pid) memory accessible
      hcount (mp3Full_iff.mpr (by omega : count < 0 + 4)) pids
    exact ⟨iff_of_true hcontained fun h => absurd h hroom,
      iff_of_true hallotted fun h => absurd h hroom⟩

/-! ## What is copied -/

/-- How much is printed at the front of the buffer, with the NUL. -/
def mp3Filled (count : Nat) : List UInt32 → Nat
  | [] => 0
  | [pid] => if count < 4 then 0 else (pidLine pid).length + 1
  | pid :: pid' :: _ =>
      if count < 4 then 0
      else if count < (pidLine pid).length + 4 then (pidLine pid).length + 1
      else (pidLine pid).length + (pidLine pid').length + 1

/-- **What `mp3_read` copies is determined by the list exactly when it is no more than the first two
entries that are begun.** -/
theorem mp3Read_determined_iff (accessible count : Nat) (l : List UInt32) :
    (∀ memory memory' : Nat → UInt8, (mp3ReadFormat.read memory accessible l count 0).user =
        (mp3ReadFormat.read memory' accessible l count 0).user) ↔
      intMax < count ∨ min accessible count ≤ mp3Filled count l := by
  rw [ReadFormat.read_determined_iff]
  have hreach : mp3ReadFormat.reach count l = mp3Filled count l := by
    match l with
    | [] => rfl
    | [pid] =>
        rw [ReadFormat.reach, mp3Filled]
        simp only [mp3Full_iff, Nat.zero_add]
        rfl
    | pid :: pid' :: pids =>
        have hover : ∀ n, mp3ReadFormat.overflows n count = false := fun _ => rfl
        rw [ReadFormat.reach, mp3Filled]
        simp only [mp3Full_iff, hover, Nat.zero_add, Bool.false_eq_true, false_or]
        rfl
  rw [hreach]

end KernelDev.Profiler
