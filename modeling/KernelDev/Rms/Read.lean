/-
# KernelDev.Rms.Read — the listing read from `/proc/mp2/status`

`mp2_read` prints `pid: period, processing time` of each record. It formats an entry before it looks
whether there is room for it, and stops without counting it when there is not.
-/
import KernelDev.Lib.Disclosure
import KernelDev.Lib.Overrun
import KernelDev.Rms.State
import Mathlib.Algebra.Group.Int.Defs

namespace KernelDev.Rms

open KernelDev.Lib

/-- `"%d: %lu, %lu\n"` of a record. The pid is unsigned and printed as an `int`. -/
def Mp2TaskStruct.line (r : Mp2TaskStruct) : Bytes :=
  decimalInt r.pid.toInt32.toInt ++ [58, 32] ++ decimal r.period.toNat ++ [44, 32] ++
    decimal r.processingTime.toNat ++ [10]

/-- An `int` has at most ten digits. -/
theorem toInt32_natAbs_lt (x : UInt32) : x.toInt32.toInt.natAbs < 10 ^ 10 := by
  have hlo := x.toInt32.le_toInt
  have hhi := x.toInt32.toInt_lt
  omega

theorem Mp2TaskStruct.line_length (r : Mp2TaskStruct) :
    8 ≤ r.line.length ∧ r.line.length ≤ 64 := by
  have hpid := decimalInt_length_pos r.pid.toInt32.toInt
  have hperiod := decimal_length_pos r.period.toNat
  have htime := decimal_length_pos r.processingTime.toNat
  have hpid' := decimalInt_length_le (by omega) (toInt32_natAbs_lt r.pid)
  have hperiod' : (decimal r.period.toNat).length ≤ 20 :=
    decimal_length_le (by omega) (Nat.lt_of_lt_of_le r.period.toNat_lt (by omega))
  have htime' : (decimal r.processingTime.toNat).length ≤ 20 :=
    decimal_length_le (by omega) (Nat.lt_of_lt_of_le r.processingTime.toNat_lt (by omega))
  unfold line
  simp only [List.length_append, List.length_cons, List.length_nil]
  omega

theorem Mp2TaskStruct.line_noNul (r : Mp2TaskStruct) : 0 ∉ r.line := by
  unfold line
  simp only [List.mem_append, not_or]
  exact ⟨⟨⟨⟨⟨zero_notMem_decimalInt _, by decide⟩, zero_notMem_decimal _⟩, by decide⟩,
    zero_notMem_decimal _⟩, by decide⟩

/-- `cur_proc_size + bytes_to_write >= count`; the `int` is converted to a `size_t`. -/
def mp2Overflows (total : Int) (count : Nat) : Bool := count ≤ (total % 2 ^ 64).toNat

def mp2ReadFormat : ReadFormat Mp2TaskStruct where
  text := Mp2TaskStruct.line
  full _ _ := false
  overflows := mp2Overflows
  text_length r := ⟨Nat.le_trans (by omega) r.line_length.1, r.line_length.2⟩
  text_noNul := Mp2TaskStruct.line_noNul
  full_mono _ h := h
  full_of_fits _ := rfl
  overflows_of_fits := by
    intro n count hlt hcount
    unfold mp2Overflows intMax at *
    rw [decide_eq_false_iff_not]
    omega

/-- `mp2_process_list`, record by record. -/
def Mp2.records (s : Mp2) : List Mp2TaskStruct := s.mp2ProcessList.map s.slab

/-- `mp2_read`. `memory` is what `kmalloc` delivers, `accessible` how much of the user's buffer can
be written. -/
def mp2Read (memory : Nat → UInt8) (accessible : Nat) (s : Mp2) (count offp : Nat) : ReadCall :=
  mp2ReadFormat.read memory accessible s.records count offp

/-- The test of an entry that would be counted. -/
theorem mp2Overflows_iff {n count : Nat} (hn : n ≤ intMax) :
    mp2ReadFormat.overflows n count = true ↔ count ≤ n := by
  show decide (count ≤ ((n : Int) % 2 ^ 64).toNat) = true ↔ _
  unfold intMax at hn
  rw [decide_eq_true_iff]
  omega

/-! ## The buffer -/

variable {memory : Nat → UInt8} {accessible count : Nat}

/-- The entries behind the first fit where they are printed, unless the first fills the buffer. -/
def Mp2Fits (count : Nat) : List Mp2TaskStruct → Prop
  | [] => True
  | r :: rs => count ≤ r.line.length ∨
      ∀ x ∈ mp2ReadFormat.places r.line.length r.line.length rs, x.1 + x.2.line.length < count

instance (count : Nat) : (l : List Mp2TaskStruct) → Decidable (Mp2Fits count l)
  | [] => inferInstanceAs (Decidable True)
  | r :: rs => inferInstanceAs (Decidable (count ≤ r.line.length ∨
      ∀ x ∈ mp2ReadFormat.places r.line.length r.line.length rs, x.1 + x.2.line.length < count))

/-- There is no second entry, or the first fills the buffer. -/
def Mp2Alone (count : Nat) : List Mp2TaskStruct → Prop
  | [] => True
  | r :: rs => count ≤ r.line.length ∨ rs = []

/-- **`mp2_read` stays inside its buffer exactly when the later entries fit where they are printed,
and inside what each `snprintf` is told exactly when there are none.** -/
theorem mp2Read_contained_iff (l : List Mp2TaskStruct) :
    ((mp2ReadFormat.read memory accessible l count 0).Contained count ↔
        intMax < count ∨ Mp2Fits count l) ∧
      ((mp2ReadFormat.read memory accessible l count 0).Allotted count ↔
        intMax < count ∨ Mp2Alone count l) := by
  refine ReadFormat.contained_iff_of_cons (C := Mp2Fits count) (A := Mp2Alone count) trivial
    trivial (fun r rs hcount => ?_) l
  have hline := ReadFormat.text_length_le_intMax mp2ReadFormat r
  by_cases hfill : count ≤ r.line.length
  · obtain ⟨hcontained, hallotted⟩ := ReadFormat.read_of_overflows memory accessible
      hcount rfl ((mp2Overflows_iff hline).mpr hfill) rs
    exact ⟨iff_of_true hcontained (.inl hfill), iff_of_true hallotted (.inl hfill)⟩
  · have hover : mp2ReadFormat.overflows (mp2ReadFormat.text r).length count = false := by
      rw [← Bool.not_eq_true, mp2Overflows_iff hline]
      exact hfill
    have hle : (mp2ReadFormat.text r).length ≤ count + (count - accessible) :=
      Nat.le_trans (Nat.le_of_not_le hfill) (Nat.le_add_right _ _)
    have hpos : 0 < count := Nat.pos_of_ne_zero fun h => hfill (h ▸ Nat.zero_le _)
    rw [ReadFormat.contained_iff_of_first hcount rfl hover hpos rs, and_iff_left hle,
      ReadFormat.allotted_iff_of_first hcount rfl hover rs, and_iff_left hle]
    constructor
    · exact ⟨fun h => .inr fun x hx => h x hx rfl,
        fun h x hx _ => h.resolve_left hfill x hx⟩
    · exact ⟨fun h => .inr (h.resolve_right Bool.false_ne_true),
        fun h => .inl (h.resolve_left hfill)⟩

/-! ## What is copied -/

/-- How much is printed at the front of the buffer, with the NUL. -/
def mp2Filled : List Mp2TaskStruct → Nat
  | [] => 0
  | [r] => r.line.length + 1
  | r :: r' :: _ => r.line.length + r'.line.length + 1

/-- **What `mp2_read` copies is determined by the list exactly when it is no more than the first two
entries.** -/
theorem mp2Read_determined_iff (accessible count : Nat) (l : List Mp2TaskStruct) :
    (∀ memory memory' : Nat → UInt8, (mp2ReadFormat.read memory accessible l count 0).user =
        (mp2ReadFormat.read memory' accessible l count 0).user) ↔
      intMax < count ∨ min accessible count ≤ mp2Filled l := by
  rw [ReadFormat.read_determined_iff]
  refine or_congr_right' fun hcount => ?_
  rw [Nat.not_lt] at hcount
  match l with
  | [] => exact Iff.rfl
  | [r] => exact Iff.rfl
  | r :: r' :: rs =>
      have hline := ReadFormat.text_length_le_intMax mp2ReadFormat r
      have hfull : ∀ o, mp2ReadFormat.full o count = false := fun _ => rfl
      rw [ReadFormat.reach, hfull, hfull, if_neg Bool.false_ne_true, mp2Filled]
      split
      · next h =>
          -- the first entry fills the buffer, so all of it has been stored
          have hfill : count ≤ r.line.length :=
            (mp2Overflows_iff hline).mp (h.resolve_right Bool.false_ne_true)
          have hcopied : min accessible count ≤ r.line.length :=
            Nat.le_trans (Nat.min_le_right _ _) hfill
          exact iff_of_true (Nat.le_succ_of_le hcopied)
            (Nat.le_succ_of_le (Nat.le_add_right_of_le hcopied))
      · exact Iff.rfl

end KernelDev.Rms
