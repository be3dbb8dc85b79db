/-
# KernelDev.Lib.Decimal — decimal numerals in byte strings

The digits a number is printed with, the number a string of digits stands for, and that the second
undoes the first. The digits themselves are `Nat.toDigits`.
-/
import Mathlib.Algebra.Group.Nat.Defs
import Mathlib.Data.List.Basic

namespace KernelDev.Lib

abbrev Bytes := List UInt8

/-- `'0'` to `'9'`. -/
def isDigit (b : UInt8) : Bool := 48 ≤ b && b ≤ 57

/-- The number a string of digits stands for. -/
def decimalValue (bs : Bytes) : Nat := bs.foldl (fun acc b => 10 * acc + (b.toNat - 48)) 0

/-- The digits of a number, without leading zeros. -/
def decimal (n : Nat) : Bytes := (Nat.toDigits 10 n).map Char.toUInt8

/-- The digits of a number after its sign, if it is negative. -/
def decimalInt (i : Int) : Bytes := if i < 0 then 45 :: decimal i.natAbs else decimal i.natAbs

/-! ## The digits of a number -/

theorem decimal_ne_nil (n : Nat) : decimal n ≠ [] := by
  simp [decimal, Nat.toDigits_ne_nil]

theorem toNat_toUInt8_of_isDigit {c : Char} (hc : c.isDigit) :
    c.toUInt8.toNat = c.toNat ∧ 48 ≤ c.toNat ∧ c.toNat ≤ 57 := by
  have hrange : 48 ≤ c.toNat ∧ c.toNat ≤ 57 := by
    simp only [Char.isDigit, Bool.and_eq_true, decide_eq_true_eq, UInt32.le_iff_toNat_le] at hc
    exact hc
  refine ⟨?_, hrange⟩
  show c.toNat % 256 = c.toNat
  omega

theorem isDigit_of_mem_decimal {n : Nat} {b : UInt8} (hb : b ∈ decimal n) : isDigit b = true := by
  obtain ⟨c, hc, rfl⟩ := List.mem_map.mp hb
  obtain ⟨heq, hlo, hhi⟩ := toNat_toUInt8_of_isDigit
    (Nat.isDigit_of_mem_toDigits (by omega) (by omega) hc)
  simp only [isDigit, Bool.and_eq_true, decide_eq_true_eq, UInt8.le_iff_toNat_le]
  exact ⟨by rw [heq]; exact hlo, by rw [heq]; exact hhi⟩

theorem decimal_length_le {n k : Nat} (hk : 0 < k) (h : n < 10 ^ k) : (decimal n).length ≤ k := by
  rw [decimal, List.length_map]
  exact (Nat.length_toDigits_le_iff (by omega) hk).mpr h

theorem decimal_length_pos (n : Nat) : 0 < (decimal n).length :=
  List.length_pos_iff.mpr (decimal_ne_nil n)

theorem zero_notMem_decimal (n : Nat) : 0 ∉ decimal n := fun h =>
  absurd (isDigit_of_mem_decimal h) (by decide)

theorem decimalInt_length_pos (i : Int) : 0 < (decimalInt i).length := by
  unfold decimalInt
  split
  · exact Nat.zero_lt_succ _
  · exact decimal_length_pos _

theorem decimalInt_length_le {i : Int} {k : Nat} (hk : 0 < k) (h : i.natAbs < 10 ^ k) :
    (decimalInt i).length ≤ k + 1 := by
  unfold decimalInt
  split
  · exact Nat.succ_le_succ (decimal_length_le hk h)
  · exact Nat.le_succ_of_le (decimal_length_le hk h)

theorem zero_notMem_decimalInt (i : Int) : 0 ∉ decimalInt i := by
  unfold decimalInt
  split
  · rw [List.mem_cons, not_or]
    exact ⟨by decide, zero_notMem_decimal _⟩
  · exact zero_notMem_decimal _

/-! ## The value of digits -/

theorem decimalValue_append (bs es : Bytes) : decimalValue (bs ++ es) =
    es.foldl (fun acc b => 10 * acc + (b.toNat - 48)) (decimalValue bs) := by
  simp [decimalValue]

/-- More digits do not make a number smaller. -/
theorem decimalValue_le_append (bs es : Bytes) : decimalValue bs ≤ decimalValue (bs ++ es) := by
  rw [decimalValue_append]
  generalize decimalValue bs = n
  induction es generalizing n with
  | nil => exact Nat.le_refl n
  | cons e es ih =>
      have hnext := ih (10 * n + (e.toNat - 48))
      rw [List.foldl_cons]
      omega

/-- **Reading back what was printed.** -/
theorem decimalValue_decimal (n : Nat) : decimalValue (decimal n) = n := by
  have hfold : ∀ (cs : List Char) (acc : Nat), (∀ c ∈ cs, c.isDigit) →
      (cs.map Char.toUInt8).foldl (fun acc b => 10 * acc + (b.toNat - 48)) acc =
        Nat.ofDigitChars 10 cs acc := by
    intro cs
    induction cs with
    | nil => simp
    | cons c cs ih =>
        intro acc hdigits
        obtain ⟨hc, hcs⟩ := List.forall_mem_cons.mp hdigits
        rw [List.map_cons, List.foldl_cons, Nat.ofDigitChars_cons, ih _ hcs,
          (toNat_toUInt8_of_isDigit hc).1]
        rfl
  unfold decimalValue decimal
  rw [hfold _ _ fun c hc => Nat.isDigit_of_mem_toDigits (by omega) (by omega) hc]
  exact Nat.ofDigitChars_ten_toDigits

end KernelDev.Lib
