/-
# KernelDev.Lib.Sums — sums in machine words

A loop that adds up words of a fixed width adds up the numbers they stand for, as long as the sum
fits. It adds them up without a carry getting lost only then.
-/
import Mathlib.Algebra.Ring.Nat

namespace KernelDev.Lib

variable {α ι : Type*} [Add α] {size : Nat}

/-- **A sum that fits does not wrap.** `toNat` reads a word whose addition is exact below `size`. -/
theorem toNat_foldl_add (toNat : α → Nat)
    (hadd : ∀ {x y : α}, toNat x + toNat y < size → toNat (x + y) = toNat x + toNat y)
    (f : ι → α) (l : List ι) (x : α) (h : toNat x + (l.map fun i => toNat (f i)).sum < size) :
    toNat (l.foldl (fun acc i => acc + f i) x) = toNat x + (l.map fun i => toNat (f i)).sum := by
  induction l generalizing x with
  | nil => rfl
  | cons i l ih =>
      rw [List.map_cons, List.sum_cons, ← Nat.add_assoc] at h
      have hstep : toNat (x + f i) = toNat x + toNat (f i) :=
        hadd (Nat.lt_of_le_of_lt (Nat.le_add_right _ _) h)
      rw [List.foldl_cons, ih _ (hstep ▸ h), hstep, List.map_cons, List.sum_cons, Nat.add_assoc]

/-- None of the additions of the loop wraps. -/
def ExactSum (toNat : α → Nat) (f : ι → α) : α → List ι → Prop
  | _, [] => True
  | x, i :: l => toNat (x + f i) = toNat x + toNat (f i) ∧ ExactSum toNat f (x + f i) l

/-- **The additions are all exact exactly when the whole sum fits.** -/
theorem exactSum_iff (toNat : α → Nat)
    (hadd : ∀ {x y : α}, toNat x + toNat y < size → toNat (x + y) = toNat x + toNat y)
    (hlt : ∀ x, toNat x < size) {f : ι → α} {l : List ι} {x : α} :
    ExactSum toNat f x l ↔ toNat x + (l.map fun i => toNat (f i)).sum < size := by
  induction l generalizing x with
  | nil => exact iff_of_true trivial (hlt x)
  | cons i l ih =>
      rw [ExactSum, ih, List.map_cons, List.sum_cons, ← Nat.add_assoc]
      constructor
      · rintro ⟨hstep, hsum⟩
        rw [← hstep]
        exact hsum
      · intro hsum
        have hstep := hadd (Nat.lt_of_le_of_lt (Nat.le_add_right _ _) hsum)
        exact ⟨hstep, by rw [hstep]; exact hsum⟩

theorem uInt64_toNat_add {x y : UInt64} (h : x.toNat + y.toNat < UInt64.size) :
    (x + y).toNat = x.toNat + y.toNat := by
  rw [UInt64.toNat_add]
  exact Nat.mod_eq_of_lt h

theorem uInt32_toNat_add {x y : UInt32} (h : x.toNat + y.toNat < UInt32.size) :
    (x + y).toNat = x.toNat + y.toNat := by
  rw [UInt32.toNat_add]
  exact Nat.mod_eq_of_lt h

end KernelDev.Lib
