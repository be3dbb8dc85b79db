/-
# KernelDev.Lib.OnesComplement — sums with an end-around carry

In one's-complement arithmetic the carry out of the highest digit is added at the lowest. A sum may
be taken without carries first, and its carries folded in afterwards, until none remains. What is
left has the residue of the sum to `b - 1`, where `b` is one more than the largest word.
-/
import Mathlib.Data.Nat.ModEq

namespace KernelDev.Lib

/-- Add what does not fit into a word to what does. -/
def foldCarry (b n : Nat) : Nat := n % b + n / b

theorem foldCarry_lt {b n : Nat} (hb : 2 ≤ b) (hn : b ≤ n) : foldCarry b n < n := by
  have hq : 0 < n / b := Nat.div_pos hn (Nat.lt_of_lt_of_le Nat.two_pos hb)
  have hmul : 2 * (n / b) ≤ b * (n / b) := Nat.mul_le_mul_right _ hb
  have hdiv : b * (n / b) + n % b = n := Nat.div_add_mod n b
  unfold foldCarry
  omega

/-- Fold until no carry remains. -/
def foldCarries (b n : Nat) : Nat :=
  if _h : 2 ≤ b ∧ b ≤ n then foldCarries b (foldCarry b n) else n
termination_by n
decreasing_by exact foldCarry_lt _h.1 _h.2

variable {b n m : Nat}

theorem foldCarries_of_lt (h : n < b) : foldCarries b n = n := by
  rw [foldCarries, dif_neg fun hle => Nat.not_le.mpr h hle.2]

theorem foldCarries_foldCarry (hb : 2 ≤ b) : foldCarries b (foldCarry b n) = foldCarries b n := by
  by_cases hn : b ≤ n
  · conv_rhs => rw [foldCarries, dif_pos ⟨hb, hn⟩]
  · have hlt : n < b := Nat.not_le.mp hn
    rw [foldCarry, Nat.mod_eq_of_lt hlt, Nat.div_eq_of_lt hlt, Nat.add_zero]

/-- A fold takes away multiples of `b - 1`. -/
theorem foldCarry_modEq (hb : 2 ≤ b) : foldCarry b n ≡ n [MOD b - 1] := by
  have hone : b ≡ 1 [MOD b - 1] := by
    have hself : b - 1 + 1 ≡ 0 + 1 [MOD b - 1] :=
      (Nat.modEq_zero_iff_dvd.mpr (Nat.dvd_refl _)).add_right 1
    rwa [Nat.sub_add_cancel (Nat.le_of_succ_le hb), Nat.zero_add] at hself
  calc foldCarry b n = n % b + 1 * (n / b) := by rw [foldCarry, Nat.one_mul]
    _ ≡ n % b + b * (n / b) [MOD b - 1] := (hone.symm.mul_right _).add_left _
    _ = n := Nat.mod_add_div n b

theorem foldCarry_pos (hb : 2 ≤ b) (h : 0 < n) : 0 < foldCarry b n := by
  by_cases hn : b ≤ n
  · exact Nat.lt_of_lt_of_le (Nat.div_pos hn (Nat.lt_of_lt_of_le Nat.two_pos hb))
      (Nat.le_add_left _ _)
  · rw [foldCarry, Nat.mod_eq_of_lt (Nat.not_le.mp hn)]
    exact Nat.lt_of_lt_of_le h (Nat.le_add_right _ _)

/-- **What is left is a word with the same residue, and zero only of zero.** -/
theorem foldCarries_spec (hb : 2 ≤ b) (n : Nat) :
    foldCarries b n < b ∧ foldCarries b n ≡ n [MOD b - 1] ∧ (0 < n → 0 < foldCarries b n) := by
  induction n using Nat.strong_induction_on with
  | _ n ih =>
      by_cases hn : b ≤ n
      · obtain ⟨hlt, hmod, hpos⟩ := ih _ (foldCarry_lt hb hn)
        rw [← foldCarries_foldCarry hb]
        exact ⟨hlt, hmod.trans (foldCarry_modEq hb), fun h => hpos (foldCarry_pos hb h)⟩
      · rw [foldCarries_of_lt (Nat.not_le.mp hn)]
        exact ⟨Nat.not_le.mp hn, rfl, id⟩

/-- **All ones are left exactly of the positive multiples of `b - 1`.** -/
theorem foldCarries_eq_ones_iff (hb : 2 ≤ b) :
    foldCarries b n = b - 1 ↔ 0 < n ∧ b - 1 ∣ n := by
  obtain ⟨hlt, hmod, hpos⟩ := foldCarries_spec hb n
  constructor
  · intro heq
    rw [heq] at hmod
    refine ⟨Nat.pos_of_ne_zero fun hzero => ?_, ?_⟩
    · rw [hzero, foldCarries_of_lt (Nat.lt_of_lt_of_le Nat.two_pos hb)] at heq
      omega
    · exact Nat.modEq_zero_iff_dvd.mp (hmod.symm.trans (Nat.modEq_zero_iff_dvd.mpr dvd_rfl))
  · rintro ⟨hn, hdvd⟩
    have hdvd' : b - 1 ∣ foldCarries b n :=
      Nat.modEq_zero_iff_dvd.mp (hmod.trans (Nat.modEq_zero_iff_dvd.mpr hdvd))
    have hle : b - 1 ≤ foldCarries b n := Nat.le_of_dvd (hpos hn) hdvd'
    omega

end KernelDev.Lib
