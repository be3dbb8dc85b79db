/-
# KernelDev.Lib.Comparison — comparisons that tell less, equal and greater apart

A function that compares two values returns a negative number, 0 or a positive one. Lists are
compared at the first place where they differ, and a list that ends there is the lesser.
-/
import Mathlib.Data.List.Lex
import Mathlib.Order.Lattice

namespace KernelDev.Lib

/-! ## Three outcomes -/

section
variable {α : Type*} [LT α] [DecidableLT α] [DecidableEq α]

/-- -1, 0 or 1. -/
def threeWay (a b : α) : Int := if a < b then -1 else if a = b then 0 else 1

theorem threeWay_of_lt {a b : α} (h : a < b) : threeWay a b = -1 := if_pos h

theorem threeWay_of_not_lt {a b : α} (h : ¬ a < b) (hne : a ≠ b) : threeWay a b = 1 := by
  rw [threeWay, if_neg h, if_neg hne]

/-- Comparisons that agree on less and on equal agree. -/
theorem threeWay_congr {β : Type*} [LT β] [DecidableLT β] [DecidableEq β] {a b : α} {x y : β}
    (hlt : a < b ↔ x < y) (heq : a = b ↔ x = y) : threeWay a b = threeWay x y := by
  unfold threeWay
  simp only [hlt, heq]

end

/-- What a comparison is for. -/
structure IsComparison {α : Type*} (f : α → α → Int) : Prop where
  swap : ∀ a b, f b a = -f a b
  eq_zero : ∀ a b, f a b = 0 ↔ a = b
  trans : ∀ a b c, f a b ≤ 0 → f b c ≤ 0 → f a c ≤ 0
  trans_lt : ∀ a b c, f a b < 0 → f b c < 0 → f a c < 0

section
variable {α : Type*} [LinearOrder α] {a b : α}

@[simp] theorem threeWay_self (a : α) : threeWay a a = 0 := by
  rw [threeWay, if_neg (lt_irrefl a), if_pos rfl]

theorem threeWay_of_gt (h : b < a) : threeWay a b = 1 :=
  threeWay_of_not_lt (lt_asymm h) (ne_of_gt h)

theorem threeWay_neg_iff : threeWay a b < 0 ↔ a < b := by
  rcases lt_trichotomy a b with h | rfl | h
  · rw [threeWay_of_lt h]
    exact iff_of_true (by omega) h
  · rw [threeWay_self]
    exact iff_of_false (by omega) (lt_irrefl a)
  · rw [threeWay_of_gt h]
    exact iff_of_false (by omega) (lt_asymm h)

theorem threeWay_eq_zero_iff : threeWay a b = 0 ↔ a = b := by
  rcases lt_trichotomy a b with h | rfl | h
  · rw [threeWay_of_lt h]
    exact iff_of_false (by omega) (ne_of_lt h)
  · exact iff_of_true (threeWay_self a) rfl
  · rw [threeWay_of_gt h]
    exact iff_of_false (by omega) (ne_of_gt h)

theorem threeWay_swap (a b : α) : threeWay b a = -threeWay a b := by
  rcases lt_trichotomy a b with h | rfl | h
  · rw [threeWay_of_lt h, threeWay_of_gt h]
    rfl
  · rw [threeWay_self]
    rfl
  · rw [threeWay_of_lt h, threeWay_of_gt h]

theorem threeWay_nonpos_iff : threeWay a b ≤ 0 ↔ a ≤ b := by
  have hneg : -threeWay a b < 0 ↔ b < a := by
    rw [← threeWay_swap a b]
    exact threeWay_neg_iff
  rw [← not_lt (a := b) (b := a), ← hneg]
  omega

theorem isComparison_threeWay : IsComparison (threeWay (α := α)) where
  swap := threeWay_swap
  eq_zero _ _ := threeWay_eq_zero_iff
  trans _ _ _ hab hbc :=
    threeWay_nonpos_iff.mpr (le_trans (threeWay_nonpos_iff.mp hab) (threeWay_nonpos_iff.mp hbc))
  trans_lt _ _ _ hab hbc :=
    threeWay_neg_iff.mpr (lt_trans (threeWay_neg_iff.mp hab) (threeWay_neg_iff.mp hbc))

/-- **What agrees with the comparison in a linear order is one.** -/
theorem isComparison_of_eq {β : Type*} {f : β → β → Int} {g : β → α} (hg : Function.Injective g)
    (h : ∀ x y, f x y = threeWay (g x) (g y)) : IsComparison f where
  swap x y := by
    rw [h, h]
    exact isComparison_threeWay.swap _ _
  eq_zero x y := by
    rw [h, isComparison_threeWay.eq_zero]
    exact hg.eq_iff
  trans x y z := by
    rw [h, h, h]
    exact isComparison_threeWay.trans _ _ _
  trans_lt x y z := by
    rw [h, h, h]
    exact isComparison_threeWay.trans_lt _ _ _

/-! ## Lists -/

variable {l m : List α}

theorem threeWay_nil_cons (b : α) (m : List α) : threeWay [] (b :: m) = -1 :=
  threeWay_of_lt (List.nil_lt_cons b m)

theorem threeWay_cons_nil (a : α) (l : List α) : threeWay (a :: l) [] = 1 :=
  threeWay_of_gt (List.nil_lt_cons a l)

theorem threeWay_cons_self (a : α) (l m : List α) :
    threeWay (a :: l) (a :: m) = threeWay l m := by
  apply threeWay_congr
  · rw [List.cons_lt_cons_iff]
    exact ⟨fun h => (h.resolve_left (lt_irrefl a)).2, fun h => .inr ⟨rfl, h⟩⟩
  · exact List.cons_inj_right a

/-- Behind the first difference nothing matters. -/
theorem threeWay_cons_of_ne (h : a ≠ b) (l m : List α) :
    threeWay (a :: l) (b :: m) = if a < b then -1 else 1 := by
  split
  · next hlt =>
      have hcons : a :: l < b :: m := List.cons_lt_cons_iff.mpr (.inl hlt)
      exact threeWay_of_lt hcons
  · next hnot =>
      have hgt : b < a := lt_of_le_of_ne (not_lt.mp hnot) h.symm
      have hcons : b :: m < a :: l := List.cons_lt_cons_iff.mpr (.inl hgt)
      exact threeWay_of_not_lt (lt_asymm hcons) (ne_of_gt hcons)

end

end KernelDev.Lib
