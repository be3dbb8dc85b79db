/-
# KernelDev.Lib.Selection — selecting a least element by a strict-improvement scan

A scan walks a list once, carrying the best key so far and the element it came from; an eligible
element replaces the candidate only when its key is STRICTLY below the carried one. The starting
pair need not come from the list, so the scan computes a least eligible element only relative to the
starting bound: `scan_cases` is the exact statement, over any linear order of keys.
-/
import Mathlib.Data.List.Basic

namespace KernelDev.Lib

variable {ι κ : Type*} [LT κ] [DecidableLT κ]

/-- One step of the scan: take `x` when it is eligible and its key improves strictly. -/
def improve (eligible : ι → Bool) (key : ι → κ) (best : κ × Option ι) (x : ι) : κ × Option ι :=
  if eligible x ∧ key x < best.1 then (key x, some x) else best

/-- The scan of a list from a starting bound and candidate. -/
def scan (eligible : ι → Bool) (key : ι → κ) (best : κ × Option ι) (xs : List ι) : κ × Option ι :=
  xs.foldl (improve eligible key) best

variable {eligible : ι → Bool} {key : ι → κ} {best : κ × Option ι} {xs : List ι}

@[simp] theorem scan_nil : scan eligible key best [] = best := rfl

theorem scan_cons (x : ι) :
    scan eligible key best (x :: xs) = scan eligible key (improve eligible key best x) xs := rfl

variable [LE κ] [Std.IsLinearOrder κ] [Std.LawfulOrderLT κ]

/-- **What a scan computes.** Either no eligible element lies strictly below the bound and the
starting candidate stays, or the result is an eligible element below the bound whose key is least
among all eligible ones. -/
theorem scan_cases (eligible : ι → Bool) (key : ι → κ) (best : κ × Option ι) (xs : List ι) :
    (scan eligible key best xs = best ∧ ∀ y ∈ xs, eligible y → best.1 ≤ key y) ∨
    ∃ x ∈ xs, eligible x ∧ key x < best.1 ∧ scan eligible key best xs = (key x, some x) ∧
      ∀ y ∈ xs, eligible y → key x ≤ key y := by
  induction xs generalizing best with
  | nil => exact .inl ⟨rfl, by simp⟩
  | cons x xs ih =>
      rw [scan_cons]
      by_cases hx : eligible x ∧ key x < best.1
      · -- the rest of the list is scanned from the key of `x`
        rw [improve, if_pos hx]
        rcases ih (key x, some x) with ⟨hstay, hmin⟩ | ⟨z, hz, hez, hlt, hres, hmin⟩
        · refine .inr ⟨x, by simp, hx.1, hx.2, hstay, ?_⟩
          simp only [List.forall_mem_cons]
          exact ⟨fun _ => Std.le_refl _, hmin⟩
        · refine .inr ⟨z, by simp [hz], hez, Std.lt_trans hlt hx.2, hres, ?_⟩
          simp only [List.forall_mem_cons]
          exact ⟨fun _ => Std.le_of_lt hlt, hmin⟩
      · -- an eligible `x` is not below the bound, and so not below what is found below it
        rw [improve, if_neg hx]
        rcases ih best with ⟨hstay, hmin⟩ | ⟨z, hz, hez, hlt, hres, hmin⟩
        · refine .inl ⟨hstay, ?_⟩
          simp only [List.forall_mem_cons]
          exact ⟨fun he => Std.not_lt.mp fun hlt => hx ⟨he, hlt⟩, hmin⟩
        · refine .inr ⟨z, by simp [hz], hez, hlt, hres, ?_⟩
          simp only [List.forall_mem_cons]
          refine ⟨fun he => ?_, hmin⟩
          have hge : best.1 ≤ key x := Std.not_lt.mp fun hlt => hx ⟨he, hlt⟩
          exact Std.le_of_lt (Std.lt_of_lt_of_le hlt hge)

/-! ## The specification of a choice -/

omit [DecidableLT κ] [LT κ] [Std.IsLinearOrder κ] [Std.LawfulOrderLT κ] in
/-- `c` is a least element of `S` by `key`, and an incumbent that is itself least is kept. -/
structure LeastChoice (S : ι → Prop) (key : ι → κ) (incumbent : ι → Prop) (c : ι) : Prop where
  mem : S c
  least : ∀ i, S i → key c ≤ key i
  tie : ∀ i, incumbent i → S i → (∀ j, S j → key i ≤ key j) → c = i

end KernelDev.Lib
