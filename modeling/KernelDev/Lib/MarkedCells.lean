/-
# KernelDev.Lib.MarkedCells — memory in which one value marks an empty cell

A producer and a consumer that share nothing but a buffer can agree on a value that is never data: a
cell holding it is empty. `liveCells` counts the others. A write changes the count by what it writes
and what it overwrites (`liveCells_update`), and a scan finds the first live cell (`firstLive`).
-/
import Mathlib.Algebra.BigOperators.Group.Finset.Piecewise
import Mathlib.Algebra.Order.BigOperators.Group.Finset

namespace KernelDev.Lib

variable {V : Type*} [DecidableEq V] (marker : V)

/-- One for a value that is not the marker. -/
def live (v : V) : Nat := if v = marker then 0 else 1

@[simp] theorem live_marker : live marker marker = 0 := if_pos rfl

theorem live_of_ne {marker v : V} (h : v ≠ marker) : live marker v = 1 := if_neg h

theorem live_le_one (v : V) : live marker v ≤ 1 := by
  unfold live
  split <;> omega

/-- The number of cells below `N` that are not empty. -/
def liveCells (N : Nat) (mem : Nat → V) : Nat :=
  ∑ i ∈ Finset.range N, live marker (mem i)

/-- A write to a cell below `N`: what was counted there before, against what is now. -/
theorem liveCells_update {N i : Nat} (hi : i < N) (mem : Nat → V) (v : V) :
    liveCells marker N (Function.update mem i v) + live marker (mem i) =
      liveCells marker N mem + live marker v := by
  have hmem : i ∈ Finset.range N := Finset.mem_range.mpr hi
  have hcells : ∀ j, live marker (Function.update mem i v j) =
      Function.update (fun j => live marker (mem j)) i (live marker v) j := by
    intro j
    by_cases hj : j = i
    · simp [hj]
    · simp [hj]
  -- the cells other than `i` count the same before and after
  have hrest := Finset.add_sum_erase (Finset.range N) (fun j => live marker (mem j)) hmem
  rw [Finset.erase_eq] at hrest
  unfold liveCells
  simp only [hcells]
  rw [Finset.sum_update_of_mem hmem, ← hrest]
  omega

/-- A write adds at most one live cell, wherever it goes. -/
theorem liveCells_update_le (N i : Nat) (mem : Nat → V) (v : V) :
    liveCells marker N (Function.update mem i v) ≤ liveCells marker N mem + 1 := by
  by_cases hi : i < N
  · have h := liveCells_update marker hi mem v
    have hv := live_le_one marker v
    omega
  · have hsame : liveCells marker N (Function.update mem i v) = liveCells marker N mem := by
      apply Finset.sum_congr rfl
      intro j hj
      have hji : j ≠ i := fun h => hi (h ▸ Finset.mem_range.mp hj)
      rw [Function.update_of_ne hji]
    omega

/-- Emptying a cell below `N` takes off what was there. -/
theorem liveCells_clear {N i : Nat} (hi : i < N) (mem : Nat → V) :
    liveCells marker N (Function.update mem i marker) + live marker (mem i) =
      liveCells marker N mem := by
  simpa using liveCells_update marker hi mem marker

theorem liveCells_pos {marker : V} {N i : Nat} (hi : i < N) {mem : Nat → V}
    (hlive : mem i ≠ marker) :
    0 < liveCells marker N mem := by
  have h := liveCells_clear marker hi mem
  rw [live_of_ne hlive] at h
  omega

theorem liveCells_le (N : Nat) (mem : Nat → V) : liveCells marker N mem ≤ N := by
  calc liveCells marker N mem ≤ ∑ _i ∈ Finset.range N, 1 :=
        Finset.sum_le_sum fun i _ => live_le_one marker (mem i)
    _ = N := by simp

theorem liveCells_eq_zero {marker : V} {N : Nat} {mem : Nat → V} (h : ∀ i < N, mem i = marker) :
    liveCells marker N mem = 0 :=
  Finset.sum_eq_zero fun i hi => if_pos (h i (Finset.mem_range.mp hi))

/-! ## Finding a live cell -/

/-- The first live cell among the `n` from `i` on, or the index after them. -/
def firstLive (mem : Nat → V) : Nat → Nat → Nat
  | 0, i => i
  | n + 1, i => if mem i ≠ marker then i else firstLive mem n (i + 1)

/-- What the scan finds: everything before it is empty, and it is live unless the scan ran out. -/
theorem firstLive_spec (mem : Nat → V) (n i : Nat) :
    i ≤ firstLive marker mem n i ∧ firstLive marker mem n i ≤ i + n ∧
      (∀ j, i ≤ j → j < firstLive marker mem n i → mem j = marker) ∧
      (firstLive marker mem n i < i + n → mem (firstLive marker mem n i) ≠ marker) := by
  induction n generalizing i with
  | zero => exact ⟨Nat.le_refl _, Nat.le_refl _, fun j h h' => absurd h' (Nat.not_lt.mpr h),
      fun h => absurd h (Nat.lt_irrefl _)⟩
  | succ n ih =>
      by_cases hi : mem i = marker
      · obtain ⟨hle, hub, hempty, hlive⟩ := ih (i + 1)
        have heq : firstLive marker mem (n + 1) i = firstLive marker mem n (i + 1) := by
          simp [firstLive, hi]
        rw [heq]
        refine ⟨by omega, by omega, fun j hij hj => ?_, fun hlt => hlive (by omega)⟩
        rcases Nat.eq_or_lt_of_le hij with rfl | hlt
        · exact hi
        · exact hempty j hlt hj
      · have heq : firstLive marker mem (n + 1) i = i := by simp [firstLive, hi]
        rw [heq]
        exact ⟨Nat.le_refl _, by omega, fun j hij hj => absurd hj (Nat.not_lt.mpr hij), fun _ => hi⟩

end KernelDev.Lib
