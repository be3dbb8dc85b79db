/-
# KernelDev.Lib.Ring — a ring that keeps the last values stored

Value number `m` goes to slot `m` modulo the number of slots, so a slot holds the latest of the
values that went there. The cursor may wrap around only when it is used: at the end of the ring it
stands behind the last slot.
-/
import Mathlib.Data.List.Induction
import Mathlib.Logic.Function.Basic
import Mathlib.Order.Bounds.Basic

namespace KernelDev.Lib

variable {β : Type*} {slots : Nat} {empty : β}

/-- The slots of a ring that was empty when the values `l` were stored in it. -/
def ring (slots : Nat) (empty : β) (l : List β) : Nat → β :=
  l.zipIdx.foldl (fun ring x => Function.update ring (x.2 % slots) x.1) fun _ => empty

theorem ring_concat (l : List β) (w : β) : ring slots empty (l ++ [w]) =
    Function.update (ring slots empty l) (l.length % slots) w := by
  simp only [ring, List.zipIdx_append, List.foldl_append, List.zipIdx_singleton, List.foldl_cons,
    List.foldl_nil, Nat.zero_add]

/-- **A slot holds the latest of its values.** -/
theorem getElem?_of_isGreatest {l : List β} {j m : Nat}
    (h : IsGreatest {m | m < l.length ∧ m % slots = j} m) :
    l[m]? = some (ring slots empty l j) := by
  induction l using List.reverseRecOn generalizing m with
  | nil => exact absurd h.1.1 (Nat.not_lt_zero m)
  | append_singleton l w ih =>
      obtain ⟨⟨hlt, hmod⟩, hmax⟩ := h
      rw [List.length_append, List.length_singleton] at hlt
      rw [ring_concat]
      rcases Nat.lt_or_eq_of_le (Nat.le_of_lt_succ hlt) with hold | rfl
      · -- the last value went to another slot, or it would be later
        have hother : j ≠ l.length % slots := by
          intro hj
          have hle : l.length ≤ m := hmax ⟨by simp, hj.symm⟩
          exact absurd hold (Nat.not_lt.mpr hle)
        rw [Function.update_of_ne hother, List.getElem?_append_left hold]
        refine ih ⟨⟨hold, hmod⟩, fun k hk => hmax ⟨?_, hk.2⟩⟩
        rw [List.length_append]
        exact Nat.lt_add_right _ hk.1
      · rw [← hmod, Function.update_self, List.getElem?_concat_length]

/-- A slot that no value went to is empty. -/
theorem ring_of_forall_ne {l : List β} {j : Nat} (h : ∀ m < l.length, m % slots ≠ j) :
    ring slots empty l j = empty := by
  induction l using List.reverseRecOn with
  | nil => rfl
  | append_singleton l w ih =>
      rw [List.length_append, List.length_singleton] at h
      have hother : j ≠ l.length % slots := (h l.length (Nat.lt_succ_self _)).symm
      rw [ring_concat, Function.update_of_ne hother]
      exact ih fun m hm => h m (Nat.lt_succ_of_lt hm)

/-! ## The cursor -/

/-- The slot a cursor is used at. -/
def wrapped (slots i : Nat) : Nat := if i + 1 > slots then 0 else i

/-- The cursor after `n` values. -/
structure CursorAt (slots n i : Nat) : Prop where
  le : i ≤ slots
  mod : i % slots = n % slots

/-- **A cursor that wraps when it is used is used at the number of the value, modulo the slots.** -/
theorem CursorAt.wrapped_eq {n i : Nat} (h : CursorAt slots n i) : wrapped slots i = n % slots := by
  unfold wrapped
  split
  · next hend =>
      obtain rfl : i = slots := Nat.le_antisymm h.le (Nat.le_of_lt_succ hend)
      rw [← h.mod, Nat.mod_self]
  · next hin => rw [← h.mod, Nat.mod_eq_of_lt (Nat.lt_of_succ_le (Nat.not_lt.mp hin))]

theorem CursorAt.succ {n i : Nat} (h : CursorAt slots n i) (hslots : 0 < slots) :
    CursorAt slots (n + 1) (wrapped slots i + 1) where
  le := by
    rw [h.wrapped_eq]
    exact Nat.mod_lt _ hslots
  mod := by rw [h.wrapped_eq, Nat.mod_add_mod]

end KernelDev.Lib
