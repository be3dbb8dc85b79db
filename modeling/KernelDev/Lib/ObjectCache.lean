/-
# KernelDev.Lib.ObjectCache — a cache that hands freed objects out again

Objects are addresses. The cache hands out the head of its free list, if it has one, and otherwise
the first address it has never handed out. Which freed object is at the head is not said: any
address that is not allocated may come there (`recycle`), so all that is known of what is handed out
is that it is not allocated (`getD_notMem`).
-/
import Mathlib.Data.List.Basic

namespace KernelDev.Lib

/-- What is allocated has been handed out before `next`, and the head of the free list is not
allocated. -/
structure ObjectCache (live : List Nat) (next : Nat) (recycled : Option Nat) : Prop where
  liveLt : ∀ a ∈ live, a < next
  recycledFree : ∀ a, recycled = some a → a ∉ live

theorem objectCache_empty : ObjectCache [] 0 none where
  liveLt _ h := by cases h
  recycledFree _ h := by cases h

namespace ObjectCache

variable {live : List Nat} {next : Nat} {recycled : Option Nat}

/-- **What is handed out is not allocated.** -/
theorem getD_notMem (h : ObjectCache live next recycled) : recycled.getD next ∉ live := by
  cases recycled with
  | none => exact fun hmem => absurd (h.liveLt _ hmem) (Nat.lt_irrefl _)
  | some a => exact h.recycledFree a rfl

theorem alloc (h : ObjectCache live next recycled) :
    ObjectCache (recycled.getD next :: live) (max next (recycled.getD next + 1)) none where
  liveLt a ha := by
    rcases List.mem_cons.mp ha with rfl | ha
    · exact Nat.lt_of_lt_of_le (Nat.lt_succ_self _) (Nat.le_max_right ..)
    · exact Nat.lt_of_lt_of_le (h.liveLt a ha) (Nat.le_max_left ..)
  recycledFree a ha := by cases ha

theorem free (h : ObjectCache live next recycled) (a : Nat) :
    ObjectCache (live.erase a) next recycled where
  liveLt b hb := h.liveLt b (List.mem_of_mem_erase hb)
  recycledFree b hb hmem := h.recycledFree b hb (List.mem_of_mem_erase hmem)

theorem recycle (h : ObjectCache live next recycled) {a : Nat} (ha : a ∉ live) :
    ObjectCache live next (some a) where
  liveLt := h.liveLt
  recycledFree := by
    rintro b ⟨⟩
    exact ha

end ObjectCache

end KernelDev.Lib
