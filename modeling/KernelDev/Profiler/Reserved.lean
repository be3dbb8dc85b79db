/-
# KernelDev.Profiler.Reserved — the pages of the profiler buffer that are marked reserved

`vmalloc_mem_buffer` marks every page of the buffer, `vfree_mem_buffer` is meant to take the marks
away before the pages are given back. The first counts bytes, a page at a time; the second counts
pages and uses the count as a number of bytes, so it looks at the first page over and over.
-/
import KernelDev.Lib.Writes
import KernelDev.Profiler.Buffer
import Mathlib.Data.Set.Function

namespace KernelDev.Profiler

open KernelDev.Lib

variable {Page : Type*} [DecidableEq Page]

/-! ## The two loops -/

section
variable (page : Nat → Page) (pageSize count : Nat)

/-- `vmalloc_to_page(mem_buffer + off)`, for a buffer of the pages `page 0`, `page 1` and so on. -/
def vmallocToPage (off : Nat) : Page := page (off / pageSize)

/-- The page flags after the loop of `vmalloc_mem_buffer`, for a buffer of `count` pages. -/
def setPagesReserved (flags : Page → Bool) : Page → Bool :=
  writeAll ((counted (pageSize * count) pageSize 0).map fun i =>
    (vmallocToPage page pageSize i, true)) flags

/-- The page flags after the loop of `vfree_mem_buffer`. -/
def clearPagesReserved (flags : Page → Bool) : Page → Bool :=
  writeAll ((counted count 1 0).map fun i => (vmallocToPage page pageSize i, false)) flags

end

/-! ## What they visit -/

variable {page : Nat → Page} {pageSize count : Nat} {flags : Page → Bool} {p : Page}

/-- The first loop visits every page of the buffer. -/
theorem setPagesReserved_eq_true (hpos : 0 < pageSize) :
    setPagesReserved page pageSize count flags p = true ↔
      (∃ n < count, p = page n) ∨ flags p = true := by
  have hvisits : p ∈ (counted (pageSize * count) pageSize 0).map (vmallocToPage page pageSize) ↔
      ∃ n < count, p = page n := by
    rw [List.mem_map]
    simp only [mem_counted hpos, Nat.sub_zero]
    constructor
    · rintro ⟨i, ⟨-, hi, -⟩, rfl⟩
      exact ⟨i / pageSize, Nat.div_lt_of_lt_mul hi, rfl⟩
    · rintro ⟨n, hn, rfl⟩
      have hlt : pageSize * n < pageSize * count := Nat.mul_lt_mul_of_pos_left hn hpos
      refine ⟨pageSize * n, ⟨Nat.zero_le _, hlt, Nat.dvd_mul_right _ _⟩, ?_⟩
      rw [vmallocToPage, Nat.mul_div_cancel_left n hpos]
  rw [setPagesReserved, writeAll_map_const, ← hvisits]
  split
  · next h => exact iff_of_true rfl (.inl h)
  · next h => rw [or_iff_right h]

/-- The second loop stays on the first page. -/
theorem clearPagesReserved_eq_true (hlt : count < pageSize) :
    clearPagesReserved page pageSize count flags p = true ↔
      ¬ (0 < count ∧ p = page 0) ∧ flags p = true := by
  have hvisits : p ∈ (counted count 1 0).map (vmallocToPage page pageSize) ↔
      0 < count ∧ p = page 0 := by
    rw [List.mem_map]
    simp only [mem_counted Nat.one_pos]
    constructor
    · rintro ⟨i, ⟨-, hi, -⟩, rfl⟩
      rw [vmallocToPage, Nat.div_eq_of_lt (Nat.lt_trans hi hlt)]
      exact ⟨Nat.zero_lt_of_lt hi, rfl⟩
    · rintro ⟨hcount, rfl⟩
      exact ⟨0, ⟨Nat.le_refl 0, hcount, Nat.one_dvd _⟩, congrArg page (Nat.zero_div pageSize)⟩
  rw [clearPagesReserved, writeAll_map_const, ← hvisits]
  split
  · next h => exact iff_of_false Bool.false_ne_true fun hnot => hnot.1 h
  · next h => rw [and_iff_right h]

/-! ## The marks at vfree -/

/-- **Reaching `vfree`, all pages of the buffer but the first are still marked.** -/
theorem reserved_at_vfree (hpage : Set.InjOn page {n | n < count}) (hlt : count < pageSize)
    (hflags : ∀ n < count, flags (page n) = false) :
    clearPagesReserved page pageSize count (setPagesReserved page pageSize count flags) p = true ↔
      (∃ n, 0 < n ∧ n < count ∧ p = page n) ∨ flags p = true := by
  rw [clearPagesReserved_eq_true hlt, setPagesReserved_eq_true (Nat.zero_lt_of_lt hlt)]
  constructor
  · rintro ⟨hfirst, ⟨n, hn, rfl⟩ | hp⟩
    · refine .inl ⟨n, Nat.pos_of_ne_zero ?_, hn, rfl⟩
      rintro rfl
      exact hfirst ⟨hn, rfl⟩
    · exact .inr hp
  · rintro (⟨n, hpos, hn, rfl⟩ | hp)
    · refine ⟨fun hfirst => ?_, .inl ⟨n, hn, rfl⟩⟩
      have hzero : n = 0 := hpage hn hfirst.1 hfirst.2
      exact hpos.ne' hzero
    · refine ⟨?_, .inr hp⟩
      rintro ⟨hcount, rfl⟩
      rw [hflags 0 hcount] at hp
      cases hp

/-- **The marks are taken away again exactly when the buffer has no second page.** -/
theorem reserved_restored_iff (hpage : Set.InjOn page {n | n < count}) (hlt : count < pageSize)
    (hflags : ∀ n < count, flags (page n) = false) :
    ((∀ p, setPagesReserved page pageSize count flags p = true ↔
          (∃ n < count, p = page n) ∨ flags p = true) ∧
        clearPagesReserved page pageSize count (setPagesReserved page pageSize count flags) =
          flags) ↔
      count ≤ 1 := by
  rw [and_iff_right fun p => setPagesReserved_eq_true (Nat.zero_lt_of_lt hlt)]
  constructor
  · intro hrestored
    by_contra hmany
    have hsecond := (reserved_at_vfree (p := page 1) hpage hlt hflags).mpr
      (.inl ⟨1, Nat.one_pos, Nat.not_le.mp hmany, rfl⟩)
    rw [hrestored, hflags 1 (Nat.not_le.mp hmany)] at hsecond
    cases hsecond
  · intro hone
    funext p
    rw [Bool.eq_iff_iff, reserved_at_vfree hpage hlt hflags]
    refine or_iff_right ?_
    rintro ⟨n, hpos, hn, -⟩
    omega

/-- A buffer of one page of 4096 bytes. -/
theorem reserved_restored_one :
    clearPagesReserved id 4096 1 (setPagesReserved id 4096 1 fun _ => false) = fun _ => false :=
  ((reserved_restored_iff (fun _ _ _ _ h => h) (by decide) fun _ _ => rfl).mpr (Nat.le_refl 1)).2

/-- The buffer of the module. -/
theorem reserved_restored_fails :
    ¬ ∀ flags : Nat → Bool, (∀ n < pageCount, flags n = false) →
      clearPagesReserved id 4096 pageCount (setPagesReserved id 4096 pageCount flags) = flags := by
  intro hall
  have hrestored := hall (fun _ => false) fun _ _ => rfl
  have hsecond : clearPagesReserved id 4096 pageCount
      (setPagesReserved id 4096 pageCount fun _ => false) 1 = true :=
    (reserved_at_vfree (fun _ _ _ _ h => h) (by decide) fun _ _ => rfl).mpr
      (.inl ⟨1, by decide, by decide, rfl⟩)
  rw [hrestored] at hsecond
  cases hsecond

end KernelDev.Profiler
