/-
# KernelDev.Lib.Paging — addresses behind a page table

A page table gives some of the pages a frame. The byte at an address is the byte at the same offset
in the frame of its page, and two addresses show the same byte when they have the frame and the
offset in common.
-/
import KernelDev.Lib.Writes

namespace KernelDev.Lib

variable {Frame : Type*} {pageSize base x y n : Nat} {ptes : Nat → Option Frame} {f g : Frame}

/-- The frame and the offset behind an address. -/
def translate (pageSize : Nat) (ptes : Nat → Option Frame) (a : Nat) : Option (Frame × Nat) :=
  (ptes (a / pageSize)).map fun f => (f, a % pageSize)

/-- Offsets into an area that starts at a page. -/
theorem translate_add (hpos : 0 < pageSize) (hbase : pageSize ∣ base) :
    translate pageSize ptes (base + x) =
      (ptes (base / pageSize + x / pageSize)).map fun f => (f, x % pageSize) := by
  obtain ⟨b, rfl⟩ := hbase
  rw [translate, Nat.mul_add_div hpos, Nat.mul_add_mod, Nat.mul_div_cancel_left b hpos]

theorem translate_eq_some (hpos : 0 < pageSize) (hbase : pageSize ∣ base)
    (hf : ptes (base / pageSize + x / pageSize) = some f) :
    translate pageSize ptes (base + x) = some (f, x % pageSize) := by
  rw [translate_add hpos hbase, hf, Option.map_some]

/-- **Two offsets show the same byte** when their pages have one frame and they are as far into
it. -/
theorem translate_eq_iff (hpos : 0 < pageSize) (hbase : pageSize ∣ base)
    (hf : ptes (base / pageSize + x / pageSize) = some f)
    (hg : ptes (base / pageSize + y / pageSize) = some g) :
    translate pageSize ptes (base + x) = translate pageSize ptes (base + y) ↔
      f = g ∧ x % pageSize = y % pageSize := by
  rw [translate_eq_some hpos hbase hf, translate_eq_some hpos hbase hg, Option.some_inj,
    Prod.mk.injEq]

/-- The offset in a window of `n` pages says which of them it is in and how far into it. -/
theorem mod_window_eq_iff :
    x % (pageSize * n) = y % (pageSize * n) ↔
      x / pageSize % n = y / pageSize % n ∧ x % pageSize = y % pageSize := by
  constructor
  · intro h
    refine ⟨?_, ?_⟩
    · rw [← Nat.mod_mul_right_div_self, h, Nat.mod_mul_right_div_self]
    · rw [← Nat.mod_mul_right_mod x pageSize n, h, Nat.mod_mul_right_mod]
  · rintro ⟨hpage, hoff⟩
    rw [Nat.mod_mul, Nat.mod_mul, hpage, hoff]

end KernelDev.Lib
