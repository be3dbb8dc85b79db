/-
# KernelDev.Profiler.Mmap — the profiler buffer in the address space of a user program

`mmap_callback` walks over the pages of the mapping and gives each the frame of a buffer page. The
mapping may be longer than the buffer: `vmalloc_index` then starts at the first page again. A user
program so sees the buffer over and over, and no other memory of the kernel.
-/
import KernelDev.Lib.Paging
import KernelDev.Profiler.Buffer
import Mathlib.Data.List.Nodup
import Mathlib.Data.Set.Function

namespace KernelDev.Profiler

open KernelDev.Lib

variable {Frame : Type*} {pageSize : Nat}

/-! ## The two areas and the call -/

/-- `mem_buffer` in the kernel's address space: `vmalloc` starts it at a page, and its pages are in
different frames. -/
structure VmallocArea (pageSize : Nat) (Frame : Type*) where
  memBuffer : Nat
  frameOf : Nat → Frame
  aligned : pageSize ∣ memBuffer
  distinct : Set.InjOn frameOf
    {pg | memBuffer / pageSize ≤ pg ∧ pg < memBuffer / pageSize + pageCount}

/-- `struct vm_area_struct`: the kernel hands out whole pages. -/
structure VmAreaStruct (pageSize : Nat) where
  vmStart : Nat
  vmEnd : Nat
  startAligned : pageSize ∣ vmStart
  endAligned : pageSize ∣ vmEnd
  le : vmStart ≤ vmEnd

/-- `vma->vm_end - vma->vm_start`. -/
def VmAreaStruct.len (vma : VmAreaStruct pageSize) : Nat := vma.vmEnd - vma.vmStart

/-- The page table of the user program. -/
structure UserMap (Frame : Type*) where
  ptes : Nat → Option Frame
  /-- History: the pages entered by the call, with their frames. -/
  mapped : List (Nat × Frame)

/-- The place of byte `off` of the buffer. -/
def VmallocArea.place (buf : VmallocArea pageSize Frame) (off : Nat) : Option (Frame × Nat) :=
  translate pageSize (fun pg => some (buf.frameOf pg)) (buf.memBuffer + off)

def VmallocArea.vmallocToPfn (buf : VmallocArea pageSize Frame) (a : Nat) : Frame :=
  buf.frameOf (a / pageSize)

def vmallocIndex (pageSize vmStart i : Nat) : Nat := vmStart + i % memBufSize pageSize

/-- A `remap_pfn_range` of one page that succeeds. -/
def UserMap.remapPfnRange (pageSize addr : Nat) (pfn : Frame) (s : UserMap Frame) :
    UserMap Frame where
  ptes := Function.update s.ptes (addr / pageSize) (some pfn)
  mapped := s.mapped ++ [(addr / pageSize, pfn)]

section
variable (buf : VmallocArea pageSize Frame) (vma : VmAreaStruct pageSize) (fails : Nat → Bool)

/-- The loop of `mmap_callback` over the values of `i`; `fails` is for which addresses
`remap_pfn_range` is not 0. -/
def mmapLoop : List Nat → UserMap Frame → Int × UserMap Frame
  | [], s => (0, s)
  | i :: is, s =>
      let pfn := buf.vmallocToPfn (vmallocIndex pageSize buf.memBuffer i)
      if fails (vma.vmStart + i) then (-1, s)
      else mmapLoop is (s.remapPfnRange pageSize (vma.vmStart + i) pfn)

/-- `mmap_callback`. The length is whole pages, so `i` does not wrap around. -/
def mmapCallback (ptes : Nat → Option Frame) : Int × UserMap Frame :=
  mmapLoop buf vma fails (counted vma.len pageSize 0) ⟨ptes, []⟩

end

/-! ## The entries of the loop -/

variable {buf : VmallocArea pageSize Frame} {vma : VmAreaStruct pageSize} {fails : Nat → Bool}
  {is : List Nat} {s s' : UserMap Frame} {ret : Int} {x y pg k : Nat}

/-- What the loop enters for a value of `i`. -/
def mmapEntry (buf : VmallocArea pageSize Frame) (vma : VmAreaStruct pageSize) (i : Nat) :
    Nat × Frame :=
  ((vma.vmStart + i) / pageSize, buf.vmallocToPfn (vmallocIndex pageSize buf.memBuffer i))

/-- **The loop enters what it visits, in order.** It stops early with -1. -/
theorem mmapLoop_eq (h : mmapLoop buf vma fails is s = (ret, s')) :
    ∃ done, done <+: is ∧ (ret = 0 → done = is) ∧
      s'.mapped = s.mapped ++ done.map (mmapEntry buf vma) ∧
      s'.ptes = writeAll ((done.map (mmapEntry buf vma)).map fun e => (e.1, some e.2)) s.ptes := by
  induction is generalizing s with
  | nil =>
      cases h
      exact ⟨[], List.nil_prefix, fun _ => rfl, (List.append_nil _).symm, rfl⟩
  | cons i is ih =>
      rw [mmapLoop] at h
      split at h
      · cases h
        refine ⟨[], List.nil_prefix, fun hret => ?_, (List.append_nil _).symm, rfl⟩
        cases hret
      · obtain ⟨done, hpre, hall, hmapped, hptes⟩ := ih h
        refine ⟨i :: done, List.cons_prefix_cons.mpr ⟨rfl, hpre⟩, fun hret => by rw [hall hret],
          ?_, hptes⟩
        rw [hmapped]
        exact List.append_assoc _ _ _

/-- The loop comes to its end when `remap_pfn_range` does not fail. -/
theorem mmapLoop_fst : (mmapLoop buf vma fails is s).1 = 0 ↔
    ∀ i ∈ is, fails (vma.vmStart + i) = false := by
  induction is generalizing s with
  | nil => exact iff_of_true rfl fun i hi => absurd hi List.not_mem_nil
  | cons i is ih =>
      rw [mmapLoop, List.forall_mem_cons]
      split
      · next hfails =>
          refine iff_of_false (show ¬ (-1 : Int) = 0 by omega) fun hnot => ?_
          rw [hnot.1] at hfails
          cases hfails
      · next hok => rw [ih, and_iff_right (Bool.eq_false_iff.mpr hok)]

/-- The first page of the mapping and the first page of the buffer. -/
def VmAreaStruct.page (vma : VmAreaStruct pageSize) : Nat := vma.vmStart / pageSize

def VmallocArea.page (buf : VmallocArea pageSize Frame) : Nat := buf.memBuffer / pageSize

/-- The frame of page `k` of the mapping. -/
def VmallocArea.frameAt (buf : VmallocArea pageSize Frame) (k : Nat) : Frame :=
  buf.frameOf (buf.page + k % pageCount)

/-- **One step of the loop is page `k` of the mapping on page `k % 128` of the buffer.** -/
theorem mmapEntry_mul (hpos : 0 < pageSize) (k : Nat) :
    mmapEntry buf vma (pageSize * k) = (vma.page + k, buf.frameAt k) := by
  obtain ⟨a, ha⟩ := vma.startAligned
  obtain ⟨m, hm⟩ := buf.aligned
  have hpage : (vma.vmStart + pageSize * k) / pageSize = vma.page + k := by
    rw [VmAreaStruct.page, ha, ← Nat.mul_add, Nat.mul_div_cancel_left _ hpos,
      Nat.mul_div_cancel_left _ hpos]
  have hframe : vmallocIndex pageSize buf.memBuffer (pageSize * k) / pageSize =
      buf.page + k % pageCount := by
    rw [vmallocIndex, memBufSize, VmallocArea.page, Nat.mul_mod_mul_left, hm, ← Nat.mul_add,
      Nat.mul_div_cancel_left _ hpos, Nat.mul_div_cancel_left _ hpos]
  rw [mmapEntry, VmallocArea.vmallocToPfn, hpage, hframe, VmallocArea.frameAt]

/-- The pages of the mapping. -/
def VmAreaStruct.pages (vma : VmAreaStruct pageSize) : Nat := vma.len / pageSize

theorem VmAreaStruct.len_eq (vma : VmAreaStruct pageSize) : vma.len = pageSize * vma.pages :=
  (Nat.mul_div_cancel' (Nat.dvd_sub vma.endAligned vma.startAligned)).symm

/-- The entries of a call that visits all pages. -/
theorem mmapEntries_eq (hpos : 0 < pageSize) :
    (counted vma.len pageSize 0).map (mmapEntry buf vma) =
      (List.range vma.pages).map fun k => (vma.page + k, buf.frameAt k) := by
  have hcount := counted_mul hpos vma.pages 0
  rw [Nat.zero_add, Nat.mul_zero, ← vma.len_eq, ← List.range_eq_range'] at hcount
  rw [hcount, List.map_map]
  exact List.map_congr_left fun k _ => mmapEntry_mul hpos k

theorem VmallocArea.frameAt_inj (buf : VmallocArea pageSize Frame) {k l : Nat} :
    buf.frameAt k = buf.frameAt l ↔ k % pageCount = l % pageCount := by
  have hlt : ∀ j, buf.page + j % pageCount < buf.page + pageCount := fun j =>
    Nat.add_lt_add_left (Nat.mod_lt j (show 0 < pageCount by decide)) buf.page
  constructor
  · intro h
    have hpages := buf.distinct ⟨Nat.le_add_right _ _, hlt k⟩ ⟨Nat.le_add_right _ _, hlt l⟩ h
    exact Nat.add_left_cancel hpages
  · intro h
    rw [VmallocArea.frameAt, h, VmallocArea.frameAt]

/-- The bytes of the buffer, read off an offset into the mapping. -/
theorem VmallocArea.place_mod (hpos : 0 < pageSize) (buf : VmallocArea pageSize Frame) (x : Nat) :
    buf.place (x % memBufSize pageSize) = some (buf.frameAt (x / pageSize), x % pageSize) := by
  have hoff : x % memBufSize pageSize % pageSize = x % pageSize := Nat.mod_mul_right_mod x _ _
  have hpage : x % memBufSize pageSize / pageSize = x / pageSize % pageCount :=
    Nat.mod_mul_right_div_self x _ _
  rw [VmallocArea.place, translate_add hpos buf.aligned, hoff, hpage]
  rfl

/-! ## What the user program sees -/

/-- The frame is one of the 128 of the buffer. -/
def VmallocArea.Owns (buf : VmallocArea pageSize Frame) (f : Frame) : Prop :=
  ∃ n < pageCount, f = buf.frameOf (buf.memBuffer / pageSize + n)

theorem VmallocArea.owns_frameAt (buf : VmallocArea pageSize Frame) (k : Nat) :
    buf.Owns (buf.frameAt k) :=
  ⟨k % pageCount, Nat.mod_lt k (show 0 < pageCount by decide), rfl⟩

/-- A mapping that shows the buffer from its first byte on, as often as it fits. -/
structure ShowsBuffer (buf : VmallocArea pageSize Frame) (vma : VmAreaStruct pageSize)
    (s : UserMap Frame) : Prop where
  shows : ∀ x < vma.len,
    translate pageSize s.ptes (vma.vmStart + x) = buf.place (x % memBufSize pageSize)
  once : (s.mapped.map Prod.fst).Nodup
  every : ∀ pg, pg ∈ s.mapped.map Prod.fst ↔
    vma.vmStart ≤ pageSize * pg ∧ pageSize * pg < vma.vmEnd
  aliases : ∀ x < vma.len, ∀ y < vma.len,
    translate pageSize s.ptes (vma.vmStart + x) = translate pageSize s.ptes (vma.vmStart + y) ↔
      x % memBufSize pageSize = y % memBufSize pageSize

/-- The pages a full call enters are those of the mapping. -/
theorem mem_pages_iff (hpos : 0 < pageSize) :
    (∃ k < vma.pages, vma.page + k = pg) ↔
      vma.vmStart ≤ pageSize * pg ∧ pageSize * pg < vma.vmEnd := by
  obtain ⟨a, ha⟩ := vma.startAligned
  obtain ⟨b, hb⟩ := vma.endAligned
  have hpage : vma.page = a := by rw [VmAreaStruct.page, ha, Nat.mul_div_cancel_left _ hpos]
  have hpages : vma.pages = b - a := by
    rw [VmAreaStruct.pages, VmAreaStruct.len, ha, hb, ← Nat.mul_sub,
      Nat.mul_div_cancel_left _ hpos]
  rw [ha, hb, hpage, hpages, Nat.mul_le_mul_left_iff hpos, Nat.mul_lt_mul_left hpos]
  constructor
  · rintro ⟨k, hk, rfl⟩
    omega
  · rintro ⟨hle, hlt⟩
    exact ⟨pg - a, by omega, by omega⟩

/-- **A full call shows the buffer.** -/
theorem showsBuffer_of_full (hpos : 0 < pageSize) {ptes : Nat → Option Frame}
    (hmapped : s.mapped = (List.range vma.pages).map fun k => (vma.page + k, buf.frameAt k))
    (hptes : s.ptes = writeAll (s.mapped.map fun e => (e.1, some e.2)) ptes) :
    ShowsBuffer buf vma s := by
  have hpte : ∀ x < vma.len, s.ptes (vma.vmStart / pageSize + x / pageSize) =
      some (buf.frameAt (x / pageSize)) := by
    intro x hx
    have hk : x / pageSize < vma.pages := Nat.div_lt_of_lt_mul (vma.len_eq ▸ hx)
    rw [hptes, hmapped, List.map_map]
    apply writeAll_of_agree
    · exact List.mem_map.mpr ⟨x / pageSize, List.mem_range.mpr hk, rfl⟩
    · intro w hw hpage
      obtain ⟨k, -, rfl⟩ := List.mem_map.mp hw
      obtain rfl : k = x / pageSize := Nat.add_left_cancel hpage
      rfl
  have hkeys : s.mapped.map Prod.fst = (List.range vma.pages).map (vma.page + ·) := by
    rw [hmapped, List.map_map]
    rfl
  constructor
  · intro x hx
    rw [translate_eq_some hpos vma.startAligned (hpte x hx), buf.place_mod hpos]
  · rw [hkeys]
    exact List.Nodup.map (fun k l h => Nat.add_left_cancel h) List.nodup_range
  · intro pg
    rw [hkeys, List.mem_map, ← mem_pages_iff hpos]
    simp only [List.mem_range]
  · intro x hx y hy
    rw [translate_eq_iff hpos vma.startAligned (hpte x hx) (hpte y hy), buf.frameAt_inj,
      memBufSize, mod_window_eq_iff]

/-- **A user program that maps the profiler's device sees the buffer and no other page of the
kernel.** Whatever `mmap_callback` returns, the entries it changes are of the buffer's frames. When
it returns 0, the mapping shows the buffer. -/
theorem mmapCallback_showsBuffer (hpos : 0 < pageSize) {ptes : Nat → Option Frame}
    (h : mmapCallback buf vma fails ptes = (ret, s)) :
    (∀ pg, s.ptes pg = ptes pg ∨ ∃ f, s.ptes pg = some f ∧ buf.Owns f) ∧
      (∀ e ∈ s.mapped, buf.Owns e.2) ∧ (ret = 0 → ShowsBuffer buf vma s) := by
  obtain ⟨done, hpre, hall, hmapped, hptes⟩ := mmapLoop_eq h
  rw [List.nil_append] at hmapped
  rw [← hmapped] at hptes
  have howns : ∀ e ∈ s.mapped, buf.Owns e.2 := by
    intro e he
    have hfull : e ∈ (counted vma.len pageSize 0).map (mmapEntry buf vma) := by
      rw [hmapped] at he
      exact (hpre.map _).subset he
    rw [mmapEntries_eq hpos] at hfull
    obtain ⟨k, -, rfl⟩ := List.mem_map.mp hfull
    exact buf.owns_frameAt k
  refine ⟨fun pg => ?_, howns, fun hret => ?_⟩
  · rcases writeAll_cases (s.mapped.map fun e => (e.1, some e.2)) ptes pg with hkept | hput
    · exact .inl (hptes ▸ hkept)
    · rw [← hptes] at hput
      obtain ⟨e, he, heq⟩ := List.mem_map.mp hput
      obtain ⟨-, hpte⟩ := Prod.mk.inj heq
      exact .inr ⟨e.2, hpte.symm, howns e he⟩
  · rw [hall hret, mmapEntries_eq hpos] at hmapped
    exact showsBuffer_of_full hpos hmapped hptes

/-- The buffer at 8192, mapped from 4096 on: 129 pages, one more than it has. -/
theorem mmapCallback_showsBuffer_129 :
    let buf : VmallocArea 4096 Nat := ⟨8192, id, by decide, fun _ _ _ _ h => h⟩
    let vma : VmAreaStruct 4096 := ⟨4096, 532480, by decide, by decide, by decide⟩
    ShowsBuffer buf vma (mmapCallback buf vma (fun _ => false) fun _ => none).2 :=
  (mmapCallback_showsBuffer (by decide) rfl).2.2 (mmapLoop_fst.mpr fun _ _ => rfl)

end KernelDev.Profiler
