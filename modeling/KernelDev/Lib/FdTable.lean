/-
# KernelDev.Lib.FdTable — a descriptor table and those who hold its entries

A process has a table that says what each open number refers to. `openAll` enters what the kernel
has answered, where a negative answer is none, and `closeAll` removes numbers; closing one that is
not open does nothing.

Some kinds of entries have holders, and each holder closes its own. `HeldExactly` says that what is
open of these kinds is what the holders have, nobody holding what another one holds. There are two
rules: a change of entries of other kinds keeps it, and so does a holder that gets new descriptors
and closes the old ones.
-/
import KernelDev.Lib.Writes
import Mathlib.Data.List.Nodup

namespace KernelDev.Lib

variable {κ ι : Type*}

/-- What an open descriptor refers to. -/
abbrev FdTable (κ : Type*) := Int → Option κ

/-- Enter what the kernel has answered. -/
def openAll (l : List (Int × κ)) (t : FdTable κ) : FdTable κ :=
  writeAll ((l.filter fun e => 0 ≤ e.1).map fun e => (e.1, some e.2)) t

/-- Close each of these. -/
def closeAll (fds : List Int) (t : FdTable κ) : FdTable κ :=
  writeAll (fds.map fun fd => (fd, none)) t

/-- The kernel does not answer with a number that is in use. -/
structure Unused (l : List (Int × κ)) (t : FdTable κ) : Prop where
  once : ((l.filter fun e => 0 ≤ e.1).map Prod.fst).Nodup
  unused : ∀ e ∈ l, 0 ≤ e.1 → t e.1 = none

instance (l : List (Int × κ)) (t : FdTable κ) : Decidable (Unused l t) :=
  decidable_of_iff (((l.filter fun e => 0 ≤ e.1).map Prod.fst).Nodup ∧
      ∀ e ∈ l, 0 ≤ e.1 → (t e.1).isNone)
    ⟨fun h => ⟨h.1, fun e he hpos => Option.isNone_iff_eq_none.mp (h.2 e he hpos)⟩,
      fun h => ⟨h.once, fun e he hpos => Option.isNone_iff_eq_none.mpr (h.unused e he hpos)⟩⟩

variable {l l' : List (Int × κ)} {t t' : FdTable κ} {fd : Int} {k : κ} {fds : List Int}

/-! ## Opening and closing -/

theorem mem_opened_keys :
    fd ∈ ((l.filter fun e => 0 ≤ e.1).map fun e => (e.1, some e.2)).map Prod.fst ↔
      0 ≤ fd ∧ ∃ k, (fd, k) ∈ l := by
  simp only [List.map_map, List.mem_map, List.mem_filter, decide_eq_true_eq]
  constructor
  · rintro ⟨⟨n, k⟩, ⟨hmem, hpos⟩, rfl⟩
    exact ⟨hpos, k, hmem⟩
  · rintro ⟨hpos, k, hmem⟩
    exact ⟨(fd, k), ⟨hmem, hpos⟩, rfl⟩

/-- A number is answered once. -/
theorem Unused.eq_of_mem {k' : κ} (h : Unused l t) (hpos : 0 ≤ fd) (hk : (fd, k) ∈ l)
    (hk' : (fd, k') ∈ l) : k = k' := by
  have hmem : (fd, k) ∈ l.filter fun e => 0 ≤ e.1 :=
    List.mem_filter.mpr ⟨hk, decide_eq_true hpos⟩
  have hmem' : (fd, k') ∈ l.filter fun e => 0 ≤ e.1 :=
    List.mem_filter.mpr ⟨hk', decide_eq_true hpos⟩
  exact congrArg Prod.snd (List.inj_on_of_nodup_map h.once hmem hmem' rfl)

/-- **What is open after fresh answers was open before or is one of them.** -/
theorem openAll_eq_some_iff (h : Unused l t) :
    openAll l t fd = some k ↔ t fd = some k ∨ (0 ≤ fd ∧ (fd, k) ∈ l) := by
  by_cases hnew : 0 ≤ fd ∧ ∃ k, (fd, k) ∈ l
  · obtain ⟨hpos, k', hk'⟩ := hnew
    have hval : openAll l t fd = some k' := by
      have hmem : (fd, some k') ∈ (l.filter fun e => 0 ≤ e.1).map fun e => (e.1, some e.2) :=
        List.mem_map.mpr ⟨(fd, k'), List.mem_filter.mpr ⟨hk', decide_eq_true hpos⟩, rfl⟩
      apply writeAll_of_agree hmem
      rintro w hw rfl
      obtain ⟨⟨n, k''⟩, hk'', rfl⟩ := List.mem_map.mp hw
      exact congrArg some (h.eq_of_mem hpos (List.mem_filter.mp hk'').1 hk')
    have hnone : t fd = none := h.unused _ hk' hpos
    rw [hval, hnone]
    constructor
    · intro heq
      exact .inr ⟨hpos, Option.some.inj heq ▸ hk'⟩
    · rintro (hold | ⟨-, hk⟩)
      · cases hold
      · rw [h.eq_of_mem hpos hk' hk]
  · have hold : openAll l t fd = t fd := by
      apply writeAll_of_notMem
      rw [mem_opened_keys]
      exact hnew
    rw [hold, or_iff_left fun hk => hnew ⟨hk.1, k, hk.2⟩]

theorem closeAll_eq_some_iff : closeAll fds t fd = some k ↔ t fd = some k ∧ fd ∉ fds := by
  have hclosed : closeAll fds t fd = if fd ∈ fds.map id then none else t fd :=
    writeAll_map_const fds id none t fd
  rw [hclosed, List.map_id]
  split
  · next hmem => exact iff_of_false (fun h => nomatch h) fun h => h.2 hmem
  · next hmem => rw [and_iff_left hmem]

/-- Closing in two goes. -/
theorem closeAll_append (fds fds' : List Int) (t : FdTable κ) :
    closeAll (fds ++ fds') t = closeAll fds' (closeAll fds t) := by
  unfold closeAll
  rw [List.map_append, writeAll_append]

/-! ## Holders -/

/-- What is open of the kinds that are managed is what the holders have, and each has its own. -/
structure HeldExactly (managed : κ → Prop) (holds : ι → List (Int × κ)) (t : FdTable κ) :
    Prop where
  kinds : ∀ i, ∀ e ∈ holds i, managed e.2
  held : ∀ fd k, managed k → (t fd = some k ↔ ∃ i, (fd, k) ∈ holds i)
  once : ∀ i j fd k k', (fd, k) ∈ holds i → (fd, k') ∈ holds j → i = j

section
variable {managed : κ → Prop} {holds holds' : ι → List (Int × κ)}

/-- What is held is open. -/
theorem HeldExactly.isOpen (h : HeldExactly managed holds t) {i : ι} (hk : (fd, k) ∈ holds i) :
    t fd = some k :=
  (h.held fd k (h.kinds i _ hk)).mpr ⟨i, hk⟩

/-- **What happens to other kinds does not matter.** -/
theorem HeldExactly.frame (h : HeldExactly managed holds t)
    (hsame : ∀ fd k, managed k → (t' fd = some k ↔ t fd = some k)) :
    HeldExactly managed holds t' :=
  ⟨h.kinds, fun fd k hk => (hsame fd k hk).trans (h.held fd k hk), h.once⟩

/-- What a holder closes is of the kinds that are managed. -/
theorem HeldExactly.release_other (h : HeldExactly managed holds t)
    (hsub : ∀ fd k, t fd = some k → t' fd = some k) (i : ι) (hk : ¬ managed k) :
    closeAll ((holds i).map Prod.fst) t' fd = some k ↔ t' fd = some k := by
  rw [closeAll_eq_some_iff]
  refine and_iff_left_of_imp fun hfd hmem => ?_
  obtain ⟨⟨n, k'⟩, hk', rfl⟩ := List.mem_map.mp hmem
  have hopen := hsub _ _ (h.isOpen hk')
  rw [hfd] at hopen
  obtain rfl := Option.some.inj hopen
  exact hk (h.kinds i _ hk')

variable [DecidableEq ι]

/-- **A holder gets something new and closes what it had.** -/
theorem HeldExactly.replace (h : HeldExactly managed holds t) (i : ι) {new : List (Int × κ)}
    (hkinds : ∀ e ∈ new, managed e.2) (hfresh : ∀ e ∈ new, t e.1 = none)
    (hopen : ∀ fd k, managed k → (t' fd = some k ↔ t fd = some k ∨ (fd, k) ∈ new)) :
    HeldExactly managed (Function.update holds i new)
      (closeAll ((holds i).map Prod.fst) t') := by
  -- what is new has no holder yet
  have hnew : ∀ fd k k' j, (fd, k) ∈ new → (fd, k') ∉ holds j := by
    intro fd k k' j hk hk'
    have hnone := hfresh _ hk
    have hsome := h.isOpen hk'
    rw [hnone] at hsome
    cases hsome
  refine ⟨fun j e he => ?_, fun fd k hk => ?_, fun j j' fd k k' hj hj' => ?_⟩
  · rw [Function.update_apply] at he
    split at he
    · exact hkinds e he
    · exact h.kinds j e he
  · rw [closeAll_eq_some_iff, hopen fd k hk, h.held fd k hk]
    constructor
    · rintro ⟨⟨j, hj⟩ | hmem, hnot⟩
      · have hne : j ≠ i := by
          rintro rfl
          exact hnot (List.mem_map_of_mem hj)
        exact ⟨j, by rwa [Function.update_of_ne hne]⟩
      · exact ⟨i, by rwa [Function.update_self]⟩
    · rintro ⟨j, hj⟩
      rw [Function.update_apply] at hj
      split at hj
      · refine ⟨.inr hj, fun hold => ?_⟩
        obtain ⟨⟨n, k'⟩, hk', rfl⟩ := List.mem_map.mp hold
        exact hnew _ _ _ _ hj hk'
      · next hne =>
          refine ⟨.inl ⟨j, hj⟩, fun hold => ?_⟩
          obtain ⟨⟨n, k'⟩, hk', rfl⟩ := List.mem_map.mp hold
          exact hne (h.once _ _ _ _ _ hj hk')
  · rw [Function.update_apply] at hj hj'
    split at hj
    · next hji =>
        split at hj'
        · next hj'i => rw [hji, hj'i]
        · exact absurd hj' (hnew _ _ _ _ hj)
    · split at hj'
      · exact absurd hj (hnew _ _ _ _ hj')
      · exact h.once _ _ _ _ _ hj hj'

end

end KernelDev.Lib
