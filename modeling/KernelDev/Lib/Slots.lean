/-
# KernelDev.Lib.Slots — a table of slots handed out first fit

A table of fixed length holds a value in each slot that is in use. A holder gets the first slot that
is not, puts its value there and remembers the index; when it is done it clears the slot at that
index, and the slot is handed out again. `Holds` relates the table to the holders there are: their
indices differ, each finds its value where it put it, and nothing else is in the table.
-/
import Mathlib.Data.List.Nodup
import Mathlib.Data.List.Perm.Basic

namespace KernelDev.Lib

variable {α : Type*} {slots : List (Option α)} {held : List (Nat × α)} {i k : Nat} {a : α}

/-- The slot that is handed out next. -/
def firstFree (slots : List (Option α)) : Option Nat := slots.findIdx? Option.isNone

/-- The table holds the values of these holders, each at its own index, and no others. -/
structure Holds (slots : List (Option α)) (held : List (Nat × α)) : Prop where
  nodup : (held.map Prod.fst).Nodup
  found : ∀ h ∈ held, slots[h.1]? = some (some h.2)
  values : (slots.filterMap id).Perm (held.map Prod.snd)

theorem holds_empty (n : Nat) : Holds (List.replicate n (none : Option α)) [] where
  nodup := List.nodup_nil
  found := by simp
  values := by
    have hnone : (List.replicate n (none : Option α)).filterMap id = [] := by
      rw [List.filterMap_eq_nil_iff]
      exact fun x hx => List.eq_of_mem_replicate hx
    rw [hnone]
    exact .refl _

theorem firstFree_eq_some (h : firstFree slots = some i) : slots[i]? = some none := by
  obtain ⟨hi, hnone, _⟩ := List.findIdx?_eq_some_iff_getElem.mp h
  rw [List.getElem?_eq_getElem hi, Option.isNone_iff_eq_none.mp hnone]

/-- The values of a table are those of one slot and of the others. -/
theorem filterMap_getElem_perm (hi : i < slots.length) :
    (slots.filterMap id).Perm ((slots[i] :: slots.eraseIdx i).filterMap id) :=
  (List.getElem_cons_eraseIdx_perm hi).symm.filterMap id

/-- One slot changes, and the others keep their values. -/
theorem filterMap_set_perm (hi : i < slots.length) (x : Option α) :
    ((slots.set i x).filterMap id).Perm ((x :: slots.eraseIdx i).filterMap id) := by
  have hset : i < (slots.set i x).length := by rwa [List.length_set]
  have hperm := filterMap_getElem_perm hset
  rwa [List.getElem_set_self, List.eraseIdx_set_eq] at hperm

namespace Holds

/-- **A slot that is handed out was held by nobody.** -/
theorem acquire (h : Holds slots held) (hi : firstFree slots = some i) (a : α) :
    Holds (slots.set i (some a)) (held ++ [(i, a)]) := by
  obtain ⟨hlt, hfree⟩ := List.getElem?_eq_some_iff.mp (firstFree_eq_some hi)
  have hother : ∀ x ∈ held, x.1 ≠ i := by
    rintro x hx rfl
    have hfound := h.found x hx
    rw [firstFree_eq_some hi] at hfound
    cases hfound
  refine ⟨?_, ?_, ?_⟩
  · rw [List.map_append, List.map_singleton, List.nodup_append]
    refine ⟨h.nodup, List.nodup_singleton i, ?_⟩
    rintro j hj _ hi' rfl
    obtain ⟨x, hx, rfl⟩ := List.mem_map.mp hj
    exact hother x hx (List.mem_singleton.mp hi')
  · rw [List.forall_mem_append]
    refine ⟨fun x hx => ?_, ?_⟩
    · rw [List.getElem?_set_ne (hother x hx).symm]
      exact h.found x hx
    · rw [List.forall_mem_singleton, List.getElem?_set_self hlt]
  · have hold := filterMap_getElem_perm hlt
    rw [hfree] at hold
    have hvalues : ((slots.set i (some a)).filterMap id).Perm (a :: held.map Prod.snd) :=
      (filterMap_set_perm hlt (some a)).trans ((hold.symm.trans h.values).cons a)
    rw [List.map_append, List.map_singleton]
    exact hvalues.trans (List.perm_append_singleton _ _).symm

/-- **A slot that is given back was its holder's.** -/
theorem release (h : Holds slots held) (hk : k < held.length) :
    Holds (slots.set held[k].1 none) (held.eraseIdx k) := by
  obtain ⟨hlt, hslot⟩ := List.getElem?_eq_some_iff.mp (h.found held[k] (List.getElem_mem hk))
  have hheld := List.getElem_cons_eraseIdx_perm hk
  have hother : ∀ x ∈ held.eraseIdx k, held[k].1 ≠ x.1 := by
    have hnodup := (hheld.symm.map Prod.fst).nodup_iff.mp h.nodup
    rw [List.map_cons, List.nodup_cons] at hnodup
    intro x hx heq
    exact hnodup.1 (heq ▸ List.mem_map_of_mem hx)
  refine ⟨?_, fun x hx => ?_, ?_⟩
  · rw [← List.eraseIdx_map]
    exact h.nodup.eraseIdx k
  · rw [List.getElem?_set_ne (hother x hx)]
    exact h.found x (List.mem_of_mem_eraseIdx hx)
  · -- both sides lose the value of the slot
    have hold := filterMap_getElem_perm hlt
    rw [hslot] at hold
    have hcons : (held[k].2 :: (slots.eraseIdx held[k].1).filterMap id).Perm
        (held[k].2 :: (held.eraseIdx k).map Prod.snd) :=
      (hold.symm.trans h.values).trans (hheld.symm.map Prod.snd)
    exact (filterMap_set_perm hlt none).trans hcons.cons_inv

/-- **A slot can be handed out as long as not all of them are held.** -/
theorem firstFree_eq_none_iff (h : Holds slots held) :
    firstFree slots = none ↔ held.length = slots.length := by
  have hlength : held.length = slots.countP Option.isSome := by
    rw [← List.length_map (f := Prod.snd), ← h.values.length_eq, List.length_filterMap_eq_countP]
    rfl
  rw [hlength, List.countP_eq_length, firstFree, List.findIdx?_eq_none_iff]
  simp only [Option.isNone_eq_false_iff]

end Holds

end KernelDev.Lib
