/-
# KernelDev.Lib.Emplace — a map that keeps the first value of a key

`tryEmplace` inserts a value under a key that has none and otherwise changes nothing. A map is kept
as the list of its entries, in the order they were inserted.
-/
import Mathlib.Data.List.Induction
import Mathlib.Data.List.Nodup

namespace KernelDev.Lib

variable {κ ν : Type*} [DecidableEq κ]

/-- The value of a key. -/
def valueAt (k : κ) (m : List (κ × ν)) : Option ν := (m.find? fun e => e.1 = k).map Prod.snd

def tryEmplace (k : κ) (v : ν) (m : List (κ × ν)) : List (κ × ν) :=
  if (valueAt k m).isSome then m else m ++ [(k, v)]

variable {m : List (κ × ν)} {k k' : κ} {v : ν}

@[simp] theorem valueAt_nil : valueAt k ([] : List (κ × ν)) = none := rfl

theorem valueAt_concat (k : κ) (m : List (κ × ν)) (e : κ × ν) :
    valueAt k (m ++ [e]) = (valueAt k m).or (if e.1 = k then some e.2 else none) := by
  unfold valueAt
  rw [List.find?_append, List.find?_singleton]
  cases m.find? fun e => e.1 = k with
  | some x => rfl
  | none =>
      by_cases he : e.1 = k
      · simp [he]
      · simp [he]

/-- **The first value of a key stays.** -/
theorem valueAt_tryEmplace (k : κ) (v : ν) (m : List (κ × ν)) (k' : κ) :
    valueAt k' (tryEmplace k v m) = (valueAt k' m).or (if k = k' then some v else none) := by
  unfold tryEmplace
  by_cases hk : (valueAt k m).isSome
  · rw [if_pos hk]
    by_cases hkk : k = k'
    · subst hkk
      obtain ⟨w, hw⟩ := Option.isSome_iff_exists.mp hk
      rw [hw]
      rfl
    · simp [hkk]
  · rw [if_neg hk, valueAt_concat]

/-- What is in the map was, or is the entry inserted. -/
theorem mem_tryEmplace {e : κ × ν} (h : e ∈ tryEmplace k v m) : e ∈ m ∨ e = (k, v) := by
  unfold tryEmplace at h
  split at h
  · exact .inl h
  · rw [List.mem_append, List.mem_singleton] at h
    exact h

/-! ## Many entries -/

/-- The entries inserted one after the other into an empty map. -/
def emplaceAll (l : List (κ × ν)) : List (κ × ν) :=
  l.foldl (fun m e => tryEmplace e.1 e.2 m) []

theorem emplaceAll_concat (l : List (κ × ν)) (e : κ × ν) :
    emplaceAll (l ++ [e]) = tryEmplace e.1 e.2 (emplaceAll l) :=
  List.foldl_concat ..

theorem valueAt_isSome_iff : (valueAt k m).isSome ↔ k ∈ m.map Prod.fst := by
  rw [valueAt, Option.isSome_map, List.find?_isSome, List.mem_map]
  simp only [decide_eq_true_eq]

theorem valueAt_of_mem (hnodup : (m.map Prod.fst).Nodup) {e : κ × ν} (he : e ∈ m) :
    valueAt e.1 m = some e.2 := by
  induction m with
  | nil => cases he
  | cons x m ih =>
      rw [List.map_cons, List.nodup_cons] at hnodup
      rw [valueAt, List.find?_cons]
      rcases List.mem_cons.mp he with rfl | he
      · rw [decide_eq_true rfl]
        rfl
      · have hne : x.1 ≠ e.1 := fun h => hnodup.1 (h ▸ List.mem_map_of_mem he)
        rw [decide_eq_false hne]
        exact ih hnodup.2 he

theorem mem_of_valueAt (h : valueAt k m = some v) : (k, v) ∈ m := by
  obtain ⟨⟨k', v'⟩, hfind, rfl⟩ := Option.map_eq_some_iff.mp h
  have hkey := List.find?_some hfind
  obtain rfl : k' = k := of_decide_eq_true hkey
  exact List.mem_of_find?_eq_some hfind

/-- A key that has a value is not inserted again. -/
theorem tryEmplace_nodup (h : (m.map Prod.fst).Nodup) (k : κ) (v : ν) :
    ((tryEmplace k v m).map Prod.fst).Nodup := by
  unfold tryEmplace
  split
  · exact h
  · next hnone =>
      rw [valueAt_isSome_iff] at hnone
      rw [List.map_append, List.map_singleton]
      exact h.append (List.nodup_singleton _) (List.disjoint_singleton.mpr hnone)

theorem emplaceAll_nodup (l : List (κ × ν)) : ((emplaceAll l).map Prod.fst).Nodup := by
  induction l using List.reverseRecOn with
  | nil => exact List.nodup_nil
  | append_singleton l e ih =>
      rw [emplaceAll_concat]
      exact tryEmplace_nodup ih e.1 e.2

/-- What is kept are entries as they came. -/
theorem emplaceAll_sublist (l : List (κ × ν)) : (emplaceAll l).Sublist l := by
  induction l using List.reverseRecOn with
  | nil => exact List.Sublist.refl _
  | append_singleton l e ih =>
      rw [emplaceAll_concat, tryEmplace]
      split
      · exact ih.trans (List.sublist_append_left l [e])
      · exact ih.append (List.Sublist.refl _)

/-- Entries with different keys are all kept. -/
theorem emplaceAll_eq_self {l : List (κ × ν)} (h : (l.map Prod.fst).Nodup) : emplaceAll l = l := by
  induction l using List.reverseRecOn with
  | nil => rfl
  | append_singleton l e ih =>
      rw [List.map_append, List.map_singleton, List.nodup_append] at h
      obtain ⟨hl, _, hdisjoint⟩ := h
      have hnew : ¬ (valueAt e.1 l).isSome := fun hsome =>
        hdisjoint _ (valueAt_isSome_iff.mp hsome) _ (List.mem_singleton_self _) rfl
      rw [emplaceAll_concat, ih hl, tryEmplace, if_neg hnew]

/-- **Nothing is lost exactly when the keys differ.** -/
theorem length_le_emplaceAll_iff {l : List (κ × ν)} :
    l.length ≤ (emplaceAll l).length ↔ (l.map Prod.fst).Nodup := by
  constructor
  · intro hlen
    have hnodup := emplaceAll_nodup l
    rwa [(emplaceAll_sublist l).eq_of_length_le hlen] at hnodup
  · intro hnodup
    exact Nat.le_of_eq (congrArg List.length (emplaceAll_eq_self hnodup)).symm

end KernelDev.Lib
