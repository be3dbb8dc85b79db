/-
# KernelDev.Lib.Join — putting the values of a map into an array

The values of a map belong to the records of an array with the same key, and a value is put into the
first record that has its key. Where the keys of the array differ, and those of the map, every
record gets the value of its key.
-/
import KernelDev.Lib.Emplace

namespace KernelDev.Lib

variable {α κ ν : Type*} [DecidableEq κ]

/-- Update the first record with this key. -/
def updateFirst (key : α → κ) (k : κ) (f : α → α) : List α → List α
  | [] => []
  | a :: l => if key a = k then f a :: l else a :: updateFirst key k f l

/-- Put the values in one after the other. -/
def joinFirst (key : α → κ) (put : ν → α → α) (m : List (κ × ν)) (l : List α) : List α :=
  m.foldl (fun l e => updateFirst key e.1 (put e.2) l) l

/-- What the record of a key becomes. -/
def putValue (key : α → κ) (put : ν → α → α) (m : List (κ × ν)) (a : α) : α :=
  (valueAt (key a) m).elim a (put · a)

variable {key : α → κ} {put : ν → α → α} {m : List (κ × ν)} {l : List α}

theorem updateFirst_of_notMem {k : κ} (f : α → α) (h : k ∉ l.map key) :
    updateFirst key k f l = l := by
  induction l with
  | nil => rfl
  | cons a l ih =>
      rw [List.map_cons, List.mem_cons, not_or] at h
      rw [updateFirst, if_neg (Ne.symm h.1), ih h.2]

/-- With different keys the first match is the only one. -/
theorem updateFirst_eq_map (hl : (l.map key).Nodup) (k : κ) (f : α → α) :
    updateFirst key k f l = l.map fun a => if key a = k then f a else a := by
  induction l with
  | nil => rfl
  | cons a l ih =>
      rw [List.map_cons, List.nodup_cons] at hl
      rw [updateFirst, List.map_cons]
      by_cases ha : key a = k
      · subst ha
        rw [if_pos rfl, if_pos rfl, ← ih hl.2, updateFirst_of_notMem f hl.1]
      · rw [if_neg ha, if_neg ha, ih hl.2]

theorem updateFirst_length (k : κ) (f : α → α) : (updateFirst key k f l).length = l.length := by
  induction l with
  | nil => rfl
  | cons a l ih =>
      rw [updateFirst]
      split
      · rfl
      · rw [List.length_cons, ih, List.length_cons]

theorem joinFirst_concat (m : List (κ × ν)) (e : κ × ν) (l : List α) :
    joinFirst key put (m ++ [e]) l = updateFirst key e.1 (put e.2) (joinFirst key put m l) :=
  List.foldl_concat ..

theorem joinFirst_length (m : List (κ × ν)) (l : List α) :
    (joinFirst key put m l).length = l.length := by
  induction m using List.reverseRecOn with
  | nil => rfl
  | append_singleton m e ih => rw [joinFirst_concat, updateFirst_length, ih]

/-- A value does not change the key. -/
theorem key_putValue (hput : ∀ v a, key (put v a) = key a) (a : α) :
    key (putValue key put m a) = key a := by
  unfold putValue
  cases valueAt (key a) m with
  | none => rfl
  | some v => exact hput v a

/-- **Every record gets the value of its key.** -/
theorem joinFirst_eq_map (hput : ∀ v a, key (put v a) = key a) (hl : (l.map key).Nodup)
    (hm : (m.map Prod.fst).Nodup) : joinFirst key put m l = l.map (putValue key put m) := by
  induction m using List.reverseRecOn with
  | nil =>
      show l = l.map id
      exact (List.map_id l).symm
  | append_singleton m e ih =>
      rw [List.map_append, List.map_singleton, List.nodup_append] at hm
      obtain ⟨hfst, _, hdisjoint⟩ := hm
      have hkeys : (l.map (putValue key put m)).map key = l.map key := by
        rw [List.map_map]
        exact List.map_congr_left fun a _ => key_putValue hput a
      rw [joinFirst_concat, ih hfst, updateFirst_eq_map (hkeys ▸ hl), List.map_map]
      apply List.map_congr_left
      intro a _
      show (if key (putValue key put m a) = e.1 then put e.2 (putValue key put m a)
        else putValue key put m a) = putValue key put (m ++ [e]) a
      rw [key_putValue hput]
      by_cases ha : key a = e.1
      · have hnone : valueAt (key a) m = none := by
          rw [← Option.not_isSome_iff_eq_none, valueAt_isSome_iff]
          exact fun hmem => hdisjoint _ hmem _ (List.mem_singleton_self _) ha
        rw [if_pos ha, putValue, putValue, valueAt_concat, hnone, if_pos ha.symm]
        rfl
      · rw [if_neg ha, putValue, putValue, valueAt_concat, if_neg (Ne.symm ha), Option.or_none]

end KernelDev.Lib
