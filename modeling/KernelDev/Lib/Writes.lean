/-
# KernelDev.Lib.Writes — cells overwritten one after the other

A list of writes, each of a value to a place, is carried out in order. A place that none of them
names keeps its value, and one that some of them name has the value of the last: what is there then
does not depend on what was there before. A loop that writes one value to the places its counter
stands for is such a list.
-/
import Mathlib.Data.List.Range
import Mathlib.Logic.Function.Basic

namespace KernelDev.Lib

variable {κ ν : Type*} [DecidableEq κ]

/-- Carry out the writes in order. -/
def writeAll (ws : List (κ × ν)) (m : κ → ν) : κ → ν :=
  ws.foldl (fun m w => Function.update m w.1 w.2) m

variable {ws vs : List (κ × ν)} {m m' : κ → ν} {k : κ} {v : ν}

theorem writeAll_append (ws vs : List (κ × ν)) (m : κ → ν) :
    writeAll (ws ++ vs) m = writeAll vs (writeAll ws m) :=
  List.foldl_append

theorem writeAll_cons (w : κ × ν) (ws : List (κ × ν)) (m : κ → ν) :
    writeAll (w :: ws) m = writeAll ws (Function.update m w.1 w.2) := rfl

/-- **The frame.** A place that is not written keeps its value. -/
theorem writeAll_of_notMem (h : k ∉ ws.map Prod.fst) : writeAll ws m k = m k := by
  induction ws generalizing m with
  | nil => rfl
  | cons w ws ih =>
      rw [List.map_cons, List.mem_cons, not_or] at h
      rw [writeAll_cons, ih h.2, Function.update_of_ne h.1]

/-- A place that is written holds what the writes leave there, whatever was there before. -/
theorem writeAll_of_mem (h : k ∈ ws.map Prod.fst) (m m' : κ → ν) :
    writeAll ws m k = writeAll ws m' k := by
  induction ws generalizing m m' with
  | nil => cases h
  | cons w ws ih =>
      rw [writeAll_cons, writeAll_cons]
      by_cases hlater : k ∈ ws.map Prod.fst
      · exact ih hlater _ _
      · -- the first write is the last to this place
        have hk : k = w.1 := by
          rw [List.map_cons, List.mem_cons] at h
          exact h.resolve_right hlater
        rw [writeAll_of_notMem hlater, writeAll_of_notMem hlater, hk, Function.update_self,
          Function.update_self]

/-- **What is at a place after the writes depends on what was there before exactly when none of them
is to it.** -/
theorem writeAll_eq_iff [Nontrivial ν] :
    (∀ m m' : κ → ν, writeAll ws m k = writeAll ws m' k) ↔ k ∈ ws.map Prod.fst := by
  constructor
  · intro h
    by_contra hnot
    obtain ⟨x, y, hxy⟩ := exists_pair_ne ν
    have hconst := h (fun _ => x) (fun _ => y)
    rw [writeAll_of_notMem hnot, writeAll_of_notMem hnot] at hconst
    exact hxy hconst
  · intro h m m'
    exact writeAll_of_mem h m m'

/-- A place holds what it held or what some write puts there. -/
theorem writeAll_cases (ws : List (κ × ν)) (m : κ → ν) (k : κ) :
    writeAll ws m k = m k ∨ (k, writeAll ws m k) ∈ ws := by
  induction ws generalizing m with
  | nil => exact .inl rfl
  | cons w ws ih =>
      rw [writeAll_cons]
      rcases ih (Function.update m w.1 w.2) with hkept | hput
      · rw [hkept, Function.update_apply]
        split
        · next hk => exact .inr (List.mem_cons.mpr (.inl (by rw [hk])))
        · exact .inl rfl
      · exact .inr (List.mem_cons_of_mem w hput)

/-- Where all writes agree on a place, the order does not matter to it. -/
theorem writeAll_of_agree (h : (k, v) ∈ ws) (hagree : ∀ w ∈ ws, w.1 = k → w.2 = v) :
    writeAll ws m k = v := by
  induction ws generalizing m with
  | nil => cases h
  | cons w ws ih =>
      rw [writeAll_cons]
      by_cases hlater : k ∈ ws.map Prod.fst
      · obtain ⟨u, hu, hk⟩ := List.mem_map.mp hlater
        have hv : u.2 = v := hagree u (List.mem_cons_of_mem w hu) hk
        have hmem : (k, v) ∈ ws := by rwa [← hk, ← hv]
        exact ih hmem fun u hu => hagree u (List.mem_cons_of_mem w hu)
      · rw [writeAll_of_notMem hlater]
        have hw : (k, v) = w := by
          rcases List.mem_cons.mp h with hw | hmem
          · exact hw
          · exact absurd (List.mem_map_of_mem hmem) hlater
        rw [← hw, Function.update_self]

/-! ## Loops -/

/-- The values of `i` in `for (; i < bound; i += step)`. -/
def counted (bound step i : Nat) : List Nat :=
  if i < bound ∧ 0 < step then i :: counted bound step (i + step) else []
termination_by bound - i

/-- A loop counts to the bound in steps. -/
theorem mem_counted {bound step : Nat} (hstep : 0 < step) {i j : Nat} :
    j ∈ counted bound step i ↔ i ≤ j ∧ j < bound ∧ step ∣ j - i := by
  induction i using counted.induct bound step with
  | case1 i h ih =>
      rw [counted, if_pos h, List.mem_cons, ih]
      constructor
      · rintro (rfl | ⟨hle, hlt, c, hc⟩)
        · exact ⟨Nat.le_refl j, h.1, by rw [Nat.sub_self]; exact Nat.dvd_zero step⟩
        · exact ⟨by omega, hlt, c + 1, by rw [Nat.mul_succ]; omega⟩
      · rintro ⟨hle, hlt, c, hc⟩
        rcases Nat.eq_zero_or_pos c with rfl | hpos
        · exact .inl (Nat.le_antisymm (Nat.le_of_sub_eq_zero hc) hle)
        · obtain ⟨c, rfl⟩ := Nat.exists_eq_succ_of_ne_zero (Nat.ne_of_gt hpos)
          rw [Nat.mul_succ] at hc
          exact .inr ⟨by omega, hlt, c, by omega⟩
  | case2 i h =>
      rw [counted, if_neg h]
      refine iff_of_false List.not_mem_nil fun hj => h ⟨?_, hstep⟩
      exact Nat.lt_of_le_of_lt hj.1 hj.2.1

/-- A loop over whole steps counts their multiples. -/
theorem counted_mul {step : Nat} (hstep : 0 < step) (n k : Nat) :
    counted (step * (k + n)) step (step * k) = (List.range' k n).map (step * ·) := by
  induction n generalizing k with
  | zero => rw [counted, if_neg (by simp), List.range'_zero, List.map_nil]
  | succ n ih =>
      have hlt : step * k < step * (k + (n + 1)) := Nat.mul_lt_mul_of_pos_left (by omega) hstep
      rw [counted, if_pos ⟨hlt, hstep⟩, List.range'_succ, List.map_cons, ← ih (k + 1),
        ← Nat.mul_succ, Nat.succ_add_eq_add_succ]

/-- **A loop that writes one value.** -/
theorem writeAll_map_const {ι : Type*} (l : List ι) (f : ι → κ) (v : ν) (m : κ → ν) (k : κ) :
    writeAll (l.map fun i => (f i, v)) m k = if k ∈ l.map f then v else m k := by
  have hkeys : (l.map fun i => (f i, v)).map Prod.fst = l.map f := List.map_map
  by_cases h : k ∈ l.map f
  · rw [if_pos h]
    obtain ⟨i, hi, hk⟩ := List.mem_map.mp h
    apply writeAll_of_agree (List.mem_map.mpr ⟨i, hi, by rw [hk]⟩)
    intro w hw _
    obtain ⟨_, -, rfl⟩ := List.mem_map.mp hw
    rfl
  · rw [if_neg h]
    exact writeAll_of_notMem (hkeys ▸ h)

/-! ## Runs of bytes -/

/-- The writes that put a list of values at consecutive places from `a` on. -/
def placed (a : Nat) (bs : List ν) : List (Nat × ν) := (List.range' a bs.length).zip bs

variable {a i : Nat} {bs : List ν}

theorem placed_keys (a : Nat) (bs : List ν) :
    (placed a bs).map Prod.fst = List.range' a bs.length :=
  List.map_fst_zip (by simp)

theorem mem_placed_keys : i ∈ (placed a bs).map Prod.fst ↔ a ≤ i ∧ i < a + bs.length := by
  rw [placed_keys, List.mem_range'_1]

/-- Consecutive places are written once. -/
theorem writeAll_placed (m : Nat → ν) (h : bs[i]? = some v) :
    writeAll (placed a bs) m (a + i) = v := by
  obtain ⟨hi, rfl⟩ := List.getElem?_eq_some_iff.mp h
  have hmem : (a + i, bs[i]) ∈ placed a bs := by
    have hlen : i < (placed a bs).length := by simpa [placed] using hi
    have hith : (placed a bs)[i] = (a + i, bs[i]) := by simp [placed]
    exact hith ▸ List.getElem_mem hlen
  apply writeAll_of_agree hmem
  intro w hw hk
  obtain ⟨j, hj, rfl⟩ := List.mem_iff_getElem.mp hw
  have hj' : j < bs.length := by simpa [placed] using hj
  have hput : (placed a bs)[j] = (a + j, bs[j]) := by simp [placed]
  rw [hput] at hk ⊢
  obtain rfl : j = i := Nat.add_left_cancel hk
  rfl

end KernelDev.Lib
