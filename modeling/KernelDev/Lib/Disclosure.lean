/-
# KernelDev.Lib.Disclosure — what a callback that prints a list copies besides

A read callback copies all of its buffer to the reader, and `kmalloc` delivers the buffer with
whatever was in it. What the reader gets is determined by the list alone exactly when every byte
copied has been printed. The printed bytes are without a gap up to the NUL of the second entry, and
there is a gap behind it.
-/
import KernelDev.Lib.Listing

namespace KernelDev.Lib.ReadFormat

variable {α : Type*} {R : ReadFormat α} {count accessible n i : Nat} {l : List α} {e f : α}
  {calls later : List SnprintfCall}

/-- A call has stored a byte at this place. -/
def Covered (calls : List SnprintfCall) (i : Nat) : Prop :=
  i ∈ (calls.flatMap SnprintfCall.stores).map Prod.fst

theorem covered_iff :
    Covered calls i ↔ ∃ c ∈ calls, c.offset ≤ i ∧ i < c.offset + c.stored.length := by
  unfold Covered
  simp only [List.map_flatMap, List.mem_flatMap, SnprintfCall.mem_stores_keys]

theorem covered_single {c : SnprintfCall} :
    Covered [c] i ↔ c.offset ≤ i ∧ i < c.offset + c.stored.length := by
  rw [covered_iff]
  simp

/-- **The reader gets the same from any memory exactly when every byte copied is covered.** -/
theorem user_determined_iff (R : ReadFormat α) (accessible count : Nat) (l : List α) :
    (∀ memory memory' : Nat → UInt8,
        (R.read memory accessible l count 0).user = (R.read memory' accessible l count 0).user) ↔
      ∀ i < count - copyToUser accessible count, Covered (R.loop count l 0 0).calls i := by
  have : Nontrivial UInt8 := ⟨0, 1, by decide⟩
  simp only [read_user, List.map_inj_left, List.mem_range]
  constructor
  · intro h i hi
    exact writeAll_eq_iff.mp fun m m' => h m m' i hi
  · intro h m m' i hi
    exact writeAll_of_mem (h i hi) m m'

/-- How far the printed bytes are without a gap. -/
def reach (R : ReadFormat α) (count : Nat) : List α → Nat
  | [] => 0
  | [e] => if R.full 0 count then 0 else (R.text e).length + 1
  | e :: f :: _ =>
      if R.full 0 count then 0
      else if R.overflows (R.text e).length count ∨ R.full (R.text e).length count then
        (R.text e).length + 1
      else (R.text e).length + (R.text f).length + 1

/-- The bytes of a buffer of `count` are covered up to `r`, and there is a gap at `r`. -/
structure CoveredUpTo (count : Nat) (calls : List SnprintfCall) (r : Nat) : Prop where
  below : ∀ i < count, i < r → Covered calls i
  gap : ¬ Covered calls r

theorem CoveredUpTo.forall_iff {r : Nat} (h : CoveredUpTo count calls r) (hn : n ≤ count) :
    (∀ i < n, Covered calls i) ↔ n ≤ r := by
  constructor
  · intro hall
    by_contra hlt
    exact h.gap (hall r (Nat.lt_of_not_le hlt))
  · intro hle i hi
    exact h.below i (Nat.lt_of_lt_of_le hi hn) (Nat.lt_of_lt_of_le hi hle)

theorem coveredUpTo_nil : CoveredUpTo count [] 0 :=
  ⟨fun _ _ h => absurd h (Nat.not_lt_zero _), fun h => by cases h⟩

/-- One entry at the front. -/
theorem coveredUpTo_single (hcount : count ≤ intMax) (hpos : 0 < count) (e : α) :
    CoveredUpTo count [⟨0, count, R.text e⟩] ((R.text e).length + 1) := by
  have hlen := SnprintfCall.stored_length (c := ⟨0, count, R.text e⟩) hpos hcount
  constructor
  · intro i hi hr
    rw [covered_single, hlen]
    exact ⟨Nat.zero_le i, by simp only; omega⟩
  · rw [covered_single, hlen]
    simp only
    omega

/-- Two entries behind each other, and what comes after the gap. -/
theorem StartsWith.coveredUpTo (h : StartsWith R count e f calls later) (hcount : count ≤ intMax)
    (hpos : 0 < count) :
    CoveredUpTo count calls ((R.text e).length + (R.text f).length + 1) := by
  have hlen := SnprintfCall.stored_length (c := ⟨0, count, R.text e⟩) hpos hcount
  have hlen' :=
    SnprintfCall.stored_length (c := ⟨(R.text e).length, count, R.text f⟩) hpos hcount
  rw [h.calls_eq]
  constructor
  · intro i hi hr
    rw [covered_iff]
    rcases Nat.lt_or_ge i (R.text e).length with hlt | hge
    · refine ⟨_, List.mem_cons_self, Nat.zero_le i, ?_⟩
      rw [hlen]
      simp only
      omega
    · refine ⟨_, List.mem_cons_of_mem _ List.mem_cons_self, hge, ?_⟩
      rw [hlen']
      simp only
      omega
  · rw [covered_iff]
    rintro ⟨c, hc, hlo, hhi⟩
    rcases List.mem_cons.mp hc with rfl | hc
    · rw [hlen] at hhi
      simp only at hhi
      omega
    · rcases List.mem_cons.mp hc with rfl | hc
      · rw [hlen'] at hhi
        simp only at hhi
        omega
      · have hoff := h.later_offset c hc
        omega

/-- A first entry that is not counted is all there is. -/
theorem coveredUpTo_of_overflows (hcount : count ≤ intMax) (hpos : 0 < count)
    (hfull : R.full 0 count = false) (hover : R.overflows (R.text e).length count = true)
    (es : List α) :
    CoveredUpTo count (R.loop count (e :: es) 0 0).calls ((R.text e).length + 1) := by
  rw [loop_of_first_overflows hcount hfull hover]
  exact coveredUpTo_single hcount hpos e

theorem reach_of_full (hfull : R.full 0 count = true) (es : List α) :
    R.reach count (e :: es) = 0 := by
  cases es with
  | nil => exact if_pos hfull
  | cons f es => exact if_pos hfull

theorem reach_of_overflows (hfull : R.full 0 count = false)
    (hover : R.overflows (R.text e).length count = true) (es : List α) :
    R.reach count (e :: es) = (R.text e).length + 1 := by
  cases es with
  | nil => rw [reach, hfull, if_neg Bool.false_ne_true]
  | cons f es => rw [reach, hfull, if_neg Bool.false_ne_true, if_pos (.inl hover)]

/-- **What is printed is covered up to `reach`.** -/
theorem coveredUpTo_reach (hcount : count ≤ intMax) (hpos : 0 < count) (l : List α) :
    CoveredUpTo count (R.loop count l 0 0).calls (R.reach count l) := by
  cases l with
  | nil => exact coveredUpTo_nil
  | cons e es =>
      by_cases hfull : R.full 0 count = true
      · rw [loop_of_full hfull, reach_of_full hfull]
        exact coveredUpTo_nil
      rw [Bool.not_eq_true] at hfull
      by_cases hover : R.overflows (R.text e).length count = true
      · rw [reach_of_overflows hfull hover]
        exact coveredUpTo_of_overflows hcount hpos hfull hover es
      rw [Bool.not_eq_true] at hover
      cases es with
      | nil =>
          rw [loop_of_first hcount hfull hover, reach, hfull, if_neg Bool.false_ne_true]
          exact coveredUpTo_single hcount hpos e
      | cons f es =>
          rw [reach, hfull, hover, if_neg Bool.false_ne_true]
          by_cases hfull' : R.full (R.text e).length count = true
          · rw [if_pos (.inr hfull'), loop_of_first hcount hfull hover, loop_of_full hfull']
            exact coveredUpTo_single hcount hpos e
          · rw [Bool.not_eq_true] at hfull'
            obtain ⟨later, hstarts⟩ :=
              loop_startsWith (e := e) (f := f) hcount hfull hover hfull' es
            rw [if_neg (by rw [hfull']; decide)]
            exact hstarts.coveredUpTo hcount hpos

/-- **A read discloses nothing exactly when it copies no more than has been printed without a
gap.** -/
theorem read_determined_iff (R : ReadFormat α) (accessible count : Nat) (l : List α) :
    (∀ memory memory' : Nat → UInt8,
        (R.read memory accessible l count 0).user = (R.read memory' accessible l count 0).user) ↔
      intMax < count ∨ min accessible count ≤ R.reach count l := by
  rw [user_determined_iff]
  unfold copyToUser
  by_cases hlarge : intMax < count
  · rw [if_pos hlarge, Nat.sub_self]
    exact iff_of_true (fun i hi => absurd hi (Nat.not_lt_zero i)) (.inl hlarge)
  · have hcopied : count - (count - accessible) = min accessible count := by omega
    rw [if_neg hlarge, hcopied, or_iff_right hlarge]
    rcases Nat.eq_zero_or_pos count with rfl | hpos
    · rw [Nat.min_zero]
      exact iff_of_true (fun i hi => absurd hi (Nat.not_lt_zero i)) (Nat.zero_le _)
    · exact (coveredUpTo_reach (Nat.le_of_not_lt hlarge) hpos l).forall_iff (Nat.min_le_right _ _)

end KernelDev.Lib.ReadFormat
