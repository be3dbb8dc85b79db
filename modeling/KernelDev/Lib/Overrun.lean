/-
# KernelDev.Lib.Overrun — where a callback that prints a list stores

`snprintf` is told the size of the whole buffer wherever in it the entry is printed, so an entry
that is not the first stays inside only if it fits with its NUL. The places are known beforehand:
each entry is printed where the totals so far have moved `*offp`.
-/
import KernelDev.Lib.Listing

namespace KernelDev.Lib

namespace SnprintfCall

variable {count o : Nat} {t : Bytes}

/-- The first entry stays inside. -/
theorem inside_first (count : Nat) (t : Bytes) : Inside count ⟨0, count, t⟩ := by
  rw [inside_iff]
  right
  rw [Nat.zero_add]
  exact stored_length_le _

/-- **Behind the front an entry stays inside exactly when it fits.** -/
theorem inside_iff_fits (hcount : count ≤ intMax) (ho : 0 < o) :
    Inside count ⟨o, count, t⟩ ↔ count = 0 ∨ o + t.length < count := by
  rw [inside_iff]
  rcases Nat.eq_zero_or_pos count with rfl | hpos
  · exact iff_of_true (.inl (if_pos (.inl rfl))) (.inl rfl)
  · have hlen := stored_length (c := ⟨o, count, t⟩) hpos hcount
    rw [← List.length_eq_zero_iff, hlen]
    simp only
    omega

end SnprintfCall

/-- Every byte stored is one of the buffer, and no more is reported than the buffer holds. -/
structure ReadCall.Contained (c : ReadCall) (count : Nat) : Prop where
  stores : ∀ s ∈ c.calls, s.Inside count
  ret : c.ret ≤ count

/-- The same, of all the bytes that each `snprintf` is allowed to store. -/
structure ReadCall.Allotted (c : ReadCall) (count : Nat) : Prop where
  windows : ∀ s ∈ c.calls, s.offset + s.size ≤ count
  ret : c.ret ≤ count

namespace ReadFormat

variable {α : Type*} {R : ReadFormat α} {memory : Nat → UInt8} {accessible count : Nat}
  {l es : List α} {e : α} {b o : Nat} {x : Nat × α}

/-- Each entry with the place it is printed at when all before it have been counted. -/
def places (R : ReadFormat α) : Nat → Nat → List α → List (Nat × α)
  | _, _, [] => []
  | b, o, e :: es =>
      (o, e) :: places R (b + (R.text e).length) (o + (b + (R.text e).length)) es

theorem le_of_mem_places (h : x ∈ R.places b o l) : o ≤ x.1 := by
  induction l generalizing b o with
  | nil => cases h
  | cons e es ih =>
      rcases List.mem_cons.mp h with rfl | h
      · exact Nat.le_refl o
      · exact Nat.le_of_add_right_le (ih h)

/-- Every entry that is printed at its place fits there. -/
def FitsAt (R : ReadFormat α) (count b o : Nat) (l : List α) : Prop :=
  ∀ x ∈ R.places b o l, R.full x.1 count = false → x.1 + (R.text x.2).length < count

theorem fitsAt_of_full (h : R.full o count = true) : R.FitsAt count b o l := by
  intro x hx hfull
  rw [R.full_mono (le_of_mem_places hx) h] at hfull
  cases hfull

theorem fitsAt_cons (h : R.full o count = false) :
    R.FitsAt count b o (e :: es) ↔ o + (R.text e).length < count ∧
      R.FitsAt count (b + (R.text e).length) (o + (b + (R.text e).length)) es := by
  unfold FitsAt
  rw [places, List.forall_mem_cons]
  exact and_congr_left' ⟨fun hfits => hfits h, fun hfits _ => hfits⟩

/-- An entry that fits at its place is counted. -/
theorem loop_of_fits (hcount : count ≤ intMax) (hb : b ≤ o)
    (hfits : o + (R.text e).length < count) (es : List α) :
    R.loop count (e :: es) b o =
      let later := R.loop count es (b + (R.text e).length : Nat) (o + (b + (R.text e).length))
      { later with calls := ⟨o, count, R.text e⟩ :: later.calls } := by
  have hsum : b + (R.text e).length < count := Nat.lt_of_le_of_lt (Nat.add_le_add_right hb _) hfits
  exact loop_of_passes hcount (R.full_of_fits hfits) (Nat.le_trans (Nat.le_of_lt hsum) hcount)
    (R.overflows_of_fits hsum hcount) es

/-- What is printed is printed at `*offp` first. -/
theorem head_mem_loop (h : R.full o count = false) (es : List α) (b : Int) :
    (⟨o, count, R.text e⟩ : SnprintfCall) ∈ (R.loop count (e :: es) b o).calls := by
  cases R.turn count e es b o with
  | full hfull _ =>
      rw [h] at hfull
      cases hfull
  | overflows hloop | negative _ _ hloop =>
      rw [hloop]
      exact List.mem_singleton_self _
  | counted _ _ hloop =>
      rw [hloop]
      exact List.mem_cons_self

/-- **Behind the front all stores stay inside exactly when every entry fits at its place.** -/
theorem loop_inside_iff (hcount : count ≤ intMax) (hpos : 0 < count) (ho : 0 < o) (hb : b ≤ o)
    (l : List α) : (∀ c ∈ (R.loop count l b o).calls, c.Inside count) ↔ R.FitsAt count b o l := by
  induction l generalizing b o with
  | nil => exact iff_of_true (fun c hc => by cases hc) fun x hx => by cases hx
  | cons e es ih =>
      by_cases hfull : R.full o count = true
      · rw [loop_of_full hfull]
        exact iff_of_true (fun c hc => by cases hc) (fitsAt_of_full hfull)
      · rw [Bool.not_eq_true] at hfull
        rw [fitsAt_cons hfull]
        have hhead := SnprintfCall.inside_iff_fits (t := R.text e) hcount ho
        rw [or_iff_right (Nat.ne_of_gt hpos)] at hhead
        by_cases hfits : o + (R.text e).length < count
        · rw [loop_of_fits hcount hb hfits]
          simp only [List.forall_mem_cons]
          rw [hhead, ih (Nat.lt_of_lt_of_le ho (Nat.le_add_right _ _)) (Nat.le_add_left _ _)]
        · exact iff_of_false
            (fun hall => hfits (hhead.mp (hall _ (head_mem_loop hfull es b)))) fun h => hfits h.1

/-- While every entry fits the count does not exceed the size of the buffer. -/
theorem loop_bytesToWrite_le (hcount : count ≤ intMax) (hb : b ≤ o) (hle : b ≤ count)
    (h : R.FitsAt count b o l) :
    0 ≤ (R.loop count l b o).bytesToWrite ∧ (R.loop count l b o).bytesToWrite ≤ count := by
  induction l generalizing b o with
  | nil => exact ⟨Int.natCast_nonneg b, Int.ofNat_le.mpr hle⟩
  | cons e es ih =>
      by_cases hfull : R.full o count = true
      · rw [loop_of_full hfull]
        exact ⟨Int.natCast_nonneg b, Int.ofNat_le.mpr hle⟩
      · rw [Bool.not_eq_true] at hfull
        obtain ⟨hfits, hrest⟩ := (fitsAt_cons hfull).mp h
        rw [loop_of_fits hcount hb hfits]
        exact ih (Nat.le_add_left _ _)
          (Nat.le_of_lt (Nat.lt_of_le_of_lt (Nat.add_le_add_right hb _) hfits)) hrest

/-! ## The callback -/

/-- What the callback returns for a count that is not refused. -/
theorem read_ret_le_iff (hcount : count ≤ intMax) {n : Int} (l : List α)
    (hn : (R.loop count l 0 0).bytesToWrite = n) (hlo : 0 ≤ n) (hhi : n ≤ intMax) :
    (R.read memory accessible l count 0).ret ≤ count ↔ n ≤ count + (count - accessible : Nat) := by
  have hcopy : copyToUser accessible count = count - accessible :=
    if_neg (Nat.not_lt.mpr hcount)
  show toInt ((R.loop count l 0 0).bytesToWrite - toInt (copyToUser accessible count : Nat)) ≤ _ ↔ _
  rw [hn, hcopy, toInt_of_le (Nat.le_trans (Nat.sub_le _ _) hcount)]
  unfold toInt intMax at *
  omega

variable (memory accessible) in
theorem read_ret_le_of_zero (hcount : count ≤ intMax) (l : List α)
    (h : (R.loop count l 0 0).bytesToWrite = 0) :
    (R.read memory accessible l count 0).ret ≤ count :=
  (read_ret_le_iff hcount l h (Int.le_refl 0) (Int.natCast_nonneg intMax)).mpr
    (Int.add_nonneg (Int.natCast_nonneg _) (Int.natCast_nonneg _))

variable (memory accessible) in
/-- A count that is refused: the callback stores nothing and returns no more than it was asked
for. -/
theorem read_of_large (hcount : intMax < count) (l : List α) :
    (R.read memory accessible l count 0).Contained count ∧
      (R.read memory accessible l count 0).Allotted count := by
  have hrefused := loop_of_large (R := R) hcount l
  have hret : (R.read memory accessible l count 0).ret ≤ count := by
    show toInt ((R.loop count l 0 0).bytesToWrite - _) ≤ _
    rw [hrefused.bytesToWrite]
    unfold toInt intMax at *
    omega
  refine ⟨⟨fun s hs => ?_, hret⟩, ⟨fun s hs => ?_, hret⟩⟩
  · exact SnprintfCall.inside_iff.mpr (.inl (hrefused.call s hs).1)
  · obtain ⟨-, hoffset, hsize⟩ := hrefused.call s hs
    rw [hoffset, hsize, Nat.zero_add]

variable (memory accessible) in
/-- Nothing is printed. -/
theorem read_of_silent (hcount : count ≤ intMax) (hloop : R.loop count l 0 0 = ⟨[], 0, 0⟩) :
    (R.read memory accessible l count 0).Contained count ∧
      (R.read memory accessible l count 0).Allotted count := by
  have hnone : ∀ s, s ∉ (R.read memory accessible l count 0).calls := fun s hs => by
    have hs' : s ∈ (R.loop count l 0 0).calls := hs
    rw [hloop] at hs'
    cases hs'
  have hret := read_ret_le_of_zero memory accessible hcount l
    (congrArg Printed.bytesToWrite hloop)
  exact ⟨⟨fun s hs => absurd hs (hnone s), hret⟩, ⟨fun s hs => absurd hs (hnone s), hret⟩⟩

variable (memory accessible) in
theorem read_of_nil (hcount : count ≤ intMax) :
    (R.read memory accessible [] count 0).Contained count ∧
      (R.read memory accessible [] count 0).Allotted count :=
  read_of_silent memory accessible hcount (by rw [loop])

variable (memory accessible) in
theorem read_of_full (hcount : count ≤ intMax) (hfull : R.full 0 count = true) (es : List α) :
    (R.read memory accessible (e :: es) count 0).Contained count ∧
      (R.read memory accessible (e :: es) count 0).Allotted count :=
  read_of_silent memory accessible hcount (loop_of_full hfull es 0)

variable (memory accessible) in
/-- A first entry that is printed and not counted. -/
theorem read_of_overflows (hcount : count ≤ intMax) (hfull : R.full 0 count = false)
    (hover : R.overflows (R.text e).length count = true) (es : List α) :
    (R.read memory accessible (e :: es) count 0).Contained count ∧
      (R.read memory accessible (e :: es) count 0).Allotted count := by
  have hloop := loop_of_first_overflows hcount hfull hover es
  have hcalls : (R.read memory accessible (e :: es) count 0).calls = [⟨0, count, R.text e⟩] := by
    show (R.loop count (e :: es) 0 0).calls = _
    rw [hloop]
  have hret := read_ret_le_of_zero memory accessible hcount (e :: es)
    (congrArg Printed.bytesToWrite hloop)
  refine ⟨⟨fun s hs => ?_, hret⟩, ⟨fun s hs => ?_, hret⟩⟩
  · rw [hcalls, List.mem_singleton] at hs
    rw [hs]
    exact SnprintfCall.inside_first count _
  · rw [hcalls, List.mem_singleton] at hs
    rw [hs]
    exact Nat.le_of_eq (Nat.zero_add count)

section First

variable (hcount : count ≤ intMax) (hfull : R.full 0 count = false)
  (hover : R.overflows (R.text e).length count = false)
include hcount hfull hover

variable (memory accessible) in
/-- When nothing but a first entry is counted, it alone is reported. -/
theorem read_ret_le_iff_of_first
    (hrest : (R.loop count es (R.text e).length (R.text e).length).bytesToWrite =
      (R.text e).length) :
    (R.read memory accessible (e :: es) count 0).ret ≤ count ↔
      (R.text e).length ≤ count + (count - accessible) := by
  have hn : (R.loop count (e :: es) 0 0).bytesToWrite = (R.text e).length := by
    rw [loop_of_first hcount hfull hover]
    exact hrest
  have hlen := text_length_le_intMax R e
  rw [read_ret_le_iff hcount (e :: es) hn (Int.natCast_nonneg _) (Int.ofNat_le.mpr hlen)]
  omega

/-- **With a first entry counted, the callback stays inside its buffer exactly when each later entry
fits at its place, and reports no more than the buffer holds exactly when the first is not longer.**
-/
theorem contained_iff_of_first (hpos : 0 < count) (es : List α) :
    (R.read memory accessible (e :: es) count 0).Contained count ↔
      R.FitsAt count (R.text e).length (R.text e).length es ∧
        (R.text e).length ≤ count + (count - accessible) := by
  have hlen : 0 < (R.text e).length := Nat.lt_of_lt_of_le (by omega) (R.text_length e).1
  have hloop := loop_of_first hcount hfull hover es
  have hstores : (∀ s ∈ (R.read memory accessible (e :: es) count 0).calls, s.Inside count) ↔
      R.FitsAt count (R.text e).length (R.text e).length es := by
    rw [← loop_inside_iff hcount hpos hlen (Nat.le_refl _)]
    show (∀ s ∈ (R.loop count (e :: es) 0 0).calls, s.Inside count) ↔ _
    rw [hloop, List.forall_mem_cons]
    exact and_iff_right (SnprintfCall.inside_first count _)
  have hret : R.FitsAt count (R.text e).length (R.text e).length es →
      ((R.read memory accessible (e :: es) count 0).ret ≤ count ↔
        (R.text e).length ≤ count + (count - accessible)) := by
    intro hfits
    rcases Nat.lt_or_ge count (R.text e).length with hlong | hle
    · -- a first entry that fills the buffer leaves no place for another
      apply read_ret_le_iff_of_first memory accessible hcount hfull hover
      cases es with
      | nil => rfl
      | cons f es =>
          by_cases hfull' : R.full (R.text e).length count = true
          · rw [loop_of_full hfull']
          · rw [Bool.not_eq_true] at hfull'
            have hf := ((fitsAt_cons hfull').mp hfits).1
            omega
    · obtain ⟨hlo, hhi⟩ := loop_bytesToWrite_le hcount (Nat.le_refl _) hle hfits
      have hn : (R.loop count (e :: es) 0 0).bytesToWrite =
          (R.loop count es (R.text e).length (R.text e).length).bytesToWrite := by
        rw [hloop]
      have hmax : (count : Int) ≤ intMax := Int.ofNat_le.mpr hcount
      rw [read_ret_le_iff hcount (e :: es) hn hlo (by omega)]
      omega
  constructor
  · intro h
    have hfits := hstores.mp h.stores
    exact ⟨hfits, (hret hfits).mp h.ret⟩
  · rintro ⟨hfits, hle⟩
    exact ⟨hstores.mpr hfits, (hret hfits).mpr hle⟩

/-- Only at the front is the whole buffer left. -/
theorem allotted_iff_of_first (es : List α) :
    (R.read memory accessible (e :: es) count 0).Allotted count ↔
      (es = [] ∨ R.full (R.text e).length count = true) ∧
        (R.text e).length ≤ count + (count - accessible) := by
  have hlen : 0 < (R.text e).length := Nat.lt_of_lt_of_le (by omega) (R.text_length e).1
  have hloop := loop_of_first hcount hfull hover es
  have hcalls : (R.read memory accessible (e :: es) count 0).calls =
      ⟨0, count, R.text e⟩ :: (R.loop count es (R.text e).length (R.text e).length).calls := by
    show (R.loop count (e :: es) 0 0).calls = _
    rw [hloop]
  by_cases hend : es = [] ∨ R.full (R.text e).length count = true
  · have hrest : R.loop count es (R.text e).length (R.text e).length =
        ⟨[], (R.text e).length, (R.text e).length⟩ := by
      cases es with
      | nil => rw [loop]
      | cons f es => exact loop_of_full (hend.resolve_left (List.cons_ne_nil f es)) es _
    have hret := read_ret_le_iff_of_first memory accessible hcount
      hfull hover (congrArg Printed.bytesToWrite hrest)
    rw [and_iff_right hend, ← hret]
    refine ⟨fun h => h.ret, fun h => ⟨fun s hs => ?_, h⟩⟩
    rw [hcalls, hrest, List.mem_singleton] at hs
    rw [hs]
    exact Nat.le_of_eq (Nat.zero_add count)
  · refine iff_of_false (fun h => ?_) fun h => hend h.1
    obtain ⟨hne, hfull'⟩ := not_or.mp hend
    obtain ⟨f, es, rfl⟩ := List.exists_cons_of_ne_nil hne
    rw [Bool.not_eq_true] at hfull'
    have hsecond := h.windows ⟨(R.text e).length, count, R.text f⟩
      (by rw [hcalls]; exact List.mem_cons_of_mem _ (head_mem_loop hfull' es _))
    simp only at hsecond
    omega

end First

/-- A count that is refused and an empty list aside, what is left is a list with a first entry. -/
theorem contained_iff_of_cons {C A : List α → Prop} (hC : C []) (hA : A [])
    (h : ∀ e es, count ≤ intMax →
      ((R.read memory accessible (e :: es) count 0).Contained count ↔ C (e :: es)) ∧
        ((R.read memory accessible (e :: es) count 0).Allotted count ↔ A (e :: es)))
    (l : List α) :
    ((R.read memory accessible l count 0).Contained count ↔ intMax < count ∨ C l) ∧
      ((R.read memory accessible l count 0).Allotted count ↔ intMax < count ∨ A l) := by
  rcases Nat.lt_or_ge intMax count with hlarge | hcount
  · obtain ⟨hcontained, hallotted⟩ := read_of_large (R := R) memory accessible hlarge l
    exact ⟨iff_of_true hcontained (.inl hlarge), iff_of_true hallotted (.inl hlarge)⟩
  · rw [or_iff_right (Nat.not_lt.mpr hcount), or_iff_right (Nat.not_lt.mpr hcount)]
    cases l with
    | nil =>
        obtain ⟨hcontained, hallotted⟩ := read_of_nil (R := R) memory accessible hcount
        exact ⟨iff_of_true hcontained hC, iff_of_true hallotted hA⟩
    | cons e es => exact h e es hcount

end ReadFormat

end KernelDev.Lib
