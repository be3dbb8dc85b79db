/-
# KernelDev.Lib.Listing — what a reader gets from a callback that prints a list

Each entry is printed at `*offp`, which is where it belongs for the first two. From the third on
`*offp` has been moved too far, since it is moved by all that has been printed and not by the entry:
the entries are torn apart, and what `kmalloc` left between them is copied along with them.
-/
import KernelDev.Lib.ProcRead
import Mathlib.Algebra.Notation.Defs

namespace KernelDev.Lib.ReadFormat

variable {α : Type*} {R : ReadFormat α} {count accessible offp : Nat} {l es : List α} {e f g : α}
  {memory : Nat → UInt8}

/-! ## The callback -/

theorem le_intMax_of_copyToUser (h : copyToUser accessible count = 0) : count ≤ intMax := by
  unfold copyToUser at h
  split at h
  · omega
  · omega

/-- At another offset than 0 there is nothing to read. -/
theorem read_of_offp_ne (h : offp ≠ 0) (l : List α) :
    R.read memory accessible l count offp = ⟨[], [], 0, offp⟩ :=
  if_pos h

/-- What the callback returns when everything is copied. -/
theorem read_ret (hcopy : copyToUser accessible count = 0) (l : List α) :
    (R.read memory accessible l count 0).ret = toInt (R.loop count l 0 0).bytesToWrite := by
  show toInt (_ - toInt (copyToUser accessible count : Nat)) = _
  rw [hcopy, show toInt ((0 : Nat) : Int) = 0 from rfl, Int.sub_zero]

theorem read_user (l : List α) :
    (R.read memory accessible l count 0).user =
      (List.range (count - copyToUser accessible count)).map
        (buffer (R.loop count l 0 0).calls memory) := rfl

/-- The reader finds a text in front of the buffer when it is there. -/
theorem take_user {buf : Nat → UInt8} {t : Bytes} {n : Nat} (hlen : t.length ≤ n)
    (ht : ∀ i v, t[i]? = some v → buf i = v) : ((List.range n).map buf).take t.length = t := by
  apply List.ext_getElem?
  intro i
  rcases Nat.lt_or_ge i t.length with hlt | hge
  · have hith : t[i]? = some t[i] := List.getElem?_eq_getElem hlt
    rw [List.getElem?_take_of_lt hlt, hith, List.getElem?_map,
      List.getElem?_range (Nat.lt_of_lt_of_le hlt hlen), Option.map_some, ht i _ hith]
  · rw [List.getElem?_take_eq_none hge, List.getElem?_eq_none hge]

/-! ## Lists of one and two entries -/

/-- A first entry that fits is counted. -/
theorem loop_of_first_fits (hcount : count ≤ intMax) (hfits : (R.text e).length < count)
    (es : List α) :
    R.loop count (e :: es) 0 0 =
      let later := R.loop count es (R.text e).length (R.text e).length
      { later with calls := ⟨0, count, R.text e⟩ :: later.calls } :=
  loop_of_first hcount (R.full_of_fits ((Nat.zero_add _).trans_lt hfits))
    (R.overflows_of_fits hfits hcount) es

/-- One entry that fits. -/
theorem loop_one (hcount : count ≤ intMax) (hfits : (R.text e).length < count) :
    R.loop count [e] 0 0 = ⟨[⟨0, count, R.text e⟩], (R.text e).length, (R.text e).length⟩ :=
  loop_of_first_fits hcount hfits []

/-- The calls for two entries that fit, whatever comes after them. -/
theorem startsWith_of_fits (hcount : count ≤ intMax)
    (hfits : (R.text e).length + (R.text f).length < count) (es : List α) :
    ∃ later, StartsWith R count e f (R.loop count (e :: f :: es) 0 0).calls later := by
  have hfirst : (R.text e).length < count := Nat.lt_of_le_of_lt (Nat.le_add_right _ _) hfits
  exact loop_startsWith hcount (R.full_of_fits ((Nat.zero_add _).trans_lt hfirst))
    (R.overflows_of_fits hfirst hcount) (R.full_of_fits hfits) es

/-- Two entries that fit are both counted. -/
theorem loop_two_bytesToWrite (hcount : count ≤ intMax)
    (hfits : (R.text e).length + (R.text f).length < count) :
    (R.loop count [e, f] 0 0).bytesToWrite = ((R.text e).length + (R.text f).length : Nat) := by
  have hfirst : (R.text e).length < count := Nat.lt_of_le_of_lt (Nat.le_add_right _ _) hfits
  rw [loop_of_first_fits hcount hfirst, loop_of_passes hcount (R.full_of_fits hfits)
    (Nat.le_trans (Nat.le_of_lt hfits) hcount) (R.overflows_of_fits hfits hcount)]
  rfl

/-! ## The listing -/

/-- The reader is told the length of the listing and finds the listing. -/
structure Lists (R : ReadFormat α) (c : ReadCall) (l : List α) : Prop where
  ret : c.ret = (R.listing l).length
  user : c.user.take (R.listing l).length = R.listing l

theorem listing_cons (e : α) (es : List α) : R.listing (e :: es) = R.text e ++ R.listing es :=
  List.flatMap_cons

/-- Behind the second of three entries there is a NUL. -/
theorem not_lists_of_three (hcopy : copyToUser accessible count = 0)
    (hfits : (R.listing (e :: f :: g :: es)).length < count) :
    ¬ R.Lists (R.read memory accessible (e :: f :: g :: es) count 0) (e :: f :: g :: es) := by
  intro h
  have hcount := le_intMax_of_copyToUser hcopy
  rw [listing_cons, listing_cons, listing_cons] at hfits
  simp only [List.length_append] at hfits
  obtain ⟨later, hstarts⟩ := startsWith_of_fits (R := R) (e := e) (f := f) hcount (by omega)
    (g :: es)
  obtain ⟨x, t, hg⟩ : ∃ x t, R.text g = x :: t := by
    cases htext : R.text g with
    | nil =>
        have hlen := (R.text_length g).1
        rw [htext] at hlen
        exact absurd hlen (by decide)
    | cons x t => exact ⟨x, t, rfl⟩
  have hx : x ≠ 0 := fun hzero => R.text_noNul g (by rw [hg, hzero]; exact List.mem_cons_self)
  -- the place of the first byte of the third entry
  have hwant : (R.listing (e :: f :: g :: es))[(R.text e).length + (R.text f).length]? =
      some x := by
    rw [listing_cons, listing_cons, listing_cons, hg, ← List.append_assoc,
      List.getElem?_append_right (by rw [List.length_append]), List.length_append, Nat.sub_self]
    rfl
  have hnul : (R.text e ++ (R.text f ++ [0]))[(R.text e).length + (R.text f).length]? =
      some 0 := by
    rw [← List.append_assoc, List.getElem?_append_right (by rw [List.length_append]),
      List.length_append, Nat.sub_self]
    rfl
  have hbuf := hstarts.buffer_eq memory hcount (by omega) hnul
  have hlt : (R.text e).length + (R.text f).length < (R.listing (e :: f :: g :: es)).length :=
    (List.getElem?_eq_some_iff.mp hwant).1
  rw [← h.user, List.getElem?_take_of_lt hlt, read_user, hcopy, Nat.sub_zero, List.getElem?_map,
    List.getElem?_range (by omega), Option.map_some, hbuf] at hwant
  exact hx (Option.some.inj hwant).symm

theorem lists_nil (hcopy : copyToUser accessible count = 0) :
    R.Lists (R.read memory accessible [] count 0) [] := by
  have htext : R.listing [] = [] := List.flatMap_nil
  refine ⟨?_, ?_⟩
  · rw [read_ret hcopy, htext, loop]
    exact toInt_of_le (Nat.zero_le intMax)
  · rw [htext]
    exact List.take_zero

theorem lists_one (hcopy : copyToUser accessible count = 0) (hfits : (R.text e).length < count) :
    R.Lists (R.read memory accessible [e] count 0) [e] := by
  have hcount := le_intMax_of_copyToUser hcopy
  have htext : R.listing [e] = R.text e := by
    rw [listing_cons]
    exact List.append_nil _
  refine ⟨?_, ?_⟩
  · rw [read_ret hcopy, loop_one hcount hfits, htext]
    exact toInt_of_le (text_length_le_intMax R e)
  · rw [read_user, hcopy, htext, loop_one hcount hfits]
    refine take_user (Nat.le_of_lt hfits) fun i v hv => ?_
    have hstored : (SnprintfCall.mk 0 count (R.text e)).stored[i]? = some v := by
      rw [SnprintfCall.stored_of_lt hfits hcount,
        List.getElem?_append_left (List.getElem?_eq_some_iff.mp hv).1, hv]
    have hput := writeAll_placed (a := 0) memory hstored
    rw [Nat.zero_add] at hput
    rw [buffer, List.flatMap_singleton]
    exact hput

theorem lists_two (hcopy : copyToUser accessible count = 0)
    (hfits : (R.text e).length + (R.text f).length < count) :
    R.Lists (R.read memory accessible [e, f] count 0) [e, f] := by
  have hcount := le_intMax_of_copyToUser hcopy
  have htext : R.listing [e, f] = R.text e ++ R.text f := by
    rw [listing_cons, listing_cons]
    exact congrArg _ (List.append_nil _)
  obtain ⟨later, hstarts⟩ := startsWith_of_fits hcount hfits []
  refine ⟨?_, ?_⟩
  · rw [read_ret hcopy, loop_two_bytesToWrite hcount hfits, htext, List.length_append]
    exact toInt_of_le (Nat.le_trans (Nat.le_of_lt hfits) hcount)
  · rw [read_user, hcopy, htext]
    refine take_user (by rw [List.length_append]; exact Nat.le_of_lt hfits) fun i v hv => ?_
    apply hstarts.buffer_eq memory hcount hfits
    rw [← List.append_assoc, List.getElem?_append_left (List.getElem?_eq_some_iff.mp hv).1, hv]

/-- **The reader gets the listing exactly when it has at most two entries.** -/
theorem lists_iff (hcopy : copyToUser accessible count = 0) (hfits : (R.listing l).length < count) :
    R.Lists (R.read memory accessible l count 0) l ↔ l.length ≤ 2 := by
  match l, hfits with
  | [], _ => exact iff_of_true (lists_nil hcopy) (Nat.zero_le 2)
  | [e], hfits =>
      rw [listing_cons, List.length_append] at hfits
      exact iff_of_true (lists_one hcopy (Nat.lt_of_le_of_lt (Nat.le_add_right _ _) hfits))
        (Nat.le_succ 1)
  | [e, f], hfits =>
      rw [listing_cons, listing_cons, List.length_append, List.length_append] at hfits
      exact iff_of_true (lists_two hcopy (Nat.lt_of_le_of_lt
        (Nat.add_le_add_left (Nat.le_add_right _ _) _) hfits)) (Nat.le_refl 2)
  | e :: f :: g :: es, hfits =>
      exact iff_of_false (not_lists_of_three hcopy hfits) (by simp)

/-- The reader is told the length of a text and finds the text. -/
structure Delivers (c : ReadCall) (text : Bytes) : Prop where
  ret : c.ret = text.length
  user : c.user.take text.length = text

/-- The same, for a text that is known to be the listing. -/
theorem delivers_iff {text : Bytes} (htext : R.listing l = text)
    (hcopy : copyToUser accessible count = 0) (hfits : text.length < count) :
    Delivers (R.read memory accessible l count 0) text ↔ l.length ≤ 2 := by
  subst htext
  have hlists : R.Lists (R.read memory accessible l count 0) l ↔ _ := lists_iff hcopy hfits
  rw [← hlists]
  exact ⟨fun h => ⟨h.ret, h.user⟩, fun h => ⟨h.ret, h.user⟩⟩

/-! ## The next read -/

theorem offp_le_loop (R : ReadFormat α) (count : Nat) (l : List α) (b : Int) (o : Nat) :
    o ≤ (R.loop count l b o).offp := by
  induction l generalizing b o with
  | nil => exact Nat.le_refl o
  | cons e es ih =>
      cases R.turn count e es b o with
      | full _ hloop | overflows hloop | negative _ _ hloop =>
          rw [hloop]
      | counted _ _ hloop =>
          rw [hloop]
          exact Nat.le_of_add_right_le (ih _ _)

/-- Once something has been counted, the count is an `int` that is not 0 again. -/
theorem loop_bytesToWrite_ne (count : Nat) (l : List α) {b : Int} (o : Nat) (hpos : 0 < b)
    (hle : b ≤ intMax) :
    (R.loop count l b o).bytesToWrite ≠ 0 ∧
      toInt (R.loop count l b o).bytesToWrite = (R.loop count l b o).bytesToWrite := by
  have hkeep : ∀ x : Int, -2147483648 ≤ x → x ≤ intMax → toInt x = x := fun x hlo hhi => by
    unfold toInt intMax at *
    omega
  induction l generalizing b o with
  | nil => exact ⟨Int.ne_of_gt hpos, hkeep b (by omega) hle⟩
  | cons e es ih =>
      have hb : b ≠ 0 ∧ toInt b = b := ⟨Int.ne_of_gt hpos, hkeep b (by omega) hle⟩
      have hlen : (SnprintfCall.mk o count (R.text e)).ret ≤ 64 := by
        have htext := (R.text_length e).2
        show (if intMax < count then 0 else (R.text e).length) ≤ 64
        split
        · omega
        · exact htext
      -- two numbers of this size cannot add up to a multiple of 2^32
      have hsum : ∀ {total}, toInt (b + (SnprintfCall.mk o count (R.text e)).ret) = total →
          total ≠ 0 ∧ -2147483648 ≤ total ∧ total ≤ intMax := by
        rintro _ rfl
        unfold toInt intMax at *
        omega
      cases R.turn count e es b o with
      | full _ hloop | overflows hloop =>
          rw [hloop]
          exact hb
      | negative htotal _ hloop =>
          obtain ⟨hne, hlo, hhi⟩ := hsum htotal
          rw [hloop]
          exact ⟨hne, hkeep _ hlo hhi⟩
      | counted htotal hnonneg hloop =>
          obtain ⟨hne, -, hhi⟩ := hsum htotal
          rw [hloop]
          exact ih _ (by omega) hhi

/-- The first entry, if there is one, is not counted. -/
def Skips (R : ReadFormat α) (count : Nat) (l : List α) : Prop :=
  ∀ e ∈ l.head?, R.full 0 count = true ∨ R.overflows (R.text e).length count = true

/-- **A read at offset 0 returns 0 exactly when it does not count the first entry.** -/
theorem read_ret_eq_zero_iff (hcopy : copyToUser accessible count = 0) (l : List α) :
    (R.read memory accessible l count 0).ret = 0 ↔ R.Skips count l := by
  have hcount := le_intMax_of_copyToUser hcopy
  rw [read_ret hcopy]
  cases l with
  | nil =>
      refine iff_of_true ?_ (fun e he => by cases he)
      rw [loop]
      exact toInt_of_le (Nat.zero_le intMax)
  | cons e es =>
      have hlen := (R.text_length e).1
      have hskips : R.Skips count (e :: es) ↔
          R.full 0 count = true ∨ R.overflows (R.text e).length count = true := by
        simp [Skips]
      rw [hskips]
      by_cases hfull : R.full 0 count = true
      · rw [loop_of_full hfull]
        exact iff_of_true (toInt_of_le (Nat.zero_le intMax)) (.inl hfull)
      · rw [Bool.not_eq_true] at hfull
        by_cases hover : R.overflows (R.text e).length count = true
        · rw [loop_of_first_overflows hcount hfull hover]
          exact iff_of_true (toInt_of_le (Nat.zero_le intMax)) (.inr hover)
        · rw [Bool.not_eq_true] at hover
          obtain ⟨hne, hkeep⟩ := loop_bytesToWrite_ne (R := R) count es (R.text e).length
            (b := (R.text e).length) (by omega)
            (Int.ofNat_le.mpr (text_length_le_intMax R e))
          refine iff_of_false ?_ (by rw [hfull, hover]; decide)
          rw [loop_of_first hcount hfull hover, hkeep]
          exact hne

/-- A listing that is not empty leaves `*offp` behind 0. -/
theorem read_offp_ne (hcopy : copyToUser accessible count = 0)
    (hfits : (R.listing (e :: es)).length < count) :
    (R.read memory accessible (e :: es) count 0).offp ≠ 0 := by
  have hcount := le_intMax_of_copyToUser hcopy
  have hlen := (R.text_length e).1
  rw [listing_cons, List.length_append] at hfits
  have hfirst : (R.text e).length < count := Nat.lt_of_le_of_lt (Nat.le_add_right _ _) hfits
  show (R.loop count (e :: es) 0 0).offp ≠ 0
  rw [loop_of_first_fits hcount hfirst]
  have hle := offp_le_loop R count es (R.text e).length (R.text e).length
  exact Nat.ne_of_gt (Nat.lt_of_lt_of_le (by omega) hle)

/-- **The listing is complete and exact, and the next read of the file returns 0, exactly when there
are at most two entries and, if there are none, the next read does not count a first.** -/
theorem listing_iff {memory' : Nat → UInt8} {accessible' count' : Nat}
    (hcopy : copyToUser accessible count = 0) (hcopy' : copyToUser accessible' count' = 0)
    (hfits : (R.listing l).length < count) (l' : List α) :
    (R.Lists (R.read memory accessible l count 0) l ∧
        (R.read memory' accessible' l' count' (R.read memory accessible l count 0).offp).ret = 0) ↔
      l.length ≤ 2 ∧ (l = [] → R.Skips count' l') := by
  rw [lists_iff hcopy hfits]
  refine and_congr_right fun _ => ?_
  cases l with
  | nil =>
      show (R.read memory' accessible' l' count' 0).ret = 0 ↔ _
      rw [read_ret_eq_zero_iff hcopy']
      exact ⟨fun h _ => h, fun h => h rfl⟩
  | cons e es =>
      rw [read_of_offp_ne (read_offp_ne hcopy hfits)]
      exact iff_of_true rfl fun h => by cases h

end KernelDev.Lib.ReadFormat
