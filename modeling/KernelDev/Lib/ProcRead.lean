/-
# KernelDev.Lib.ProcRead — read callbacks that print a list

A read callback of a proc file allocates a buffer of `count` bytes, prints the entries of a list
into it with `snprintf`, each at `buf + *offp`, copies the buffer to user space and returns how many
bytes it has printed. `bytes_to_write` counts the bytes and is added to `*offp` after each entry.
What tells two such callbacks apart is a `ReadFormat`.

The buffer is the memory from `buf` on, and a store may go beyond its end. `kmalloc` delivers it
with any contents.
-/
import KernelDev.Lib.Decimal
import KernelDev.Lib.Writes

namespace KernelDev.Lib

/-! ## `snprintf` -/

def intMax : Nat := 2147483647

/-- What an `int` holds that is assigned this number. -/
def toInt (x : Int) : Int := (x + 2147483648) % 4294967296 - 2147483648

theorem toInt_of_le {n : Nat} (h : n ≤ intMax) : toInt n = n := by
  unfold toInt intMax at *
  omega

/-- A call `snprintf(buf + offset, size, ..)` that formats `text`. -/
structure SnprintfCall where
  offset : Nat
  size : Nat
  text : Bytes
  deriving DecidableEq, Repr

namespace SnprintfCall

/-- It returns the length of the text, also when that does not fit. A size beyond INT_MAX is
refused. -/
def ret (c : SnprintfCall) : Nat := if intMax < c.size then 0 else c.text.length

/-- It stores as much of the text as leaves room for the NUL. -/
def stored (c : SnprintfCall) : Bytes :=
  if c.size = 0 ∨ intMax < c.size then [] else c.text.take (c.size - 1) ++ [0]

def stores (c : SnprintfCall) : List (Nat × UInt8) := placed c.offset c.stored

variable {c : SnprintfCall}

theorem stored_length (hpos : 0 < c.size) (h : c.size ≤ intMax) :
    c.stored.length = min (c.text.length + 1) c.size := by
  rw [stored, if_neg (by omega), List.length_append, List.length_take, List.length_singleton]
  omega

theorem stored_length_le (c : SnprintfCall) : c.stored.length ≤ c.size := by
  unfold stored
  split
  · exact Nat.zero_le _
  · rw [List.length_append, List.length_take, List.length_singleton]
    omega

/-- A text that fits is stored with its NUL. -/
theorem stored_of_lt (hfits : c.text.length < c.size) (h : c.size ≤ intMax) :
    c.stored = c.text ++ [0] := by
  rw [stored, if_neg (by omega), List.take_of_length_le (by omega)]

theorem mem_stores_keys {i : Nat} :
    i ∈ c.stores.map Prod.fst ↔ c.offset ≤ i ∧ i < c.offset + c.stored.length :=
  mem_placed_keys

/-- Every byte stored is one of the first `count`. -/
def Inside (count : Nat) (c : SnprintfCall) : Prop := ∀ i ∈ c.stores.map Prod.fst, i < count

theorem inside_iff {count : Nat} :
    c.Inside count ↔ c.stored = [] ∨ c.offset + c.stored.length ≤ count := by
  unfold Inside
  simp only [mem_stores_keys, ← List.length_eq_zero_iff]
  constructor
  · intro h
    by_cases hzero : c.stored.length = 0
    · exact .inl hzero
    · have hlast := h (c.offset + c.stored.length - 1) (by omega)
      omega
  · intro h i hi
    omega

end SnprintfCall

/-! ## The callback -/

/-- One read callback: what it prints of an entry, the test it makes before it prints one (on
`*offp`) and the test it makes after (on the bytes printed, with the entry). -/
structure ReadFormat (α : Type*) where
  text : α → Bytes
  full : (offp count : Nat) → Bool
  overflows : (total : Int) → (count : Nat) → Bool
  text_length : ∀ e, 2 ≤ (text e).length ∧ (text e).length ≤ 64
  text_noNul : ∀ e, 0 ∉ text e
  /-- The first test does not pass again. -/
  full_mono : ∀ {o o' count : Nat}, o ≤ o' → full o count = true → full o' count = true
  /-- An entry that fits where it is printed passes the first test. -/
  full_of_fits : ∀ {e o count}, o + (text e).length < count → full o count = false
  /-- Entries that fit together pass the second. -/
  overflows_of_fits : ∀ {n count : Nat}, n < count → count ≤ intMax → overflows n count = false

/-- What the loop over the list leaves. -/
structure Printed where
  calls : List SnprintfCall
  bytesToWrite : Int
  offp : Nat
  deriving DecidableEq, Repr

/-- What a call of the callback does: its `snprintf`s, what arrives in the user's buffer, what it
returns, and `*offp` after it. -/
structure ReadCall where
  calls : List SnprintfCall
  user : Bytes
  ret : Int
  offp : Nat
  deriving DecidableEq, Repr

/-- `copy_to_user` of `count` bytes to a buffer of which `accessible` bytes can be written: the
number of bytes it does not copy. A count beyond INT_MAX is refused. -/
def copyToUser (accessible count : Nat) : Nat :=
  if intMax < count then count else count - accessible

namespace ReadFormat

variable {α : Type*} (R : ReadFormat α)

/-- The loop over the list, from `bytes_to_write` and `*offp` on. -/
def loop (count : Nat) : List α → Int → Nat → Printed
  | [], b, o => ⟨[], b, o⟩
  | e :: es, b, o =>
      if R.full o count then ⟨[], b, o⟩
      else
        let call : SnprintfCall := ⟨o, count, R.text e⟩
        let total := toInt (b + call.ret)
        if R.overflows total count then ⟨[call], b, o⟩
        else if total < 0 then ⟨[call], total, o⟩
        else
          let later := loop count es total (o + total.toNat)
          { later with calls := call :: later.calls }

/-- The memory from `buf` on, after these calls. -/
def buffer (calls : List SnprintfCall) (memory : Nat → UInt8) : Nat → UInt8 :=
  writeAll (calls.flatMap SnprintfCall.stores) memory

/-- The callback. -/
def read (memory : Nat → UInt8) (accessible : Nat) (l : List α) (count offp : Nat) : ReadCall :=
  if offp ≠ 0 then ⟨[], [], 0, offp⟩
  else
    let p := R.loop count l 0 offp
    let bytesNotCopied := copyToUser accessible count
    { calls := p.calls
      user := (List.range (count - bytesNotCopied)).map (buffer p.calls memory)
      ret := toInt (p.bytesToWrite - toInt bytesNotCopied)
      offp := p.offp }

/-- The entries behind each other, as they are to be listed. -/
def listing (l : List α) : Bytes := l.flatMap R.text

/-! ## One entry -/

variable {R} {count : Nat} {e : α} {es : List α} {b o : Nat}

theorem text_length_le_intMax (R : ReadFormat α) (e : α) : (R.text e).length ≤ intMax :=
  (R.text_length e).2.trans (by decide)

theorem loop_of_full (h : R.full o count = true) (es : List α) (b : Int) :
    R.loop count (e :: es) b o = ⟨[], b, o⟩ := by
  rw [loop, if_pos h]

/-- What the loop does with an entry: it finds no room for it, prints it and has no room for more,
prints it and finds the total negative, or prints and counts it. -/
inductive Turn (R : ReadFormat α) (count : Nat) (e : α) (es : List α) (b : Int) (o : Nat) : Prop
  | full (hfull : R.full o count = true) (hloop : R.loop count (e :: es) b o = ⟨[], b, o⟩)
  | overflows (hloop : R.loop count (e :: es) b o = ⟨[⟨o, count, R.text e⟩], b, o⟩)
  | negative {total : Int}
      (htotal : toInt (b + (SnprintfCall.mk o count (R.text e)).ret) = total) (hneg : total < 0)
      (hloop : R.loop count (e :: es) b o = ⟨[⟨o, count, R.text e⟩], total, o⟩)
  | counted {total : Int}
      (htotal : toInt (b + (SnprintfCall.mk o count (R.text e)).ret) = total) (hpos : 0 ≤ total)
      (hloop : R.loop count (e :: es) b o =
        let later := R.loop count es total (o + total.toNat)
        { later with calls := ⟨o, count, R.text e⟩ :: later.calls })

theorem turn (R : ReadFormat α) (count : Nat) (e : α) (es : List α) (b : Int) (o : Nat) :
    Turn R count e es b o := by
  have hloop := loop.eq_2 R count b o e es
  extract_lets call total later at hloop
  split at hloop
  · next hfull => exact .full hfull hloop
  · split at hloop
    · exact .overflows hloop
    · split at hloop
      · next hneg => exact .negative rfl hneg hloop
      · next hpos => exact .counted rfl (Int.not_lt.mp hpos) hloop

/-- An entry that passes both tests is printed and counted. -/
theorem loop_of_passes (hcount : count ≤ intMax) (hfull : R.full o count = false)
    (hfits : b + (R.text e).length ≤ intMax)
    (hover : R.overflows (b + (R.text e).length : Nat) count = false) (es : List α) :
    R.loop count (e :: es) b o =
      let later := R.loop count es (b + (R.text e).length : Nat) (o + (b + (R.text e).length))
      { later with calls := ⟨o, count, R.text e⟩ :: later.calls } := by
  have hret : (SnprintfCall.mk o count (R.text e)).ret = (R.text e).length :=
    if_neg (Nat.not_lt.mpr hcount)
  have htotal : toInt ((b : Int) + ((R.text e).length : Nat)) = (b + (R.text e).length : Nat) := by
    rw [← Int.natCast_add]
    exact toInt_of_le hfits
  have hnonneg : ¬ ((b + (R.text e).length : Nat) : Int) < 0 :=
    Int.not_lt.mpr (Int.natCast_nonneg _)
  simp only [loop, hfull, hret, htotal, hover, hnonneg, Bool.false_eq_true, if_false,
    Int.toNat_natCast]

/-- The same for the first entry. -/
theorem loop_of_first (hcount : count ≤ intMax) (hfull : R.full 0 count = false)
    (hover : R.overflows (R.text e).length count = false) (es : List α) :
    R.loop count (e :: es) 0 0 =
      let later := R.loop count es (R.text e).length (R.text e).length
      { later with calls := ⟨0, count, R.text e⟩ :: later.calls } := by
  have hpass : R.loop count (e :: es) (0 : Nat) 0 = _ :=
    loop_of_passes hcount hfull (by rw [Nat.zero_add]; exact text_length_le_intMax R e)
      (by rwa [Nat.zero_add]) es
  rwa [Nat.zero_add, Nat.zero_add] at hpass

/-- An entry that fails the second test is printed and not counted. -/
theorem loop_of_overflows {b : Int} (hcount : count ≤ intMax) (hfull : R.full o count = false)
    (hover : R.overflows (toInt (b + (R.text e).length)) count = true) (es : List α) :
    R.loop count (e :: es) b o = ⟨[⟨o, count, R.text e⟩], b, o⟩ := by
  have hret : (SnprintfCall.mk o count (R.text e)).ret = (R.text e).length :=
    if_neg (Nat.not_lt.mpr hcount)
  simp only [loop, hfull, hret, hover, Bool.false_eq_true, if_false, if_true]

theorem loop_of_first_overflows (hcount : count ≤ intMax) (hfull : R.full 0 count = false)
    (hover : R.overflows (R.text e).length count = true) (es : List α) :
    R.loop count (e :: es) 0 0 = ⟨[⟨0, count, R.text e⟩], 0, 0⟩ := by
  have htotal : toInt ((0 : Int) + (R.text e).length) = (R.text e).length := by
    rw [Int.zero_add]
    exact toInt_of_le (text_length_le_intMax R e)
  rw [← htotal] at hover
  exact loop_of_overflows hcount hfull hover es

/-- Nothing is printed below `*offp`. -/
theorem offp_le_of_mem_loop (R : ReadFormat α) (count : Nat) (l : List α) (b : Int) (o : Nat) :
    ∀ c ∈ (R.loop count l b o).calls, o ≤ c.offset := by
  induction l generalizing b o with
  | nil =>
      intro c hc
      cases hc
  | cons e es ih =>
      intro c hc
      cases R.turn count e es b o with
      | full _ hloop =>
          rw [hloop] at hc
          cases hc
      | overflows hloop | negative _ _ hloop =>
          rw [hloop, List.mem_singleton] at hc
          rw [hc]
      | counted _ _ hloop =>
          rw [hloop] at hc
          rcases List.mem_cons.mp hc with rfl | hc
          · exact Nat.le_refl o
          · exact Nat.le_of_add_right_le (ih _ _ c hc)

/-- Nothing is stored and nothing counted. -/
structure Refused (count : Nat) (p : Printed) : Prop where
  call : ∀ c ∈ p.calls, c.stored = [] ∧ c.offset = 0 ∧ c.size = count
  bytesToWrite : p.bytesToWrite = 0

/-- A count beyond INT_MAX is refused, entry after entry. -/
theorem loop_of_large (hcount : intMax < count) (l : List α) :
    Refused count (R.loop count l 0 0) := by
  induction l with
  | nil => exact ⟨(fun c hc => by cases hc), rfl⟩
  | cons e es ih =>
      have hcall : (SnprintfCall.mk 0 count (R.text e)).stored = [] := if_pos (.inr hcount)
      have hzero : toInt (0 + (SnprintfCall.mk 0 count (R.text e)).ret) = 0 := by
        rw [show (SnprintfCall.mk 0 count (R.text e)).ret = 0 from if_pos hcount]
        rfl
      cases R.turn count e es 0 0 with
      | full _ hloop =>
          rw [hloop]
          exact ⟨(fun c hc => by cases hc), rfl⟩
      | overflows hloop =>
          rw [hloop]
          exact ⟨fun c hc => List.mem_singleton.mp hc ▸ ⟨hcall, rfl, rfl⟩, rfl⟩
      | negative htotal hneg hloop =>
          rw [hzero] at htotal
          exact absurd htotal (Int.ne_of_gt hneg)
      | counted htotal _ hloop =>
          obtain rfl := hzero.symm.trans htotal
          rw [hloop]
          refine ⟨fun c hc => ?_, ih.bytesToWrite⟩
          rcases List.mem_cons.mp hc with rfl | hc
          · exact ⟨hcall, rfl, rfl⟩
          · exact ih.call c hc

/-! ## The first two entries -/

variable {f : α} {calls later : List SnprintfCall} {memory : Nat → UInt8} {i : Nat}

/-- The calls for two entries that are printed behind each other, and those made after them. -/
structure StartsWith (R : ReadFormat α) (count : Nat) (e f : α) (calls later : List SnprintfCall) :
    Prop where
  calls_eq : calls = ⟨0, count, R.text e⟩ :: ⟨(R.text e).length, count, R.text f⟩ :: later
  /-- `*offp` has been moved past the end of the second. -/
  later_offset : ∀ c ∈ later, (R.text e).length + (R.text f).length + 2 ≤ c.offset

/-- The second of two entries that pass the tests is printed where the first ends, and what comes
after it is not. -/
theorem loop_startsWith (hcount : count ≤ intMax) (hfull : R.full 0 count = false)
    (hover : R.overflows (R.text e).length count = false)
    (hfull' : R.full (R.text e).length count = false) (es : List α) :
    ∃ later, StartsWith R count e f (R.loop count (e :: f :: es) 0 0).calls later := by
  have hlen := (R.text_length e).1
  -- what is printed after the second entry is printed from its `*offp` on
  have hrest : ∃ later, (R.loop count (f :: es) (R.text e).length (R.text e).length).calls =
      ⟨(R.text e).length, count, R.text f⟩ :: later ∧
        ∀ c ∈ later, (R.text e).length + (R.text f).length + 2 ≤ c.offset := by
    have hret : (SnprintfCall.mk (R.text e).length count (R.text f)).ret = (R.text f).length :=
      if_neg (Nat.not_lt.mpr hcount)
    have hbound := (R.text_length e).2
    have hbound' := (R.text_length f).2
    cases R.turn count f es (R.text e).length (R.text e).length with
    | full h _ =>
        rw [hfull'] at h
        cases h
    | overflows hloop | negative _ _ hloop =>
        rw [hloop]
        exact ⟨[], rfl, fun c hc => by cases hc⟩
    | counted htotal _ hloop =>
        rw [hret, ← Int.natCast_add,
          toInt_of_le ((Nat.add_le_add hbound hbound').trans (by decide))] at htotal
        rw [hloop]
        refine ⟨_, rfl, fun c hc => ?_⟩
        have hoff := offp_le_of_mem_loop R count es _ _ c hc
        omega
  obtain ⟨later, hcalls, hlater⟩ := hrest
  refine ⟨later, ?_, hlater⟩
  rw [loop_of_first hcount hfull hover, ← hcalls]

variable {v : UInt8}

variable (memory) in
/-- **The two entries stand behind each other, with the NUL of the second behind them.** -/
theorem StartsWith.buffer_eq (h : StartsWith R count e f calls later) (hcount : count ≤ intMax)
    (hfits : (R.text e).length + (R.text f).length < count)
    (hv : (R.text e ++ (R.text f ++ [0]))[i]? = some v) : buffer calls memory i = v := by
  have he : (SnprintfCall.mk 0 count (R.text e)).stored = R.text e ++ [0] :=
    SnprintfCall.stored_of_lt (show (R.text e).length < count by omega) hcount
  have hf : (SnprintfCall.mk (R.text e).length count (R.text f)).stored = R.text f ++ [0] :=
    SnprintfCall.stored_of_lt (show (R.text f).length < count by omega) hcount
  have hlen : i < (R.text e ++ (R.text f ++ [0])).length := (List.getElem?_eq_some_iff.mp hv).1
  rw [List.length_append, List.length_append, List.length_singleton] at hlen
  have hlater : i ∉ (later.flatMap SnprintfCall.stores).map Prod.fst := by
    intro hmem
    obtain ⟨w, hw, rfl⟩ := List.mem_map.mp hmem
    obtain ⟨c, hc, hwc⟩ := List.mem_flatMap.mp hw
    have hoff := h.later_offset c hc
    have hkey := (SnprintfCall.mem_stores_keys.mp (List.mem_map_of_mem hwc)).1
    omega
  rw [h.calls_eq, buffer, List.flatMap_cons, List.flatMap_cons, writeAll_append, writeAll_append,
    writeAll_of_notMem hlater]
  rcases Nat.lt_or_ge i (R.text e).length with hlt | hge
  · -- the second call does not touch the first entry
    rw [writeAll_of_notMem fun hmem =>
      absurd (SnprintfCall.mem_stores_keys.mp hmem).1 (Nat.not_le.mpr hlt)]
    have hnul : (R.text e ++ [0])[i]? = (R.text e)[i]? := List.getElem?_append_left hlt
    rw [List.getElem?_append_left hlt, ← hnul, ← he] at hv
    have hput := writeAll_placed (a := 0) memory hv
    rwa [Nat.zero_add] at hput
  · obtain ⟨j, rfl⟩ := Nat.exists_eq_add_of_le hge
    rw [List.getElem?_append_right hge, Nat.add_sub_cancel_left, ← hf] at hv
    exact writeAll_placed _ hv

end ReadFormat

end KernelDev.Lib
