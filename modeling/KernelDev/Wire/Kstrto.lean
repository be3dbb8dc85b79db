/-
# KernelDev.Wire.Kstrto — the kernel's number parsers on a field of a request

`kstrtoint` and `kstrtoul` with base 10: digits with an optional sign before and one optional
newline after them, nothing else, and a value in range. Both are fields of a request
(`Lib.RequestFormat`): what they refuse they refuse for good, unless there are no digits yet.
-/
import KernelDev.Lib.RequestFormat
import Mathlib.Algebra.Group.Nat.Defs

namespace KernelDev.Wire

open KernelDev.Lib

/-! ## The parsers -/

/-- `_kstrtoull` without its range: digits to the end, and one newline allowed. -/
def kstrtoNat (s : Bytes) : Option Nat :=
  let digits := chomp s
  if digits ≠ [] ∧ digits.all isDigit then some (decimalValue digits) else none

def plus : UInt8 := 43

def minus : UInt8 := 45

/-- `kstrtoull` skips a plus sign. -/
def dropPlus : Bytes → Bytes
  | [] => []
  | b :: s => if b = plus then s else b :: s

/-- `kstrtoul(s, 10, &res)`. -/
def kstrtoul (s : Bytes) : Option UInt64 :=
  (kstrtoNat (dropPlus s)).bind fun n => if n < 2 ^ 64 then some (UInt64.ofNat n) else none

/-- `kstrtoint(s, 10, &res)`, stored in an `unsigned int`. -/
def kstrtoint (s : Bytes) : Option UInt32 :=
  match s with
  | [] => none
  | b :: t =>
      if b = minus then
        (kstrtoNat t).bind fun n => if n ≤ 2 ^ 31 then some (0 - UInt32.ofNat n) else none
      else
        (kstrtoNat (dropPlus (b :: t))).bind fun n =>
          if n < 2 ^ 31 then some (UInt32.ofNat n) else none

/-! ## What is accepted -/

theorem kstrtoNat_eq_some {s : Bytes} {n : Nat} : kstrtoNat s = some n ↔
    chomp s ≠ [] ∧ (∀ b ∈ chomp s, isDigit b) ∧ decimalValue (chomp s) = n := by
  simp only [kstrtoNat]
  split
  · next h =>
      rw [Option.some_inj]
      exact ⟨fun heq => ⟨h.1, List.all_eq_true.mp h.2, heq⟩, fun hs => hs.2.2⟩
  · next h =>
      constructor
      · intro hnone
        cases hnone
      · rintro ⟨hne, hdigits, -⟩
        exact absurd ⟨hne, List.all_eq_true.mpr hdigits⟩ h

theorem chomp_of_digits {s : Bytes} (h : ∀ b ∈ s, isDigit b) : chomp s = s := by
  unfold chomp
  rw [if_neg]
  intro hlast
  have hdigit := h newline (List.mem_of_getLast? hlast)
  revert hdigit
  decide

theorem kstrtoNat_of_digits {s : Bytes} (hne : s ≠ []) (h : ∀ b ∈ s, isDigit b) :
    kstrtoNat s = some (decimalValue s) := by
  rw [kstrtoNat_eq_some, chomp_of_digits h]
  exact ⟨hne, h, rfl⟩

/-- Every byte accepted is a digit or the newline. -/
theorem bytes_of_kstrtoNat {s : Bytes} (h : (kstrtoNat s).isSome) :
    ∀ b ∈ s, isDigit b ∨ b = newline := by
  obtain ⟨n, hn⟩ := Option.isSome_iff_exists.mp h
  obtain ⟨-, hdigits, -⟩ := kstrtoNat_eq_some.mp hn
  intro b hb
  unfold chomp at hdigits
  split at hdigits
  · next hlast =>
      have hs := List.dropLast_append_getLast? newline hlast
      rw [← hs] at hb
      rcases List.mem_append.mp hb with hb | hb
      · exact .inl (hdigits b hb)
      · exact .inr (List.mem_singleton.mp hb)
  · exact .inl (hdigits b hb)

theorem dropPlus_cases (s : Bytes) :
    (∃ t, s = plus :: t ∧ dropPlus s = t) ∨ (s.head? ≠ some plus ∧ dropPlus s = s) := by
  cases s with
  | nil => exact .inr ⟨by simp, rfl⟩
  | cons b s =>
      by_cases hb : b = plus
      · exact .inl ⟨s, by rw [hb], by simp [dropPlus, hb]⟩
      · exact .inr ⟨by simpa using hb, by simp [dropPlus, hb]⟩

/-- The bytes of a number. -/
def IsNumberByte (b : UInt8) : Prop := isDigit b ∨ b = newline ∨ b = plus ∨ b = minus

theorem bytes_of_dropPlus {s : Bytes} (h : (kstrtoNat (dropPlus s)).isSome) :
    ∀ b ∈ s, IsNumberByte b := by
  have hbytes := bytes_of_kstrtoNat h
  rcases dropPlus_cases s with ⟨t, rfl, heq⟩ | ⟨-, heq⟩
  · rw [heq] at hbytes
    intro b hb
    rcases List.mem_cons.mp hb with rfl | hb
    · exact .inr (.inr (.inl rfl))
    · exact (hbytes b hb).imp_right .inl
  · rw [heq] at hbytes
    exact fun b hb => (hbytes b hb).imp_right .inl

theorem bytes_of_kstrtoul {s : Bytes} (h : (kstrtoul s).isSome) : ∀ b ∈ s, IsNumberByte b := by
  apply bytes_of_dropPlus
  unfold kstrtoul at h
  cases hn : kstrtoNat (dropPlus s) with
  | none => simp [hn] at h
  | some n => rfl

theorem bytes_of_kstrtoint {s : Bytes} (h : (kstrtoint s).isSome) : ∀ b ∈ s, IsNumberByte b := by
  cases s with
  | nil => simp
  | cons b t =>
      simp only [kstrtoint] at h
      split at h
      · next hb =>
          have ht : (kstrtoNat t).isSome := by
            cases hn : kstrtoNat t with
            | none => simp [hn] at h
            | some n => rfl
          intro c hc
          rcases List.mem_cons.mp hc with rfl | hc
          · exact .inr (.inr (.inr hb))
          · exact (bytes_of_kstrtoNat ht c hc).imp_right .inl
      · apply bytes_of_dropPlus
        cases hn : kstrtoNat (dropPlus (b :: t)) with
        | none => simp [hn] at h
        | some n => rfl

/-- A byte of a number is none of the bytes a message is cut at. -/
theorem IsNumberByte.ne {b c : UInt8} (h : IsNumberByte b) (hc : c = 0 ∨ c = 32 ∨ c = 44) :
    b ≠ c := by
  rintro rfl
  revert h
  unfold IsNumberByte
  rcases hc with rfl | rfl | rfl <;> decide

/-! ## Numbers that were printed -/

theorem kstrtoNat_decimal (n : Nat) : kstrtoNat (decimal n) = some n := by
  rw [kstrtoNat_of_digits (decimal_ne_nil n) fun b hb => isDigit_of_mem_decimal hb,
    decimalValue_decimal]

/-- No sign stands before the digits. -/
theorem decimal_cons (n : Nat) : ∃ b t, decimal n = b :: t ∧ b ≠ minus ∧ b ≠ plus := by
  obtain ⟨b, t, heq⟩ := List.exists_cons_of_ne_nil (decimal_ne_nil n)
  have hdigit : isDigit b = true := isDigit_of_mem_decimal (n := n) (by rw [heq]; exact .head t)
  refine ⟨b, t, heq, ?_, ?_⟩ <;>
    · rintro rfl
      revert hdigit
      decide

theorem dropPlus_decimal (n : Nat) : dropPlus (decimal n) = decimal n := by
  obtain ⟨b, t, heq, -, hb⟩ := decimal_cons n
  rw [heq, dropPlus, if_neg hb]

theorem kstrtoul_decimal (v : UInt64) : kstrtoul (decimal v.toNat) = some v := by
  unfold kstrtoul
  rw [dropPlus_decimal, kstrtoNat_decimal, Option.bind_some, if_pos v.toNat_lt,
    UInt64.ofNat_toNat]

theorem kstrtoint_decimal {n : Nat} (hn : n < 2 ^ 31) :
    kstrtoint (decimal n) = some (UInt32.ofNat n) := by
  have hdrop := dropPlus_decimal n
  obtain ⟨b, t, heq, hb, -⟩ := decimal_cons n
  unfold kstrtoint
  rw [heq] at hdrop ⊢
  simp only [if_neg hb, hdrop]
  rw [← heq, kstrtoNat_decimal, Option.bind_some, if_pos hn]

theorem kstrtoint_minus {n : Nat} (hn : n ≤ 2 ^ 31) :
    kstrtoint (minus :: decimal n) = some (0 - UInt32.ofNat n) := by
  simp only [kstrtoint, if_pos, kstrtoNat_decimal, Option.bind_some, if_pos hn]

/-- The two readings of an `int`. -/
theorem int32_toInt_cases (i : Int32) :
    (i.toInt = i.toUInt32.toNat ∧ i.toUInt32.toNat < 2 ^ 31) ∨
      (i.toInt = i.toUInt32.toNat - (2 ^ 32 : Nat) ∧ 2 ^ 31 ≤ i.toUInt32.toNat) := by
  have hcond : i.toInt = if 2 * i.toUInt32.toNat < 2 ^ 32 then (i.toUInt32.toNat : Int)
      else i.toUInt32.toNat - (2 ^ 32 : Nat) := BitVec.toInt_eq_toNat_cond i.toBitVec
  split at hcond
  · exact .inl ⟨hcond, by omega⟩
  · exact .inr ⟨hcond, by omega⟩

/-- **An `int` that was printed is read back**, as the unsigned number it is converted to. -/
theorem kstrtoint_decimalInt (i : Int32) : kstrtoint (decimalInt i.toInt) = some i.toUInt32 := by
  have hlt := i.toUInt32.toNat_lt
  unfold decimalInt
  rcases int32_toInt_cases i with ⟨heq, hpos⟩ | ⟨heq, hneg⟩
  · rw [if_neg (by omega), heq, Int.natAbs_natCast, kstrtoint_decimal hpos, UInt32.ofNat_toNat]
  · have habs : i.toInt.natAbs = 2 ^ 32 - i.toUInt32.toNat := by omega
    rw [if_pos (by omega), habs]
    show kstrtoint (minus :: _) = _
    rw [kstrtoint_minus (by omega)]
    congr 1
    apply UInt32.toNat_inj.mp
    rw [UInt32.toNat_sub, UInt32.toNat_ofNat']
    simp only [UInt32.toNat_zero]
    omega

/-! ## What can still become a number -/

/-- More digits after what is a number leave one, as far as the range goes; digits after what is
not make one only where no digit has been read. -/
theorem kstrtoNat_of_append {t e : Bytes} {n : Nat} (h : kstrtoNat (t ++ e) = some n) :
    t = [] ∨ ∃ m ≤ n, kstrtoNat t = some m := by
  by_cases ht : t = []
  · exact .inl ht
  right
  obtain ⟨hne, hdigits, hval⟩ := kstrtoNat_eq_some.mp h
  rcases List.eq_nil_or_concat e with rfl | ⟨e, last, rfl⟩
  · rw [List.append_nil] at h
    exact ⟨n, Nat.le_refl n, h⟩
  · have hchomp : ∃ e', chomp (t ++ e.concat last) = t ++ e' := by
      rw [List.concat_eq_append, ← List.append_assoc]
      unfold chomp
      split
      · exact ⟨e, by rw [List.dropLast_concat]⟩
      · exact ⟨e ++ [last], by rw [List.append_assoc]⟩
    obtain ⟨e', he'⟩ := hchomp
    rw [he'] at hdigits hval
    have ht' : ∀ b ∈ t, isDigit b := fun b hb => hdigits b (List.mem_append_left _ hb)
    refine ⟨decimalValue t, ?_, kstrtoNat_of_digits ht ht'⟩
    rw [← hval]
    exact decimalValue_le_append t e'

/-- `kstrtoul` accepts it, or digits are all that is missing. -/
def OpenUlong (t : Bytes) : Prop := (kstrtoul t).isSome ∨ t = [] ∨ t = [plus]

/-- `kstrtoint` accepts it, or digits are all that is missing. -/
def OpenInt (t : Bytes) : Prop := (kstrtoint t).isSome ∨ t = [] ∨ t = [plus] ∨ t = [minus]

/-- The same behind a plus sign. -/
theorem kstrtoNat_dropPlus_of_append {t e : Bytes} {n : Nat} (ht : t ≠ [])
    (h : kstrtoNat (dropPlus (t ++ e)) = some n) :
    t = [plus] ∨ ∃ m ≤ n, kstrtoNat (dropPlus t) = some m := by
  have hdrop : dropPlus (t ++ e) = dropPlus t ++ e := by
    cases t with
    | nil => exact absurd rfl ht
    | cons b t =>
        simp only [List.cons_append, dropPlus]
        split <;> rfl
  rw [hdrop] at h
  rcases kstrtoNat_of_append h with hnil | hm
  · -- a plus sign alone
    left
    rcases dropPlus_cases t with ⟨t', heq, hdrop'⟩ | ⟨-, hdrop'⟩
    · rw [heq, ← hdrop', hnil]
    · rw [hdrop'] at hnil
      exact absurd hnil ht
  · exact .inr hm

theorem openUlong_of_append {t e : Bytes} (h : (kstrtoul (t ++ e)).isSome) : OpenUlong t := by
  by_cases ht : t = []
  · exact .inr (.inl ht)
  obtain ⟨v, hv⟩ := Option.isSome_iff_exists.mp h
  obtain ⟨n, hn, hrange⟩ := Option.bind_eq_some_iff.mp hv
  have hlt : n < 2 ^ 64 := (Option.ite_none_right_eq_some.mp hrange).1
  rcases kstrtoNat_dropPlus_of_append ht hn with hplus | ⟨m, hm, hsome⟩
  · exact .inr (.inr hplus)
  · left
    rw [kstrtoul, hsome, Option.bind_some, if_pos (Nat.lt_of_le_of_lt hm hlt)]
    rfl

theorem openInt_of_append {t e : Bytes} (h : (kstrtoint (t ++ e)).isSome) : OpenInt t := by
  cases t with
  | nil => exact .inr (.inl rfl)
  | cons b t =>
      obtain ⟨v, hv⟩ := Option.isSome_iff_exists.mp h
      by_cases hb : b = minus
      · subst hb
        simp only [List.cons_append, kstrtoint, if_pos] at hv
        obtain ⟨n, hn, hrange⟩ := Option.bind_eq_some_iff.mp hv
        have hle : n ≤ 2 ^ 31 := (Option.ite_none_right_eq_some.mp hrange).1
        rcases kstrtoNat_of_append hn with rfl | ⟨m, hm, hsome⟩
        · exact .inr (.inr (.inr rfl))
        · left
          rw [kstrtoint, if_pos rfl, hsome, Option.bind_some, if_pos (Nat.le_trans hm hle)]
          rfl
      · simp only [List.cons_append, kstrtoint, if_neg hb] at hv
        obtain ⟨n, hn, hrange⟩ := Option.bind_eq_some_iff.mp hv
        have hlt : n < 2 ^ 31 := (Option.ite_none_right_eq_some.mp hrange).1
        rcases kstrtoNat_dropPlus_of_append (List.cons_ne_nil b t) hn with hplus | ⟨m, hm, hsome⟩
        · exact .inr (.inr (.inl hplus))
        · left
          rw [kstrtoint, if_neg hb, hsome, Option.bind_some, if_pos (Nat.lt_of_le_of_lt hm hlt)]
          rfl

/-- A zero is the digit that is missing. -/
theorem isDigit_zero : ∀ b ∈ ([48] : Bytes), isDigit b := by
  intro b hb
  rw [List.mem_singleton.mp hb]
  rfl

theorem kstrtoul_of_open {t : Bytes} (h : OpenUlong t) :
    ∃ e, (∀ b ∈ e, isDigit b) ∧ (kstrtoul (t ++ e)).isSome := by
  rcases h with h | rfl | rfl
  · exact ⟨[], by simp, by simpa using h⟩
  · exact ⟨[48], isDigit_zero, by decide⟩
  · exact ⟨[48], isDigit_zero, by decide⟩

theorem kstrtoint_of_open {t : Bytes} (h : OpenInt t) :
    ∃ e, (∀ b ∈ e, isDigit b) ∧ (kstrtoint (t ++ e)).isSome := by
  rcases h with h | rfl | rfl | rfl
  · exact ⟨[], by simp, by simpa using h⟩
  · exact ⟨[48], isDigit_zero, by decide⟩
  · exact ⟨[48], isDigit_zero, by decide⟩
  · exact ⟨[48], isDigit_zero, by decide⟩

/-! ## Fields -/

section
variable {L : Type}

/-- A field read by `kstrtoint` into a local that `set` writes. -/
def intField (error : String) (set : UInt32 → L → L) : RequestField L where
  store t := (kstrtoint t).map set
  error := error
  Open := OpenInt
  decidableOpen t := inferInstanceAs (Decidable (_ ∨ t = [] ∨ t = [plus] ∨ t = [minus]))
  noNul t h hmem := by
    rw [Option.isSome_map] at h
    exact (bytes_of_kstrtoint h 0 hmem).ne (.inl rfl) rfl
  open_of_store t e h := by
    rw [Option.isSome_map] at h
    exact openInt_of_append h
  store_of_open t h := by
    obtain ⟨e, he, hsome⟩ := kstrtoint_of_open h
    exact ⟨e, he, by rw [Option.isSome_map]; exact hsome⟩

/-- A field read by `kstrtoul` into a local that `set` writes. -/
def ulongField (error : String) (set : UInt64 → L → L) : RequestField L where
  store t := (kstrtoul t).map set
  error := error
  Open := OpenUlong
  decidableOpen t := inferInstanceAs (Decidable (_ ∨ t = [] ∨ t = [plus]))
  noNul t h hmem := by
    rw [Option.isSome_map] at h
    exact (bytes_of_kstrtoul h 0 hmem).ne (.inl rfl) rfl
  open_of_store t e h := by
    rw [Option.isSome_map] at h
    exact openUlong_of_append h
  store_of_open t h := by
    obtain ⟨e, he, hsome⟩ := kstrtoul_of_open h
    exact ⟨e, he, by rw [Option.isSome_map]; exact hsome⟩

end

end KernelDev.Wire
