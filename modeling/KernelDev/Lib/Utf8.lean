/-
# KernelDev.Lib.Utf8 — the order of strings and the order of their bytes

UTF-8 encodes a character in one to four bytes. The first byte grows with their number, and among
encodings of one length the bytes are the digits of the character's value, the most significant
first: strings are in the order of their bytes.
-/
import Mathlib.Data.Char
import Mathlib.Data.List.Lex

namespace KernelDev.Lib

/-! ## One character -/

/-- The encoding of a scalar value. -/
def codeBytes (n : Nat) : List UInt8 :=
  if n ≤ 0x7f then [UInt8.ofNat n]
  else if n ≤ 0x7ff then [UInt8.ofNat (n / 64 % 0x20 + 0xc0), UInt8.ofNat (n % 0x40 + 0x80)]
  else if n ≤ 0xffff then
    [UInt8.ofNat (n / 4096 % 0x10 + 0xe0), UInt8.ofNat (n / 64 % 0x40 + 0x80),
      UInt8.ofNat (n % 0x40 + 0x80)]
  else
    [UInt8.ofNat (n / 262144 % 0x08 + 0xf0), UInt8.ofNat (n / 4096 % 0x40 + 0x80),
      UInt8.ofNat (n / 64 % 0x40 + 0x80), UInt8.ofNat (n % 0x40 + 0x80)]

theorem utf8EncodeChar_eq (c : Char) : String.utf8EncodeChar c = codeBytes c.val.toNat := rfl

theorem char_toNat_lt (c : Char) : c.val.toNat < 0x110000 := by
  rcases c.valid with h | h
  · have hlow : c.val.toNat < 0xd800 := h
    omega
  · exact h.2

theorem byte_cons_lt {x y : Nat} {l m : List UInt8} (hy : y < 256) (hle : x ≤ y)
    (h : x = y → l < m) : UInt8.ofNat x :: l < UInt8.ofNat y :: m := by
  rw [List.cons_lt_cons_iff]
  rcases Nat.lt_or_eq_of_le hle with hlt | heq
  · left
    rw [UInt8.lt_iff_toNat_lt, UInt8.toNat_ofNat_of_lt' (Nat.lt_trans hlt hy),
      UInt8.toNat_ofNat_of_lt' hy]
    exact hlt
  · exact .inr ⟨congrArg UInt8.ofNat heq, h heq⟩

/-- **A smaller value is encoded smaller, whatever comes behind it.** -/
theorem codeBytes_lt {n m : Nat} (h : n < m) (hm : m < 0x110000) (xs ys : List UInt8) :
    codeBytes n ++ xs < codeBytes m ++ ys := by
  unfold codeBytes
  split_ifs
  -- the smaller value has one byte
  · exact byte_cons_lt (by omega) (by omega) fun _ => by omega
  · exact byte_cons_lt (by omega) (by omega) fun _ => by omega
  · exact byte_cons_lt (by omega) (by omega) fun _ => by omega
  · exact byte_cons_lt (by omega) (by omega) fun _ => by omega
  -- it has two
  · omega
  · exact byte_cons_lt (by omega) (by omega) fun _ =>
      byte_cons_lt (by omega) (by omega) fun _ => by omega
  · exact byte_cons_lt (by omega) (by omega) fun _ => by omega
  · exact byte_cons_lt (by omega) (by omega) fun _ => by omega
  -- it has three
  · omega
  · omega
  · exact byte_cons_lt (by omega) (by omega) fun _ =>
      byte_cons_lt (by omega) (by omega) fun _ =>
        byte_cons_lt (by omega) (by omega) fun _ => by omega
  · exact byte_cons_lt (by omega) (by omega) fun _ => by omega
  -- it has four
  · omega
  · omega
  · omega
  · exact byte_cons_lt (by omega) (by omega) fun _ =>
      byte_cons_lt (by omega) (by omega) fun _ =>
        byte_cons_lt (by omega) (by omega) fun _ =>
          byte_cons_lt (by omega) (by omega) fun _ => by omega

/-! ## Strings -/

/-- The bytes of a string. -/
def stringBytes (s : String) : List UInt8 := s.toByteArray.data.toList

/-- The bytes of some characters. -/
def utf8 (cs : List Char) : List UInt8 := cs.flatMap String.utf8EncodeChar

theorem stringBytes_eq (s : String) : stringBytes s = utf8 s.toList := by
  rw [stringBytes, ← String.utf8Encode_toList]
  simp [List.utf8Encode, utf8]

theorem utf8_cons (c : Char) (cs : List Char) :
    utf8 (c :: cs) = String.utf8EncodeChar c ++ utf8 cs := rfl

theorem utf8_append (cs ds : List Char) : utf8 (cs ++ ds) = utf8 cs ++ utf8 ds :=
  List.flatMap_append

theorem utf8_lt {cs ds : List Char} (h : cs < ds) : utf8 cs < utf8 ds := by
  induction ds generalizing cs with
  | nil => exact absurd h (List.not_lt_nil cs)
  | cons d ds ih =>
      rw [utf8_cons]
      cases cs with
      | nil =>
          obtain ⟨b, bs, hbs⟩ := List.exists_cons_of_ne_nil (String.utf8EncodeChar_ne_nil (c := d))
          rw [hbs]
          exact List.nil_lt_cons b _
      | cons c cs =>
          rw [utf8_cons]
          rcases List.cons_lt_cons_iff.mp h with hlt | ⟨rfl, hlt⟩
          · rw [utf8EncodeChar_eq, utf8EncodeChar_eq]
            exact codeBytes_lt hlt (char_toNat_lt d) _ _
          · exact List.append_left_lt (ih hlt)

/-- **The order of strings is the order of their bytes.** -/
theorem utf8_lt_iff {cs ds : List Char} : utf8 cs < utf8 ds ↔ cs < ds := by
  constructor
  · intro h
    rcases lt_trichotomy cs ds with hlt | rfl | hgt
    · exact hlt
    · exact absurd h (List.lt_irrefl _)
    · exact absurd h (List.lt_asymm (utf8_lt hgt))
  · exact utf8_lt

theorem utf8_inj {cs ds : List Char} : utf8 cs = utf8 ds ↔ cs = ds := by
  constructor
  · intro h
    rcases lt_trichotomy cs ds with hlt | heq | hgt
    · exact absurd (h ▸ utf8_lt hlt) (List.lt_irrefl _)
    · exact heq
    · exact absurd (h ▸ utf8_lt hgt) (List.lt_irrefl _)
  · exact congrArg utf8

end KernelDev.Lib
