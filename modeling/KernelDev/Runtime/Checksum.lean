/-
# KernelDev.Runtime.Checksum — the checksum of an IP header

`compute_ip_checksum` adds up the ten words of the header, with zero for the checksum, in 32 bits
and folds the carries in once. One fold leaves a carry when the two halves of the sum do not add up
to a word; the cast to `u16` then drops it.
-/
import KernelDev.Lib.Memory
import KernelDev.Lib.OnesComplement
import KernelDev.Lib.Sums

namespace KernelDev.Runtime

open KernelDev.Lib

/-- `struct iphdr`, as the processor reads its fields. -/
structure Iphdr where
  versionIhl : UInt8
  tos : UInt8
  totLen : UInt16
  id : UInt16
  fragOff : UInt16
  ttl : UInt8
  protocol : UInt8
  check : UInt16
  saddr : UInt32
  daddr : UInt32
  deriving DecidableEq, Repr

namespace Iphdr

variable (h : Iphdr)

/-- The bytes before the checksum. -/
def front : List UInt8 :=
  [h.versionIhl, h.tos] ++ (leBytes 2 h.totLen.toNat ++ (leBytes 2 h.id.toNat ++
    (leBytes 2 h.fragOff.toNat ++ [h.ttl, h.protocol])))

/-- The bytes behind it. -/
def back : List UInt8 := leBytes 4 h.saddr.toNat ++ leBytes 4 h.daddr.toNat

def bytes : List UInt8 := h.front ++ (leBytes 2 h.check.toNat ++ h.back)

/-- `size_of::<iphdr>()`. -/
def size : Nat := 20

/-- An assignment to the checksum. -/
def setCheck (c : UInt16) : Iphdr := { h with check := c }

end Iphdr

/-- `core::slice::from_raw_parts` at `*const u16`. -/
def fromRawParts : List UInt8 → Nat → List UInt16
  | b₀ :: b₁ :: bytes, n + 1 => UInt16.ofNat (readLe [b₀, b₁]) :: fromRawParts bytes n
  | _, _ => []

def Iphdr.words (h : Iphdr) : List UInt16 := fromRawParts h.bytes (Iphdr.size >>> 1)

/-- `compute_ip_checksum`: the checksum, and the header as it leaves it. -/
def computeIpChecksum (ipHeader : Iphdr) : UInt16 × Iphdr :=
  let ipHeader := ipHeader.setCheck 0
  let sum : UInt32 := ipHeader.words.foldl (fun sum word => sum + word.toUInt32) 0
  let sum : UInt32 := (sum &&& (0xffff : UInt32)) + (sum >>> 16)
  ((~~~sum).toUInt16, ipHeader)

/-! ## The specification -/

def sumOf (ws : List UInt16) : Nat := (ws.map UInt16.toNat).sum

/-- The one's-complement sum of some words. -/
def onesSum (ws : List UInt16) : Nat := foldCarries 65536 (sumOf ws)

/-- The complement of that sum. -/
def rfc1071 (ws : List UInt16) : UInt16 := ~~~UInt16.ofNat (onesSum ws)

/-! ## The words of a header -/

/-- The words but the checksum. -/
def Iphdr.otherWords (h : Iphdr) : List UInt16 := fromRawParts h.front 5 ++ fromRawParts h.back 4

theorem Iphdr.words_eq (h : Iphdr) :
    h.words = fromRawParts h.front 5 ++ h.check :: fromRawParts h.back 4 := by
  have hcheck : UInt16.ofNat (readLe (leBytes 2 h.check.toNat)) = h.check := by
    rw [readLe_leBytes h.check.toNat_lt, UInt16.ofNat_toNat]
  conv_rhs => rw [← hcheck]
  rfl

/-- The checksum adds to the other words. -/
theorem Iphdr.sumOf_words (h : Iphdr) : sumOf h.words = sumOf h.otherWords + h.check.toNat := by
  rw [sumOf, h.words_eq, sumOf, otherWords, List.map_append, List.map_append, List.map_cons,
    List.sum_append, List.sum_append, List.sum_cons]
  omega

theorem Iphdr.sumOf_setCheck_words (h : Iphdr) (c : UInt16) :
    sumOf (h.setCheck c).words = sumOf h.otherWords + c.toNat :=
  (h.setCheck c).sumOf_words

theorem Iphdr.sumOf_cleared_words (h : Iphdr) :
    sumOf (h.setCheck 0).words = sumOf h.otherWords := by
  rw [h.sumOf_setCheck_words, UInt16.toNat_zero, Nat.add_zero]

theorem sumOf_le (ws : List UInt16) : sumOf ws ≤ ws.length * 65535 := by
  unfold sumOf
  induction ws with
  | nil => exact Nat.le_refl 0
  | cons w ws ih =>
      have hw : w.toNat ≤ 65535 := Nat.le_of_lt_succ w.toNat_lt
      rw [List.map_cons, List.sum_cons, List.length_cons]
      omega

theorem Iphdr.otherWords_length (h : Iphdr) : h.otherWords.length = 9 := rfl

theorem Iphdr.sumOf_otherWords_le (h : Iphdr) : sumOf h.otherWords ≤ 9 * 65535 := by
  have hle := sumOf_le h.otherWords
  rwa [h.otherWords_length] at hle

/-! ## The checksum -/

/-- The two halves of the sum of the other words add up to a word. -/
def FoldsOnce (h : Iphdr) : Prop :=
  sumOf h.otherWords % 65536 + sumOf h.otherWords / 65536 < 65536

instance (h : Iphdr) : Decidable (FoldsOnce h) :=
  inferInstanceAs (Decidable (_ < _))

/-- The sum fits into 32 bits. -/
theorem toNat_foldl_words (h : Iphdr) :
    ((h.setCheck 0).words.foldl (fun sum w => sum + UInt16.toUInt32 w) (0 : UInt32)).toNat =
      sumOf h.otherWords := by
  have hle := h.sumOf_otherWords_le
  have hmap : ((h.setCheck 0).words.map fun w => (UInt16.toUInt32 w).toNat).sum =
      sumOf h.otherWords := by
    rw [← h.sumOf_cleared_words, sumOf]
    simp only [UInt16.toNat_toUInt32]
  have hfold := toNat_foldl_add UInt32.toNat uInt32_toNat_add UInt16.toUInt32 (h.setCheck 0).words 0
    (by rw [hmap]; exact Nat.lt_of_le_of_lt (Nat.add_le_add_left hle _) (by decide))
  rw [hfold, hmap]
  exact Nat.zero_add _

/-- **The code folds once, and keeps the low half.** -/
theorem computeIpChecksum_toNat (h : Iphdr) :
    (computeIpChecksum h).1.toNat =
      65535 - foldCarry 65536 (sumOf h.otherWords) % 65536 := by
  have hsum := toNat_foldl_words h
  have hle := h.sumOf_otherWords_le
  have hsize : UInt32.size = 4294967296 := rfl
  unfold computeIpChecksum
  simp only
  generalize (h.setCheck 0).words.foldl (fun sum w => sum + UInt16.toUInt32 w) (0 : UInt32) = sum
    at hsum
  have hlow : (sum &&& (0xffff : UInt32)).toNat = sumOf h.otherWords % 65536 := by
    rw [UInt32.toNat_and, hsum]
    exact Nat.and_two_pow_sub_one_eq_mod _ 16
  have hhigh : (sum >>> (16 : UInt32)).toNat = sumOf h.otherWords / 65536 := by
    rw [UInt32.toNat_shiftRight, hsum]
    exact Nat.shiftRight_eq_div_pow _ 16
  have hfold : ((sum &&& (0xffff : UInt32)) + (sum >>> 16)).toNat =
      foldCarry 65536 (sumOf h.otherWords) := by
    rw [uInt32_toNat_add, hlow, hhigh]
    · rfl
    · rw [hlow, hhigh, hsize]
      omega
  rw [UInt32.toNat_toUInt16, UInt32.toNat_not, hfold, hsize]
  unfold foldCarry
  omega

theorem rfc1071_toNat (ws : List UInt16) : (rfc1071 ws).toNat = 65535 - onesSum ws := by
  have hlt : onesSum ws < UInt16.size := (foldCarries_spec (by decide) (sumOf ws)).1
  rw [rfc1071, UInt16.toNat_not, UInt16.toNat_ofNat_of_lt' hlt]
  rfl

/-- A second fold takes in what the first has left. -/
theorem onesSum_cleared (h : Iphdr) :
    onesSum (h.setCheck 0).words =
      if foldCarry 65536 (sumOf h.otherWords) < 65536 then foldCarry 65536 (sumOf h.otherWords)
      else foldCarry 65536 (sumOf h.otherWords) - 65535 := by
  have hle := h.sumOf_otherWords_le
  have hlt : foldCarry 65536 (sumOf h.otherWords) ≤ 65543 := by
    unfold foldCarry
    omega
  rw [onesSum, h.sumOf_cleared_words, ← foldCarries_foldCarry (by decide)]
  split
  · next hfold => exact foldCarries_of_lt hfold
  · next hfold =>
      have hcarry : foldCarry 65536 (foldCarry 65536 (sumOf h.otherWords)) =
          foldCarry 65536 (sumOf h.otherWords) - 65535 := by
        rw [foldCarry]
        omega
      rw [← foldCarries_foldCarry (by decide), hcarry]
      apply foldCarries_of_lt
      omega

/-- **The header the caller stores the checksum in sums to all ones exactly when one fold is
enough, and exactly then the checksum is the complement of the sum.** -/
theorem computeIpChecksum_iff (h : Iphdr) :
    (onesSum ((computeIpChecksum h).2.setCheck (computeIpChecksum h).1).words = 0xffff ↔
        FoldsOnce h) ∧
      ((computeIpChecksum h).1 = rfc1071 (h.setCheck 0).words ↔ FoldsOnce h) := by
  have hret := computeIpChecksum_toNat h
  have hle := h.sumOf_otherWords_le
  have hfold : foldCarry 65536 (sumOf h.otherWords) =
      sumOf h.otherWords % 65536 + sumOf h.otherWords / 65536 := rfl
  constructor
  · have hwords : sumOf ((computeIpChecksum h).2.setCheck (computeIpChecksum h).1).words =
        sumOf h.otherWords + (computeIpChecksum h).1.toNat :=
      h.sumOf_setCheck_words (computeIpChecksum h).1
    have hones := foldCarries_eq_ones_iff (b := 65536) (by decide)
      (n := sumOf h.otherWords + (computeIpChecksum h).1.toNat)
    rw [onesSum, hwords]
    refine hones.trans ?_
    rw [hret, hfold]
    show _ ∧ 65535 ∣ _ ↔ _ < _
    omega
  · rw [← UInt16.toNat_inj, hret, rfc1071_toNat, onesSum_cleared, hfold]
    show _ ↔ _ < _
    split
    · next hlt => exact iff_of_true (by rw [Nat.mod_eq_of_lt hlt]) hlt
    · next hge =>
        refine iff_of_false ?_ hge
        omega

/-- An echo request from 192.168.0.1 to 192.168.0.199, with the identification 0xfa90. -/
def echoHeader : Iphdr :=
  ⟨0x45, 0, 0x5400, 0x90fa, 0, 64, 1, 0, 0x0100a8c0, 0xc700a8c0⟩

/-- The sum of its other words is 0x2ffff. The checksum is one too large. -/
theorem computeIpChecksum_fails :
    onesSum ((computeIpChecksum echoHeader).2.setCheck (computeIpChecksum echoHeader).1).words ≠
        0xffff ∧
      (computeIpChecksum echoHeader).1 ≠ rfc1071 (echoHeader.setCheck 0).words := by
  decide +kernel

end KernelDev.Runtime
