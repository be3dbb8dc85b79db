/-
# KernelDev.Lib.Ipv4 — where the headers of an IPv4 packet are

An untagged Ethernet frame has its type in the bytes 12 and 13 and what it carries from byte 14 on.
An IPv4 header begins with its version and its own length, in words of four bytes; behind the 20
bytes that every header has there may be options. The header of the protocol it carries follows at
its end, which is not at a fixed place.
-/
import Mathlib.Data.Nat.Notation

namespace KernelDev.Lib

/-! ## Fields -/

/-- A byte of a packet, 0 behind its end. -/
def byteAt (p : List UInt8) (i : Nat) : UInt8 := p.getD i 0

/-- Two bytes, the more significant first. -/
def be16 (p : List UInt8) (i : Nat) : Nat := (byteAt p i).toNat * 256 + (byteAt p (i + 1)).toNat

namespace Ipv4

def etherType (p : List UInt8) : Nat := be16 p 12

def version (p : List UInt8) : Nat := (byteAt p 14).toNat / 16

/-- The length of the header in words of four bytes. -/
def ihl (p : List UInt8) : Nat := (byteAt p 14).toNat % 16

def protocol (p : List UInt8) : UInt8 := byteAt p 23

/-- "More fragments" and the fragment offset. -/
def fragment (p : List UInt8) : Nat := be16 p 20 % 0x4000

/-- Where the header ends. -/
def transportAt (p : List UInt8) : Nat := 14 + 4 * ihl p

/-- The frame carries an IPv4 header of a legal length. -/
structure Header (p : List UInt8) : Prop where
  length : 34 ≤ p.length
  etherType : etherType p = 0x0800
  version : version p = 4
  ihl : 5 ≤ ihl p

/-- Behind the IPv4 header there is a whole header of `size` bytes of a protocol. -/
structure Carries (proto : UInt8) (size : Nat) (p : List UInt8) : Prop where
  header : Header p
  protocol : protocol p = proto
  length : transportAt p + size ≤ p.length

instance (p : List UInt8) : Decidable (Header p) :=
  decidable_of_iff (34 ≤ p.length ∧ etherType p = 0x0800 ∧ version p = 4 ∧ 5 ≤ ihl p)
    ⟨fun h => ⟨h.1, h.2.1, h.2.2.1, h.2.2.2⟩, fun h => ⟨h.length, h.etherType, h.version, h.ihl⟩⟩

instance (proto : UInt8) (size : Nat) (p : List UInt8) : Decidable (Carries proto size p) :=
  decidable_of_iff (Header p ∧ protocol p = proto ∧ transportAt p + size ≤ p.length)
    ⟨fun h => ⟨h.1, h.2.1, h.2.2⟩, fun h => ⟨h.header, h.protocol, h.length⟩⟩

variable {p : List UInt8}

/-- No header begins before byte 34. -/
theorem Header.le_transportAt (h : Header p) : 34 ≤ transportAt p := by
  have hihl := h.ihl
  unfold transportAt
  omega

/-- **A transport header is at byte 34 exactly when there are no options.** -/
theorem transportAt_eq_iff : transportAt p = 34 ↔ ihl p = 5 := by
  unfold transportAt
  omega

end Ipv4

end KernelDev.Lib
