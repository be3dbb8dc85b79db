/-
# KernelDev.Runtime.Headers — the header accessors and the headers of a packet

`ip_header` cuts 20 bytes out of the packet at byte 14, `tcp_header` and `udp_header` a structure
behind these. That is where the transport header is when the IP header has no options. The bytes
they cut are the packet's if they are in the linear area.
-/
import KernelDev.Lib.Ipv4
import KernelDev.Runtime.Coherence

namespace KernelDev.Runtime

open KernelDev.Lib KernelDev.Lib.Ipv4

namespace SchedCls

/-- A packet with its bytes: those of the linear area in memory, and those of the fragments. -/
structure PacketBuff extends PagedSkBuff where
  memory : Nat → UInt8
  paged : List UInt8
  paged_length : paged.length = dataLen.toNat

/-- The bytes of the packet. -/
def PacketBuff.bytes (k : PacketBuff) : List UInt8 :=
  (List.range k.linear.len).map (fun i => k.memory (k.data + i)) ++ k.paged

theorem PacketBuff.bytes_length (k : PacketBuff) : k.bytes.length = k.len.toNat := by
  have hle : k.dataLen.toNat ≤ k.len.toNat := UInt32.le_iff_toNat_le.mp k.dataLen_le
  rw [bytes, List.length_append, List.length_map, List.length_range, k.paged_length]
  exact Nat.sub_add_cancel hle

/-! ## What the accessors are for -/

/-- A header is returned where it is: `size` bytes at offset `b`, all of them in the linear area. -/
def ReturnsAt (k : PacketBuff) (b size : Nat) (r : Option Slice) : Prop :=
  r = some ⟨k.data + b, size⟩ ∧ (Slice.mk (k.data + b) size).Inside k.linear

instance (k : PacketBuff) (b size : Nat) (r : Option Slice) : Decidable (ReturnsAt k b size r) :=
  inferInstanceAs (Decidable (_ ∧ _))

/-- The packet carries TCP or UDP, with a whole header. -/
def CarriesTransport (p : List UInt8) : Prop :=
  Carries 6 tcphdrSize p ∨ Carries 17 udphdrSize p

instance (p : List UInt8) : Decidable (CarriesTransport p) :=
  inferInstanceAs (Decidable (_ ∨ _))

/-- `ip_header` returns the IP header, or panics on a packet that is too short for one. -/
structure IpExact (k : PacketBuff) (r : Option Slice) : Prop where
  returns : CarriesTransport k.bytes → ReturnsAt k ethhdrSize iphdrSize r
  panics : k.bytes.length < ethhdrSize + iphdrSize → r = none

/-- The packet ends before a transport header of `size` bytes does; without an IPv4 header, the
least such header. -/
def TooShort (size : Nat) (p : List UInt8) : Prop :=
  p.length < (if Header p then transportAt p else ethhdrSize + iphdrSize) + size

/-- An accessor returns the header of `proto`, or panics on a packet that is too short for one. -/
structure TransportExact (proto : UInt8) (size : Nat) (k : PacketBuff) (r : Option Slice) :
    Prop where
  returns : Carries proto size k.bytes → ReturnsAt k (transportAt k.bytes) size r
  panics : TooShort size k.bytes → r = none

/-! ## When they do it -/

/-- The packets a transport accessor is right about: shorter than a header without options, not
IPv4, with a header right behind the 20 bytes and in the linear area, or with options and a whole
header of another protocol. -/
def Answered (proto : UInt8) (size : Nat) (k : PacketBuff) : Prop :=
  k.bytes.length < 34 + size ∨ ¬ Header k.bytes ∨
    (ihl k.bytes = 5 ∧ (protocol k.bytes = proto → 34 + size ≤ k.linear.len)) ∨
    (5 < ihl k.bytes ∧ protocol k.bytes ≠ proto ∧ transportAt k.bytes + size ≤ k.bytes.length)

instance (proto : UInt8) (size : Nat) (k : PacketBuff) : Decidable (Answered proto size k) :=
  inferInstanceAs (Decidable (_ ∨ _))

variable {k : PacketBuff} {proto : UInt8} {b size : Nat}

/-- An accessor returns a header where it is exactly when the linear area covers it. -/
theorem returnsAt_iff (hlen : b + size ≤ k.bytes.length) :
    ReturnsAt k b size (headerAt k.data k.len.toNat b size) ↔ b + size ≤ k.linear.len := by
  rw [PacketBuff.bytes_length] at hlen
  unfold ReturnsAt
  rw [headerAt_eq, if_pos hlen, and_iff_right rfl]
  show k.data ≤ k.data + b ∧ k.data + b + size ≤ k.data + k.linear.len ↔ _
  omega

/-- **`ip_header` is right exactly when the IP header of a TCP or UDP packet is in the linear
area.** -/
theorem ipExact_iff (k : PacketBuff) :
    IpExact k (ipHeader (convertCtx k.toSkBuff)) ↔
      (CarriesTransport k.bytes → 34 ≤ k.linear.len) := by
  have hheader : CarriesTransport k.bytes → Header k.bytes := by
    rintro (h | h)
    · exact h.header
    · exact h.header
  show IpExact k (headerAt k.data k.len.toNat 14 20) ↔ _
  constructor
  · intro h hcarries
    exact (returnsAt_iff (hheader hcarries).length).mp (h.returns hcarries)
  · refine fun h => ⟨fun hcarries => ?_, fun hshort => ?_⟩
    · exact (returnsAt_iff (hheader hcarries).length).mpr (h hcarries)
    · rw [PacketBuff.bytes_length] at hshort
      rw [headerAt_eq]
      exact if_neg (Nat.not_le.mpr hshort)

/-- A structure behind an IP header without options is not one behind options. -/
theorem not_returnsAt {r : Option Slice} {c : Nat} (hr : r = some ⟨k.data + b, size⟩)
    (hne : b ≠ c) : ¬ ReturnsAt k c size r := by
  rintro ⟨hc, -⟩
  rw [hr] at hc
  exact hne (Nat.add_left_cancel (congrArg Slice.ptr (Option.some.inj hc)))

section Long

/-! An IPv4 packet that is long enough for what the accessor cuts out. -/

variable (hheader : Header k.bytes) (hlong : 34 + size ≤ k.bytes.length)
include hheader hlong

/-- Without options the transport header is what is cut out. -/
theorem transportExact_of_ihl_eq (hihl : ihl k.bytes = 5) :
    TransportExact proto size k (headerAt k.data k.len.toNat 34 size) ↔
      (protocol k.bytes = proto → 34 + size ≤ k.linear.len) := by
  have hat : transportAt k.bytes = 34 := transportAt_eq_iff.mpr hihl
  constructor
  · intro h hproto
    have hreturns := h.returns ⟨hheader, hproto, hat ▸ hlong⟩
    rw [hat] at hreturns
    exact (returnsAt_iff hlong).mp hreturns
  · refine fun h => ⟨fun hcarries => ?_, fun hshort => ?_⟩
    · rw [hat]
      exact (returnsAt_iff hlong).mpr (h hcarries.protocol)
    · unfold TooShort at hshort
      rw [if_pos hheader, hat] at hshort
      exact absurd hlong (Nat.not_le.mpr hshort)

/-- Behind options it is not. -/
theorem transportExact_of_options (hihl : 5 < ihl k.bytes) :
    TransportExact proto size k (headerAt k.data k.len.toNat 34 size) ↔
      protocol k.bytes ≠ proto ∧ transportAt k.bytes + size ≤ k.bytes.length := by
  have hsome : headerAt k.data k.len.toNat 34 size = some ⟨k.data + 34, size⟩ := by
    rw [headerAt_eq, ← k.bytes_length, if_pos hlong]
  have hat : 34 ≠ transportAt k.bytes := fun h => Nat.ne_of_gt hihl (transportAt_eq_iff.mp h.symm)
  constructor
  · intro h
    have hwhole : transportAt k.bytes + size ≤ k.bytes.length := by
      by_contra hshort
      have hpanics := h.panics (by
        unfold TooShort
        rw [if_pos hheader]
        exact Nat.not_le.mp hshort)
      rw [hsome] at hpanics
      cases hpanics
    exact ⟨fun hproto => not_returnsAt hsome hat (h.returns ⟨hheader, hproto, hwhole⟩), hwhole⟩
  · rintro ⟨hproto, hwhole⟩
    refine ⟨fun hcarries => absurd hcarries.protocol hproto, fun hshort => ?_⟩
    unfold TooShort at hshort
    rw [if_pos hheader] at hshort
    exact absurd hwhole (Nat.not_le.mpr hshort)

end Long

/-- **A transport accessor is right exactly about these packets.** -/
theorem transportExact_iff (proto : UInt8) (size : Nat) (k : PacketBuff) :
    TransportExact proto size k (headerAt k.data k.len.toNat 34 size) ↔ Answered proto size k := by
  unfold Answered
  by_cases hshort : k.bytes.length < 34 + size
  · -- nothing is cut out, and there is no header
    have hnone : headerAt k.data k.len.toNat 34 size = none := by
      rw [headerAt_eq, ← k.bytes_length, if_neg (Nat.not_le.mpr hshort)]
    refine iff_of_true ⟨fun h => ?_, fun _ => hnone⟩ (.inl hshort)
    have hend := h.length
    have hle := h.header.le_transportAt
    omega
  have hlong := Nat.not_lt.mp hshort
  rw [or_iff_right hshort]
  by_cases hheader : Header k.bytes
  · rw [or_iff_right (not_not.mpr hheader)]
    rcases Nat.eq_or_lt_of_le hheader.ihl with hihl | hihl
    · rw [transportExact_of_ihl_eq hheader hlong hihl.symm, ← hihl, and_iff_right rfl,
        or_iff_left fun h => Nat.lt_irrefl 5 h.1]
    · rw [transportExact_of_options hheader hlong hihl, and_iff_right hihl,
        or_iff_right fun h => Nat.ne_of_gt hihl h.1]
  · have hnot : ¬ TooShort size k.bytes := by
      unfold TooShort
      rw [if_neg hheader]
      exact hshort
    exact iff_of_true ⟨fun h => absurd h.header hheader, fun h => absurd h hnot⟩ (.inl hheader)

/-- **The accessors return the headers of the packet, and panic on what is too short for them,
exactly on these packets.** -/
theorem headers_exact_iff (k : PacketBuff) :
    (IpExact k (ipHeader (convertCtx k.toSkBuff)) ↔
        (CarriesTransport k.bytes → 34 ≤ k.linear.len)) ∧
      (TransportExact 6 tcphdrSize k (tcpHeader (convertCtx k.toSkBuff)) ↔
        Answered 6 tcphdrSize k) ∧
      (TransportExact 17 udphdrSize k (udpHeader (convertCtx k.toSkBuff)) ↔
        Answered 17 udphdrSize k) :=
  ⟨ipExact_iff k, transportExact_iff 6 tcphdrSize k, transportExact_iff 17 udphdrSize k⟩

/-- A linear packet of these bytes. -/
def packetOf (p : List UInt8) : PacketBuff :=
  { pagedOf (UInt32.ofNat p.length) 0 (UInt32.le_iff_toNat_le.mpr (Nat.zero_le _)) with
    memory := fun a => p.getD (a - 4096) 0
    paged := []
    paged_length := rfl }

/-- TCP behind an IP header with one word of options. -/
def tcpWithOptions : List UInt8 :=
  List.replicate 12 0 ++ [8, 0, 0x46] ++ List.replicate 8 0 ++ [6] ++ List.replicate 34 0

/-- `tcp_header` returns the options and 16 bytes of the TCP header. -/
theorem headers_exact_fails :
    Carries 6 tcphdrSize (packetOf tcpWithOptions).bytes ∧
      tcpHeader (convertCtx (packetOf tcpWithOptions).toSkBuff) = some ⟨4096 + 34, 20⟩ ∧
      transportAt (packetOf tcpWithOptions).bytes = 38 ∧
      ¬ ∀ k : PacketBuff, TransportExact 6 tcphdrSize k (tcpHeader (convertCtx k.toSkBuff)) := by
  refine ⟨by decide, by decide, by decide, fun hall => ?_⟩
  have hanswered := (transportExact_iff 6 tcphdrSize _).mp (hall (packetOf tcpWithOptions))
  exact absurd hanswered (by decide)

end SchedCls

end KernelDev.Runtime
