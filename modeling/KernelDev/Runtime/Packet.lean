/-
# KernelDev.Runtime.Packet — the contexts of packet programs, their helpers and header accessors

A packet program gets a context that the runtime fills in from a kernel object: `xdp_md` from an
`xdp_buff`, `__sk_buff` from an `sk_buff`. A context copies the length of the packet when it is made
and keeps a reference `kptr` to the kernel object. An accessor forms a slice from the pointer in the
kernel object and the length in the context, and cuts the header out of it.

Addresses and `usize` values are numbers. A kernel helper may do anything to the kernel object; what
it returns and what it leaves is a parameter of the call.
-/
import Mathlib.Data.List.Basic

namespace KernelDev.Runtime

/-! ## Slices and headers -/

/-- A `&mut [c_uchar]`: the bytes from `ptr` on. -/
structure Slice where
  ptr : Nat
  len : Nat
  deriving DecidableEq, Repr

/-- Every byte of `h` is one of `s`. -/
def Slice.Inside (h s : Slice) : Prop := s.ptr ≤ h.ptr ∧ h.ptr + h.len ≤ s.ptr + s.len

instance (h s : Slice) : Decidable (h.Inside s) :=
  inferInstanceAs (Decidable (s.ptr ≤ h.ptr ∧ h.ptr + h.len ≤ s.ptr + s.len))

/-- `&mut s[b..e]`; `none` is a panic. -/
def Slice.range (s : Slice) (b e : Nat) : Option Slice :=
  if b ≤ e ∧ e ≤ s.len then some ⟨s.ptr + b, e - b⟩ else none

/-- `convert_slice_to_struct_mut::<T>` for a `T` of `size` bytes; `none` is the failed assertion. -/
def convertSliceToStructMut (size : Nat) (s : Slice) : Option Slice :=
  if size ≤ s.len then some ⟨s.ptr, size⟩ else none

/-- A structure of `size` bytes at offset `b` of the bytes that start at `data` and are taken to be
`len` many. -/
def headerAt (data len b size : Nat) : Option Slice :=
  ((Slice.mk data len).range b (b + size)).bind (convertSliceToStructMut size)

theorem headerAt_eq (data len b size : Nat) :
    headerAt data len b size = if b + size ≤ len then some ⟨data + b, size⟩ else none := by
  unfold headerAt Slice.range convertSliceToStructMut
  by_cases h : b + size ≤ len
  · simp [h]
  · simp [h]

/-- **An accessor stays inside the packet exactly when the length it is given covers the header only
if the packet does.** -/
theorem headerAt_inside_iff {data : Nat} {packet : Slice} (hdata : packet.ptr = data)
    (len b size : Nat) :
    (∀ h, headerAt data len b size = some h → h.Inside packet) ↔
      (b + size ≤ len → b + size ≤ packet.len) := by
  rw [headerAt_eq]
  constructor
  · intro hall hlen
    have hin : (Slice.mk (data + b) size).Inside packet := hall _ (if_pos hlen)
    have hend : data + b + size ≤ packet.ptr + packet.len := hin.2
    omega
  · intro hlen h hh
    split at hh
    · next hfits =>
        obtain rfl := Option.some.inj hh
        have hcover := hlen hfits
        constructor
        · show packet.ptr ≤ data + b
          omega
        · show data + b + size ≤ packet.ptr + packet.len
          omega
    · cases hh

/-- `size_of` of the four header structures. -/
def ethhdrSize : Nat := 14
def iphdrSize : Nat := 20
def udphdrSize : Nat := 8
def tcphdrSize : Nat := 20

/-! ## xdp -/

/-- What the runtime reads of a `struct xdp_buff`. -/
structure XdpBuff where
  data : Nat
  dataEnd : Nat
  dataMeta : Nat
  rxq : Nat
  /-- `rxq->queue_index`. -/
  rxqQueueIndex : UInt32
  data_le : data ≤ dataEnd

/-- `[data, data_end)`. -/
def XdpBuff.packet (k : XdpBuff) : Slice := ⟨k.data, k.dataEnd - k.data⟩

/-- The public fields of `xdp_md`. -/
structure XdpPublic where
  dataSlice : Slice
  dataLength : Nat
  dataMeta : Nat
  ingressIfindex : UInt32
  rxQeueuIndex : UInt32
  egressIfindex : UInt32

/-- `xdp_md`, with the kernel object behind `kptr` as it is now. -/
structure XdpMd extends XdpPublic where
  data : Nat
  dataEnd : Nat
  kptr : XdpBuff

namespace Xdp

/-- Read everything from the kernel object, as `convert_ctx` and a successful
`bpf_xdp_adjust_tail` do. -/
def convertCtx (k : XdpBuff) : XdpMd where
  data := k.data
  dataEnd := k.dataEnd
  dataSlice := ⟨k.data, k.dataEnd - k.data⟩
  dataLength := k.dataEnd - k.data
  dataMeta := k.dataMeta
  ingressIfindex := UInt32.ofNat k.rxq
  rxQeueuIndex := k.rxqQueueIndex
  egressIfindex := 0
  kptr := k

def ethHeader (ctx : XdpMd) : Option Slice := headerAt ctx.kptr.data ctx.dataLength 0 ethhdrSize

/-- `bpf_xdp_adjust_tail`; `ret` and `k` are what the kernel returns and leaves behind. -/
def bpfXdpAdjustTail (ctx : XdpMd) (ret : Int) (k : XdpBuff) : Int × XdpMd :=
  if ret ≠ 0 then (ret, { ctx with kptr := k }) else (0, convertCtx k)

/-- The packet as it is now. -/
def dataSliceMut (ctx : XdpMd) : Slice := ⟨ctx.kptr.data, ctx.kptr.dataEnd - ctx.kptr.data⟩

end Xdp

/-! ## sched_cls -/

/-- What the runtime reads of a `struct sk_buff`. -/
structure SkBuff where
  data : Nat
  len : UInt32
  protocol : UInt16
  priority : UInt32
  hash : UInt32
  queueMapping : UInt16
  vlanTci : UInt16
  vlanProto : UInt16
  tcIndex : UInt16
  /-- The address of the array `cb`. -/
  cb : Nat
  sk : Nat
  /-- `dev->ifindex`. -/
  devIfindex : Int

/-- `[data, data + len)`. -/
def SkBuff.packet (k : SkBuff) : Slice := ⟨k.data, k.len.toNat⟩

/-- The public fields of `__sk_buff`. -/
structure SkbPublic where
  len : UInt32
  protocol : UInt16
  priority : UInt32
  ingressIfindex : UInt32
  ifindex : UInt32
  hash : UInt32
  mark : UInt32
  pktType : UInt32
  queueMapping : UInt16
  vlanPresent : UInt32
  vlanTci : UInt16
  vlanProto : UInt16
  cb : Nat
  tcClassid : UInt32
  tcIndex : UInt16
  napiId : UInt32
  data : UInt32
  dataMeta : UInt32
  dataSlice : Slice

/-- `__sk_buff`, with the kernel object behind `kptr` as it is now. -/
structure Skb extends SkbPublic where
  sk : Nat
  kptr : SkBuff

namespace SchedCls

def convertCtx (k : SkBuff) : Skb where
  len := k.len
  protocol := k.protocol
  priority := k.priority
  ingressIfindex := 0
  ifindex := UInt32.ofInt k.devIfindex
  hash := k.hash
  mark := 0
  pktType := 0
  queueMapping := k.queueMapping
  vlanPresent := 0
  vlanTci := k.vlanTci
  vlanProto := k.vlanProto
  cb := k.cb
  tcClassid := 0
  tcIndex := k.tcIndex
  napiId := 0
  sk := k.sk
  data := UInt32.ofNat k.data
  dataSlice := ⟨k.data, k.len.toNat⟩
  dataMeta := 0
  kptr := k

def ethHeader (skb : Skb) : Option Slice := headerAt skb.kptr.data skb.len.toNat 0 ethhdrSize

def ipHeader (skb : Skb) : Option Slice := headerAt skb.kptr.data skb.len.toNat ethhdrSize iphdrSize

def udpHeader (skb : Skb) : Option Slice :=
  headerAt skb.kptr.data skb.len.toNat (ethhdrSize + iphdrSize) udphdrSize

def tcpHeader (skb : Skb) : Option Slice :=
  headerAt skb.kptr.data skb.len.toNat (ethhdrSize + iphdrSize) tcphdrSize

/-- `bpf_clone_redirect`; `ret` and `k` are what the kernel returns and leaves behind. `len` is not
read again. -/
def bpfCloneRedirect (skb : Skb) (ret : Int) (k : SkBuff) : Int × Skb :=
  if ret ≠ 0 then (ret, { skb with kptr := k })
  else
    (0, { skb with
      kptr := k
      data := UInt32.ofNat k.data
      dataSlice := ⟨k.data, k.len.toNat⟩ })

/-- The packet as it is now. -/
def dataSliceMut (skb : Skb) : Slice := ⟨skb.kptr.data, skb.kptr.len.toNat⟩

end SchedCls

end KernelDev.Runtime
