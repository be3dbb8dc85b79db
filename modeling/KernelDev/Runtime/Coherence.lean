/-
# KernelDev.Runtime.Coherence — the cached view of a packet and the packet

A context caches the extent of its packet: `data_slice`, and for the header accessors the length
field (`len` of `__sk_buff`, `data_length` of `xdp_md`). `data_slice_mut` caches nothing. What these
stand for is the part of the packet that can be accessed directly. For an `xdp_buff` that is
`[data, data_end)`; an `sk_buff` counts the bytes of its paged fragments in `len` too, and its
linear area is `data_len` bytes shorter.

A helper call may leave any kernel object, whatever it returns. The programs considered make helper
calls and do not assign the fields of the context.
-/
import KernelDev.Runtime.Confinement

namespace KernelDev.Runtime

open KernelDev.Lib

/-! ## xdp -/

namespace Xdp

/-- The cached fields and `data_slice_mut` are the packet as it is now. -/
structure Coherent (ctx : XdpMd) : Prop where
  dataSlice : ctx.dataSlice = ctx.kptr.packet
  dataLength : ctx.dataLength = ctx.kptr.packet.len
  dataSliceMut : dataSliceMut ctx = ctx.kptr.packet

/-- A call of `bpf_xdp_adjust_tail`, with what the kernel answers. -/
structure HelperCall where
  offset : Int
  ret : Int
  k : XdpBuff

def helperStep (c : HelperCall) (ctx : XdpMd) : Option XdpMd :=
  some (bpfXdpAdjustTail ctx c.ret c.k).2

/-- A call that reports an error has left the extent of the packet alone. -/
def Unmoved (c : HelperCall) (k : XdpBuff) : Prop := c.ret ≠ 0 → c.k.packet = k.packet

instance (c : HelperCall) (k : XdpBuff) : Decidable (Unmoved c k) :=
  inferInstanceAs (Decidable (c.ret ≠ 0 → c.k.packet = k.packet))

theorem coherent_convertCtx (k : XdpBuff) : Coherent (convertCtx k) := ⟨rfl, rfl, rfl⟩

theorem coherent_helper_iff {ctx post : XdpMd} {c : HelperCall} (h : Coherent ctx)
    (hx : helperStep c ctx = some post) : Coherent post ↔ Unmoved c ctx.kptr := by
  obtain rfl := Option.some.inj hx
  by_cases hret : c.ret = 0
  · have hpost : (bpfXdpAdjustTail ctx c.ret c.k).2 = convertCtx c.k := by
      simp [bpfXdpAdjustTail, hret]
    rw [hpost]
    exact iff_of_true (coherent_convertCtx c.k) fun hne => absurd hret hne
  · have hpost : (bpfXdpAdjustTail ctx c.ret c.k).2 = { ctx with kptr := c.k } := by
      simp [bpfXdpAdjustTail, hret]
    rw [hpost]
    constructor
    · rintro hc -
      exact hc.dataSlice.symm.trans h.dataSlice
    · intro hunmoved
      have hpacket := hunmoved hret
      exact ⟨h.dataSlice.trans hpacket.symm, by rw [h.dataLength, ← hpacket], rfl⟩

theorem helper_kptr {ctx post : XdpMd} {c : HelperCall} (hx : helperStep c ctx = some post) :
    post.kptr = c.k := by
  obtain rfl := Option.some.inj hx
  unfold bpfXdpAdjustTail
  split <;> rfl

/-- **The view of an xdp packet stays coherent exactly when no call that reports an error moves the
packet.** -/
theorem coherent_iff {k : XdpBuff} {tr : List (Transition XdpMd HelperCall)} {ctx : XdpMd}
    (h : Exec helperStep (convertCtx k) tr ctx) :
    (∀ x ∈ tr, Coherent x.post) ↔ Along (fun _ c => c.k) Unmoved k (tr.map Transition.act) :=
  h.forall_post_iff_along (fun ctx => ctx.kptr) (coherent_convertCtx k)
    (fun _ hx => helper_kptr hx) (fun _ hx hpre => coherent_helper_iff hpre hx)

end Xdp

/-! ## sched_cls -/

/-- A `struct sk_buff` with `data_len`, the bytes of its paged fragments, which the runtime does not
read. -/
structure PagedSkBuff extends SkBuff where
  dataLen : UInt32
  dataLen_le : dataLen ≤ len

/-- The linear area, `[data, data + len - data_len)`. -/
def PagedSkBuff.linear (k : PagedSkBuff) : Slice := ⟨k.data, k.len.toNat - k.dataLen.toNat⟩

/-- The linear area is all of the packet exactly when there are no fragments. -/
theorem linear_eq_iff (k : PagedSkBuff) : k.linear.len = k.len.toNat ↔ k.dataLen = 0 := by
  have hle : k.dataLen.toNat ≤ k.len.toNat := UInt32.le_iff_toNat_le.mp k.dataLen_le
  have hzero : k.dataLen = 0 ↔ k.dataLen.toNat = 0 := by
    rw [← UInt32.toNat_inj]
    rfl
  rw [hzero]
  show k.len.toNat - k.dataLen.toNat = k.len.toNat ↔ _
  omega

namespace SchedCls

/-- A context and the whole of the kernel object behind it. -/
structure SkbView where
  skb : Skb
  kernel : PagedSkBuff
  kptr_eq : skb.kptr = kernel.toSkBuff

def SkbView.convertCtx (k : PagedSkBuff) : SkbView := ⟨SchedCls.convertCtx k.toSkBuff, k, rfl⟩

/-- The cached fields and `data_slice_mut` are the linear area as it is now. -/
structure Coherent (s : SkbView) : Prop where
  dataSlice : s.skb.dataSlice = s.kernel.linear
  len : s.skb.len.toNat = s.kernel.linear.len
  dataSliceMut : dataSliceMut s.skb = s.kernel.linear

/-- A call of `bpf_clone_redirect`, with what the kernel answers. -/
structure HelperCall where
  ifindex : UInt32
  flags : UInt64
  ret : Int
  k : PagedSkBuff

theorem helper_kptr (skb : Skb) (ret : Int) (k : SkBuff) :
    (bpfCloneRedirect skb ret k).2.kptr = k := by
  unfold bpfCloneRedirect
  split <;> rfl

def helperStep (c : HelperCall) (s : SkbView) : Option SkbView :=
  some ⟨(bpfCloneRedirect s.skb c.ret c.k.toSkBuff).2, c.k, helper_kptr _ _ _⟩

/-- The call has left a linear packet of the same length, and if it reports an error where it
was. -/
structure Unmoved (c : HelperCall) (k : PagedSkBuff) : Prop where
  linear : c.k.dataLen = 0
  len : c.k.len = k.len
  data : c.ret ≠ 0 → c.k.data = k.data

instance (c : HelperCall) (k : PagedSkBuff) : Decidable (Unmoved c k) :=
  decidable_of_iff (c.k.dataLen = 0 ∧ c.k.len = k.len ∧ (c.ret ≠ 0 → c.k.data = k.data))
    ⟨fun h => ⟨h.1, h.2.1, h.2.2⟩, fun h => ⟨h.linear, h.len, h.data⟩⟩

theorem dataSliceMut_eq (s : SkbView) :
    dataSliceMut s.skb = ⟨s.kernel.data, s.kernel.len.toNat⟩ := by
  unfold dataSliceMut
  rw [s.kptr_eq]

/-- `data_slice_mut` takes all of the packet for the linear area. -/
theorem Coherent.unpaged {s : SkbView} (h : Coherent s) : s.kernel.dataLen = 0 := by
  rw [← linear_eq_iff, ← h.dataSliceMut, dataSliceMut_eq]

theorem linear_of_unpaged {k : PagedSkBuff} (h : k.dataLen = 0) :
    k.linear = ⟨k.data, k.len.toNat⟩ := by
  rw [← (linear_eq_iff k).mpr h]
  rfl

/-- Of a linear packet the cached fields are all there is to check. -/
theorem coherent_iff_of_unpaged {s : SkbView} (h : s.kernel.dataLen = 0) :
    Coherent s ↔
      s.skb.dataSlice = ⟨s.kernel.data, s.kernel.len.toNat⟩ ∧ s.skb.len = s.kernel.len := by
  have hlinear := linear_of_unpaged h
  constructor
  · intro hc
    refine ⟨hc.dataSlice.trans hlinear, UInt32.toNat_inj.mp ?_⟩
    rw [hc.len, hlinear]
  · rintro ⟨hslice, hlen⟩
    exact ⟨hslice.trans hlinear.symm, by rw [hlinear, hlen],
      (dataSliceMut_eq s).trans hlinear.symm⟩

theorem coherent_convertCtx_iff (k : PagedSkBuff) :
    Coherent (SkbView.convertCtx k) ↔ k.dataLen = 0 := by
  constructor
  · intro h
    exact h.unpaged
  · intro hzero
    exact (coherent_iff_of_unpaged hzero).mpr ⟨rfl, rfl⟩

theorem coherent_helper_iff {s t : SkbView} {c : HelperCall} (h : Coherent s)
    (hx : helperStep c s = some t) : Coherent t ↔ Unmoved c s.kernel := by
  obtain rfl := Option.some.inj hx
  obtain ⟨hslice, hlen⟩ := (coherent_iff_of_unpaged h.unpaged).mp h
  -- `len` is written by no helper, `data_slice` by one that returns 0
  have hsame : (bpfCloneRedirect s.skb c.ret c.k.toSkBuff).2.len = s.kernel.len := by
    rw [← hlen]
    unfold bpfCloneRedirect
    split <;> rfl
  constructor
  · intro hc
    obtain ⟨hslice', hlen'⟩ := (coherent_iff_of_unpaged hc.unpaged).mp hc
    refine ⟨hc.unpaged, hlen'.symm.trans hsame, fun hret => ?_⟩
    simp only [bpfCloneRedirect, if_pos hret] at hslice'
    exact congrArg Slice.ptr (hslice'.symm.trans hslice)
  · intro hunmoved
    refine (coherent_iff_of_unpaged hunmoved.linear).mpr ⟨?_, hsame.trans hunmoved.len.symm⟩
    by_cases hret : c.ret = 0
    · simp [bpfCloneRedirect, hret]
    · simp only [bpfCloneRedirect, if_pos hret]
      rw [hslice, hunmoved.len, hunmoved.data hret]

theorem helper_kernel {s t : SkbView} {c : HelperCall} (hx : helperStep c s = some t) :
    t.kernel = c.k := by
  obtain rfl := Option.some.inj hx
  rfl

/-- **The view of an `sk_buff` is coherent throughout exactly when the packet is linear, keeps its
length, and is moved only by calls that return 0.** -/
theorem coherent_iff {k : PagedSkBuff} {tr : List (Transition SkbView HelperCall)} {s : SkbView}
    (h : Exec helperStep (SkbView.convertCtx k) tr s) :
    (Coherent (SkbView.convertCtx k) ∧ ∀ x ∈ tr, Coherent x.post) ↔
      k.dataLen = 0 ∧ Along (fun _ c => c.k) Unmoved k (tr.map Transition.act) := by
  rw [coherent_convertCtx_iff]
  refine and_congr_right fun hzero => ?_
  exact h.forall_post_iff_along (fun s => s.kernel) ((coherent_convertCtx_iff k).mpr hzero)
    (fun _ hx => helper_kernel hx) (fun _ hx hpre => coherent_helper_iff hpre hx)

end SchedCls

/-! ## Both program types -/

/-- **The cached view of a packet is coherent after `convert_ctx` and after every helper call
exactly when the kernel leaves alone what the runtime does not read again.** -/
theorem packetView_coherent_iff {k : PagedSkBuff} {tr s} {k' : XdpBuff} {tr' ctx}
    (h : Exec SchedCls.helperStep (SchedCls.SkbView.convertCtx k) tr s)
    (h' : Exec Xdp.helperStep (Xdp.convertCtx k') tr' ctx) :
    ((SchedCls.Coherent (.convertCtx k) ∧ ∀ x ∈ tr, SchedCls.Coherent x.post) ↔
        k.dataLen = 0 ∧ Along (fun _ c => c.k) SchedCls.Unmoved k (tr.map Transition.act)) ∧
      ((Xdp.Coherent (Xdp.convertCtx k') ∧ ∀ x ∈ tr', Xdp.Coherent x.post) ↔
        Along (fun _ c => c.k) Xdp.Unmoved k' (tr'.map Transition.act)) := by
  refine ⟨SchedCls.coherent_iff h, ?_⟩
  rw [Xdp.coherent_iff h', and_iff_right (Xdp.coherent_convertCtx k')]

/-- An `sk_buff` of `n` bytes, `dataLen` of them paged. -/
def pagedOf (n dataLen : UInt32) (h : dataLen ≤ n) : PagedSkBuff :=
  { skBuffOf n with dataLen := dataLen, dataLen_le := h }

/-- The program redirects clones of a linear packet, with success and without. -/
def cloneTwice : List SchedCls.HelperCall :=
  [⟨2, 0, 0, pagedOf 60 0 (by decide)⟩, ⟨3, 0, -22, pagedOf 60 0 (by decide)⟩]

/-- The program cuts a packet to 10 bytes, and asks in vain for fewer than 0. -/
def trimTwice : List Xdp.HelperCall := [⟨-54, 0, xdpBuffOf 10⟩, ⟨-54, -22, xdpBuffOf 10⟩]

theorem cloneTwice_runs : (runActions SchedCls.helperStep cloneTwice
    (.convertCtx (pagedOf 60 0 (by decide)))).isSome := rfl

theorem trimTwice_runs :
    (runActions Xdp.helperStep trimTwice (Xdp.convertCtx (xdpBuffOf 64))).isSome := rfl

theorem packetView_coherent_twice :
    (∀ x ∈ runOf _ _ _ cloneTwice_runs, SchedCls.Coherent x.post) ∧
      ∀ x ∈ runOf _ _ _ trimTwice_runs, Xdp.Coherent x.post := by
  obtain ⟨hskb, hxdp⟩ := packetView_coherent_iff (exec_runOf cloneTwice_runs)
    (exec_runOf trimTwice_runs)
  exact ⟨(hskb.mpr (by decide)).2, (hxdp.mpr (by decide)).2⟩

/-- A packet with 40 of its 100 bytes paged, as it comes; a linear packet cut to 10 bytes by a
successful `bpf_clone_redirect`; an xdp packet cut by a call that reports an error. -/
theorem packetView_coherent_fails :
    ¬ SchedCls.Coherent (.convertCtx (pagedOf 100 40 (by decide))) ∧
      (¬ ∀ k c t, k.dataLen = 0 → c.k.dataLen = 0 →
        SchedCls.helperStep c (.convertCtx k) = some t → SchedCls.Coherent t) ∧
      ¬ ∀ k c ctx, Xdp.helperStep c (Xdp.convertCtx k) = some ctx → Xdp.Coherent ctx := by
  refine ⟨?_, fun hall => ?_, fun hall => ?_⟩
  · rw [SchedCls.coherent_convertCtx_iff]
    decide
  · have hlen := (hall (pagedOf 60 0 (by decide)) ⟨2, 0, 0, pagedOf 10 0 (by decide)⟩ _ rfl rfl
      rfl).len
    exact absurd hlen (by decide)
  · have hlen := (hall (xdpBuffOf 64) ⟨-54, -22, xdpBuffOf 10⟩ _ rfl).dataLength
    exact absurd hlen (by decide)

end KernelDev.Runtime
