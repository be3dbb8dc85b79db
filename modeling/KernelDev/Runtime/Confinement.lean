/-
# KernelDev.Runtime.Confinement — which accessor calls stay inside the packet

A program without unsafe code may assign the public fields of its context, call the helpers and
call the header accessors, in any order. The accessors trust the length field of the context, which
the program can assign and which not every helper call brings up to date: `bpf_xdp_adjust_tail`
leaves it when the kernel reports an error, and `bpf_clone_redirect` always does. `data_slice_mut`,
next to the accessors, takes the length from the kernel object.

`packetConfined_iff` gives the exact condition for both program types, as a condition on the
operations and on what the kernel answers.
-/
import KernelDev.Lib.Execution
import KernelDev.Runtime.Packet

namespace KernelDev.Runtime

open KernelDev.Lib

/-- What the operations so far have made of the length field and of the packet. -/
structure Ledger where
  lengthField : Nat
  packetLen : Nat
  deriving DecidableEq, Repr

/-- A header that ends at `stop` is covered by the length field only if the packet covers it. -/
def Ledger.Honest (v : Ledger) (stop : Nat) : Prop := stop ≤ v.lengthField → stop ≤ v.packetLen

instance (v : Ledger) (stop : Nat) : Decidable (v.Honest stop) :=
  inferInstanceAs (Decidable (stop ≤ v.lengthField → stop ≤ v.packetLen))

/-! ## xdp programs -/

namespace Xdp

/-- A program under way. -/
structure State where
  ctx : XdpMd
  panicked : Bool

def start (k : XdpBuff) : State := ⟨convertCtx k, false⟩

/-- What a safe program can do. The offset of `bpf_xdp_adjust_tail` only reaches the kernel. -/
inductive Act
  | assign (fields : XdpPublic)
  | bpfXdpAdjustTail (offset : Int) (ret : Int) (k : XdpBuff)
  | ethHeader

/-- The header an action accesses. -/
def Act.access : Act → XdpMd → Option Slice
  | .ethHeader => Xdp.ethHeader
  | _ => fun _ => none

/-- Where the header an action accesses ends. -/
def Act.stop : Act → Option Nat
  | .ethHeader => some ethhdrSize
  | _ => none

def step (a : Act) (s : State) : Option State :=
  if s.panicked then none
  else match a with
    | .assign fields => some { s with ctx := { s.ctx with toXdpPublic := fields } }
    | .bpfXdpAdjustTail _ ret k => some { s with ctx := (Xdp.bpfXdpAdjustTail s.ctx ret k).2 }
    | .ethHeader => some { s with panicked := (Xdp.ethHeader s.ctx).isNone }

/-- An accessor call panics or returns bytes of the packet. -/
def Confined (x : Transition State Act) : Prop :=
  ∀ h ∈ x.act.access x.pre.ctx, h.Inside x.pre.ctx.kptr.packet

instance : DecidablePred Confined := fun x =>
  inferInstanceAs (Decidable (∀ h ∈ x.act.access x.pre.ctx, h.Inside x.pre.ctx.kptr.packet))

/-- The program writes the length field, and `bpf_xdp_adjust_tail` does when it returns 0. -/
def track (v : Ledger) : Act → Ledger
  | .assign fields => { v with lengthField := fields.dataLength }
  | .bpfXdpAdjustTail _ ret k =>
      ⟨if ret ≠ 0 then v.lengthField else k.packet.len, k.packet.len⟩
  | .ethHeader => v

def State.ledger (s : State) : Ledger := ⟨s.ctx.dataLength, s.ctx.kptr.packet.len⟩

/-- Every accessor call of `acts`, from a packet of `k`, is made on an honest length field. -/
def LengthHonest (k : XdpBuff) (acts : List Act) : Prop :=
  Along track (fun a v => ∀ stop ∈ a.stop, v.Honest stop) ⟨k.packet.len, k.packet.len⟩ acts

instance (k : XdpBuff) (acts : List Act) : Decidable (LengthHonest k acts) :=
  inferInstanceAs (Decidable (Along _ _ _ _))

theorem ledger_step {x : Transition State Act} (hx : step x.act x.pre = some x.post) :
    x.post.ledger = track x.pre.ledger x.act := by
  obtain ⟨s, act, t⟩ := x
  simp only [step] at hx
  split at hx
  · cases hx
  · cases act with
    | assign fields =>
        obtain rfl := Option.some.inj hx
        rfl
    | bpfXdpAdjustTail offset ret k =>
        obtain rfl := Option.some.inj hx
        by_cases hret : ret = 0
        · simp [State.ledger, track, Xdp.bpfXdpAdjustTail, hret, convertCtx, XdpBuff.packet]
        · simp [State.ledger, track, Xdp.bpfXdpAdjustTail, hret]
    | ethHeader =>
        obtain rfl := Option.some.inj hx
        rfl

theorem confined_step_iff (x : Transition State Act) :
    Confined x ↔ ∀ stop ∈ x.act.stop, x.pre.ledger.Honest stop := by
  obtain ⟨s, act, t⟩ := x
  cases act with
  | assign | bpfXdpAdjustTail => simp [Confined, Act.access, Act.stop]
  | ethHeader =>
      have hptr : s.ctx.kptr.packet.ptr = s.ctx.kptr.data := rfl
      have hiff := headerAt_inside_iff hptr s.ctx.dataLength 0 ethhdrSize
      simpa [Confined, Act.access, Act.stop, Ledger.Honest, State.ledger, Xdp.ethHeader] using hiff

/-- **An xdp program stays inside its packet exactly when its length field is honest.** -/
theorem xdp_confined_iff {k : XdpBuff} {tr : List (Transition State Act)} {s : State}
    (h : Exec step (start k) tr s) :
    (∀ x ∈ tr, Confined x) ↔ LengthHonest k (tr.map Transition.act) :=
  h.forall_iff_along State.ledger (fun _ hx => ledger_step hx)
    (fun x _ => confined_step_iff x)

end Xdp

/-! ## sched_cls programs -/

namespace SchedCls

structure State where
  skb : Skb
  panicked : Bool

def start (k : SkBuff) : State := ⟨convertCtx k, false⟩

inductive Act
  | assign (fields : SkbPublic)
  | bpfCloneRedirect (ifindex : UInt32) (flags : UInt64) (ret : Int) (k : SkBuff)
  | ethHeader
  | ipHeader
  | udpHeader
  | tcpHeader

def Act.access : Act → Skb → Option Slice
  | .ethHeader => SchedCls.ethHeader
  | .ipHeader => SchedCls.ipHeader
  | .udpHeader => SchedCls.udpHeader
  | .tcpHeader => SchedCls.tcpHeader
  | _ => fun _ => none

def Act.stop : Act → Option Nat
  | .ethHeader => some ethhdrSize
  | .ipHeader => some (ethhdrSize + iphdrSize)
  | .udpHeader => some (ethhdrSize + iphdrSize + udphdrSize)
  | .tcpHeader => some (ethhdrSize + iphdrSize + tcphdrSize)
  | _ => none

def step (a : Act) (s : State) : Option State :=
  if s.panicked then none
  else match a with
    | .assign fields => some { s with skb := { s.skb with toSkbPublic := fields } }
    | .bpfCloneRedirect _ _ ret k =>
      some { s with skb := (SchedCls.bpfCloneRedirect s.skb ret k).2 }
    | a => some { s with panicked := (a.access s.skb).isNone }

def Confined (x : Transition State Act) : Prop :=
  ∀ h ∈ x.act.access x.pre.skb, h.Inside x.pre.skb.kptr.packet

instance : DecidablePred Confined := fun x =>
  inferInstanceAs (Decidable (∀ h ∈ x.act.access x.pre.skb, h.Inside x.pre.skb.kptr.packet))

/-- Only the program writes the length field. -/
def track (v : Ledger) : Act → Ledger
  | .assign fields => { v with lengthField := fields.len.toNat }
  | .bpfCloneRedirect _ _ _ k => { v with packetLen := k.packet.len }
  | _ => v

def State.ledger (s : State) : Ledger := ⟨s.skb.len.toNat, s.skb.kptr.packet.len⟩

def LengthHonest (k : SkBuff) (acts : List Act) : Prop :=
  Along track (fun a v => ∀ stop ∈ a.stop, v.Honest stop) ⟨k.packet.len, k.packet.len⟩ acts

instance (k : SkBuff) (acts : List Act) : Decidable (LengthHonest k acts) :=
  inferInstanceAs (Decidable (Along _ _ _ _))

theorem ledger_step {x : Transition State Act} (hx : step x.act x.pre = some x.post) :
    x.post.ledger = track x.pre.ledger x.act := by
  obtain ⟨s, act, t⟩ := x
  simp only [step] at hx
  split at hx
  · cases hx
  · cases act with
    | assign | ethHeader | ipHeader | udpHeader | tcpHeader =>
        obtain rfl := Option.some.inj hx
        rfl
    | bpfCloneRedirect ifindex flags ret k =>
        obtain rfl := Option.some.inj hx
        by_cases hret : ret = 0
        · simp [State.ledger, track, SchedCls.bpfCloneRedirect, hret]
        · simp [State.ledger, track, SchedCls.bpfCloneRedirect, hret]

/-- Every accessor cuts its header out at a fixed offset. -/
theorem access_eq {a : Act} {stop : Nat} (hstop : a.stop = some stop) :
    ∃ b size, b + size = stop ∧
      ∀ skb, a.access skb = headerAt skb.kptr.data skb.len.toNat b size := by
  cases a with
  | assign | bpfCloneRedirect => cases hstop
  | ethHeader =>
      obtain rfl := Option.some.inj hstop
      exact ⟨0, ethhdrSize, rfl, fun _ => rfl⟩
  | ipHeader =>
      obtain rfl := Option.some.inj hstop
      exact ⟨ethhdrSize, iphdrSize, rfl, fun _ => rfl⟩
  | udpHeader =>
      obtain rfl := Option.some.inj hstop
      exact ⟨ethhdrSize + iphdrSize, udphdrSize, rfl, fun _ => rfl⟩
  | tcpHeader =>
      obtain rfl := Option.some.inj hstop
      exact ⟨ethhdrSize + iphdrSize, tcphdrSize, rfl, fun _ => rfl⟩

theorem access_eq_none {a : Act} (hstop : a.stop = none) (skb : Skb) : a.access skb = none := by
  cases a with
  | assign | bpfCloneRedirect => rfl
  | ethHeader | ipHeader | udpHeader | tcpHeader => cases hstop

theorem confined_step_iff (x : Transition State Act) :
    Confined x ↔ ∀ stop ∈ x.act.stop, x.pre.ledger.Honest stop := by
  obtain ⟨s, act, t⟩ := x
  cases hstop : act.stop with
  | none => simp [Confined, access_eq_none hstop]
  | some stop =>
      obtain ⟨b, size, rfl, hget⟩ := access_eq hstop
      have hptr : s.skb.kptr.packet.ptr = s.skb.kptr.data := rfl
      have hiff := headerAt_inside_iff hptr s.skb.len.toNat b size
      simpa [Confined, hget, Ledger.Honest, State.ledger] using hiff

/-- **A sched_cls program stays inside its packet exactly when its length field is honest.** -/
theorem skb_confined_iff {k : SkBuff} {tr : List (Transition State Act)} {s : State}
    (h : Exec step (start k) tr s) :
    (∀ x ∈ tr, Confined x) ↔ LengthHonest k (tr.map Transition.act) :=
  h.forall_iff_along State.ledger (fun _ hx => ledger_step hx)
    (fun x _ => confined_step_iff x)

end SchedCls

/-! ## Both program types -/

/-- **Every header access of a run panics or stays inside the packet exactly when each is made on a
length field that covers the header only if the packet does.** -/
theorem packetConfined_iff {kx : XdpBuff} {trx : List (Transition Xdp.State Xdp.Act)}
    {sx : Xdp.State} (hx : Exec Xdp.step (Xdp.start kx) trx sx) {kb : SkBuff}
    {trb : List (Transition SchedCls.State SchedCls.Act)} {sb : SchedCls.State}
    (hb : Exec SchedCls.step (SchedCls.start kb) trb sb) :
    ((∀ x ∈ trx, Xdp.Confined x) ↔ Xdp.LengthHonest kx (trx.map Transition.act)) ∧
      ((∀ x ∈ trb, SchedCls.Confined x) ↔
        SchedCls.LengthHonest kb (trb.map Transition.act)) :=
  ⟨Xdp.xdp_confined_iff hx, SchedCls.skb_confined_iff hb⟩

/-- An `xdp_buff` of `n` bytes. -/
def xdpBuffOf (n : Nat) : XdpBuff := ⟨4096, 4096 + n, 4096, 0, 0, Nat.le_add_right _ _⟩

/-- An `sk_buff` of `n` bytes. -/
def skBuffOf (n : UInt32) : SkBuff := ⟨4096, n, 8, 0, 0, 0, 0, 0, 0, 0, 0, 1⟩

/-- The program looks at the Ethernet header, cuts the packet short and looks again. -/
def trimXdp : List Xdp.Act := [.ethHeader, .bpfXdpAdjustTail (-54) 0 (xdpBuffOf 10), .ethHeader]

/-- The program looks at the headers of a packet it has redirected a clone of. -/
def cloneSkb : List SchedCls.Act :=
  [.ethHeader, .bpfCloneRedirect 2 0 0 (skBuffOf 60), .ipHeader, .udpHeader, .tcpHeader]

theorem trimXdp_runs : (runActions Xdp.step trimXdp (Xdp.start (xdpBuffOf 64))).isSome := rfl

theorem cloneSkb_runs :
    (runActions SchedCls.step cloneSkb (SchedCls.start (skBuffOf 60))).isSome := rfl

theorem packetConfined_trim_clone :
    (∀ x ∈ runOf Xdp.step trimXdp (Xdp.start (xdpBuffOf 64)) trimXdp_runs, Xdp.Confined x) ∧
      ∀ x ∈ runOf SchedCls.step cloneSkb (SchedCls.start (skBuffOf 60)) cloneSkb_runs,
        SchedCls.Confined x := by
  have hconfined := packetConfined_iff (exec_runOf trimXdp_runs) (exec_runOf cloneSkb_runs)
  exact ⟨hconfined.1.mpr (by decide), hconfined.2.mpr (by decide)⟩

/-- The program claims 14 bytes for a packet of 10. -/
def claimXdp : List Xdp.Act := [.assign ⟨⟨4096, 10⟩, 14, 4096, 0, 0, 0⟩, .ethHeader]

/-- The kernel leaves 10 bytes of the packet it cloned. -/
def shrinkSkb : List SchedCls.Act := [.bpfCloneRedirect 2 0 0 (skBuffOf 10), .ethHeader]

theorem claimXdp_runs : (runActions Xdp.step claimXdp (Xdp.start (xdpBuffOf 10))).isSome := rfl

theorem shrinkSkb_runs :
    (runActions SchedCls.step shrinkSkb (SchedCls.start (skBuffOf 60))).isSome := rfl

/-- Both get the 14 bytes they ask for, 4 of them outside. -/
theorem packetConfined_fails :
    (¬ ∀ k tr s, Exec Xdp.step (Xdp.start k) tr s → ∀ x ∈ tr, Xdp.Confined x) ∧
      ¬ ∀ k tr s, Exec SchedCls.step (SchedCls.start k) tr s → ∀ x ∈ tr, SchedCls.Confined x := by
  constructor
  · intro hall
    have hconfined := hall _ _ _ (exec_runOf claimXdp_runs)
    exact absurd hconfined (by decide)
  · intro hall
    have hconfined := hall _ _ _ (exec_runOf shrinkSkb_runs)
    exact absurd hconfined (by decide)

end KernelDev.Runtime
