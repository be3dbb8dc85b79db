/-
# KernelDev.Blocker.Filter — the eBPF program that blocks a port

`xdp_filter_by_port` is the eBPF counterpart of the sample the runtime is for. It looks for port
11211 where a TCP packet without IP options has it, in every packet long enough that does not say
UDP at the place of the IP protocol.
-/
import KernelDev.Lib.Ipv4
import KernelDev.Lib.Memory

namespace KernelDev.Blocker

open KernelDev.Lib KernelDev.Lib.Ipv4

/-! ## The program -/

/-- `XDP_DROP` and `XDP_PASS`. -/
inductive XdpAction
  | drop
  | pass
  deriving DecidableEq, Repr

/-- What a run of the program does besides returning: the addresses it reads, and what it prints. -/
structure Trace where
  reads : List Nat
  printed : List String
  deriving DecidableEq, Repr

/-- The two fields of `struct xdp_md` that are read. -/
structure XdpMd where
  data : Nat
  dataEnd : Nat

section
variable (memory : Nat → UInt8)

def load8 (a : Nat) : StateM Trace UInt8 := fun t => (memory a, { t with reads := t.reads ++ [a] })

/-- A `__be16`, as the processor reads it. -/
def load16 (a : Nat) : StateM Trace UInt16 := fun t =>
  (UInt16.ofNat (readLe [memory a, memory (a + 1)]), { t with reads := t.reads ++ [a, a + 1] })

/-- `bpf_printk`. -/
def bpfPrintk (text : String) : StateM Trace Unit := fun t =>
  ((), { t with printed := t.printed ++ [text] })

/-- `htons` on a little-endian processor. -/
def htons (x : UInt16) : UInt16 := (x <<< 8) ||| (x >>> 8)

/-- `IPPROTO_UDP`. -/
def ipprotoUdp : UInt8 := 17

/-- `xdp_filter_by_port`. -/
def xdpFilterByPort (ctx : XdpMd) : StateM Trace XdpAction := do
  let eth := ctx.data
  let ip := eth + 14
  let tcp := ip + 20
  if tcp + 20 > ctx.dataEnd then return .pass
  let protocol ← load8 memory (ip + 9)
  if protocol = ipprotoUdp then return .pass
  let dest ← load16 memory (tcp + 2)
  if dest = htons 11211 then bpfPrintk "found packet to port 11211\n"
  let dest ← load16 memory (tcp + 2)
  if dest = htons 11211 then return .drop
  let source ← load16 memory tcp
  if source = htons 11211 then return .drop
  return .pass

/-- The packet. -/
def packet (ctx : XdpMd) : List UInt8 :=
  (List.range (ctx.dataEnd - ctx.data)).map fun i => memory (ctx.data + i)

end

/-! ## What it does -/

theorem run_pure {α : Type} (a : α) (t : Trace) : (pure a : StateM Trace α) t = (a, t) := rfl

theorem run_bind {α β : Type} (x : StateM Trace α) (f : α → StateM Trace β) (t : Trace) :
    (x >>= f) t = f (x t).1 (x t).2 := rfl

variable (memory : Nat → UInt8) (ctx : XdpMd)

theorem packet_length : (packet memory ctx).length = ctx.dataEnd - ctx.data := by
  rw [packet, List.length_map, List.length_range]

variable {memory ctx}

theorem byteAt_packet {i : Nat} (h : i < ctx.dataEnd - ctx.data) :
    byteAt (packet memory ctx) i = memory (ctx.data + i) := by
  rw [byteAt, packet, List.getD_eq_getElem?_getD, List.getElem?_map, List.getElem?_range h]
  rfl

/-- A port in network byte order. -/
theorem load16_eq_htons_iff (a b : UInt8) :
    UInt16.ofNat (readLe [a, b]) = htons 11211 ↔ a.toNat * 256 + b.toNat = 11211 := by
  have hvalue : readLe [a, b] = a.toNat + 256 * b.toNat := by
    rw [readLe_cons, readLe_cons]
    rfl
  have ha := a.toNat_lt
  have hb := b.toNat_lt
  have hhtons : htons 11211 = 52011 := by decide
  rw [hvalue, hhtons, ← UInt16.toNat_inj, UInt16.toNat_ofNat', Nat.mod_eq_of_lt (by omega)]
  show a.toNat + 256 * b.toNat = 52011 ↔ _
  omega

/-- Port 11211 is the one or the other of two in a row. -/
def PortsAt (p : List UInt8) (i : Nat) : Prop := be16 p i = 11211 ∨ be16 p (i + 2) = 11211

instance (p : List UInt8) (i : Nat) : Decidable (PortsAt p i) :=
  inferInstanceAs (Decidable (_ ∨ _))

theorem load16_packet (memory : Nat → UInt8) {ctx : XdpMd} {i : Nat}
    (h : i + 1 < ctx.dataEnd - ctx.data) :
    UInt16.ofNat (readLe [memory (ctx.data + i), memory (ctx.data + i + 1)]) = htons 11211 ↔
      be16 (packet memory ctx) i = 11211 := by
  rw [load16_eq_htons_iff, be16, byteAt_packet (Nat.lt_of_succ_lt h), byteAt_packet h]
  rfl

/-- The outcomes of a run on a packet `p`: too short, UDP, a destination port, a source port, and
neither. -/
inductive Outcome (p : List UInt8) (data : Nat) : XdpAction → Trace → Prop
  | short (h : p.length < 54) : Outcome p data .pass ⟨[], []⟩
  | udp (h : 54 ≤ p.length) (hudp : protocol p = ipprotoUdp) :
      Outcome p data .pass ⟨[data + 23], []⟩
  | dest (h : 54 ≤ p.length) (hudp : protocol p ≠ ipprotoUdp) (hdest : be16 p 36 = 11211) :
      Outcome p data .drop
        ⟨[data + 23, data + 36, data + 37, data + 36, data + 37], ["found packet to port 11211\n"]⟩
  | source (h : 54 ≤ p.length) (hudp : protocol p ≠ ipprotoUdp) (hdest : be16 p 36 ≠ 11211)
      (hsource : be16 p 34 = 11211) :
      Outcome p data .drop
        ⟨[data + 23, data + 36, data + 37, data + 36, data + 37, data + 34, data + 35], []⟩
  | other (h : 54 ≤ p.length) (hudp : protocol p ≠ ipprotoUdp) (hdest : be16 p 36 ≠ 11211)
      (hsource : be16 p 34 ≠ 11211) :
      Outcome p data .pass
        ⟨[data + 23, data + 36, data + 37, data + 36, data + 37, data + 34, data + 35], []⟩

/-- A run from nothing read and nothing printed. -/
def filter (memory : Nat → UInt8) (ctx : XdpMd) : XdpAction × Trace :=
  xdpFilterByPort memory ctx ⟨[], []⟩

/-- **What a run does.** -/
theorem outcome_run (memory : Nat → UInt8) (ctx : XdpMd) :
    Outcome (packet memory ctx) ctx.data (filter memory ctx).1 (filter memory ctx).2 := by
  have hlen := packet_length memory ctx
  rcases Nat.lt_or_ge (ctx.dataEnd - ctx.data) 54 with hshort | hlong
  · have hcmp : ctx.data + 14 + 20 + 20 > ctx.dataEnd := by omega
    have hrun : filter memory ctx = (.pass, ⟨[], []⟩) := by
      unfold filter xdpFilterByPort
      rw [if_pos hcmp]
      rfl
    rw [hrun]
    exact .short (hlen ▸ hshort)
  have hcmp : ¬ ctx.data + 14 + 20 + 20 > ctx.dataEnd := by omega
  have hproto : protocol (packet memory ctx) = memory (ctx.data + 14 + 9) :=
    byteAt_packet (by omega)
  have hdest := load16_packet memory (i := 36) (by omega : 36 + 1 < ctx.dataEnd - ctx.data)
  have hsource := load16_packet memory (i := 34) (by omega : 34 + 1 < ctx.dataEnd - ctx.data)
  unfold filter xdpFilterByPort
  rw [if_neg hcmp]
  by_cases hudp : memory (ctx.data + 14 + 9) = ipprotoUdp
  · have hout : Outcome _ ctx.data _ _ := .udp (hlen ▸ hlong) (hproto.trans hudp)
    simpa [load8, hudp, run_bind, run_pure] using hout
  replace hlong := hlen ▸ hlong
  have hudp' := hproto ▸ hudp
  by_cases hd : be16 (packet memory ctx) 36 = 11211
  · have hload := hdest.mpr hd
    have hout : Outcome _ ctx.data _ _ := .dest hlong hudp' hd
    simpa [load8, load16, bpfPrintk, hudp, hload, run_bind, run_pure] using hout
  have hload := mt hdest.mp hd
  by_cases hs : be16 (packet memory ctx) 34 = 11211
  · have hload' := hsource.mpr hs
    have hout : Outcome _ ctx.data _ _ := .source hlong hudp' hd hs
    simpa [load8, load16, hudp, hload, hload', run_bind, run_pure] using hout
  · have hload' := mt hsource.mp hs
    have hout : Outcome _ ctx.data _ _ := .other hlong hudp' hd hs
    simpa [load8, load16, hudp, hload, hload', run_bind, run_pure] using hout

section
variable {p : List UInt8} {data : Nat} {action : XdpAction} {t : Trace}

/-- It drops what has the port at byte 34 or 36 and is long enough and not UDP. -/
theorem Outcome.drop_iff (h : Outcome p data action t) :
    action = .drop ↔ 54 ≤ p.length ∧ protocol p ≠ ipprotoUdp ∧ PortsAt p 34 := by
  have hpass : XdpAction.pass ≠ .drop := by decide
  cases h with
  | short h => exact iff_of_false hpass fun hdrop => Nat.not_le.mpr h hdrop.1
  | udp h hudp => exact iff_of_false hpass fun hdrop => hdrop.2.1 hudp
  | dest h hudp hdest => exact iff_of_true rfl ⟨h, hudp, .inr hdest⟩
  | source h hudp hdest hsource => exact iff_of_true rfl ⟨h, hudp, .inl hsource⟩
  | other h hudp hdest hsource =>
      exact iff_of_false hpass fun hdrop => hdrop.2.2.elim hsource hdest

/-- Every address read is one of the first 54 of a packet that has so many. -/
theorem Outcome.mem_reads (h : Outcome p data action t) {a : Nat} (ha : a ∈ t.reads) :
    54 ≤ p.length ∧ data ≤ a ∧ a < data + 54 := by
  cases h with
  | short h => cases ha
  | udp h =>
      rw [List.mem_singleton] at ha
      omega
  | dest h | source h | other h =>
      simp only [List.mem_cons, List.not_mem_nil, or_false] at ha
      omega

end

theorem run_eq_drop_iff (memory : Nat → UInt8) (ctx : XdpMd) :
    (filter memory ctx).1 = .drop ↔
      54 ≤ (packet memory ctx).length ∧ protocol (packet memory ctx) ≠ ipprotoUdp ∧
        PortsAt (packet memory ctx) 34 :=
  (outcome_run memory ctx).drop_iff

/-- **It reads inside the packet.** -/
theorem run_reads (memory : Nat → UInt8) (ctx : XdpMd) :
    ∀ a ∈ (filter memory ctx).2.reads, ctx.data ≤ a ∧ a < ctx.dataEnd := by
  intro a ha
  have hlen := packet_length memory ctx
  obtain ⟨hlong, hfirst, hlast⟩ := (outcome_run memory ctx).mem_reads ha
  omega

/-! ## What it is for -/

/-- An unfragmented IPv4 packet with a whole TCP header from or to port 11211. -/
structure Blocked (p : List UInt8) : Prop where
  carries : Carries 6 20 p
  fragment : fragment p = 0
  port : PortsAt p (transportAt p)

/-- What is to be dropped is dropped and nothing else, and no byte behind the packet is read. -/
structure FilterExact (memory : Nat → UInt8) (ctx : XdpMd) : Prop where
  drops : (filter memory ctx).1 = .drop ↔ Blocked (packet memory ctx)
  reads : ∀ a ∈ (filter memory ctx).2.reads, ctx.data ≤ a ∧ a < ctx.dataEnd

/-- The packets the program is right about: too short for TCP, with UDP's number at the place of the
protocol, TCP without options or with the same answer at byte 34 as behind the options, and any
other that does not have the port there. -/
def Recognised (p : List UInt8) : Prop :=
  p.length < 54 ∨ protocol p = ipprotoUdp ∨
    if Carries 6 20 p ∧ fragment p = 0 then ihl p = 5 ∨ (PortsAt p 34 ↔ PortsAt p (transportAt p))
    else ¬ PortsAt p 34

/-- **The program drops what it is to drop exactly among these packets; it never reads behind the
packet.** -/
theorem filter_exact_iff (memory : Nat → UInt8) (ctx : XdpMd) :
    FilterExact memory ctx ↔ Recognised (packet memory ctx) := by
  have hexact : FilterExact memory ctx ↔
      ((filter memory ctx).1 = .drop ↔ Blocked (packet memory ctx)) :=
    ⟨fun h => h.drops, fun h => ⟨h, run_reads memory ctx⟩⟩
  rw [hexact, run_eq_drop_iff]
  generalize packet memory ctx = p
  unfold Recognised
  by_cases hshort : p.length < 54
  · refine iff_of_true (iff_of_false (fun h => Nat.not_le.mpr hshort h.1) fun h => ?_) (.inl hshort)
    have hend := h.carries.length
    have hle := h.carries.header.le_transportAt
    omega
  have hlong := Nat.not_lt.mp hshort
  rw [or_iff_right hshort, and_iff_right hlong]
  by_cases hudp : protocol p = ipprotoUdp
  · refine iff_of_true (iff_of_false (fun h => h.1 hudp) fun h => ?_) (.inl hudp)
    have htcp := h.carries.protocol
    rw [hudp] at htcp
    exact absurd htcp (by decide)
  rw [or_iff_right hudp, and_iff_right hudp]
  split
  · next htcp =>
      have hblocked : Blocked p ↔ PortsAt p (transportAt p) :=
        ⟨fun h => h.port, fun h => ⟨htcp.1, htcp.2, h⟩⟩
      rw [hblocked, or_iff_right_of_imp]
      intro hihl
      rw [transportAt_eq_iff.mpr hihl]
  · next hother =>
      have hpass : ¬ Blocked p := fun h => hother ⟨h.carries, h.fragment⟩
      exact iff_false_right hpass

/-- A frame of zeros with the port at the place of a destination. -/
def notIp : List UInt8 := List.replicate 36 0 ++ [0x2b, 0xcb] ++ List.replicate 16 0

/-- It is dropped. -/
theorem filter_exact_fails :
    (filter (fun a => notIp.getD a 0) ⟨0, 54⟩).1 = .drop ∧
      ¬ ∀ memory ctx, FilterExact memory ctx := by
  have hdrop : (filter (fun a => notIp.getD a 0) ⟨0, 54⟩).1 = .drop := by
    decide
  refine ⟨hdrop, fun hall => ?_⟩
  have hether := ((hall _ _).drops.mp hdrop).carries.header.etherType
  exact absurd hether (by decide)

end KernelDev.Blocker
