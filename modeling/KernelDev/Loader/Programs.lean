/-
# KernelDev.Loader.Programs — the programs of an object and their file descriptors

The loader keeps the programs of an object twice. `parse_progs` enters every function symbol of a
section it knows into `progs`, which is keyed by the name, and appends it to `obj->programs`, which
is then sorted. `load` asks the kernel to load the entries of `progs`, in the order of the hash
table, and records each answer in the first program of `obj->programs` that has the name.
-/
import KernelDev.Lib.Join
import KernelDev.Loader.Load
import KernelDev.Loader.Maps
import Mathlib.Data.List.Sort

namespace KernelDev.Loader

open KernelDev.Lib

/-! ## Section definitions -/

/-- The program types of `section_defs`. -/
inductive BpfProgType
  | socketFilter
  | kprobe
  | schedCls
  | schedAct
  | tracepoint
  | xdp
  | perfEvent
  | cgroupSkb
  | cgroupSock
  | lwtIn
  | lwtOut
  | lwtXmit
  | sockOps
  | skSkb
  | cgroupDevice
  | skMsg
  | rawTracepoint
  | cgroupSockAddr
  | lwtSeg6local
  | lircMode2
  | skReuseport
  | flowDissector
  | cgroupSysctl
  | cgroupSockopt
  | tracing
  | structOps
  | ext
  | lsm
  | skLookup
  | syscall
  deriving DecidableEq, Repr

/-- The attach types of `section_defs`. -/
inductive BpfAttachType
  | cgroupInetIngress
  | cgroupInetEgress
  | cgroupInetSockCreate
  | cgroupInetSockRelease
  | cgroupSockOps
  | skSkbStreamParser
  | skSkbStreamVerdict
  | cgroupDevice
  | skMsgVerdict
  | cgroupInet4Bind
  | cgroupInet6Bind
  | cgroupInet4Connect
  | cgroupInet6Connect
  | cgroupInet4PostBind
  | cgroupInet6PostBind
  | cgroupUdp4Sendmsg
  | cgroupUdp6Sendmsg
  | lircMode2
  | flowDissector
  | cgroupSysctl
  | cgroupUdp4Recvmsg
  | cgroupUdp6Recvmsg
  | cgroupGetsockopt
  | cgroupSetsockopt
  | traceRawTp
  | traceFentry
  | traceFexit
  | modifyReturn
  | lsmMac
  | traceIter
  | cgroupInet4Getpeername
  | cgroupInet6Getpeername
  | cgroupInet4Getsockname
  | cgroupInet6Getsockname
  | xdpDevmap
  | xdpCpumap
  | xdp
  | skLookup
  | skReuseportSelect
  | skReuseportSelectOrMigrate
  deriving DecidableEq, Repr

/-- What the loader reads of a `bpf_sec_def`. The attach type that is zero is
BPF_CGROUP_INET_INGRESS. -/
structure BpfSecDef where
  sec : String
  progType : BpfProgType
  expectedAttachType : BpfAttachType := .cgroupInetIngress
  isSleepable : Bool := false
  deriving DecidableEq, Repr

def sectionDefs : List BpfSecDef :=
  [{ sec := "socket", progType := .socketFilter },
    ⟨"sk_reuseport/migrate", .skReuseport, .skReuseportSelectOrMigrate, false⟩,
    ⟨"sk_reuseport", .skReuseport, .skReuseportSelect, false⟩,
    { sec := "kprobe/", progType := .kprobe },
    { sec := "uprobe/", progType := .kprobe },
    { sec := "kretprobe/", progType := .kprobe },
    { sec := "uretprobe/", progType := .kprobe },
    { sec := "tc", progType := .schedCls },
    { sec := "classifier", progType := .schedCls },
    { sec := "action", progType := .schedAct },
    { sec := "tracepoint/", progType := .tracepoint },
    { sec := "tp/", progType := .tracepoint },
    { sec := "raw_tracepoint/", progType := .rawTracepoint },
    { sec := "raw_tp/", progType := .rawTracepoint },
    ⟨"tp_btf/", .tracing, .traceRawTp, false⟩,
    ⟨"fentry/", .tracing, .traceFentry, false⟩,
    ⟨"fmod_ret/", .tracing, .modifyReturn, false⟩,
    ⟨"fexit/", .tracing, .traceFexit, false⟩,
    ⟨"fentry.s/", .tracing, .traceFentry, true⟩,
    ⟨"fmod_ret.s/", .tracing, .modifyReturn, true⟩,
    ⟨"fexit.s/", .tracing, .traceFexit, true⟩,
    { sec := "freplace/", progType := .ext },
    ⟨"lsm/", .lsm, .lsmMac, false⟩,
    ⟨"lsm.s/", .lsm, .lsmMac, true⟩,
    ⟨"iter/", .tracing, .traceIter, false⟩,
    { sec := "syscall", progType := .syscall, isSleepable := true },
    ⟨"xdp_devmap/", .xdp, .xdpDevmap, false⟩,
    ⟨"xdp_cpumap/", .xdp, .xdpCpumap, false⟩,
    ⟨"xdp", .xdp, .xdp, false⟩,
    { sec := "perf_event", progType := .perfEvent },
    { sec := "lwt_in", progType := .lwtIn },
    { sec := "lwt_out", progType := .lwtOut },
    { sec := "lwt_xmit", progType := .lwtXmit },
    { sec := "lwt_seg6local", progType := .lwtSeg6local },
    ⟨"cgroup_skb/ingress", .cgroupSkb, .cgroupInetIngress, false⟩,
    ⟨"cgroup_skb/egress", .cgroupSkb, .cgroupInetEgress, false⟩,
    { sec := "cgroup/skb", progType := .cgroupSkb },
    ⟨"cgroup/sock_create", .cgroupSock, .cgroupInetSockCreate, false⟩,
    ⟨"cgroup/sock_release", .cgroupSock, .cgroupInetSockRelease, false⟩,
    ⟨"cgroup/sock", .cgroupSock, .cgroupInetSockCreate, false⟩,
    ⟨"cgroup/post_bind4", .cgroupSock, .cgroupInet4PostBind, false⟩,
    ⟨"cgroup/post_bind6", .cgroupSock, .cgroupInet6PostBind, false⟩,
    ⟨"cgroup/dev", .cgroupDevice, .cgroupDevice, false⟩,
    ⟨"sockops", .sockOps, .cgroupSockOps, false⟩,
    ⟨"sk_skb/stream_parser", .skSkb, .skSkbStreamParser, false⟩,
    ⟨"sk_skb/stream_verdict", .skSkb, .skSkbStreamVerdict, false⟩,
    { sec := "sk_skb", progType := .skSkb },
    ⟨"sk_msg", .skMsg, .skMsgVerdict, false⟩,
    ⟨"lirc_mode2", .lircMode2, .lircMode2, false⟩,
    ⟨"flow_dissector", .flowDissector, .flowDissector, false⟩,
    ⟨"cgroup/bind4", .cgroupSockAddr, .cgroupInet4Bind, false⟩,
    ⟨"cgroup/bind6", .cgroupSockAddr, .cgroupInet6Bind, false⟩,
    ⟨"cgroup/connect4", .cgroupSockAddr, .cgroupInet4Connect, false⟩,
    ⟨"cgroup/connect6", .cgroupSockAddr, .cgroupInet6Connect, false⟩,
    ⟨"cgroup/sendmsg4", .cgroupSockAddr, .cgroupUdp4Sendmsg, false⟩,
    ⟨"cgroup/sendmsg6", .cgroupSockAddr, .cgroupUdp6Sendmsg, false⟩,
    ⟨"cgroup/recvmsg4", .cgroupSockAddr, .cgroupUdp4Recvmsg, false⟩,
    ⟨"cgroup/recvmsg6", .cgroupSockAddr, .cgroupUdp6Recvmsg, false⟩,
    ⟨"cgroup/getpeername4", .cgroupSockAddr, .cgroupInet4Getpeername, false⟩,
    ⟨"cgroup/getpeername6", .cgroupSockAddr, .cgroupInet6Getpeername, false⟩,
    ⟨"cgroup/getsockname4", .cgroupSockAddr, .cgroupInet4Getsockname, false⟩,
    ⟨"cgroup/getsockname6", .cgroupSockAddr, .cgroupInet6Getsockname, false⟩,
    ⟨"cgroup/sysctl", .cgroupSysctl, .cgroupSysctl, false⟩,
    ⟨"cgroup/getsockopt", .cgroupSockopt, .cgroupGetsockopt, false⟩,
    ⟨"cgroup/setsockopt", .cgroupSockopt, .cgroupSetsockopt, false⟩,
    { sec := "struct_ops", progType := .structOps },
    ⟨"sk_lookup/", .skLookup, .skLookup, false⟩]

/-- `find_sec_def`: the first definition whose name `secName` begins with. -/
def findSecDef (secName : String) : Option BpfSecDef :=
  sectionDefs.find? fun d => d.sec.toList.isPrefixOf secName.toList

/-! ## Parsing -/

/-- `struct iu_prog`. -/
structure IuProg where
  name : String
  progType : BpfProgType
  offset : UInt64
  fd : Int
  deriving DecidableEq, Repr

/-- What the loader fills in of a `struct bpf_program`; `instances` is the one fd, if there is any.
-/
structure BpfProgram where
  name : String
  secName : String
  pinName : String
  secIdx : UInt16
  secInsnOff : UInt64
  secInsnCnt : UInt64
  type : BpfProgType
  expectedAttachType : BpfAttachType
  progFlags : UInt32
  instances : Option Int
  /-- History: the symbol it was made of. -/
  sym : Elf64Sym
  deriving DecidableEq, Repr

/-- A function symbol, the name of its section and the definition of that. -/
structure ProgSym where
  sym : Elf64Sym
  scnName : String
  secDef : BpfSecDef
  deriving DecidableEq, Repr

/-- Whether a symbol is a program; `scns` are the names of the sections. -/
def progSym (scns : List String) (sym : Elf64Sym) : Option ProgSym :=
  match scns[sym.stShndx.toNat]? with
  | none => none
  | some scnName =>
      if sym.stType ≠ sttFunc then none
      else
        match findSecDef scnName with
        | none => none
        | some secDef => some ⟨sym, scnName, secDef⟩

/-- The constructor of `iu_prog`. -/
def IuProg.init (f : ProgSym) : IuProg := ⟨f.sym.name, f.secDef.progType, f.sym.stValue, -1⟩

/-- `__iu_program__pin_name`. -/
def iuProgramPinName (secName : String) : String := secName.map fun c => if c = '/' then '_' else c

/-- `sizeof(struct bpf_insn)`. -/
def bpfInsnSz : UInt64 := 8

def bpfFSleepable : UInt32 := 16

/-- `iu_object__init_prog`. -/
def iuObjectInitProg (f : ProgSym) : BpfProgram where
  name := f.sym.name
  secName := f.scnName
  pinName := iuProgramPinName f.scnName
  secIdx := f.sym.stShndx
  secInsnOff := f.sym.stValue / bpfInsnSz
  secInsnCnt := f.sym.stSize / bpfInsnSz
  type := f.secDef.progType
  expectedAttachType := f.secDef.expectedAttachType
  progFlags := if f.secDef.isSleepable then bpfFSleepable else 0
  instances := none
  sym := f.sym

/-- `cmp_progs`. -/
def cmpProgs (a b : BpfProgram) : Int :=
  if a.secIdx ≠ b.secIdx then if a.secIdx < b.secIdx then -1 else 1
  else if a.secInsnOff < b.secInsnOff then -1 else 1

/-- The `bpf_attr` of BPF_PROG_LOAD_IU, but the license. The name is cut to its first 15 bytes. -/
structure LoadAttr where
  progType : BpfProgType
  progName : List UInt8
  baseProgFd : Int
  progOffset : UInt64
  deriving DecidableEq, Repr

/-- A call of BPF_PROG_LOAD_IU for the entry of `progs` with this name, and the answer. -/
structure LoadCall where
  name : String
  attr : LoadAttr
  fd : Int
  deriving DecidableEq, Repr

/-- `obj->programs`, and `progs` of the `iu_obj`. -/
structure ProgTables where
  programs : List BpfProgram
  progs : List (String × IuProg)
  /-- History: the calls of `load`. -/
  calls : List LoadCall
  deriving DecidableEq, Repr

def ProgTables.empty : ProgTables := ⟨[], [], []⟩

/-- `progs.try_emplace`. -/
def ProgTables.emplace (f : ProgSym) (t : ProgTables) : ProgTables :=
  { t with progs := tryEmplace f.sym.name (.init f) t.progs }

def ProgTables.append (f : ProgSym) (t : ProgTables) : ProgTables :=
  { t with programs := t.programs ++ [iuObjectInitProg f] }

section
variable (realloc strdup : Nat → Bool) (scns : List String)

/-- The loop of `parse_progs`. `realloc n` and `strdup n` say whether there is memory for the `n`-th
program and for its names. -/
def parseProgsLoop : List Elf64Sym → ProgTables → Int × ProgTables
  | [], t => (0, t)
  | sym :: syms, t =>
      match progSym scns sym with
      | none => parseProgsLoop syms t
      | some f =>
          if !realloc t.programs.length then (enomem, t.emplace f)
          else if !strdup t.programs.length then (-1, t.emplace f)
          else parseProgsLoop syms ((t.emplace f).append f)

/-- `iu_obj::parse_progs`; `shstrndx` says whether the section names are found, and `syms` is the
data of `.symtab`, if `elf_getdata` finds it. -/
def parseProgs (qsort : (BpfProgram → BpfProgram → Int) → List BpfProgram → List BpfProgram)
    (shstrndx : Bool) (syms : Option (List Elf64Sym)) : Int × ProgTables :=
  if !shstrndx then (-1, .empty)
  else
    match syms with
    | none => (-1, .empty)
    | some syms =>
        match parseProgsLoop realloc strdup scns syms .empty with
        | (ret, t) =>
            if ret ≠ 0 then (ret, t) else (0, { t with programs := qsort cmpProgs t.programs })

end

/-! ## Loading -/

/-- `malloc` and the assignments to `prog->instances`. -/
def BpfProgram.setInstance (fd : Int) (p : BpfProgram) : BpfProgram :=
  { p with instances := some fd }

/-- `it.second.fd = fd`. -/
def setFd (k : String) (fd : Int) (progs : List (String × IuProg)) : List (String × IuProg) :=
  progs.map fun e => if e.1 = k then (e.1, { e.2 with fd := fd }) else e

def loadAttr (progFd : Int) (it : IuProg) : LoadAttr where
  progType := it.progType
  progName := it.name.toUTF8.toList.take 15
  baseProgFd := progFd
  progOffset := it.offset

section
variable (bpf : Nat → LoadAttr → Int) (progFd : Int)

/-- The loop of `load`. `bpf n` is the kernel's answer to the `n`-th BPF_PROG_LOAD_IU. -/
def loadLoop : List (String × IuProg) → ProgTables → Bool × ProgTables
  | [], t => (true, t)
  | it :: its, t =>
      let attr := loadAttr progFd it.2
      let fd := bpf t.calls.length attr
      let t := { t with
        progs := setFd it.1 fd t.progs
        calls := t.calls ++ [⟨it.2.name, attr, fd⟩] }
      if fd < 0 then (false, t)
      else
        loadLoop its
          { t with programs := updateFirst BpfProgram.name it.2.name (.setInstance fd) t.programs }

/-- `load` from the removal of `rust.out` on. `iterate` is the order of the hash table. -/
def loadProgs (iterate : List (String × IuProg) → List (String × IuProg)) (removed : Bool)
    (t : ProgTables) : Bool × ProgTables :=
  if !removed then (false, t) else loadLoop bpf progFd (iterate t.progs) t

end

/-- `iu_obj::load` with this loop in it. -/
def progStages (st : Stages ProgTables) (bpf : Nat → LoadAttr → Int)
    (iterate : List (String × IuProg) → List (String × IuProg)) (removed : Bool) :
    Stages ProgTables :=
  { st with loadProgs := fun progFd t => loadProgs bpf progFd iterate removed t }

/-! ## What `parse_progs` leaves -/

variable {realloc strdup : Nat → Bool} {scns : List String} {syms : List Elf64Sym}
  {qsort : (BpfProgram → BpfProgram → Int) → List BpfProgram → List BpfProgram}
  {shstrndx : Bool} {t r : ProgTables}

/-- The programs of a symbol table. -/
def progSyms (scns : List String) (syms : List Elf64Sym) : List ProgSym :=
  syms.filterMap (progSym scns)

/-- A loop that succeeds has entered every program, in order. -/
theorem parseProgsLoop_eq (h : parseProgsLoop realloc strdup scns syms t = (0, r)) :
    r = (progSyms scns syms).foldl (fun t f => (t.emplace f).append f) t := by
  induction syms generalizing t with
  | nil => exact (Prod.mk.inj h).2.symm
  | cons sym syms ih =>
      rw [parseProgsLoop] at h
      rw [progSyms, List.filterMap_cons]
      cases hsym : progSym scns sym with
      | none =>
          rw [hsym] at h
          exact ih h
      | some f =>
          rw [hsym] at h
          simp only at h
          split at h
          · cases (Prod.mk.inj h).1
          · split at h
            · cases (Prod.mk.inj h).1
            · exact ih h

/-- **The loop succeeds exactly when there is memory for each program.** -/
theorem parseProgsLoop_fst : (parseProgsLoop realloc strdup scns syms t).1 = 0 ↔
    ∀ n < (progSyms scns syms).length,
      realloc (t.programs.length + n) = true ∧ strdup (t.programs.length + n) = true := by
  induction syms generalizing t with
  | nil => exact iff_of_true rfl fun n hn => absurd hn (Nat.not_lt_zero n)
  | cons sym syms ih =>
      rw [parseProgsLoop, progSyms]
      cases hsym : progSym scns sym with
      | none =>
          rw [List.filterMap_cons_none hsym]
          exact ih
      | some f =>
          rw [List.filterMap_cons_some hsym, List.length_cons, Nat.forall_lt_succ_left,
            Nat.add_zero]
          simp only
          split
          · next hrealloc =>
              have henomem : ¬ enomem = 0 := by decide
              exact iff_of_false henomem fun h => by simp [h.1.1] at hrealloc
          · next hrealloc =>
              split
              · next hdup =>
                  have hneg : ¬ (-1 : Int) = 0 := by omega
                  exact iff_of_false hneg fun h => by simp [h.1.2] at hdup
              · next hdup =>
                  have hlen : ((t.emplace f).append f).programs.length = t.programs.length + 1 :=
                    List.length_append
                  have hmemory : realloc t.programs.length = true ∧
                      strdup t.programs.length = true :=
                    ⟨by simpa using hrealloc, by simpa using hdup⟩
                  rw [and_iff_right hmemory]
                  refine ih.trans ?_
                  rw [hlen, progSyms]
                  simp only [Nat.add_assoc, Nat.add_comm 1]

/-- The tables hold these programs: the array each of them, the hash table the first of a name. -/
structure HoldsProgs (fs : List ProgSym) (t : ProgTables) : Prop where
  programs : t.programs.Perm (fs.map iuObjectInitProg)
  progs : t.progs = emplaceAll (fs.map fun f => (f.sym.name, .init f))
  calls : t.calls = []

theorem holdsProgs_foldl (fs : List ProgSym) :
    fs.foldl (fun t f => (t.emplace f).append f) ProgTables.empty =
      ⟨fs.map iuObjectInitProg, emplaceAll (fs.map fun f => (f.sym.name, .init f)), []⟩ := by
  induction fs using List.reverseRecOn with
  | nil => rfl
  | append_singleton fs f ih =>
      rw [List.foldl_concat, ih, List.map_append, List.map_append, List.map_singleton,
        List.map_singleton, emplaceAll_concat]
      rfl

theorem parseProgs_holdsProgs (hqsort : ∀ cmp l, (qsort cmp l).Perm l)
    (h : parseProgs realloc strdup scns qsort shstrndx (some syms) = (0, t)) :
    HoldsProgs (progSyms scns syms) t := by
  unfold parseProgs at h
  split at h
  · cases (Prod.mk.inj h).1
  · cases hloop : parseProgsLoop realloc strdup scns syms .empty with
    | mk ret tables =>
        simp only [hloop] at h
        split at h
        · next hret => exact absurd (Prod.mk.inj h).1 hret
        · next hret =>
            obtain rfl : ret = 0 := not_not.mp hret
            obtain rfl := (Prod.mk.inj h).2
            rw [parseProgsLoop_eq hloop, holdsProgs_foldl]
            exact ⟨hqsort _ _, rfl, rfl⟩

/-! ## What `load` leaves -/

variable {bpf : Nat → LoadAttr → Int} {progFd : Int} {its : List (String × IuProg)}
  {iterate : List (String × IuProg) → List (String × IuProg)} {removed : Bool} {n : Nat}

/-- The calls for some entries, the first of which is the `n`-th of all. -/
def callsFrom (bpf : Nat → LoadAttr → Int) (progFd : Int) :
    Nat → List (String × IuProg) → List LoadCall
  | _, [] => []
  | n, it :: its =>
      ⟨it.2.name, loadAttr progFd it.2, bpf n (loadAttr progFd it.2)⟩ ::
        callsFrom bpf progFd (n + 1) its

/-- The name of each entry loaded, with its descriptor. -/
def answers (calls : List LoadCall) : List (String × Int) := calls.map fun c => (c.name, c.fd)

theorem callsFrom_names (bpf : Nat → LoadAttr → Int) (progFd : Int) (n : Nat)
    (its : List (String × IuProg)) :
    (callsFrom bpf progFd n its).map LoadCall.name = its.map fun it => it.2.name := by
  induction its generalizing n with
  | nil => rfl
  | cons it its ih => rw [callsFrom, List.map_cons, ih, List.map_cons]

theorem mem_callsFrom {c : LoadCall} (h : c ∈ callsFrom bpf progFd n its) :
    ∃ it ∈ its, ∃ i, n ≤ i ∧
      c = ⟨it.2.name, loadAttr progFd it.2, bpf i (loadAttr progFd it.2)⟩ := by
  induction its generalizing n with
  | nil => cases h
  | cons it its ih =>
      rcases List.mem_cons.mp h with rfl | h
      · exact ⟨it, List.mem_cons_self, n, Nat.le_refl n, rfl⟩
      · obtain ⟨it', hit', i, hi, hc⟩ := ih h
        exact ⟨it', List.mem_cons_of_mem it hit', i, Nat.le_of_succ_le hi, hc⟩

/-- **A loop that succeeds has loaded every entry and put each answer in.** -/
theorem loadLoop_eq (h : loadLoop bpf progFd its t = (true, r)) :
    r.calls = t.calls ++ callsFrom bpf progFd t.calls.length its ∧
      r.programs = joinFirst BpfProgram.name BpfProgram.setInstance
        (answers (callsFrom bpf progFd t.calls.length its)) t.programs ∧
      ∀ c ∈ callsFrom bpf progFd t.calls.length its, 0 ≤ c.fd := by
  induction its generalizing t with
  | nil =>
      obtain rfl := (Prod.mk.inj h).2
      exact ⟨(List.append_nil _).symm, rfl, fun c hc => by cases hc⟩
  | cons it its ih =>
      rw [loadLoop] at h
      simp only at h
      split at h
      · cases (Prod.mk.inj h).1
      · next hfd =>
          obtain ⟨hcalls, hprograms, hnonneg⟩ := ih h
          rw [List.length_append, List.length_singleton] at hcalls hprograms hnonneg
          refine ⟨?_, hprograms, ?_⟩
          · rw [hcalls, List.append_assoc]
            rfl
          · intro c hc
            rcases List.mem_cons.mp hc with rfl | hc
            · exact not_lt.mp hfd
            · exact hnonneg c hc

theorem loadLoop_of_loadProgs (h : loadProgs bpf progFd iterate removed t = (true, r)) :
    loadLoop bpf progFd (iterate t.progs) t = (true, r) := by
  unfold loadProgs at h
  split at h
  · cases (Prod.mk.inj h).1
  · exact h

/-- A descriptor is not handed out again while it is open, and the loop closes none. -/
def FreshFds (bpf : Nat → LoadAttr → Int) : Prop :=
  ∀ i j a b, i < j → 0 ≤ bpf i a → bpf j b ≠ bpf i a

theorem callsFrom_fds_nodup (hfresh : FreshFds bpf)
    (hnonneg : ∀ c ∈ callsFrom bpf progFd n its, 0 ≤ c.fd) :
    ((callsFrom bpf progFd n its).map LoadCall.fd).Nodup := by
  induction its generalizing n with
  | nil => exact List.nodup_nil
  | cons it its ih =>
      rw [callsFrom, List.map_cons, List.nodup_cons]
      rw [callsFrom, List.forall_mem_cons] at hnonneg
      refine ⟨fun hmem => ?_, ih hnonneg.2⟩
      obtain ⟨c, hc, hfd⟩ := List.mem_map.mp hmem
      obtain ⟨it', _, i, hi, rfl⟩ := mem_callsFrom hc
      exact hfresh n i _ _ hi hnonneg.1 hfd

/-! ## The two tables -/

/-- The tables agree: every program has the descriptor of the call made with its own offset and
type, no descriptor is recorded twice and none is dropped. -/
structure TablesAgree (t : ProgTables) : Prop where
  loaded : ∀ p ∈ t.programs, ∃ c ∈ t.calls,
    p.instances = some c.fd ∧ c.attr.progOffset = p.sym.stValue ∧ c.attr.progType = p.type
  once : (t.programs.map BpfProgram.instances).Nodup
  kept : ∀ c ∈ t.calls, ∃ p ∈ t.programs, p.instances = some c.fd

/-- The entry of a program in the hash table. -/
def ProgSym.entry (f : ProgSym) : String × IuProg := (f.sym.name, .init f)

variable {fs : List ProgSym} {programs : List BpfProgram}

/-- More programs than descriptors cannot each have one of their own. -/
theorem names_nodup_of_tablesAgree (hfs : HoldsProgs fs t)
    (hits : its.Perm t.progs) (hcalls : r.calls = callsFrom bpf progFd n its)
    (hprograms : r.programs =
      joinFirst BpfProgram.name BpfProgram.setInstance (answers r.calls) t.programs)
    (h : TablesAgree r) : (fs.map fun f => f.sym.name).Nodup := by
  have hsubset : r.programs.map BpfProgram.instances ⊆ r.calls.map fun c => some c.fd := by
    intro i hi
    obtain ⟨p, hp, rfl⟩ := List.mem_map.mp hi
    obtain ⟨c, hc, hinstances, _⟩ := h.loaded p hp
    exact List.mem_map.mpr ⟨c, hc, hinstances.symm⟩
  have hle : (r.programs.map BpfProgram.instances).length ≤
      (r.calls.map fun c => some c.fd).length := (h.once.subperm hsubset).length_le
  have hlen : (callsFrom bpf progFd n its).length = its.length := by
    simpa using congrArg List.length (callsFrom_names bpf progFd n its)
  rw [List.length_map, List.length_map, hprograms, joinFirst_length, hfs.programs.length_eq,
    List.length_map, hcalls, hlen, hits.length_eq, hfs.progs] at hle
  have hnodup := length_le_emplaceAll_iff.mp ((List.length_map ..).trans_le hle)
  rwa [List.map_map] at hnodup

section Distinct

variable (hnames : (fs.map fun f => f.sym.name).Nodup)
  (hprograms : programs.Perm (fs.map iuObjectInitProg)) (hits : its.Perm (fs.map ProgSym.entry))
include hits

/-- The calls have the names of the programs. -/
theorem callsFrom_names_perm :
    ((callsFrom bpf progFd n its).map LoadCall.name).Perm (fs.map fun f => f.sym.name) := by
  rw [callsFrom_names]
  have hmap := hits.map fun it => it.2.name
  rwa [List.map_map] at hmap

include hnames

theorem answers_keys_nodup :
    ((answers (callsFrom bpf progFd n its)).map Prod.fst).Nodup := by
  rw [answers, List.map_map]
  exact (callsFrom_names_perm hits).nodup_iff.mpr hnames

/-- The answer recorded under the name of a call is its own. -/
theorem valueAt_answers {c : LoadCall} (hc : c ∈ callsFrom bpf progFd n its) :
    valueAt c.name (answers (callsFrom bpf progFd n its)) = some c.fd :=
  valueAt_of_mem (answers_keys_nodup hnames hits)
    (List.mem_map_of_mem (f := fun c : LoadCall => (c.name, c.fd)) hc)

/-- **Every program is loaded by a call of its own.** -/
theorem exists_call (bpf : Nat → LoadAttr → Int) (progFd : Int) (n : Nat) {f : ProgSym}
    (hf : f ∈ fs) :
    ∃ c ∈ callsFrom bpf progFd n its, c.name = f.sym.name ∧
      c.attr.progOffset = f.sym.stValue ∧ c.attr.progType = f.secDef.progType := by
  have hname : f.sym.name ∈ (callsFrom bpf progFd n its).map LoadCall.name :=
    (callsFrom_names_perm hits).mem_iff.mpr (List.mem_map_of_mem hf)
  obtain ⟨c, hc, hcname⟩ := List.mem_map.mp hname
  refine ⟨c, hc, hcname, ?_⟩
  obtain ⟨it, hit, i, _, rfl⟩ := mem_callsFrom hc
  obtain ⟨g, hg, rfl⟩ := List.mem_map.mp (hits.mem_iff.mp hit)
  -- a program of the same name is the same one
  obtain rfl : g = f := List.inj_on_of_nodup_map hnames hg hf hcname
  exact ⟨rfl, rfl⟩

include hprograms

theorem joinFirst_answers (bpf : Nat → LoadAttr → Int) (progFd : Int) (n : Nat) :
    joinFirst BpfProgram.name BpfProgram.setInstance (answers (callsFrom bpf progFd n its))
      programs = programs.map (putValue BpfProgram.name BpfProgram.setInstance
        (answers (callsFrom bpf progFd n its))) := by
  have hkeys : (programs.map BpfProgram.name).Perm (fs.map fun f => f.sym.name) := by
    have hmap := hprograms.map BpfProgram.name
    rwa [List.map_map] at hmap
  exact joinFirst_eq_map (fun _ _ => rfl) (hkeys.nodup_iff.mpr hnames)
    (answers_keys_nodup hnames hits)

/-- **The descriptors recorded are those the kernel answered with, each once.** -/
theorem instances_perm (bpf : Nat → LoadAttr → Int) (progFd : Int) (n : Nat) :
    ((joinFirst BpfProgram.name BpfProgram.setInstance (answers (callsFrom bpf progFd n its))
      programs).map BpfProgram.instances).Perm
        ((callsFrom bpf progFd n its).map fun c => some c.fd) := by
  have hleft : (joinFirst BpfProgram.name BpfProgram.setInstance
      (answers (callsFrom bpf progFd n its)) programs).map BpfProgram.instances =
      (programs.map BpfProgram.name).map
        fun k => valueAt k (answers (callsFrom bpf progFd n its)) := by
    rw [joinFirst_answers hnames hprograms hits bpf progFd n, List.map_map, List.map_map]
    apply List.map_congr_left
    intro p hp
    obtain ⟨f, _, rfl⟩ := List.mem_map.mp (hprograms.mem_iff.mp hp)
    show BpfProgram.instances (putValue _ _ _ _) = valueAt (iuObjectInitProg f).name _
    rw [putValue]
    cases valueAt (iuObjectInitProg f).name (answers (callsFrom bpf progFd n its)) with
    | none => rfl
    | some fd => rfl
  have hright : ((callsFrom bpf progFd n its).map fun c => some c.fd) =
      ((callsFrom bpf progFd n its).map LoadCall.name).map
        fun k => valueAt k (answers (callsFrom bpf progFd n its)) := by
    rw [List.map_map]
    apply List.map_congr_left
    intro c hc
    exact (valueAt_answers hnames hits hc).symm
  rw [hleft, hright]
  apply List.Perm.map
  have hmap := hprograms.map BpfProgram.name
  rw [List.map_map] at hmap
  exact hmap.trans (callsFrom_names_perm hits).symm

/-- With different names every program gets the descriptor of its own call. -/
theorem tablesAgree_of_names_nodup (hfresh : FreshFds bpf)
    (hcalls : r.calls = callsFrom bpf progFd n its)
    (hjoin : r.programs =
      joinFirst BpfProgram.name BpfProgram.setInstance (answers r.calls) programs)
    (hnonneg : ∀ c ∈ r.calls, 0 ≤ c.fd) : TablesAgree r := by
  have hperm := instances_perm hnames hprograms hits bpf progFd n
  have hmap := joinFirst_answers hnames hprograms hits bpf progFd n
  rw [← hcalls] at hperm hmap
  rw [← hjoin] at hperm hmap
  refine ⟨fun p hp => ?_, ?_, fun c hc => ?_⟩
  · rw [hmap] at hp
    obtain ⟨p₀, hp₀, rfl⟩ := List.mem_map.mp hp
    obtain ⟨f, hf, rfl⟩ := List.mem_map.mp (hprograms.mem_iff.mp hp₀)
    obtain ⟨c, hc, hname, hoffset, htype⟩ := exists_call hnames hits bpf progFd n hf
    refine ⟨c, hcalls ▸ hc, ?_⟩
    rw [hcalls, putValue, show (iuObjectInitProg f).name = c.name from hname.symm,
      valueAt_answers hnames hits hc]
    exact ⟨rfl, hoffset, htype⟩
  · apply hperm.nodup_iff.mpr
    have hnodup := (callsFrom_fds_nodup hfresh (hcalls ▸ hnonneg)).map (Option.some_injective Int)
    rwa [List.map_map, ← hcalls] at hnodup
  · have hmem : some c.fd ∈ r.programs.map BpfProgram.instances :=
      hperm.mem_iff.mpr (List.mem_map_of_mem (f := fun c : LoadCall => some c.fd) hc)
    obtain ⟨p, hp, hinstances⟩ := List.mem_map.mp hmem
    exact ⟨p, hp, hinstances⟩

end Distinct

/-- **The tables agree exactly when the programs have different names.** -/
theorem tablesAgree_iff {st : Stages ProgTables} {o : IuObj ProgTables}
    (hqsort : ∀ cmp l, (qsort cmp l).Perm l) (hiterate : ∀ l, (iterate l).Perm l)
    (hfresh : FreshFds bpf)
    (hparse : parseProgs realloc strdup scns qsort shstrndx (some syms) = (0, o.image))
    (hload : 0 ≤ ((progStages st bpf iterate removed).load o).1) :
    TablesAgree ((progStages st bpf iterate removed).load o).2.image ↔
      ((progSyms scns syms).map fun f => f.sym.name).Nodup := by
  have hfs := parseProgs_holdsProgs hqsort hparse
  have hloop := loadLoop_of_loadProgs ((progStages st bpf iterate removed).load_loadProgs hload)
  obtain ⟨hcalls, hjoin, hnonneg⟩ := loadLoop_eq hloop
  rw [hfs.calls] at hcalls hjoin hnonneg
  rw [List.nil_append] at hcalls
  rw [← hcalls] at hjoin hnonneg
  constructor
  · intro h
    exact names_nodup_of_tablesAgree hfs (hiterate _) hcalls hjoin h
  · intro hnames
    have hits : (iterate o.image.progs).Perm ((progSyms scns syms).map ProgSym.entry) := by
      refine (hiterate _).trans ?_
      rw [hfs.progs, emplaceAll_eq_self (by rwa [List.map_map])]
      exact List.Perm.refl _
    exact tablesAgree_of_names_nodup hnames hfs.programs hits hfresh hcalls hjoin hnonneg

/-- Sorting by insertion. -/
def sortProgs (cmp : BpfProgram → BpfProgram → Int) (l : List BpfProgram) : List BpfProgram :=
  l.insertionSort fun a b => cmp a b ≤ 0

/-- Stages that succeed; the base program gets descriptor 3 and the programs those from 4 on. -/
def quietStages : Stages ProgTables where
  parseScns := fun t => (0, t)
  parseMaps := fun t => (0, t)
  parseProgs := fun t => (0, t)
  parseRelaDyn := fun t => (0, t)
  fixMaps := fun t => (0, t)
  bpfProgLoadIuBase := fun _ => 3
  loadProgs := fun _ t => (true, t)
  parseScns_le := fun _ => Int.le_refl 0
  parseMaps_le := fun _ => Int.le_refl 0
  parseProgs_le := fun _ => Int.le_refl 0
  parseRelaDyn_le := fun _ => Int.le_refl 0
  fixMaps_le := fun _ => Int.le_refl 0

def fdsFrom4 (n : Nat) (_ : LoadAttr) : Int := 4 + n

theorem fdsFrom4_fresh : FreshFds fdsFrom4 := by
  intro i j a b hij _
  unfold fdsFrom4
  omega

/-- What `parse_progs` leaves of a symbol table while there is memory. -/
def parsedObj (scns : List String) (syms : List Elf64Sym) : IuObj ProgTables :=
  ⟨(parseProgs (fun _ => true) (fun _ => true) scns sortProgs true (some syms)).2, -1, []⟩

def loadedObj (scns : List String) (syms : List Elf64Sym) : Int × IuObj ProgTables :=
  (progStages quietStages fdsFrom4 List.reverse true).load (parsedObj scns syms)

def twoScns : List String := ["", "socket", "kprobe/do_dup"]

/-- The first in the file is the second in the array. -/
def twoPrograms : List Elf64Sym :=
  [⟨"dup", sttFunc, 2, 0x1040, 24⟩, ⟨"filter", sttFunc, 1, 0x1000, 64⟩]

theorem tablesAgree_twoPrograms : TablesAgree (loadedObj twoScns twoPrograms).2.image := by
  have hparse : parseProgs (fun _ => true) (fun _ => true) twoScns sortProgs true
      (some twoPrograms) = (0, (parsedObj twoScns twoPrograms).image) :=
    Prod.ext (by decide +kernel) rfl
  refine (tablesAgree_iff (fun cmp l => List.perm_insertionSort _ l) List.reverse_perm
    fdsFrom4_fresh hparse ?_).mpr ?_
  · decide +kernel
  · decide +kernel

/-- Two programs with one name. -/
def namesakes : List Elf64Sym :=
  [⟨"prog", sttFunc, 2, 0x1040, 24⟩, ⟨"prog", sttFunc, 1, 0x1000, 64⟩]

/-- One of them has no descriptor. -/
theorem tablesAgree_fails :
    (parseProgs (fun _ => true) (fun _ => true) twoScns sortProgs true (some namesakes)).1 = 0 ∧
      0 ≤ (loadedObj twoScns namesakes).1 ∧
      ¬ TablesAgree (loadedObj twoScns namesakes).2.image := by
  refine ⟨by decide +kernel, by decide +kernel, fun h => ?_⟩
  have hnone : ∃ p ∈ (loadedObj twoScns namesakes).2.image.programs, p.instances = none := by
    decide +kernel
  obtain ⟨p, hp, hinstances⟩ := hnone
  obtain ⟨c, _, hsome, _⟩ := h.loaded p hp
  rw [hinstances] at hsome
  cases hsome

end KernelDev.Loader
