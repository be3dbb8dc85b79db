/-
# KernelDev.Loader.MapLookup — three ways to a map

Once its object is loaded a map is found in three places. The program finds the descriptor in the
static that `MAP_DEF!` has made; a client of libbpf finds it in the `bpf_map` of the name; a client
of libiu asks `iu_obj_get_map` for the name. The static is found at the address of its symbol, and
there is one descriptor for each address. The other two go by the name, which `fix_maps` takes from
the first symbol of the address, and which need not be the name of one map only.

`sameMap_iff` says when the three agree. What a static holds is in any case the descriptor of a map
that the kernel has been asked for with the parameters of that static.
-/
import KernelDev.Loader.FixMaps
import KernelDev.Loader.Process

namespace KernelDev.Loader

open KernelDev.Lib

/-! ## The tables of names -/

/-- The descriptor in the first `bpf_map` of the name. -/
def fdNamed (name : String) (maps : List BpfMap) : Option Int :=
  (maps.find? fun m => m.name = some name).map (·.fd)

theorem fdNamed_cons (name : String) (m : BpfMap) (maps : List BpfMap) :
    fdNamed name (m :: maps) = if m.name = some name then some m.fd else fdNamed name maps := by
  unfold fdNamed
  rw [List.find?_cons]
  by_cases hname : m.name = some name
  · rw [decide_eq_true hname, if_pos hname]
    rfl
  · rw [decide_eq_false hname, if_neg hname]

/-- `fix_maps` and a client stop at the same `bpf_map` of a name. -/
theorem fdNamed_setMapFd_same (name : String) (fd : Int) (maps : List BpfMap) :
    fdNamed name (setMapFd name fd maps) = (fdNamed name maps).map fun _ => fd := by
  induction maps with
  | nil => rfl
  | cons m maps ih =>
      rw [setMapFd, fdNamed_cons name m]
      by_cases hname : m.name = some name
      · rw [if_pos hname, if_pos hname, fdNamed_cons, if_pos hname]
        rfl
      · rw [if_neg hname, if_neg hname, fdNamed_cons, if_neg hname, ih]

theorem fdNamed_setMapFd_other {name other : String} (hne : other ≠ name) (fd : Int)
    (maps : List BpfMap) : fdNamed other (setMapFd name fd maps) = fdNamed other maps := by
  induction maps with
  | nil => rfl
  | cons m maps ih =>
      rw [setMapFd, fdNamed_cons other m]
      by_cases hname : m.name = some name
      · have hother : ¬ m.name = some other := fun h =>
          hne (Option.some.inj (h.symm.trans hname))
        rw [if_pos hname, fdNamed_cons, if_neg hother, if_neg hother]
      · rw [if_neg hname, fdNamed_cons, ih]

variable {scn : MapsSection} {fds : Nat → Int} {order : List (UInt64 × IuMap)} {s s' : FixState}

/-- The names of the maps, as `name2map` is given them. -/
def namesOf (order : List (UInt64 × IuMap)) : List (String × UInt64) :=
  order.map fun e => (e.2.name, e.1)

/-- **What a loop that succeeds leaves to be found.** -/
structure Found (fds : Nat → Int) (order : List (UInt64 × IuMap)) (s s' : FixState) : Prop where
  name2map : s'.name2map = (namesOf order).foldl (fun m e => tryEmplace e.1 e.2 m) s.name2map
  /-- The `iu_map` of an address has what was answered for it. -/
  mapFd : (order.map Prod.fst).Nodup → ∀ i e, order[i]? = some e →
    s'.mapFd e.1 = fds (s.creates.length + i)
  otherFd : ∀ v, v ∉ order.map Prod.fst → s'.mapFd v = s.mapFd v
  /-- So has the `bpf_map` of a name, where the names differ. -/
  bpfMap : ((namesOf order).map Prod.fst).Nodup → ∀ i e, order[i]? = some e →
    fdNamed e.2.name s'.maps = (fdNamed e.2.name s.maps).map fun _ => fds (s.creates.length + i)
  otherBpfMap : ∀ name, name ∉ (namesOf order).map Prod.fst →
    fdNamed name s'.maps = fdNamed name s.maps

theorem found_of_loop (h : fixMapsLoop scn fds order s = (0, s')) : Found fds order s s' := by
  induction order generalizing s with
  | nil =>
      obtain rfl : s = s' := (Prod.mk.inj h).2
      exact ⟨rfl, fun _ i e he => (by cases he), fun _ _ => rfl, fun _ i e he => (by cases he),
        fun _ _ => rfl⟩
  | cons e order ih =>
      rw [fixMapsLoop] at h
      split at h
      · cases (Prod.mk.inj h).1
      obtain ⟨hname2map, hmapFd, hotherFd, hbpfMap, hotherBpfMap⟩ := ih h
      have hlen : ((s.create e (fds s.creates.length)).fix scn e
          (fds s.creates.length)).creates.length = s.creates.length + 1 := List.length_append
      have hstep : ∀ v, ((s.create e (fds s.creates.length)).fix scn e
          (fds s.creates.length)).mapFd v = Function.update s.mapFd e.1 (fds s.creates.length) v :=
        fun _ => rfl
      have hmaps : ((s.create e (fds s.creates.length)).fix scn e (fds s.creates.length)).maps =
          setMapFd e.2.name (fds s.creates.length) s.maps := rfl
      simp only [hlen, hmaps, Nat.add_assoc, Nat.add_comm 1] at hmapFd hbpfMap hotherBpfMap
      refine ⟨hname2map, fun honce i f hf => ?_, fun v hv => ?_, fun honce i f hf => ?_,
        fun name hname => ?_⟩
      · rw [List.map_cons, List.nodup_cons] at honce
        cases i with
        | zero =>
            obtain rfl := Option.some.inj hf
            rw [hotherFd _ honce.1, hstep, Function.update_self]
            rfl
        | succ i => exact hmapFd honce.2 i f hf
      · rw [List.map_cons, List.mem_cons, not_or] at hv
        rw [hotherFd v hv.2, hstep, Function.update_of_ne hv.1]
      · rw [namesOf, List.map_cons, List.map_cons, List.nodup_cons] at honce
        cases i with
        | zero =>
            obtain rfl := Option.some.inj hf
            rw [hotherBpfMap _ honce.1, fdNamed_setMapFd_same]
            rfl
        | succ i =>
            -- a later map has another name than the first
            have hmem : f.2.name ∈ (namesOf order).map Prod.fst := by
              rw [namesOf, List.map_map]
              exact List.mem_map_of_mem (List.mem_of_getElem? (l := order) hf)
            have hne : f.2.name ≠ e.2.name := fun heq => honce.1 (heq ▸ hmem)
            rw [hbpfMap honce.2 i f hf, fdNamed_setMapFd_other hne]
      · rw [namesOf, List.map_cons, List.map_cons, List.mem_cons, not_or] at hname
        rw [hotherBpfMap name hname.2, fdNamed_setMapFd_other hname.1]

/-! ## The symbols and the entries -/

variable {mem : Memory} {addMap strdup : Nat → Bool} {dBuf pos : UInt64} {syms : List Elf64Sym}
  {t : MapTables} {sym sym' : Elf64Sym} {p : MapParams} {fileSize : UInt64}

/-- `sym` is the symbol of a map definition. -/
def MapsScn.Defines (scn : MapsScn) (sym : Elf64Sym) : Prop :=
  scn.holds sym ∧ sym.stSize = mapDefSize

/-- No two addresses share a name, and no address has two. -/
def OneName (scn : MapsScn) (syms : List Elf64Sym) : Prop :=
  ∀ sym ∈ syms, ∀ sym' ∈ syms, scn.Defines sym → scn.Defines sym' →
    (sym.name = sym'.name ↔ sym.stValue = sym'.stValue)

/-- An entry of `map_defs` has the address and the name of a symbol. -/
theorem Entered.symbol_of_mem {scn : MapsScn}
    (ht : Entered mem scn dBuf (syms.filter scn.holds) t)
    (hnodup : (t.mapDefs.map Prod.fst).Nodup) {e : UInt64 × IuMap} (he : e ∈ t.mapDefs) :
    ∃ sym ∈ syms, scn.Defines sym ∧ sym.stValue = e.1 ∧ sym.name = e.2.name := by
  have hvalue := valueAt_of_mem hnodup he
  rw [ht.mapDefs] at hvalue
  obtain ⟨sym, hfind, hinit⟩ := Option.map_eq_some_iff.mp hvalue
  obtain ⟨hsym, hholds⟩ := List.mem_filter.mp (List.mem_of_find?_eq_some hfind)
  have hkey := List.find?_some hfind
  obtain ⟨hsize, haddr⟩ := of_decide_eq_true hkey
  exact ⟨sym, hsym, ⟨hholds, hsize⟩, haddr, congrArg IuMap.name hinit⟩

/-- A symbol's name is that of a `bpf_map`. -/
theorem Entered.fdNamed_isSome {scn : MapsScn}
    (ht : Entered mem scn dBuf (syms.filter scn.holds) t) (hsym : sym ∈ syms)
    (hholds : scn.holds sym) : (fdNamed sym.name t.maps).isSome := by
  rw [fdNamed, Option.isSome_map, List.find?_isSome, ht.maps]
  exact ⟨bpfMapOf mem dBuf sym, List.mem_map_of_mem (List.mem_filter.mpr ⟨hsym, hholds⟩),
    decide_eq_true rfl⟩

/-! ## The three ways -/

/-- The static of the symbol, the `bpf_map` of its name and the client that asks for its name have
the descriptor `fd`. -/
structure SameMap (scn : MapsSection) (o : Obj) (sym : Elf64Sym) (fd : Int) : Prop where
  nonneg : 0 ≤ fd
  static : load o.image.fix.fileMap (kptrFileOff scn sym.stValue) 8 = leBytes 8 fd.toNat
  bpfMap : fdNamed sym.name o.image.fix.maps = some fd
  iuMap : o.findMapByName sym.name = fd

/-- The static of the symbol has the descriptor of a map that has been asked for with these
parameters. -/
def MadeAsDeclared (scn : MapsSection) (o : Obj) (sym : Elf64Sym) (p : MapParams) : Prop :=
  ∃ attr fd, (attr, fd) ∈ o.image.fix.creates ∧ 0 ≤ fd ∧
    p.Means attr.mapType attr.keySize attr.valueSize attr.maxEntries attr.mapFlags ∧
    load o.image.fix.fileMap (kptrFileOff scn sym.stValue) 8 = leBytes 8 fd.toNat

/-- The kernel's answers are descriptors that differ. -/
structure Answered (fds : Nat → Int) (n : Nat) : Prop where
  lt : ∀ i < n, fds i < 2 ^ 31
  differ : ∀ i < n, ∀ j < n, fds i = fds j → i = j

/-- What is known of an object whose maps have been created: what its statics hold, and what its
tables of names find. -/
structure Looked (scn : MapsSection) (fds : Nat → Int) (order : List (UInt64 × IuMap))
    (syms : List Elf64Sym) (o : Obj) : Prop where
  once : (order.map Prod.fst).Nodup
  symbol : ∀ e ∈ order, ∃ sym ∈ syms, scn.toMapsScn.Defines sym ∧ sym.stValue = e.1 ∧
    sym.name = e.2.name
  entry : ∀ sym ∈ syms, scn.toMapsScn.Defines sym → ∃ (i : Nat) (m : IuMap),
    order[i]? = some (sym.stValue, m) ∧ 0 ≤ fds i ∧
    load o.image.fix.fileMap (kptrFileOff scn sym.stValue) 8 = leBytes 8 (fds i).toNat
  mapFd : ∀ i e, order[i]? = some e → o.image.fix.mapFd e.1 = fds i
  name2map : o.image.fix.name2map = emplaceAll (namesOf order)
  bpfMap : ((namesOf order).map Prod.fst).Nodup → ∀ sym ∈ syms, scn.toMapsScn.Defines sym →
    ∀ i m, order[i]? = some (sym.stValue, m) → m.name = sym.name →
    fdNamed sym.name o.image.fix.maps = some (fds i)

variable {o : Obj} {fd : Int}

theorem leBytes_fd_inj {fd fd' : Int} (hfd : 0 ≤ fd) (hfd' : 0 ≤ fd') (hlt : fd < 2 ^ 31)
    (hlt' : fd' < 2 ^ 31) (h : leBytes 8 fd.toNat = leBytes 8 fd'.toNat) : fd = fd' := by
  have hread := congrArg readLe h
  rw [readLe_leBytes (by omega), readLe_leBytes (by omega)] at hread
  omega

/-- What a client finds under a name is the descriptor of an entry of the name. -/
theorem Looked.entry_of_findMapByName (h : Looked scn fds order syms o) {name : String}
    (hfind : o.findMapByName name = fd) (hfd : 0 ≤ fd) :
    ∃ i e, order[i]? = some e ∧ e.2.name = name ∧ fds i = fd := by
  unfold Obj.findMapByName at hfind
  cases hv : valueAt name o.image.fix.name2map with
  | none =>
      simp only [hv] at hfind
      omega
  | some v =>
      simp only [hv] at hfind
      have hmem := mem_of_valueAt hv
      rw [h.name2map] at hmem
      obtain ⟨e, he, heq⟩ := List.mem_map.mp ((emplaceAll_sublist _).mem hmem)
      obtain ⟨rfl, rfl⟩ := Prod.mk.inj heq
      obtain ⟨i, hi⟩ := List.mem_iff_getElem?.mp he
      exact ⟨i, e, hi, rfl, (h.mapFd i e hi).symm.trans hfind⟩

/-- **Where the static and the client agree, the entry of the address has the symbol's name.** -/
theorem Looked.entry_of_sameMap (h : Looked scn fds order syms o)
    (hfds : Answered fds order.length) (hsym : sym ∈ syms) (hdef : scn.toMapsScn.Defines sym)
    (hsame : SameMap scn o sym fd) :
    ∃ i m, order[i]? = some (sym.stValue, m) ∧ m.name = sym.name ∧ fds i = fd := by
  obtain ⟨i, m, hi, hpos, hstatic⟩ := h.entry sym hsym hdef
  obtain ⟨j, e, hj, hname, rfl⟩ := h.entry_of_findMapByName hsame.iuMap hsame.nonneg
  have hilt : i < order.length := (List.getElem?_eq_some_iff.mp hi).1
  have hjlt : j < order.length := (List.getElem?_eq_some_iff.mp hj).1
  have hfd : fds i = fds j := leBytes_fd_inj hpos hsame.nonneg (hfds.lt i hilt) (hfds.lt j hjlt)
    (hstatic.symm.trans hsame.static)
  obtain rfl := hfds.differ i hilt j hjlt hfd
  obtain rfl := Option.some.inj (hj.symm.trans hi)
  exact ⟨i, m, hi, hname, rfl⟩

/-- An address has one entry. -/
theorem Looked.entry_unique (h : Looked scn fds order syms o) {i j : Nat} {v : UInt64}
    {m m' : IuMap} (hi : order[i]? = some (v, m)) (hj : order[j]? = some (v, m')) : m = m' := by
  have hm : valueAt v order = some m := valueAt_of_mem h.once (List.mem_of_getElem? hi)
  have hm' : valueAt v order = some m' := valueAt_of_mem h.once (List.mem_of_getElem? hj)
  exact Option.some.inj (hm.symm.trans hm')

/-- An entry has the name of its first symbol, and where names are one-to-one that is the name of
all of them. -/
theorem Looked.name_eq (h : Looked scn fds order syms o) (hone : OneName scn.toMapsScn syms)
    (hsym : sym ∈ syms) (hdef : scn.toMapsScn.Defines sym) {i : Nat} {m : IuMap}
    (hi : order[i]? = some (sym.stValue, m)) : m.name = sym.name := by
  obtain ⟨first, hfirst, hdef', hvalue, hname⟩ := h.symbol _ (List.mem_of_getElem? hi)
  have hsame : first.name = sym.name := (hone first hfirst sym hsym hdef' hdef).mpr hvalue
  exact hname.symm.trans hsame

/-- The entries then have different names. -/
theorem Looked.names_nodup (h : Looked scn fds order syms o) (hone : OneName scn.toMapsScn syms) :
    ((namesOf order).map Prod.fst).Nodup := by
  rw [namesOf, List.map_map]
  refine List.pairwise_map.mpr ((List.pairwise_map.mp h.once).imp_of_mem ?_)
  intro e f he hf hne heq
  obtain ⟨a, ha, hdefa, hvaluea, hnamea⟩ := h.symbol e he
  obtain ⟨b, hb, hdefb, hvalueb, hnameb⟩ := h.symbol f hf
  apply hne
  rw [← hvaluea, ← hvalueb]
  exact (hone a ha b hb hdefa hdefb).mp (hnamea.trans (heq.trans hnameb.symm))

/-- **The three ways agree for all maps exactly when each has a name of its own.** -/
theorem Looked.sameMap_iff (h : Looked scn fds order syms o) (hfds : Answered fds order.length) :
    (∀ sym ∈ syms, scn.toMapsScn.Defines sym → ∃ fd, SameMap scn o sym fd) ↔
      OneName scn.toMapsScn syms := by
  constructor
  · intro hall sym hsym sym' hsym' hdef hdef'
    obtain ⟨fd, hsame⟩ := hall sym hsym hdef
    obtain ⟨fd', hsame'⟩ := hall sym' hsym' hdef'
    obtain ⟨i, m, hi, hname, hfd⟩ := h.entry_of_sameMap hfds hsym hdef hsame
    obtain ⟨j, m', hj, hname', hfd'⟩ := h.entry_of_sameMap hfds hsym' hdef' hsame'
    constructor
    · intro heq
      have hsameFd : fds i = fds j := by
        rw [hfd, hfd', ← hsame.iuMap, ← hsame'.iuMap, heq]
      obtain rfl := hfds.differ i (List.getElem?_eq_some_iff.mp hi).1 j
        (List.getElem?_eq_some_iff.mp hj).1 hsameFd
      exact congrArg Prod.fst (Option.some.inj (hi.symm.trans hj))
    · intro heq
      rw [← heq] at hj
      obtain rfl := h.entry_unique hi hj
      exact hname.symm.trans hname'
  · intro hone sym hsym hdef
    obtain ⟨i, m, hi, hpos, hstatic⟩ := h.entry sym hsym hdef
    have hmem : (sym.stValue, m) ∈ order := List.mem_of_getElem? hi
    have hname : m.name = sym.name := h.name_eq hone hsym hdef hi
    have hnames : ((namesOf order).map Prod.fst).Nodup := h.names_nodup hone
    refine ⟨fds i, hpos, hstatic, h.bpfMap hnames sym hsym hdef i m hi hname, ?_⟩
    have hfind : valueAt sym.name o.image.fix.name2map = some sym.stValue := by
      rw [h.name2map, emplaceAll_eq_self hnames, ← hname]
      exact valueAt_of_mem hnames (List.mem_map_of_mem (f := fun e => (e.2.name, e.1)) hmem)
    unfold Obj.findMapByName
    simp only [hfind]
    exact h.mapFd i _ hi

/-! ## From the file to the descriptors -/

/-- `fix_maps` returns 0 from the end of its loop. -/
theorem found_of_fixMaps {file : Memory} {mapped : Bool}
    (hfix : fixMaps fds (some scn) mapped order (.start file t.maps) = (0, s)) :
    Fixed scn fds order (.start file t.maps) s ∧ Found fds order (.start file t.maps) s := by
  unfold fixMaps at hfix
  cases mapped with
  | false => cases (Prod.mk.inj hfix).1
  | true => exact ⟨fixed_of_loop hfix, found_of_loop hfix⟩

/-- **What can be found of the maps of a parsed program.** -/
theorem Found.looked {file : Memory} (hfound : Found fds order (.start file t.maps) o.image.fix)
    (hpatched : Patched scn fds mem dBuf syms file fileSize order o.image.fix)
    (heach : EachOnce scn.toMapsScn syms order)
    (ht : Entered mem scn.toMapsScn dBuf (syms.filter scn.holds) t)
    (hsymbol : ∀ e ∈ order, ∃ sym ∈ syms, scn.toMapsScn.Defines sym ∧ sym.stValue = e.1 ∧
      sym.name = e.2.name) :
    Looked scn fds order syms o := by
  have hstart : (FixState.start file t.maps).creates.length = 0 := rfl
  refine ⟨heach.once, hsymbol, fun sym hsym hdef => ?_, fun i e he => ?_, hfound.name2map,
    fun hnames sym hsym hdef i m hi hname => ?_⟩
  · obtain ⟨i, m, hi, -, -, hpos, hfield⟩ :=
      hpatched.field sym.stValue ⟨sym, hsym, hdef.1, hdef.2, rfl⟩
    exact ⟨i, m, hi, hpos, hfield⟩
  · have hfd := hfound.mapFd heach.once i e he
    rwa [hstart, Nat.zero_add] at hfd
  · have hfd := hfound.bpfMap hnames i _ hi
    obtain ⟨x, hx⟩ := Option.isSome_iff_exists.mp (ht.fdNamed_isSome hsym hdef.1)
    rw [hstart, Nat.zero_add] at hfd
    simp only [hname] at hfd
    rw [hfd]
    show (fdNamed sym.name t.maps).map _ = _
    rw [hx]
    rfl

/-- **A static's map is made as the static says.** -/
theorem Patched.madeAsDeclared {file : Memory}
    (hpatched : Patched scn fds mem dBuf syms file fileSize order o.image.fix)
    (hsym : sym ∈ syms) (h : MapSymbol mem scn.toMapsScn dBuf pos p sym) :
    MadeAsDeclared scn o sym p := by
  obtain ⟨i, m, -, hdefn, hcreate, hpos, hfield⟩ :=
    hpatched.field sym.stValue ⟨sym, hsym, h.holds, h.size, rfl⟩
  have hstatic : m.defn = ⟨p.mapType, UInt32.ofNat p.sizeOfKey, UInt32.ofNat p.sizeOfVal,
      p.maxSize, p.mapFlag, 0⟩ := hdefn.trans (IuMap.init_static h.value h.static m.name)
  refine ⟨m.createAttr, fds i, List.mem_of_getElem? hcreate, hpos, ?_, hfield⟩
  unfold IuMap.createAttr
  rw [hstatic]
  exact means_new p

/-- **Every static of a loaded object holds a map made as the static says. The static, libbpf's
`bpf_map` and `iu_obj_get_map` lead to the same map, for every map of the object, exactly when each
has a name of its own**, whatever the order in which the maps were created. -/
theorem maps_found_iff (hbuf : scn.dBuf = some dBuf)
    (hparse : parseMaps mem addMap strdup (some scn.toMapsScn) (some syms) = (0, t))
    (hplaced : WellPlaced scn syms fileSize) {file : Memory} {mapped : Bool}
    (horder : order.Perm t.mapDefs) (hfds : Answered fds order.length)
    (hfix : fixMaps fds (some scn) mapped order (.start file t.maps) = (0, o.image.fix)) :
    (∀ sym ∈ syms, ∀ pos p, MapSymbol mem scn.toMapsScn dBuf pos p sym →
      MadeAsDeclared scn o sym p) ∧
    ((∀ sym ∈ syms, scn.toMapsScn.Defines sym → ∃ fd, SameMap scn o sym fd) ↔
      OneName scn.toMapsScn syms) := by
  have ht := parseMaps_entered hbuf hparse
  have hnodup := parseMaps_nodup hbuf hparse
  have heach := eachOnce_of_perm hbuf hparse horder
  obtain ⟨hfixed, hfound⟩ := found_of_fixMaps hfix
  have hpatched := hfixed.patched heach hplaced fun e he =>
    ht.defn_of_mem hnodup (horder.mem_iff.mp he)
  have hlooked := hfound.looked hpatched heach ht fun e he =>
    ht.symbol_of_mem hnodup (horder.mem_iff.mp he)
  exact ⟨fun sym hsym pos p h => hpatched.madeAsDeclared hsym h, hlooked.sameMap_iff hfds⟩

theorem oneName_twoMaps : OneName twoMapsSection.toMapsScn (twoMapsSyms 0x2000) := by
  intro sym hsym sym' hsym' _ _
  rcases mem_twoMapsSyms.mp hsym with rfl | rfl
  all_goals rcases mem_twoMapsSyms.mp hsym' with rfl | rfl
  all_goals decide

theorem maps_found_twoMaps :
    ∃ o : Obj, fixMaps (fun n => 7 + n) (some twoMapsSection) true
        twoMapsTables.mapDefs.reverse (.start (fun _ => 0) twoMapsTables.maps) = (0, o.image.fix) ∧
      MadeAsDeclared twoMapsSection o (arraySym 0x2000) arrayParams ∧
      MadeAsDeclared twoMapsSection o (hashSym 0x2000) hashParams ∧
      SameMap twoMapsSection o (arraySym 0x2000) 8 ∧
      SameMap twoMapsSection o (hashSym 0x2000) 7 := by
  obtain ⟨s, hfix⟩ : ∃ s, fixMaps (fun n => 7 + n) (some twoMapsSection) true
      twoMapsTables.mapDefs.reverse (.start (fun _ => 0) twoMapsTables.maps) = (0, s) := ⟨_, rfl⟩
  have hlength : twoMapsTables.mapDefs.reverse.length = 2 := rfl
  have hanswered : Answered (fun n => 7 + n) twoMapsTables.mapDefs.reverse.length :=
    ⟨fun i hi => by omega, fun i _ j _ hij => by omega⟩
  obtain ⟨hmade, hsame⟩ := maps_found_iff (o := ⟨⟨.init fun _ => .null, s⟩, 6⟩) rfl
    parseMaps_twoMaps wellPlaced_twoMaps (List.reverse_perm _) hanswered hfix
  obtain ⟨fd, hfd⟩ := hsame.mpr oneName_twoMaps _ (arraySym_mem _) ⟨by decide, rfl⟩
  obtain ⟨fd', hfd'⟩ := hsame.mpr oneName_twoMaps _ (hashSym_mem _) ⟨by decide, rfl⟩
  refine ⟨_, hfix, hmade _ (arraySym_mem _) 0 arrayParams (mapSymbol_array _),
    hmade _ (hashSym_mem _) 32 hashParams (mapSymbol_hash _), ?_, ?_⟩
  · have hfd_eq : fd = 8 := by
      rw [← hfd.iuMap]
      obtain rfl := (Prod.mk.inj hfix).2
      decide +kernel
    exact hfd_eq ▸ hfd
  · have hfd_eq : fd' = 7 := by
      rw [← hfd'.iuMap]
      obtain rfl := (Prod.mk.inj hfix).2
      decide +kernel
    exact hfd_eq ▸ hfd'

end KernelDev.Loader
