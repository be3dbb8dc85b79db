/-
# KernelDev.Loader.FixMaps — the map pointers of a loaded image

`fix_maps` creates the maps of `map_defs` one after the other and puts the descriptor of each into
the copy of the file in memory, where its static has the field `kptr`. `load` tells the kernel the
addresses of these fields. `map_defs` is unordered: the order in which it is gone through is a
parameter, and so are the descriptors.
-/
import KernelDev.Loader.Maps

namespace KernelDev.Loader

open KernelDev.Lib

/-! ## fix_maps -/

/-- The section `.maps` with its place in the file. -/
structure MapsSection extends MapsScn where
  shOffset : UInt64
  shSize : UInt64

/-- `offsetof(map_def, kptr)`. -/
def kptrOff : UInt64 := 24

/-- `kptr_file_off` of the map with symbol value `v`. -/
def kptrFileOff (scn : MapsSection) (v : UInt64) : UInt64 :=
  v + kptrOff - scn.shAddr + scn.shOffset

/-- What `fix_maps` changes: the image, the `bpf_object`'s maps, the descriptors of the `iu_map`s
and `name2map`, whose pointers are keys of `map_defs` here. -/
structure FixState where
  fileMap : Memory
  maps : List BpfMap
  mapFd : UInt64 → Int
  name2map : List (String × UInt64)
  /-- History: what the kernel was asked for, and what it answered. -/
  creates : List (MapCreateAttr × Int)

/-- After `parse_elf`, with the file in memory. -/
def FixState.start (file : Memory) (maps : List BpfMap) : FixState :=
  ⟨file, maps, fun _ => -1, [], []⟩

/-- The first map of this name gets the descriptor. -/
def setMapFd (name : String) (fd : Int) : List BpfMap → List BpfMap
  | [] => []
  | m :: maps =>
      if m.name = some name then { m with fd := fd } :: maps else m :: setMapFd name fd maps

/-- `iu_map::create`. -/
def FixState.create (e : UInt64 × IuMap) (fd : Int) (s : FixState) : FixState :=
  { s with
    mapFd := Function.update s.mapFd e.1 fd
    creates := s.creates ++ [(e.2.createAttr, fd)] }

/-- The rest of the loop body. -/
def FixState.fix (scn : MapsSection) (e : UInt64 × IuMap) (fd : Int) (s : FixState) : FixState :=
  { s with
    maps := setMapFd e.2.name fd s.maps
    name2map := tryEmplace e.2.name e.1 s.name2map
    fileMap := store s.fileMap (kptrFileOff scn e.1) (leBytes 8 fd.toNat) }

section
variable (scn : MapsSection) (fds : Nat → Int)

/-- The loop of `fix_maps`; `fds n` is what the kernel answers to the `n`-th BPF_MAP_CREATE. -/
def fixMapsLoop : List (UInt64 × IuMap) → FixState → Int × FixState
  | [], s => (0, s)
  | e :: order, s =>
      let fd := fds s.creates.length
      let s := s.create e fd
      if fd < 0 then (-1, s) else fixMapsLoop order (s.fix scn e fd)

/-- `iu_obj::fix_maps`; `mapped` says whether the file is in memory. -/
def fixMaps (scn : Option MapsSection) (mapped : Bool) (order : List (UInt64 × IuMap))
    (s : FixState) : Int × FixState :=
  match scn with
  | none => (0, s)
  | some scn => if !mapped then (-1, s) else fixMapsLoop scn fds order s

end

/-- What `load` passes as `map_offs`. -/
def mapOffs (order : List (UInt64 × IuMap)) : List UInt64 := order.map fun e => e.1 + kptrOff

/-! ## The loop -/

variable {scn : MapsSection} {fds : Nat → Int} {order : List (UInt64 × IuMap)} {s s' : FixState}

/-- Two fields have no byte in common. -/
def Apart (scn : MapsSection) (v w : UInt64) : Prop :=
  ∀ i < 8, 8 ≤ (kptrFileOff scn v + UInt64.ofNat i - kptrFileOff scn w).toNat

/-- What the kernel is asked for, with its answers from the `n`-th on. -/
def createsOf (fds : Nat → Int) (n : Nat) (order : List (UInt64 × IuMap)) :
    List (MapCreateAttr × Int) :=
  order.mapIdx fun i e => (e.2.createAttr, fds (n + i))

/-- **What a loop that succeeds does.** -/
structure Fixed (scn : MapsSection) (fds : Nat → Int) (order : List (UInt64 × IuMap))
    (s s' : FixState) : Prop where
  creates : s'.creates = s.creates ++ createsOf fds s.creates.length order
  nonneg : ∀ c ∈ createsOf fds s.creates.length order, 0 ≤ c.2
  frame : ∀ x, (∀ e ∈ order, 8 ≤ (x - kptrFileOff scn e.1).toNat) → s'.fileMap x = s.fileMap x
  field : order.Pairwise (fun e f => Apart scn e.1 f.1) → ∀ i e, order[i]? = some e →
    load s'.fileMap (kptrFileOff scn e.1) 8 = leBytes 8 (fds (s.creates.length + i)).toNat

theorem createsOf_cons (fds : Nat → Int) (n : Nat) (e : UInt64 × IuMap)
    (order : List (UInt64 × IuMap)) :
    createsOf fds n (e :: order) = (e.2.createAttr, fds n) :: createsOf fds (n + 1) order := by
  unfold createsOf
  rw [List.mapIdx_cons]
  simp only [Nat.add_zero, Nat.add_assoc, Nat.add_comm 1]

theorem fixed_of_loop (h : fixMapsLoop scn fds order s = (0, s')) : Fixed scn fds order s s' := by
  induction order generalizing s with
  | nil =>
      obtain rfl : s = s' := (Prod.mk.inj h).2
      exact ⟨(List.append_nil _).symm, (fun c hc => by cases hc), fun x _ => rfl,
        (fun _ i e he => by cases he)⟩
  | cons e order ih =>
      rw [fixMapsLoop] at h
      split at h
      · cases (Prod.mk.inj h).1
      next hfd =>
      have hrest := ih h
      have hlen : ((s.create e (fds s.creates.length)).fix scn e (fds s.creates.length)).creates =
          s.creates ++ [(e.2.createAttr, fds s.creates.length)] := rfl
      have hstep : ((s.create e (fds s.creates.length)).fix scn e (fds s.creates.length)).fileMap =
          store s.fileMap (kptrFileOff scn e.1) (leBytes 8 (fds s.creates.length).toNat) := rfl
      obtain ⟨hcreates, hnonneg, hframe, hfield⟩ := hrest
      rw [hlen, List.length_append, List.length_singleton] at hcreates hnonneg hfield
      rw [hstep] at hframe
      refine ⟨?_, ?_, fun x hx => ?_, fun hapart i f hf => ?_⟩
      · rw [hcreates, createsOf_cons, List.append_assoc]
        rfl
      · rw [createsOf_cons, List.forall_mem_cons]
        exact ⟨Int.not_lt.mp hfd, hnonneg⟩
      · rw [hframe x fun f hf => hx f (List.mem_cons_of_mem e hf)]
        apply store_of_le
        rw [leBytes_length]
        exact hx e List.mem_cons_self
      · rw [List.pairwise_cons] at hapart
        cases i with
        | zero =>
            -- no later field overlaps the first
            obtain rfl := Option.some.inj hf
            rw [load_congr fun i hi => hframe _ fun f hf => hapart.1 f hf i hi]
            exact load_store (by rw [leBytes_length]; decide)
        | succ i =>
            have hlater := hfield hapart.2 i f hf
            rwa [Nat.add_assoc, Nat.add_comm 1] at hlater

/-! ## The objects of the section -/

variable {mem : Memory} {addMap strdup : Nat → Bool} {dBuf : UInt64} {syms : List Elf64Sym}
  {t : MapTables} {v w : UInt64}

/-- There is an object of the size of a map definition at `v`. -/
def MapObject (scn : MapsScn) (syms : List Elf64Sym) (v : UInt64) : Prop :=
  ∃ sym ∈ syms, scn.holds sym ∧ sym.stSize = mapDefSize ∧ sym.stValue = v

/-- The objects are in the section and have no byte in common, and the section is in the file. -/
structure WellPlaced (scn : MapsSection) (syms : List Elf64Sym) (fileSize : UInt64) : Prop where
  inside : ∀ v, MapObject scn.toMapsScn syms v → scn.shAddr.toNat ≤ v.toNat ∧
    v.toNat + mapDefSize.toNat ≤ scn.shAddr.toNat + scn.shSize.toNat
  apart : ∀ v w, MapObject scn.toMapsScn syms v → MapObject scn.toMapsScn syms w → v ≠ w →
    v.toNat + mapDefSize.toNat ≤ w.toNat ∨ w.toNat + mapDefSize.toNat ≤ v.toNat
  file : scn.shOffset.toNat + scn.shSize.toNat ≤ fileSize.toNat

variable {fileSize : UInt64}

/-- The field is in the file where it is in the section. -/
theorem WellPlaced.kptrFileOff_toNat (h : WellPlaced scn syms fileSize)
    (hv : MapObject scn.toMapsScn syms v) :
    (kptrFileOff scn v).toNat = scn.shOffset.toNat + (v.toNat - scn.shAddr.toNat) + 24 ∧
      (kptrFileOff scn v).toNat + 8 ≤ fileSize.toNat := by
  obtain ⟨hlo, hhi⟩ := h.inside v hv
  have hfile := h.file
  have hsize := fileSize.toNat_lt
  have hv' := v.toNat_lt
  have haddr := scn.shAddr.toNat_lt
  have hmap : mapDefSize.toNat = 32 := rfl
  have hoff : kptrOff.toNat = 24 := rfl
  have hvalue : (kptrFileOff scn v).toNat =
      scn.shOffset.toNat + (v.toNat - scn.shAddr.toNat) + 24 := by
    rw [kptrFileOff, UInt64.toNat_add, UInt64.toNat_sub, UInt64.toNat_add, hoff]
    omega
  exact ⟨hvalue, by omega⟩

/-- Fields of different objects have no byte in common. -/
theorem WellPlaced.apart_fields (h : WellPlaced scn syms fileSize)
    (hv : MapObject scn.toMapsScn syms v) (hw : MapObject scn.toMapsScn syms w) (hne : v ≠ w) :
    Apart scn v w := by
  intro i hi
  obtain ⟨hv', hvfile⟩ := h.kptrFileOff_toNat hv
  obtain ⟨hw', hwfile⟩ := h.kptrFileOff_toNat hw
  have hvlo := (h.inside v hv).1
  have hwlo := (h.inside w hw).1
  have hapart := h.apart v w hv hw hne
  have hsize := fileSize.toNat_lt
  have hmap : mapDefSize.toNat = 32 := rfl
  have hi' : (UInt64.ofNat i).toNat = i :=
    UInt64.toNat_ofNat_of_lt' (Nat.lt_trans hi (by decide))
  rw [UInt64.toNat_sub, UInt64.toNat_add, hi']
  omega

/-- `map_defs` has an entry for each object. -/
theorem Entered.mem_mapDefs_iff {scn : MapsScn}
    (ht : Entered mem scn dBuf (syms.filter scn.holds) t) :
    v ∈ t.mapDefs.map Prod.fst ↔ MapObject scn syms v := by
  rw [← valueAt_isSome_iff, ht.mapDefs, Option.isSome_map, List.find?_isSome]
  constructor
  · rintro ⟨sym, hsym, hv⟩
    obtain ⟨hmem, hholds⟩ := List.mem_filter.mp hsym
    obtain ⟨hsize, hvalue⟩ := of_decide_eq_true hv
    exact ⟨sym, hmem, hholds, hsize, hvalue⟩
  · rintro ⟨sym, hmem, hholds, hsize, hvalue⟩
    exact ⟨sym, List.mem_filter.mpr ⟨hmem, hholds⟩, decide_eq_true ⟨hsize, hvalue⟩⟩

/-- The entry of an object is made of its bytes. -/
theorem Entered.defn_of_mem {scn : MapsScn} (ht : Entered mem scn dBuf (syms.filter scn.holds) t)
    (hnodup : (t.mapDefs.map Prod.fst).Nodup) {e : UInt64 × IuMap} (he : e ∈ t.mapDefs) :
    e.2.defn = readMapDef mem (dBuf + e.1 - scn.shAddr) := by
  have hvalue := valueAt_of_mem hnodup he
  rw [ht.mapDefs] at hvalue
  obtain ⟨sym, -, hinit⟩ := Option.map_eq_some_iff.mp hvalue
  rw [← hinit]
  rfl

/-! ## The image -/

/-- The image differs from the file in the map pointers only, and each is the descriptor of its own
map. -/
structure Patched (scn : MapsSection) (fds : Nat → Int) (mem : Memory) (dBuf : UInt64)
    (syms : List Elf64Sym) (file : Memory) (fileSize : UInt64) (order : List (UInt64 × IuMap))
    (s : FixState) : Prop where
  /-- The map at `v` is the `i`-th created. -/
  field : ∀ v, MapObject scn.toMapsScn syms v → ∃ i m, order[i]? = some (v, m) ∧
    m.defn = readMapDef mem (dBuf + v - scn.shAddr) ∧
    s.creates[i]? = some (m.createAttr, fds i) ∧ 0 ≤ fds i ∧
    load s.fileMap (kptrFileOff scn v) 8 = leBytes 8 (fds i).toNat
  inside : ∀ v, MapObject scn.toMapsScn syms v →
    (kptrFileOff scn v).toNat = scn.shOffset.toNat + (v.toNat - scn.shAddr.toNat) + 24 ∧
      (kptrFileOff scn v).toNat + 8 ≤ fileSize.toNat
  frame : ∀ x, (∀ v, MapObject scn.toMapsScn syms v → 8 ≤ (x - kptrFileOff scn v).toNat) →
    s.fileMap x = file x

/-- The offsets that are passed are the addresses of the map pointers. -/
structure OffsExact (scn : MapsScn) (syms : List Elf64Sym) (offs : List UInt64) : Prop where
  once : offs.Nodup
  exact : ∀ a, a ∈ offs ↔ ∃ v, MapObject scn syms v ∧ a = v + kptrOff

/-- `map_defs`, gone through in some order, has each object once. -/
structure EachOnce (scn : MapsScn) (syms : List Elf64Sym) (order : List (UInt64 × IuMap)) :
    Prop where
  once : (order.map Prod.fst).Nodup
  mem_iff : ∀ v, v ∈ order.map Prod.fst ↔ MapObject scn syms v

theorem eachOnce_of_perm {scn : MapsScn} (hbuf : scn.dBuf = some dBuf)
    (hparse : parseMaps mem addMap strdup (some scn) (some syms) = (0, t))
    (horder : order.Perm t.mapDefs) : EachOnce scn syms order where
  once := (horder.map Prod.fst).nodup_iff.mpr (parseMaps_nodup hbuf hparse)
  mem_iff _ := (horder.map Prod.fst).mem_iff.trans (parseMaps_entered hbuf hparse).mem_mapDefs_iff

theorem EachOnce.pairwise_apart (h : EachOnce scn.toMapsScn syms order)
    (hplaced : WellPlaced scn syms fileSize) : order.Pairwise fun e f => Apart scn e.1 f.1 := by
  refine (List.pairwise_map.mp h.once).imp_of_mem fun he hf hne => ?_
  exact hplaced.apart_fields ((h.mem_iff _).mp (List.mem_map_of_mem he))
    ((h.mem_iff _).mp (List.mem_map_of_mem hf)) hne

/-- **What `load` passes are the addresses of the map pointers.** -/
theorem EachOnce.offsExact {scn : MapsScn} (h : EachOnce scn syms order) :
    OffsExact scn syms (mapOffs order) := by
  refine ⟨?_, fun a => ?_⟩
  · -- adding the same to different keys keeps them different
    have hmap : mapOffs order = (order.map Prod.fst).map (· + kptrOff) := by
      rw [List.map_map]
      rfl
    rw [hmap]
    exact h.once.map fun x y hxy => (UInt64.add_left_inj _).mp hxy
  · unfold mapOffs
    rw [List.mem_map]
    constructor
    · rintro ⟨e, he, rfl⟩
      exact ⟨e.1, (h.mem_iff _).mp (List.mem_map_of_mem he), rfl⟩
    · rintro ⟨v, hv, rfl⟩
      obtain ⟨e, he, rfl⟩ := List.mem_map.mp ((h.mem_iff v).mpr hv)
      exact ⟨e, he, rfl⟩

/-- **A loop over `map_defs` that succeeds patches the image.** -/
theorem Fixed.patched {file : Memory} {maps : List BpfMap}
    (hfixed : Fixed scn fds order (.start file maps) s)
    (horder : EachOnce scn.toMapsScn syms order) (hplaced : WellPlaced scn syms fileSize)
    (hdefn : ∀ e ∈ order, e.2.defn = readMapDef mem (dBuf + e.1 - scn.shAddr)) :
    Patched scn fds mem dBuf syms file fileSize order s := by
  have hstart : (FixState.start file maps).creates = [] := rfl
  have hcreates := hfixed.creates
  have hnonneg := hfixed.nonneg
  have hfields := hfixed.field (horder.pairwise_apart hplaced)
  simp only [hstart, List.nil_append, List.length_nil, Nat.zero_add] at hcreates hnonneg hfields
  refine ⟨fun v hv => ?_, fun v hv => hplaced.kptrFileOff_toNat hv, fun x hx => ?_⟩
  · obtain ⟨⟨k, m⟩, he, rfl⟩ := List.mem_map.mp ((horder.mem_iff v).mpr hv)
    obtain ⟨i, hi⟩ := List.mem_iff_getElem?.mp he
    have hith : (createsOf fds 0 order)[i]? = some (m.createAttr, fds i) := by
      rw [createsOf, List.getElem?_mapIdx, hi, Nat.zero_add]
      rfl
    have hfd : 0 ≤ fds i := hnonneg _ (List.mem_of_getElem? hith)
    rw [← hcreates] at hith
    exact ⟨i, m, hi, hdefn _ he, hith, hfd, hfields i _ hi⟩
  · exact hfixed.frame x fun e he => hx e.1 ((horder.mem_iff _).mp (List.mem_map_of_mem he))

/-- **When `fix_maps` returns 0 the image is patched, and `load` passes the addresses of what was
patched, in whatever order `map_defs` is gone through.** -/
theorem fixMaps_patches (hbuf : scn.dBuf = some dBuf)
    (hparse : parseMaps mem addMap strdup (some scn.toMapsScn) (some syms) = (0, t))
    (hplaced : WellPlaced scn syms fileSize) {file : Memory} {mapped : Bool}
    {order order' : List (UInt64 × IuMap)} (horder : order.Perm t.mapDefs)
    (horder' : order'.Perm t.mapDefs)
    (hfix : fixMaps fds (some scn) mapped order (.start file t.maps) = (0, s)) :
    Patched scn fds mem dBuf syms file fileSize order s ∧
      OffsExact scn.toMapsScn syms (mapOffs order') := by
  have ht := parseMaps_entered hbuf hparse
  have hnodup := parseMaps_nodup hbuf hparse
  have hfixed : Fixed scn fds order (.start file t.maps) s := by
    unfold fixMaps at hfix
    cases mapped with
    | false => cases (Prod.mk.inj hfix).1
    | true => exact fixed_of_loop hfix
  constructor
  · apply hfixed.patched (eachOnce_of_perm hbuf hparse horder) hplaced
    intro e he
    exact ht.defn_of_mem hnodup (horder.mem_iff.mp he)
  · exact (eachOnce_of_perm hbuf hparse horder').offsExact

/-- The two maps, at 0x2000 and in the file at 0x1000. -/
def twoMapsSection : MapsSection := { twoMapsScn 0x2000 with shOffset := 0x1000, shSize := 64 }

/-- What `parse_maps` makes of them. -/
def twoMapsTables : MapTables :=
  (twoMapsSyms 0x2000).foldl (fun t sym => t.enter twoMaps (twoMapsScn 0x2000) 0x10000 sym) .empty

theorem parseMaps_twoMaps : parseMaps twoMaps (fun _ => true) (fun _ => true)
    (some twoMapsSection.toMapsScn) (some (twoMapsSyms 0x2000)) = (0, twoMapsTables) :=
  parseMaps_of_memory twoMaps (twoMapsScn 0x2000) rfl (twoMapsSyms 0x2000)

theorem wellPlaced_twoMaps : WellPlaced twoMapsSection (twoMapsSyms 0x2000) 0x2000 := by
  have honly : ∀ v, MapObject twoMapsSection.toMapsScn (twoMapsSyms 0x2000) v →
      v = 0x2000 ∨ v = 0x2020 := by
    rintro v ⟨sym, hsym, -, -, rfl⟩
    rcases mem_twoMapsSyms.mp hsym with rfl | rfl
    · exact Or.inl rfl
    · exact Or.inr rfl
  refine ⟨fun v hv => ?_, fun v w hv hw hne => ?_, by decide⟩
  · rcases honly v hv with rfl | rfl
    all_goals decide
  · rcases honly v hv with rfl | rfl
    all_goals rcases honly w hw with rfl | rfl
    all_goals first | exact absurd rfl hne | decide

/-- The array is created before the hash map. -/
theorem twoMaps_index {i : Nat} {m : IuMap} (h : twoMapsTables.mapDefs[i]? = some (v, m)) :
    (i = 0 ∧ v = 0x2000) ∨ (i = 1 ∧ v = 0x2020) := by
  have hkeys : twoMapsTables.mapDefs.map Prod.fst = [0x2000, 0x2020] := rfl
  have hv : (twoMapsTables.mapDefs.map Prod.fst)[i]? = some v := by
    rw [List.getElem?_map, h]
    rfl
  rw [hkeys] at hv
  match i with
  | 0 => exact Or.inl ⟨rfl, (Option.some.inj hv).symm⟩
  | 1 => exact Or.inr ⟨rfl, (Option.some.inj hv).symm⟩
  | i + 2 => cases hv

theorem fixMaps_patches_twoMaps :
    ∃ s, fixMaps (fun n => 7 + n) (some twoMapsSection) true twoMapsTables.mapDefs
        (.start (fun _ => 0) twoMapsTables.maps) = (0, s) ∧
      load s.fileMap 0x1018 8 = leBytes 8 7 ∧ load s.fileMap 0x1038 8 = leBytes 8 8 ∧
      mapOffs twoMapsTables.mapDefs.reverse = [0x2038, 0x2018] ∧
      OffsExact twoMapsSection.toMapsScn (twoMapsSyms 0x2000)
        (mapOffs twoMapsTables.mapDefs.reverse) := by
  obtain ⟨s, hfix⟩ : ∃ s, fixMaps (fun n => 7 + n) (some twoMapsSection) true
      twoMapsTables.mapDefs (.start (fun _ => 0) twoMapsTables.maps) = (0, s) := ⟨_, rfl⟩
  obtain ⟨hpatched, hoffs⟩ := fixMaps_patches rfl parseMaps_twoMaps wellPlaced_twoMaps
    (List.Perm.refl _) (List.reverse_perm _) hfix
  refine ⟨s, hfix, ?_, ?_, rfl, hoffs⟩
  · obtain ⟨i, m, hi, -, -, -, hfield⟩ := hpatched.field 0x2000
      ⟨arraySym 0x2000, arraySym_mem _, by decide, rfl, rfl⟩
    obtain ⟨rfl, -⟩ | ⟨-, hv⟩ := twoMaps_index hi
    · exact hfield
    · cases hv
  · obtain ⟨i, m, hi, -, -, -, hfield⟩ := hpatched.field 0x2020
      ⟨hashSym 0x2000, hashSym_mem _, by decide, rfl, rfl⟩
    obtain ⟨-, hv⟩ | ⟨rfl, -⟩ := twoMaps_index hi
    · cases hv
    · exact hfield

end KernelDev.Loader
