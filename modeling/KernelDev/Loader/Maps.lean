/-
# KernelDev.Loader.Maps — the maps of a program and what the loader takes them to be

A program declares a map as a static `IUMap` in the section `.maps`, which is `repr(C)`. The loader
looks for the symbols of that section and reads each definition twice: into the `bpf_map` of the
`bpf_object`, as the `bpf_map_def` it starts with, and into an `iu_map`, which keeps all of it and
asks the kernel for the map.

The value of a symbol is an address; the data of the section is in memory at `d_buf`, from the byte
with the address `sh_addr` on.
-/
import KernelDev.Lib.Emplace
import KernelDev.Lib.Memory

namespace KernelDev.Loader

open KernelDev.Lib

/-! ## The program's side -/

/-- What `MAP_DEF!` is given: the map type, the sizes of the key and the value type, the maximal
size and the flags. -/
structure MapParams where
  mapType : UInt32
  sizeOfKey : Nat
  sizeOfVal : Nat
  maxSize : UInt32
  mapFlag : UInt32
  sizeOfKey_lt : sizeOfKey < UInt32.size
  sizeOfVal_lt : sizeOfVal < UInt32.size

/-- `IUMap`. The markers take no space. -/
structure IUMap where
  mapType : UInt32
  keySize : UInt32
  valSize : UInt32
  maxSize : UInt32
  mapFlag : UInt32
  kptr : UInt64
  deriving DecidableEq, Repr

/-- `IUMap::new`. -/
def IUMap.new (p : MapParams) : IUMap where
  mapType := p.mapType
  keySize := UInt32.ofNat p.sizeOfKey
  valSize := UInt32.ofNat p.sizeOfVal
  maxSize := p.maxSize
  mapFlag := p.mapFlag
  kptr := 0

/-- The fields in order; four bytes before the pointer align it and may be anything. -/
def IUMap.bytes (m : IUMap) (padding : UInt32) : List UInt8 :=
  leBytes 4 m.mapType.toNat ++ (leBytes 4 m.keySize.toNat ++ (leBytes 4 m.valSize.toNat ++
    (leBytes 4 m.maxSize.toNat ++ (leBytes 4 m.mapFlag.toNat ++
      (leBytes 4 padding.toNat ++ leBytes 8 m.kptr.toNat)))))

/-! ## The loader's side -/

/-- `struct map_def`. -/
structure MapDef where
  mapType : UInt32
  keySize : UInt32
  valSize : UInt32
  maxSize : UInt32
  mapFlag : UInt32
  kptr : UInt64
  deriving DecidableEq, Repr

/-- `sizeof(struct map_def)`. -/
def mapDefSize : UInt64 := 32

/-- libbpf's `struct bpf_map_def`. -/
structure BpfMapDef where
  type : UInt32
  keySize : UInt32
  valueSize : UInt32
  maxEntries : UInt32
  mapFlags : UInt32
  deriving DecidableEq, Repr

/-- `sizeof(struct bpf_map_def)`. -/
def bpfMapDefSize : Nat := 20

def readMapDef (mem : Memory) (a : UInt64) : MapDef where
  mapType := readU32 mem a
  keySize := readU32 mem (a + 4)
  valSize := readU32 mem (a + 8)
  maxSize := readU32 mem (a + 12)
  mapFlag := readU32 mem (a + 16)
  kptr := readU64 mem (a + 24)

def readBpfMapDef (mem : Memory) (a : UInt64) : BpfMapDef where
  type := readU32 mem a
  keySize := readU32 mem (a + 4)
  valueSize := readU32 mem (a + 8)
  maxEntries := readU32 mem (a + 12)
  mapFlags := readU32 mem (a + 16)

/-- An `Elf64_Sym`, with the string `st_name` stands for. -/
structure Elf64Sym where
  name : String
  stInfo : UInt8
  stShndx : UInt16
  stValue : UInt64
  stSize : UInt64
  deriving DecidableEq, Repr

/-- `ELF64_ST_TYPE(sym->st_info)`. -/
def Elf64Sym.stType (sym : Elf64Sym) : UInt8 := sym.stInfo &&& 0xf

def sttObject : UInt8 := 1

def sttFunc : UInt8 := 2

theorem sttObject_stType : sttObject &&& 0xf = sttObject := by decide

/-- The section `.maps`; `dBuf` is where its data is in memory, if `elf_getdata` finds it. -/
structure MapsScn where
  shndx : UInt16
  shAddr : UInt64
  dBuf : Option UInt64
  deriving DecidableEq, Repr

/-- What `parse_maps` fills in of a `struct bpf_map`; the name is NULL when `strdup` fails. -/
structure BpfMap where
  name : Option String
  fd : Int
  secIdx : UInt16
  secOffset : UInt64
  defn : BpfMapDef
  deriving DecidableEq, Repr

/-- `class iu_map`. -/
structure IuMap where
  defn : MapDef
  mapFd : Int
  name : String
  deriving DecidableEq, Repr

/-- The constructor of `iu_map`. -/
def IuMap.init (mem : Memory) (dBuf base off : UInt64) (name : String) : IuMap :=
  ⟨readMapDef mem (dBuf + off - base), -1, name⟩

/-- The `bpf_attr` of BPF_MAP_CREATE. -/
structure MapCreateAttr where
  mapType : UInt32
  keySize : UInt32
  valueSize : UInt32
  maxEntries : UInt32
  mapFlags : UInt32
  mapName : String
  deriving DecidableEq, Repr

/-- `iu_map::create`: what it asks the kernel for. A name of BPF_OBJ_NAME_LEN or more is left
out. -/
def IuMap.createAttr (m : IuMap) : MapCreateAttr where
  mapType := m.defn.mapType
  keySize := m.defn.keySize
  valueSize := m.defn.valSize
  maxEntries := m.defn.maxSize
  mapFlags := m.defn.mapFlag
  mapName := if m.name.utf8ByteSize < 16 then m.name else ""

/-- The maps of the `bpf_object`, and `map_defs` of the `iu_obj`. -/
structure MapTables where
  maps : List BpfMap
  mapDefs : List (UInt64 × IuMap)
  deriving DecidableEq, Repr

def MapTables.empty : MapTables := ⟨[], []⟩

/-- -ENOMEM. -/
def enomem : Int := -12

/-- `sym->st_shndx == maps_shndx && ELF64_ST_TYPE(sym->st_info) == STT_OBJECT`. -/
def MapsScn.holds (scn : MapsScn) (sym : Elf64Sym) : Bool :=
  sym.stShndx = scn.shndx ∧ sym.stType = sttObject

section
variable (mem : Memory) (addMap strdup : Nat → Bool)

/-- The map of a symbol. -/
def bpfMapOf (dBuf : UInt64) (sym : Elf64Sym) : BpfMap where
  name := some sym.name
  fd := -1
  secIdx := sym.stShndx
  secOffset := sym.stValue
  defn := readBpfMapDef mem (dBuf + sym.stValue)

/-- A symbol is entered into both tables. -/
def MapTables.enter (scn : MapsScn) (dBuf : UInt64) (sym : Elf64Sym) (t : MapTables) :
    MapTables where
  maps := t.maps ++ [bpfMapOf mem dBuf sym]
  mapDefs :=
    if sym.stSize = mapDefSize then
      tryEmplace sym.stValue (.init mem dBuf scn.shAddr sym.stValue sym.name) t.mapDefs
    else t.mapDefs

/-- The loop of `parse_maps`. `addMap n` and `strdup n` say whether there is memory for the `n`-th
map and for its name. -/
def parseMapsLoop (scn : MapsScn) (dBuf : UInt64) : List Elf64Sym → MapTables → Int × MapTables
  | [], t => (0, t)
  | sym :: syms, t =>
      if !scn.holds sym then parseMapsLoop scn dBuf syms t
      else if !addMap t.maps.length then (enomem, t)
      else if !strdup t.maps.length then
        (enomem, { t with
          maps := t.maps ++ [⟨none, -1, sym.stShndx, sym.stValue, ⟨0, 0, 0, 0, 0⟩⟩] })
      else parseMapsLoop scn dBuf syms (t.enter mem scn dBuf sym)

/-- `iu_obj::parse_maps`; `syms` is the data of `.symtab`, if `elf_getdata` finds it. -/
def parseMaps (mapsScn : Option MapsScn) (syms : Option (List Elf64Sym)) : Int × MapTables :=
  match mapsScn with
  | none => (0, .empty)
  | some scn =>
      match syms, scn.dBuf with
      | none, _ => (-1, .empty)
      | some _, none => (-1, .empty)
      | some syms, some dBuf => parseMapsLoop mem addMap strdup scn dBuf syms .empty

end

/-! ## Reading a definition -/

variable {mem : Memory} {a b : UInt64}

/-- The static of a map with these parameters is at `a`. -/
def StaticAt (mem : Memory) (a : UInt64) (p : MapParams) : Prop :=
  ∃ padding : UInt32, load mem a 32 = (IUMap.new p).bytes padding

/-- The five fields say what `MAP_DEF!` was given. -/
def MapParams.Means (p : MapParams) (mapType keySize valueSize maxEntries mapFlags : UInt32) :
    Prop :=
  mapType = p.mapType ∧ keySize.toNat = p.sizeOfKey ∧ valueSize.toNat = p.sizeOfVal ∧
    maxEntries = p.maxSize ∧ mapFlags = p.mapFlag

theorem means_new (p : MapParams) :
    p.Means (IUMap.new p).mapType (IUMap.new p).keySize (IUMap.new p).valSize
      (IUMap.new p).maxSize (IUMap.new p).mapFlag :=
  ⟨rfl, UInt32.toNat_ofNat_of_lt' p.sizeOfKey_lt, UInt32.toNat_ofNat_of_lt' p.sizeOfVal_lt, rfl,
    rfl⟩

/-- **What the program wrote is read back where it was written.** -/
theorem readMapDef_static {p : MapParams} (h : StaticAt mem a p) :
    readMapDef mem a = ⟨p.mapType, UInt32.ofNat p.sizeOfKey, UInt32.ofNat p.sizeOfVal, p.maxSize,
      p.mapFlag, 0⟩ := by
  obtain ⟨padding, hload⟩ := h
  have hpart : ∀ {k n : Nat}, k + n ≤ 32 → load mem (a + UInt64.ofNat k) n =
      (((IUMap.new p).bytes padding).drop k).take n := by
    intro k n hk
    rw [← hload]
    exact load_part hk
  have htype : readU32 mem a = p.mapType :=
    readU32_eq ((congrArg (load mem · 4) (UInt64.add_zero a).symm).trans
      (hpart (k := 0) (by decide)))
  have hkey : readU32 mem (a + 4) = UInt32.ofNat p.sizeOfKey := readU32_eq (hpart (by decide))
  have hval : readU32 mem (a + 8) = UInt32.ofNat p.sizeOfVal := readU32_eq (hpart (by decide))
  have hmax : readU32 mem (a + 12) = p.maxSize := readU32_eq (hpart (by decide))
  have hflag : readU32 mem (a + 16) = p.mapFlag := readU32_eq (hpart (by decide))
  have hkptr : readU64 mem (a + 24) = 0 := readU64_eq (hpart (by decide))
  rw [readMapDef, htype, hkey, hval, hmax, hflag, hkptr]

/-- A `bpf_map_def` is the front of a `map_def`. -/
theorem readBpfMapDef_eq (mem : Memory) (a : UInt64) :
    readBpfMapDef mem a = ⟨(readMapDef mem a).mapType, (readMapDef mem a).keySize,
      (readMapDef mem a).valSize, (readMapDef mem a).maxSize, (readMapDef mem a).mapFlag⟩ := rfl

theorem load_bpfMapDef (mem : Memory) (a : UInt64) :
    load mem a bpfMapDefSize = load mem a 4 ++ (load mem (a + 4) 4 ++ (load mem (a + 8) 4 ++
      (load mem (a + 12) 4 ++ load mem (a + 16) 4))) := by
  have hsize : bpfMapDefSize = 4 + (4 + (4 + (4 + 4))) := rfl
  rw [hsize, load_add, load_add, load_add, load_add]
  simp only [UInt64.add_assoc]
  rfl

/-- **The same `bpf_map_def` is read only from the same bytes.** -/
theorem readBpfMapDef_eq_iff :
    readBpfMapDef mem a = readBpfMapDef mem b ↔
      load mem a bpfMapDefSize = load mem b bpfMapDefSize := by
  have hlen : ∀ c d, (load mem c 4).length = (load mem d 4).length := fun c d => by
    rw [load_length, load_length]
  rw [load_bpfMapDef, load_bpfMapDef, List.append_eq_append_iff_of_size_eq_left (hlen _ _),
    List.append_eq_append_iff_of_size_eq_left (hlen _ _),
    List.append_eq_append_iff_of_size_eq_left (hlen _ _),
    List.append_eq_append_iff_of_size_eq_left (hlen _ _), ← readU32_eq_iff, ← readU32_eq_iff,
    ← readU32_eq_iff, ← readU32_eq_iff, ← readU32_eq_iff, readBpfMapDef, readBpfMapDef,
    BpfMapDef.mk.injEq]

/-! ## The tables -/

variable {addMap strdup : Nat → Bool} {scn : MapsScn} {dBuf : UInt64} {syms : List Elf64Sym}
  {t : MapTables}

/-- A loop that succeeds has entered the symbols of the section, in order. -/
theorem parseMapsLoop_eq {t' : MapTables}
    (h : parseMapsLoop mem addMap strdup scn dBuf syms t = (0, t')) :
    t' = (syms.filter scn.holds).foldl (fun t sym => t.enter mem scn dBuf sym) t := by
  induction syms generalizing t with
  | nil => exact (Prod.mk.inj h).2.symm
  | cons sym syms ih =>
      rw [parseMapsLoop] at h
      by_cases hholds : scn.holds sym
      · rw [List.filter_cons_of_pos hholds, List.foldl_cons]
        simp only [hholds, Bool.not_true, Bool.false_eq_true, if_false] at h
        split at h
        · cases (Prod.mk.inj h).1
        · split at h
          · cases (Prod.mk.inj h).1
          · exact ih h
      · rw [List.filter_cons_of_neg hholds]
        simp only [hholds, Bool.not_false, if_true] at h
        exact ih h

/-- While there is memory the loop succeeds. -/
theorem parseMapsLoop_of_memory (scn : MapsScn) (syms : List Elf64Sym) (t : MapTables) :
    parseMapsLoop mem (fun _ => true) (fun _ => true) scn dBuf syms t =
      (0, (syms.filter scn.holds).foldl (fun t sym => t.enter mem scn dBuf sym) t) := by
  induction syms generalizing t with
  | nil => rfl
  | cons sym syms ih =>
      rw [parseMapsLoop]
      by_cases hholds : scn.holds sym
      · rw [List.filter_cons_of_pos hholds, List.foldl_cons]
        simp only [hholds, Bool.not_true, Bool.false_eq_true, if_false]
        exact ih _
      · rw [List.filter_cons_of_neg hholds]
        simp only [hholds, Bool.not_false, if_true]
        exact ih t

/-- **The loop succeeds exactly when there is memory for each map of the section.** -/
theorem parseMapsLoop_fst : (parseMapsLoop mem addMap strdup scn dBuf syms t).1 = 0 ↔
    ∀ n < (syms.filter scn.holds).length,
      addMap (t.maps.length + n) = true ∧ strdup (t.maps.length + n) = true := by
  have henomem : ¬ enomem = 0 := by decide
  induction syms generalizing t with
  | nil => exact iff_of_true rfl fun n hn => absurd hn (Nat.not_lt_zero n)
  | cons sym syms ih =>
      rw [parseMapsLoop]
      by_cases hholds : scn.holds sym
      · rw [List.filter_cons_of_pos hholds, List.length_cons, Nat.forall_lt_succ_left,
          Nat.add_zero, hholds, Bool.not_true, if_neg Bool.false_ne_true]
        split
        · next hadd => exact iff_of_false henomem fun h => by simp [h.1.1] at hadd
        · next hadd =>
            split
            · next hdup => exact iff_of_false henomem fun h => by simp [h.1.2] at hdup
            · next hdup =>
                have hlen : (t.enter mem scn dBuf sym).maps.length = t.maps.length + 1 :=
                  List.length_append
                have hmemory : addMap t.maps.length = true ∧ strdup t.maps.length = true :=
                  ⟨by simpa using hadd, by simpa using hdup⟩
                rw [and_iff_right hmemory]
                refine ih.trans ?_
                rw [hlen]
                simp only [Nat.add_assoc, Nat.add_comm 1]
      · rw [List.filter_cons_of_neg hholds, Bool.eq_false_iff.mpr hholds, Bool.not_false,
          if_pos rfl]
        exact ih

/-- Where there is a section, `parse_maps` succeeds exactly when the data of both sections and the
memory are there. -/
theorem parseMaps_fst {syms : Option (List Elf64Sym)} :
    (parseMaps mem addMap strdup (some scn) syms).1 = 0 ↔
      scn.dBuf.isSome ∧ ∃ l, syms = some l ∧ ∀ n < (l.filter scn.holds).length,
        addMap n = true ∧ strdup n = true := by
  have hneg : ¬ (-1 : Int) = 0 := by omega
  simp only [parseMaps]
  cases syms with
  | none => exact iff_of_false hneg fun ⟨_, l, hl, _⟩ => by cases hl
  | some l =>
      cases hbuf : scn.dBuf with
      | none => exact iff_of_false hneg fun h => by cases h.1
      | some dBuf =>
          rw [and_iff_right Option.isSome_some]
          refine parseMapsLoop_fst.trans ?_
          simp only [MapTables.empty, List.length_nil, Nat.zero_add, Option.some_inj,
            exists_eq_left']

/-- A failure is negative. -/
theorem parseMapsLoop_le (syms : List Elf64Sym) (t : MapTables) :
    (parseMapsLoop mem addMap strdup scn dBuf syms t).1 ≤ 0 := by
  induction syms generalizing t with
  | nil => exact Int.le_refl 0
  | cons sym syms ih =>
      rw [parseMapsLoop]
      split
      · exact ih t
      · split
        · exact show enomem ≤ 0 by decide
        · split
          · exact show enomem ≤ 0 by decide
          · exact ih _

theorem parseMaps_le (mapsScn : Option MapsScn) (syms : Option (List Elf64Sym)) :
    (parseMaps mem addMap strdup mapsScn syms).1 ≤ 0 := by
  unfold parseMaps
  split
  · exact Int.le_refl 0
  · split
    · exact show (-1 : Int) ≤ 0 by omega
    · exact show (-1 : Int) ≤ 0 by omega
    · exact parseMapsLoop_le _ _

/-- The tables hold a map for each symbol; under each symbol value the first definition of the right
size. -/
structure Entered (mem : Memory) (scn : MapsScn) (dBuf : UInt64) (syms : List Elf64Sym)
    (t : MapTables) : Prop where
  maps : t.maps = syms.map (bpfMapOf mem dBuf)
  mapDefs : ∀ k, valueAt k t.mapDefs =
    (syms.find? fun s => s.stSize = mapDefSize ∧ s.stValue = k).map fun s =>
      .init mem dBuf scn.shAddr k s.name

/-- A definition of the right size is entered, unless its value has one. -/
theorem valueAt_enter (mem : Memory) (scn : MapsScn) (dBuf : UInt64) (sym : Elf64Sym)
    (t : MapTables) (k : UInt64) :
    valueAt k (t.enter mem scn dBuf sym).mapDefs = (valueAt k t.mapDefs).or
      (if sym.stSize = mapDefSize ∧ sym.stValue = k then
        some (.init mem dBuf scn.shAddr k sym.name) else none) := by
  unfold MapTables.enter
  by_cases hsize : sym.stSize = mapDefSize
  · rw [if_pos hsize, valueAt_tryEmplace]
    by_cases hk : sym.stValue = k
    · rw [if_pos hk, if_pos ⟨hsize, hk⟩, hk]
    · rw [if_neg hk, if_neg (fun h => hk h.2)]
  · rw [if_neg hsize, if_neg (fun h => hsize h.1), Option.or_none]

theorem entered_foldl (mem : Memory) (scn : MapsScn) (dBuf : UInt64) (syms : List Elf64Sym) :
    Entered mem scn dBuf syms (syms.foldl (fun t sym => t.enter mem scn dBuf sym) .empty) := by
  induction syms using List.reverseRecOn with
  | nil => exact ⟨rfl, fun _ => rfl⟩
  | append_singleton syms sym ih =>
      rw [List.foldl_concat]
      refine ⟨?_, fun k => ?_⟩
      · show _ ++ [bpfMapOf mem dBuf sym] = _
        rw [ih.maps, List.map_append, List.map_singleton]
      · rw [valueAt_enter, ih.mapDefs, List.find?_append, List.find?_singleton, Option.map_or]
        by_cases hsym : sym.stSize = mapDefSize ∧ sym.stValue = k
        · rw [if_pos hsym, if_pos (decide_eq_true hsym)]
          rfl
        · rw [if_neg hsym, if_neg (by simpa using hsym)]
          rfl

/-! ## One meaning -/

/-- `sym` is the symbol of a map with these parameters at `pos` in the section. -/
structure MapSymbol (mem : Memory) (scn : MapsScn) (dBuf pos : UInt64) (p : MapParams)
    (sym : Elf64Sym) : Prop where
  holds : scn.holds sym
  size : sym.stSize = mapDefSize
  value : sym.stValue = scn.shAddr + pos
  static : StaticAt mem (dBuf + pos) p

/-- What is recorded for the symbol is what `MAP_DEF!` was given: in the `bpf_map`, in the `iu_map`
and in what the kernel is asked for. -/
structure OneMeaning (p : MapParams) (sym : Elf64Sym) (t : MapTables) : Prop where
  listed : ∃ m ∈ t.maps, m.name = some sym.name ∧ m.secOffset = sym.stValue
  bpfMap : ∀ m ∈ t.maps, m.secOffset = sym.stValue →
    p.Means m.defn.type m.defn.keySize m.defn.valueSize m.defn.maxEntries m.defn.mapFlags
  iuMap : ∃ m, valueAt sym.stValue t.mapDefs = some m ∧ m.defn.kptr = 0 ∧
    p.Means m.defn.mapType m.defn.keySize m.defn.valSize m.defn.maxSize m.defn.mapFlag ∧
    p.Means m.createAttr.mapType m.createAttr.keySize m.createAttr.valueSize
      m.createAttr.maxEntries m.createAttr.mapFlags

theorem toNat_eq_iff_ofNat {x : UInt32} {n : Nat} (hn : n < UInt32.size) :
    x.toNat = n ↔ x = UInt32.ofNat n := by
  constructor
  · rintro rfl
    exact UInt32.ofNat_toNat.symm
  · rintro rfl
    exact UInt32.toNat_ofNat_of_lt' hn

/-- The parameters determine the five fields. -/
theorem MapParams.means_iff {p : MapParams} {d : BpfMapDef} :
    p.Means d.type d.keySize d.valueSize d.maxEntries d.mapFlags ↔
      d = ⟨p.mapType, UInt32.ofNat p.sizeOfKey, UInt32.ofNat p.sizeOfVal, p.maxSize,
        p.mapFlag⟩ := by
  rw [Means, toNat_eq_iff_ofNat p.sizeOfKey_lt, toNat_eq_iff_ofNat p.sizeOfVal_lt]
  cases d
  rw [BpfMapDef.mk.injEq]

variable {pos : UInt64} {p : MapParams} {sym : Elf64Sym}

/-- `iu_map` is at the static, wherever the section begins. -/
theorem IuMap.init_static (hvalue : sym.stValue = scn.shAddr + pos)
    (hstatic : StaticAt mem (dBuf + pos) p) (name : String) :
    (IuMap.init mem dBuf scn.shAddr sym.stValue name).defn =
      ⟨p.mapType, UInt32.ofNat p.sizeOfKey, UInt32.ofNat p.sizeOfVal, p.maxSize, p.mapFlag, 0⟩ := by
  have haddr : dBuf + sym.stValue - scn.shAddr = dBuf + pos := by
    rw [hvalue, UInt64.add_comm scn.shAddr, ← UInt64.add_assoc, UInt64.add_sub_cancel]
  rw [init, haddr]
  exact readMapDef_static hstatic

/-- The `bpf_map` means what its map was given exactly when it is read from the same bytes. -/
theorem means_bpfMap_iff (h : StaticAt mem b p) :
    p.Means (readBpfMapDef mem a).type (readBpfMapDef mem a).keySize (readBpfMapDef mem a).valueSize
      (readBpfMapDef mem a).maxEntries (readBpfMapDef mem a).mapFlags ↔
      load mem a bpfMapDefSize = load mem b bpfMapDefSize := by
  rw [MapParams.means_iff, ← readBpfMapDef_eq_iff, readBpfMapDef_eq mem b, readMapDef_static h]

/-- The `iu_map` and what is asked for with it are right, wherever the section begins. -/
theorem Entered.iuMap_means (ht : Entered mem scn dBuf (syms.filter scn.holds) t)
    (hsym : sym ∈ syms) (h : MapSymbol mem scn dBuf pos p sym) :
    ∃ m, valueAt sym.stValue t.mapDefs = some m ∧ m.defn.kptr = 0 ∧
      p.Means m.defn.mapType m.defn.keySize m.defn.valSize m.defn.maxSize m.defn.mapFlag ∧
      p.Means m.createAttr.mapType m.createAttr.keySize m.createAttr.valueSize
        m.createAttr.maxEntries m.createAttr.mapFlags := by
  have hfirst : ((syms.filter scn.holds).find? fun s =>
      s.stSize = mapDefSize ∧ s.stValue = sym.stValue).isSome :=
    List.find?_isSome.mpr ⟨sym, List.mem_filter.mpr ⟨hsym, h.holds⟩, decide_eq_true ⟨h.size, rfl⟩⟩
  obtain ⟨s, hs⟩ := Option.isSome_iff_exists.mp hfirst
  have hdefn := IuMap.init_static h.value h.static s.name
  refine ⟨.init mem dBuf scn.shAddr sym.stValue s.name, ?_, ?_, ?_, ?_⟩
  · rw [ht.mapDefs, hs]
    rfl
  · rw [hdefn]
  · rw [hdefn]
    exact means_new p
  · unfold IuMap.createAttr
    rw [hdefn]
    exact means_new p

/-- **A map has one meaning exactly when the bytes at its symbol value are those of its
static.** -/
theorem oneMeaning_iff (ht : Entered mem scn dBuf (syms.filter scn.holds) t) (hsym : sym ∈ syms)
    (h : MapSymbol mem scn dBuf pos p sym) :
    OneMeaning p sym t ↔
      load mem (dBuf + sym.stValue) bpfMapDefSize = load mem (dBuf + pos) bpfMapDefSize := by
  have hlisted : bpfMapOf mem dBuf sym ∈ t.maps :=
    ht.maps ▸ List.mem_map_of_mem (List.mem_filter.mpr ⟨hsym, h.holds⟩)
  rw [← means_bpfMap_iff h.static]
  constructor
  · intro hone
    exact hone.bpfMap _ hlisted rfl
  · intro hmeans
    refine ⟨⟨_, hlisted, rfl, rfl⟩, fun m hm hoff => ?_, ht.iuMap_means hsym h⟩
    rw [ht.maps] at hm
    obtain ⟨s, _, rfl⟩ := List.mem_map.mp hm
    -- another symbol of the same value has the same definition
    have hdefn : (bpfMapOf mem dBuf s).defn = readBpfMapDef mem (dBuf + sym.stValue) :=
      congrArg (fun v => readBpfMapDef mem (dBuf + v)) hoff
    rw [hdefn]
    exact hmeans

/-- The loop starts from empty tables. -/
theorem parseMaps_entered {t : MapTables} (hbuf : scn.dBuf = some dBuf)
    (h : parseMaps mem addMap strdup (some scn) (some syms) = (0, t)) :
    Entered mem scn dBuf (syms.filter scn.holds) t := by
  unfold parseMaps at h
  simp only [hbuf] at h
  rw [parseMapsLoop_eq h]
  exact entered_foldl mem scn dBuf _

/-- Each symbol value is a key once. -/
theorem parseMaps_nodup {t : MapTables} (hbuf : scn.dBuf = some dBuf)
    (h : parseMaps mem addMap strdup (some scn) (some syms) = (0, t)) :
    (t.mapDefs.map Prod.fst).Nodup := by
  unfold parseMaps at h
  simp only [hbuf] at h
  rw [parseMapsLoop_eq h]
  generalize syms.filter scn.holds = held
  induction held using List.reverseRecOn with
  | nil => exact List.nodup_nil
  | append_singleton held sym ih =>
      rw [List.foldl_concat, MapTables.enter]
      split
      · exact tryEmplace_nodup ih _ _
      · exact ih

theorem parseMaps_of_memory (mem : Memory) (scn : MapsScn) (hbuf : scn.dBuf = some dBuf)
    (syms : List Elf64Sym) :
    parseMaps mem (fun _ => true) (fun _ => true) (some scn) (some syms) =
      (0, (syms.filter scn.holds).foldl (fun t sym => t.enter mem scn dBuf sym) .empty) := by
  unfold parseMaps
  simp only [hbuf]
  exact parseMapsLoop_of_memory scn syms .empty

/-- Every map of every program whose `.maps` is at this address has one meaning. -/
def MapsAgreeAt (shAddr : UInt64) : Prop :=
  ∀ (mem : Memory) (addMap strdup : Nat → Bool) (scn : MapsScn) (dBuf pos : UInt64)
    (syms : List Elf64Sym) (t : MapTables) (p : MapParams) (sym : Elf64Sym),
    scn.shAddr = shAddr → scn.dBuf = some dBuf →
    parseMaps mem addMap strdup (some scn) (some syms) = (0, t) → sym ∈ syms →
    MapSymbol mem scn dBuf pos p sym → OneMeaning p sym t

/-- With `.maps` anywhere else there is a program whose map does not. -/
theorem not_mapsAgreeAt {shAddr : UInt64} (hne : shAddr ≠ 0) : ¬ MapsAgreeAt shAddr := by
  intro hagree
  -- a map of type 1 at the beginning of the section, which is at 0, and zeros behind it
  let p : MapParams := ⟨1, 0, 0, 0, 0, by decide, by decide⟩
  let scn : MapsScn := ⟨1, shAddr, some 0⟩
  let sym : Elf64Sym := ⟨"map", sttObject, 1, shAddr, mapDefSize⟩
  have hstatic : StaticAt (.ofBytes 0 [1]) 0 p := ⟨0, by decide +kernel⟩
  have hsym : MapSymbol (.ofBytes 0 [1]) scn 0 0 p sym :=
    ⟨decide_eq_true ⟨rfl, sttObject_stType⟩, rfl, (UInt64.add_zero shAddr).symm, hstatic⟩
  have hparse := parseMaps_of_memory (.ofBytes 0 [1]) scn rfl [sym]
  have hone := hagree _ _ _ scn 0 0 [sym] _ p sym rfl rfl hparse (List.mem_singleton_self _) hsym
  rw [oneMeaning_iff (parseMaps_entered rfl hparse) (List.mem_singleton_self _) hsym] at hone
  have hhead : Memory.ofBytes 0 [1] (0 + shAddr) = Memory.ofBytes 0 [1] (0 + 0) :=
    (List.cons.inj hone).1
  have hpos : 0 < shAddr.toNat := Nat.pos_of_ne_zero fun h => hne (UInt64.toNat_inj.mp h)
  have hzero : Memory.ofBytes 0 [1] (0 + shAddr) = 0 := by
    rw [UInt64.zero_add]
    exact Memory.ofBytes_eq_zero (by rwa [UInt64.sub_zero])
  rw [hzero] at hhead
  exact absurd hhead (by decide)

/-- **All maps of all programs agree exactly when `.maps` is at address 0.** -/
theorem mapsAgreeAt_iff (shAddr : UInt64) : MapsAgreeAt shAddr ↔ shAddr = 0 := by
  constructor
  · intro hagree
    by_contra hne
    exact not_mapsAgreeAt hne hagree
  · rintro rfl
    intro mem addMap strdup scn dBuf pos syms t p sym hbase hbuf hparse hsym h
    rw [oneMeaning_iff (parseMaps_entered hbuf hparse) hsym h, h.value, hbase, UInt64.zero_add]

/-- **A map of a parsed program has one meaning exactly where the bytes at its symbol value are its
own, and all maps of all programs whose `.maps` is at that address have one exactly when the address
is 0.** -/
theorem map_oneMeaning_iff (hbuf : scn.dBuf = some dBuf)
    (hparse : parseMaps mem addMap strdup (some scn) (some syms) = (0, t)) (hsym : sym ∈ syms)
    (h : MapSymbol mem scn dBuf pos p sym) :
    (OneMeaning p sym t ↔
        load mem (dBuf + sym.stValue) bpfMapDefSize = load mem (dBuf + pos) bpfMapDefSize) ∧
      (MapsAgreeAt scn.shAddr ↔ scn.shAddr = 0) :=
  ⟨oneMeaning_iff (parseMaps_entered hbuf hparse) hsym h, mapsAgreeAt_iff scn.shAddr⟩

/-- An array of 256 values of eight bytes. -/
def arrayParams : MapParams := ⟨2, 4, 8, 256, 0, by decide, by decide⟩

/-- A hash map of 1024 values of four bytes. -/
def hashParams : MapParams := ⟨1, 8, 4, 1024, 0, by decide, by decide⟩

/-- The array, and the hash map behind it. -/
def twoMaps : Memory :=
  .ofBytes 0x10000 ((IUMap.new arrayParams).bytes 0 ++ (IUMap.new hashParams).bytes 0)

/-- A program whose `.maps` is at `shAddr` and holds the two. -/
def twoMapsScn (shAddr : UInt64) : MapsScn := ⟨5, shAddr, some 0x10000⟩

def arraySym (shAddr : UInt64) : Elf64Sym := ⟨"map_array", sttObject, 5, shAddr, 32⟩

def hashSym (shAddr : UInt64) : Elf64Sym := ⟨"map_hash", sttObject, 5, shAddr + 32, 32⟩

def twoMapsSyms (shAddr : UInt64) : List Elf64Sym := [arraySym shAddr, hashSym shAddr]

theorem mem_twoMapsSyms {shAddr : UInt64} :
    sym ∈ twoMapsSyms shAddr ↔ sym = arraySym shAddr ∨ sym = hashSym shAddr := by
  simp [twoMapsSyms]

theorem arraySym_mem (shAddr : UInt64) : arraySym shAddr ∈ twoMapsSyms shAddr :=
  mem_twoMapsSyms.mpr (.inl rfl)

theorem hashSym_mem (shAddr : UInt64) : hashSym shAddr ∈ twoMapsSyms shAddr :=
  mem_twoMapsSyms.mpr (.inr rfl)

theorem mapSymbol_array (shAddr : UInt64) :
    MapSymbol twoMaps (twoMapsScn shAddr) 0x10000 0 arrayParams (arraySym shAddr) :=
  ⟨decide_eq_true ⟨rfl, sttObject_stType⟩, rfl, (UInt64.add_zero shAddr).symm, 0, by decide +kernel⟩

theorem mapSymbol_hash (shAddr : UInt64) :
    MapSymbol twoMaps (twoMapsScn shAddr) 0x10000 32 hashParams (hashSym shAddr) :=
  ⟨decide_eq_true ⟨rfl, sttObject_stType⟩, rfl, rfl, 0, by decide +kernel⟩

theorem map_oneMeaning_twoMaps :
    ∃ t, parseMaps twoMaps (fun _ => true) (fun _ => true) (some (twoMapsScn 0))
        (some (twoMapsSyms 0)) = (0, t) ∧
      OneMeaning arrayParams (arraySym 0) t ∧ OneMeaning hashParams (hashSym 0) t := by
  have hparse := parseMaps_of_memory twoMaps (twoMapsScn 0) rfl (twoMapsSyms 0)
  refine ⟨_, hparse, ?_, ?_⟩
  · exact (map_oneMeaning_iff rfl hparse (arraySym_mem 0) (mapSymbol_array 0)).1.mpr
      (by decide +kernel)
  · exact (map_oneMeaning_iff rfl hparse (hashSym_mem 0) (mapSymbol_hash 0)).1.mpr
      (by decide +kernel)

/-- With `.maps` at 0x2000 the loader reads the `bpf_map_def` of the array behind the section. -/
theorem map_oneMeaning_fails :
    ∃ t, parseMaps twoMaps (fun _ => true) (fun _ => true) (some (twoMapsScn 0x2000))
        (some (twoMapsSyms 0x2000)) = (0, t) ∧
      MapSymbol twoMaps (twoMapsScn 0x2000) 0x10000 0 arrayParams (arraySym 0x2000) ∧
      ¬ OneMeaning arrayParams (arraySym 0x2000) t := by
  have hparse := parseMaps_of_memory twoMaps (twoMapsScn 0x2000) rfl (twoMapsSyms 0x2000)
  refine ⟨_, hparse, mapSymbol_array 0x2000, ?_⟩
  rw [oneMeaning_iff (parseMaps_entered rfl hparse) (arraySym_mem _) (mapSymbol_array 0x2000)]
  decide +kernel

end KernelDev.Loader
