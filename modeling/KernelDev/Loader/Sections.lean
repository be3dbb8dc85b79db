/-
# KernelDev.Loader.Sections — the stages of `parse_elf` over the sections of a file

`parse_scns` goes through the sections and stores those the other stages work on in the members of
the `iu_obj`; a later section replaces an earlier one. What follows says which sections that are,
and when `parse_maps` and `parse_progs` succeed on them.
-/
import KernelDev.Lib.Writes
import KernelDev.Loader.Programs
import KernelDev.Loader.Relocs

namespace KernelDev.Loader

open KernelDev.Lib

/-! ## The file and the object -/

/-- An object file through libelf: whether `elf_begin`, `gelf_getehdr` and `elf_getshdrstrndx`
succeed, and the sections, of which the first is not looked at by `elf_nextscn`. -/
structure ElfFile where
  elf : Bool
  ehdr : Bool
  shstrndx : Bool
  scns : List ElfScn
  deriving DecidableEq, Repr

/-- What the parser is run in. `addMap n` says whether there is memory for the `n`-th map, and so
on for the name of a map, a program, its names, and the name of a dynamic symbol. -/
structure Env where
  mem : Memory
  addMap : Nat → Bool
  mapName : Nat → Bool
  realloc : Nat → Bool
  progNames : Nat → Bool
  symName : Nat → Bool
  qsort : (BpfProgram → BpfProgram → Int) → List BpfProgram → List BpfProgram

/-- The members of type `Elf_Scn *`, but `got_scn`. -/
inductive ScnMember
  | symtabScn
  | dynsymScn
  | mapsScn
  | relaDynScn
  deriving DecidableEq, Repr

/-- An `iu_obj`, with the part of the `bpf_object` that the parser fills in. -/
structure ElfObj where
  scns : ScnMember → ScnPtr
  maps : MapTables
  progs : ProgTables
  relas : RelaTables

/-- The member initialisers of the constructor. -/
def memberInits : List (ScnMember × ScnPtr) :=
  [(.symtabScn, .null), (.dynsymScn, .null), (.mapsScn, .null)]

/-- `iu_obj::iu_obj`, in memory that held `prior`. -/
def ElfObj.init (prior : ScnMember → ScnPtr) : ElfObj :=
  ⟨writeAll memberInits prior, .empty, .empty, .empty⟩

/-! ## The stages -/

def shtSymtab : UInt32 := 2

def shtRela : UInt32 := 4

def shtDynsym : UInt32 := 11

/-- The tests of `parse_scns`: the member a section is stored in. Of the sections without one some
are noted in the `bpf_object`, for checks in libbpf. -/
def scnMember (shType : UInt32) (name : String) : Option ScnMember :=
  if shType = shtSymtab ∧ name = ".symtab" then some .symtabScn
  else if shType = shtDynsym ∧ name = ".dynsym" then some .dynsymScn
  else if name = ".maps" then some .mapsScn
  else if name ∈ [".text", ".data", ".rodata", ".struct_ops", ".bss"] then none
  else if shType = shtRela ∧ name = ".rela.dyn" then some .relaDynScn
  else none

/-- The loop of `parse_scns`. The symbol table is not stored when it has no data. -/
def parseScnsLoop : List ElfScn → (ScnMember → ScnPtr) → Int × (ScnMember → ScnPtr)
  | [], p => (0, p)
  | scn :: scns, p =>
      match scn.shdr, scn.name with
      | some sh, some name =>
          match scnMember sh.shType name with
          | none => parseScnsLoop scns p
          | some m =>
              if m = .symtabScn ∧ scn.data = none then (-1, p)
              else parseScnsLoop scns (Function.update p m (.scn scn))
      | _, _ => (-1, p)

/-- `iu_obj::parse_scns`. -/
def ElfObj.parseScns (f : ElfFile) (o : ElfObj) : Int × ElfObj :=
  if !f.ehdr then (-1, o)
  else if !f.shstrndx then (-1, o)
  else
    let (ret, scns) := parseScnsLoop f.scns.tail o.scns
    (ret, { o with scns := scns })

/-- `.maps` as `parse_maps` uses it; a section that is stored has a header. -/
def ElfScn.toMapsScn (s : ElfScn) : MapsScn where
  shndx := s.ndx
  shAddr := (s.shdr.map Elf64Shdr.shAddr).getD 0
  dBuf := s.data.map ElfData.dBuf

/-- `elf_getdata` of the symbol table; NULL for NULL. -/
def ScnPtr.symbols : ScnPtr → Option (List Elf64Sym)
  | .scn s => s.data.map ElfData.syms
  | _ => none

/-- `iu_obj::parse_maps`. -/
def ElfObj.parseMaps (env : Env) (o : ElfObj) : Option (Int × ElfObj) :=
  match o.scns .mapsScn, o.scns .symtabScn with
  | .null, _ => some (0, o)
  | .dangling, _ => none
  | .scn _, .dangling => none
  | .scn maps, symtab =>
      let (ret, t) := Loader.parseMaps env.mem env.addMap env.mapName (some maps.toMapsScn)
        symtab.symbols
      some (ret, { o with maps := t })

/-- The names of the sections. -/
def ElfFile.names (f : ElfFile) : List String := f.scns.map fun s => s.name.getD ""

/-- The header and the name of the section of a function symbol are there. -/
def ElfFile.nameReadable (f : ElfFile) (sym : Elf64Sym) : Bool :=
  match f.scns[sym.stShndx.toNat]? with
  | none => true
  | some scn => sym.stType ≠ sttFunc || (scn.shdr.isSome && scn.name.isSome)

/-- The data of the section of a symbol is there. -/
def ElfFile.dataReadable (f : ElfFile) (sym : Elf64Sym) : Bool :=
  (f.scns[sym.stShndx.toNat]?.bind ElfScn.data).isSome

/-- The loop of `parse_progs`, over what libelf returns of the sections. -/
def parseProgsScns (env : Env) (f : ElfFile) : List Elf64Sym → ProgTables →
    Option (Int × ProgTables)
  | [], t => some (0, t)
  | sym :: syms, t =>
      if !f.nameReadable sym then none
      else
        match progSym f.names sym with
        | none => parseProgsScns env f syms t
        | some p =>
            if !env.realloc t.programs.length then some (enomem, t.emplace p)
            else if !f.dataReadable sym then none
            else if !env.progNames t.programs.length then some (-1, t.emplace p)
            else parseProgsScns env f syms ((t.emplace p).append p)

/-- `iu_obj::parse_progs`; the header of the symbol table is read before anything is tested. -/
def ElfObj.parseProgs (env : Env) (f : ElfFile) (o : ElfObj) : Option (Int × ElfObj) :=
  match o.scns .symtabScn with
  | .scn symtab =>
      if !f.shstrndx then some (-1, o)
      else
        match symtab.data with
        | none => some (-1, o)
        | some syms =>
            match parseProgsScns env f syms.syms .empty with
            | none => none
            | some (ret, t) =>
                if ret ≠ 0 then some (ret, { o with progs := t })
                else some (0, { o with
                  progs := { t with programs := env.qsort cmpProgs t.programs } })
  | _ => none

/-- The section behind a pointer. -/
def ScnPtr.target : ScnPtr → Option ElfScn
  | .scn s => some s
  | _ => none

/-- `iu_obj::parse_rela_dyn`, with the members of the object. -/
def ElfObj.parseRelaDyn (env : Env) (o : ElfObj) : Option (Int × ElfObj) :=
  match Loader.parseRelaDyn env.mem env.symName o.maps.mapDefs (o.scns .dynsymScn).target
      (o.scns .relaDynScn) with
  | none => none
  | some (ret, t) => some (ret, { o with relas := t })

/-! ## What `parse_scns` stores -/

/-- The member a section belongs to. -/
def ElfScn.member (s : ElfScn) : Option ScnMember :=
  match s.shdr, s.name with
  | some sh, some name => scnMember sh.shType name
  | _, _ => none

/-- The scan does not stop at the section. -/
def ElfScn.readable (s : ElfScn) : Bool :=
  s.shdr.isSome && s.name.isSome && !(s.member = some .symtabScn && s.data.isNone)

/-- The store a section leads to. -/
def ElfScn.store (s : ElfScn) : Option (ScnMember × ScnPtr) := s.member.map fun m => (m, .scn s)

/-- A `.rela.dyn` section. -/
def ElfScn.IsRelaDyn (s : ElfScn) : Prop :=
  s.shdr.map Elf64Shdr.shType = some shtRela ∧ s.name = some ".rela.dyn"

instance (s : ElfScn) : Decidable s.IsRelaDyn := inferInstanceAs (Decidable (_ ∧ _))

/-- The sections the scan gets through. -/
def ElfFile.scanned (f : ElfFile) : List ElfScn :=
  if f.ehdr && f.shstrndx then f.scns.tail.takeWhile ElfScn.readable else []

/-- The scan gets through all sections. -/
def ElfFile.scansAll (f : ElfFile) : Bool :=
  f.ehdr && f.shstrndx && f.scns.tail.all ElfScn.readable

/-- What the constructor and `parse_scns` store, in order. -/
def ElfFile.stores (f : ElfFile) : List (ScnMember × ScnPtr) :=
  memberInits ++ f.scanned.filterMap ElfScn.store

/-- The last section of each kind that the scan gets through, if there is one. -/
def ElfFile.lastScn (f : ElfFile) : ScnMember → ScnPtr := writeAll f.stores fun _ => .null

variable {env : Env} {f : ElfFile} {o o' : ElfObj} {ret : Int}

theorem scnMember_eq_relaDynScn {shType : UInt32} {name : String} :
    scnMember shType name = some .relaDynScn ↔ shType = shtRela ∧ name = ".rela.dyn" := by
  constructor
  · intro h
    unfold scnMember at h
    split at h
    · cases h
    split at h
    · cases h
    split at h
    · cases h
    split at h
    · cases h
    split at h
    · next hrela => exact hrela
    · cases h
  · rintro ⟨rfl, rfl⟩
    decide

theorem ElfScn.member_eq_relaDynScn (s : ElfScn) :
    s.member = some .relaDynScn ↔ s.IsRelaDyn := by
  unfold member IsRelaDyn
  split
  · next sh name hshdr hname =>
      rw [scnMember_eq_relaDynScn, hshdr, hname, Option.map_some, Option.some_inj, Option.some_inj]
  · next hnone =>
      refine iff_of_false (by simp) ?_
      rintro ⟨hshdr, hname⟩
      obtain ⟨sh, hsh, -⟩ := Option.map_eq_some_iff.mp hshdr
      exact hnone sh _ hsh hname

/-- One turn of the loop. -/
theorem parseScnsLoop_cons (scn : ElfScn) (scns : List ElfScn) (p : ScnMember → ScnPtr) :
    parseScnsLoop (scn :: scns) p =
      if scn.readable then parseScnsLoop scns (writeAll ([scn].filterMap ElfScn.store) p)
      else (-1, p) := by
  rw [parseScnsLoop]
  split
  · next sh name hshdr hname =>
      have hmember : scn.member = scnMember sh.shType name := by
        rw [ElfScn.member, hshdr, hname]
      split
      · next hnone =>
          rw [hnone] at hmember
          have hread : scn.readable = true := by simp [ElfScn.readable, hshdr, hname, hmember]
          have hstore : scn.store = none := by rw [ElfScn.store, hmember, Option.map_none]
          rw [if_pos hread, List.filterMap_cons_none hstore]
          rfl
      · next m hm =>
          rw [hm] at hmember
          have hstore : scn.store = some (m, .scn scn) := by
            rw [ElfScn.store, hmember, Option.map_some]
          split
          · next hstop =>
              have hread : ¬ scn.readable = true := by
                simp [ElfScn.readable, hmember, hstop.1, hstop.2]
              rw [if_neg hread]
          · next hgo =>
              have hread : scn.readable = true := by
                simp only [ElfScn.readable, hshdr, hname, hmember, Option.isSome_some,
                  Bool.and_self, Bool.true_and, Option.some_inj]
                simpa [imp_iff_not_or, Option.isSome_iff_ne_none] using hgo
              rw [if_pos hread, List.filterMap_cons_some hstore]
              rfl
  · next hnone =>
      have hread : ¬ scn.readable = true := by
        intro hread
        simp only [ElfScn.readable, Bool.and_eq_true, Option.isSome_iff_exists] at hread
        obtain ⟨⟨⟨sh, hshdr⟩, name, hname⟩, -⟩ := hread
        exact hnone sh name hshdr hname
      rw [if_neg hread]

/-- **The scan stores its sections in order and stops at one it cannot read.** -/
theorem parseScnsLoop_eq (scns : List ElfScn) (p : ScnMember → ScnPtr) :
    parseScnsLoop scns p = (if scns.all ElfScn.readable then 0 else -1,
      writeAll ((scns.takeWhile ElfScn.readable).filterMap ElfScn.store) p) := by
  induction scns generalizing p with
  | nil => rfl
  | cons scn scns ih =>
      rw [parseScnsLoop_cons, List.all_cons]
      by_cases hread : scn.readable = true
      · have hfirst : scn :: scns.takeWhile ElfScn.readable =
            [scn] ++ scns.takeWhile ElfScn.readable := rfl
        rw [if_pos hread, ih, hread, Bool.true_and, List.takeWhile_cons_of_pos hread, hfirst,
          List.filterMap_append, writeAll_append]
      · rw [if_neg hread, List.takeWhile_cons_of_neg hread, Bool.eq_false_iff.mpr hread,
          Bool.false_and]
        rfl

/-- **`parse_scns`, on any object.** -/
theorem ElfObj.parseScns_eq (f : ElfFile) (o : ElfObj) : o.parseScns f =
    (if f.scansAll then 0 else -1,
      { o with scns := writeAll (f.scanned.filterMap ElfScn.store) o.scns }) := by
  unfold parseScns ElfFile.scansAll ElfFile.scanned
  cases f.ehdr with
  | false => rfl
  | true =>
      cases f.shstrndx with
      | false => rfl
      | true =>
          simp only [Bool.not_true, Bool.false_eq_true, if_false, Bool.and_self, Bool.true_and,
            if_true, parseScnsLoop_eq]

theorem ElfFile.mem_of_mem_scanned {s : ElfScn} (h : s ∈ f.scanned) : s ∈ f.scns := by
  unfold scanned at h
  split at h
  · exact List.mem_of_mem_tail ((List.takeWhile_sublist _).subset h)
  · cases h

/-- A stored pointer is NULL or points to a section. -/
theorem ElfFile.lastScn_cases (f : ElfFile) (m : ScnMember) :
    f.lastScn m = .null ∨ ∃ s, f.lastScn m = .scn s := by
  rcases writeAll_cases f.stores (fun _ => .null) m with hnull | hstore
  · exact .inl hnull
  · rw [ElfFile.stores, List.mem_append] at hstore
    rcases hstore with hinit | hscan
    · have hnull : ∀ w ∈ memberInits, w.2 = .null := by decide
      exact .inl (hnull _ hinit)
    · obtain ⟨s, -, hs⟩ := List.mem_filterMap.mp hscan
      obtain ⟨k, -, hk⟩ := Option.map_eq_some_iff.mp hs
      exact .inr ⟨s, (Prod.mk.inj hk).2.symm⟩

/-! ## The stages fail with negative numbers -/

theorem ElfObj.parseScns_le (h : some (o.parseScns f) = some (ret, o')) : ret ≤ 0 := by
  rw [o.parseScns_eq f] at h
  rw [← (Prod.mk.inj (Option.some.inj h)).1]
  split
  · exact Int.le_refl 0
  · exact show (-1 : Int) ≤ 0 by omega

theorem ElfObj.parseMaps_le (h : o.parseMaps env = some (ret, o')) : ret ≤ 0 := by
  unfold parseMaps at h
  split at h
  · cases h
    exact Int.le_refl 0
  · cases h
  · cases h
  · next maps _ _ =>
      rw [← (Prod.mk.inj (Option.some.inj h)).1]
      exact Loader.parseMaps_le (some maps.toMapsScn) _

theorem parseProgsScns_le {syms : List Elf64Sym} {t t' : ProgTables}
    (h : parseProgsScns env f syms t = some (ret, t')) : ret ≤ 0 := by
  induction syms generalizing t with
  | nil =>
      cases h
      exact Int.le_refl 0
  | cons sym syms ih =>
      rw [parseProgsScns] at h
      split at h
      · cases h
      split at h
      · exact ih h
      split at h
      · cases h
        exact show enomem ≤ 0 by decide
      split at h
      · cases h
      split at h
      · cases h
        exact show (-1 : Int) ≤ 0 by omega
      · exact ih h

theorem ElfObj.parseProgs_le (h : o.parseProgs env f = some (ret, o')) : ret ≤ 0 := by
  unfold parseProgs at h
  split at h
  · split at h
    · cases h
      exact show (-1 : Int) ≤ 0 by omega
    · split at h
      · cases h
        exact show (-1 : Int) ≤ 0 by omega
      · split at h
        · cases h
        · next hloop =>
            split at h
            · cases h
              exact parseProgsScns_le hloop
            · cases h
              exact Int.le_refl 0
  · cases h

theorem parseRelaDynLoop_le {strdup : Nat → Bool} {mapDefs : List (UInt64 × IuMap)}
    {dynsymScn : Option ElfScn} {rs : List IuRelaDyn} {t t' : RelaTables}
    (h : parseRelaDynLoop strdup mapDefs dynsymScn rs t = some (ret, t')) : ret ≤ 0 := by
  induction rs generalizing t with
  | nil =>
      cases h
      exact Int.le_refl 0
  | cons r rs ih =>
      rw [parseRelaDynLoop] at h
      split at h
      · exact ih h
      split at h
      · exact ih h
      split at h
      · split at h
        · cases h
        split at h
        · cases h
          exact show (-1 : Int) ≤ 0 by omega
        · exact ih h
      · cases h
        exact show (-1 : Int) ≤ 0 by omega

theorem ElfObj.parseRelaDyn_le (h : o.parseRelaDyn env = some (ret, o')) : ret ≤ 0 := by
  unfold parseRelaDyn at h
  split at h
  · cases h
  · next hparse =>
      cases h
      unfold Loader.parseRelaDyn at hparse
      split at hparse
      · cases hparse
        exact Int.le_refl 0
      · cases hparse
      · split at hparse
        · cases hparse
          exact show (-1 : Int) ≤ 0 by omega
        · cases hparse
        · split at hparse
          · cases hparse
            exact show (-1 : Int) ≤ 0 by omega
          · exact parseRelaDynLoop_le hparse

/-! ## When the stages succeed -/

/-- `parse_maps` succeeds: where there is a section `.maps`, it has data, the symbol table has, and
there is memory for each map. -/
def ElfFile.ParsesMaps (f : ElfFile) (env : Env) : Prop :=
  ∀ maps, f.lastScn .mapsScn = .scn maps →
    maps.data.isSome ∧ ∃ syms, (f.lastScn .symtabScn).symbols = some syms ∧
      ∀ n < (syms.filter maps.toMapsScn.holds).length,
        env.addMap n = true ∧ env.mapName n = true

/-- What `parse_progs` reads of the section of a symbol is there. -/
def ElfFile.Intact (f : ElfFile) (sym : Elf64Sym) : Prop :=
  f.nameReadable sym = true ∧ ((progSym f.names sym).isSome → f.dataReadable sym = true)

/-- `parse_progs` succeeds: there is a symbol table with data, the sections of the functions can be
read, and there is memory for each program. -/
def ElfFile.ParsesProgs (f : ElfFile) (env : Env) : Prop :=
  f.shstrndx = true ∧ ∃ syms, (f.lastScn .symtabScn).symbols = some syms ∧
    (∀ sym ∈ syms, f.Intact sym) ∧
      ∀ n < (progSyms f.names syms).length, env.realloc n = true ∧ env.progNames n = true

/-- **Where the sections can be read this is the loop of `KernelDev.Loader.Programs`.** -/
theorem parseProgsScns_of_intact {syms : List Elf64Sym} (h : ∀ sym ∈ syms, f.Intact sym)
    (t : ProgTables) : parseProgsScns env f syms t =
      some (parseProgsLoop env.realloc env.progNames f.names syms t) := by
  induction syms generalizing t with
  | nil => rfl
  | cons sym syms ih =>
      rw [List.forall_mem_cons] at h
      rw [parseProgsScns, parseProgsLoop, h.1.1, Bool.not_true, if_neg Bool.false_ne_true]
      cases hsym : progSym f.names sym with
      | none => exact ih h.2 t
      | some p =>
          have hdata : f.dataReadable sym = true := h.1.2 (by rw [hsym]; rfl)
          simp only [hdata, Bool.not_true, Bool.false_eq_true, if_false]
          split
          · rfl
          · split
            · rfl
            · exact ih h.2 _

/-- A loop that comes to its end could read them. -/
theorem intact_of_parseProgsScns {syms : List Elf64Sym} {t t' : ProgTables}
    (h : parseProgsScns env f syms t = some (ret, t')) (hret : 0 ≤ ret) :
    ∀ sym ∈ syms, f.Intact sym := by
  induction syms generalizing t with
  | nil => exact fun sym hsym => absurd hsym List.not_mem_nil
  | cons sym syms ih =>
      rw [parseProgsScns] at h
      rw [List.forall_mem_cons]
      split at h
      · cases h
      · next hname =>
          have hname : f.nameReadable sym = true := by simpa using hname
          split at h
          · next hsym =>
              exact ⟨⟨hname, fun hsome => by simp [hsym] at hsome⟩, ih h⟩
          · split at h
            · cases h
              exact absurd hret (by decide)
            · split at h
              · cases h
              · next hdata =>
                  split at h
                  · cases h
                    exact absurd hret (by omega)
                  · exact ⟨⟨hname, fun _ => by simpa using hdata⟩, ih h⟩

theorem ElfObj.parseMaps_of_null (h : o.scns .mapsScn = .null) :
    o.parseMaps env = some (0, o) := by
  unfold parseMaps
  rw [h]

theorem ElfObj.parseMaps_of_scn (env : Env) {maps : ElfScn} (hmaps : o.scns .mapsScn = .scn maps)
    (hlive : o.scns .symtabScn ≠ .dangling) :
    ∃ t, o.parseMaps env = some ((Loader.parseMaps env.mem env.addMap env.mapName
      (some maps.toMapsScn) (o.scns .symtabScn).symbols).1, t) := by
  unfold parseMaps
  rw [hmaps]
  cases hsymtab : o.scns .symtabScn with
  | dangling => exact absurd hsymtab hlive
  | null => exact ⟨_, rfl⟩
  | scn s => exact ⟨_, rfl⟩

/-- `parse_maps` of the sections that were stored. -/
theorem ElfObj.parseMaps_neg_iff (env : Env) (hscns : o.scns = f.lastScn) :
    ∃ ret o', o.parseMaps env = some (ret, o') ∧ (ret < 0 ↔ ¬ f.ParsesMaps env) := by
  have hlive : o.scns .symtabScn ≠ .dangling := by
    rw [hscns]
    rcases f.lastScn_cases .symtabScn with h | ⟨s, h⟩
    · rw [h]
      exact ScnPtr.noConfusion
    · rw [h]
      exact ScnPtr.noConfusion
  rcases f.lastScn_cases .mapsScn with hmaps | ⟨maps, hmaps⟩
  · refine ⟨0, o, parseMaps_of_null (by rw [hscns, hmaps]), ?_⟩
    refine iff_of_false (Int.lt_irrefl 0) (not_not.mpr fun maps h => ?_)
    cases hmaps.symm.trans h
  · obtain ⟨t, ht⟩ := parseMaps_of_scn env (by rw [hscns, hmaps]) hlive
    refine ⟨_, t, ht, ?_⟩
    have hparses : f.ParsesMaps env ↔ (Loader.parseMaps env.mem env.addMap env.mapName
        (some maps.toMapsScn) (o.scns .symtabScn).symbols).1 = 0 := by
      rw [parseMaps_fst, ElfFile.ParsesMaps, hscns, hmaps, ElfScn.toMapsScn, Option.isSome_map]
      constructor
      · exact fun h => h maps rfl
      · intro h maps' heq
        exact ScnPtr.scn.inj heq ▸ h
    have hle : (Loader.parseMaps env.mem env.addMap env.mapName (some maps.toMapsScn)
        (o.scns .symtabScn).symbols).1 ≤ 0 := Loader.parseMaps_le _ _
    rw [hparses]
    exact ⟨fun hlt => Int.ne_of_lt hlt, fun hne => lt_of_le_of_ne hle hne⟩

/-- `parse_progs` of these. -/
theorem ElfObj.parseProgs_nonneg_iff (hscns : o.scns = f.lastScn) :
    (∃ ret o', o.parseProgs env f = some (ret, o') ∧ 0 ≤ ret) ↔ f.ParsesProgs env := by
  unfold parseProgs ElfFile.ParsesProgs
  rw [hscns]
  cases hsymtab : f.lastScn .symtabScn with
  | null =>
      refine iff_of_false ?_ fun ⟨_, _, h, _⟩ => by cases h
      rintro ⟨_, _, h, _⟩
      cases h
  | dangling =>
      refine iff_of_false ?_ fun ⟨_, _, h, _⟩ => by cases h
      rintro ⟨_, _, h, _⟩
      cases h
  | scn symtab =>
      cases f.shstrndx with
      | false =>
          refine iff_of_false ?_ fun h => by cases h.1
          rintro ⟨ret, _, h, hret⟩
          cases h
          exact absurd hret (by omega)
      | true =>
          rw [and_iff_right rfl]
          simp only [Bool.not_true, Bool.false_eq_true, if_false, ScnPtr.symbols]
          cases symtab.data with
          | none =>
              refine iff_of_false ?_ fun ⟨_, h, _⟩ => by cases h
              rintro ⟨ret, _, h, hret⟩
              cases h
              exact absurd hret (by omega)
          | some data =>
              simp only [Option.map_some, Option.some_inj, exists_eq_left']
              constructor
              · rintro ⟨ret, o', h, hret⟩
                split at h
                · cases h
                next ret' t hloop =>
                obtain rfl : ret' = 0 := by
                  by_contra hne
                  rw [if_pos hne] at h
                  cases h
                  exact hne (Int.le_antisymm (parseProgsScns_le hloop) hret)
                have hintact := intact_of_parseProgsScns hloop (Int.le_refl 0)
                rw [parseProgsScns_of_intact hintact] at hloop
                have hfst := congrArg Prod.fst (Option.some.inj hloop)
                have hmemory := parseProgsLoop_fst.mp hfst
                simp only [ProgTables.empty, List.length_nil, Nat.zero_add] at hmemory
                exact ⟨hintact, hmemory⟩
              · rintro ⟨hintact, hmemory⟩
                have hfst : (parseProgsLoop env.realloc env.progNames f.names data.syms .empty).1 =
                    0 := by
                  apply parseProgsLoop_fst.mpr
                  simpa only [ProgTables.empty, List.length_nil, Nat.zero_add] using hmemory
                rw [parseProgsScns_of_intact hintact]
                simp only [hfst, ne_eq, not_true_eq_false, if_false]
                exact ⟨0, _, rfl, Int.le_refl 0⟩

end KernelDev.Loader
