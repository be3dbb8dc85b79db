/-
# KernelDev.Loader.Object — an object file loaded, from its sections to its descriptors

Here the six stages of `iu_obj_load` are those of the file: the four of `parse_elf` over its
sections, `fix_maps` over the definitions they have found, and `load` over its programs. What the
outside answers is an `Answers`.

`loadObject` is the same chain with the descriptors: which are obtained, in which order, and which
the error label closes. An object holds those its destructor closes: the base program's, and the
one of each map.
-/
import KernelDev.Lib.FdTable
import KernelDev.Loader.Construct
import KernelDev.Loader.Descriptors
import KernelDev.Loader.FixMaps

namespace KernelDev.Loader

open KernelDev.Lib

/-! ## The stages of a file -/

/-- What a call of `iu_obj_load` meets. The two orders are those of hash tables. -/
structure Answers where
  env : Env
  /-- `elf_version` does not fail. -/
  elfVersion : Bool
  /-- `open` of the object file. -/
  elfFd : Int
  /-- `mmap` does not fail. -/
  mapped : Bool
  file : Memory
  /-- `sh_offset` of a section. -/
  shOffset : ElfScn → UInt64
  /-- The `n`-th `BPF_MAP_CREATE`. -/
  mapFds : Nat → Int
  mapOrder : List (UInt64 × IuMap) → List (UInt64 × IuMap)
  mapOrder_perm : ∀ l, (mapOrder l).Perm l
  load : LoadAnswers
  iterate_perm : ∀ l, (load.iterate l).Perm l

/-- An `iu_obj` but for `prog_fd`, with its `bpf_object`. -/
structure Image where
  elf : ElfObj
  fix : FixState

/-- `iu_obj::iu_obj`, in memory that held `prior`. -/
def Image.init (prior : ScnMember → ScnPtr) (file : Memory) : Image :=
  ⟨.init prior, .start file []⟩

/-- A stage of the parser, in a process that goes on while it has not crashed. -/
def onElf (stage : ElfObj → Option (Int × ElfObj)) : Option Image → Int × Option Image
  | none => (0, none)
  | some i =>
      match stage i.elf with
      | none => (0, none)
      | some (ret, o) => (ret, some { i with elf := o })

section
variable (a : Answers)

/-- `maps_scn` with its header; the constructor leaves it NULL. -/
def mapsSection (o : ElfObj) : Option MapsSection :=
  match o.scns .mapsScn with
  | .scn s =>
      some { s.toMapsScn with
        shOffset := a.shOffset s
        shSize := s.shdr.elim 0 Elf64Shdr.shSize }
  | _ => none

/-- `iu_obj::fix_maps`. -/
def Image.fixMaps (i : Image) : Int × Image :=
  let (ret, s) := Loader.fixMaps a.mapFds (mapsSection a i.elf) a.mapped
    (a.mapOrder i.elf.maps.mapDefs) (.start a.file i.elf.maps.maps)
  (ret, { i with fix := s })

/-- The tables of the programs as `load` leaves them. -/
def Image.setProgs (t : ProgTables) (i : Image) : Image :=
  { i with elf := { i.elf with progs := t } }

end

theorem onElf_le {stage : ElfObj → Option (Int × ElfObj)}
    (h : ∀ {o ret o'}, stage o = some (ret, o') → ret ≤ 0) (s : Option Image) :
    (onElf stage s).1 ≤ 0 := by
  cases s with
  | none => exact Int.le_refl 0
  | some i =>
      rw [onElf]
      cases hstage : stage i.elf with
      | none => exact Int.le_refl 0
      | some r => exact h hstage

theorem fixMapsLoop_le (scn : MapsSection) (fds : Nat → Int) (order : List (UInt64 × IuMap))
    (s : FixState) : (fixMapsLoop scn fds order s).1 ≤ 0 := by
  induction order generalizing s with
  | nil => exact Int.le_refl 0
  | cons e order ih =>
      rw [fixMapsLoop]
      split
      · exact show (-1 : Int) ≤ 0 by omega
      · exact ih _

theorem fixMaps_le (fds : Nat → Int) (scn : Option MapsSection) (mapped : Bool)
    (order : List (UInt64 × IuMap)) (s : FixState) :
    (Loader.fixMaps fds scn mapped order s).1 ≤ 0 := by
  unfold Loader.fixMaps
  split
  · exact Int.le_refl 0
  · split
    · exact show (-1 : Int) ≤ 0 by omega
    · exact fixMapsLoop_le _ _ _ _

/-- A stage that comes after the parser. -/
def onImage (stage : Image → Int × Image) : Option Image → Int × Option Image
  | none => (0, none)
  | some i => ((stage i).1, some (stage i).2)

theorem onImage_le {stage : Image → Int × Image} (h : ∀ i, (stage i).1 ≤ 0) (s : Option Image) :
    (onImage stage s).1 ≤ 0 := by
  cases s with
  | none => exact Int.le_refl 0
  | some i => exact h i

/-- The stages of `iu_obj_load` for a file. -/
def loaderStages (a : Answers) (f : ElfFile) : Stages (Option Image) where
  parseScns := onElf fun o => some (o.parseScns f)
  parseMaps := onElf (ElfObj.parseMaps a.env)
  parseProgs := onElf (ElfObj.parseProgs a.env f)
  parseRelaDyn := onElf (ElfObj.parseRelaDyn a.env)
  fixMaps := onImage (Image.fixMaps a)
  bpfProgLoadIuBase _ := a.load.base
  loadProgs progFd s :=
    match s with
    | none => (false, none)
    | some i =>
        let (done, t) := loadProgs a.load.bpf progFd a.load.iterate a.load.removed i.elf.progs
        (done, some (i.setProgs t))
  parseScns_le := onElf_le ElfObj.parseScns_le
  parseMaps_le := onElf_le ElfObj.parseMaps_le
  parseProgs_le := onElf_le ElfObj.parseProgs_le
  parseRelaDyn_le := onElf_le ElfObj.parseRelaDyn_le
  fixMaps_le := onImage_le fun _ => fixMaps_le _ _ _ _ _

/-! ## The chain with its descriptors -/

/-- What an open descriptor refers to. -/
inductive File
  | own
  | elf
  | rustOut
  | map
  | base
  | program
  deriving DecidableEq, Repr

/-- The destructors close these. -/
def File.Managed (k : File) : Prop := k = .map ∨ k = .base

instance : DecidablePred File.Managed := fun k => inferInstanceAs (Decidable (k = .map ∨ k = .base))

/-- An `iu_obj`. -/
structure Obj where
  image : Image
  progFd : Int

/-- `map_fd` of each map. -/
def Image.mapFds (i : Image) : List Int := i.elf.maps.mapDefs.map fun e => i.fix.mapFd e.1

/-- What `iu_obj::~iu_obj` and the destructors of the maps close. -/
def Obj.held (o : Obj) : List (Int × File) :=
  (delivered [o.progFd]).map (·, .base) ++ (delivered o.image.mapFds).map (·, .map)

/-- What `load` asks for, in order. -/
def loadFiles (k : LoadAnswers) (t : ProgTables) : List (Int × File) :=
  if k.base < 0 then [(k.openFd, .rustOut)]
  else
    let t' := (loadProgs k.bpf k.base k.iterate k.removed t).2
    (k.openFd, .rustOut) :: (k.base, .base) ::
      (t'.calls.drop t.calls.length).map fun c => (c.fd, .program)

/-- What the calls of `iu_obj_load` return and leave, with the descriptors asked for and those that
the error label closes. -/
structure LoadedObj where
  ret : Int
  obj : Obj
  asked : List (Int × File)
  closed : List Int

section
variable (a : Answers) (f : ElfFile) (prior : ScnMember → ScnPtr)

/-- `iu_obj_load` from the constructor to the last stage; `none` is a crash. `load` on a file that
is not in memory writes from an invalid address. -/
def loadObject : Option LoadedObj :=
  let (ret, r) := parseElf (loaderStages a f) f.elf ⟨⟨some (.init prior a.file), -1, []⟩, []⟩
  match r.obj.image with
  | none => none
  | some i =>
      if ret ≠ 0 then some ⟨ret, ⟨i, -1⟩, [(a.elfFd, .elf)], []⟩
      else
        let (ret, i) := i.fixMaps a
        let asked := (a.elfFd, .elf) :: i.fix.creates.map fun c => (c.2, .map)
        if ret ≠ 0 then some ⟨ret, ⟨i, -1⟩, asked, []⟩
        else if !a.mapped then none
        else
          let l := loadFds a.load i.elf.progs
          some ⟨l.ret, ⟨i.setProgs l.tables, l.progFd⟩, asked ++ loadFiles a.load i.elf.progs,
            l.closed⟩

end

/-! ## The chain is that of `iu_obj_load` -/

variable {a : Answers} {f : ElfFile} {prior : ScnMember → ScnPtr} {l : LoadedObj}

/-- The object file as `iu_obj_load` gets it. -/
def Answers.input (a : Answers) (f : ElfFile) (prior : ScnMember → ScnPtr) :
    Input (Option Image) :=
  ⟨a.elfVersion, f.elf, some (.init prior a.file)⟩

/-- `load` with its descriptors is the stage. -/
theorem load_eq_loadFds (i : Image) (r : LoadRun (Option Image)) (himage : r.obj.image = some i)
    (hfd : r.obj.progFd = -1) :
    let q := (loaderStages a f).call .load r
    q.1 = (loadFds a.load i.elf.progs).ret ∧
      q.2.obj.image = some (i.setProgs (loadFds a.load i.elf.progs).tables) ∧
      q.2.obj.progFd = (loadFds a.load i.elf.progs).progFd := by
  intro q
  obtain ⟨⟨done, t⟩, hload⟩ : ∃ d,
      loadProgs a.load.bpf a.load.base a.load.iterate a.load.removed i.elf.progs = d := ⟨_, rfl⟩
  have hprogs : (loaderStages a f).loadProgs a.load.base r.obj.image =
      (done, some (i.setProgs t)) := by
    rw [himage]
    show (let (done, t) := loadProgs _ _ _ _ _; (done, some (i.setProgs t))) = _
    rw [hload]
  have hbase : (loaderStages a f).bpfProgLoadIuBase r.obj.image = a.load.base := rfl
  simp only [q, Stages.call, Stages.run, Stages.load, hbase, hprogs]
  unfold loadFds
  split
  · exact ⟨rfl, by rw [himage]; rfl, hfd⟩
  · rw [hload]
    cases done with
    | true => exact ⟨rfl, rfl, rfl⟩
    | false => exact ⟨rfl, rfl, rfl⟩

/-- What the stages of the parser keep, the parser keeps. -/
theorem parseElf_invariant {σ : Type*} {I : IuObj σ → Prop} (st : Stages σ)
    (hstage : ∀ i o, i ∈ [Stage.parseScns, .parseMaps, .parseProgs, .parseRelaDyn] → I o →
      I (st.run i o).2) (elf : Bool) {r : LoadRun σ} (hr : I r.obj) :
    I (parseElf st elf r).2.obj := by
  have helvis : ∀ (x : Int) (i : Stage) (r : LoadRun σ),
      i ∈ [Stage.parseScns, .parseMaps, .parseProgs, .parseRelaDyn] → I r.obj →
      I (elvis x (st.call i) r).2.obj := by
    intro x i r hi hr
    unfold elvis
    split
    · exact hr
    · exact hstage i _ hi hr
  unfold parseElf
  split
  · exact hr
  · apply helvis _ _ _ (by decide)
    apply helvis _ _ _ (by decide)
    apply helvis _ _ _ (by decide)
    exact hstage _ _ (by decide) hr

/-- **The descriptors aside this is `iu_obj_load`.** -/
theorem loadObject_eq (hversion : a.elfVersion = true) (h : loadObject a f prior = some l)
    (objs : Int → Option (IuObj (Option Image))) :
    let r := iuObjLoad (loaderStages a f) (a.input f prior) objs
    r.ret = l.ret ∧ r.run.obj.image = some l.obj.image ∧ r.run.obj.progFd = l.obj.progFd := by
  intro r
  unfold loadObject at h
  simp only [r, iuObjLoad, Answers.input, hversion, Input.obj, Bool.not_true, Bool.false_eq_true,
    if_false]
  have hparsed : (parseElf (loaderStages a f) f.elf
      ⟨⟨some (.init prior a.file), -1, []⟩, []⟩).2.obj.progFd = -1 := by
    apply parseElf_invariant (I := fun o => o.progFd = -1)
    · intro i o hi ho
      cases i with
      | load => exact absurd hi (by decide)
      | _ => exact ho
    · rfl
  generalize parseElf (loaderStages a f) f.elf ⟨⟨some (.init prior a.file), -1, []⟩, []⟩ = p
    at h hparsed ⊢
  obtain ⟨ret, r⟩ := p
  simp only at h hparsed ⊢
  cases himage : r.obj.image with
  | none =>
      rw [himage] at h
      cases h
  | some i =>
      rw [himage] at h
      simp only at h
      split at h
      · next hret =>
          obtain rfl := Option.some.inj h
          rw [elvis_of_ne hret]
          simp only [elvis_of_ne hret]
          exact ⟨trivial, himage, hparsed⟩
      · next hret =>
          obtain rfl : ret = 0 := not_not.mp hret
          rw [elvis_zero]
          -- `fix_maps` leaves `prog_fd` alone
          have hfix : ((loaderStages a f).call .fixMaps r).1 = (i.fixMaps a).1 ∧
              ((loaderStages a f).call .fixMaps r).2.obj.image = some (i.fixMaps a).2 ∧
              ((loaderStages a f).call .fixMaps r).2.obj.progFd = -1 := by
            refine ⟨?_, ?_, hparsed⟩
            · show (onImage (Image.fixMaps a) r.obj.image).1 = _
              rw [himage]
              rfl
            · show (onImage (Image.fixMaps a) r.obj.image).2 = _
              rw [himage]
              rfl
          obtain ⟨hfixret, hfiximage, hfixfd⟩ := hfix
          split at h
          · next hret =>
              obtain rfl := Option.some.inj h
              rw [← hfixret] at hret
              simp only [elvis_of_ne hret]
              exact ⟨hfixret, hfiximage, hfixfd⟩
          · next hret =>
              split at h
              · cases h
              obtain rfl := Option.some.inj h
              rw [hfixret, not_not.mp hret]
              simp only [elvis_zero]
              exact load_eq_loadFds _ _ hfiximage hfixfd

/-! ## What the parser leaves -/

/-- Each key is there once, and no program is loaded. -/
structure ProgsUnloaded (progs : List (String × IuProg)) : Prop where
  once : (progs.map Prod.fst).Nodup
  fds : ∀ e ∈ progs, e.2.fd = -1

/-- Each map is there once, and nothing is loaded. -/
structure Unloaded (o : ElfObj) : Prop where
  maps : (o.maps.mapDefs.map Prod.fst).Nodup
  progs : ProgsUnloaded o.progs.progs
  /-- Maps are found in a section. -/
  scn : o.maps.mapDefs = [] ∨ ∃ s, o.scns .mapsScn = .scn s

theorem progsUnloaded_nil : ProgsUnloaded [] := ⟨List.nodup_nil, fun e he => by cases he⟩

theorem ProgsUnloaded.emplace {t : ProgTables} (h : ProgsUnloaded t.progs) (p : ProgSym) :
    ProgsUnloaded (t.emplace p).progs := by
  refine ⟨tryEmplace_nodup h.once _ _, fun e he => ?_⟩
  rcases mem_tryEmplace he with hold | rfl
  · exact h.fds e hold
  · rfl

theorem parseMapsLoop_nodup {mem : Memory} {addMap strdup : Nat → Bool} {scn : MapsScn}
    {dBuf : UInt64} (syms : List Elf64Sym) {t : MapTables} (h : (t.mapDefs.map Prod.fst).Nodup) :
    ((parseMapsLoop mem addMap strdup scn dBuf syms t).2.mapDefs.map Prod.fst).Nodup := by
  induction syms generalizing t with
  | nil => exact h
  | cons sym syms ih =>
      rw [parseMapsLoop]
      split
      · exact ih h
      split
      · exact h
      split
      · exact h
      · apply ih
        rw [MapTables.enter]
        split
        · exact tryEmplace_nodup h _ _
        · exact h

theorem Unloaded.parseMaps {env : Env} {o o' : ElfObj} {ret : Int} (ho : Unloaded o)
    (h : o.parseMaps env = some (ret, o')) : Unloaded o' := by
  unfold ElfObj.parseMaps at h
  split at h
  · obtain rfl := (Prod.mk.inj (Option.some.inj h)).2
    exact ho
  · cases h
  · cases h
  · next maps _ hscn _ =>
      obtain rfl := (Prod.mk.inj (Option.some.inj h)).2
      refine ⟨?_, ho.progs, .inr ⟨_, hscn⟩⟩
      dsimp only
      split
      · exact List.nodup_nil
      · exact List.nodup_nil
      · exact parseMapsLoop_nodup _ List.nodup_nil

theorem progsUnloaded_of_loop {env : Env} {f : ElfFile} {syms : List Elf64Sym}
    {t t' : ProgTables} {ret : Int} (ht : ProgsUnloaded t.progs)
    (h : parseProgsScns env f syms t = some (ret, t')) : ProgsUnloaded t'.progs := by
  induction syms generalizing t with
  | nil =>
      obtain rfl := (Prod.mk.inj (Option.some.inj h)).2
      exact ht
  | cons sym syms ih =>
      rw [parseProgsScns] at h
      split at h
      · cases h
      split at h
      · exact ih ht h
      next p _ =>
      split at h
      · obtain rfl := (Prod.mk.inj (Option.some.inj h)).2
        exact ht.emplace p
      split at h
      · cases h
      split at h
      · obtain rfl := (Prod.mk.inj (Option.some.inj h)).2
        exact ht.emplace p
      · have hkept : ProgsUnloaded ((t.emplace p).append p).progs := ht.emplace p
        exact ih hkept h

theorem Unloaded.parseProgs {env : Env} {f : ElfFile} {o o' : ElfObj} {ret : Int}
    (ho : Unloaded o) (h : o.parseProgs env f = some (ret, o')) : Unloaded o' := by
  unfold ElfObj.parseProgs at h
  split at h
  · split at h
    · obtain rfl := (Prod.mk.inj (Option.some.inj h)).2
      exact ho
    split at h
    · obtain rfl := (Prod.mk.inj (Option.some.inj h)).2
      exact ho
    split at h
    · cases h
    next hloop =>
    have hprogs := progsUnloaded_of_loop progsUnloaded_nil hloop
    split at h
    · obtain rfl := (Prod.mk.inj (Option.some.inj h)).2
      exact ⟨ho.maps, hprogs, ho.scn⟩
    · obtain rfl := (Prod.mk.inj (Option.some.inj h)).2
      exact ⟨ho.maps, hprogs, ho.scn⟩
  · cases h

theorem Unloaded.parseRelaDyn {env : Env} {o o' : ElfObj} {ret : Int} (ho : Unloaded o)
    (h : o.parseRelaDyn env = some (ret, o')) : Unloaded o' := by
  unfold ElfObj.parseRelaDyn at h
  split at h
  · cases h
  · obtain rfl := (Prod.mk.inj (Option.some.inj h)).2
    exact ⟨ho.maps, ho.progs, ho.scn⟩

theorem Unloaded.parseScns {f : ElfFile} {o : ElfObj} (ho : Unloaded o) :
    Unloaded (o.parseScns f).2 := by
  rw [o.parseScns_eq f]
  refine ⟨ho.maps, ho.progs, ho.scn.imp_right fun ⟨s, hs⟩ => ?_⟩
  rcases writeAll_cases (f.scanned.filterMap ElfScn.store) o.scns .mapsScn with hold | hnew
  · exact ⟨s, hold.trans hs⟩
  · -- what is stored is a section
    obtain ⟨s', -, hstore⟩ := List.mem_filterMap.mp hnew
    obtain ⟨m, -, hm⟩ := Option.map_eq_some_iff.mp hstore
    exact ⟨s', (Prod.mk.inj hm).2.symm⟩

/-- Without a section there are no maps. -/
theorem Unloaded.section_of {a : Answers} {o : ElfObj} (ho : Unloaded o)
    (h : mapsSection a o = none) : o.maps.mapDefs = [] := by
  rcases ho.scn with hnil | ⟨s, hs⟩
  · exact hnil
  · rw [mapsSection, hs] at h
    cases h

/-- The object the parser works on is there while the process lives, with nothing loaded. -/
def Image.Parsing (file : Memory) (i : Image) : Prop :=
  Unloaded i.elf ∧ i.fix = .start file []

theorem onElf_parsing {file : Memory} {stage : ElfObj → Option (Int × ElfObj)}
    (hstage : ∀ {o ret o'}, Unloaded o → stage o = some (ret, o') → Unloaded o')
    {s : Option Image} (hs : ∀ i ∈ s, i.Parsing file) :
    ∀ i ∈ (onElf stage s).2, i.Parsing file := by
  cases s with
  | none => exact hs
  | some i =>
      have hi := hs i rfl
      rw [onElf]
      cases h : stage i.elf with
      | none => exact fun j hj => by cases hj
      | some r =>
          rintro j ⟨⟩
          exact ⟨hstage hi.1 h, hi.2⟩

/-- **However parsing ends, each map and each program is there once and nothing is loaded.** -/
theorem parseElf_unloaded (a : Answers) (f : ElfFile) (prior : ScnMember → ScnPtr) {i : Image}
    (h : (parseElf (loaderStages a f) f.elf
      ⟨⟨some (.init prior a.file), -1, []⟩, []⟩).2.obj.image = some i) :
    Unloaded i.elf ∧ i.fix = .start a.file [] := by
  suffices hall : ∀ i ∈ (parseElf (loaderStages a f) f.elf
      ⟨⟨some (.init prior a.file), -1, []⟩, []⟩).2.obj.image, i.Parsing a.file from hall i h
  refine parseElf_invariant (I := fun o => ∀ i ∈ o.image, Image.Parsing a.file i) _ ?_ _ ?_
  · intro stage o hstage ho
    cases stage with
    | parseScns =>
        have hscns : ∀ {o ret o'}, Unloaded o → some (o.parseScns f) = some (ret, o') →
            Unloaded o' := by
          intro o ret o' hun hscns
          rw [← (Prod.mk.inj (Option.some.inj hscns)).2]
          exact hun.parseScns
        exact onElf_parsing hscns ho
    | parseMaps => exact onElf_parsing Unloaded.parseMaps ho
    | parseProgs => exact onElf_parsing Unloaded.parseProgs ho
    | parseRelaDyn => exact onElf_parsing Unloaded.parseRelaDyn ho
    | fixMaps => exact absurd hstage (by decide)
    | load => exact absurd hstage (by decide)
  · rintro j ⟨⟩
    exact ⟨⟨List.nodup_nil, progsUnloaded_nil, .inl rfl⟩, rfl⟩

/-! ## The descriptors of `fix_maps` -/

theorem delivered_cons (fd : Int) (fds : List Int) :
    delivered (fd :: fds) = if 0 ≤ fd then fd :: delivered fds else delivered fds := by
  rw [delivered, List.filter_cons]
  simp only [decide_eq_true_eq]
  rfl

theorem delivered_eq_nil {fds : List Int} (h : ∀ fd ∈ fds, fd = -1) : delivered fds = [] := by
  rw [delivered, List.filter_eq_nil_iff]
  intro fd hfd
  rw [h fd hfd]
  decide

/-- The maps of a loop have, in order, the descriptors it has obtained. -/
structure MapsHeld (order : List (UInt64 × IuMap)) (s s' : FixState) (ret : Int) : Prop where
  held : ∃ new, s'.creates = s.creates ++ new ∧
    delivered (order.map fun e => s'.mapFd e.1) = delivered (new.map Prod.snd)
  frame : ∀ v, v ∉ order.map Prod.fst → s'.mapFd v = s.mapFd v
  /-- A name is one of a map that has been created. -/
  named : ∀ n ∈ s'.name2map, n ∈ s.name2map ∨
    ∃ m, (n.2, m) ∈ order ∧ m.name = n.1 ∧ 0 ≤ s'.mapFd n.2
  stays : ∀ name, (valueAt name s.name2map).isSome → (valueAt name s'.name2map).isSome
  found : ret = 0 → ∀ e ∈ order, (valueAt e.2.name s'.name2map).isSome

theorem fixMapsLoop_held {scn : MapsSection} {fds : Nat → Int} {order : List (UInt64 × IuMap)}
    {s s' : FixState} {ret : Int} (honce : (order.map Prod.fst).Nodup)
    (hnone : ∀ e ∈ order, s.mapFd e.1 = -1) (h : fixMapsLoop scn fds order s = (ret, s')) :
    MapsHeld order s s' ret := by
  induction order generalizing s with
  | nil =>
      obtain rfl := (Prod.mk.inj h).2
      exact ⟨⟨[], (List.append_nil _).symm, rfl⟩, fun _ _ => rfl, fun n hn => .inl hn,
        fun _ h => h, fun _ e he => by cases he⟩
  | cons e order ih =>
      rw [List.map_cons, List.nodup_cons] at honce
      have hne : ∀ e' ∈ order, e'.1 ≠ e.1 := by
        rintro e' he' heq
        exact honce.1 (heq ▸ List.mem_map_of_mem he')
      have hrest : ∀ e' ∈ order, (s.create e (fds s.creates.length)).mapFd e'.1 = -1 := by
        intro e' he'
        show Function.update s.mapFd e.1 _ e'.1 = -1
        rw [Function.update_of_ne (hne e' he')]
        exact hnone e' (List.mem_cons_of_mem e he')
      rw [fixMapsLoop] at h
      split at h
      · next hneg =>
          -- what `create` has answered is kept, and not a descriptor
          obtain ⟨rfl, rfl⟩ := Prod.mk.inj h
          refine ⟨⟨[_], rfl, ?_⟩, fun v hv => ?_, fun n hn => .inl hn, fun _ h => h,
            fun hret => by cases hret⟩
          · rw [List.map_cons, List.map_singleton, delivered_cons, delivered_cons]
            have hself : (s.create e (fds s.creates.length)).mapFd e.1 = fds s.creates.length :=
              Function.update_self ..
            rw [hself, if_neg (Int.not_le.mpr hneg), if_neg (Int.not_le.mpr hneg)]
            apply delivered_eq_nil
            intro fd hfd
            obtain ⟨e', he', rfl⟩ := List.mem_map.mp hfd
            exact hrest e' he'
          · rw [List.map_cons, List.mem_cons, not_or] at hv
            exact Function.update_of_ne hv.1 ..
      · next hpos =>
          have hloop := ih (s := (s.create e (fds s.creates.length)).fix scn e
            (fds s.creates.length)) honce.2 hrest h
          obtain ⟨new, hcreates, hheld⟩ := hloop.held
          have hself : s'.mapFd e.1 = fds s.creates.length := by
            rw [hloop.frame _ honce.1]
            exact Function.update_self ..
          have hnamed : ∀ name, valueAt name
              ((s.create e (fds s.creates.length)).fix scn e (fds s.creates.length)).name2map =
                (valueAt name s.name2map).or (if e.2.name = name then some e.1 else none) :=
            valueAt_tryEmplace e.2.name e.1 s.name2map
          refine ⟨⟨(e.2.createAttr, fds s.creates.length) :: new, ?_, ?_⟩, fun v hv => ?_,
            fun n hn => ?_, fun name hname => ?_, fun hret e' he' => ?_⟩
          · rw [hcreates]
            exact List.append_assoc s.creates [_] new
          · rw [List.map_cons, List.map_cons, delivered_cons, delivered_cons, hself, hheld]
          · rw [List.map_cons, List.mem_cons, not_or] at hv
            rw [hloop.frame v hv.2]
            exact Function.update_of_ne hv.1 ..
          · rcases hloop.named n hn with hold | ⟨m, hm, hname, hfd⟩
            · rcases mem_tryEmplace hold with hold | rfl
              · exact .inl hold
              · refine .inr ⟨e.2, List.mem_cons_self, rfl, ?_⟩
                show 0 ≤ s'.mapFd e.1
                rw [hself]
                exact Int.not_lt.mp hpos
            · exact .inr ⟨m, List.mem_cons_of_mem e hm, hname, hfd⟩
          · apply hloop.stays
            rw [hnamed, Option.isSome_or, hname]
            rfl
          · rcases List.mem_cons.mp he' with rfl | he'
            · apply hloop.stays
              rw [hnamed, if_pos rfl, Option.isSome_or]
              exact Bool.or_true _
            · exact hloop.found hret e' he'

theorem fixMaps_held {scn : Option MapsSection} {fds : Nat → Int} {mapped : Bool}
    {order : List (UInt64 × IuMap)} {s s' : FixState} {ret : Int}
    (honce : (order.map Prod.fst).Nodup) (hscn : scn = none → order = [])
    (hnone : ∀ e ∈ order, s.mapFd e.1 = -1)
    (h : Loader.fixMaps fds scn mapped order s = (ret, s')) : MapsHeld order s s' ret := by
  unfold Loader.fixMaps at h
  split at h
  · obtain ⟨rfl, rfl⟩ := Prod.mk.inj h
    rw [hscn rfl]
    exact ⟨⟨[], (List.append_nil _).symm, rfl⟩, fun _ _ => rfl, fun n hn => .inl hn,
      fun _ h => h, fun _ e he => by cases he⟩
  · split at h
    · obtain ⟨rfl, rfl⟩ := Prod.mk.inj h
      refine ⟨⟨[], (List.append_nil _).symm, ?_⟩, fun _ _ => rfl, fun n hn => .inl hn,
        fun _ h => h, fun hret => by cases hret⟩
      apply delivered_eq_nil
      intro fd hfd
      obtain ⟨e, he, rfl⟩ := List.mem_map.mp hfd
      exact hnone e he
    · exact fixMapsLoop_held honce hnone h

/-- What `fix_maps` does on an object of the parser, in the order of its table. -/
theorem Image.fixMaps_mapsHeld (a : Answers) {i : Image} (hun : Unloaded i.elf) :
    MapsHeld (a.mapOrder i.elf.maps.mapDefs) (.start a.file i.elf.maps.maps)
      (i.fixMaps a).2.fix (i.fixMaps a).1 := by
  have hperm := a.mapOrder_perm i.elf.maps.mapDefs
  apply fixMaps_held _ _ (fun _ _ => rfl) rfl
  · exact (hperm.map Prod.fst).nodup_iff.mpr hun.maps
  · intro hscn
    rw [hun.section_of hscn] at hperm ⊢
    exact hperm.eq_nil

/-- **An object holds the descriptors that `fix_maps` has obtained for it.** -/
theorem Image.fixMaps_mapFds (a : Answers) {i : Image} (hun : Unloaded i.elf) :
    (delivered (i.fixMaps a).2.mapFds).Perm
      (delivered ((i.fixMaps a).2.fix.creates.map Prod.snd)) := by
  obtain ⟨new, hcreates, hheld⟩ := (Image.fixMaps_mapsHeld a hun).held
  have hnew : (i.fixMaps a).2.fix.creates = new := hcreates
  rw [hnew, ← hheld]
  exact (((a.mapOrder_perm i.elf.maps.mapDefs).map _).filter _).symm

/-! ## The descriptors of `load` -/

section Load
variable {bpf : Nat → LoadAttr → Int} {progFd : Int} {its : List (String × IuProg)}
  {t t' : ProgTables} {done : Bool}

/-- The programs that a loop has loaded have the descriptors it has obtained. -/
structure ProgsHeld (its : List (String × IuProg)) (t t' : ProgTables) (done : Bool)
    (new : List LoadCall) : Prop where
  calls : t'.calls = t.calls ++ new
  held : ∀ fd, 0 ≤ fd → ((∃ e ∈ t'.progs, e.2.fd = fd) ↔
    (∃ e ∈ t.progs, e.2.fd = fd) ∨ fd ∈ new.map LoadCall.fd)
  frame : ∀ e ∈ t'.progs, e.1 ∉ its.map Prod.fst → e ∈ t.progs
  loaded : done = true → ∀ e ∈ t'.progs, e.1 ∈ its.map Prod.fst → 0 ≤ e.2.fd

/-- A descriptor is put where there is none. -/
theorem exists_setFd {k : String} {fd fd' : Int} {progs : List (String × IuProg)}
    (hmem : k ∈ progs.map Prod.fst) (hnone : ∀ e ∈ progs, e.1 = k → e.2.fd = -1)
    (hpos : 0 ≤ fd') :
    (∃ e ∈ setFd k fd progs, e.2.fd = fd') ↔ (∃ e ∈ progs, e.2.fd = fd') ∨ fd' = fd := by
  constructor
  · rintro ⟨e', he', hfd⟩
    obtain ⟨e, he, rfl⟩ := List.mem_map.mp he'
    split at hfd
    · exact .inr hfd.symm
    · exact .inl ⟨e, he, hfd⟩
  · rintro (⟨e, he, hfd⟩ | rfl)
    · refine ⟨e, List.mem_map.mpr ⟨e, he, if_neg fun hk => ?_⟩, hfd⟩
      rw [hnone e he hk] at hfd
      omega
    · obtain ⟨e, he, hk⟩ := List.mem_map.mp hmem
      exact ⟨_, List.mem_map.mpr ⟨e, he, if_pos hk⟩, rfl⟩

theorem loadLoop_held (honce : (its.map Prod.fst).Nodup)
    (hmem : ∀ it ∈ its, it.1 ∈ t.progs.map Prod.fst)
    (hnone : ∀ e ∈ t.progs, e.1 ∈ its.map Prod.fst → e.2.fd = -1)
    (h : loadLoop bpf progFd its t = (done, t')) : ∃ new, ProgsHeld its t t' done new := by
  induction its generalizing t with
  | nil =>
      obtain rfl := (Prod.mk.inj h).2
      exact ⟨[], (List.append_nil _).symm, fun fd _ => by simp, fun e he _ => he,
        fun _ e _ hk => by cases hk⟩
  | cons it its ih =>
      rw [List.map_cons, List.nodup_cons] at honce
      rw [loadLoop] at h
      simp only at h
      generalize bpf t.calls.length (loadAttr progFd it.2) = fd₀ at h
      have hput : ∀ fd, 0 ≤ fd → ((∃ e ∈ setFd it.1 fd₀ t.progs, e.2.fd = fd) ↔
          (∃ e ∈ t.progs, e.2.fd = fd) ∨ fd = fd₀) := fun fd hfd =>
        exists_setFd (hmem it List.mem_cons_self)
          (fun e he hk => hnone e he (List.mem_cons.mpr (.inl hk))) hfd
      -- an entry of another name stays
      have hother : ∀ e ∈ setFd it.1 fd₀ t.progs, e.1 ≠ it.1 → e ∈ t.progs := by
        intro e' he' hne
        obtain ⟨e, he, rfl⟩ := List.mem_map.mp he'
        split at hne
        · next heq => exact absurd heq hne
        · next heq => rwa [if_neg heq]
      split at h
      · obtain ⟨rfl, rfl⟩ := Prod.mk.inj h
        refine ⟨[_], rfl, fun fd hfd => ?_, fun e he hk => ?_, fun hdone => by cases hdone⟩
        · rw [List.map_singleton, List.mem_singleton]
          exact hput fd hfd
        · rw [List.map_cons, List.mem_cons, not_or] at hk
          exact hother e he hk.1
      · next hpos =>
        have hkeys : (setFd it.1 fd₀ t.progs).map Prod.fst = t.progs.map Prod.fst := by
          rw [setFd, List.map_map]
          apply List.map_congr_left
          intro e _
          show (if e.1 = it.1 then _ else e).1 = e.1
          split
          · rfl
          · rfl
        have hlater : ∀ e ∈ setFd it.1 fd₀ t.progs, e.1 ∈ its.map Prod.fst → e.2.fd = -1 := by
          intro e' he' hk
          obtain ⟨e, he, rfl⟩ := List.mem_map.mp he'
          split at hk
          · next heq => exact absurd (heq ▸ hk) honce.1
          · next hne =>
              rw [if_neg hne]
              exact hnone e he (List.mem_cons_of_mem _ hk)
        obtain ⟨new, hcalls, hheld, hframe, hloaded⟩ := ih honce.2
          (fun it' hit' => hkeys ▸ hmem it' (List.mem_cons_of_mem it hit')) hlater h
        refine ⟨_ :: new, hcalls.trans (List.append_assoc t.calls [_] new), fun fd hfd => ?_,
          fun e he hk => ?_, fun hdone e he hk => ?_⟩
        · rw [hheld fd hfd, List.map_cons, List.mem_cons, ← or_assoc]
          exact or_congr_left (hput fd hfd)
        · rw [List.map_cons, List.mem_cons, not_or] at hk
          exact hother e (hframe e he hk.2) hk.1
        · by_cases hin : e.1 ∈ its.map Prod.fst
          · exact hloaded hdone e he hin
          · obtain ⟨e₀, he₀, rfl⟩ := List.mem_map.mp (hframe e he hin)
            rw [List.map_cons, List.mem_cons, or_iff_left hin] at hk
            split at hk
            · next heq =>
                rw [if_pos heq]
                exact Int.not_lt.mp hpos
            · next hne => exact absurd hk hne

theorem loadProgs_held {iterate : List (String × IuProg) → List (String × IuProg)}
    {removed : Bool} (hperm : ∀ l, (iterate l).Perm l) (hun : ProgsUnloaded t.progs)
    (h : loadProgs bpf progFd iterate removed t = (done, t')) :
    ∃ new, ProgsHeld (iterate t.progs) t t' done new := by
  unfold loadProgs at h
  split at h
  · obtain ⟨rfl, rfl⟩ := Prod.mk.inj h
    exact ⟨[], (List.append_nil _).symm, fun fd _ => by simp, fun e he _ => he,
      fun hdone => by cases hdone⟩
  · apply loadLoop_held _ _ _ h
    · exact ((hperm t.progs).map Prod.fst).nodup_iff.mpr hun.once
    · intro it hit
      exact List.mem_map_of_mem ((hperm t.progs).mem_iff.mp hit)
    · intro e he _
      exact hun.fds e he

end Load

/-! ## The account of a load -/

/-- What `load` asks for, what it closes of it and what it leaves in the tables. -/
structure LoadAccount (k : LoadAnswers) (t : ProgTables) (l : LoadEnd) : Prop where
  kinds : ∀ e ∈ loadFiles k t, e.2 = .rustOut ∨ e.2 = .base ∨ e.2 = .program
  base : ∀ fd, 0 ≤ fd → ((fd, .base) ∈ loadFiles k t ↔ fd = l.progFd)
  closed : ∀ fd ∈ l.closed, 0 ≤ fd ∧ ∃ f, (fd, f) ∈ loadFiles k t ∧ f ≠ .rustOut
  kept : 0 ≤ l.ret → l.closed = [] ∧ l.progFd = l.ret ∧ ∀ e ∈ l.tables.progs, 0 ≤ e.2.fd
  failed : l.ret < 0 → ∀ fd, 0 ≤ fd → (fd, .program) ∈ loadFiles k t → fd ∈ l.closed
  progFds : ∀ e ∈ l.tables.progs, 0 ≤ e.2.fd → (e.2.fd, .program) ∈ loadFiles k t

theorem loadFds_account {k : LoadAnswers} {t : ProgTables} (hperm : ∀ l, (k.iterate l).Perm l)
    (hun : ProgsUnloaded t.progs) : LoadAccount k t (loadFds k t) := by
  rcases Int.lt_or_le k.base 0 with hneg | hbase
  · have hfiles : loadFiles k t = [(k.openFd, .rustOut)] := if_pos hneg
    have hload : loadFds k t = ⟨-1, t, -1, delivered [k.openFd], []⟩ := if_pos hneg
    rw [hload]
    refine ⟨?_, fun fd hfd => ?_, (fun fd hfd => by cases hfd), (fun hret => by cases hret),
      fun _ fd _ hmem => ?_, fun e he hfd => ?_⟩
    · rw [hfiles]
      simp
    · rw [hfiles, List.mem_singleton]
      refine iff_of_false (fun h => by cases h) fun h => ?_
      have hfd' : fd = -1 := h
      omega
    · rw [hfiles, List.mem_singleton] at hmem
      cases hmem
    · rw [hun.fds e he] at hfd
      cases hfd
  · obtain ⟨⟨done, t'⟩, hprogs⟩ : ∃ d, loadProgs k.bpf k.base k.iterate k.removed t = d :=
      ⟨_, rfl⟩
    obtain ⟨new, hheld⟩ := loadProgs_held hperm hun hprogs
    have hnew : t'.calls.drop t.calls.length = new := by
      rw [hheld.calls, List.drop_left]
    have hfiles : loadFiles k t = (k.openFd, .rustOut) :: (k.base, .base) ::
        new.map fun c => (c.fd, .program) := by
      unfold loadFiles
      rw [if_neg (Int.not_lt.mpr hbase), hprogs]
      simp only [hnew]
    have hprog : ∀ fd, (fd, File.program) ∈ loadFiles k t ↔ fd ∈ new.map LoadCall.fd := by
      intro fd
      rw [hfiles]
      simp [List.mem_map]
    -- the tables have the descriptors of the calls
    have htables : ∀ fd, 0 ≤ fd → ((∃ e ∈ t'.progs, e.2.fd = fd) ↔
        (fd, File.program) ∈ loadFiles k t) := by
      intro fd hfd
      rw [hheld.held fd hfd, hprog, or_iff_right]
      rintro ⟨e, he, rfl⟩
      rw [hun.fds e he] at hfd
      cases hfd
    have hload : loadFds k t = if done then ⟨k.base, t', k.base, (loadFds k t).obtained, []⟩
        else ⟨-1, t', k.base, (loadFds k t).obtained,
          delivered ((k.iterate t'.progs).map fun it => it.2.fd) ++ [k.base]⟩ := by
      unfold loadFds
      rw [if_neg (Int.not_lt.mpr hbase), hprogs]
      cases done with
      | true => rfl
      | false => rfl
    have hkinds : ∀ e ∈ loadFiles k t, e.2 = .rustOut ∨ e.2 = .base ∨ e.2 = .program := by
      intro e he
      rw [hfiles, List.mem_cons, List.mem_cons, List.mem_map] at he
      rcases he with rfl | rfl | ⟨c, -, rfl⟩
      · exact .inl rfl
      · exact .inr (.inl rfl)
      · exact .inr (.inr rfl)
    have hbasefile : ∀ fd, (fd, File.base) ∈ loadFiles k t ↔ fd = k.base := by
      intro fd
      rw [hfiles]
      simp
    rw [hload]
    cases done with
    | true =>
        refine ⟨hkinds, fun fd _ => hbasefile fd, (fun fd hfd => by cases hfd),
          fun _ => ⟨rfl, rfl, fun e he => ?_⟩, fun hneg => ?_, fun e he hfd => ?_⟩
        · by_cases hk : e.1 ∈ (k.iterate t.progs).map Prod.fst
          · exact hheld.loaded rfl e he hk
          · have hold := (hperm t.progs).mem_iff.mpr (hheld.frame e he hk)
            exact absurd (List.mem_map_of_mem hold) hk
        · exact absurd hbase (Int.not_le.mpr hneg)
        · exact (htables _ hfd).mp ⟨e, he, rfl⟩
    | false =>
        have hclosed : ∀ fd, fd ∈ delivered ((k.iterate t'.progs).map fun it => it.2.fd) ↔
            0 ≤ fd ∧ (fd, File.program) ∈ loadFiles k t := by
          intro fd
          rw [mem_delivered, and_comm]
          refine and_congr_right fun hfd => ?_
          rw [← htables fd hfd, ((hperm t'.progs).map _).mem_iff, List.mem_map]
        refine ⟨hkinds, fun fd _ => hbasefile fd, fun fd hfd => ?_, (fun hret => by cases hret),
          fun _ fd hfd hmem => ?_, fun e he hfd => ?_⟩
        · rcases List.mem_append.mp hfd with hfd | hfd
          · obtain ⟨hpos, hmem⟩ := (hclosed fd).mp hfd
            exact ⟨hpos, _, hmem, by decide⟩
          · rw [List.mem_singleton.mp hfd]
            exact ⟨hbase, _, (hbasefile _).mpr rfl, by decide⟩
        · exact List.mem_append_left _ ((hclosed fd).mpr ⟨hfd, hmem⟩)
        · exact (htables _ hfd).mp ⟨e, he, rfl⟩

/-- Every map has been named and every program loaded. -/
structure Obj.Complete (o : Obj) : Prop where
  maps : ∀ e ∈ o.image.elf.maps.mapDefs, (valueAt e.2.name o.image.fix.name2map).isSome
  progs : ∀ e ∈ o.image.elf.progs.progs, 0 ≤ e.2.fd

/-- **How a load accounts for its descriptors.** -/
structure Accounted (l : LoadedObj) : Prop where
  notOwn : ∀ fd, (fd, File.own) ∉ l.asked
  held : ∀ fd k, (fd, k) ∈ l.obj.held ↔ 0 ≤ fd ∧ k.Managed ∧ (fd, k) ∈ l.asked
  closed : ∀ fd ∈ l.closed, 0 ≤ fd ∧ ∃ k, (fd, k) ∈ l.asked ∧ (k = .base ∨ k = .program)
  kept : 0 ≤ l.ret → l.closed = []
  failed : l.ret < 0 → ∀ fd, 0 ≤ fd → (fd, .program) ∈ l.asked → fd ∈ l.closed
  progFds : ∀ e ∈ l.obj.image.elf.progs.progs, 0 ≤ e.2.fd → (e.2.fd, .program) ∈ l.asked
  named : ∀ n ∈ l.obj.image.fix.name2map, ∃ m,
    (n.2, m) ∈ l.obj.image.elf.maps.mapDefs ∧ m.name = n.1 ∧ 0 ≤ l.obj.image.fix.mapFd n.2
  /-- Where the parser has swallowed an error the key is 1, and the object holds nothing. -/
  key : 0 ≤ l.ret → (l.obj.progFd = l.ret ∧ l.obj.Complete) ∨ (l.ret = 1 ∧ l.obj.held = [])

theorem mem_held_iff {o : Obj} {fd : Int} {k : File} : (fd, k) ∈ o.held ↔
    0 ≤ fd ∧ ((k = .base ∧ fd = o.progFd) ∨ (k = .map ∧ fd ∈ o.image.mapFds)) := by
  unfold Obj.held
  simp only [List.mem_append, List.mem_map, mem_delivered, Prod.mk.injEq, List.mem_singleton]
  constructor
  · rintro (⟨fd', ⟨rfl, hfd⟩, rfl, rfl⟩ | ⟨fd', ⟨hmem, hfd⟩, rfl, rfl⟩)
    · exact ⟨hfd, .inl ⟨rfl, rfl⟩⟩
    · exact ⟨hfd, .inr ⟨rfl, hmem⟩⟩
  · rintro ⟨hfd, ⟨rfl, rfl⟩ | ⟨rfl, hmem⟩⟩
    · exact .inl ⟨_, ⟨rfl, hfd⟩, rfl, rfl⟩
    · exact .inr ⟨fd, ⟨hmem, hfd⟩, rfl, rfl⟩

/-- The parser swallows an error or reports it. -/
theorem parseElf_ret {σ : Type*} (st : Stages σ) (elf : Bool) (r : LoadRun σ) :
    (parseElf st elf r).1 ≤ 0 ∨ (parseElf st elf r).1 = 1 := by
  have hlast : ∀ (ret : Int) (r : LoadRun σ),
      (elvis (isNegative ret) (st.call .parseRelaDyn) r).1 ≤ 0 ∨
        (elvis (isNegative ret) (st.call .parseRelaDyn) r).1 = 1 := by
    intro ret r
    rw [elvis_isNegative]
    split
    · exact .inr rfl
    · exact .inl (st.parseRelaDyn_le _)
  unfold parseElf
  split
  · exact .inl (show (-1 : Int) ≤ 0 by omega)
  · exact hlast _ _

section
variable {i : Image} {ret elfFd : Int} {ms : List Int}

/-- An object that has not come to `load` has asked for maps, and holds them. -/
theorem accounted_of_not_loaded (hms : ∀ fd, 0 ≤ fd → (fd ∈ i.mapFds ↔ fd ∈ ms))
    (hun : ProgsUnloaded i.elf.progs.progs)
    (hnamed : ∀ n ∈ i.fix.name2map, ∃ m,
      (n.2, m) ∈ i.elf.maps.mapDefs ∧ m.name = n.1 ∧ 0 ≤ i.fix.mapFd n.2)
    (hret : 0 ≤ ret → ret = 1 ∧ ms = []) :
    Accounted ⟨ret, ⟨i, -1⟩, (elfFd, .elf) :: ms.map (·, .map), []⟩ := by
  have hasked : ∀ fd k, (fd, k) ∈ (elfFd, File.elf) :: ms.map (·, .map) ↔
      (k = .elf ∧ fd = elfFd) ∨ (k = .map ∧ fd ∈ ms) := by
    intro fd k
    simp [and_comm, eq_comm]
  have hheld : ∀ fd k, (fd, k) ∈ Obj.held ⟨i, -1⟩ ↔
      0 ≤ fd ∧ k.Managed ∧ (fd, k) ∈ (elfFd, File.elf) :: ms.map (·, .map) := by
    intro fd k
    rw [mem_held_iff, hasked]
    refine and_congr_right fun hfd => ?_
    rw [or_iff_right fun h => by have hneg : fd = -1 := h.2; omega, hms fd hfd]
    constructor
    · rintro ⟨rfl, hmem⟩
      exact ⟨.inl rfl, .inr ⟨rfl, hmem⟩⟩
    · rintro ⟨hk, ⟨rfl, -⟩ | h⟩
      · exact absurd hk (by decide)
      · exact h
  refine ⟨fun fd hmem => ?_, hheld, (fun fd hfd => by cases hfd), fun _ => rfl,
    fun _ fd _ hmem => ?_, fun e he hpos => ?_, hnamed, fun hpos => .inr ?_⟩
  · rcases (hasked fd .own).mp hmem with ⟨hk, -⟩ | ⟨hk, -⟩
    · cases hk
    · cases hk
  · rcases (hasked fd .program).mp hmem with ⟨hk, -⟩ | ⟨hk, -⟩
    · cases hk
    · cases hk
  · rw [hun.fds e he] at hpos
    cases hpos
  · obtain ⟨hone, rfl⟩ := hret hpos
    refine ⟨hone, ?_⟩
    rw [List.eq_nil_iff_forall_not_mem]
    rintro ⟨fd, k⟩ hmem
    obtain ⟨-, hk, hmem⟩ := (hheld fd k).mp hmem
    rcases (hasked fd k).mp hmem with ⟨rfl, -⟩ | ⟨-, hnil⟩
    · exact absurd hk (by decide)
    · cases hnil

/-- An object that has come to `load` has its maps, and what `load` accounts for. -/
theorem accounted_of_loaded {k : LoadAnswers} {l : LoadEnd}
    (hms : ∀ fd, 0 ≤ fd → (fd ∈ i.mapFds ↔ fd ∈ ms))
    (hload : LoadAccount k i.elf.progs l)
    (hnamed : ∀ n ∈ i.fix.name2map, ∃ m,
      (n.2, m) ∈ i.elf.maps.mapDefs ∧ m.name = n.1 ∧ 0 ≤ i.fix.mapFd n.2)
    (hfound : ∀ e ∈ i.elf.maps.mapDefs, (valueAt e.2.name i.fix.name2map).isSome) :
    Accounted ⟨l.ret, ⟨i.setProgs l.tables, l.progFd⟩,
      (elfFd, .elf) :: ms.map (·, .map) ++ loadFiles k i.elf.progs, l.closed⟩ := by
  have hasked : ∀ fd f, (fd, f) ∈ (elfFd, File.elf) :: ms.map (·, .map) ++ loadFiles k i.elf.progs ↔
      (f = .elf ∧ fd = elfFd) ∨ (f = .map ∧ fd ∈ ms) ∨ (fd, f) ∈ loadFiles k i.elf.progs := by
    intro fd f
    rw [List.mem_append, ← or_assoc]
    refine or_congr_left ?_
    simp [and_comm, eq_comm]
  have hkind : ∀ {fd f}, (fd, f) ∈ loadFiles k i.elf.progs →
      f = .rustOut ∨ f = .base ∨ f = .program := fun hmem => hload.kinds _ hmem
  refine ⟨fun fd hmem => ?_, fun fd f => ?_, fun fd hfd => ?_, fun hret => (hload.kept hret).1,
    fun hret fd hfd hmem => ?_, fun e he hpos => ?_, hnamed,
    fun hret => .inl ⟨(hload.kept hret).2.1, hfound, (hload.kept hret).2.2⟩⟩
  · rcases (hasked fd .own).mp hmem with ⟨hk, -⟩ | ⟨hk, -⟩ | hmem
    · cases hk
    · cases hk
    · rcases hkind hmem with hk | hk | hk
      all_goals cases hk
  · rw [mem_held_iff, hasked]
    refine and_congr_right fun hfd => ?_
    constructor
    · rintro (⟨rfl, hfd'⟩ | ⟨rfl, hmem⟩)
      · exact ⟨.inr rfl, .inr (.inr ((hload.base fd hfd).mpr hfd'))⟩
      · exact ⟨.inl rfl, .inr (.inl ⟨rfl, (hms fd hfd).mp hmem⟩)⟩
    · rintro ⟨hk, ⟨rfl, -⟩ | ⟨rfl, hmem⟩ | hmem⟩
      · exact absurd hk (by decide)
      · exact .inr ⟨rfl, (hms fd hfd).mpr hmem⟩
      · rcases hkind hmem with rfl | rfl | rfl
        · exact absurd hk (by decide)
        · exact .inl ⟨rfl, (hload.base fd hfd).mp hmem⟩
        · exact absurd hk (by decide)
  · obtain ⟨hpos, f, hmem, hne⟩ := hload.closed fd hfd
    exact ⟨hpos, f, (hasked fd f).mpr (.inr (.inr hmem)), (hkind hmem).resolve_left hne⟩
  · rcases (hasked fd .program).mp hmem with ⟨hk, -⟩ | ⟨hk, -⟩ | hmem
    · cases hk
    · cases hk
    · exact hload.failed hret fd hfd hmem
  · exact (hasked _ _).mpr (.inr (.inr (hload.progFds e he hpos)))

end

/-- The object file is opened, and no other. -/
theorem loadObject_elf {a : Answers} {f : ElfFile} {prior : ScnMember → ScnPtr}
    {l : LoadedObj} (h : loadObject a f prior = some l) (fd : Int) :
    (fd, File.elf) ∈ l.asked ↔ fd = a.elfFd := by
  have hfiles : ∀ k t, (fd, File.elf) ∉ loadFiles k t := by
    intro k t hmem
    unfold loadFiles at hmem
    split at hmem
    · simp at hmem
    · simp only [List.mem_cons, List.mem_map, Prod.mk.injEq, reduceCtorEq, and_false, false_or,
        exists_false] at hmem
  unfold loadObject at h
  generalize parseElf (loaderStages a f) f.elf ⟨⟨some (.init prior a.file), -1, []⟩, []⟩ = p at h
  obtain ⟨ret, r⟩ := p
  simp only at h
  split at h
  · cases h
  split at h
  · obtain rfl := Option.some.inj h
    simp
  split at h
  · obtain rfl := Option.some.inj h
    simp
  split at h
  · cases h
  · obtain rfl := Option.some.inj h
    rw [List.mem_append, or_iff_left (hfiles _ _)]
    simp

/-- **Every load accounts for its descriptors.** -/
theorem loadObject_accounted {a : Answers} {f : ElfFile} {prior : ScnMember → ScnPtr}
    {l : LoadedObj} (h : loadObject a f prior = some l) : Accounted l := by
  unfold loadObject at h
  have hret := parseElf_ret (loaderStages a f) f.elf
    ⟨⟨some (.init prior a.file), -1, []⟩, []⟩
  have hparsed := @parseElf_unloaded a f prior
  generalize parseElf (loaderStages a f) f.elf ⟨⟨some (.init prior a.file), -1, []⟩, []⟩ = p
    at h hret hparsed
  obtain ⟨ret, r⟩ := p
  simp only at h hret hparsed
  split at h
  · cases h
  next i himage =>
  obtain ⟨hun, hfix⟩ := hparsed himage
  split at h
  · next hne =>
      -- the parser has not come to its end
      obtain rfl := Option.some.inj h
      have hnone : ∀ fd, 0 ≤ fd → (fd ∈ i.mapFds ↔ fd ∈ ([] : List Int)) := by
        intro fd hpos
        refine iff_of_false (fun hmem => ?_) List.not_mem_nil
        obtain ⟨e, -, rfl⟩ := List.mem_map.mp hmem
        rw [hfix] at hpos
        cases hpos
      apply accounted_of_not_loaded hnone hun.progs
      · intro n hn
        rw [hfix] at hn
        cases hn
      · intro hpos
        exact ⟨by omega, rfl⟩
  · have hmaps := Image.fixMaps_mapsHeld a hun
    have hmapFds : ∀ fd, 0 ≤ fd →
        (fd ∈ (i.fixMaps a).2.mapFds ↔ fd ∈ (i.fixMaps a).2.fix.creates.map Prod.snd) := by
      intro fd hfd
      have hmem := (Image.fixMaps_mapFds a hun).mem_iff (a := fd)
      rwa [mem_delivered, mem_delivered, and_iff_left hfd, and_iff_left hfd] at hmem
    have hnamed : ∀ n ∈ (i.fixMaps a).2.fix.name2map, ∃ m,
        (n.2, m) ∈ i.elf.maps.mapDefs ∧ m.name = n.1 ∧ 0 ≤ (i.fixMaps a).2.fix.mapFd n.2 := by
      intro n hn
      rcases hmaps.named n hn with hold | ⟨m, hm, hname, hfd⟩
      · cases hold
      · exact ⟨m, (a.mapOrder_perm _).mem_iff.mp hm, hname, hfd⟩
    have hcreates : (i.fixMaps a).2.fix.creates.map (fun c => (c.2, File.map)) =
        ((i.fixMaps a).2.fix.creates.map Prod.snd).map (·, .map) := by
      rw [List.map_map]
      rfl
    have hle : (i.fixMaps a).1 ≤ 0 := fixMaps_le _ _ _ _ _
    rw [hcreates] at h
    split at h
    · next hne =>
        obtain rfl := Option.some.inj h
        apply accounted_of_not_loaded hmapFds hun.progs hnamed
        intro hpos
        exact absurd (Int.le_antisymm hle hpos) hne
    · next hzero =>
        split at h
        · cases h
        obtain rfl := Option.some.inj h
        apply accounted_of_loaded hmapFds _ hnamed
        · intro e he
          exact hmaps.found (not_not.mp hzero) e ((a.mapOrder_perm _).mem_iff.mpr he)
        · exact loadFds_account a.iterate_perm hun.progs

end KernelDev.Loader
