/-
# KernelDev.Loader.Construct — what an `iu_obj` is constructed over

The constructor sets three of the pointers to sections and leaves the fourth, `rela_dyn_scn`, as the
memory was. Where `parse_scns` comes by no `.rela.dyn` section, `parse_rela_dyn` goes by a pointer
nobody has set.
-/
import KernelDev.Loader.Sections

namespace KernelDev.Loader

open KernelDev.Lib

variable {env : Env} {f : ElfFile} {o o' : ElfObj} {ret : Int}

/-! ## The chain -/

/-- A stage in a process that goes on while it has not crashed. -/
def whileLive (stage : ElfObj → Option (Int × ElfObj)) : Option ElfObj → Int × Option ElfObj
  | none => (0, none)
  | some o =>
      match stage o with
      | none => (0, none)
      | some (ret, o) => (ret, some o)

theorem whileLive_le {stage : ElfObj → Option (Int × ElfObj)}
    (h : ∀ {o ret o'}, stage o = some (ret, o') → ret ≤ 0) (s : Option ElfObj) :
    (whileLive stage s).1 ≤ 0 := by
  cases s with
  | none => exact Int.le_refl 0
  | some o =>
      rw [whileLive]
      cases hstage : stage o with
      | none => exact Int.le_refl 0
      | some r => exact h hstage

/-- The stages of `iu_obj_load` with these in them. -/
def fileStages (st : Stages (Option ElfObj)) (env : Env) (f : ElfFile) :
    Stages (Option ElfObj) :=
  { st with
    parseScns := whileLive fun o => some (o.parseScns f)
    parseMaps := whileLive (ElfObj.parseMaps env)
    parseProgs := whileLive (ElfObj.parseProgs env f)
    parseRelaDyn := whileLive (ElfObj.parseRelaDyn env)
    parseScns_le := whileLive_le ElfObj.parseScns_le
    parseMaps_le := whileLive_le ElfObj.parseMaps_le
    parseProgs_le := whileLive_le ElfObj.parseProgs_le
    parseRelaDyn_le := whileLive_le ElfObj.parseRelaDyn_le }

/-- What there is after `parse_elf`. -/
structure Parsed where
  ret : Int
  mapDefs : List (UInt64 × IuMap)
  progs : List (String × IuProg)
  relas : RelaTables
  deriving DecidableEq, Repr

/-- The constructor and `parse_elf`, in memory that held `prior`; `none` is a crash. -/
def parsed (st : Stages (Option ElfObj)) (env : Env) (f : ElfFile)
    (prior : ScnMember → ScnPtr) : Option Parsed :=
  let (ret, r) := parseElf (fileStages st env f) f.elf ⟨⟨some (.init prior), -1, []⟩, []⟩
  r.obj.image.map fun o => ⟨ret, o.maps.mapDefs, o.progs.progs, o.relas⟩

/-- `parse_elf` before its last stage. A failed `parse_scns` lets `parse_progs` go on, and a failed
`parse_maps` only skips it. -/
def beforeRelaDyn {σ : Type*} (st : Stages σ) (s : σ) : Int × σ :=
  let (ret, s) := st.parseScns s
  if ret < 0 then st.parseProgs s
  else
    let (ret, s) := st.parseMaps s
    if ret < 0 then (1, s) else st.parseProgs s

/-- **What the last stage works on.** -/
theorem parseElf_image {σ : Type*} (st : Stages σ) (s : σ) (fd : Int) (l : List Int) :
    let r := parseElf st true ⟨⟨s, fd, l⟩, []⟩
    let b := beforeRelaDyn st s
    (r.1, r.2.obj.image) = if b.1 < 0 then (1, b.2) else st.parseRelaDyn b.2 := by
  have hone : ¬ (1 : Int) < 0 := by omega
  simp only [parseElf, beforeRelaDyn, elvis_isNegative, Bool.not_true, Bool.false_eq_true,
    if_false, Stages.call, Stages.run, Stages.onImage]
  by_cases hscns : (st.parseScns s).1 < 0
  · simp only [hscns, if_true, hone, if_false]
    split
    · rfl
    · rfl
  · by_cases hmaps : (st.parseMaps (st.parseScns s).2).1 < 0
    · simp only [hscns, hmaps, if_true, hone, if_false]
    · simp only [hscns, hmaps, if_false]
      split
      · rfl
      · rfl

/-! ## The stages in between do not look at `rela_dyn_scn` -/

variable {q : ScnPtr} {m : ScnMember} {prior : ScnMember → ScnPtr}

/-- The object with another pointer in `rela_dyn_scn`. -/
def ElfObj.setRela (q : ScnPtr) (o : ElfObj) : ElfObj :=
  { o with scns := Function.update o.scns .relaDynScn q }

theorem ElfObj.setRela_scns (q : ScnPtr) (o : ElfObj) :
    (o.setRela q).scns = Function.update o.scns .relaDynScn q := rfl

theorem ElfObj.setRela_relaDynScn (q : ScnPtr) (o : ElfObj) :
    (o.setRela q).scns .relaDynScn = q := by
  rw [setRela_scns, Function.update_self]

theorem ElfObj.setRela_of_ne (hm : m ≠ .relaDynScn) (q : ScnPtr) (o : ElfObj) :
    (o.setRela q).scns m = o.scns m := by
  rw [setRela_scns, Function.update_of_ne hm]

/-- The object after `parse_scns`, but for `rela_dyn_scn`. -/
def ElfFile.scannedObj (f : ElfFile) : ElfObj := ⟨f.lastScn, .empty, .empty, .empty⟩

/-- Every other member is set by the constructor. -/
theorem writeAll_stores_of_ne (hm : m ≠ .relaDynScn) (prior : ScnMember → ScnPtr) :
    writeAll f.stores prior m = f.lastScn m := by
  have hkeys : m ∈ f.stores.map Prod.fst := by
    rw [ElfFile.stores, List.map_append, List.mem_append]
    cases m with
    | relaDynScn => exact absurd rfl hm
    | _ => exact .inl (by decide)
  exact writeAll_of_mem hkeys _ _

/-- **After `parse_scns` only `rela_dyn_scn` may depend on what the memory held.** -/
theorem parseScns_init (f : ElfFile) (prior : ScnMember → ScnPtr) :
    (ElfObj.init prior).parseScns f = (if f.scansAll then 0 else -1,
      f.scannedObj.setRela (writeAll f.stores prior .relaDynScn)) := by
  have hscns : writeAll f.stores prior =
      Function.update f.lastScn .relaDynScn (writeAll f.stores prior .relaDynScn) := by
    funext m
    by_cases hm : m = .relaDynScn
    · rw [hm, Function.update_self]
    · rw [Function.update_of_ne hm, writeAll_stores_of_ne hm]
  rw [ElfObj.parseScns_eq, ElfObj.setRela, ElfFile.scannedObj, ← hscns, ElfFile.stores,
    writeAll_append]
  rfl

theorem ElfObj.parseMaps_setRela (o : ElfObj) :
    (o.setRela q).parseMaps env = (o.parseMaps env).map fun r => (r.1, r.2.setRela q) := by
  unfold parseMaps
  rw [o.setRela_of_ne (by decide), o.setRela_of_ne (by decide)]
  cases o.scns .mapsScn with
  | null => rfl
  | dangling => rfl
  | scn maps => cases o.scns .symtabScn <;> rfl

theorem ElfObj.parseProgs_setRela (o : ElfObj) :
    (o.setRela q).parseProgs env f = (o.parseProgs env f).map fun r => (r.1, r.2.setRela q) := by
  unfold parseProgs
  rw [o.setRela_of_ne (by decide)]
  cases o.scns .symtabScn with
  | null => rfl
  | dangling => rfl
  | scn symtab =>
      cases f.shstrndx with
      | false => rfl
      | true =>
          simp only [Bool.not_true, Bool.false_eq_true, if_false]
          cases symtab.data with
          | none => rfl
          | some syms =>
              simp only
              cases parseProgsScns env f syms.syms .empty with
              | none => rfl
              | some r =>
                  by_cases hret : r.1 = 0
                  · simp only [hret, ne_eq, not_true_eq_false, if_false]
                    rfl
                  · simp only [hret, ne_eq, not_false_eq_true, if_true]
                    rfl

theorem whileLive_setRela {stage : ElfObj → Option (Int × ElfObj)}
    (h : ∀ o : ElfObj, stage (o.setRela q) = (stage o).map fun r => (r.1, r.2.setRela q))
    (s : Option ElfObj) :
    whileLive stage (s.map (ElfObj.setRela q)) =
      ((whileLive stage s).1, (whileLive stage s).2.map (ElfObj.setRela q)) := by
  cases s with
  | none => rfl
  | some o =>
      rw [Option.map_some, whileLive, whileLive, h]
      cases stage o with
      | none => rfl
      | some r => rfl

/-- The first three stages, up to `rela_dyn_scn`. -/
def ElfFile.before (f : ElfFile) (env : Env) : Int × Option ElfObj :=
  let parseProgs := whileLive (ElfObj.parseProgs env f)
  if f.scansAll then
    let (ret, s) := whileLive (ElfObj.parseMaps env) (some f.scannedObj)
    if ret < 0 then (1, s) else parseProgs s
  else parseProgs (some f.scannedObj)

/-- **What the memory held gets no further than `rela_dyn_scn`.** -/
theorem beforeRelaDyn_init (st : Stages (Option ElfObj)) (env : Env) (f : ElfFile)
    (prior : ScnMember → ScnPtr) :
    beforeRelaDyn (fileStages st env f) (some (.init prior)) = ((f.before env).1,
      (f.before env).2.map (ElfObj.setRela (writeAll f.stores prior .relaDynScn))) := by
  have hscns : (fileStages st env f).parseScns (some (.init prior)) =
      (if f.scansAll then 0 else -1,
        (some f.scannedObj).map (ElfObj.setRela (writeAll f.stores prior .relaDynScn))) := by
    have hinit := parseScns_init f prior
    simp only [fileStages, whileLive, hinit, Option.map_some]
  have hmaps : ∀ s q, (fileStages st env f).parseMaps (Option.map (ElfObj.setRela q) s) = _ :=
    fun s q => whileLive_setRela ElfObj.parseMaps_setRela s
  have hprogs : ∀ s q, (fileStages st env f).parseProgs (Option.map (ElfObj.setRela q) s) = _ :=
    fun s q => whileLive_setRela ElfObj.parseProgs_setRela s
  rw [beforeRelaDyn, hscns, ElfFile.before]
  by_cases hall : f.scansAll = true
  · simp only [hall, if_true, Int.lt_irrefl, if_false, hmaps]
    by_cases hret : (whileLive (ElfObj.parseMaps env) (some f.scannedObj)).1 < 0
    · simp only [hret, if_true]
    · simp only [hret, if_false, hprogs]
  · have hneg : (-1 : Int) < 0 := by omega
    simp only [hall, if_false, hneg, if_true, hprogs, Bool.false_eq_true]

/-- `parse_rela_dyn` after the first three stages, with the pointer `q` in `rela_dyn_scn`. -/
def ElfFile.finish (f : ElfFile) (env : Env) (q : ScnPtr) : Option Parsed :=
  match f.before env with
  | (_, none) => none
  | (ret, some o) =>
      if ret < 0 then some ⟨1, o.maps.mapDefs, o.progs.progs, o.relas⟩
      else
        (Loader.parseRelaDyn env.mem env.symName o.maps.mapDefs (o.scns .dynsymScn).target q).map
          fun r => ⟨r.1, o.maps.mapDefs, o.progs.progs, r.2⟩

/-- **The result, with what the memory held as the only thing that is not of the file.** -/
theorem parsed_eq (st : Stages (Option ElfObj)) (helf : f.elf = true)
    (prior : ScnMember → ScnPtr) :
    parsed st env f prior = f.finish env (writeAll f.stores prior .relaDynScn) := by
  have himage := parseElf_image (fileStages st env f) (some (.init prior)) (-1) []
  simp only [beforeRelaDyn_init] at himage
  rw [parsed, helf, ElfFile.finish]
  obtain ⟨hret, hobj⟩ := Prod.ext_iff.mp himage
  simp only at hret hobj ⊢
  rw [hret, hobj]
  cases hbefore : f.before env with
  | mk ret s =>
      cases s with
      | none =>
          split
          · rfl
          · rfl
      | some o =>
          by_cases hneg : ret < 0
          · simp only [hneg, if_true]
            rfl
          · simp only [hneg, if_false, fileStages, Option.map_some, whileLive,
              ElfObj.parseRelaDyn, o.setRela_relaDynScn,
              o.setRela_of_ne (show ScnMember.dynsymScn ≠ .relaDynScn by decide)]
            cases hparse : Loader.parseRelaDyn env.mem env.symName o.maps.mapDefs
                (o.scns .dynsymScn).target (writeAll f.stores prior .relaDynScn) with
            | none => simp [ElfObj.setRela, hparse]
            | some r => simp [ElfObj.setRela, hparse]

/-! ## When `parse_rela_dyn` is reached -/

/-- Each stage leaves alone what the others fill in. -/
theorem ElfObj.parseMaps_frame (h : o.parseMaps env = some (ret, o')) :
    o'.scns = o.scns ∧ o'.relas = o.relas := by
  unfold parseMaps at h
  split at h
  · cases h
    exact ⟨rfl, rfl⟩
  · cases h
  · cases h
  · cases h
    exact ⟨rfl, rfl⟩

theorem ElfObj.parseProgs_frame (h : o.parseProgs env f = some (ret, o')) :
    o'.scns = o.scns ∧ o'.relas = o.relas := by
  unfold parseProgs at h
  split at h
  · split at h
    · cases h
      exact ⟨rfl, rfl⟩
    · split at h
      · cases h
        exact ⟨rfl, rfl⟩
      · split at h
        · cases h
        · split at h
          · cases h
            exact ⟨rfl, rfl⟩
          · cases h
            exact ⟨rfl, rfl⟩
  · cases h

/-- `parse_elf` gets to `parse_rela_dyn`. -/
def ElfFile.ReachesRelaDyn (f : ElfFile) (env : Env) : Prop :=
  f.elf = true ∧ ((f.scansAll = true ∧ ¬ f.ParsesMaps env) ∨ f.ParsesProgs env)

theorem whileLive_eq {stage : ElfObj → Option (Int × ElfObj)} {s : Option ElfObj} :
    whileLive stage s = (ret, some o') ↔ ∃ o, s = some o ∧ stage o = some (ret, o') := by
  cases s with
  | none => exact iff_of_false (fun h => by cases h) fun ⟨_, h, _⟩ => by cases h
  | some o =>
      simp only [whileLive, Option.some_inj, exists_eq_left']
      cases stage o with
      | none => exact iff_of_false (fun h => by cases h) fun h => by cases h
      | some r =>
          constructor
          · rintro h
            cases h
            rfl
          · rintro h
            cases h
            rfl

/-- The first three stages leave the pointers and the relocations alone. -/
theorem ElfFile.before_frame (h : f.before env = (ret, some o)) :
    o.scns = f.lastScn ∧ o.relas = .empty := by
  have hprogs : ∀ o₁ : ElfObj, o₁.scns = f.lastScn ∧ o₁.relas = .empty →
      whileLive (ElfObj.parseProgs env f) (some o₁) = (ret, some o) →
      o.scns = f.lastScn ∧ o.relas = .empty := by
    intro o₁ hframe hrun
    obtain ⟨_, heq, hstage⟩ := whileLive_eq.mp hrun
    cases heq
    obtain ⟨hscns, hrelas⟩ := ElfObj.parseProgs_frame hstage
    exact ⟨hscns.trans hframe.1, hrelas.trans hframe.2⟩
  obtain ⟨ret₁, o₁, hmaps, -⟩ := ElfObj.parseMaps_neg_iff (o := f.scannedObj) env rfl
  obtain ⟨hscns, hrelas⟩ := ElfObj.parseMaps_frame hmaps
  unfold before at h
  split at h
  · simp only [whileLive, hmaps] at h
    split at h
    · cases h
      exact ⟨hscns, hrelas⟩
    · exact hprogs o₁ ⟨hscns, hrelas⟩ h
  · exact hprogs _ ⟨rfl, rfl⟩ h

/-- **The last stage is reached as the file and the memory decide.** -/
theorem ElfFile.before_nonneg_iff (f : ElfFile) (env : Env) :
    (∃ ret o, f.before env = (ret, some o) ∧ 0 ≤ ret) ↔
      (f.scansAll = true ∧ ¬ f.ParsesMaps env) ∨ f.ParsesProgs env := by
  have hprogs : ∀ o₁ : ElfObj, o₁.scns = f.lastScn →
      ((∃ ret o, whileLive (ElfObj.parseProgs env f) (some o₁) = (ret, some o) ∧ 0 ≤ ret) ↔
        f.ParsesProgs env) := by
    intro o₁ hscns
    rw [← ElfObj.parseProgs_nonneg_iff hscns]
    simp only [whileLive_eq, Option.some_inj, exists_eq_left']
  obtain ⟨ret₁, o₁, hmaps, hneg⟩ := ElfObj.parseMaps_neg_iff (o := f.scannedObj) env rfl
  unfold before
  by_cases hall : f.scansAll = true
  · rw [if_pos hall, and_iff_right hall]
    simp only [whileLive, hmaps]
    by_cases hret : ret₁ < 0
    · rw [if_pos hret]
      exact iff_of_true ⟨1, o₁, rfl, Int.zero_le_ofNat 1⟩ (.inl (hneg.mp hret))
    · rw [if_neg hret, or_iff_right (fun h => hret (hneg.mpr h))]
      exact hprogs o₁ (ElfObj.parseMaps_frame hmaps).1
  · rw [if_neg hall, or_iff_right (fun h => hall h.1)]
    exact hprogs f.scannedObj rfl

/-! ## Two objects over different memory -/

/-- The parser makes the same of the file over any memory, and takes no relocations from one without
a `.rela.dyn` section. -/
def ElfFile.MemoryFree (f : ElfFile) (st : Stages (Option ElfObj)) (env : Env) : Prop :=
  (∀ prior prior', parsed st env f prior = parsed st env f prior') ∧
    ((∀ s ∈ f.scns, ¬ s.IsRelaDyn) → ∀ prior p, parsed st env f prior = some p → p.relas = .empty)

/-- `rela_dyn_scn` is stored when the scan gets through such a section. -/
theorem relaDynScn_mem_stores :
    ScnMember.relaDynScn ∈ f.stores.map Prod.fst ↔ ∃ s ∈ f.scanned, s.IsRelaDyn := by
  rw [ElfFile.stores, List.map_append, List.mem_append, or_iff_right (by decide), List.mem_map]
  constructor
  · rintro ⟨w, hw, hmember⟩
    obtain ⟨s, hs, hstore⟩ := List.mem_filterMap.mp hw
    obtain ⟨m, hm, rfl⟩ := Option.map_eq_some_iff.mp hstore
    obtain rfl : m = .relaDynScn := hmember
    exact ⟨s, hs, s.member_eq_relaDynScn.mp hm⟩
  · rintro ⟨s, hs, hrela⟩
    refine ⟨(.relaDynScn, .scn s), List.mem_filterMap.mpr ⟨s, hs, ?_⟩, rfl⟩
    rw [ElfScn.store, s.member_eq_relaDynScn.mpr hrela, Option.map_some]

theorem ElfFile.finish_of_not_reached (h : ¬ ∃ ret o, f.before env = (ret, some o) ∧ 0 ≤ ret)
    (q q' : ScnPtr) : f.finish env q = f.finish env q' ∧
      ∀ p, f.finish env q = some p → p.relas = .empty := by
  unfold finish
  cases hbefore : f.before env with
  | mk ret s =>
      cases s with
      | none => exact ⟨rfl, fun p hp => by cases hp⟩
      | some o =>
          have hneg : ret < 0 := Int.not_le.mp fun hret => h ⟨ret, o, hbefore, hret⟩
          refine ⟨by simp only [hneg, if_true], fun p hp => ?_⟩
          simp only [hneg, if_true] at hp
          cases hp
          exact (before_frame hbefore).2

theorem ElfFile.finish_of_reached (h : f.before env = (ret, some o)) (hret : 0 ≤ ret)
    (q : ScnPtr) : f.finish env q =
      (Loader.parseRelaDyn env.mem env.symName o.maps.mapDefs (o.scns .dynsymScn).target q).map
        fun r => ⟨r.1, o.maps.mapDefs, o.progs.progs, r.2⟩ := by
  unfold finish
  rw [h]
  exact if_neg (Int.not_lt.mpr hret)

/-- What another object may have left behind: a pointer to a section of one byte. -/
def strayScn : ElfScn := ⟨0, some ⟨shtRela, 0, 1⟩, some ".rela.dyn", some ⟨0, []⟩⟩

/-- Where `parse_rela_dyn` is reached, it fails or not as the pointer is. -/
theorem ElfFile.finish_stray_ne_null
    (h : ∃ ret o, f.before env = (ret, some o) ∧ 0 ≤ ret) :
    f.finish env (.scn strayScn) ≠ f.finish env .null := by
  obtain ⟨ret, o, hbefore, hret⟩ := h
  intro heq
  rw [finish_of_reached hbefore hret, finish_of_reached hbefore hret] at heq
  have hrets : some (-1 : Int) = some 0 := congrArg (Option.map Parsed.ret) heq
  cases hrets

theorem parsed_of_not_elf {st : Stages (Option ElfObj)} (helf : f.elf = false)
    (prior : ScnMember → ScnPtr) : parsed st env f prior = some ⟨-1, [], [], .empty⟩ := by
  rw [parsed, helf]
  rfl

/-- **The parser depends on what the memory held exactly when it gets to `parse_rela_dyn` without
having come by a `.rela.dyn` section.** -/
theorem memoryFree_iff (f : ElfFile) (st : Stages (Option ElfObj)) (env : Env) :
    f.MemoryFree st env ↔ (∃ s ∈ f.scanned, s.IsRelaDyn) ∨ ¬ f.ReachesRelaDyn env := by
  cases helf : f.elf with
  | false =>
      refine iff_of_true ⟨fun prior prior' => ?_, fun _ prior p hp => ?_⟩
        (.inr fun hreach => Bool.false_ne_true (helf.symm.trans hreach.1))
      · rw [parsed_of_not_elf helf, parsed_of_not_elf helf]
      · rw [parsed_of_not_elf helf] at hp
        cases hp
        rfl
  | true =>
      have hreach : f.ReachesRelaDyn env ↔ ∃ ret o, f.before env = (ret, some o) ∧ 0 ≤ ret := by
        rw [ElfFile.ReachesRelaDyn, f.before_nonneg_iff, and_iff_right helf]
      by_cases hstored : ∃ s ∈ f.scanned, s.IsRelaDyn
      · -- the pointer is overwritten
        refine iff_of_true ⟨fun prior prior' => ?_, fun hnone => ?_⟩ (.inl hstored)
        · rw [parsed_eq st helf, parsed_eq st helf,
            writeAll_of_mem (relaDynScn_mem_stores.mpr hstored) prior prior']
        · obtain ⟨s, hs, hrela⟩ := hstored
          exact absurd hrela (hnone s (ElfFile.mem_of_mem_scanned hs))
      · -- the pointer stays as it was
        have hkept : ∀ prior, parsed st env f prior = f.finish env (prior .relaDynScn) := by
          intro prior
          rw [parsed_eq st helf,
            writeAll_of_notMem fun hmem => hstored (relaDynScn_mem_stores.mp hmem)]
        rw [or_iff_right hstored, hreach, ElfFile.MemoryFree]
        simp only [hkept]
        constructor
        · rintro ⟨hsame, -⟩ hreached
          exact ElfFile.finish_stray_ne_null hreached
            (hsame (fun _ => .scn strayScn) fun _ => .null)
        · intro hnot
          exact ⟨fun prior prior' => (ElfFile.finish_of_not_reached hnot _ _).1,
            fun _ prior p hp => (ElfFile.finish_of_not_reached hnot _ .null).2 p hp⟩

/-- An object with one program, no maps and no relocations. -/
def plainFile : ElfFile where
  elf := true
  ehdr := true
  shstrndx := true
  scns := [⟨0, some ⟨0, 0, 0⟩, some "", none⟩,
    ⟨1, some ⟨1, 0x1000, 64⟩, some "xdp", some ⟨0x5000, []⟩⟩,
    ⟨2, some ⟨2, 0, 48⟩, some ".symtab",
      some ⟨0x6000, [⟨"", 0, 0, 0, 0⟩, ⟨"filter", 0x12, 1, 0x1000, 64⟩]⟩⟩]

/-- Enough memory for everything, and the bytes of one relocation. -/
def plainEnv : Env where
  mem := .ofBytes 0x8000 (IuRelaDyn.bytes ⟨0x10, 8, 0x20⟩)
  addMap _ := true
  mapName _ := true
  realloc _ := true
  progNames _ := true
  symName _ := true
  qsort _ l := l

/-- The `.rela.dyn` section of another object. -/
def otherRelaDyn : ElfScn := ⟨5, some ⟨shtRela, 0, 24⟩, some ".rela.dyn", some ⟨0x8000, []⟩⟩

/-- Over memory with a pointer to that section its relocation becomes one of `plainFile`. -/
theorem finish_plainFile : plainFile.finish plainEnv (.scn otherRelaDyn) =
    some ⟨0, [], [("filter", ⟨"filter", .xdp, 0x1000, -1⟩)], ⟨[⟨0x10, 8, 0x20⟩], []⟩⟩ := by
  decide +kernel

theorem memoryFree_fails :
    (∀ s ∈ plainFile.scns, ¬ s.IsRelaDyn) ∧
      ¬ ∀ st : Stages (Option ElfObj), plainFile.MemoryFree st plainEnv := by
  have hnone : ∀ s ∈ plainFile.scns, ¬ s.IsRelaDyn := by decide
  refine ⟨hnone, fun hall => ?_⟩
  have st : Stages (Option ElfObj) :=
    ⟨fun s => (0, s), fun s => (0, s), fun s => (0, s), fun s => (0, s), fun s => (0, s),
      fun _ => 0, fun _ s => (true, s), fun _ => Int.le_refl 0, fun _ => Int.le_refl 0,
      fun _ => Int.le_refl 0, fun _ => Int.le_refl 0, fun _ => Int.le_refl 0⟩
  have hkept : writeAll plainFile.stores (fun _ => .scn otherRelaDyn) .relaDynScn =
      .scn otherRelaDyn :=
    writeAll_of_notMem fun hmem => by
      obtain ⟨s, hs, hrela⟩ := relaDynScn_mem_stores.mp hmem
      exact hnone s (ElfFile.mem_of_mem_scanned hs) hrela
  have hparsed : parsed st plainEnv plainFile (fun _ => .scn otherRelaDyn) = _ :=
    parsed_eq st rfl _
  rw [hkept, finish_plainFile] at hparsed
  have hempty := (hall st).2 hnone _ _ hparsed
  cases hempty

end KernelDev.Loader
