/-
# KernelDev.Loader.Relocs — the relocations of a program

`parse_rela_dyn` goes through the entries of `.rela.dyn` and sorts them. An entry whose addend is
the address of a map is skipped, the kernel treats it on its own; a relative one is kept as it is,
and for one that names a dynamic symbol its offset and the name of the symbol are kept. Any other
type is an error.
-/
import KernelDev.Loader.Maps

namespace KernelDev.Loader

open KernelDev.Lib

/-! ## Sections -/

/-- What `elf_getdata` finds of a section: where it is in memory and, for a symbol table, the
symbols that are there. -/
structure ElfData where
  dBuf : UInt64
  syms : List Elf64Sym
  deriving DecidableEq, Repr

structure Elf64Shdr where
  shType : UInt32
  shAddr : UInt64
  shSize : UInt64
  deriving DecidableEq, Repr

/-- An `Elf_Scn`: its index and what `elf64_getshdr`, `elf_strptr` of its name and `elf_getdata`
return, with `none` for NULL. -/
structure ElfScn where
  ndx : UInt16
  shdr : Option Elf64Shdr
  name : Option String
  data : Option ElfData
  deriving DecidableEq, Repr

/-- An `Elf_Scn *`; one that is neither NULL nor points to a section must not be used. -/
inductive ScnPtr
  | null
  | dangling
  | scn (s : ElfScn)
  deriving DecidableEq, Repr

/-! ## Relocations -/

/-- `struct iu_rela_dyn`. -/
structure IuRelaDyn where
  offset : UInt64
  info : UInt64
  addend : UInt64
  deriving DecidableEq, Repr

/-- `sizeof(iu_rela_dyn)`. -/
def iuRelaDynSize : UInt64 := 24

/-- `struct iu_dyn_sym`, with the string that `symbol` points to. -/
structure IuDynSym where
  offset : UInt64
  symbol : String
  deriving DecidableEq, Repr

def readIuRelaDyn (mem : Memory) (a : UInt64) : IuRelaDyn where
  offset := readU64 mem a
  info := readU64 mem (a + 8)
  addend := readU64 mem (a + 16)

/-- `rela_dyn_data[0]`, `rela_dyn_data[1]` and so on. -/
def relaDynData (mem : Memory) (dBuf : UInt64) (n : Nat) : List IuRelaDyn :=
  (List.range n).map fun idx => readIuRelaDyn mem (dBuf + iuRelaDynSize * UInt64.ofNat idx)

/-- `ELF64_R_TYPE`. -/
def elf64RType (info : UInt64) : UInt64 := info &&& 0xffffffff

/-- `ELF64_R_SYM`, in a `uint32_t`. -/
def elf64RSym (info : UInt64) : UInt32 := (info >>> 32).toUInt32

def rX8664GlobDat : UInt64 := 6

def rX8664Relative : UInt64 := 8

/-- `dyn_relas` and `dyn_syms` of the `iu_obj`. -/
structure RelaTables where
  dynRelas : List IuRelaDyn
  dynSyms : List IuDynSym
  deriving DecidableEq, Repr

def RelaTables.empty : RelaTables := ⟨[], []⟩

def RelaTables.pushRela (r : IuRelaDyn) (t : RelaTables) : RelaTables :=
  { t with dynRelas := t.dynRelas ++ [r] }

def RelaTables.pushSym (off : UInt64) (name : String) (t : RelaTables) : RelaTables :=
  { t with dynSyms := t.dynSyms ++ [⟨off, name⟩] }

/-- The symbol at an index of the dynamic symbol table; `none` where a NULL is dereferenced or the
table is left. -/
def dynSym (dynsymScn : Option ElfScn) (dynsymIdx : UInt32) : Option Elf64Sym := do
  let scn ← dynsymScn
  let syms ← scn.data
  let _ ← scn.shdr
  syms.syms[dynsymIdx.toNat]?

section
variable (mem : Memory) (strdup : Nat → Bool) (mapDefs : List (UInt64 × IuMap))
  (dynsymScn : Option ElfScn)

/-- The loop of `parse_rela_dyn`; `idx` is an int, so this is for fewer than 2^31 entries.
`strdup n` says whether there is memory for the `n`-th name. `none` is an access to memory the
program does not have. -/
def parseRelaDynLoop : List IuRelaDyn → RelaTables → Option (Int × RelaTables)
  | [], t => some (0, t)
  | r :: rs, t =>
      if (valueAt r.addend mapDefs).isSome then parseRelaDynLoop rs t
      else if elf64RType r.info = rX8664Relative then parseRelaDynLoop rs (t.pushRela r)
      else if elf64RType r.info = rX8664GlobDat then
        match dynSym dynsymScn (elf64RSym r.info) with
        | none => none
        | some sym =>
            if !strdup t.dynSyms.length then some (-1, t)
            else parseRelaDynLoop rs (t.pushSym r.offset sym.name)
      else some (-1, t)

/-- `iu_obj::parse_rela_dyn`. -/
def parseRelaDyn : ScnPtr → Option (Int × RelaTables)
  | .null => some (0, .empty)
  | .dangling => none
  | .scn relaDynScn =>
      match relaDynScn.shdr, relaDynScn.data with
      | none, _ => some (-1, .empty)
      | some _, none => none
      | some relaDyn, some data =>
          if relaDyn.shSize % iuRelaDynSize ≠ 0 then some (-1, .empty)
          else
            parseRelaDynLoop strdup mapDefs dynsymScn
              (relaDynData mem data.dBuf (relaDyn.shSize / iuRelaDynSize).toNat) .empty

end

/-! ## The partition -/

variable {mem : Memory} {strdup : Nat → Bool} {mapDefs : List (UInt64 × IuMap)}
  {dynsymScn : Option ElfScn} {r : IuRelaDyn} {rs : List IuRelaDyn} {t : RelaTables}

/-- The addend is the address of a map. -/
def IuRelaDyn.OfMap (mapDefs : List (UInt64 × IuMap)) (r : IuRelaDyn) : Prop :=
  r.addend ∈ mapDefs.map Prod.fst

instance : Decidable (r.OfMap mapDefs) := inferInstanceAs (Decidable (_ ∈ _))

def IuRelaDyn.Relative (r : IuRelaDyn) : Prop := elf64RType r.info = rX8664Relative

instance : Decidable r.Relative := inferInstanceAs (Decidable (_ = _))

def IuRelaDyn.GlobDat (r : IuRelaDyn) : Prop := elf64RType r.info = rX8664GlobDat

instance : Decidable r.GlobDat := inferInstanceAs (Decidable (_ = _))

/-- The loader can take the entry. -/
def IuRelaDyn.Supported (mapDefs : List (UInt64 × IuMap)) (r : IuRelaDyn) : Prop :=
  ¬ r.OfMap mapDefs → r.Relative ∨ r.GlobDat

/-- The dynamic symbol an entry names is there. -/
def IuRelaDyn.Resolved (mapDefs : List (UInt64 × IuMap)) (dynsymScn : Option ElfScn)
    (r : IuRelaDyn) : Prop :=
  ¬ r.OfMap mapDefs → r.GlobDat → (dynSym dynsymScn (elf64RSym r.info)).isSome

/-- The name of the dynamic symbol an entry refers to. -/
def IuRelaDyn.symName (dynsymScn : Option ElfScn) (r : IuRelaDyn) : String :=
  ((dynSym dynsymScn (elf64RSym r.info)).map Elf64Sym.name).getD ""

/-- The relative entries, as they are and in order. -/
def relativesOf (mapDefs : List (UInt64 × IuMap)) (rs : List IuRelaDyn) : List IuRelaDyn :=
  rs.filter fun r => ¬ r.OfMap mapDefs ∧ r.Relative

/-- One pair for each entry that names a dynamic symbol, in order. -/
def globDatsOf (mapDefs : List (UInt64 × IuMap)) (dynsymScn : Option ElfScn)
    (rs : List IuRelaDyn) : List IuDynSym :=
  (rs.filter fun r => ¬ r.OfMap mapDefs ∧ r.GlobDat).map fun r => ⟨r.offset, r.symName dynsymScn⟩

/-- One turn of the loop. -/
theorem parseRelaDynLoop_cons (r : IuRelaDyn) (rs : List IuRelaDyn) (t : RelaTables) :
    parseRelaDynLoop strdup mapDefs dynsymScn (r :: rs) t =
      if r.OfMap mapDefs then parseRelaDynLoop strdup mapDefs dynsymScn rs t
      else if r.Relative then parseRelaDynLoop strdup mapDefs dynsymScn rs (t.pushRela r)
      else if r.GlobDat then
        match dynSym dynsymScn (elf64RSym r.info) with
        | none => none
        | some sym =>
            if !strdup t.dynSyms.length then some (-1, t)
            else parseRelaDynLoop strdup mapDefs dynsymScn rs (t.pushSym r.offset sym.name)
      else some (-1, t) := by
  have hfind : (valueAt r.addend mapDefs).isSome = decide (r.OfMap mapDefs) := by
    rw [Bool.eq_iff_iff, valueAt_isSome_iff, decide_eq_true_iff, IuRelaDyn.OfMap]
  rw [parseRelaDynLoop, hfind]
  simp only [decide_eq_true_eq]
  rfl

/-- No entry is of both types. -/
theorem IuRelaDyn.Relative.not_globDat (h : r.Relative) : ¬ r.GlobDat := by
  intro hglob
  have htypes : rX8664Relative = rX8664GlobDat := h.symm.trans hglob
  exact absurd htypes (by decide)

/-- The tables after the entries have been sorted into them. -/
def RelaTables.extend (mapDefs : List (UInt64 × IuMap)) (dynsymScn : Option ElfScn)
    (rs : List IuRelaDyn) (t : RelaTables) : RelaTables where
  dynRelas := t.dynRelas ++ relativesOf mapDefs rs
  dynSyms := t.dynSyms ++ globDatsOf mapDefs dynsymScn rs

theorem RelaTables.extend_nil (t : RelaTables) : t.extend mapDefs dynsymScn [] = t := by
  rw [extend, relativesOf, globDatsOf, List.filter_nil, List.filter_nil, List.map_nil,
    List.append_nil, List.append_nil]

theorem RelaTables.extend_ofMap (h : r.OfMap mapDefs) (t : RelaTables) :
    t.extend mapDefs dynsymScn (r :: rs) = t.extend mapDefs dynsymScn rs := by
  simp only [extend, relativesOf, globDatsOf, List.filter_cons, h, not_true_eq_false, false_and,
    decide_false, Bool.false_eq_true, if_false]

theorem RelaTables.extend_relative (hmap : ¬ r.OfMap mapDefs) (h : r.Relative) (t : RelaTables) :
    t.extend mapDefs dynsymScn (r :: rs) = (t.pushRela r).extend mapDefs dynsymScn rs := by
  simp only [extend, pushRela, relativesOf, globDatsOf, List.filter_cons, hmap, h, h.not_globDat,
    not_false_eq_true, and_self, and_false, decide_true, decide_false, Bool.false_eq_true, if_true,
    if_false, List.append_assoc, List.singleton_append]

theorem RelaTables.extend_globDat (hmap : ¬ r.OfMap mapDefs) (h : r.GlobDat) (t : RelaTables) :
    t.extend mapDefs dynsymScn (r :: rs) =
      (t.pushSym r.offset (r.symName dynsymScn)).extend mapDefs dynsymScn rs := by
  have hrel : ¬ r.Relative := fun hrel => hrel.not_globDat h
  simp only [extend, pushSym, relativesOf, globDatsOf, List.filter_cons, hmap, h, hrel,
    not_false_eq_true, and_self, and_false, decide_true, decide_false, Bool.false_eq_true, if_true,
    if_false, List.map_cons, List.append_assoc, List.singleton_append]

/-- The loop comes to its end and has sorted the entries, or it comes to one it cannot take. -/
def Sorts (strdup : Nat → Bool) (mapDefs : List (UInt64 × IuMap)) (dynsymScn : Option ElfScn)
    (rs : List IuRelaDyn) (t : RelaTables) : Prop :=
  ((∀ r ∈ rs, r.Supported mapDefs) ∧
      parseRelaDynLoop strdup mapDefs dynsymScn rs t = some (0, t.extend mapDefs dynsymScn rs)) ∨
    ((¬ ∀ r ∈ rs, r.Supported mapDefs) ∧
      ∃ t', parseRelaDynLoop strdup mapDefs dynsymScn rs t = some (-1, t'))

/-- An entry that is taken leaves the rest to the rest of the loop. -/
theorem Sorts.cons {t' : RelaTables} (h : Sorts strdup mapDefs dynsymScn rs t')
    (hsupported : r.Supported mapDefs)
    (hstep : parseRelaDynLoop strdup mapDefs dynsymScn (r :: rs) t =
      parseRelaDynLoop strdup mapDefs dynsymScn rs t')
    (hextend : t.extend mapDefs dynsymScn (r :: rs) = t'.extend mapDefs dynsymScn rs) :
    Sorts strdup mapDefs dynsymScn (r :: rs) t := by
  rw [Sorts, List.forall_mem_cons, hstep, hextend, and_iff_right hsupported]
  exact h

/-- **The loop sorts the entries.** -/
theorem parseRelaDynLoop_sorts (hstrdup : ∀ n, strdup n = true)
    (hres : ∀ r ∈ rs, r.Resolved mapDefs dynsymScn) (t : RelaTables) :
    Sorts strdup mapDefs dynsymScn rs t := by
  induction rs generalizing t with
  | nil =>
      rw [Sorts, t.extend_nil]
      exact .inl ⟨fun r hr => absurd hr List.not_mem_nil, rfl⟩
  | cons r rs ih =>
      rw [List.forall_mem_cons] at hres
      by_cases hmap : r.OfMap mapDefs
      · refine (ih hres.2 t).cons (fun hnot => absurd hmap hnot) ?_ (RelaTables.extend_ofMap hmap t)
        rw [parseRelaDynLoop_cons, if_pos hmap]
      · by_cases hrel : r.Relative
        · refine (ih hres.2 _).cons (fun _ => .inl hrel) ?_
            (RelaTables.extend_relative hmap hrel t)
          rw [parseRelaDynLoop_cons, if_neg hmap, if_pos hrel]
        · by_cases hglob : r.GlobDat
          · obtain ⟨sym, hsym⟩ := Option.isSome_iff_exists.mp (hres.1 hmap hglob)
            have hname : r.symName dynsymScn = sym.name := by
              rw [IuRelaDyn.symName, hsym, Option.map_some, Option.getD_some]
            refine (ih hres.2 _).cons (fun _ => .inr hglob) ?_
              (RelaTables.extend_globDat hmap hglob t)
            rw [parseRelaDynLoop_cons, if_neg hmap, if_neg hrel, if_pos hglob, hsym,
              hname]
            simp only [hstrdup, Bool.not_true, Bool.false_eq_true, if_false]
          · refine .inr ⟨fun hall => ?_, t, ?_⟩
            · rcases hall r List.mem_cons_self hmap with h | h
              · exact hrel h
              · exact hglob h
            · rw [parseRelaDynLoop_cons, if_neg hmap, if_neg hrel, if_neg hglob]

/-- The entries of a section. -/
def relaDyns (mem : Memory) (relaDyn : Elf64Shdr) (data : ElfData) : List IuRelaDyn :=
  relaDynData mem data.dBuf (relaDyn.shSize / iuRelaDynSize).toNat

/-- **`parse_rela_dyn` sorts the entries of every well-formed section, and only of these.** -/
theorem parseRelaDyn_partition (mem : Memory) (mapDefs : List (UInt64 × IuMap)) {s : ElfScn}
    {relaDyn : Elf64Shdr} {data : ElfData} (hshdr : s.shdr = some relaDyn)
    (hdata : relaDyn.shSize % iuRelaDynSize = 0 → s.data = some data)
    (hstrdup : ∀ n, strdup n = true)
    (hres : ∀ r ∈ relaDyns mem relaDyn data, r.Resolved mapDefs dynsymScn) :
    ((∃ t, parseRelaDyn mem strdup mapDefs dynsymScn (.scn s) = some (0, t)) ↔
        iuRelaDynSize.toNat ∣ relaDyn.shSize.toNat ∧
          ∀ r ∈ relaDyns mem relaDyn data, ¬ r.OfMap mapDefs → r.Relative ∨ r.GlobDat) ∧
      ∀ t, parseRelaDyn mem strdup mapDefs dynsymScn (.scn s) = some (0, t) →
        t.dynRelas = (relaDyns mem relaDyn data).filter (fun r => ¬ r.OfMap mapDefs ∧ r.Relative) ∧
        t.dynSyms = ((relaDyns mem relaDyn data).filter
          (fun r => ¬ r.OfMap mapDefs ∧ r.GlobDat)).map
            fun r => ⟨r.offset, r.symName dynsymScn⟩ := by
  have hdvd : iuRelaDynSize.toNat ∣ relaDyn.shSize.toNat ↔ relaDyn.shSize % iuRelaDynSize = 0 := by
    rw [Nat.dvd_iff_mod_eq_zero, ← UInt64.toNat_mod, ← UInt64.toNat_inj]
    rfl
  by_cases hsize : relaDyn.shSize % iuRelaDynSize = 0
  · have hparse : parseRelaDyn mem strdup mapDefs dynsymScn (.scn s) =
        parseRelaDynLoop strdup mapDefs dynsymScn (relaDyns mem relaDyn data) .empty := by
      rw [parseRelaDyn, hshdr, hdata hsize]
      exact if_neg (not_not.mpr hsize)
    rw [hparse, hdvd, and_iff_right hsize]
    rcases parseRelaDynLoop_sorts hstrdup hres .empty with ⟨hall, heq⟩ | ⟨hnot, t', heq⟩
    · rw [heq]
      refine ⟨iff_of_true ⟨_, rfl⟩ hall, fun t ht => ?_⟩
      obtain rfl := (Prod.mk.inj (Option.some.inj ht)).2
      exact ⟨List.nil_append _, List.nil_append _⟩
    · rw [heq]
      have hfails : ∀ t, ¬ (some (-1, t') : Option (Int × RelaTables)) = some (0, t) := by
        intro t ht
        cases (Prod.mk.inj (Option.some.inj ht)).1
      exact ⟨iff_of_false (fun ⟨t, ht⟩ => hfails t ht) hnot, fun t ht => absurd ht (hfails t)⟩
  · have hfails : ∀ t, ¬ parseRelaDyn mem strdup mapDefs dynsymScn (.scn s) = some (0, t) := by
      intro t ht
      rw [parseRelaDyn, hshdr] at ht
      cases hs : s.data with
      | none =>
          rw [hs] at ht
          cases ht
      | some d =>
          simp only [hs, ne_eq, hsize, not_false_eq_true, if_true] at ht
          cases (Prod.mk.inj (Option.some.inj ht)).1
    rw [hdvd]
    exact ⟨iff_of_false (fun ⟨t, ht⟩ => hfails t ht) fun hnot => hsize hnot.1,
      fun t ht => absurd ht (hfails t)⟩

/-- The bytes of an entry. -/
def IuRelaDyn.bytes (r : IuRelaDyn) : List UInt8 :=
  leBytes 8 r.offset.toNat ++ (leBytes 8 r.info.toNat ++ leBytes 8 r.addend.toNat)

/-- A relative entry, one for a map at 0x1000 and one for the dynamic symbol 1. -/
def threeRelas : List IuRelaDyn :=
  [⟨0x10, 8, 0x20⟩, ⟨0x18, 8, 0x1000⟩, ⟨0x20, 0x100000006, 0⟩]

theorem parseRelaDyn_partition_three :
    let mem := Memory.ofBytes 0x8000 (threeRelas.flatMap IuRelaDyn.bytes)
    let syms : ElfData := ⟨0, [⟨"", 0, 0, 0, 0⟩, ⟨"bpf_printk", 0x10, 0, 0, 0⟩]⟩
    let dynsym : ElfScn := ⟨3, some ⟨11, 0, 48⟩, some ".dynsym", some syms⟩
    let relaDyn : ElfScn := ⟨4, some ⟨4, 0, 72⟩, some ".rela.dyn", some ⟨0x8000, []⟩⟩
    ∃ t, parseRelaDyn mem (fun _ => true) [(0x1000, ⟨⟨2, 4, 8, 1, 0, 0⟩, -1, "counts"⟩)]
        (some dynsym) (.scn relaDyn) = some (0, t) ∧
      t.dynRelas = [⟨0x10, 8, 0x20⟩] ∧ t.dynSyms = [⟨0x20, "bpf_printk"⟩] := by
  intro mem syms dynsym relaDyn
  have hrelas : relaDyns mem ⟨4, 0, 72⟩ ⟨0x8000, []⟩ = threeRelas := by decide +kernel
  have hres : ∀ r ∈ relaDyns mem ⟨4, 0, 72⟩ ⟨0x8000, []⟩,
      r.Resolved [(0x1000, ⟨⟨2, 4, 8, 1, 0, 0⟩, -1, "counts"⟩)] (some dynsym) := by
    rw [hrelas]
    exact show ∀ r ∈ threeRelas, _ → _ → _ = true by decide +kernel
  have hstrdup : ∀ n : Nat, (fun _ : Nat => true) n = true := fun _ => rfl
  obtain ⟨hiff, htables⟩ := parseRelaDyn_partition mem
    [(0x1000, ⟨⟨2, 4, 8, 1, 0, 0⟩, -1, "counts"⟩)] (s := relaDyn) rfl (fun _ => rfl) hstrdup hres
  rw [hrelas] at hiff htables
  obtain ⟨t, ht⟩ := hiff.mpr (by decide +kernel)
  obtain ⟨hrela, hsym⟩ := htables t ht
  exact ⟨t, ht, hrela.trans (by decide +kernel), hsym.trans (by decide +kernel)⟩

end KernelDev.Loader
