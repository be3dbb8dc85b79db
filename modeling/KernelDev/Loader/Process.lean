/-
# KernelDev.Loader.Process — a process that loads and closes objects

The registry `objs` has an object under each number that `iu_obj_load` has returned;
`iu_obj_close` destroys it. Between the calls, which come one at a time, the process opens and
closes descriptors of its own, and the kernel hands out any number that is free.

Whatever the files are and wherever a load fails, the library closes nothing of the process's own,
and what is open of base programs and maps is what the registered objects hold. A base program that
the error label and the destructor both close is no exception: nothing is opened in between. What
nobody closes stays open to the end: the object file unless it was `iu_object__open` that loaded it,
`rust.out`, and the programs of an object.
-/
import KernelDev.Lib.Execution
import KernelDev.Loader.Object

namespace KernelDev.Loader

open KernelDev.Lib

/-! ## The calls -/

/-- The arguments of `iu_obj_load`, and what it meets. -/
structure LoadRequest where
  answers : Answers
  file : ElfFile
  prior : ScnMember → ScnPtr

structure Process where
  table : FdTable File
  objs : Int → Option Obj

/-- What the object registered under a number holds. -/
def Process.heldAt (p : Process) (n : Int) : List (Int × File) := (p.objs n).elim [] Obj.held

/-- `iu_obj_load`; `none` is a crash, or an answer that the kernel does not give. -/
def Process.iuObjLoad (c : LoadRequest) (p : Process) : Option (Int × Process) :=
  if !c.answers.elfVersion then some (-1, p)
  else
    match loadObject c.answers c.file c.prior with
    | none => none
    | some l =>
        if Unused l.asked p.table then
          let t := closeAll l.closed (openAll l.asked p.table)
          if l.ret < 0 then
            -- the object is destroyed
            some (l.ret, { p with table := closeAll (l.obj.held.map Prod.fst) t })
          else
            -- the object that was there before is
            some (l.ret, ⟨closeAll ((p.heldAt l.ret).map Prod.fst) t,
              Function.update p.objs l.ret (some l.obj)⟩)
        else none

/-- `obj->efile.fd`, which is 0 before the constructor. -/
def LoadRequest.efileFd (c : LoadRequest) : Int :=
  if c.answers.elfVersion then c.answers.elfFd else 0

/-- `iu_object__open` from the call of `iu_obj_load` to `iu_object__elf_finish`. Left out are the
returns of NULL before the call, by which nothing has been opened, and libbpf's `bpf_object__close`
after a failed open. -/
def Process.iuObjectOpen (c : LoadRequest) (p : Process) : Option (Int × Process) :=
  (p.iuObjLoad c).map fun r =>
    (r.1, { r.2 with table := closeAll (delivered [c.efileFd]) r.2.table })

def Process.iuObjClose (n : Int) (p : Process) : Int × Process :=
  match p.objs n with
  | some o => (0, ⟨closeAll (o.held.map Prod.fst) p.table, Function.update p.objs n none⟩)
  | none => (-1, p)

/-- `iu_obj::find_map_by_name`. -/
def Obj.findMapByName (name : String) (o : Obj) : Int :=
  match valueAt name o.image.fix.name2map with
  | some v => o.image.fix.mapFd v
  | none => -1

/-- `iu_obj::find_prog_by_name`. -/
def Obj.findProgByName (name : String) (o : Obj) : Int :=
  match valueAt name o.image.elf.progs.progs with
  | some prog => prog.fd
  | none => -1

def Process.iuObjGetMap (n : Int) (name : String) (p : Process) : Int :=
  match p.objs n with
  | some o => o.findMapByName name
  | none => -1

def Process.iuObjGetProg (n : Int) (name : String) (p : Process) : Int :=
  match p.objs n with
  | some o => o.findProgByName name
  | none => -1

/-! ## Runs -/

/-- What happens in the process. -/
inductive ProcessAct
  /-- It opens something of its own. -/
  | acquire (fd : Int)
  | release (fd : Int)
  | objLoad (c : LoadRequest)
  | objectOpen (c : LoadRequest)
  | objClose (n : Int)

def processStep : ProcessAct → Process → Option Process
  | .acquire fd, p =>
      if 0 ≤ fd ∧ (p.table fd).isNone then
        some { p with table := Function.update p.table fd (some .own) }
      else none
  | .release fd, p =>
      if p.table fd = some .own then some { p with table := closeAll [fd] p.table } else none
  | .objLoad c, p => (p.iuObjLoad c).map Prod.snd
  | .objectOpen c, p => (p.iuObjectOpen c).map Prod.snd
  | .objClose n, p => some (p.iuObjClose n).2

/-- The descriptors of the process's own. -/
def Process.own (p : Process) (fd : Int) : Bool := p.table fd = some .own

/-- What an act of the process does to them. -/
def ProcessAct.own : ProcessAct → (Int → Bool) → Int → Bool
  | .acquire fd, own => Function.update own fd true
  | .release fd, own => Function.update own fd false
  | .objLoad _, own => own
  | .objectOpen _, own => own
  | .objClose _, own => own

/-- libelf initialises where `efile.fd` is closed. -/
def ProcessAct.ElfReady : ProcessAct → Prop
  | .objectOpen c => c.answers.elfVersion = true
  | _ => True

/-! ## What a call comes to -/

variable {p p' : Process} {c : LoadRequest} {ret : Int} {fd : Int} {k : File}

/-- **The outcomes of a load.** -/
theorem iuObjLoad_cases (h : p.iuObjLoad c = some (ret, p')) :
    (c.answers.elfVersion = false ∧ ret = -1 ∧ p' = p) ∨
    ∃ l, loadObject c.answers c.file c.prior = some l ∧ c.answers.elfVersion = true ∧
      Unused l.asked p.table ∧ ret = l.ret ∧
      ((ret < 0 ∧ p' = { p with
          table := closeAll (l.closed ++ l.obj.held.map Prod.fst) (openAll l.asked p.table) }) ∨
        (0 ≤ ret ∧ p' = ⟨closeAll ((p.heldAt ret).map Prod.fst) (openAll l.asked p.table),
          Function.update p.objs ret (some l.obj)⟩)) := by
  unfold Process.iuObjLoad at h
  split at h
  · next hversion =>
      obtain ⟨rfl, rfl⟩ := Prod.mk.inj (Option.some.inj h)
      exact .inl ⟨by simpa using hversion, rfl, rfl⟩
  next hversion =>
  split at h
  · cases h
  next l hload =>
  split at h
  · next hunused =>
      refine .inr ⟨l, hload, by simpa using hversion, hunused, ?_⟩
      split at h
      · next hneg =>
          obtain ⟨rfl, rfl⟩ := Prod.mk.inj (Option.some.inj h)
          exact ⟨rfl, .inl ⟨hneg, by rw [closeAll_append]⟩⟩
      · next hpos =>
          obtain ⟨rfl, rfl⟩ := Prod.mk.inj (Option.some.inj h)
          have hpos' := Int.not_lt.mp hpos
          refine ⟨rfl, .inr ⟨hpos', ?_⟩⟩
          rw [(loadObject_accounted hload).kept hpos']
          rfl
  · cases h

/-- **A load returns what the chain of its stages does, and registers the object of the chain.** -/
theorem iuObjLoad_chain (h : p.iuObjLoad c = some (ret, p'))
    (objs : Int → Option (IuObj (Option Image))) :
    let r := iuObjLoad (loaderStages c.answers c.file) (c.answers.input c.file c.prior) objs
    r.ret = ret ∧ (0 ≤ ret → ∃ o, p'.objs ret = some o ∧ r.run.obj.image = some o.image ∧
      r.run.obj.progFd = o.progFd) := by
  intro r
  rcases iuObjLoad_cases h with ⟨hversion, rfl, -⟩ | ⟨l, hload, hversion, -, rfl, hend⟩
  · refine ⟨?_, fun hpos => by cases hpos⟩
    have hinput : (c.answers.input c.file c.prior).elfVersion = false := hversion
    simp only [r, iuObjLoad, hinput, Bool.not_false, if_true]
  · obtain ⟨hret, himage, hfd⟩ := loadObject_eq hversion hload objs
    refine ⟨hret, fun hpos => ?_⟩
    rcases hend with ⟨hneg, -⟩ | ⟨-, rfl⟩
    · exact absurd hpos (Int.not_le.mpr hneg)
    · exact ⟨l.obj, Function.update_self .., himage, hfd⟩

/-- What was open of the kinds nobody closes stays so through a load, and what the load asks for
comes to it; of its programs only if it succeeds. -/
theorem iuObjLoad_unmanaged (hp : HeldExactly File.Managed p.heldAt p.table) {l : LoadedObj}
    (hacc : Accounted l) (hunused : Unused l.asked p.table)
    (hend : (l.ret < 0 ∧ p' = { p with
        table := closeAll (l.closed ++ l.obj.held.map Prod.fst) (openAll l.asked p.table) }) ∨
      (0 ≤ l.ret ∧ p' = ⟨closeAll ((p.heldAt l.ret).map Prod.fst) (openAll l.asked p.table),
        Function.update p.objs l.ret (some l.obj)⟩)) (hk : ¬ k.Managed) :
    p'.table fd = some k ↔ p.table fd = some k ∨
      (0 ≤ fd ∧ (fd, k) ∈ l.asked ∧ (k = .program → 0 ≤ l.ret)) := by
  rcases hend with ⟨hneg, rfl⟩ | ⟨hpos, rfl⟩
  · show closeAll _ (openAll l.asked p.table) fd = some k ↔ _
    rw [closeAll_eq_some_iff, openAll_eq_some_iff hunused]
    -- what is closed is of this load
    have hclosed : fd ∈ l.closed ++ l.obj.held.map Prod.fst →
        0 ≤ fd ∧ ∃ k', (fd, k') ∈ l.asked ∧ (k'.Managed ∨ k' = .program) := by
      intro hmem
      rcases List.mem_append.mp hmem with hmem | hmem
      · obtain ⟨hfd, k', hk', rfl | rfl⟩ := hacc.closed fd hmem
        · exact ⟨hfd, _, hk', .inl (.inr rfl)⟩
        · exact ⟨hfd, _, hk', .inr rfl⟩
      · obtain ⟨⟨n, k'⟩, hk', rfl⟩ := List.mem_map.mp hmem
        obtain ⟨hfd, hman, hasked⟩ := (hacc.held n k').mp hk'
        exact ⟨hfd, k', hasked, .inl hman⟩
    constructor
    · rintro ⟨hold | ⟨hfd, hmem⟩, hnot⟩
      · exact .inl hold
      · refine .inr ⟨hfd, hmem, fun hprog => ?_⟩
        exact absurd (List.mem_append_left _ (hacc.failed hneg fd hfd (hprog ▸ hmem))) hnot
    · rintro (hold | ⟨hfd, hmem, hprog⟩)
      · refine ⟨.inl hold, fun hmem => ?_⟩
        obtain ⟨hfd, k', hk', -⟩ := hclosed hmem
        have hnone := hunused.unused _ hk' hfd
        rw [hold] at hnone
        cases hnone
      · refine ⟨.inr ⟨hfd, hmem⟩, fun hclose => ?_⟩
        obtain ⟨-, k', hk', hman | rfl⟩ := hclosed hclose
        · exact hk (hunused.eq_of_mem hfd hmem hk' ▸ hman)
        · exact absurd (hprog (hunused.eq_of_mem hfd hmem hk')) (Int.not_le.mpr hneg)
  · show closeAll _ (openAll l.asked p.table) fd = some k ↔ _
    have hsub : ∀ fd k, p.table fd = some k → openAll l.asked p.table fd = some k :=
      fun fd k hold => (openAll_eq_some_iff hunused).mpr (.inl hold)
    rw [hp.release_other hsub _ hk, openAll_eq_some_iff hunused]
    simp only [hpos, implies_true, and_true]

/-! ## What holds between the calls -/

/-- Base programs and maps are those of the registered objects, and each object has what can be
looked up in it. -/
structure Registered (p : Process) : Prop where
  held : HeldExactly File.Managed p.heldAt p.table
  key : ∀ n o, p.objs n = some o →
    (o.progFd = n ∧ 0 ≤ n ∧ o.Complete) ∨ (n = 1 ∧ o.held = [])
  progs : ∀ n o, p.objs n = some o → ∀ e ∈ o.image.elf.progs.progs, 0 ≤ e.2.fd →
    p.table e.2.fd = some .program
  named : ∀ n o, p.objs n = some o → ∀ x ∈ o.image.fix.name2map, ∃ m,
    (x.2, m) ∈ o.image.elf.maps.mapDefs ∧ m.name = x.1 ∧ 0 ≤ o.image.fix.mapFd x.2

/-- A change of the table that keeps managed kinds and programs. -/
theorem Registered.table (hp : Registered p) {t : FdTable File}
    (hmanaged : ∀ fd k, k.Managed → (t fd = some k ↔ p.table fd = some k))
    (hprogs : ∀ fd, p.table fd = some .program → t fd = some .program) :
    Registered { p with table := t } :=
  ⟨hp.held.frame hmanaged, hp.key, fun n o ho e he hfd => hprogs _ (hp.progs n o ho e he hfd),
    hp.named⟩

theorem heldAt_update (p : Process) (n : Int) (o : Option Obj) (t : FdTable File) :
    Process.heldAt ⟨t, Function.update p.objs n o⟩ =
      Function.update p.heldAt n (o.elim [] Obj.held) := by
  funext m
  show (Function.update p.objs n o m).elim [] Obj.held = _
  by_cases hm : m = n
  · rw [hm, Function.update_self, Function.update_self]
  · rw [Function.update_of_ne hm, Function.update_of_ne hm]
    rfl

/-- **A load keeps the registry.** -/
theorem Registered.iuObjLoad (hp : Registered p) (h : p.iuObjLoad c = some (ret, p')) :
    Registered p' := by
  rcases iuObjLoad_cases h with ⟨-, -, rfl⟩ | ⟨l, hload, -, hunused, rfl, hend⟩
  · exact hp
  have hacc := loadObject_accounted hload
  have hother := @iuObjLoad_unmanaged p p'
  have hprogs : ∀ fd, p.table fd = some .program → p'.table fd = some .program := fun fd hfd =>
    (hother hp.held hacc hunused hend (by decide)).mpr (.inl hfd)
  rcases hend with ⟨hneg, rfl⟩ | ⟨hpos, rfl⟩
  · refine hp.table (fun fd k hk => ?_) hprogs
    rw [closeAll_eq_some_iff, openAll_eq_some_iff hunused]
    constructor
    · rintro ⟨hold | ⟨hfd, hmem⟩, hnot⟩
      · exact hold
      · -- the object holds it
        have hmem' := List.mem_map_of_mem (f := Prod.fst) ((hacc.held fd k).mpr ⟨hfd, hk, hmem⟩)
        exact absurd (List.mem_append_right _ hmem') hnot
    · intro hold
      refine ⟨.inl hold, fun hclose => ?_⟩
      have hasked : 0 ≤ fd ∧ ∃ k', (fd, k') ∈ l.asked := by
        rcases List.mem_append.mp hclose with hmem | hmem
        · obtain ⟨hfd, k', hk', -⟩ := hacc.closed fd hmem
          exact ⟨hfd, k', hk'⟩
        · obtain ⟨⟨n, k'⟩, hk', rfl⟩ := List.mem_map.mp hmem
          obtain ⟨hfd, -, hk''⟩ := (hacc.held n k').mp hk'
          exact ⟨hfd, k', hk''⟩
      obtain ⟨hfd, k', hk'⟩ := hasked
      have hnone := hunused.unused _ hk' hfd
      rw [hold] at hnone
      cases hnone
  · have hheld : HeldExactly File.Managed (Function.update p.heldAt l.ret l.obj.held)
        (closeAll ((p.heldAt l.ret).map Prod.fst) (openAll l.asked p.table)) := by
      apply hp.held.replace
      · rintro ⟨fd, k⟩ he
        exact ((hacc.held fd k).mp he).2.1
      · rintro ⟨fd, k⟩ he
        obtain ⟨hfd, -, hmem⟩ := (hacc.held fd k).mp he
        exact hunused.unused _ hmem hfd
      · intro fd k hk
        rw [openAll_eq_some_iff hunused, hacc.held fd k]
        simp only [hk, true_and]
    refine ⟨heldAt_update p l.ret (some l.obj) _ ▸ hheld, fun n o ho => ?_, fun n o ho => ?_,
      fun n o ho => ?_⟩
    · rcases eq_or_ne n l.ret with rfl | hne
      · obtain rfl : l.obj = o := by simpa using ho
        rcases hacc.key hpos with ⟨hfd, hcomplete⟩ | hone
        · exact .inl ⟨hfd, hpos, hcomplete⟩
        · exact .inr hone
      · exact hp.key n o (by simpa [Function.update_of_ne hne] using ho)
    · intro e he hfd
      rcases eq_or_ne n l.ret with rfl | hne
      · obtain rfl : l.obj = o := by simpa using ho
        exact (hother hp.held hacc hunused (.inr ⟨hpos, rfl⟩) (by decide)).mpr
          (.inr ⟨hfd, hacc.progFds e he hfd, fun _ => hpos⟩)
      · exact hprogs _ (hp.progs n o (by simpa [Function.update_of_ne hne] using ho) e he hfd)
    · rcases eq_or_ne n l.ret with rfl | hne
      · obtain rfl : l.obj = o := by simpa using ho
        exact hacc.named
      · exact hp.named n o (by simpa [Function.update_of_ne hne] using ho)

/-- Closing an object is a change of its entry. -/
theorem iuObjClose_eq (n : Int) (p : Process) : (p.iuObjClose n).2 =
    ⟨closeAll ((p.heldAt n).map Prod.fst) p.table, Function.update p.objs n none⟩ := by
  unfold Process.iuObjClose Process.heldAt
  cases ho : p.objs n with
  | some o => rfl
  | none =>
      show p = ⟨p.table, Function.update p.objs n none⟩
      rw [← ho, Function.update_eq_self]

/-- **Closing an object keeps the registry.** -/
theorem Registered.iuObjClose (hp : Registered p) (n : Int) : Registered (p.iuObjClose n).2 := by
  rw [iuObjClose_eq]
  have hheld : HeldExactly File.Managed (Function.update p.heldAt n [])
      (closeAll ((p.heldAt n).map Prod.fst) p.table) := by
    apply hp.held.replace
    · exact fun e he => by cases he
    · exact fun e he => by cases he
    · intro fd k _
      simp
  have hkept : ∀ m o, Function.update p.objs n none m = some o → p.objs m = some o := by
    intro m o ho
    rw [Function.update_apply] at ho
    split at ho
    · cases ho
    · exact ho
  refine ⟨heldAt_update p n none _ ▸ hheld, fun m o ho => hp.key m o (hkept m o ho),
    fun m o ho e he hfd => ?_, fun m o ho => hp.named m o (hkept m o ho)⟩
  exact (hp.held.release_other (fun _ _ h => h) n (by decide)).mpr
    (hp.progs m o (hkept m o ho) e he hfd)

/-! ## What a step does -/

/-- What a load leaves open that nobody closes. -/
def LoadedObj.left (l : LoadedObj) : List (Int × File) :=
  l.asked.filter fun e => 0 ≤ e.1 ∧ ¬ e.2.Managed ∧ (e.2 = .program → 0 ≤ l.ret)

/-- What a call leaves open for good. -/
def LoadRequest.left (c : LoadRequest) : List (Int × File) :=
  if !c.answers.elfVersion then []
  else (loadObject c.answers c.file c.prior).elim [] LoadedObj.left

def ProcessAct.left : ProcessAct → List (Int × File)
  | .acquire _ => []
  | .release _ => []
  | .objLoad c => c.left
  | .objectOpen c => c.left.filter fun e => e.2 ≠ .elf
  | .objClose _ => []

/-- What a load changes of the kinds nobody closes. -/
theorem Registered.objLoad_left (hp : Registered p) (h : p.iuObjLoad c = some (ret, p'))
    (hk : ¬ k.Managed) :
    p'.table fd = some k ↔ p.table fd = some k ∨ (fd, k) ∈ c.left := by
  rcases iuObjLoad_cases h with ⟨hversion, -, rfl⟩ | ⟨l, hload, hversion, hunused, rfl, hend⟩
  · rw [LoadRequest.left, hversion]
    simp
  · rw [iuObjLoad_unmanaged hp.held (loadObject_accounted hload) hunused hend hk,
      LoadRequest.left, hversion, hload]
    simp [LoadedObj.left, hk, imp_iff_not_or, and_left_comm]

/-- The process has nothing of its own from a load. -/
theorem notMem_left_own (c : LoadRequest) (fd : Int) : (fd, File.own) ∉ c.left := by
  intro hmem
  unfold LoadRequest.left at hmem
  split at hmem
  · cases hmem
  · cases hload : loadObject c.answers c.file c.prior with
    | none =>
        rw [hload] at hmem
        cases hmem
    | some l =>
        rw [hload] at hmem
        exact (loadObject_accounted hload).notOwn fd (List.mem_filter.mp hmem).1

/-- What `iu_object__elf_finish` closes is the object file of this load. -/
theorem elfFinish (h : p.iuObjLoad c = some (ret, p'))
    (hversion : c.answers.elfVersion = true) :
    (fd ∈ delivered [c.efileFd] ↔ (fd, File.elf) ∈ c.left) ∧
      (fd ∈ delivered [c.efileFd] → p.table fd = none ∧ ∀ k, (fd, k) ∈ c.left → k = .elf) := by
  rcases iuObjLoad_cases h with ⟨hnot, -, -⟩ | ⟨l, hload, -, hunused, rfl, -⟩
  · rw [hversion] at hnot
    cases hnot
  · have hfd : fd ∈ delivered [c.efileFd] ↔ 0 ≤ fd ∧ (fd, File.elf) ∈ l.asked := by
      rw [mem_delivered, List.mem_singleton, loadObject_elf hload, LoadRequest.efileFd,
        if_pos hversion, and_comm]
    have hmanaged : ¬ File.elf.Managed := by decide
    have hleft : c.left = l.left := by
      rw [LoadRequest.left, hversion, hload]
      rfl
    rw [hleft]
    refine ⟨?_, fun hmem => ?_⟩
    · rw [hfd]
      simp [LoadedObj.left, hmanaged, and_comm]
    · obtain ⟨hpos, hasked⟩ := hfd.mp hmem
      exact ⟨hunused.unused _ hasked hpos, fun k hk =>
        hunused.eq_of_mem hpos (List.mem_filter.mp hk).1 hasked⟩

/-- What the process opens had a free number. -/
theorem acquire_other {n : Int} (h : processStep (.acquire n) p = some p') :
    p' = { p with table := Function.update p.table n (some .own) } ∧
      ∀ fd k, k ≠ .own → (p'.table fd = some k ↔ p.table fd = some k) := by
  rw [processStep] at h
  split at h
  · next hfree =>
      obtain rfl := Option.some.inj h
      refine ⟨rfl, fun fd k hown => ?_⟩
      show Function.update p.table n (some .own) fd = some k ↔ _
      rw [Function.update_apply]
      split
      · next heq =>
          rw [heq, Option.isNone_iff_eq_none.mp hfree.2]
          exact iff_of_false (fun h => hown (Option.some.inj h).symm) fun h => by cases h
      · exact Iff.rfl
  · cases h

/-- What it closes is its own. -/
theorem release_other {n : Int} (h : processStep (.release n) p = some p') :
    p' = { p with table := closeAll [n] p.table } ∧
      ∀ fd k, k ≠ .own → (p'.table fd = some k ↔ p.table fd = some k) := by
  rw [processStep] at h
  split at h
  · next hn =>
      obtain rfl := Option.some.inj h
      refine ⟨rfl, fun fd k hown => ?_⟩
      show closeAll [n] p.table fd = some k ↔ _
      rw [closeAll_eq_some_iff, List.mem_singleton]
      refine and_iff_left_of_imp fun hold heq => ?_
      rw [heq, hn] at hold
      exact hown (Option.some.inj hold).symm
  · cases h

/-- `iu_object__open` is a load and the end of its object file. -/
theorem objectOpen_eq (h : processStep (.objectOpen c) p = some p') :
    ∃ ret q, p.iuObjLoad c = some (ret, q) ∧
      p' = { q with table := closeAll (delivered [c.efileFd]) q.table } := by
  obtain ⟨⟨ret, q⟩, hopen, rfl⟩ := Option.map_eq_some_iff.mp h
  obtain ⟨⟨ret', q'⟩, hload, hq⟩ := Option.map_eq_some_iff.mp hopen
  obtain ⟨rfl, rfl⟩ := Prod.mk.inj hq
  exact ⟨ret', q', hload, rfl⟩

/-- **What a step changes of the kinds nobody closes.** -/
theorem Registered.step_left (hp : Registered p) {act : ProcessAct}
    (hstep : processStep act p = some p') (hready : act.ElfReady) (hk : ¬ k.Managed)
    (hown : k ≠ .own) :
    p'.table fd = some k ↔ p.table fd = some k ∨ (fd, k) ∈ act.left := by
  cases act with
  | acquire n =>
      rw [ProcessAct.left, or_iff_left List.not_mem_nil]
      exact (acquire_other hstep).2 fd k hown
  | release n =>
      rw [ProcessAct.left, or_iff_left List.not_mem_nil]
      exact (release_other hstep).2 fd k hown
  | objLoad c =>
      obtain ⟨⟨ret, q⟩, hload, rfl⟩ := Option.map_eq_some_iff.mp hstep
      exact hp.objLoad_left hload hk
  | objectOpen c =>
      obtain ⟨ret, q, hload, rfl⟩ := objectOpen_eq hstep
      obtain ⟨hfile, hnew⟩ := elfFinish hload hready
      show closeAll _ q.table fd = some k ↔ _
      rw [closeAll_eq_some_iff, hp.objLoad_left hload hk, ProcessAct.left, List.mem_filter,
        decide_eq_true_eq]
      by_cases hmem : fd ∈ delivered [c.efileFd]
      · -- the object file is closed, and nothing else was under its number
        obtain ⟨hnone, honly⟩ := hnew hmem
        rw [hnone]
        refine iff_of_false (fun h => h.2 hmem) ?_
        rintro (h | ⟨hleft, hne⟩)
        · cases h
        · exact hne (honly k hleft)
      · rw [and_iff_left hmem]
        refine or_congr_right (and_iff_left_of_imp fun hleft => ?_).symm
        rintro rfl
        exact hmem (hfile.mpr hleft)
  | objClose n =>
      obtain rfl := Option.some.inj hstep
      rw [ProcessAct.left, or_iff_left List.not_mem_nil, iuObjClose_eq]
      exact hp.held.release_other (fun _ _ h => h) n hk

/-- **What a step does to the process's own.** -/
theorem Registered.step_own (hp : Registered p) {act : ProcessAct}
    (hstep : processStep act p = some p') (hready : act.ElfReady) : p'.own = act.own p.own := by
  have hlibrary : (∀ fd, p'.table fd = some .own ↔ p.table fd = some .own) → p'.own = p.own :=
    fun h => funext fun fd => decide_eq_decide.mpr (h fd)
  cases act with
  | acquire n =>
      obtain ⟨rfl, -⟩ := acquire_other hstep
      funext fd
      show decide (Function.update p.table n (some .own) fd = some .own) = _
      rw [ProcessAct.own, Function.update_apply, Function.update_apply]
      split
      · exact decide_eq_true rfl
      · rfl
  | release n =>
      obtain ⟨rfl, -⟩ := release_other hstep
      funext fd
      show decide (closeAll [n] p.table fd = some .own) = _
      rw [ProcessAct.own, Function.update_apply]
      split
      · next heq =>
          rw [decide_eq_false_iff_not, closeAll_eq_some_iff]
          exact fun h => h.2 (List.mem_singleton.mpr heq)
      · next hne =>
          apply decide_eq_decide.mpr
          rw [closeAll_eq_some_iff, List.mem_singleton, and_iff_left hne]
  | objLoad c =>
      obtain ⟨⟨ret, q⟩, hload, rfl⟩ := Option.map_eq_some_iff.mp hstep
      refine hlibrary fun fd => ?_
      rw [hp.objLoad_left hload (by decide), or_iff_left (notMem_left_own c fd)]
  | objectOpen c =>
      obtain ⟨ret, q, hload, rfl⟩ := objectOpen_eq hstep
      refine hlibrary fun fd => ?_
      show closeAll _ q.table fd = some .own ↔ _
      rw [closeAll_eq_some_iff, hp.objLoad_left hload (by decide),
        or_iff_left (notMem_left_own c fd)]
      refine and_iff_left_of_imp fun hold hmem => ?_
      rw [((elfFinish hload hready).2 hmem).1] at hold
      cases hold
  | objClose n =>
      obtain rfl := Option.some.inj hstep
      refine hlibrary fun fd => ?_
      rw [iuObjClose_eq]
      exact hp.held.release_other (fun _ _ h => h) n (by decide)

/-- **A step keeps the registry.** -/
theorem Registered.step (hp : Registered p) {act : ProcessAct}
    (hstep : processStep act p = some p') (hready : act.ElfReady) : Registered p' := by
  cases act with
  | acquire n =>
      obtain ⟨rfl, hother⟩ := acquire_other hstep
      refine hp.table (fun fd k hk => hother fd k ?_) fun fd => (hother fd _ (by decide)).mpr
      rintro rfl
      exact absurd hk (by decide)
  | release n =>
      obtain ⟨rfl, hother⟩ := release_other hstep
      refine hp.table (fun fd k hk => hother fd k ?_) fun fd => (hother fd _ (by decide)).mpr
      rintro rfl
      exact absurd hk (by decide)
  | objLoad c =>
      obtain ⟨⟨ret, q⟩, hload, rfl⟩ := Option.map_eq_some_iff.mp hstep
      exact hp.iuObjLoad hload
  | objectOpen c =>
      obtain ⟨ret, q, hload, rfl⟩ := objectOpen_eq hstep
      have hq := hp.iuObjLoad hload
      -- what is closed is an object file
      have hfile : ∀ fd ∈ delivered [c.efileFd], q.table fd = some .elf := fun fd hmem =>
        (hp.objLoad_left hload (by decide)).mpr (.inr ((elfFinish hload hready).1.mp hmem))
      have hother : ∀ fd k, k ≠ .elf →
          (closeAll (delivered [c.efileFd]) q.table fd = some k ↔ q.table fd = some k) := by
        intro fd k helf
        rw [closeAll_eq_some_iff]
        refine and_iff_left_of_imp fun hold hmem => ?_
        rw [hfile fd hmem] at hold
        exact helf (Option.some.inj hold).symm
      refine hq.table (fun fd k hk => hother fd k ?_) fun fd => (hother fd _ (by decide)).mpr
      rintro rfl
      exact absurd hk (by decide)
  | objClose n =>
      obtain rfl := Option.some.inj hstep
      exact hp.iuObjClose n

/-! ## Whole runs -/

/-- What the library gives out and what it owes, after the acts of a run. -/
structure Kept (own₀ : Int → Bool) (acts : List ProcessAct) (p : Process) : Prop where
  /-- The process has of its own what it has opened and not closed. -/
  own : p.own = acts.foldl (fun own act => act.own own) own₀
  base : ∀ fd, p.table fd = some .base ↔ ∃ o, p.objs fd = some o ∧ o.progFd = fd
  map : ∀ fd, p.table fd = some .map ↔ 0 ≤ fd ∧ ∃ n o, p.objs n = some o ∧ fd ∈ o.image.mapFds
  once : ∀ n m o o' fd, p.objs n = some o → p.objs m = some o' → 0 ≤ fd →
    fd ∈ o.image.mapFds → fd ∈ o'.image.mapFds → n = m
  left : ∀ fd k, k = .elf ∨ k = .rustOut ∨ k = .program →
    (p.table fd = some k ↔ (fd, k) ∈ acts.flatMap ProcessAct.left)
  getMap : ∀ n name, p.iuObjGetMap n name = -1 ∨ ∃ o e, p.objs n = some o ∧
    e ∈ o.image.elf.maps.mapDefs ∧ e.2.name = name ∧
    p.iuObjGetMap n name = o.image.fix.mapFd e.1 ∧ p.table (p.iuObjGetMap n name) = some .map
  getProg : ∀ n name, p.iuObjGetProg n name < 0 ∨ ∃ o prog, p.objs n = some o ∧
    (name, prog) ∈ o.image.elf.progs.progs ∧ p.iuObjGetProg n name = prog.fd ∧
    p.table (p.iuObjGetProg n name) = some .program
  /-- Of an object with a base program everything is found. -/
  found : ∀ n o, p.objs n = some o → 0 ≤ o.progFd → o.progFd = n ∧
    (∀ e ∈ o.image.elf.maps.mapDefs, p.iuObjGetMap n e.2.name ≠ -1) ∧
    ∀ e ∈ o.image.elf.progs.progs, 0 ≤ p.iuObjGetProg n e.1

theorem mem_heldAt {n : Int} :
    (fd, k) ∈ p.heldAt n ↔ ∃ o, p.objs n = some o ∧ (fd, k) ∈ o.held := by
  unfold Process.heldAt
  cases p.objs n with
  | none => simp
  | some o => simp

/-- An object that is found complete is under the descriptor of its base program. -/
theorem Registered.complete (hp : Registered p) {n : Int} {o : Obj} (ho : p.objs n = some o)
    (hfd : 0 ≤ o.progFd) : o.progFd = n ∧ o.Complete := by
  rcases hp.key n o ho with ⟨hkey, -, hcomplete⟩ | ⟨-, hnil⟩
  · exact ⟨hkey, hcomplete⟩
  · have hmem : (o.progFd, File.base) ∈ o.held := mem_held_iff.mpr ⟨hfd, .inl ⟨rfl, rfl⟩⟩
    rw [hnil] at hmem
    cases hmem

theorem Registered.getMap_cases (hp : Registered p) (n : Int) (name : String) :
    p.iuObjGetMap n name = -1 ∨ ∃ o e, p.objs n = some o ∧
      e ∈ o.image.elf.maps.mapDefs ∧ e.2.name = name ∧
      p.iuObjGetMap n name = o.image.fix.mapFd e.1 ∧
      p.table (p.iuObjGetMap n name) = some .map := by
  unfold Process.iuObjGetMap
  cases ho : p.objs n with
  | none => exact .inl rfl
  | some o =>
      simp only
      unfold Obj.findMapByName
      cases hv : valueAt name o.image.fix.name2map with
      | none => exact .inl rfl
      | some v =>
          obtain ⟨m, hm, hname, hfd⟩ := hp.named n o ho _ (mem_of_valueAt hv)
          refine .inr ⟨o, (v, m), rfl, hm, hname, rfl, ?_⟩
          have hheld : (o.image.fix.mapFd v, File.map) ∈ o.held :=
            mem_held_iff.mpr ⟨hfd, .inr ⟨rfl, List.mem_map.mpr ⟨_, hm, rfl⟩⟩⟩
          exact hp.held.isOpen (mem_heldAt.mpr ⟨o, ho, hheld⟩)

theorem Registered.getProg_cases (hp : Registered p) (n : Int) (name : String) :
    p.iuObjGetProg n name < 0 ∨ ∃ o prog, p.objs n = some o ∧
      (name, prog) ∈ o.image.elf.progs.progs ∧ p.iuObjGetProg n name = prog.fd ∧
      p.table (p.iuObjGetProg n name) = some .program := by
  unfold Process.iuObjGetProg
  cases ho : p.objs n with
  | none => exact .inl (show (-1 : Int) < 0 by omega)
  | some o =>
      simp only
      unfold Obj.findProgByName
      cases hprog : valueAt name o.image.elf.progs.progs with
      | none => exact .inl (show (-1 : Int) < 0 by omega)
      | some prog =>
          have hmem := mem_of_valueAt hprog
          rcases Int.lt_or_le prog.fd 0 with hneg | hfd
          · exact .inl hneg
          · exact .inr ⟨o, prog, rfl, hmem, rfl, hp.progs n o ho _ hmem hfd⟩

theorem Registered.found (hp : Registered p) {n : Int} {o : Obj} (ho : p.objs n = some o)
    (hfd : 0 ≤ o.progFd) : o.progFd = n ∧
      (∀ e ∈ o.image.elf.maps.mapDefs, p.iuObjGetMap n e.2.name ≠ -1) ∧
      ∀ e ∈ o.image.elf.progs.progs, 0 ≤ p.iuObjGetProg n e.1 := by
  obtain ⟨hkey, hcomplete⟩ := hp.complete ho hfd
  refine ⟨hkey, fun e he => ?_, fun e he => ?_⟩
  · obtain ⟨v, hv⟩ := Option.isSome_iff_exists.mp (hcomplete.maps e he)
    obtain ⟨m, -, -, hpos⟩ := hp.named n o ho _ (mem_of_valueAt hv)
    unfold Process.iuObjGetMap
    simp only [ho, Obj.findMapByName, hv]
    intro heq
    have hpos' : 0 ≤ o.image.fix.mapFd v := hpos
    omega
  · have hkey := valueAt_isSome_iff.mpr (List.mem_map_of_mem he)
    obtain ⟨prog, hprog⟩ := Option.isSome_iff_exists.mp hkey
    unfold Process.iuObjGetProg
    simp only [ho, Obj.findProgByName, hprog]
    exact hcomplete.progs _ (mem_of_valueAt hprog)

/-- **In every run the library closes nothing of the process's own, what is open of base programs
and maps belongs to one registered object each, what it has left behind stays, and what it answers
is open.** -/
theorem run_kept {table : FdTable File} (htable : ∀ fd k, table fd = some k → k = .own)
    {tr : List (Transition Process ProcessAct)}
    (h : Exec processStep ⟨table, fun _ => none⟩ tr p) (hready : ∀ x ∈ tr, x.act.ElfReady) :
    Kept (Process.own ⟨table, fun _ => none⟩) (tr.map Transition.act) p := by
  have hstart : Registered ⟨table, fun _ => none⟩ := by
    refine ⟨⟨fun n e he => (by cases he), fun fd k hk => ?_, fun n m fd k k' hn => (by cases hn)⟩,
      fun n o ho => (by cases ho), fun n o ho => (by cases ho), fun n o ho => (by cases ho)⟩
    refine iff_of_false (fun hfd => ?_) fun ⟨n, hn⟩ => by cases hn
    rw [htable fd k hfd] at hk
    exact absurd hk (by decide)
  -- the induction carries the registry, the process's own and what has been left
  obtain ⟨hp, hown, hleft⟩ := h.traced
    (I := fun tr p => Registered p ∧
      p.own = (tr.map Transition.act).foldl (fun own act => act.own own)
        (Process.own ⟨table, fun _ => none⟩) ∧
      ∀ fd k, ¬ k.Managed → k ≠ .own →
        (p.table fd = some k ↔ (fd, k) ∈ (tr.map Transition.act).flatMap ProcessAct.left))
    (C := fun x => x.act.ElfReady)
    ⟨hstart, rfl, fun fd k _ hown => iff_of_false (fun hfd => hown (htable fd k hfd))
      List.not_mem_nil⟩
    (fun tr x hstep hx ⟨hp, hown, hleft⟩ => by
      refine ⟨hp.step hstep hx, ?_, fun fd k hk hne => ?_⟩
      · rw [hp.step_own hstep hx, hown, List.map_append, List.foldl_append]
        rfl
      · rw [hp.step_left hstep hx hk hne, hleft fd k hk hne, List.map_append, List.flatMap_append,
          List.mem_append, List.map_singleton, List.flatMap_singleton])
    hready
  refine ⟨hown, fun fd => ?_, fun fd => ?_, fun n m o o' fd ho ho' hfd hn hm => ?_,
    fun fd k hk => hleft fd k ?_ ?_, hp.getMap_cases, hp.getProg_cases,
    fun n o ho hfd => hp.found ho hfd⟩
  · rw [hp.held.held fd .base (by decide)]
    constructor
    · rintro ⟨n, hn⟩
      obtain ⟨o, ho, hmem⟩ := mem_heldAt.mp hn
      obtain ⟨hfd, ⟨-, heq⟩ | ⟨hk, -⟩⟩ := mem_held_iff.mp hmem
      · rw [heq, (hp.complete ho (heq ▸ hfd)).1]
        exact ⟨o, ho, (hp.complete ho (heq ▸ hfd)).1⟩
      · cases hk
    · rintro ⟨o, ho, hfd⟩
      refine ⟨fd, mem_heldAt.mpr ⟨o, ho, mem_held_iff.mpr ⟨?_, .inl ⟨rfl, hfd.symm⟩⟩⟩⟩
      rcases hp.key fd o ho with ⟨-, hpos, -⟩ | ⟨rfl, -⟩
      · exact hpos
      · decide
  · rw [hp.held.held fd .map (by decide)]
    constructor
    · rintro ⟨n, hn⟩
      obtain ⟨o, ho, hmem⟩ := mem_heldAt.mp hn
      obtain ⟨hfd, ⟨hk, -⟩ | ⟨-, hmap⟩⟩ := mem_held_iff.mp hmem
      · cases hk
      · exact ⟨hfd, n, o, ho, hmap⟩
    · rintro ⟨hfd, n, o, ho, hmap⟩
      exact ⟨n, mem_heldAt.mpr ⟨o, ho, mem_held_iff.mpr ⟨hfd, .inr ⟨rfl, hmap⟩⟩⟩⟩
  · apply hp.held.once n m fd .map .map
    · exact mem_heldAt.mpr ⟨o, ho, mem_held_iff.mpr ⟨hfd, .inr ⟨rfl, hn⟩⟩⟩
    · exact mem_heldAt.mpr ⟨o', ho', mem_held_iff.mpr ⟨hfd, .inr ⟨rfl, hm⟩⟩⟩
  · rcases hk with rfl | rfl | rfl
    all_goals decide
  · rcases hk with rfl | rfl | rfl
    all_goals decide

/-- An object with a program and a map. -/
def mapFile : ElfFile where
  elf := true
  ehdr := true
  shstrndx := true
  scns := [⟨0, some ⟨0, 0, 0⟩, some "", none⟩,
    ⟨1, some ⟨1, 0x1000, 64⟩, some "xdp", some ⟨0x5000, []⟩⟩,
    ⟨2, some ⟨1, 0x2000, 32⟩, some ".maps", some ⟨0x10000, []⟩⟩,
    ⟨3, some ⟨2, 0, 72⟩, some ".symtab",
      some ⟨0x6000, [⟨"", 0, 0, 0, 0⟩, ⟨"filter", 0x12, 1, 0x1000, 64⟩,
        ⟨"counts", 0x11, 2, 0x2000, 32⟩]⟩⟩]

/-- It gets the descriptors 3 to 7: the file, the map, `rust.out`, the base program and the
program. -/
def mapRequest : LoadRequest where
  answers :=
    { env := { plainEnv with mem := twoMaps }
      elfVersion := true
      elfFd := 3
      mapped := true
      file := fun _ => 0
      shOffset := fun _ => 0x1000
      mapFds := fun _ => 4
      mapOrder := id
      mapOrder_perm := fun _ => List.Perm.refl _
      load := ⟨5, 6, true, fun _ _ => 7, id⟩
      iterate_perm := fun _ => List.Perm.refl _ }
  file := mapFile
  prior := fun _ => .null

def twoCalls : List ProcessAct := [.acquire 0, .objLoad mapRequest, .objClose 6]

theorem twoCalls_runs :
    (runActions processStep twoCalls ⟨fun _ => none, fun _ => none⟩).isSome := by decide +kernel

theorem run_kept_twoCalls :
    let p := endOf processStep twoCalls _ twoCalls_runs
    [0, 3, 4, 5, 6, 7].map p.table =
        [some .own, some .elf, none, some .rustOut, none, some .program] ∧
      Kept (fun _ => false) twoCalls p := by
  intro p
  have hacts : (runOf processStep twoCalls _ twoCalls_runs).map Transition.act = twoCalls := rfl
  refine ⟨by decide +kernel, ?_⟩
  have hkept := run_kept (fun fd k h => by cases h) (exec_runOf twoCalls_runs) fun x hx => ?_
  · rw [hacts] at hkept
    exact hkept
  · have hmem : x.act ∈ twoCalls := hacts ▸ List.mem_map_of_mem hx
    simp only [twoCalls, List.mem_cons, List.not_mem_nil, or_false] at hmem
    rcases hmem with h | h | h
    all_goals
      rw [h]
      trivial

end KernelDev.Loader
