/-
# KernelDev.Loader.Load — how `iu_obj_load` chains its stages

Loading an object runs six stages over an `iu_obj`: four of `parse_elf`, `fix_maps` and `load`.
Every stage reports failure by a negative number. The stages are parameters here, so that what
follows holds of every input and every combination of outcomes; the chaining is the source's.

The chaining uses the GNU operator `x ?: y`, whose value is `x` itself when `x` is not zero.
`iu_obj_load` writes `ret ?: stage`, which keeps a negative result. `parse_elf` writes
`ret < 0 ?: stage`, whose value after a failure is the truth value `1`: the failure is forgotten.
-/
import KernelDev.Lib.Pipeline
import Mathlib.Logic.Function.Basic

namespace KernelDev.Loader

open KernelDev.Lib

variable {σ : Type*}

/-! ## The stages -/

inductive Stage
  | parseScns
  | parseMaps
  | parseProgs
  | parseRelaDyn
  | fixMaps
  | load
  deriving DecidableEq, Repr

/-- An `iu_obj` with the `bpf_object` it fills in. `image` is all that the stages read and write but
`prog_fd`. -/
structure IuObj (σ : Type*) where
  image : σ
  progFd : Int
  /-- History: what the kernel answered to each `BPF_PROG_LOAD_IU_BASE`. -/
  baseAnswers : List Int
  deriving DecidableEq, Repr

/-- What the stages do. Those before `load` return zero or an error. -/
structure Stages (σ : Type*) where
  parseScns : σ → Int × σ
  parseMaps : σ → Int × σ
  parseProgs : σ → Int × σ
  parseRelaDyn : σ → Int × σ
  fixMaps : σ → Int × σ
  /-- The kernel's answer to `BPF_PROG_LOAD_IU_BASE`. -/
  bpfProgLoadIuBase : σ → Int
  /-- The rest of `load`, with the base program's fd: remove `rust.out` and load every program.
  `false` is a `goto close_fds`. -/
  loadProgs : Int → σ → Bool × σ
  parseScns_le : ∀ s, (parseScns s).1 ≤ 0
  parseMaps_le : ∀ s, (parseMaps s).1 ≤ 0
  parseProgs_le : ∀ s, (parseProgs s).1 ≤ 0
  parseRelaDyn_le : ∀ s, (parseRelaDyn s).1 ≤ 0
  fixMaps_le : ∀ s, (fixMaps s).1 ≤ 0

namespace Stages

variable (st : Stages σ)

/-- `iu_obj::load`. -/
def load (o : IuObj σ) : Int × IuObj σ :=
  let ret := st.bpfProgLoadIuBase o.image
  let o := { o with baseAnswers := o.baseAnswers ++ [ret] }
  if ret < 0 then (-1, o)
  else
    let (done, image) := st.loadProgs ret o.image
    let o := { o with progFd := ret, image := image }
    if done then (ret, o) else (-1, o)

/-- A stage that works on the image. -/
def onImage (f : σ → Int × σ) (o : IuObj σ) : Int × IuObj σ :=
  ((f o.image).1, { o with image := (f o.image).2 })

def run : Stage → IuObj σ → Int × IuObj σ
  | .parseScns => onImage st.parseScns
  | .parseMaps => onImage st.parseMaps
  | .parseProgs => onImage st.parseProgs
  | .parseRelaDyn => onImage st.parseRelaDyn
  | .fixMaps => onImage st.fixMaps
  | .load => st.load

theorem run_nonpos {i : Stage} (hi : i ≠ .load) (o : IuObj σ) : (st.run i o).1 ≤ 0 := by
  cases i with
  | parseScns => exact st.parseScns_le o.image
  | parseMaps => exact st.parseMaps_le o.image
  | parseProgs => exact st.parseProgs_le o.image
  | parseRelaDyn => exact st.parseRelaDyn_le o.image
  | fixMaps => exact st.fixMaps_le o.image
  | load => exact absurd rfl hi

theorem run_baseAnswers {i : Stage} (hi : i ≠ .load) (o : IuObj σ) :
    (st.run i o).2.baseAnswers = o.baseAnswers := by
  cases i with
  | load => exact absurd rfl hi
  | _ => rfl

/-- A `load` that does not fail has a base program and has loaded every program. -/
theorem load_eq_of_nonneg {o : IuObj σ} (h : 0 ≤ (st.load o).1) :
    ∃ image, st.loadProgs (st.bpfProgLoadIuBase o.image) o.image = (true, image) ∧
      st.load o = (st.bpfProgLoadIuBase o.image,
        { o with
          baseAnswers := o.baseAnswers ++ [st.bpfProgLoadIuBase o.image]
          progFd := st.bpfProgLoadIuBase o.image
          image := image }) := by
  unfold load at h ⊢
  simp only at h ⊢
  split at h
  · exact absurd h (by simp)
  next hret =>
  rw [if_neg hret]
  split at h
  · next hdone =>
      rw [if_pos hdone]
      exact ⟨_, Prod.ext hdone rfl, rfl⟩
  · exact absurd h (by simp)

/-- **A `load` that does not fail returns what the kernel answered, and keeps it in `prog_fd`.** -/
theorem load_nonneg {o : IuObj σ} (h : 0 ≤ (st.load o).1) :
    (st.load o).2.progFd = (st.load o).1 ∧
      (st.load o).2.baseAnswers = o.baseAnswers ++ [(st.load o).1] := by
  obtain ⟨image, -, hload⟩ := st.load_eq_of_nonneg h
  rw [hload]
  exact ⟨rfl, rfl⟩

theorem load_loadProgs {o : IuObj σ} (h : 0 ≤ (st.load o).1) :
    st.loadProgs (st.load o).1 o.image = (true, (st.load o).2.image) := by
  obtain ⟨image, hprogs, hload⟩ := st.load_eq_of_nonneg h
  rw [hload]
  exact hprogs

end Stages

/-! ## The chain -/

/-- A load under way: the object and the stages run so far. -/
structure LoadRun (σ : Type*) where
  obj : IuObj σ
  calls : List (Stage × Int)
  deriving DecidableEq, Repr

/-- Run a stage and note it. -/
def Stages.call (st : Stages σ) (i : Stage) (r : LoadRun σ) : Int × LoadRun σ :=
  ((st.run i r.obj).1, ⟨(st.run i r.obj).2, r.calls ++ [(i, (st.run i r.obj).1)]⟩)

/-- GNU C's `x ?: y`. -/
def elvis (x : Int) (y : LoadRun σ → Int × LoadRun σ) (r : LoadRun σ) : Int × LoadRun σ :=
  if x ≠ 0 then (x, r) else y r

/-- The value of the C expression `ret < 0`. -/
def isNegative (ret : Int) : Int := if ret < 0 then 1 else 0

/-- `iu_obj::parse_elf`; `elf` says whether `elf_begin` delivered a handle. -/
def parseElf (st : Stages σ) (elf : Bool) (r : LoadRun σ) : Int × LoadRun σ :=
  if !elf then (-1, r)
  else
    let (ret, r) := st.call .parseScns r
    let (ret, r) := elvis (isNegative ret) (st.call .parseMaps) r
    let (ret, r) := elvis (isNegative ret) (st.call .parseProgs) r
    elvis (isNegative ret) (st.call .parseRelaDyn) r

/-- What `iu_obj_load` is called with: whether libelf initialises and opens the file, and the
contents. -/
structure Input (σ : Type*) where
  elfVersion : Bool
  elf : Bool
  image : σ

/-- The `iu_obj` as constructed. -/
def Input.obj (inp : Input σ) : IuObj σ := ⟨inp.image, -1, []⟩

/-- What a call returns and leaves behind. -/
structure Loaded (σ : Type*) where
  ret : Int
  run : LoadRun σ
  objs : Int → Option (IuObj σ)

/-- `iu_obj_load`, with the registry `objs` before. -/
def iuObjLoad (st : Stages σ) (inp : Input σ) (objs : Int → Option (IuObj σ)) : Loaded σ :=
  if !inp.elfVersion then ⟨-1, ⟨inp.obj, []⟩, objs⟩
  else
    let (ret, r) := parseElf st inp.elf ⟨inp.obj, []⟩
    let (ret, r) := elvis ret (st.call .fixMaps) r
    let (ret, r) := elvis ret (st.call .load) r
    ⟨ret, r, if 0 ≤ ret then Function.update objs ret (some r.obj) else objs⟩

/-- The stages in the order they are meant to run. -/
def stagesInOrder : List Stage :=
  [.parseScns, .parseMaps, .parseProgs, .parseRelaDyn, .fixMaps, .load]

/-- What a caller relies on. -/
structure ErrorsPropagate (l : Loaded σ) : Prop where
  /-- No stage runs after a failed one. -/
  stops : l.run.calls.Pairwise fun c _ => 0 ≤ c.2
  negative : ∀ c ∈ l.run.calls, c.2 < 0 → l.ret < 0
  complete : 0 ≤ l.ret →
    l.run.calls.map Prod.fst = stagesInOrder ∧ ∀ c ∈ l.run.calls, 0 ≤ c.2
  /-- The result is the fd the kernel returned for the base program. -/
  baseFd : 0 ≤ l.ret → l.run.obj.baseAnswers = [l.ret]
  registered : 0 ≤ l.ret → l.objs l.ret = some l.run.obj ∧ l.run.obj.progFd = l.ret

/-- None of the first three stages fails. -/
def EarlyStagesPass (st : Stages σ) (image : σ) : Prop :=
  0 ≤ (st.parseScns image).1 ∧
    0 ≤ (st.parseMaps (st.parseScns image).2).1 ∧
      0 ≤ (st.parseProgs (st.parseMaps (st.parseScns image).2).2).1

/-! ## The chain as a pipeline -/

section Chain

variable (st : Stages σ)

@[simp] theorem isNegative_zero : isNegative 0 = 0 := rfl

theorem isNegative_of_neg {ret : Int} (h : ret < 0) : isNegative ret = 1 := if_pos h

@[simp] theorem elvis_zero (y : LoadRun σ → Int × LoadRun σ) (r : LoadRun σ) :
    elvis 0 y r = y r := rfl

theorem elvis_of_ne {x : Int} (hx : x ≠ 0) (y : LoadRun σ → Int × LoadRun σ) (r : LoadRun σ) :
    elvis x y r = (x, r) := if_pos hx

/-- What `ret < 0 ?: stage` comes to. -/
theorem elvis_isNegative (ret : Int) (y : LoadRun σ → Int × LoadRun σ) (r : LoadRun σ) :
    elvis (isNegative ret) y r = if ret < 0 then (1, r) else y r := by
  by_cases hneg : ret < 0
  · rw [if_pos hneg, isNegative_of_neg hneg, elvis_of_ne Int.one_ne_zero]
  · have hzero : isNegative ret = 0 := if_neg hneg
    rw [if_neg hneg, hzero, elvis_zero]

/-- Stages run are never taken back. -/
theorem call_extends (i : Stage) (r : LoadRun σ) : r.calls <+: (st.call i r).2.calls :=
  List.prefix_append _ _

theorem elvis_call_extends (x : Int) (i : Stage) (r : LoadRun σ) :
    r.calls <+: (elvis x (st.call i) r).2.calls := by
  unfold elvis
  split
  · exact List.prefix_rfl
  · exact call_extends st i r

/-- What `iu_obj_load` does after `parse_elf` keeps the stages that ran. -/
theorem parseElf_calls_extends {inp : Input σ} (objs : Int → Option (IuObj σ))
    (hversion : inp.elfVersion = true) :
    (parseElf st inp.elf ⟨inp.obj, []⟩).2.calls <+: (iuObjLoad st inp objs).run.calls := by
  simp only [iuObjLoad, hversion, Bool.not_true, Bool.false_eq_true, if_false]
  exact (elvis_call_extends st _ _ _).trans (elvis_call_extends st _ _ _)

/-- The chain as `iu_obj_load` writes it: `ret = ret ?: stage` for one stage after the other. -/
def chain (is : List Stage) (p : Int × LoadRun σ) : Int × LoadRun σ :=
  is.foldl (fun p i => elvis p.1 (st.call i) p.2) p

theorem chain_of_ne (is : List Stage) {p : Int × LoadRun σ} (hp : p.1 ≠ 0) : chain st is p = p := by
  induction is with
  | nil => rfl
  | cons i is ih =>
      show chain st is (elvis p.1 (st.call i) p.2) = p
      rw [elvis_of_ne hp]
      exact ih

/-- Written that way, the stages are a pipeline: before `load`, what is not a failure is zero. -/
theorem chain_eq_pipeline (is : List Stage) (hload : ∀ i ∈ is.dropLast, i ≠ .load) (r : LoadRun σ) :
    chain st is (0, r) = ((pipeline st.run is 0 r.obj).ret,
      ⟨(pipeline st.run is 0 r.obj).state, r.calls ++ (pipeline st.run is 0 r.obj).calls⟩) := by
  induction is generalizing r with
  | nil => simp [chain]
  | cons i is ih =>
      show chain st is (st.call i r) = _
      rcases Int.lt_or_le (st.run i r.obj).1 0 with hneg | hpass
      · rw [pipeline_cons_fails st.run is 0 hneg,
          chain_of_ne st is (p := st.call i r) (Int.ne_of_lt hneg)]
        rfl
      · rw [pipeline_cons_passes st.run is 0 hpass]
        cases is with
        | nil => rfl
        | cons j js =>
            -- a stage with others behind it is not `load`, so passing means returning zero
            have hzero : (st.run i r.obj).1 = 0 :=
              Int.le_antisymm (st.run_nonpos (hload i (by simp)) r.obj) hpass
            have hrest := ih (fun k hk => hload k (by simp [hk])) (st.call i r).2
            have hcall : st.call i r = (0, (st.call i r).2) := by
              rw [Stages.call, hzero]
            rw [hcall, hrest, hzero]
            simp [Stages.call, hzero]

/-- When the early stages pass, the way `parse_elf` writes the chain makes no difference. -/
theorem parseElf_eq_chain (r : LoadRun σ) (hpass : EarlyStagesPass st r.obj.image) :
    parseElf st true r = chain st [.parseScns, .parseMaps, .parseProgs, .parseRelaDyn] (0, r) := by
  have hscns : (st.call .parseScns r).1 = 0 := Int.le_antisymm (st.parseScns_le _) hpass.1
  have hmaps : (st.call .parseMaps (st.call .parseScns r).2).1 = 0 :=
    Int.le_antisymm (st.parseMaps_le _) hpass.2.1
  have hprogs :
      (st.call .parseProgs (st.call .parseMaps (st.call .parseScns r).2).2).1 = 0 :=
    Int.le_antisymm (st.parseProgs_le _) hpass.2.2
  simp only [parseElf, chain, List.foldl_cons, List.foldl_nil, hscns, hmaps, hprogs,
    isNegative_zero, elvis_zero, Bool.not_true, Bool.false_eq_true, if_false]

/-- **When the early stages pass, `iu_obj_load` is the pipeline of its six stages.** -/
theorem iuObjLoad_eq_pipeline {inp : Input σ} (objs : Int → Option (IuObj σ))
    (hversion : inp.elfVersion = true) (helf : inp.elf = true)
    (hpass : EarlyStagesPass st inp.image) :
    iuObjLoad st inp objs =
      let p := pipeline st.run stagesInOrder 0 inp.obj
      ⟨p.ret, ⟨p.state, p.calls⟩,
        if 0 ≤ p.ret then Function.update objs p.ret (some p.state) else objs⟩ := by
  have hchain : chain st stagesInOrder (0, ⟨inp.obj, []⟩) =
      chain st [.fixMaps, .load] (parseElf st inp.elf ⟨inp.obj, []⟩) := by
    rw [helf, parseElf_eq_chain st _ hpass]
    rfl
  have hload : iuObjLoad st inp objs =
      let q := chain st stagesInOrder (0, ⟨inp.obj, []⟩)
      ⟨q.1, q.2, if 0 ≤ q.1 then Function.update objs q.1 (some q.2.obj) else objs⟩ := by
    rw [hchain, iuObjLoad, if_neg (by simp [hversion])]
    rfl
  rw [hload, chain_eq_pipeline st stagesInOrder (by decide)]
  simp

end Chain

/-! ## What a failure in `parse_elf` turns into -/

section Failures

variable (st : Stages σ)

/-- After `parse_scns` has failed, `parse_progs` runs. -/
theorem parseElf_parseScns_fails {r : LoadRun σ} (h : (st.call .parseScns r).1 < 0) :
    parseElf st true r =
      let q := st.call .parseProgs (st.call .parseScns r).2
      elvis (isNegative q.1) (st.call .parseRelaDyn) q.2 := by
  simp only [parseElf, isNegative_of_neg h, elvis_of_ne (x := 1) (by decide), Bool.not_true,
    Bool.false_eq_true, if_false]
  rfl

/-- After `parse_maps` has failed, `parse_rela_dyn` runs. -/
theorem parseElf_parseMaps_fails {r : LoadRun σ} (hscns : (st.call .parseScns r).1 = 0)
    (h : (st.call .parseMaps (st.call .parseScns r).2).1 < 0) :
    parseElf st true r =
      st.call .parseRelaDyn (st.call .parseMaps (st.call .parseScns r).2).2 := by
  simp only [parseElf, hscns, isNegative_zero, elvis_zero, isNegative_of_neg h,
    elvis_of_ne (x := 1) (by decide), Bool.not_true, Bool.false_eq_true, if_false]
  rfl

/-- After `parse_progs` has failed, the result is `1`. -/
theorem parseElf_parseProgs_fails {r : LoadRun σ} (hscns : (st.call .parseScns r).1 = 0)
    (hmaps : (st.call .parseMaps (st.call .parseScns r).2).1 = 0)
    (h : (st.call .parseProgs (st.call .parseMaps (st.call .parseScns r).2).2).1 < 0) :
    parseElf st true r =
      (1, (st.call .parseProgs (st.call .parseMaps (st.call .parseScns r).2).2).2) := by
  simp only [parseElf, hscns, hmaps, isNegative_zero, elvis_zero, isNegative_of_neg h,
    elvis_of_ne (x := 1) (by decide), Bool.not_true, Bool.false_eq_true, if_false]

end Failures

/-! ## When errors propagate -/

section Errors

variable (st : Stages σ)

/-- A pipeline that does not fail ended with `load`, the first to ask the kernel for a base
program. -/
theorem pipeline_load {inp : Input σ}
    (hret : 0 ≤ (pipeline st.run stagesInOrder 0 inp.obj).ret) :
    (pipeline st.run stagesInOrder 0 inp.obj).state.progFd =
        (pipeline st.run stagesInOrder 0 inp.obj).ret ∧
      (pipeline st.run stagesInOrder 0 inp.obj).state.baseAnswers =
        [(pipeline st.run stagesInOrder 0 inp.obj).ret] := by
  let before : List Stage := [.parseScns, .parseMaps, .parseProgs, .parseRelaDyn, .fixMaps]
  let o := (pipeline st.run before 0 inp.obj).state
  have hnone : o.baseAnswers = [] := by
    apply pipeline_invariant st.run (I := fun o => o.baseAnswers = []) _ 0 rfl
    intro i hi o ho
    have hload : i ≠ .load := by
      rintro rfl
      exact absurd hi (by decide)
    rw [st.run_baseAnswers hload, ho]
  obtain ⟨hlast, hstate⟩ := pipeline_last st.run before .load 0 inp.obj hret
  have hload : 0 ≤ (st.load o).1 := hlast ▸ hret
  obtain ⟨hfd, hanswers⟩ := st.load_nonneg hload
  have hlast' : (pipeline st.run stagesInOrder 0 inp.obj).ret = (st.load o).1 := hlast
  have hstate' : (pipeline st.run stagesInOrder 0 inp.obj).state = (st.load o).2 := hstate
  rw [hlast', hstate']
  exact ⟨hfd, by rw [hanswers, hnone]; rfl⟩

/-- A call whose early stages pass propagates every error. -/
theorem errorsPropagate_of_earlyStagesPass {inp : Input σ} (objs : Int → Option (IuObj σ))
    (hversion : inp.elfVersion = true) (helf : inp.elf = true)
    (hpass : EarlyStagesPass st inp.image) : ErrorsPropagate (iuObjLoad st inp objs) := by
  rw [iuObjLoad_eq_pipeline st objs hversion helf hpass]
  constructor
  · exact pipeline_stops st.run _ _ _
  · exact fun c hc hneg => pipeline_negative st.run _ _ _ hc hneg
  · exact fun hret => pipeline_complete st.run _ _ _ hret
  · exact fun hret => (pipeline_load st hret).2
  · intro hret
    refine ⟨?_, (pipeline_load st hret).1⟩
    have hnonneg : 0 ≤ (pipeline st.run stagesInOrder 0 inp.obj).ret := hret
    simp [hnonneg]

/-- A call that does not get as far as the first stage fails. -/
theorem errorsPropagate_of_not_opened {inp : Input σ} (objs : Int → Option (IuObj σ))
    (hopen : ¬ (inp.elfVersion = true ∧ inp.elf = true)) :
    ErrorsPropagate (iuObjLoad st inp objs) := by
  have hload : (iuObjLoad st inp objs).ret = -1 ∧ (iuObjLoad st inp objs).run.calls = [] := by
    cases hversion : inp.elfVersion with
    | false => simp [iuObjLoad, hversion]
    | true =>
        have helf : inp.elf = false := by simpa [hversion] using hopen
        simp [iuObjLoad, parseElf, elvis, hversion, helf]
  have hneg : ¬ 0 ≤ (iuObjLoad st inp objs).ret := by rw [hload.1]; decide
  constructor
  · rw [hload.2]
    exact .nil
  · rw [hload.2]
    simp
  all_goals exact fun hret => absurd hret hneg

/-- Two stages of which the first failed do not both run. -/
theorem ErrorsPropagate.nonneg_of_both_ran {l : Loaded σ} (h : ErrorsPropagate l)
    (cs : List (Stage × Int)) {a b : Stage × Int} (hcs : cs ++ [a, b] <+: l.run.calls) :
    0 ≤ a.2 := by
  have hpair := h.stops.sublist ((List.sublist_append_right cs [a, b]).trans hcs.sublist)
  exact List.rel_of_pairwise_cons hpair List.mem_cons_self

/-- **`iu_obj_load` propagates errors exactly when none of the first three stages fails.** -/
theorem errorsPropagate_iff (inp : Input σ) (objs : Int → Option (IuObj σ)) :
    ErrorsPropagate (iuObjLoad st inp objs) ↔
      (inp.elfVersion = true → inp.elf = true → EarlyStagesPass st inp.image) := by
  constructor
  · intro h hversion helf
    have hran := parseElf_calls_extends st objs hversion
    rw [helf] at hran
    rcases Int.lt_or_le (st.parseScns inp.image).1 0 with hscns | hscns
    · -- `parse_progs` runs after it
      rw [parseElf_parseScns_fails (r := ⟨inp.obj, []⟩) st hscns] at hran
      have hboth := (elvis_call_extends st _ _ _).trans hran
      exact absurd (h.nonneg_of_both_ran [] hboth) (Int.not_le.mpr hscns)
    have hscns₀ := Int.le_antisymm (st.parseScns_le inp.image) hscns
    rcases Int.lt_or_le (st.parseMaps (st.parseScns inp.image).2).1 0 with hmaps | hmaps
    · -- `parse_rela_dyn` runs after it
      rw [parseElf_parseMaps_fails (r := ⟨inp.obj, []⟩) st hscns₀ hmaps] at hran
      exact absurd (h.nonneg_of_both_ran [_] hran) (Int.not_le.mpr hmaps)
    have hmaps₀ := Int.le_antisymm (st.parseMaps_le _) hmaps
    rcases Int.lt_or_le (st.parseProgs (st.parseMaps (st.parseScns inp.image).2).2).1 0 with
      hprogs | hprogs
    · -- no later stage runs, and the caller is told `1`
      have hparse := parseElf_parseProgs_fails (r := ⟨inp.obj, []⟩) st hscns₀ hmaps₀ hprogs
      have hret : (iuObjLoad st inp objs).ret = 1 := by
        simp [iuObjLoad, hversion, helf, hparse, elvis]
      rw [hparse] at hran
      have hmem := hran.subset (List.mem_append_right _ (List.mem_singleton.mpr rfl))
      exact absurd (h.negative _ hmem hprogs) (by rw [hret]; decide)
    exact ⟨hscns, hmaps, hprogs⟩
  · intro hpass
    by_cases hopen : inp.elfVersion = true ∧ inp.elf = true
    · exact errorsPropagate_of_earlyStagesPass st objs hopen.1 hopen.2 (hpass hopen.1 hopen.2)
    · exact errorsPropagate_of_not_opened st objs hopen

/-- `iu_object__open` from the call of `iu_obj_load` on: NULL exactly for a negative result. -/
def iuObjectOpen (inp : Input σ) (objs : Int → Option (IuObj σ)) : Option (IuObj σ) :=
  if (iuObjLoad st inp objs).ret < 0 then none else some (iuObjLoad st inp objs).run.obj

/-- Where errors propagate, an object that is handed out has been loaded: the kernel was asked for
one base program, and its answer is the object's. -/
theorem iuObjectOpen_loaded {inp : Input σ} {objs : Int → Option (IuObj σ)} {o : IuObj σ}
    (h : ErrorsPropagate (iuObjLoad st inp objs)) (ho : iuObjectOpen st inp objs = some o) :
    0 ≤ o.progFd ∧ o.baseAnswers = [o.progFd] ∧ (iuObjLoad st inp objs).objs o.progFd = some o := by
  unfold iuObjectOpen at ho
  split at ho
  · cases ho
  · next hneg =>
      have hret : 0 ≤ (iuObjLoad st inp objs).ret := Int.not_lt.mp hneg
      obtain rfl := Option.some.inj ho
      obtain ⟨hobjs, hfd⟩ := h.registered hret
      rw [hfd]
      exact ⟨hret, h.baseFd hret, hobjs⟩

end Errors

/-- An object whose programs cannot be parsed; everything else would go well. -/
def unparsable : Stages Unit where
  parseScns s := (0, s)
  parseMaps s := (0, s)
  parseProgs s := (-1, s)
  parseRelaDyn s := (0, s)
  fixMaps s := (0, s)
  bpfProgLoadIuBase _ := 3
  loadProgs _ s := (true, s)
  parseScns_le _ := Int.le_refl 0
  parseMaps_le _ := Int.le_refl 0
  parseProgs_le _ := show (-1 : Int) ≤ 0 by decide
  parseRelaDyn_le _ := Int.le_refl 0
  fixMaps_le _ := Int.le_refl 0

/-- It is registered under `1`, without the kernel having been asked for anything. -/
theorem errorsPropagate_fails : ¬ ∀ (st : Stages Unit) (inp : Input Unit) objs,
    ErrorsPropagate (iuObjLoad st inp objs) := by
  intro hall
  have hloaded := hall unparsable ⟨true, true, ()⟩ fun _ => none
  exact absurd (hloaded.negative (.parseProgs, -1) (by decide) (by decide)) (by decide)

end KernelDev.Loader
