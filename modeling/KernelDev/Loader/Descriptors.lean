/-
# KernelDev.Loader.Descriptors — the descriptors `load` obtains, and who closes them

`load` opens `rust.out` for the kernel to read and gets a descriptor for the base program and one
for each program. Its error label closes the programs and the base program; `iu_obj_load` then
destroys the object, whose destructor closes the base program if `prog_fd` is not negative. The
label does not reset `prog_fd`, and nothing closes `rust.out`.

The descriptors of the maps are those of `fix_maps`, and each `iu_map` closes its own.
-/
import KernelDev.Loader.Programs

namespace KernelDev.Loader

open KernelDev.Lib

/-! ## load with its descriptors -/

/-- What the system answers during a `load`. -/
structure LoadAnswers where
  /-- `open("rust.out", O_RDONLY)`. -/
  openFd : Int
  /-- `BPF_PROG_LOAD_IU_BASE`. -/
  base : Int
  /-- `remove("rust.out")` does not fail. -/
  removed : Bool
  /-- The `n`-th `BPF_PROG_LOAD_IU`. -/
  bpf : Nat → LoadAttr → Int
  /-- The order of the hash table. -/
  iterate : List (String × IuProg) → List (String × IuProg)

/-- What a `load` returns and leaves, with the descriptors it has obtained and closed. -/
structure LoadEnd where
  ret : Int
  tables : ProgTables
  progFd : Int
  obtained : List Int
  closed : List Int

/-- A descriptor is a number that is not negative. -/
def delivered (fds : List Int) : List Int := fds.filter fun fd => 0 ≤ fd

section
variable (k : LoadAnswers)

/-- `iu_obj::load`, on an object without a base program. -/
def loadFds (t : ProgTables) : LoadEnd :=
  if k.base < 0 then ⟨-1, t, -1, delivered [k.openFd], []⟩
  else
    match loadProgs k.bpf k.base k.iterate k.removed t with
    | (done, t') =>
        let obtained := delivered
          (k.openFd :: k.base :: (t'.calls.drop t.calls.length).map LoadCall.fd)
        if done then ⟨k.base, t', k.base, obtained, []⟩
        else
          -- `close_fds`
          let progs := (k.iterate t'.progs).map fun it => it.2.fd
          ⟨-1, t', k.base, obtained, delivered progs ++ [k.base]⟩

end

/-- `iu_obj::~iu_obj`. -/
def LoadEnd.destroy (l : LoadEnd) : LoadEnd :=
  if 0 ≤ l.progFd then { l with closed := l.closed ++ [l.progFd] } else l

/-- The end of `iu_obj_load`: an object that has been loaded is kept. -/
def loadOrDestroy (k : LoadAnswers) (t : ProgTables) : LoadEnd :=
  let l := loadFds k t
  if 0 ≤ l.ret then l else l.destroy

/-- **The descriptors aside this is `Stages.load`.** -/
theorem loadFds_eq (st : Stages ProgTables) (k : LoadAnswers) (o : IuObj ProgTables)
    (hfd : o.progFd = -1) (hbase : st.bpfProgLoadIuBase o.image = k.base) :
    let r := (progStages st k.bpf k.iterate k.removed).load o
    (loadFds k o.image).ret = r.1 ∧ (loadFds k o.image).tables = r.2.image ∧
      (loadFds k o.image).progFd = r.2.progFd := by
  have hbase' : (progStages st k.bpf k.iterate k.removed).bpfProgLoadIuBase o.image = k.base :=
    hbase
  have hprogs : (progStages st k.bpf k.iterate k.removed).loadProgs k.base o.image =
      loadProgs k.bpf k.base k.iterate k.removed o.image := rfl
  intro r
  unfold loadFds
  simp only [r, Stages.load, hbase', hprogs]
  split
  · exact ⟨rfl, rfl, hfd.symm⟩
  · split
    · next hdone => exact ⟨rfl, rfl, rfl⟩
    · next hdone => exact ⟨rfl, rfl, rfl⟩

/-! ## Ownership -/

/-- No descriptor is closed twice, and after a failure none is open. -/
structure Owned (l : LoadEnd) : Prop where
  atMostOnce : ∀ fd ∈ l.obtained, l.closed.count fd ≤ 1
  allClosed : l.ret < 0 → ∀ fd ∈ l.obtained, l.closed.count fd = 1

/-- The base program and every program are loaded and the file is removed. -/
structure AllSucceed (k : LoadAnswers) (t : ProgTables) : Prop where
  base : 0 ≤ k.base
  removed : k.removed = true
  progs : ∀ c ∈ callsFrom k.bpf k.base t.calls.length (k.iterate t.progs), 0 ≤ c.fd

variable {k : LoadAnswers} {t : ProgTables}

/-- The loop succeeds if all its calls do. -/
theorem loadLoop_of_nonneg {bpf : Nat → LoadAttr → Int} {progFd : Int}
    {its : List (String × IuProg)} {t : ProgTables}
    (h : ∀ c ∈ callsFrom bpf progFd t.calls.length its, 0 ≤ c.fd) :
    (loadLoop bpf progFd its t).1 = true := by
  induction its generalizing t with
  | nil => rfl
  | cons it its ih =>
      rw [callsFrom, List.forall_mem_cons] at h
      rw [loadLoop]
      simp only
      rw [if_neg (Int.not_lt.mpr h.1)]
      apply ih
      rw [List.length_append, List.length_singleton]
      exact h.2

/-- **What is loaded behind the base program succeeds exactly when every call does.** -/
theorem allSucceed_iff (hbase : 0 ≤ k.base) :
    (loadProgs k.bpf k.base k.iterate k.removed t).1 = true ↔ AllSucceed k t := by
  constructor
  · intro h
    have hprogs : loadProgs k.bpf k.base k.iterate k.removed t = (true, _) := Prod.ext h rfl
    have hremoved : k.removed = true := by
      unfold loadProgs at h
      by_contra hnot
      rw [Bool.not_eq_true] at hnot
      rw [hnot] at h
      exact Bool.false_ne_true h
    exact ⟨hbase, hremoved, (loadLoop_eq (loadLoop_of_loadProgs hprogs)).2.2⟩
  · intro h
    unfold loadProgs
    rw [h.removed]
    exact loadLoop_of_nonneg h.progs

theorem mem_delivered {fd : Int} {fds : List Int} :
    fd ∈ delivered fds ↔ fd ∈ fds ∧ 0 ≤ fd := by
  rw [delivered, List.mem_filter, decide_eq_true_iff]

/-- Without a base program only `rust.out` has been opened, and it stays open. -/
theorem owned_iff_of_base_neg (hbase : k.base < 0) :
    Owned (loadOrDestroy k t) ↔ k.openFd < 0 := by
  have hend : loadOrDestroy k t = ⟨-1, t, -1, delivered [k.openFd], []⟩ := by
    unfold loadOrDestroy loadFds
    rw [if_pos hbase]
    rfl
  rw [hend]
  constructor
  · intro h
    by_contra hopen
    have hfd : k.openFd ∈ delivered [k.openFd] :=
      mem_delivered.mpr ⟨List.mem_singleton_self _, Int.not_lt.mp hopen⟩
    have hclosed := h.allClosed (by decide : (-1 : Int) < 0) _ hfd
    rw [List.count_nil] at hclosed
    cases hclosed
  · intro hopen
    have hnone : ∀ fd, fd ∉ delivered [k.openFd] := by
      intro fd hfd
      obtain ⟨hmem, hpos⟩ := mem_delivered.mp hfd
      rw [List.mem_singleton.mp hmem] at hpos
      exact absurd hopen (Int.not_lt.mpr hpos)
    exact ⟨fun fd hfd => absurd hfd (hnone fd), fun _ fd hfd => absurd hfd (hnone fd)⟩

/-- A `load` that succeeds closes nothing. -/
theorem owned_of_allSucceed (h : AllSucceed k t) : Owned (loadOrDestroy k t) := by
  have hdone := (allSucceed_iff h.base).mpr h
  have hend : (loadOrDestroy k t).ret = k.base ∧ (loadOrDestroy k t).closed = [] := by
    unfold loadOrDestroy loadFds
    rw [if_neg (Int.not_lt.mpr h.base)]
    simp only [hdone, if_true, if_pos h.base, and_self]
  refine ⟨fun fd _ => ?_, fun hneg => ?_⟩
  · rw [hend.2, List.count_nil]
    exact Nat.zero_le 1
  · rw [hend.1] at hneg
    exact absurd hneg (Int.not_lt.mpr h.base)

/-- A `load` that fails behind the base program closes it, and the destructor closes it again. -/
theorem not_owned_of_base (hbase : 0 ≤ k.base) (hfail : ¬ AllSucceed k t) :
    ¬ Owned (loadOrDestroy k t) := by
  rw [← allSucceed_iff hbase, Bool.not_eq_true] at hfail
  intro h
  have hend : k.base ∈ (loadOrDestroy k t).obtained ∧
      2 ≤ (loadOrDestroy k t).closed.count k.base := by
    unfold loadOrDestroy loadFds
    rw [if_neg (Int.not_lt.mpr hbase)]
    simp only [hfail, Bool.false_eq_true, if_false, LoadEnd.destroy, if_pos hbase]
    constructor
    · exact mem_delivered.mpr ⟨List.mem_cons_of_mem _ List.mem_cons_self, hbase⟩
    · show 2 ≤ List.count k.base ((delivered _ ++ [k.base]) ++ [k.base])
      rw [List.count_append, List.count_append, List.count_singleton_self, Nat.add_assoc]
      exact Nat.le_add_left _ _
  exact absurd (h.atMostOnce _ hend.1) (Nat.not_le.mpr hend.2)

/-- **Descriptors are owned exactly when everything succeeds, or neither `rust.out` nor the base
program has delivered one.** -/
theorem owned_iff (k : LoadAnswers) (t : ProgTables) :
    Owned (loadOrDestroy k t) ↔ AllSucceed k t ∨ (k.base < 0 ∧ k.openFd < 0) := by
  rcases Int.lt_or_le k.base 0 with hneg | hbase
  · have hfail : ¬ AllSucceed k t := fun h => absurd hneg (Int.not_lt.mpr h.base)
    rw [owned_iff_of_base_neg hneg, or_iff_right hfail, and_iff_right hneg]
  · rw [or_iff_left fun h => absurd h.1 (Int.not_lt.mpr hbase)]
    by_cases hall : AllSucceed k t
    · exact iff_of_true (owned_of_allSucceed hall) hall
    · exact iff_of_false (not_owned_of_base hbase hall) hall

/-- The base program gets descriptor 4 and `rust.out` cannot be removed. -/
def notRemoved : LoadAnswers := ⟨3, 4, false, fun _ _ => 5, id⟩

/-- Descriptor 4 is closed twice; and when the base program is refused `rust.out` stays open. -/
theorem owned_fails :
    (loadOrDestroy notRemoved .empty).closed = [4, 4] ∧
      (loadOrDestroy { notRemoved with base := -1 } .empty).obtained = [3] ∧
      (loadOrDestroy { notRemoved with base := -1 } .empty).closed = [] ∧
      ¬ ∀ k t, Owned (loadOrDestroy k t) := by
  refine ⟨by decide, by decide, by decide, fun hall => ?_⟩
  have hclosed := (hall notRemoved .empty).atMostOnce 4 (by decide)
  exact absurd hclosed (by decide)

end KernelDev.Loader
