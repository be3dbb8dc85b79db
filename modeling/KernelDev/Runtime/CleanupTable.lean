/-
# KernelDev.Runtime.CleanupTable — constructors, destructors and the cleanup table

The constructor of an object that must be given back takes the next empty entry of the cleanup table
and stores in it how to do that; the object keeps the index, and its destructor stores the default
entry there. A panic walks the table instead. The table is a table of slots: an entry in use is a
slot with the call that `cleanup` would make.
-/
import KernelDev.Lib.Execution
import KernelDev.Lib.Slots
import KernelDev.Runtime.Cleanup

namespace KernelDev.Runtime

open KernelDev.Lib

variable {F : Type*}

/-! ## Objects -/

/-- An object that has not been given back: the index of its entry, and what it stored there. -/
structure Outstanding (F : Type*) where
  idx : Nat
  cleanupFn : F
  cleanupArg : Nat
  deriving DecidableEq, Repr

/-- The call that gives the object back. -/
def Outstanding.call (o : Outstanding F) : F × Nat := (o.cleanupFn, o.cleanupArg)

/-- `entries[idx] = e`. -/
def CleanupEntries.store (t : CleanupEntries F) (idx : Nat) (e : CleanupEntry F) :
    CleanupEntries F :=
  ⟨t.entries.set idx e, by rw [List.length_set, t.length_eq]⟩

/-- A program with the objects it holds. -/
structure ObjectTable (F : Type*) where
  table : CleanupEntries F
  objects : List (Outstanding F)

/-- A program begins without objects, on the table its CPU has. -/
def ObjectTable.start (table : CleanupEntries F) : ObjectTable F := ⟨table, []⟩

/-- `release k`: the destructor of the `k`-th of the objects there are. -/
inductive ObjectAct (F : Type*)
  | acquire (cleanupFn : F) (cleanupArg : Nat)
  | release (k : Nat)
  deriving DecidableEq, Repr

/-- A constructor that finds no empty entry panics: there is no next state. -/
def objectStep : ObjectAct F → ObjectTable F → Option (ObjectTable F)
  | .acquire f a, s =>
      s.table.findNextEmtpyEntry.map fun idx =>
        ⟨s.table.store idx (.new f a), s.objects ++ [⟨idx, f, a⟩]⟩
  | .release k, s =>
      s.objects[k]?.map fun o => ⟨s.table.store o.idx .default, s.objects.eraseIdx k⟩

/-! ## The table as slots -/

/-- No entry is in use, whatever cleanup functions they name. -/
def CleanupEntries.AllInvalid (t : CleanupEntries F) : Prop := ∀ e ∈ t.entries, e.valid = 0

/-- An entry that is not in use, or as a constructor leaves it. -/
def CleanupEntry.Stored (e : CleanupEntry F) : Prop := e.valid = 0 ∨ ∃ f a, e = .new f a

theorem cleanup_of_invalid {e : CleanupEntry F} (h : e.valid = 0) : e.cleanup = none :=
  if_neg (not_not.mpr h)

theorem CleanupEntry.Stored.valid_iff {e : CleanupEntry F} (h : e.Stored) :
    e.valid = 0 ↔ e.cleanup = none := by
  rcases h with hinvalid | ⟨f, a, rfl⟩
  · exact iff_of_true hinvalid (cleanup_of_invalid hinvalid)
  · exact iff_of_false (by simp [CleanupEntry.new]) (by simp)

/-- The slot of each entry. -/
def CleanupEntries.slots (t : CleanupEntries F) : List (Option (F × Nat)) :=
  t.entries.map CleanupEntry.cleanup

@[simp] theorem slots_length (t : CleanupEntries F) : t.slots.length = entriesSize := by
  rw [CleanupEntries.slots, List.length_map, t.length_eq]

@[simp] theorem slots_store (t : CleanupEntries F) (idx : Nat) (e : CleanupEntry F) :
    (t.store idx e).slots = t.slots.set idx e.cleanup :=
  List.map_set

/-- `cleanup_all` makes the calls of the slots in use. -/
theorem cleanupAll_fst (t : CleanupEntries F) : t.cleanupAll.1 = t.slots.filterMap id := by
  rw [CleanupEntries.slots, List.filterMap_map]
  rfl

theorem findNextEmtpyEntry_eq_firstFree {t : CleanupEntries F} (h : ∀ e ∈ t.entries, e.Stored) :
    t.findNextEmtpyEntry = firstFree t.slots := by
  unfold CleanupEntries.findNextEmtpyEntry firstFree CleanupEntries.slots
  generalize t.entries = es at h
  induction es with
  | nil => rfl
  | cons e es ih =>
      obtain ⟨he, hes⟩ := List.forall_mem_cons.mp h
      have hempty : (e.valid == 0) = e.cleanup.isNone := by
        rw [Bool.eq_iff_iff, beq_iff_eq, Option.isNone_iff_eq_none]
        exact he.valid_iff
      rw [List.map_cons, List.findIdx?_cons, List.findIdx?_cons, hempty, ih hes]

/-! ## Runs of constructors and destructors -/

/-- **The discipline**: the entries are as constructors and destructors leave them, and the slots
hold the objects there are, and no others. -/
structure Disciplined (s : ObjectTable F) : Prop where
  stored : ∀ e ∈ s.table.entries, e.Stored
  holds : Holds s.table.slots (s.objects.map fun o => (o.idx, o.call))

theorem CleanupEntries.AllInvalid.slots {table : CleanupEntries F} (h : table.AllInvalid) :
    table.slots = List.replicate entriesSize none := by
  rw [← slots_length table]
  refine List.eq_replicate_of_mem fun slot hslot => ?_
  obtain ⟨e, he, rfl⟩ := List.mem_map.mp hslot
  exact cleanup_of_invalid (h e he)

theorem disciplined_start {table : CleanupEntries F} (h : table.AllInvalid) :
    Disciplined (.start table) where
  stored e he := .inl (h e he)
  holds := by
    show Holds table.slots []
    rw [h.slots]
    exact holds_empty entriesSize

theorem stored_store {t : CleanupEntries F} (h : ∀ e ∈ t.entries, e.Stored) (idx : Nat)
    {e : CleanupEntry F} (he : e.Stored) : ∀ e' ∈ (t.store idx e).entries, e'.Stored := by
  intro e' he'
  rcases List.mem_or_eq_of_mem_set he' with hmem | heq
  · exact h e' hmem
  · rw [heq]
    exact he

/-- **Constructors and destructors keep the discipline.** -/
theorem Disciplined.step {act : ObjectAct F} {s t : ObjectTable F} (h : Disciplined s)
    (hx : objectStep act s = some t) : Disciplined t := by
  cases act with
  | acquire f a =>
      obtain ⟨idx, hidx, rfl⟩ := Option.map_eq_some_iff.mp hx
      rw [findNextEmtpyEntry_eq_firstFree h.stored] at hidx
      have hstored := stored_store h.stored idx (e := .new f a) (.inr ⟨f, a, rfl⟩)
      refine ⟨hstored, ?_⟩
      rw [slots_store, List.map_append]
      exact h.holds.acquire hidx (f, a)
  | release k =>
      obtain ⟨o, ho, rfl⟩ := Option.map_eq_some_iff.mp hx
      obtain ⟨hk, rfl⟩ := List.getElem?_eq_some_iff.mp ho
      have hstored := stored_store h.stored s.objects[k].idx (e := .default) (.inl rfl)
      refine ⟨hstored, ?_⟩
      have hrelease := h.holds.release (k := k) (by rwa [List.length_map])
      rw [slots_store, ← List.eraseIdx_map]
      rwa [List.getElem_map] at hrelease

/-- What the discipline comes to, for the programs and for the panic handler. -/
structure TableLaw (s : ObjectTable F) : Prop where
  /-- No two objects share an entry. -/
  distinct : s.objects.Pairwise fun o o' => o.idx ≠ o'.idx
  /-- A constructor panics exactly when there are 64 objects. -/
  panics : ∀ f a, objectStep (.acquire f a) s = none ↔ s.objects.length = 64
  /-- `cleanup_all` calls the cleanup function of each object once, with its own argument, and
  nothing else. -/
  calls : s.table.cleanupAll.1.Perm (s.objects.map Outstanding.call)
  /-- It leaves a table in which there is nothing to clean up. -/
  cleared : s.table.cleanupAll.2 = .fresh ∧ s.table.cleanupAll.2.cleanupAll.1 = []

theorem Disciplined.law {s : ObjectTable F} (h : Disciplined s) : TableLaw s := by
  refine ⟨?_, fun f a => ?_, ?_, ?_⟩
  · have hnodup := h.holds.nodup
    rw [List.map_map] at hnodup
    exact List.pairwise_map.mp hnodup
  · simp only [objectStep, Option.map_eq_none_iff]
    rw [findNextEmtpyEntry_eq_firstFree h.stored, h.holds.firstFree_eq_none_iff, List.length_map,
      slots_length]
    rfl
  · have hvalues := h.holds.values
    rw [List.map_map] at hvalues
    rw [cleanupAll_fst]
    exact hvalues
  · rw [CleanupEntries.cleanupAll_snd]
    exact ⟨rfl, CleanupEntries.cleanupAll_fresh⟩

/-- **The table tells what must be given back, after any constructors and destructors on a table
that was not in use.** -/
theorem cleanupTable_law {table : CleanupEntries F} (htable : table.AllInvalid)
    {tr : List (Transition (ObjectTable F) (ObjectAct F))} {s : ObjectTable F}
    (h : Exec objectStep (.start table) tr s) :
    (∀ x ∈ tr, TableLaw x.pre ∧ TableLaw x.post) ∧ TableLaw s := by
  have hrun := h.invariant (disciplined_start htable) fun _ hx hI => hI.step hx
  refine ⟨fun x hx => ?_, hrun.2.law⟩
  obtain ⟨hpre, hpost⟩ := hrun.1 x hx
  exact ⟨hpre.law, hpost.law⟩

/-- A table whose entries are not in use and still name a cleanup function. -/
def staleTable : CleanupEntries Nat :=
  ⟨List.replicate entriesSize ⟨0, some 7, 4096⟩, List.length_replicate⟩

theorem allInvalid_staleTable : staleTable.AllInvalid := by
  intro e he
  rw [List.eq_of_mem_replicate he]

/-- Two spinlock guards, the first of them dropped, and a third that gets its entry. -/
def reusedEntry : List (ObjectAct Nat) :=
  [.acquire 0 4096, .acquire 0 8192, .release 0, .acquire 0 12288]

theorem reusedEntry_runs :
    (runActions objectStep reusedEntry (.start staleTable)).isSome := rfl

theorem cleanupTable_law_reusedEntry :
    (endOf _ _ _ reusedEntry_runs).objects = [⟨1, 0, 8192⟩, ⟨0, 0, 12288⟩] ∧
      (endOf _ _ _ reusedEntry_runs).table.cleanupAll.1 = [(0, 12288), (0, 8192)] ∧
      TableLaw (endOf _ _ _ reusedEntry_runs) :=
  ⟨by decide, by decide,
    (cleanupTable_law allInvalid_staleTable (exec_runOf reusedEntry_runs)).2⟩

end KernelDev.Runtime
