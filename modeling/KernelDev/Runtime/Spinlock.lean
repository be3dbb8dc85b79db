/-
# KernelDev.Runtime.Spinlock — guards of spinlocks, and what a panic does to them

`iu_spinlock_guard` locks in its constructor and unlocks in `drop`. A panic drops nothing; the
locks of the guards then alive would have to be in the cleanup table. The constructor does not put
them there: `unlock` has a comment that names the cleanup list as one of its callers, and no code
registers it.

`panicReleases_iff` says when the release obligation is met after all: when there is none.
-/
import KernelDev.Lib.Execution
import KernelDev.Runtime.Cleanup
import Mathlib.Data.List.Nodup
import Mathlib.Logic.Function.Basic

namespace KernelDev.Runtime.Spinlock

open KernelDev.Lib

variable {F : Type*}

/-! ## The model -/

/-- The address of a `bpf_spin_lock`. -/
abbrev LockPtr := Nat

/-- The calls of the kernel stubs. -/
inductive StubCall
  | bpfSpinLock (lock : LockPtr)
  | bpfSpinUnlock (lock : LockPtr)
  | iuLandingpad (msg : List UInt8)
  deriving DecidableEq, Repr

/-- A program on a CPU. A guard is named by the lock it borrows: the borrow is exclusive, so there
is at most one guard of a lock alive. -/
structure Cpu (F : Type*) where
  entries : CleanupEntries F
  /-- The guards alive. -/
  guards : List LockPtr
  held : LockPtr → Bool
  /-- The stub calls made so far. -/
  log : List StubCall
  /-- The program has left through `iu_landingpad`. -/
  exited : Bool

/-- A program about to start: nothing held, nothing registered. -/
def Cpu.start : Cpu F := ⟨.fresh, [], fun _ => false, [], false⟩

/-- The effect of a stub call. -/
def Cpu.stub (s : Cpu F) : StubCall → Cpu F
  | .bpfSpinLock l =>
      { s with held := Function.update s.held l true, log := s.log ++ [.bpfSpinLock l] }
  | .bpfSpinUnlock l =>
      { s with held := Function.update s.held l false, log := s.log ++ [.bpfSpinUnlock l] }
  | .iuLandingpad msg => { s with exited := true, log := s.log ++ [.iuLandingpad msg] }

inductive Act
  | new (lock : LockPtr)
  | drop (lock : LockPtr)
  | panic (info : PanicInfo)
  deriving DecidableEq, Repr

def Act.isPanic : Act → Bool
  | .panic _ => true
  | _ => false

section
variable (stubCalls : F → Nat → List StubCall)

/-- The panic handler; `stubCalls` says what a cleanup function does with its argument. The guards
are still where they were. -/
def panic (info : PanicInfo) (s : Cpu F) : Cpu F :=
  let (calls, entries) := s.entries.cleanupAll
  let s := (calls.flatMap fun c => stubCalls c.1 c.2).foldl Cpu.stub { s with entries := entries }
  s.stub (.iuLandingpad (panicMsg info))

/-- One step of the program. Locking a lock that is held does not return. -/
def step : Act → Cpu F → Option (Cpu F)
  | .new l, s =>
      if s.exited ∨ s.held l then none
      else some { s.stub (.bpfSpinLock l) with guards := l :: s.guards }
  | .drop l, s =>
      if s.exited = false ∧ l ∈ s.guards then
        some { s.stub (.bpfSpinUnlock l) with guards := s.guards.erase l }
      else none
  | .panic info, s => if s.exited then none else some (panic stubCalls info s)

end

/-! ## The discipline of guards -/

/-- A lock is held exactly while its guard is alive, and nothing is registered for cleanup. -/
structure Disciplined (s : Cpu F) : Prop where
  nodup : s.guards.Nodup
  held : ∀ l, s.held l = true ↔ l ∈ s.guards
  unregistered : s.entries = .fresh

theorem disciplined_start : Disciplined (Cpu.start : Cpu F) where
  nodup := .nil
  held := by simp [Cpu.start]
  unregistered := rfl

variable {stubCalls : F → Nat → List StubCall}

/-- With nothing registered the handler goes straight to `iu_landingpad`. -/
theorem panic_eq {s : Cpu F} (h : s.entries = .fresh) (info : PanicInfo) :
    panic stubCalls info s = s.stub (.iuLandingpad (panicMsg info)) := by
  have hcalls : s.entries.cleanupAll.1 = [] := by rw [h, CleanupEntries.cleanupAll_fresh]
  have htable : s.entries.cleanupAll.2 = s.entries := by rw [s.entries.cleanupAll_snd, h]
  simp only [panic, hcalls, htable, List.flatMap_nil, List.foldl_nil]

/-- **Every step keeps the discipline, a panic included.** -/
theorem Disciplined.step {a : Act} {s t : Cpu F} (h : Disciplined s)
    (hs : step stubCalls a s = some t) : Disciplined t := by
  cases a with
  | new l =>
      simp only [Spinlock.step] at hs
      split at hs
      · cases hs
      · next hfree =>
          obtain rfl := Option.some.inj hs
          -- a lock that can be taken is not held, so it has no guard
          have hnew : l ∉ s.guards := fun hmem =>
            hfree (.inr ((h.held l).mpr hmem))
          refine ⟨List.nodup_cons.mpr ⟨hnew, h.nodup⟩, fun k => ?_, h.unregistered⟩
          by_cases hk : k = l
          · simp [Cpu.stub, hk]
          · simp [Cpu.stub, hk, h.held k]
  | drop l =>
      simp only [Spinlock.step] at hs
      split at hs
      · obtain rfl := Option.some.inj hs
        refine ⟨h.nodup.erase l, fun k => ?_, h.unregistered⟩
        rw [h.nodup.mem_erase_iff]
        by_cases hk : k = l
        · simp [Cpu.stub, hk]
        · simp [Cpu.stub, hk, h.held k]
      · cases hs
  | panic info =>
      simp only [Spinlock.step] at hs
      split at hs
      · cases hs
      · obtain rfl := Option.some.inj hs
        rw [panic_eq h.unregistered]
        exact ⟨h.nodup, h.held, h.unregistered⟩

/-! ## What a panic releases -/

/-- The stub calls of a transition. -/
def stubCallsOf (x : Transition (Cpu F) Act) : List StubCall := x.post.log.drop x.pre.log.length

/-- A panic unlocks the lock of every guard alive once, and no other. -/
def PanicReleases (x : Transition (Cpu F) Act) : Prop :=
  x.act.isPanic = true → ∀ l,
    (stubCallsOf x).count (.bpfSpinUnlock l) = if l ∈ x.pre.guards then 1 else 0

/-- No guard is alive at a panic. -/
def NoGuardAtPanic (x : Transition (Cpu F) Act) : Prop :=
  x.act.isPanic = true → x.pre.guards = []

instance : DecidablePred (NoGuardAtPanic (F := F)) := fun x =>
  inferInstanceAs (Decidable (x.act.isPanic = true → x.pre.guards = []))

/-- A panic makes one call, and every lock held stays held. -/
theorem stubCallsOf_panic {info : PanicInfo} {s t : Cpu F} (h : Disciplined s)
    (hs : step stubCalls (.panic info) s = some t) :
    stubCallsOf ⟨s, .panic info, t⟩ = [.iuLandingpad (panicMsg info)] ∧ t.held = s.held := by
  simp only [step] at hs
  split at hs
  · cases hs
  · obtain rfl := Option.some.inj hs
    rw [panic_eq h.unregistered]
    simp [stubCallsOf, Cpu.stub]

/-- **A panic meets its obligations exactly when there are none.** -/
theorem panicReleases_step_iff {x : Transition (Cpu F) Act}
    (hx : step stubCalls x.act x.pre = some x.post) (h : Disciplined x.pre) :
    PanicReleases x ↔ NoGuardAtPanic x := by
  obtain ⟨s, act, t⟩ := x
  cases act with
  | new | drop =>
      apply iff_of_true
      · intro hpanic
        cases hpanic
      · intro hpanic
        cases hpanic
  | panic info =>
      have hcalls := (stubCallsOf_panic h hx).1
      constructor
      · intro hrel _
        apply List.eq_nil_iff_forall_not_mem.mpr
        intro l hl
        -- the lock of a guard alive would have to be unlocked, and no call does it
        have hcount := hrel rfl l
        rw [hcalls, if_pos hl] at hcount
        simp at hcount
      · intro hnone _ l
        have hguards : s.guards = [] := hnone rfl
        rw [hcalls]
        simp [hguards]

/-- **A run's panic releases what the program holds exactly when the program holds nothing.** -/
theorem panicReleases_iff (stubCalls : F → Nat → List StubCall)
    {tr : List (Transition (Cpu F) Act)} {s : Cpu F} (h : Exec (step stubCalls) Cpu.start tr s) :
    (∀ x ∈ tr, PanicReleases x) ↔ ∀ x ∈ tr, NoGuardAtPanic x :=
  h.forall_iff disciplined_start (fun _ hx hI => hI.step hx)
    (fun _ hx hI => panicReleases_step_iff hx hI)

/-- **The lock of every guard alive at a panic is still held after it.** -/
theorem held_after_panic (stubCalls : F → Nat → List StubCall)
    {tr : List (Transition (Cpu F) Act)} {s : Cpu F} (h : Exec (step stubCalls) Cpu.start tr s) :
    ∀ x ∈ tr, x.act.isPanic = true → ∀ l ∈ x.pre.guards, x.post.held l = true := by
  intro x hx hpanic l hl
  have hdisc := ((h.invariant disciplined_start fun _ hx hI => hI.step hx).1 x hx).1
  have hstep := h.isStep x hx
  obtain ⟨s, act, t⟩ := x
  cases act with
  | new | drop => cases hpanic
  | panic info =>
      rw [(stubCallsOf_panic hdisc hstep).2]
      exact (hdisc.held l).mpr hl

/-- A program without cleanup functions. -/
def noCleanup : Empty → Nat → List StubCall := fun f => f.elim

/-- Two nested critical sections, both left before the panic. -/
def panicOutside : List Act :=
  [.new 1, .new 2, .drop 2, .drop 1, .panic ⟨none, none⟩]

/-- A panic inside a critical section. -/
def panicInside : List Act := [.new 1, .panic ⟨none, none⟩]

theorem panicOutside_runs : (runActions (step noCleanup) panicOutside .start).isSome := rfl

theorem panicInside_runs : (runActions (step noCleanup) panicInside .start).isSome := rfl

theorem panicReleases_panicOutside :
    (∃ x ∈ runOf _ _ _ panicOutside_runs, x.act.isPanic = true) ∧
      ∀ x ∈ runOf (step noCleanup) panicOutside .start panicOutside_runs, PanicReleases x :=
  ⟨by decide, (panicReleases_iff noCleanup (exec_runOf panicOutside_runs)).mpr (by decide)⟩

/-- The lock is not unlocked. -/
theorem panicReleases_fails : ¬ ∀ (tr : List (Transition (Cpu Empty) Act)) (s : Cpu Empty),
    Exec (step noCleanup) Cpu.start tr s → ∀ x ∈ tr, PanicReleases x := by
  intro hall
  have hrel := hall _ _ (exec_runOf panicInside_runs)
  have hcount : ∀ x ∈ runOf (step noCleanup) panicInside .start panicInside_runs,
      x.act.isPanic = true → (stubCallsOf x).count (.bpfSpinUnlock 1) =
        if 1 ∈ x.pre.guards then 1 else 0 := fun x hx hpanic => hrel x hx hpanic 1
  exact absurd hcount (by decide)

end KernelDev.Runtime.Spinlock
