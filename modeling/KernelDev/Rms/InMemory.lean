/-
# KernelDev.Rms.InMemory — every run over the list in memory is a run of the scheduler

The actions of `Rms.System` with the functions of `Rms.ListNodes`. Beside them, the links in memory
that is not allocated may change at any time, as the contents of free records do. `memory_refines`
is the refinement: the run in memory takes the steps of the scheduler, no loop of it fails to end,
and at the end the links hold exactly the scheduler's process list.
-/
import KernelDev.Rms.ListNodes
import KernelDev.Rms.PidMap

namespace KernelDev.Rms

open KernelDev.Lib (Link Ring Exec Transition foldUntil foldUntil_cons runActions endOf exec_runOf)
open KernelDev.Lists

/-- The actions in memory. -/
inductive MemAct
  | act (a : Act)
  | scribbleLinks (a : RecPtr) (l : Link Node)
  deriving DecidableEq, Repr

/-- The action of the scheduler it is, if any. -/
def MemAct.act? : MemAct → Option Act
  | .act a => some a
  | .scribbleLinks _ _ => none

section
variable (msecsToJiffies : UInt32 → UInt64) (junk : RecPtr → Link Node) (fuel : Nat)

/-- The step function in memory. -/
def memStep : MemAct → Mp2Memory → Option Mp2Memory
  | .act (.admission c), m =>
      if m.module.blocked c.writer then none
      else match m.mp2AdmissionControl c.period c.processingTime fuel with
        | none => none
        | some (none, _) => none
        | some (some 0, seen) =>
            some { m with module := { m.module with admitted := ⟨c, seen⟩ :: m.module.admitted } }
        | some (some _, _) => some m
  | .act (.insert e alloc found), m =>
      if e ∈ m.module.admitted ∧ m.module.blocked e.call.writer = false then
        (Mp2Memory.mp2RegistrationInsert msecsToJiffies e.call alloc found fuel
          { m with module := m.module.takeAdmitted e }).map Prod.snd
      else none
  | .act (.yield writer pid), m =>
      if m.module.blocked writer then none else m.mp2Yield writer pid fuel
  | .act (.deregister writer pid), m =>
      if m.module.blocked writer then none else m.mp2Deregistration junk pid fuel
  | .act (.fire a), m =>
      if (m.module.pendingTimer a).isSome then
        some { m with
          module := { m.module.delTimer a with firedTimers := a :: m.module.firedTimers } }
      else none
  | .act (.callback a), m =>
      if a ∈ m.module.firedTimers then
        Mp2Memory.mp2TimerCallback msecsToJiffies a fuel
          { m with module := { m.module with firedTimers := m.module.firedTimers.erase a } }
      else none
  | .act .dispatch, m => m.mp2DispatcherPass fuel
  | .act (.tick now), m => some { m with module := { m.module with jiffies := now } }
  | .act (.scribble a r), m =>
      if a ∈ m.module.live then none else some { m with module := m.module.store a r }
  | .act (.recycle a), m =>
      if a < m.module.nextRec ∧ a ∉ m.module.live then
        some { m with module := { m.module with recycled := some a } }
      else none
  | .scribbleLinks a l, m =>
      if a ∈ m.module.live then none
      else some { m with links := Function.update m.links (.entry a) l }

end

namespace Mp2Memory

variable {msecsToJiffies : UInt32 → UInt64} {junk : RecPtr → Link Node} {fuel : Nat}
variable {m m' : Mp2Memory} {xs : List RecPtr}

/-- Both sides take the step, or neither. -/
def Agree (memory : Option Mp2Memory) (list : Option Mp2) : Prop :=
  (memory = none ∧ list = none) ∨
    ∃ m ys, memory = some m ∧ list = some (m.view ys) ∧ Holds m.links ys

/-- **One step in memory is one step of the scheduler.** -/
theorem memStep_agree (msecsToJiffies : UInt32 → UInt64) (junk : RecPtr → Link Node)
    (hwf : WellFormed (m.view xs)) (h : Holds m.links xs) (hfuel : xs.length < fuel)
    (a : Act) :
    Agree (memStep msecsToJiffies junk fuel (.act a) m) (step msecsToJiffies a (m.view xs)) := by
  cases a with
  | admission c =>
      simp only [memStep, step]
      by_cases hblocked : m.module.blocked c.writer = true
      · exact .inl ⟨if_pos hblocked, if_pos hblocked⟩
      · have hblocked' : ¬ (m.view xs).blocked c.writer = true := hblocked
        rw [if_neg hblocked, if_neg hblocked', mp2AdmissionControl_eq h hfuel]
        rcases Rms.mp2AdmissionControl (m.view xs) c.period c.processingTime with _ | rv
        · exact .inl ⟨rfl, rfl⟩
        · -- the call returns 0 or not
          rcases rv with (_ | n) | n
          · exact .inr ⟨_, xs, rfl, rfl, h⟩
          · exact .inr ⟨m, xs, rfl, rfl, h⟩
          · exact .inr ⟨m, xs, rfl, rfl, h⟩
  | insert e alloc found =>
      simp only [memStep, step]
      by_cases hguard : e ∈ m.module.admitted ∧ m.module.blocked e.call.writer = false
      · have hfresh : (m.module.takeAdmitted e).freeRec ∉ xs := hwf.freeRec_not_linked
        obtain ⟨rv, m', ys, hmem, hlist, hholds⟩ := mp2RegistrationInsert_eq msecsToJiffies
          (m := { m with module := m.module.takeAdmitted e }) h hfuel hfresh e.call alloc found
        rw [if_pos hguard, hmem]
        refine .inr ⟨m', ys, rfl, ?_, hholds⟩
        have hguard' : e ∈ (m.view xs).admitted ∧ (m.view xs).blocked e.call.writer = false :=
          hguard
        rw [if_pos hguard']
        exact congrArg (fun r => some r.2) hlist
      · exact .inl ⟨if_neg hguard, if_neg hguard⟩
  | yield writer pid =>
      simp only [memStep, step]
      by_cases hblocked : m.module.blocked writer = true
      · exact .inl ⟨if_pos hblocked, if_pos hblocked⟩
      · obtain ⟨m', hmem, hlist, hholds⟩ := mp2Yield_eq h hfuel writer pid
        rw [if_neg hblocked, hmem]
        refine .inr ⟨m', xs, rfl, ?_, hholds⟩
        rw [← hlist]
        exact if_neg hblocked
  | deregister writer pid =>
      simp only [memStep, step]
      by_cases hblocked : m.module.blocked writer = true
      · exact .inl ⟨if_pos hblocked, if_pos hblocked⟩
      · obtain ⟨m', ys, hmem, hlist, hholds⟩ := mp2Deregistration_eq junk h hfuel pid
        rw [if_neg hblocked, hmem]
        refine .inr ⟨m', ys, rfl, ?_, hholds⟩
        rw [← hlist]
        exact if_neg hblocked
  | fire a =>
      simp only [memStep, step]
      by_cases hpending : (m.module.pendingTimer a).isSome = true
      · rw [if_pos hpending]
        exact .inr ⟨_, xs, rfl, if_pos hpending, h⟩
      · exact .inl ⟨if_neg hpending, if_neg hpending⟩
  | callback a =>
      simp only [memStep, step]
      by_cases hfired : a ∈ m.module.firedTimers
      · obtain ⟨m', hmem, hlist, hholds⟩ := mp2TimerCallback_eq msecsToJiffies
          (m := { m with module := { m.module with
            firedTimers := m.module.firedTimers.erase a } }) h hfuel a
        rw [if_pos hfired, hmem]
        refine .inr ⟨m', xs, rfl, ?_, hholds⟩
        rw [← hlist]
        exact if_pos hfired
      · exact .inl ⟨if_neg hfired, if_neg hfired⟩
  | dispatch =>
      obtain ⟨m', hmem, hlist, hholds⟩ := mp2DispatcherPass_eq h hfuel
      exact .inr ⟨m', xs, hmem, congrArg some hlist, hholds⟩
  | tick now => exact .inr ⟨_, xs, rfl, rfl, h⟩
  | scribble a r =>
      simp only [memStep, step]
      by_cases hlive : a ∈ m.module.live
      · exact .inl ⟨if_pos hlive, if_pos hlive⟩
      · rw [if_neg hlive]
        exact .inr ⟨_, xs, rfl, if_neg hlive, h⟩
  | recycle a =>
      simp only [memStep, step]
      by_cases hfree : a < m.module.nextRec ∧ a ∉ m.module.live
      · rw [if_pos hfree]
        exact .inr ⟨_, xs, rfl, if_pos hfree, h⟩
      · exact .inl ⟨if_neg hfree, if_neg hfree⟩

/-- A step makes the list longer by at most one. -/
theorem length_of_effect {s t : Mp2} {a : Act} (he : Effect msecsToJiffies s a t) :
    t.mp2ProcessList.length ≤ s.mp2ProcessList.length + 1 := by
  cases he with
  | insertLink => exact List.length_append.le
  | deregister d => exact (List.length_erase_le).trans (Nat.le_succ _)
  | dispatch d =>
      exact (congrArg List.length (dispatched_mp2ProcessList d s)).le.trans (Nat.le_succ _)
  | _ => exact Nat.le_succ _

/-! ## Runs -/

/-- The run in memory and the run of the scheduler it is. -/
structure Simulates (msecsToJiffies : UInt32 → UInt64) (start : Mp2)
    (tr : List (Transition Mp2Memory MemAct)) (m : Mp2Memory) (xs : List RecPtr)
    (tr' : List (Transition Mp2 Act)) : Prop where
  run : Exec (step msecsToJiffies) start tr' (m.view xs)
  acts : tr'.map (·.act) = (tr.map (·.act)).filterMap MemAct.act?
  wellFormed : WellFormed (m.view xs)
  holds : Holds m.links xs
  length : xs.length ≤ tr.length

theorem simulates_run {memory : RecPtr → Mp2TaskStruct} {links : Lib.Links Node} {jiffies : UInt64}
    {tr : List (Transition Mp2Memory MemAct)}
    (hrun : Exec (memStep msecsToJiffies junk fuel) (boot memory links jiffies) tr m)
    (hfuel : tr.length < fuel) :
    ∃ xs tr', Simulates msecsToJiffies (Mp2.boot memory jiffies) tr m xs tr' := by
  induction hrun with
  | refl =>
      exact ⟨[], [], .refl _, rfl, wellFormed_boot memory jiffies, holds_boot memory links jiffies,
        Nat.le_refl 0⟩
  | @snoc m m' tr a _ hstep ih =>
      rw [List.length_append, List.length_singleton] at hfuel
      obtain ⟨xs, tr', hsim⟩ := ih (Nat.lt_of_succ_lt hfuel)
      have hlen : (tr ++ [(⟨m, a, m'⟩ : Transition Mp2Memory MemAct)]).length = tr.length + 1 :=
        List.length_append
      cases a with
      | act a =>
          have hxs : xs.length < fuel := Nat.lt_of_le_of_lt hsim.length (Nat.lt_of_succ_lt hfuel)
          rcases memStep_agree msecsToJiffies junk hsim.wellFormed
            hsim.holds hxs a with ⟨hnone, _⟩ | ⟨m₁, ys, hmem, hlist, hholds⟩
          · rw [hnone] at hstep
            cases hstep
          · obtain rfl : m₁ = m' := Option.some.inj (hmem.symm.trans hstep)
            refine ⟨ys, _, hsim.run.snoc hlist, ?_, hsim.wellFormed.step hlist, hholds, ?_⟩
            · simp [hsim.acts, MemAct.act?]
            · rw [hlen]
              have hgrow := length_of_effect (effect_of_step hlist)
              exact hgrow.trans (Nat.succ_le_succ hsim.length)
      | scribbleLinks a l =>
          simp only [memStep] at hstep
          split at hstep
          · cases hstep
          · next hlive =>
              obtain rfl := Option.some.inj hstep
              refine ⟨xs, tr', hsim.run, ?_, hsim.wellFormed,
                hsim.holds.update fun hmem => hlive (hsim.wellFormed.linkedLive a hmem), ?_⟩
              · simp [hsim.acts, MemAct.act?]
              · rw [hlen]
                exact hsim.length.trans (Nat.le_succ _)

/-- A walk of the process list that writes down the records it comes to. -/
def visitTask (i : RecPtr) (s : Mp2Memory × List RecPtr) : (Mp2Memory × List RecPtr) × Bool :=
  ((s.1, s.2 ++ [i]), true)

theorem foldUntil_visitTask (seen : List RecPtr) :
    foldUntil visitTask xs (m, seen) = (m, seen ++ xs) := by
  induction xs generalizing seen with
  | nil => rw [KernelDev.Lib.foldUntil_nil, List.append_nil]
  | cons x xs ih =>
      show foldUntil visitTask xs (m, seen ++ [x]) = _
      rw [ih, List.append_assoc, List.singleton_append]

end Mp2Memory

open Mp2Memory in
/-- **The module in memory refines the scheduler.** The links start uninitialised but for the list
head, links of free memory change at any time, and a freed record's links hold anything. For every
run from there, with more fuel than it has steps, there is a run of the scheduler with the same
actions that ends in the same module. Going through the links shows the records of its process list
in order, all of them allocated and no two of one pid; every further action is possible in memory
exactly when it is one for the scheduler, so no loop fails to end; and `mp2_exit` goes through,
freeing what it frees there and leaving the head an empty list. -/
theorem memory_refines (msecsToJiffies : UInt32 → UInt64) (junk : RecPtr → Link Node)
    (memory : RecPtr → Mp2TaskStruct) (links : Lib.Links Node) (jiffies : UInt64) (fuel : Nat)
    (tr : List (Transition Mp2Memory MemAct)) (m : Mp2Memory)
    (hrun : Exec (memStep msecsToJiffies junk fuel) (boot memory links jiffies) tr m)
    (hfuel : tr.length < fuel) :
    ∃ tr' s, Exec (step msecsToJiffies) (Mp2.boot memory jiffies) tr' s ∧
      tr'.map (·.act) = (tr.map (·.act)).filterMap MemAct.act? ∧
      s = m.view s.mp2ProcessList ∧
      forEachTask visitTask fuel (m, []) = some (m, s.mp2ProcessList) ∧
      (∀ a ∈ s.mp2ProcessList, a ∈ m.module.live) ∧
      (s.mp2ProcessList.map fun a => (m.module.slab a).pid).Nodup ∧
      (∀ a, (memStep msecsToJiffies junk fuel (.act a) m).isSome =
        (step msecsToJiffies a s).isSome) ∧
      ∃ m', m.mp2Exit junk fuel = some m' ∧ mp2Exit s = m'.view [] ∧ Holds m'.links [] := by
  obtain ⟨xs, tr', hsim⟩ := simulates_run hrun hfuel
  have hxs : xs.length < fuel := Nat.lt_of_le_of_lt hsim.length hfuel
  refine ⟨tr', m.view xs, hsim.run, hsim.acts, rfl, ?_, hsim.wellFormed.linkedLive,
    hsim.wellFormed.pids_nodup, ?_, mp2Exit_eq junk hsim.holds hxs⟩
  · rw [forEachTask_eq _ (fun _ _ _ => rfl) hsim.holds hxs, foldUntil_visitTask]
    rfl
  · intro a
    rcases memStep_agree msecsToJiffies junk hsim.wellFormed
      hsim.holds hxs a with ⟨hmem, hlist⟩ | ⟨m', ys, hmem, hlist, _⟩
    · rw [hmem, hlist]
      rfl
    · rw [hmem, hlist]
      rfl

/-- The links right after the module is loaded into zeroed memory. -/
def quietMemory : Mp2Memory :=
  Mp2Memory.boot (fun _ => ⟨0, 0, 0, 0, 0, .sleeping⟩) (fun _ => ⟨.poison1, .poison1⟩) 0

/-- A free record's links change, then process 7 registers and is dispatched, and deregisters, and
process 9 registers in its record. -/
def dispatchedInMemory : List MemAct :=
  .scribbleLinks 0 ⟨.entry 0, .head⟩ :: firstDispatch.map .act ++
    [.act (.deregister 9 7), .act (.recycle 0), .act (.admission ⟨9, 9, 50, 5⟩),
      .act (.insert ⟨⟨9, 9, 50, 5⟩, []⟩ true 9)]

theorem dispatchedInMemory_runs :
    (runActions (memStep (·.toUInt64) (fun _ => ⟨.head, .poison2⟩) 20) dispatchedInMemory
      quietMemory).isSome := rfl

theorem memory_refines_dispatchedInMemory :
    ∃ s, s = (endOf (memStep (·.toUInt64) (fun _ => ⟨.head, .poison2⟩) 20) dispatchedInMemory
        quietMemory dispatchedInMemory_runs).view s.mp2ProcessList ∧
      ∃ tr', Exec (step (·.toUInt64)) quiet tr' s := by
  obtain ⟨tr', s, hrun, _, hview, _⟩ := memory_refines (·.toUInt64) _ _ _ _ 20 _ _
    (exec_runOf dispatchedInMemory_runs) (by decide)
  exact ⟨s, hview, tr', hrun⟩

end KernelDev.Rms
