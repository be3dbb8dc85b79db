/-
# KernelDev.Rms.ListNodes — the process list as it lies in memory

The rest of the development takes `mp2_process_list` for a list of records. In memory it is a
`struct list_head` with one more embedded in every record: `mp2.c` adds with `list_add_tail`, takes
out with `list_del`, and goes through it with `list_for_each_entry_safe`, in two places while it
deletes and frees the record it is at. This module has the functions of `mp2.c` over these links and
connects them with `Rms.Operations`.

A loop is given fuel and has no result when it runs out of it. `junk` is what the allocator leaves
in the links of a record that is freed.
-/
import KernelDev.Lists.Records
import KernelDev.Rms.System

namespace KernelDev.Rms

open KernelDev.Lib (Link Ring foldUntil foldUntil_cons foldUntil_nil foldUntil_eq_foldl
  foldUntil_eq_find? improve scan)
open KernelDev.Lists

/-- The module with its list in memory. The list of `module` is not used. -/
structure Mp2Memory where
  module : Mp2
  links : Lib.Links Node

/-- `LIST_HEAD(mp2_process_list)` in a memory that holds anything otherwise. -/
def Mp2Memory.boot (memory : RecPtr → Mp2TaskStruct) (links : Lib.Links Node) (jiffies : UInt64) :
    Mp2Memory :=
  ⟨Mp2.boot memory jiffies, initListHead .head links⟩

section
variable {τ : Type*}

/-- `list_for_each_entry_safe(i, temp, &mp2_process_list, list)`, the local variables beside the
memory. -/
def forEachTask (body : RecPtr → Mp2Memory × τ → (Mp2Memory × τ) × Bool) (fuel : Nat)
    (s : Mp2Memory × τ) : Option (Mp2Memory × τ) :=
  forEachEntry (fun s => s.1.links) body fuel s

end

namespace Mp2Memory

/-! ## The functions of `mp2.c` -/

/-- The loop of `mp2_admission_control`; `seen` is history. -/
def admissionBody (i : RecPtr) (s : Mp2Memory × UInt64 × UInt64 × List TaskParams) :
    (Mp2Memory × UInt64 × UInt64 × List TaskParams) × Bool :=
  let r := s.1.module.slab i
  ((s.1, s.2.1 + r.period, s.2.2.1 + r.processingTime, s.2.2.2 ++ [r.params]), true)

/-- `mp2_admission_control`, with the tasks as it read them. -/
def mp2AdmissionControl (period processingTime : UInt64) (fuel : Nat) (m : Mp2Memory) :
    Option (Option Int × List TaskParams) := do
  let (_, totalPeriod, totalProcessingTime, seen) ←
    forEachTask admissionBody fuel (m, period, processingTime, [])
  if totalPeriod = 0 then some (none, seen)
  else if totalProcessingTime * 1000 / totalPeriod ≤ 693 then some (some 0, seen)
  else some (some 1, seen)

/-- The search of a pid: `yield_task = i_task; break;`. -/
def searchBody (pid : UInt32) (i : RecPtr) (s : Mp2Memory × Option RecPtr) :
    (Mp2Memory × Option RecPtr) × Bool :=
  if (s.1.module.slab i).pid = pid then ((s.1, some i), false) else (s, true)

section
variable (msecsToJiffies : UInt32 → UInt64)

/-- The second critical section of `mp2_registration`. -/
def mp2RegistrationInsert (c : RegCall) (alloc : Bool) (found : TaskPtr) (fuel : Nat)
    (m : Mp2Memory) : Option (Int × Mp2Memory) := do
  let (m, dup) ← forEachTask (searchBody c.pid) fuel (m, none)
  if dup.isSome then some (0, m)
  else if !alloc then some (-1, m)
  else
    let (newProc, s) := m.module.kmemCacheAlloc
    let s := s.store newProc
      { pid := c.pid, period := c.period, processingTime := c.processingTime,
        deadlineJiff := s.jiffies + msecsToJiffies c.period.toUInt32, state := .sleeping,
        task := found }
    let links := initListHead (.entry newProc) m.links
    if found = 0 then some (-1, ⟨s, links⟩)
    else
      let s := s.setUninterruptible c.writer
      some (0, ⟨s.timerSetup newProc, listAddTail (.entry newProc) .head links⟩)

/-- `mp2_timer_callback` for the timer embedded in `a`. -/
def mp2TimerCallback (a : RecPtr) (fuel : Nat) (m : Mp2Memory) : Option Mp2Memory :=
  let body (i : RecPtr) (s : Mp2Memory × Unit) : (Mp2Memory × Unit) × Bool :=
    if (s.1.module.slab i).pid = (s.1.module.slab a).pid then
      (({ s.1 with module := timerRelease msecsToJiffies a s.1.module }, ()), true)
    else (s, true)
  (forEachTask body fuel (m, ())).map Prod.fst

end

/-- `mp2_yield(pid)` executed by the process `writer`. -/
def mp2Yield (writer : TaskPtr) (pid : UInt32) (fuel : Nat) (m : Mp2Memory) : Option Mp2Memory := do
  let (m, yieldTask) ← forEachTask (searchBody pid) fuel (m, none)
  match yieldTask with
  | none => some m
  | some y =>
      if m.module.jiffies < (m.module.slab y).deadlineJiff then
        let s := m.module.setState y .sleeping
        let s := s.setUninterruptible writer
        some { m with module := s.modTimer y (s.slab y).deadlineJiff }
      else some { m with module := m.module.modTimer y m.module.jiffies }

/-- `del_timer`, `list_del` and `kmem_cache_free` of one record. -/
def release (junk : RecPtr → Link Node) (i : RecPtr) (m : Mp2Memory) : Mp2Memory :=
  ⟨(m.module.delTimer i).kmemCacheFree i, freeEntry (junk i) i m.links⟩

/-- `mp2_deregistration(pid)`. -/
def mp2Deregistration (junk : RecPtr → Link Node) (pid : UInt32) (fuel : Nat) (m : Mp2Memory) :
    Option Mp2Memory :=
  let body (i : RecPtr) (s : Mp2Memory × Unit) : (Mp2Memory × Unit) × Bool :=
    if (s.1.module.slab i).pid = pid then ((s.1.release junk i, ()), false) else (s, true)
  (forEachTask body fuel (m, ())).map Prod.fst

/-- The scan of `mp2_dispatcher` for the READY task of least period. -/
def dispatcherBody (i : RecPtr) (s : Mp2Memory × UInt64 × Option RecPtr) :
    (Mp2Memory × UInt64 × Option RecPtr) × Bool :=
  let r := s.1.module.slab i
  if r.state = .ready ∧ r.period < s.2.1 then ((s.1, r.period, some i), true) else (s, true)

/-- One pass of the `mp2_dispatcher` loop body under the lock. -/
def mp2DispatcherPass (fuel : Nat) (m : Mp2Memory) : Option Mp2Memory := do
  let (m, _, highestPriorityTask) ← forEachTask dispatcherBody fuel (m, dispatchStart m.module)
  match highestPriorityTask with
  | none => some m
  | some h =>
      if m.module.mp2CurrTask = some h then some m
      else some { m with module := (switchTo h (preemptCurrTask m.module).1).1 }

/-- The loop of `mp2_exit` over the process list. -/
def mp2Exit (junk : RecPtr → Link Node) (fuel : Nat) (m : Mp2Memory) : Option Mp2Memory :=
  (forEachTask (fun i s => ((s.1.release junk i, ()), true)) fuel (m, ())).map Prod.fst

end Mp2Memory

/-! ## The list in memory and the list of records -/

namespace Mp2Memory

/-- The module with `xs` for its list. -/
def view (m : Mp2Memory) (xs : List RecPtr) : Mp2 := { m.module with mp2ProcessList := xs }

variable {m : Mp2Memory} {xs : List RecPtr} {fuel : Nat} {τ : Type*}

@[simp] theorem view_mp2ProcessList : (m.view xs).mp2ProcessList = xs := rfl

@[simp] theorem view_slab : (m.view xs).slab = m.module.slab := rfl

@[simp] theorem view_jiffies : (m.view xs).jiffies = m.module.jiffies := rfl

theorem holds_boot (memory : RecPtr → Mp2TaskStruct) (links : Lib.Links Node) (jiffies : UInt64) :
    Holds (Mp2Memory.boot memory links jiffies).links [] := holds_initListHead links

/-- A loop that frees nothing before it leaves runs its body over the records. -/
theorem forEachTask_eq (body : RecPtr → Mp2Memory × τ → (Mp2Memory × τ) × Bool) {t : τ}
    (hbody : ∀ i s, (body i s).2 = true → (body i s).1.1.links = s.1.links)
    (h : Holds m.links xs) (hfuel : xs.length < fuel) :
    forEachTask body fuel (m, t) = some (foldUntil body xs (m, t)) :=
  forEachEntry_eq (fun s : Mp2Memory × τ => s.1.links) hbody h hfuel

/-! ### The bodies -/

theorem foldUntil_admissionBody (p q : UInt64) (seen : List TaskParams) :
    foldUntil admissionBody xs (m, p, q, seen) =
      (m, xs.foldl (fun acc i => acc + (m.module.slab i).period) p,
        xs.foldl (fun acc i => acc + (m.module.slab i).processingTime) q,
        seen ++ taskSet (m.view xs)) := by
  induction xs generalizing p q seen with
  | nil => simp [taskSet]
  | cons x xs ih =>
      show foldUntil admissionBody xs (m, _, _, seen ++ [(m.module.slab x).params]) = _
      rw [ih, List.append_assoc]
      rfl

theorem foldUntil_searchBody (pid : UInt32) :
    foldUntil (searchBody pid) xs (m, none) =
      (m, xs.find? fun i => (m.module.slab i).pid = pid) := by
  rw [foldUntil_eq_find? (p := fun i => decide ((m.module.slab i).pid = pid))
    (f := fun i _ => (m, some i))]
  · cases xs.find? _ with
    | none => rfl
    | some i => rfl
  · intro i _
    simp [searchBody]

theorem foldUntil_dispatcherBody (best : UInt64 × Option RecPtr) :
    foldUntil dispatcherBody xs (m, best) =
      (m, scan (fun i => decide ((m.module.slab i).state = .ready))
        (fun i => (m.module.slab i).period) best xs) := by
  induction xs generalizing best with
  | nil => rfl
  | cons x xs ih =>
      have hbody : dispatcherBody x (m, best) =
          ((m, improve (fun i => decide ((m.module.slab i).state = .ready))
            (fun i => (m.module.slab i).period) best x), true) := by
        simp only [dispatcherBody, improve, decide_eq_true_iff]
        split <;> rfl
      rw [foldUntil_cons, hbody, KernelDev.Lib.scan_cons]
      exact ih _

/-! ### The functions -/

theorem mp2AdmissionControl_eq (h : Holds m.links xs) (hfuel : xs.length < fuel)
    (period processingTime : UInt64) :
    m.mp2AdmissionControl period processingTime fuel =
      some (Rms.mp2AdmissionControl (m.view xs) period processingTime, taskSet (m.view xs)) := by
  rw [mp2AdmissionControl, forEachTask_eq _ (fun _ _ _ => rfl) h hfuel, foldUntil_admissionBody]
  rw [Rms.mp2AdmissionControl, view_mp2ProcessList, view_slab]
  simp only [Option.bind_eq_bind, Option.bind_some, List.nil_append]
  split
  · rfl
  · split
    · rfl
    · rfl

/-- The search finds what the search of the list finds. -/
theorem search_eq (h : Holds m.links xs) (hfuel : xs.length < fuel) (pid : UInt32) :
    forEachTask (searchBody pid) fuel (m, none) =
      some (m, xs.find? fun i => (m.module.slab i).pid = pid) := by
  rw [forEachTask_eq _ ?_ h hfuel, foldUntil_searchBody]
  intro i s hgo
  unfold searchBody at hgo ⊢
  split
  · rfl
  · rfl

theorem mp2RegistrationInsert_eq (msecsToJiffies : UInt32 → UInt64) (h : Holds m.links xs)
    (hfuel : xs.length < fuel) (hfresh : m.module.freeRec ∉ xs) (c : RegCall) (alloc : Bool)
    (found : TaskPtr) :
    ∃ rv m' ys, m.mp2RegistrationInsert msecsToJiffies c alloc found fuel = some (rv, m') ∧
      Rms.mp2RegistrationInsert msecsToJiffies c alloc found (m.view xs) = (rv, m'.view ys) ∧
      Holds m'.links ys := by
  rw [mp2RegistrationInsert, search_eq h hfuel, Rms.mp2RegistrationInsert]
  simp only [Option.bind_eq_bind, Option.bind_some]
  have hany : ((m.view xs).mp2ProcessList.any fun i => ((m.view xs).slab i).pid = c.pid) =
      (xs.find? fun i => (m.module.slab i).pid = c.pid).isSome := by
    rw [List.isSome_find?]
    rfl
  rw [hany]
  by_cases hdup : (xs.find? fun i => (m.module.slab i).pid = c.pid).isSome = true
  · rw [if_pos hdup, if_pos hdup]
    exact ⟨0, m, xs, rfl, rfl, h⟩
  · rw [if_neg hdup, if_neg hdup]
    cases alloc with
    | false => exact ⟨-1, m, xs, rfl, rfl, h⟩
    | true =>
        have hinit : Holds (initListHead (.entry m.module.freeRec) m.links) xs :=
          h.initEntry hfresh
        by_cases hfound : found = 0
        · subst hfound
          exact ⟨-1, _, xs, rfl, rfl, hinit⟩
        · simp only [Bool.not_true, Bool.false_eq_true, if_false, if_neg hfound]
          exact ⟨0, _, xs ++ [m.module.freeRec], rfl, rfl, hinit.addTail hfresh⟩

theorem mp2Yield_eq (h : Holds m.links xs) (hfuel : xs.length < fuel) (writer : TaskPtr)
    (pid : UInt32) :
    ∃ m', m.mp2Yield writer pid fuel = some m' ∧
      Rms.mp2Yield writer pid (m.view xs) = m'.view xs ∧ Holds m'.links xs := by
  rw [mp2Yield, search_eq h hfuel, Rms.mp2Yield]
  simp only [Option.bind_eq_bind, Option.bind_some]
  rw [view_mp2ProcessList, view_slab]
  cases xs.find? fun i => (m.module.slab i).pid = pid with
  | none => exact ⟨m, rfl, rfl, h⟩
  | some y =>
      by_cases htime : m.module.jiffies < (m.module.slab y).deadlineJiff
      · simp only [if_pos htime]
        refine ⟨_, rfl, ?_, h⟩
        exact if_pos htime
      · simp only [if_neg htime]
        refine ⟨_, rfl, ?_, h⟩
        exact if_neg htime

theorem mp2Deregistration_eq (junk : RecPtr → Link Node) (h : Holds m.links xs)
    (hfuel : xs.length < fuel) (pid : UInt32) :
    ∃ m' ys, m.mp2Deregistration junk pid fuel = some m' ∧
      Rms.mp2Deregistration pid (m.view xs) = m'.view ys ∧ Holds m'.links ys := by
  rw [mp2Deregistration, forEachTask_eq _ ?_ h hfuel]
  · rw [ foldUntil_eq_find?
      (p := fun i => decide ((m.module.slab i).pid = pid))
      (f := fun i s => (s.1.release junk i, ()))
      (fun x _ => by simp), Rms.mp2Deregistration, view_mp2ProcessList, view_slab]
    cases hfind : xs.find? fun i => (m.module.slab i).pid = pid with
    | none => exact ⟨m, xs, rfl, rfl, h⟩
    | some d =>
        refine ⟨m.release junk d, xs.erase d, rfl, rfl, ?_⟩
        exact h.freeEntry (List.mem_of_find?_eq_some hfind)
  · intro i s hgo
    split
    · next hpid =>
        rw [if_pos hpid] at hgo
        cases hgo
    · rfl

/-- The loops of `mp2_timer_callback`, over the list and in memory. -/
theorem callbackLoop_view (msecsToJiffies : UInt32 → UInt64) (a : RecPtr) (xs ys : List RecPtr)
    (m : Mp2Memory) :
    ∃ s : Mp2, foldUntil (fun i (s : Mp2Memory × Unit) =>
        if (s.1.module.slab i).pid = (s.1.module.slab a).pid then
          (({ s.1 with module := timerRelease msecsToJiffies a s.1.module }, ()), true)
        else (s, true)) ys (m, ()) = (⟨s, m.links⟩, ()) ∧
      ys.foldl (fun s i => if (s.slab i).pid = (s.slab a).pid
        then timerRelease msecsToJiffies a s else s) (m.view xs) =
          { s with mp2ProcessList := xs } := by
  induction ys generalizing m with
  | nil => exact ⟨m.module, rfl, rfl⟩
  | cons y ys ih =>
      rw [foldUntil_cons, List.foldl_cons, view_slab]
      by_cases hpid : (m.module.slab y).pid = (m.module.slab a).pid
      · simp only [if_pos hpid]
        exact ih { m with module := timerRelease msecsToJiffies a m.module }
      · simp only [if_neg hpid]
        exact ih m

theorem mp2TimerCallback_eq (msecsToJiffies : UInt32 → UInt64) (h : Holds m.links xs)
    (hfuel : xs.length < fuel) (a : RecPtr) :
    ∃ m', m.mp2TimerCallback msecsToJiffies a fuel = some m' ∧
      Rms.mp2TimerCallback msecsToJiffies a (m.view xs) = m'.view xs ∧ Holds m'.links xs := by
  rw [mp2TimerCallback, forEachTask_eq _ ?_ h hfuel]
  · obtain ⟨s, hmem, hlist⟩ := callbackLoop_view msecsToJiffies a xs xs m
    rw [hmem]
    exact ⟨⟨s, m.links⟩, rfl, hlist, h⟩
  · intro i s _
    split
    · rfl
    · rfl

theorem preemptCurrTask_view :
    (preemptCurrTask (m.view xs)).1 =
      { (preemptCurrTask m.module).1 with mp2ProcessList := xs } := by
  unfold preemptCurrTask
  show (match m.module.mp2CurrTask with
    | none => (m.view xs, [])
    | some c => _).1 = _
  cases m.module.mp2CurrTask with
  | none => rfl
  | some c => rfl

theorem mp2DispatcherPass_eq (h : Holds m.links xs) (hfuel : xs.length < fuel) :
    ∃ m', m.mp2DispatcherPass fuel = some m' ∧
      (Rms.mp2DispatcherPass (m.view xs)).1 = m'.view xs ∧ Holds m'.links xs := by
  have hscan : highestPriorityTask (m.view xs) =
      (scan (fun i => decide ((m.module.slab i).state = .ready))
        (fun i => (m.module.slab i).period) (dispatchStart m.module) xs).2 := rfl
  rw [mp2DispatcherPass, forEachTask_eq _ ?_ h hfuel, foldUntil_dispatcherBody,
    Rms.mp2DispatcherPass, hscan]
  · simp only [Option.bind_eq_bind, Option.bind_some]
    cases (scan (fun i => decide ((m.module.slab i).state = .ready))
      (fun i => (m.module.slab i).period) (dispatchStart m.module) xs).2 with
    | none => exact ⟨m, rfl, rfl, h⟩
    | some t =>
        by_cases hcurr : m.module.mp2CurrTask = some t
        · have hcurr' : (m.view xs).mp2CurrTask = some t := hcurr
          simp only [if_pos hcurr, if_pos hcurr']
          exact ⟨m, rfl, rfl, h⟩
        · have hcurr' : ¬ (m.view xs).mp2CurrTask = some t := hcurr
          simp only [if_neg hcurr, if_neg hcurr']
          refine ⟨_, rfl, ?_, h⟩
          show (switchTo t (preemptCurrTask (m.view xs)).1).1 = _
          rw [preemptCurrTask_view]
          rfl
  · intro i s _
    unfold dispatcherBody
    dsimp only
    split
    · rfl
    · rfl

/-- The loops of `mp2_exit`, over the list and in memory. -/
theorem exitLoop_view (junk : RecPtr → Link Node) (xs : List RecPtr) (m : Mp2Memory) :
    xs.foldl (fun s i =>
        let s := s.delTimer i
        let s := { s with mp2ProcessList := s.mp2ProcessList.erase i }
        s.kmemCacheFree i) (m.view xs) =
      (xs.foldl (fun (s : Mp2Memory × Unit) i => (s.1.release junk i, ())) (m, ())).1.view [] := by
  induction xs generalizing m with
  | nil => rfl
  | cons x xs ih =>
      refine Eq.trans ?_ (ih (m.release junk x))
      rw [List.foldl_cons]
      apply congrArg (fun s => List.foldl _ s xs)
      -- the record at the front is the one erased
      show { (m.release junk x).module with mp2ProcessList := (x :: xs).erase x } =
        (m.release junk x).view xs
      rw [List.erase_cons_head]
      rfl

/-- `mp2_exit` frees the records of the list, each once, whatever freed memory comes to hold, and
leaves an empty list. -/
theorem mp2Exit_eq (junk : RecPtr → Link Node) (h : Holds m.links xs) (hfuel : xs.length < fuel) :
    ∃ m', m.mp2Exit junk fuel = some m' ∧ Rms.mp2Exit (m.view xs) = m'.view [] ∧
      Holds m'.links [] := by
  obtain ⟨hloop, hempty⟩ := forEachEntry_drain (s := (m, ())) (fun s => s.1.links)
    (fun i s => (s.1.release junk i, ())) junk (fun _ _ => rfl) h hfuel
  rw [mp2Exit, forEachTask, hloop]
  refine ⟨_, rfl, ?_, hempty⟩
  rw [Rms.mp2Exit, view_mp2ProcessList]
  exact exitLoop_view junk xs m

end Mp2Memory

end KernelDev.Rms
