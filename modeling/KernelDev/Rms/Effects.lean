/-
# KernelDev.Rms.Effects — everything each operation can do to the state

One lemma per operation, saying in full which outcomes it has and what the state after each of them
is. Every invariant and every law about runs is derived from these; no later proof unfolds an
operation.
-/
import KernelDev.Rms.Operations

namespace KernelDev.Rms

open KernelDev.Lib (scan scan_cases)

variable {s : Mp2}

/-! ## The dispatcher -/

@[simp] theorem dispatchStart_snd (s : Mp2) : (dispatchStart s).2 = s.mp2CurrTask := by
  unfold dispatchStart
  cases s.mp2CurrTask <;> rfl

theorem dispatchStart_fst_none (h : s.mp2CurrTask = none) : (dispatchStart s).1 = ulongMax := by
  simp [dispatchStart, h]

theorem dispatchStart_fst_some {c : RecPtr} (h : s.mp2CurrTask = some c) :
    (dispatchStart s).1 = (s.slab c).period := by
  simp [dispatchStart, h]

/-- The state after a pass that dispatches `h`: the current record is READY and its process demoted,
`h` is RUNNING, its process promoted and woken, and `mp2_curr_task` is `h`. -/
def dispatched (h : RecPtr) (s : Mp2) : Mp2 :=
  let preempted := (preemptCurrTask s).1
  { preempted.setState h .running with
    mp2CurrTask := some h
    attr := Function.update preempted.attr (s.slab h).task fifoAttr
    blocked := Function.update s.blocked (s.slab h).task false }

theorem preemptCurrTask_task (s : Mp2) (b : RecPtr) :
    ((preemptCurrTask s).1.slab b).task = (s.slab b).task := by
  unfold preemptCurrTask
  cases s.mp2CurrTask <;> simp [KernelCall.run]

theorem preemptCurrTask_blocked (s : Mp2) : (preemptCurrTask s).1.blocked = s.blocked := by
  unfold preemptCurrTask
  cases s.mp2CurrTask <;> rfl

theorem switchTo_preempt (h : RecPtr) (s : Mp2) :
    switchTo h (preemptCurrTask s).1 = (dispatched h s,
      [.schedSetattrNocheck (s.slab h).task fifoAttr, .wakeUpProcess (s.slab h).task]) := by
  have htask := preemptCurrTask_task s h
  have hblocked := preemptCurrTask_blocked s
  simp [switchTo, dispatched, KernelCall.run, Mp2.setState, Mp2.store, htask, hblocked]

/-- **What a pass can do.** Either no READY task lies strictly below the starting bound and nothing
changes, or a READY task other than the current one, of least period among all READY tasks, is
dispatched. -/
theorem mp2DispatcherPass_cases (s : Mp2) :
    (mp2DispatcherPass s = (s, []) ∧
      ∀ i ∈ s.mp2ProcessList, (s.slab i).state = .ready → (dispatchStart s).1 ≤ (s.slab i).period) ∨
    ∃ h ∈ s.mp2ProcessList, (s.slab h).state = .ready ∧
      (s.slab h).period < (dispatchStart s).1 ∧
      (∀ i ∈ s.mp2ProcessList, (s.slab i).state = .ready → (s.slab h).period ≤ (s.slab i).period) ∧
      s.mp2CurrTask ≠ some h ∧
      mp2DispatcherPass s = (dispatched h s, (preemptCurrTask s).2 ++
        [.schedSetattrNocheck (s.slab h).task fifoAttr, .wakeUpProcess (s.slab h).task]) := by
  rcases scan_cases (fun i => decide ((s.slab i).state = .ready)) (fun i => (s.slab i).period)
      (dispatchStart s) s.mp2ProcessList with
    ⟨hstay, hmin⟩ | ⟨h, hmem, hready, hlt, hres, hmin⟩
  · left
    have hhigh : highestPriorityTask s = s.mp2CurrTask := by
      rw [highestPriorityTask, hstay, dispatchStart_snd]
    refine ⟨?_, by simpa using hmin⟩
    unfold mp2DispatcherPass
    rw [hhigh]
    cases s.mp2CurrTask with
    | none => rfl
    | some c => simp
  · right
    have hhigh : highestPriorityTask s = some h := by rw [highestPriorityTask, hres]
    have hne : s.mp2CurrTask ≠ some h := by
      intro hcurr
      rw [dispatchStart_fst_some hcurr] at hlt
      exact absurd hlt (UInt64.lt_irrefl _)
    refine ⟨h, hmem, by simpa using hready, hlt, by simpa using hmin, hne, ?_⟩
    unfold mp2DispatcherPass
    rw [hhigh]
    simp only [if_neg hne]
    rw [switchTo_preempt]

section Dispatched

variable (h b : RecPtr) (s : Mp2)

@[simp] theorem dispatched_mp2CurrTask : (dispatched h s).mp2CurrTask = some h := rfl

@[simp] theorem dispatched_mp2ProcessList :
    (dispatched h s).mp2ProcessList = s.mp2ProcessList := by
  unfold dispatched preemptCurrTask
  cases s.mp2CurrTask <;> rfl

@[simp] theorem dispatched_live : (dispatched h s).live = s.live := by
  unfold dispatched preemptCurrTask
  cases s.mp2CurrTask <;> rfl

@[simp] theorem dispatched_nextRec : (dispatched h s).nextRec = s.nextRec := by
  unfold dispatched preemptCurrTask
  cases s.mp2CurrTask <;> rfl

@[simp] theorem dispatched_recycled : (dispatched h s).recycled = s.recycled := by
  unfold dispatched preemptCurrTask
  cases s.mp2CurrTask <;> rfl

@[simp] theorem dispatched_pendingTimer : (dispatched h s).pendingTimer = s.pendingTimer := by
  unfold dispatched preemptCurrTask
  cases s.mp2CurrTask <;> rfl

@[simp] theorem dispatched_firedTimers : (dispatched h s).firedTimers = s.firedTimers := by
  unfold dispatched preemptCurrTask
  cases s.mp2CurrTask <;> rfl

@[simp] theorem dispatched_jiffies : (dispatched h s).jiffies = s.jiffies := by
  unfold dispatched preemptCurrTask
  cases s.mp2CurrTask <;> rfl

@[simp] theorem dispatched_admitted : (dispatched h s).admitted = s.admitted := by
  unfold dispatched preemptCurrTask
  cases s.mp2CurrTask <;> rfl

@[simp] theorem dispatched_blocked :
    (dispatched h s).blocked = Function.update s.blocked (s.slab h).task false := rfl

/-- The records differ in their state fields only. -/
theorem dispatched_slab : (dispatched h s).slab b =
    { s.slab b with
      state := if b = h then .running
        else if s.mp2CurrTask = some b then .ready else (s.slab b).state } := by
  have hpre : (preemptCurrTask s).1.slab b =
      { s.slab b with
        state := if s.mp2CurrTask = some b then .ready else (s.slab b).state } := by
    unfold preemptCurrTask
    cases hc : s.mp2CurrTask with
    | none => simp
    | some c =>
        simp only [Mp2.setState_slab_eq, KernelCall.run, Option.some.injEq, eq_comm (a := c)]
  show ((preemptCurrTask s).1.setState h .running).slab b = _
  rw [Mp2.setState_slab_eq, hpre]

@[simp] theorem dispatched_pid : ((dispatched h s).slab b).pid = (s.slab b).pid := by
  rw [dispatched_slab]

@[simp] theorem dispatched_period : ((dispatched h s).slab b).period = (s.slab b).period := by
  rw [dispatched_slab]

@[simp] theorem dispatched_processingTime :
    ((dispatched h s).slab b).processingTime = (s.slab b).processingTime := by
  rw [dispatched_slab]

@[simp] theorem dispatched_task : ((dispatched h s).slab b).task = (s.slab b).task := by
  rw [dispatched_slab]

/-- Only the dispatched process can hold attributes other than the normal ones that the current
process did not lose. -/
theorem dispatched_attr (p : TaskPtr) : (dispatched h s).attr p =
    if p = (s.slab h).task then fifoAttr
    else if (∃ c, s.mp2CurrTask = some c ∧ (s.slab c).task = p) then normalAttr
    else s.attr p := by
  simp only [dispatched, preemptCurrTask, Function.update_apply]
  split
  · rfl
  · cases s.mp2CurrTask with
    | none => simp
    | some c =>
        simp [KernelCall.run, Mp2.setState, Mp2.store, Function.update_apply, eq_comm]

end Dispatched

/-! ## The timer callback -/

section TimerCallback

variable {msecsToJiffies : UInt32 → UInt64}

/-- Record `a` released with its next deadline at `d` and its timer queued for it. -/
def released (a : RecPtr) (d : UInt64) (s : Mp2) : Mp2 :=
  { s.store a { s.slab a with state := .ready, deadlineJiff := d } with
    pendingTimer := Function.update s.pendingTimer a (some d) }

theorem timerRelease_eq (a : RecPtr) (s : Mp2) :
    timerRelease msecsToJiffies a s =
      released a ((s.slab a).deadlineJiff + msecsToJiffies (s.slab a).period.toUInt32) s := by
  simp [timerRelease, released, Mp2.setState, Mp2.store, Mp2.modTimer]

theorem released_slab (a b : RecPtr) (d : UInt64) (s : Mp2) : (released a d s).slab b =
    if b = a then { s.slab a with state := .ready, deadlineJiff := d } else s.slab b := by
  by_cases h : b = a
  · subst h; simp [released]
  · simp [released, h]

@[simp] theorem released_pid (a b : RecPtr) (d : UInt64) (s : Mp2) :
    ((released a d s).slab b).pid = (s.slab b).pid := by
  rw [released_slab]
  split
  · next h => rw [h]
  · rfl

theorem released_released (a : RecPtr) (d e : UInt64) (s : Mp2) :
    released a e (released a d s) = released a e s := by
  simp [released, Mp2.store]

/-- **What a callback can do.** Nothing, when no listed record carries the pid it reads; otherwise
it releases its own record, however often it does so. -/
theorem mp2TimerCallback_cases (msecsToJiffies : UInt32 → UInt64) (a : RecPtr) (s : Mp2) :
    (mp2TimerCallback msecsToJiffies a s = s ∧
      ∀ i ∈ s.mp2ProcessList, (s.slab i).pid ≠ (s.slab a).pid) ∨
    (∃ i ∈ s.mp2ProcessList, (s.slab i).pid = (s.slab a).pid) ∧
      ∃ d, mp2TimerCallback msecsToJiffies a s = released a d s := by
  -- the loop keeps the state of one of the two shapes, and leaves the first at the first match
  have hreleased : ∀ (xs : List RecPtr) (d : UInt64), ∃ e,
      xs.foldl (fun s i => if (s.slab i).pid = (s.slab a).pid
        then timerRelease msecsToJiffies a s else s) (released a d s) = released a e s := by
    intro xs
    induction xs with
    | nil => exact fun d => ⟨d, rfl⟩
    | cons x xs ih =>
        intro d
        simp only [List.foldl_cons]
        split
        · rw [timerRelease_eq, released_released]
          exact ih _
        · exact ih d
  have hloop : ∀ xs : List RecPtr,
      (xs.foldl (fun s i => if (s.slab i).pid = (s.slab a).pid
        then timerRelease msecsToJiffies a s else s) s = s ∧
        ∀ i ∈ xs, (s.slab i).pid ≠ (s.slab a).pid) ∨
      (∃ i ∈ xs, (s.slab i).pid = (s.slab a).pid) ∧
        ∃ d, xs.foldl (fun s i => if (s.slab i).pid = (s.slab a).pid
          then timerRelease msecsToJiffies a s else s) s = released a d s := by
    intro xs
    induction xs with
    | nil => exact .inl ⟨rfl, by simp⟩
    | cons x xs ih =>
        simp only [List.foldl_cons]
        by_cases hx : (s.slab x).pid = (s.slab a).pid
        · rw [if_pos hx, timerRelease_eq]
          exact .inr ⟨⟨x, by simp, hx⟩, hreleased xs _⟩
        · rw [if_neg hx]
          rcases ih with ⟨hsame, hno⟩ | ⟨⟨i, hi, hpid⟩, hd⟩
          · exact .inl ⟨hsame, by simpa [hx] using hno⟩
          · exact .inr ⟨⟨i, by simp [hi], hpid⟩, hd⟩
  exact hloop s.mp2ProcessList

/-- The loop of a callback over entries none of which carries the pid it reads. -/
theorem timerLoop_of_ne {a : RecPtr} {s : Mp2} {xs : List RecPtr}
    (h : ∀ i ∈ xs, (s.slab i).pid ≠ (s.slab a).pid) :
    xs.foldl (fun s i => if (s.slab i).pid = (s.slab a).pid
      then timerRelease msecsToJiffies a s else s) s = s := by
  induction xs with
  | nil => rfl
  | cons x xs ih =>
      obtain ⟨hx, hxs⟩ := List.forall_mem_cons.mp h
      rw [List.foldl_cons, if_neg hx]
      exact ih hxs

/-- **On a list without two records of one pid a callback releases its record once**, by one
period. -/
theorem mp2TimerCallback_eq {a : RecPtr} {s : Mp2}
    (hpids : (s.mp2ProcessList.map fun i => (s.slab i).pid).Nodup) :
    mp2TimerCallback msecsToJiffies a s =
      if ∃ i ∈ s.mp2ProcessList, (s.slab i).pid = (s.slab a).pid then
        released a ((s.slab a).deadlineJiff + msecsToJiffies (s.slab a).period.toUInt32) s
      else s := by
  unfold mp2TimerCallback
  generalize s.mp2ProcessList = xs at hpids
  induction xs with
  | nil => simp
  | cons x xs ih =>
      obtain ⟨hx, hxs⟩ := List.nodup_cons.mp hpids
      rw [List.foldl_cons]
      by_cases hmatch : (s.slab x).pid = (s.slab a).pid
      · -- the match; no later entry has the same pid, and a release changes none
        rw [if_pos hmatch, if_pos ⟨x, List.mem_cons_self, hmatch⟩, timerRelease_eq]
        apply timerLoop_of_ne
        intro i hi heq
        rw [released_pid, released_pid, ← hmatch] at heq
        exact hx (List.mem_map.mpr ⟨i, hi, heq⟩)
      · rw [if_neg hmatch, ih hxs]
        simp [hmatch]

end TimerCallback

/-! ## Registration -/

section Registration

variable {msecsToJiffies : UInt32 → UInt64}

/-- The record `mp2_registration` fills in. -/
def newRecord (msecsToJiffies : UInt32 → UInt64) (c : RegCall) (found : TaskPtr) (s : Mp2) :
    Mp2TaskStruct where
  pid := c.pid
  period := c.period
  processingTime := c.processingTime
  deadlineJiff := s.jiffies + msecsToJiffies c.period.toUInt32
  state := .sleeping
  task := found

/-- The state with that record allocated and filled in, and not linked. -/
def allocated (msecsToJiffies : UInt32 → UInt64) (c : RegCall) (found : TaskPtr) (s : Mp2) : Mp2 :=
  { s with
    slab := Function.update s.slab s.freeRec (newRecord msecsToJiffies c found s)
    live := s.freeRec :: s.live
    nextRec := max s.nextRec (s.freeRec + 1)
    recycled := none }

/-- The state with the record linked, its timer set up and the writer put to sleep. -/
def linked (msecsToJiffies : UInt32 → UInt64) (c : RegCall) (found : TaskPtr) (s : Mp2) : Mp2 :=
  { (allocated msecsToJiffies c found s).timerSetup s.freeRec with
    blocked := Function.update s.blocked c.writer true
    mp2ProcessList := s.mp2ProcessList ++ [s.freeRec] }

theorem allocated_slab_of_ne {c : RegCall} {found : TaskPtr} {s : Mp2} {a : RecPtr}
    (ha : a ≠ s.freeRec) : (allocated msecsToJiffies c found s).slab a = s.slab a :=
  Function.update_of_ne ha _ _

/-- Of the records, linking changes what filling in does. -/
theorem linked_slab (c : RegCall) (found : TaskPtr) (s : Mp2) (a : RecPtr) :
    (linked msecsToJiffies c found s).slab a = (allocated msecsToJiffies c found s).slab a := rfl

theorem linked_slab_freeRec (c : RegCall) (found : TaskPtr) (s : Mp2) :
    (linked msecsToJiffies c found s).slab s.freeRec = newRecord msecsToJiffies c found s :=
  Function.update_self ..

theorem linked_params (c : RegCall) (found : TaskPtr) (s : Mp2) :
    ((linked msecsToJiffies c found s).slab s.freeRec).params = c.params := by
  rw [linked_slab_freeRec]
  rfl

theorem linked_pendingTimer_freeRec (c : RegCall) (found : TaskPtr) (s : Mp2) :
    (linked msecsToJiffies c found s).pendingTimer s.freeRec = none :=
  Function.update_self ..

/-- Linking leaves the queued timers of other records queued. -/
theorem linked_pendingTimer_of_ne {c : RegCall} {found : TaskPtr} {s : Mp2} {a : RecPtr}
    (ha : a ≠ s.freeRec) :
    (linked msecsToJiffies c found s).pendingTimer a = s.pendingTimer a :=
  Function.update_of_ne ha _ _

/-- **The outcomes of the second critical section of a registration.** -/
theorem mp2RegistrationInsert_cases (msecsToJiffies : UInt32 → UInt64) (c : RegCall) (alloc : Bool)
    (found : TaskPtr) (s : Mp2) :
    ((∃ i ∈ s.mp2ProcessList, (s.slab i).pid = c.pid) ∧
      mp2RegistrationInsert msecsToJiffies c alloc found s = (0, s)) ∨
    (∀ i ∈ s.mp2ProcessList, (s.slab i).pid ≠ c.pid) ∧
      ((alloc = false ∧ mp2RegistrationInsert msecsToJiffies c alloc found s = (-1, s)) ∨
        (alloc = true ∧ found = 0 ∧ mp2RegistrationInsert msecsToJiffies c alloc found s =
          (-1, allocated msecsToJiffies c found s)) ∨
        (alloc = true ∧ found ≠ 0 ∧ mp2RegistrationInsert msecsToJiffies c alloc found s =
          (0, linked msecsToJiffies c found s))) := by
  by_cases hdup : ∃ i ∈ s.mp2ProcessList, (s.slab i).pid = c.pid
  · left
    refine ⟨hdup, ?_⟩
    have hany : (s.mp2ProcessList.any fun i => decide ((s.slab i).pid = c.pid)) = true := by
      simpa using hdup
    rw [mp2RegistrationInsert, if_pos hany]
  · right
    have hany : ¬ (s.mp2ProcessList.any fun i => decide ((s.slab i).pid = c.pid)) = true := by
      simpa using hdup
    refine ⟨by simpa using hdup, ?_⟩
    rw [mp2RegistrationInsert, if_neg hany]
    cases alloc with
    | false => exact .inl ⟨rfl, rfl⟩
    | true =>
        by_cases hfound : found = 0
        · exact .inr (.inl ⟨rfl, hfound, by simp [hfound]; rfl⟩)
        · exact .inr (.inr ⟨rfl, hfound, by simp [hfound]; rfl⟩)

end Registration

/-! ## Yield -/

/-- The state after the on-time branch of a yield by `writer` of record `y`. -/
def yielded (writer : TaskPtr) (y : RecPtr) (s : Mp2) : Mp2 :=
  { s.setState y .sleeping with
    blocked := Function.update s.blocked writer true
    pendingTimer := Function.update s.pendingTimer y (some (s.slab y).deadlineJiff) }

/-- **What a yield can do.** -/
theorem mp2Yield_cases (writer : TaskPtr) (pid : UInt32) (s : Mp2) :
    (mp2Yield writer pid s = s ∧ ∀ i ∈ s.mp2ProcessList, (s.slab i).pid ≠ pid) ∨
    ∃ y ∈ s.mp2ProcessList, (s.slab y).pid = pid ∧
      ((s.jiffies < (s.slab y).deadlineJiff ∧ mp2Yield writer pid s = yielded writer y s) ∨
        ((s.slab y).deadlineJiff ≤ s.jiffies ∧
          mp2Yield writer pid s = s.modTimer y s.jiffies)) := by
  unfold mp2Yield
  cases hfind : s.mp2ProcessList.find? fun i => decide ((s.slab i).pid = pid) with
  | none => exact .inl ⟨rfl, by simpa [List.find?_eq_none] using hfind⟩
  | some y =>
      have hpid : (s.slab y).pid = pid := by simpa using List.find?_some hfind
      refine .inr ⟨y, List.mem_of_find?_eq_some hfind, hpid, ?_⟩
      by_cases htime : s.jiffies < (s.slab y).deadlineJiff
      · refine .inl ⟨htime, ?_⟩
        simp [htime, yielded, Mp2.setUninterruptible, Mp2.modTimer, Mp2.setState, Mp2.store]
      · refine .inr ⟨UInt64.not_lt.mp htime, ?_⟩
        simp [htime]

/-! ## De-registration -/

/-- The state with record `d` unlinked and freed and its timer off the queue. -/
def removed (d : RecPtr) (s : Mp2) : Mp2 :=
  { s with
    pendingTimer := Function.update s.pendingTimer d none
    mp2ProcessList := s.mp2ProcessList.erase d
    live := s.live.erase d }

/-- **What a de-registration can do.** -/
theorem mp2Deregistration_cases (pid : UInt32) (s : Mp2) :
    (mp2Deregistration pid s = s ∧ ∀ i ∈ s.mp2ProcessList, (s.slab i).pid ≠ pid) ∨
    ∃ d ∈ s.mp2ProcessList, (s.slab d).pid = pid ∧ mp2Deregistration pid s = removed d s := by
  unfold mp2Deregistration
  cases hfind : s.mp2ProcessList.find? fun i => decide ((s.slab i).pid = pid) with
  | none => exact .inl ⟨rfl, by simpa [List.find?_eq_none] using hfind⟩
  | some d =>
      have hpid : (s.slab d).pid = pid := by simpa using List.find?_some hfind
      exact .inr ⟨d, List.mem_of_find?_eq_some hfind, hpid, rfl⟩

/-! ## Unloading -/

theorem diff_self_eq_nil (xs : List RecPtr) : xs.diff xs = [] := by
  induction xs with
  | nil => rfl
  | cons x xs ih => rw [List.diff_cons, List.erase_cons_head, ih]

theorem removeAll_lists (xs : List RecPtr) (s : Mp2) :
    (xs.foldl (fun s i => removed i s) s).mp2ProcessList = s.mp2ProcessList.diff xs ∧
      (xs.foldl (fun s i => removed i s) s).live = s.live.diff xs := by
  induction xs generalizing s with
  | nil => exact ⟨rfl, rfl⟩
  | cons x xs ih =>
      rw [List.foldl_cons, List.diff_cons, List.diff_cons]
      exact ih (removed x s)

/-- **What the unload loop leaves**: an empty list, and of the cache what was not listed. -/
theorem mp2Exit_lists (s : Mp2) :
    (mp2Exit s).mp2ProcessList = [] ∧ (mp2Exit s).live = s.live.diff s.mp2ProcessList := by
  obtain ⟨hlist, hlive⟩ := removeAll_lists s.mp2ProcessList s
  refine ⟨?_, hlive⟩
  show (s.mp2ProcessList.foldl (fun s i => removed i s) s).mp2ProcessList = []
  rw [hlist]
  exact diff_self_eq_nil _

end KernelDev.Rms
