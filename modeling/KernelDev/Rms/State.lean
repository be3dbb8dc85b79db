/-
# KernelDev.Rms.State — the records, the module state and the kernel calls of the RMS scheduler

The rate-monotonic scheduling module keeps one `mp2_task_struct` per registered process in
`mp2_process_list` and a second reference to one of them in `mp2_curr_task`. Records live in a slab
cache, so a reference can outlive its record: pointers are addresses into `slab`, and an address is
allocated while it is in `live`. Reading a freed address reads whatever the memory holds, and the
cache may hand out a freed address again.

What the module touches of the kernel is part of the state: the pending timers and the callbacks
that have been fired but not run, `jiffies`, and for every process its scheduling attributes and
whether the module has put it to sleep. A `struct task_struct *` is a number, `0` being NULL.
-/
import Mathlib.Logic.Function.Basic

namespace KernelDev.Rms

/-! ## The data model -/

/-- `enum task_state`. -/
inductive TaskState
  | ready
  | running
  | sleeping
  deriving DecidableEq, Repr

/-- A `struct task_struct *`; `0` is NULL. -/
abbrev TaskPtr := Nat

/-- A `struct mp2_task_struct *` into the cache. -/
abbrev RecPtr := Nat

/-- `struct mp2_task_struct`. The list links are `Mp2.mp2ProcessList`, and whether `wakeup_timer` is
queued is the kernel's business (`Mp2.pendingTimer`). -/
structure Mp2TaskStruct where
  pid : UInt32
  period : UInt64
  processingTime : UInt64
  deadlineJiff : UInt64
  task : TaskPtr
  state : TaskState
  deriving DecidableEq, Repr

inductive SchedPolicy
  | schedNormal
  | schedFifo
  deriving DecidableEq, Repr

/-- The two fields of `struct sched_attr` that the dispatcher sets. -/
structure SchedAttr where
  schedPolicy : SchedPolicy
  schedPriority : Nat
  deriving DecidableEq, Repr

/-- The attributes a preempted task is given. -/
def normalAttr : SchedAttr := ⟨.schedNormal, 0⟩

/-- The attributes the chosen task is given. -/
def fifoAttr : SchedAttr := ⟨.schedFifo, 99⟩

/-- The arguments of one `mp2_registration` call and the process that issued the write. -/
structure RegCall where
  writer : TaskPtr
  pid : UInt32
  period : UInt64
  processingTime : UInt64
  deriving DecidableEq, Repr

/-- What admission reads of a task, and the pid it is registered under. -/
structure TaskParams where
  pid : UInt32
  period : UInt64
  processingTime : UInt64
  deriving DecidableEq, Repr

def Mp2TaskStruct.params (r : Mp2TaskStruct) : TaskParams := ⟨r.pid, r.period, r.processingTime⟩

def RegCall.params (c : RegCall) : TaskParams := ⟨c.pid, c.period, c.processingTime⟩

/-- A registration between its two critical sections. `seen` is history: the tasks of the process
list as `mp2_admission_control` read it. -/
structure Admitted where
  call : RegCall
  seen : List TaskParams
  deriving DecidableEq, Repr

def ulongMax : UInt64 := 0xFFFFFFFFFFFFFFFF

/-- The module and what it touches of the kernel. -/
structure Mp2 where
  /-- Contents of the cache's memory, allocated or not. -/
  slab : RecPtr → Mp2TaskStruct
  /-- Records allocated and not freed. -/
  live : List RecPtr
  /-- Every record handed out so far lies below. -/
  nextRec : RecPtr
  /-- A freed record at the head of the cache's free list. Without one the cache hands out memory
  that it has not handed out before. -/
  recycled : Option RecPtr
  mp2ProcessList : List RecPtr
  mp2CurrTask : Option RecPtr
  /-- Expiry of the timer embedded in a record, while it is queued. -/
  pendingTimer : RecPtr → Option UInt64
  /-- Timers that have expired and whose callback has not taken the lock yet. -/
  firedTimers : List RecPtr
  jiffies : UInt64
  attr : TaskPtr → SchedAttr
  /-- Put to `TASK_UNINTERRUPTIBLE` by the module and not woken since. -/
  blocked : TaskPtr → Bool
  /-- Registrations that passed admission and have not entered their second section. -/
  admitted : List Admitted

/-- The state right after `mp2_init`, over whatever the memory and the clock hold. -/
def Mp2.boot (memory : RecPtr → Mp2TaskStruct) (jiffies : UInt64) : Mp2 where
  slab := memory
  live := []
  nextRec := 0
  recycled := none
  mp2ProcessList := []
  mp2CurrTask := none
  pendingTimer := fun _ => none
  firedTimers := []
  jiffies := jiffies
  attr := fun _ => normalAttr
  blocked := fun _ => false
  admitted := []

/-- The process list as a task set. -/
def taskSet (s : Mp2) : List TaskParams := s.mp2ProcessList.map fun a => (s.slab a).params

namespace Mp2

variable (s : Mp2) (a b : RecPtr) (r : Mp2TaskStruct) (st : TaskState) (t : TaskPtr)

/-! ## Writes to a record -/

/-- Store a whole record. -/
def store (r : Mp2TaskStruct) : Mp2 := { s with slab := Function.update s.slab a r }

/-- `a->state = st`. -/
def setState : Mp2 := s.store a { s.slab a with state := st }

@[simp] theorem store_slab_same : (s.store a r).slab a = r := by simp [store]

@[simp] theorem store_slab_other {a b : RecPtr} (h : b ≠ a) :
    (s.store a r).slab b = s.slab b := by simp [store, h]

@[simp] theorem setState_state_same : ((s.setState a st).slab a).state = st := by simp [setState]

theorem setState_slab_other {a b : RecPtr} (h : b ≠ a) :
    (s.setState a st).slab b = s.slab b := by simp [setState, h]

/-- Only the state field of a record changes. -/
theorem setState_slab_eq : (s.setState a st).slab b =
    { s.slab b with state := if b = a then st else (s.slab b).state } := by
  by_cases h : b = a
  · subst h; simp [setState]
  · simp [setState_slab_other s st h, h]

@[simp] theorem setState_pid : ((s.setState a st).slab b).pid = (s.slab b).pid := by
  simp [setState_slab_eq]

@[simp] theorem setState_period : ((s.setState a st).slab b).period = (s.slab b).period := by
  simp [setState_slab_eq]

@[simp] theorem setState_processingTime :
    ((s.setState a st).slab b).processingTime = (s.slab b).processingTime := by
  simp [setState_slab_eq]

@[simp] theorem setState_deadlineJiff :
    ((s.setState a st).slab b).deadlineJiff = (s.slab b).deadlineJiff := by
  simp [setState_slab_eq]

@[simp] theorem setState_task : ((s.setState a st).slab b).task = (s.slab b).task := by
  simp [setState_slab_eq]

/-! ## The kernel calls -/

/-- `del_timer(&a->wakeup_timer)`: it only takes a queued timer off the queue. -/
def delTimer : Mp2 := { s with pendingTimer := Function.update s.pendingTimer a none }

/-- `mod_timer(&a->wakeup_timer, expires)`. -/
def modTimer (expires : UInt64) : Mp2 :=
  { s with pendingTimer := Function.update s.pendingTimer a (some expires) }

/-- `timer_setup(&a->wakeup_timer, ...)`: from then on the timer counts as not queued. It does not
look whether it was. What becomes of a node that is still in the timer wheel is undefined; here its
callback may come at any time. -/
def timerSetup : Mp2 := { s with
  pendingTimer := Function.update s.pendingTimer a none
  firedTimers := if (s.pendingTimer a).isSome then a :: s.firedTimers else s.firedTimers }

/-- What has fired after a set-up fired before, or is the node left in the wheel. -/
theorem mem_timerSetup_firedTimers {s : Mp2} {a b : RecPtr} :
    b ∈ (s.timerSetup a).firedTimers ↔
      b ∈ s.firedTimers ∨ b = a ∧ (s.pendingTimer b).isSome := by
  unfold timerSetup
  by_cases hqueued : (s.pendingTimer a).isSome
  · simp only [hqueued, if_true, List.mem_cons, or_comm (a := b = a)]
    exact or_congr_right ⟨fun h => ⟨h, h ▸ hqueued⟩, And.left⟩
  · simp only [hqueued, if_false, Bool.false_eq_true]
    refine ⟨.inl, ?_⟩
    rintro (h | ⟨rfl, h⟩)
    · exact h
    · exact absurd h hqueued

theorem timerSetup_count_of_ne {s : Mp2} {a b : RecPtr} (h : b ≠ a) :
    (s.timerSetup a).firedTimers.count b = s.firedTimers.count b := by
  unfold timerSetup
  split
  · exact List.count_cons_of_ne (Ne.symm h)
  · rfl

/-- `set_current_state(TASK_UNINTERRUPTIBLE)` executed by `t`. -/
def setUninterruptible : Mp2 := { s with blocked := Function.update s.blocked t true }

/-- `kmem_cache_free`. The memory keeps its contents. -/
def kmemCacheFree : Mp2 := { s with live := s.live.erase a }

/-- The record that the cache hands out next. -/
def freeRec : RecPtr := s.recycled.getD s.nextRec

/-- `kmem_cache_alloc` when it succeeds: a record that is not allocated, freed before or never
handed out, as uninitialised as the memory it is made of. -/
def kmemCacheAlloc : RecPtr × Mp2 :=
  (s.freeRec, { s with
    live := s.freeRec :: s.live
    nextRec := max s.nextRec (s.freeRec + 1)
    recycled := none })

end Mp2

/-- The calls by which the dispatcher acts on a process. -/
inductive KernelCall
  | schedSetattrNocheck (task : TaskPtr) (attr : SchedAttr)
  | wakeUpProcess (task : TaskPtr)
  deriving DecidableEq, Repr

/-- The effect of a call. -/
def KernelCall.run : KernelCall → Mp2 → Mp2
  | .schedSetattrNocheck t at', s => { s with attr := Function.update s.attr t at' }
  | .wakeUpProcess t, s => { s with blocked := Function.update s.blocked t false }

end KernelDev.Rms
