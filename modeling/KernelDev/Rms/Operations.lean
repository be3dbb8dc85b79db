/-
# KernelDev.Rms.Operations — the operations of the scheduler, as `mp2.c` computes them

Each function below is one critical section of `mp2_proc_list_lock`, except that `mp2_registration`
has two: `mp2AdmissionControl`, which takes and releases the lock on its own, and
`mp2RegistrationInsert`. `mp2Registration` is the whole call run without interference.

The arguments a caller does not choose are parameters: `msecsToJiffies` is the kernel's
`msecs_to_jiffies` (its argument is an `unsigned int`, so a period is truncated on the way), `alloc`
says whether the slab allocator delivers (what it delivers is `Mp2.freeRec`), and `found` is what
`find_task_by_pid` returns.
-/
import KernelDev.Lib.Selection
import KernelDev.Rms.State

namespace KernelDev.Rms

open KernelDev.Lib (scan)

/-! ## mp2_dispatcher -/

/-- Where the scan of a pass starts: the current task's period, or `ULONG_MAX` without one. -/
def dispatchStart (s : Mp2) : UInt64 × Option RecPtr :=
  match s.mp2CurrTask with
  | none => (ulongMax, none)
  | some c => ((s.slab c).period, some c)

/-- `highest_priority_task` after the scan of the list. -/
def highestPriorityTask (s : Mp2) : Option RecPtr :=
  (scan (fun i => decide ((s.slab i).state = .ready)) (fun i => (s.slab i).period)
    (dispatchStart s) s.mp2ProcessList).2

/-- `Preempt the current task`: demote its process and mark the record READY, whatever its state. -/
def preemptCurrTask (s : Mp2) : Mp2 × List KernelCall :=
  match s.mp2CurrTask with
  | none => (s, [])
  | some c =>
      let demote := KernelCall.schedSetattrNocheck (s.slab c).task normalAttr
      ((demote.run s).setState c .ready, [demote])

/-- `Switch to the highest priority task`. -/
def switchTo (h : RecPtr) (s : Mp2) : Mp2 × List KernelCall :=
  let promote := KernelCall.schedSetattrNocheck (s.slab h).task fifoAttr
  let s := (promote.run s).setState h .running
  let s := { s with mp2CurrTask := some h }
  let wake := KernelCall.wakeUpProcess (s.slab h).task
  (wake.run s, [promote, wake])

/-- One pass of the `mp2_dispatcher` loop body under the lock, with the calls it makes in order. -/
def mp2DispatcherPass (s : Mp2) : Mp2 × List KernelCall :=
  match highestPriorityTask s with
  | none => (s, [])
  | some h =>
      -- also when the current record is READY or SLEEPING
      if s.mp2CurrTask = some h then (s, [])
      else
        let (s₁, calls₁) := preemptCurrTask s
        let (s₂, calls₂) := switchTo h s₁
        (s₂, calls₁ ++ calls₂)

/-! ## mp2_timer_callback -/

section
variable (msecsToJiffies : UInt32 → UInt64)

/-- What the callback does at a list entry that carries its record's pid. -/
def timerRelease (a : RecPtr) (s : Mp2) : Mp2 :=
  let s := s.setState a .ready
  let s := s.store a { s.slab a with
    deadlineJiff := (s.slab a).deadlineJiff + msecsToJiffies (s.slab a).period.toUInt32 }
  s.modTimer a (s.slab a).deadlineJiff

/-- `mp2_timer_callback` for the timer embedded in `a`, from taking the lock to releasing it. -/
def mp2TimerCallback (a : RecPtr) (s : Mp2) : Mp2 :=
  s.mp2ProcessList.foldl
    (fun s i => if (s.slab i).pid = (s.slab a).pid then timerRelease msecsToJiffies a s else s) s

/-! ## mp2_admission_control and mp2_registration -/

/-- `mp2_admission_control`: `some 0` admits, `some 1` rejects, `none` is the division by a total
period of zero. All sums and the product wrap. -/
def mp2AdmissionControl (s : Mp2) (period processingTime : UInt64) : Option Int :=
  let totalPeriod := s.mp2ProcessList.foldl (fun acc i => acc + (s.slab i).period) period
  let totalProcessingTime :=
    s.mp2ProcessList.foldl (fun acc i => acc + (s.slab i).processingTime) processingTime
  if totalPeriod = 0 then none
  -- `total_processing_time/total_period <= 0.693 [fixed point arithmetic]`
  else if totalProcessingTime * 1000 / totalPeriod ≤ 693 then some 0
  else some 1

/-- The second critical section of `mp2_registration`: the return value and the state. A record
whose process is not found stays allocated. -/
def mp2RegistrationInsert (c : RegCall) (alloc : Bool) (found : TaskPtr) (s : Mp2) : Int × Mp2 :=
  if s.mp2ProcessList.any fun i => (s.slab i).pid = c.pid then (0, s)
  else if !alloc then (-1, s)
  else
    let (newProc, s) := s.kmemCacheAlloc
    let s := s.store newProc
      { pid := c.pid, period := c.period, processingTime := c.processingTime,
        deadlineJiff := s.jiffies + msecsToJiffies c.period.toUInt32, state := .sleeping,
        task := found }
    if found = 0 then (-1, s)
    else
      let s := s.setUninterruptible c.writer
      let s := s.timerSetup newProc
      (0, { s with mp2ProcessList := s.mp2ProcessList ++ [newProc] })

/-- `mp2_registration` run without interference. The test `pid < 0` on an unsigned pid never
holds. -/
def mp2Registration (c : RegCall) (alloc : Bool) (found : TaskPtr) (s : Mp2) :
    Option (Int × Mp2) :=
  match mp2AdmissionControl s c.period c.processingTime with
  | none => none
  | some 0 => some (mp2RegistrationInsert msecsToJiffies c alloc found s)
  | some _ => some (1, s)

end

/-! ## mp2_yield -/

/-- `mp2_yield(pid)` executed by the process `writer`; it returns 0. -/
def mp2Yield (writer : TaskPtr) (pid : UInt32) (s : Mp2) : Mp2 :=
  match s.mp2ProcessList.find? fun i => (s.slab i).pid = pid with
  | none => s
  | some y =>
      if s.jiffies < (s.slab y).deadlineJiff then
        let s := s.setState y .sleeping
        -- the process put to sleep is the one that wrote the request, whose record `y` may not be
        let s := s.setUninterruptible writer
        s.modTimer y (s.slab y).deadlineJiff
      else s.modTimer y s.jiffies

/-! ## mp2_deregistration -/

/-- `mp2_deregistration(pid)`; it returns 0. -/
def mp2Deregistration (pid : UInt32) (s : Mp2) : Mp2 :=
  match s.mp2ProcessList.find? fun i => (s.slab i).pid = pid with
  | none => s
  | some d =>
      -- `del_timer`, not `del_timer_sync`; `mp2_curr_task` is not looked at
      let s := s.delTimer d
      let s := { s with mp2ProcessList := s.mp2ProcessList.erase d }
      s.kmemCacheFree d

/-! ## mp2_exit -/

/-- The loop of `mp2_exit` over the process list, between stopping the dispatcher and destroying the
cache. -/
def mp2Exit (s : Mp2) : Mp2 :=
  s.mp2ProcessList.foldl
    (fun s i =>
      let s := s.delTimer i
      let s := { s with mp2ProcessList := s.mp2ProcessList.erase i }
      s.kmemCacheFree i)
    s

end KernelDev.Rms
