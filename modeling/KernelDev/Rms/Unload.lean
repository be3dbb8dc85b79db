/-
# KernelDev.Rms.Unload — mp2_exit against the dispatcher thread

`mp2_exit` takes `mp2_proc_list_lock` and stops the dispatcher while it holds it. `kthread_stop`
sets the stop flag of the thread, wakes it and waits until its function has returned. The dispatcher
looks at the flag in one place, the test of its loop, and takes the lock right after it.

The steps of the threads are those of `Rms.DispatcherThread`, with the test of the loop as a step of
its own before the dispatcher goes for the lock. `exit` holds the lock from `locked` on, and while
it does nobody else takes it.
-/
import KernelDev.Rms.DispatcherThread

namespace KernelDev.Rms

open KernelDev.Lib

/-! ## The state -/

/-- Where `mp2_exit` is: what it has done last. It is inside `kthread_stop` in `stopping`, where the
flag is set and the dispatcher still to be woken, and in `waiting`. -/
inductive ExitPc
  | idle
  | locked
  | stopping
  | waiting
  | stopped
  | freed
  | unlocked
  deriving DecidableEq, Repr

namespace ExitPc

def holdsLock : ExitPc → Bool
  | .idle => false
  | .unlocked => false
  | _ => true

/-- It waits for the dispatcher to return. -/
def joins : ExitPc → Bool
  | .stopping => true
  | .waiting => true
  | _ => false

end ExitPc

/-- The module with its threads while it is unloaded. -/
structure Unloading where
  threads : Threads
  exit : ExitPc
  /-- KTHREAD_SHOULD_STOP of the dispatcher. -/
  shouldStop : Bool
  /-- The dispatcher has passed the test of its loop and not come back to it. -/
  inLoop : Bool
  /-- `mp2_dispatcher` has returned. -/
  returned : Bool

def Unloading.boot (memory : RecPtr → Mp2TaskStruct) (jiffies : UInt64) : Unloading where
  threads := Threads.boot memory jiffies
  exit := .idle
  shouldStop := false
  inLoop := false
  returned := false

/-- The dispatcher waits for the lock. -/
def Unloading.wantsLock (s : Unloading) : Bool := s.threads.dispatcher = .acquire ∧ s.inLoop

/-- `mp2_exit` holds the lock and waits for the dispatcher, which waits for the lock. -/
def Unloading.Deadlocked (s : Unloading) : Prop :=
  s.exit.holdsLock ∧ s.exit.joins ∧ s.wantsLock

instance : DecidablePred Unloading.Deadlocked := fun s =>
  inferInstanceAs (Decidable (s.exit.holdsLock ∧ s.exit.joins ∧ s.wantsLock))

/-! ## The steps -/

inductive UnloadAct
  | thread (act : ThreadAct)
  | loopTest
  | exitLock
  | exitStop
  | exitWake
  | exitJoined
  | exitFree
  | exitUnlock
  deriving DecidableEq, Repr

/-- The step takes `mp2_proc_list_lock`. -/
def ThreadAct.acquires : ThreadAct → Bool
  | .dispatcherAcquire => true
  | .callbackAcquire _ _ => true
  | .other act => act.takesLock
  | _ => false

section
variable (msecsToJiffies : UInt32 → UInt64)

def unloadStep : UnloadAct → Unloading → Option Unloading
  | .thread act, s =>
      if (act.acquires → s.exit.holdsLock = false) ∧ (act = .dispatcherAcquire → s.inLoop) then
        (threadStep msecsToJiffies act s.threads).map fun threads =>
          { s with
            threads := threads
            inLoop := if act = .dispatcherRelease then false else s.inLoop }
      else none
  | .loopTest, s =>
      -- `while(!kthread_should_stop())`
      if s.threads.dispatcher = .acquire ∧ s.inLoop = false ∧ s.returned = false then
        some (if s.shouldStop then { s with returned := true } else { s with inLoop := true })
      else none
  | .exitLock, s =>
      if s.exit = .idle ∧ s.threads.lock = none then some { s with exit := .locked } else none
  | .exitStop, s =>
      if s.exit = .locked then some { s with shouldStop := true, exit := .stopping } else none
  | .exitWake, s =>
      if s.exit = .stopping then
        some { s with threads := s.threads.wakeUpDispatcher, exit := .waiting }
      else none
  | .exitJoined, s =>
      if s.exit = .waiting ∧ s.returned then some { s with exit := .stopped } else none
  | .exitFree, s =>
      if s.exit = .stopped then
        some { s with threads := { s.threads with mp2 := mp2Exit s.threads.mp2 }, exit := .freed }
      else none
  | .exitUnlock, s => if s.exit = .freed then some { s with exit := .unlocked } else none

/-- The outcomes of the steps, one constructor each. -/
inductive UnloadEffect (s : Unloading) : UnloadAct → Unloading → Prop
  | thread {act : ThreadAct} {threads : Threads}
      (hfree : act.acquires → s.exit.holdsLock = false)
      (hloop : act = .dispatcherAcquire → s.inLoop)
      (he : ThreadEffect msecsToJiffies s.threads act threads) :
      UnloadEffect s (.thread act)
        { s with
          threads := threads
          inLoop := if act = .dispatcherRelease then false else s.inLoop }
  | loopReturn (hpc : s.threads.dispatcher = .acquire) (htop : s.inLoop = false)
      (hrun : s.returned = false) (hstop : s.shouldStop) :
      UnloadEffect s .loopTest { s with returned := true }
  | loopEnter (hpc : s.threads.dispatcher = .acquire) (htop : s.inLoop = false)
      (hrun : s.returned = false) (hstop : s.shouldStop = false) :
      UnloadEffect s .loopTest { s with inLoop := true }
  | exitLock (hpc : s.exit = .idle) (hfree : s.threads.lock = none) :
      UnloadEffect s .exitLock { s with exit := .locked }
  | exitStop (hpc : s.exit = .locked) :
      UnloadEffect s .exitStop { s with shouldStop := true, exit := .stopping }
  | exitWake (hpc : s.exit = .stopping) :
      UnloadEffect s .exitWake
        { s with threads := s.threads.wakeUpDispatcher, exit := .waiting }
  | exitJoined (hpc : s.exit = .waiting) (hret : s.returned) :
      UnloadEffect s .exitJoined { s with exit := .stopped }
  | exitFree (hpc : s.exit = .stopped) :
      UnloadEffect s .exitFree
        { s with threads := { s.threads with mp2 := mp2Exit s.threads.mp2 }, exit := .freed }
  | exitUnlock (hpc : s.exit = .freed) :
      UnloadEffect s .exitUnlock { s with exit := .unlocked }

variable {msecsToJiffies}

theorem unloadEffect_of_step {act : UnloadAct} {s t : Unloading}
    (h : unloadStep msecsToJiffies act s = some t) : UnloadEffect msecsToJiffies s act t := by
  cases act with
  | thread act =>
      simp only [unloadStep] at h
      split at h
      · next hguard =>
          obtain ⟨threads, hstep, rfl⟩ := Option.map_eq_some_iff.mp h
          exact .thread hguard.1 hguard.2 (threadEffect_of_step hstep)
      · cases h
  | loopTest =>
      simp only [unloadStep] at h
      split at h
      · next hguard =>
          obtain rfl := Option.some.inj h
          by_cases hstop : s.shouldStop
          · rw [if_pos hstop]
            exact .loopReturn hguard.1 hguard.2.1 hguard.2.2 hstop
          · rw [if_neg hstop]
            exact .loopEnter hguard.1 hguard.2.1 hguard.2.2 (Bool.not_eq_true _ ▸ hstop)
      · cases h
  | exitLock =>
      obtain ⟨⟨hpc, hfree⟩, rfl⟩ := by simpa [unloadStep] using h
      exact .exitLock hpc hfree
  | exitStop =>
      obtain ⟨hpc, rfl⟩ := by simpa [unloadStep] using h
      exact .exitStop hpc
  | exitWake =>
      obtain ⟨hpc, rfl⟩ := by simpa [unloadStep] using h
      exact .exitWake hpc
  | exitJoined =>
      obtain ⟨⟨hpc, hret⟩, rfl⟩ := by simpa [unloadStep] using h
      exact .exitJoined hpc hret
  | exitFree =>
      obtain ⟨hpc, rfl⟩ := by simpa [unloadStep] using h
      exact .exitFree hpc
  | exitUnlock =>
      obtain ⟨hpc, rfl⟩ := by simpa [unloadStep] using h
      exact .exitUnlock hpc

end

/-! ## Where the dispatcher can be -/

/-- The dispatcher is in `schedule`. -/
def DispatcherPc.inSchedule : DispatcherPc → Bool
  | .schedule => true
  | .blocked => true
  | _ => false

variable {msecsToJiffies : UInt32 → UInt64} {s t : Unloading} {act : UnloadAct}

/-- A wake-up changes where the dispatcher is only if it is asleep. -/
theorem wakeUp_dispatcher {s : Threads} (h : s.dispatcher ≠ .blocked) :
    s.wakeUpDispatcher.dispatcher = s.dispatcher := if_neg h

/-- The dispatcher gets into `schedule` by releasing the lock. -/
theorem inSchedule_of_effect {s t : Threads} {act : ThreadAct}
    (he : ThreadEffect msecsToJiffies s act t) (ht : t.dispatcher.inSchedule) :
    s.dispatcher.inSchedule ∨ act = .dispatcherRelease := by
  cases he with
  | dispatcherAcquire | dispatcherScan | dispatcherSetInterruptible => cases ht
  | dispatcherRelease => exact .inr rfl
  | dispatcherSchedule hpc => exact .inl (by rw [hpc]; rfl)
  | callbackAcquire | callbackMark | callbackRelease | other => exact .inl ht
  | @callbackWake i =>
      by_cases hpc : s.dispatcher = .blocked
      · exact .inl (by rw [hpc]; rfl)
      · rw [wakeUp_dispatcher (s := s.setCallback i .idle) hpc] at ht
        exact .inl ht

/-- The dispatcher gets to the top of its loop from `schedule`. -/
theorem acquire_of_effect {s t : Threads} {act : ThreadAct}
    (he : ThreadEffect msecsToJiffies s act t) (ht : t.dispatcher = .acquire) :
    s.dispatcher = .acquire ∨ s.dispatcher.inSchedule := by
  cases he with
  | dispatcherAcquire | dispatcherScan | dispatcherSetInterruptible | dispatcherRelease => cases ht
  | dispatcherSchedule hpc => exact .inr (by rw [hpc]; rfl)
  | callbackAcquire | callbackMark | callbackRelease | other => exact .inl ht
  | @callbackWake i =>
      by_cases hpc : s.dispatcher = .blocked
      · exact .inr (by rw [hpc]; rfl)
      · rw [wakeUp_dispatcher (s := s.setCallback i .idle) hpc] at ht
        exact .inl ht

/-- A thread gets the lock by acquiring it. -/
theorem lock_of_effect {s t : Threads} {act : ThreadAct}
    (he : ThreadEffect msecsToJiffies s act t) (hact : act.acquires = false)
    (hs : s.lock = none) : t.lock = none := by
  cases he with
  | dispatcherAcquire | callbackAcquire => cases hact
  | dispatcherRelease | callbackRelease => rfl
  | _ => exact hs

/-- What holds in every run of the unloading: the flag is set before the dispatcher is waited for,
the dispatcher has tested it since it was last in `schedule` only if it is not there and has not
returned, and nobody else holds the lock while `mp2_exit` does. -/
structure UnloadOrder (s : Unloading) : Prop where
  stopSet : s.exit.joins → s.shouldStop
  loop : s.inLoop → s.threads.dispatcher.inSchedule = false
  exclusive : s.exit.holdsLock → s.threads.lock = none
  running : s.inLoop → s.returned = false

theorem unloadOrder_boot (memory : RecPtr → Mp2TaskStruct) (jiffies : UInt64) :
    UnloadOrder (Unloading.boot memory jiffies) := by
  constructor <;> simp [Unloading.boot, ExitPc.joins, ExitPc.holdsLock]

theorem UnloadOrder.not_blocked (h : UnloadOrder s) (hin : s.inLoop) :
    s.threads.dispatcher ≠ .blocked := by
  intro hblocked
  have hloop := h.loop hin
  rw [hblocked] at hloop
  cases hloop

/-- A step of the threads does not pass the test of the loop. -/
theorem inLoop_of_thread {act : ThreadAct} {inLoop : Bool}
    (h : (if act = .dispatcherRelease then false else inLoop) = true) : inLoop := by
  split at h
  · cases h
  · exact h

theorem UnloadOrder.effect (h : UnloadOrder s) (he : UnloadEffect msecsToJiffies s act t) :
    UnloadOrder t := by
  cases he with
  | @thread act threads hfree hloop he =>
      refine ⟨h.stopSet, fun hin => ?_, fun hholds => ?_, fun hin => ?_⟩
      · by_contra hsched
        rcases inSchedule_of_effect he (Bool.not_eq_false _ ▸ hsched) with hs | hs
        · rw [h.loop (inLoop_of_thread hin)] at hs
          cases hs
        · simp [hs] at hin
      · have hact : act.acquires = false := by
          by_contra hacq
          rw [hfree (Bool.not_eq_false _ ▸ hacq)] at hholds
          cases hholds
        exact lock_of_effect he hact (h.exclusive hholds)
      · exact h.running (inLoop_of_thread hin)
  | loopReturn hpc htop =>
      refine ⟨h.stopSet, h.loop, h.exclusive, fun hin => ?_⟩
      replace hin : s.inLoop = true := hin
      rw [htop] at hin
      cases hin
  | loopEnter hpc htop hrun =>
      refine ⟨h.stopSet, fun _ => ?_, h.exclusive, fun _ => hrun⟩
      show s.threads.dispatcher.inSchedule = false
      rw [hpc]
      rfl
  | exitLock hpc hfree => exact ⟨fun hj => (by cases hj), h.loop, fun _ => hfree, h.running⟩
  | exitStop hpc =>
      exact ⟨fun _ => rfl, h.loop, fun _ => h.exclusive (by rw [hpc]; rfl), h.running⟩
  | exitWake hpc =>
      refine ⟨fun _ => h.stopSet (by rw [hpc]; rfl), fun hin => ?_,
        fun _ => h.exclusive (by rw [hpc]; rfl), h.running⟩
      show s.threads.wakeUpDispatcher.dispatcher.inSchedule = false
      rw [wakeUp_dispatcher (h.not_blocked hin)]
      exact h.loop hin
  | exitJoined hpc =>
      exact ⟨fun hj => (by cases hj), h.loop, fun _ => h.exclusive (by rw [hpc]; rfl), h.running⟩
  | exitFree hpc =>
      exact ⟨fun hj => (by cases hj), h.loop, fun _ => h.exclusive (by rw [hpc]; rfl), h.running⟩
  | exitUnlock hpc =>
      exact ⟨fun hj => (by cases hj), h.loop, fun hholds => (by cases hholds), h.running⟩

/-! ## The deadlock -/

/-- Once the flag is set the dispatcher does not go for the lock again. -/
theorem wantsLock_of_effect (h : UnloadOrder s) (he : UnloadEffect msecsToJiffies s act t)
    (hstop : s.shouldStop) (ht : t.wantsLock) : s.wantsLock := by
  simp only [Unloading.wantsLock, decide_eq_true_eq] at ht ⊢
  cases he with
  | @thread act threads hfree hloop he =>
      obtain ⟨hpc, hin⟩ := ht
      replace hin := inLoop_of_thread hin
      rcases acquire_of_effect he hpc with hs | hs
      · exact ⟨hs, hin⟩
      · rw [h.loop hin] at hs
        cases hs
  | loopEnter hpc htop hrun hclear =>
      rw [hstop] at hclear
      cases hclear
  | exitWake =>
      obtain ⟨hpc, hin⟩ := ht
      rw [← wakeUp_dispatcher (h.not_blocked hin)]
      exact ⟨hpc, hin⟩
  | _ => exact ht

/-- `mp2_exit` does not stop the dispatcher between the test of its loop and its taking the lock. -/
def StopsOutside (x : Transition Unloading UnloadAct) : Prop :=
  x.act = .exitStop → x.pre.wantsLock = false

instance : DecidablePred StopsOutside := fun x =>
  inferInstanceAs (Decidable (x.act = .exitStop → _))

/-- **One step avoids the deadlock exactly when it does not stop the dispatcher there.** -/
theorem deadlocked_step_iff {x : Transition Unloading UnloadAct}
    (hx : unloadStep msecsToJiffies x.act x.pre = some x.post) (h : UnloadOrder x.pre)
    (hfree : ¬ x.pre.Deadlocked) : ¬ x.post.Deadlocked ↔ StopsOutside x := by
  obtain ⟨s, act, t⟩ := x
  replace h : UnloadOrder s := h
  replace hfree : ¬ s.Deadlocked := hfree
  have he : UnloadEffect msecsToJiffies s act t := unloadEffect_of_step hx
  have hwants := wantsLock_of_effect h he
  have hother : act ≠ .exitStop → StopsOutside ⟨s, act, t⟩ := fun hne heq => absurd heq hne
  -- where `mp2_exit` was inside `kthread_stop` before, the flag was set
  have hkept : s.exit.holdsLock → s.exit.joins → ¬ t.Deadlocked := by
    rintro hholds hjoins ⟨_, _, ht⟩
    exact hfree ⟨hholds, hjoins, hwants (h.stopSet hjoins) ht⟩
  cases he with
  | thread | loopReturn | loopEnter =>
      exact iff_of_true (fun hd => hkept hd.1 hd.2.1 hd) (hother (by simp))
  | exitLock | exitJoined | exitFree | exitUnlock =>
      exact iff_of_true (fun hd => by cases hd.2.1) (hother (by simp))
  | exitStop =>
      have hpost : Unloading.Deadlocked { s with shouldStop := true, exit := .stopping } ↔
          s.wantsLock := by
        simp [Unloading.Deadlocked, ExitPc.holdsLock, ExitPc.joins, Unloading.wantsLock]
      rw [show (¬ _) ↔ ¬ _ from not_congr hpost]
      simp [StopsOutside]
  | exitWake hpc =>
      exact iff_of_true (hkept (by rw [hpc]; rfl) (by rw [hpc]; rfl)) (hother (by simp))

/-- The dispatcher waits until it gets the lock. -/
theorem acquire_kept {s t : Threads} {act : ThreadAct} (he : ThreadEffect msecsToJiffies s act t)
    (hpc : s.dispatcher = .acquire) (hact : act ≠ .dispatcherAcquire) :
    t.dispatcher = .acquire ∧ act ≠ .dispatcherRelease := by
  cases he with
  | dispatcherAcquire => exact absurd rfl hact
  | dispatcherScan hs | dispatcherSetInterruptible hs | dispatcherRelease hs
  | dispatcherSchedule hs =>
      rw [hpc] at hs
      cases hs
  | callbackAcquire | callbackMark | callbackRelease | other => exact ⟨hpc, by simp⟩
  | @callbackWake i =>
      refine ⟨?_, by simp⟩
      rw [wakeUp_dispatcher (s := s.setCallback i .idle) (by simp [Threads.setCallback, hpc])]
      exact hpc

/-- **Nothing ends the deadlock.** -/
theorem Unloading.Deadlocked.effect (h : UnloadOrder s) (hd : s.Deadlocked)
    (he : UnloadEffect msecsToJiffies s act t) : t.Deadlocked := by
  obtain ⟨hholds, hjoins, hwants⟩ := hd
  obtain ⟨hpc, hin⟩ : s.threads.dispatcher = .acquire ∧ s.inLoop := by
    simpa [Unloading.wantsLock] using hwants
  cases he with
  | @thread act threads hfree hloop he =>
      have hact : act ≠ .dispatcherAcquire := by
        rintro rfl
        rw [hfree rfl] at hholds
        cases hholds
      obtain ⟨hpc', hne⟩ := acquire_kept he hpc hact
      exact ⟨hholds, hjoins, by simp [Unloading.wantsLock, hpc', hne, hin]⟩
  | loopReturn hs htop | loopEnter hs htop =>
      rw [hin] at htop
      cases htop
  | exitWake hs =>
      have hwake := wakeUp_dispatcher (h.not_blocked hin)
      exact ⟨rfl, rfl, by simp [Unloading.wantsLock, hwake, hpc, hin]⟩
  | exitJoined hs hret =>
      rw [h.running hin] at hret
      cases hret
  | exitLock hs | exitStop hs | exitFree hs | exitUnlock hs =>
      rw [hs] at hjoins
      cases hjoins

/-- **Along a run the exit routine and the dispatcher never wait for each other exactly when the
dispatcher is never stopped between the test of its loop and its taking the lock.** -/
theorem unloading_iff {memory : RecPtr → Mp2TaskStruct} {jiffies : UInt64}
    {tr : List (Transition Unloading UnloadAct)}
    (h : Exec (unloadStep msecsToJiffies) (Unloading.boot memory jiffies) tr s) :
    (∀ x ∈ tr, ¬ x.post.Deadlocked) ↔ ∀ x ∈ tr, StopsOutside x :=
  h.forall_post_iff (I := UnloadOrder) (Q := fun s => ¬ s.Deadlocked) (unloadOrder_boot _ _)
    (fun hd => by cases hd.1)
    (fun _ hx hI => hI.effect (unloadEffect_of_step hx))
    (fun _ hx hI hQ => deadlocked_step_iff hx hI hQ)

end KernelDev.Rms
