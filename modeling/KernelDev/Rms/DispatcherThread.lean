/-
# KernelDev.Rms.DispatcherThread — the dispatcher thread and the callbacks that wake it

`mp2_dispatcher` runs in a thread of its own: it takes the lock, scans and dispatches, sets itself
TASK_INTERRUPTIBLE, releases the lock and calls `schedule`, which puts it to sleep if it is still
TASK_INTERRUPTIBLE. A timer callback takes the lock, marks its task READY, releases the lock and
calls `wake_up_process`. Here each of these is a step of its own, for the dispatcher and any number
of callbacks, and the critical sections are those of `Rms.System`; the remaining operations run
between them whenever the lock is free.

A wake-up may come before the dispatcher goes to sleep. It is not lost: the dispatcher sets its
sleep state while it still holds the lock, so a task marked READY after that scan is followed by a
wake-up after that state was set, and `schedule` does not block.
-/
import KernelDev.Rms.System

namespace KernelDev.Rms

open KernelDev.Lib

/-! ## The threads -/

/-- What the dispatcher does next; `blocked` is inside `schedule`, off the run queue. -/
inductive DispatcherPc
  | acquire
  | scan
  | setInterruptible
  | release
  | schedule
  | blocked
  deriving DecidableEq, Repr

/-- Where a callback is: it holds the lock before (`locked`) and after (`marked`) its loop, and has
still to call `wake_up_process` when it has released it. -/
inductive CallbackPhase
  | idle
  | locked (a : RecPtr)
  | marked
  | released
  deriving DecidableEq, Repr

inductive LockOwner
  | dispatcher
  | callback (i : Nat)
  deriving DecidableEq, Repr

/-- The module with its threads. -/
structure Threads where
  mp2 : Mp2
  lock : Option LockOwner
  dispatcher : DispatcherPc
  /-- The task state of the dispatcher is not TASK_RUNNING. -/
  interruptible : Bool
  callback : Nat → CallbackPhase

/-- After `mp2_init`: `kthread_create` leaves the dispatcher asleep until it is first woken. -/
def Threads.boot (memory : RecPtr → Mp2TaskStruct) (jiffies : UInt64) : Threads where
  mp2 := Mp2.boot memory jiffies
  lock := none
  dispatcher := .blocked
  interruptible := true
  callback := fun _ => .idle

inductive ThreadAct
  | dispatcherAcquire
  | dispatcherScan
  | dispatcherSetInterruptible
  | dispatcherRelease
  | dispatcherSchedule
  | callbackAcquire (i : Nat) (a : RecPtr)
  | callbackMark (i : Nat)
  | callbackRelease (i : Nat)
  | callbackWake (i : Nat)
  | other (act : Act)
  deriving DecidableEq, Repr

/-- The critical sections the dispatcher and the callbacks take in steps. -/
def Act.ofThread : Act → Bool
  | .callback _ => true
  | .dispatch => true
  | _ => false

/-- The action is a critical section of `mp2_proc_list_lock`. -/
def Act.takesLock : Act → Bool
  | .fire _ => false
  | .tick _ => false
  | .scribble _ _ => false
  | .recycle _ => false
  | _ => true

namespace Threads

/-- Callback `i` goes on to `phase`. -/
def setCallback (i : Nat) (phase : CallbackPhase) (s : Threads) : Threads :=
  { s with callback := Function.update s.callback i phase }

/-- `wake_up_process(dispatch_thread)`: the dispatcher is runnable whatever its state was. -/
def wakeUpDispatcher (s : Threads) : Threads :=
  { s with
    interruptible := false
    dispatcher := if s.dispatcher = .blocked then .acquire else s.dispatcher }

end Threads

section
variable (msecsToJiffies : UInt32 → UInt64)

def threadStep : ThreadAct → Threads → Option Threads
  | .dispatcherAcquire, s =>
      if s.dispatcher = .acquire ∧ s.lock = none then
        some { s with lock := some .dispatcher, dispatcher := .scan }
      else none
  | .dispatcherScan, s =>
      if s.dispatcher = .scan then
        (step msecsToJiffies .dispatch s.mp2).map fun m =>
          { s with mp2 := m, dispatcher := .setInterruptible }
      else none
  | .dispatcherSetInterruptible, s =>
      if s.dispatcher = .setInterruptible then
        some { s with interruptible := true, dispatcher := .release }
      else none
  | .dispatcherRelease, s =>
      if s.dispatcher = .release then some { s with lock := none, dispatcher := .schedule }
      else none
  | .dispatcherSchedule, s =>
      if s.dispatcher = .schedule then
        some { s with dispatcher := if s.interruptible then .blocked else .acquire }
      else none
  | .callbackAcquire i a, s =>
      if s.callback i = .idle ∧ s.lock = none ∧ a ∈ s.mp2.firedTimers then
        some { s.setCallback i (.locked a) with lock := some (.callback i) }
      else none
  | .callbackMark i, s =>
      match s.callback i with
      | .locked a =>
          (step msecsToJiffies (.callback a) s.mp2).map fun m =>
            { s.setCallback i .marked with mp2 := m }
      | _ => none
  | .callbackRelease i, s =>
      if s.callback i = .marked then some { s.setCallback i .released with lock := none } else none
  | .callbackWake i, s =>
      if s.callback i = .released then some (s.setCallback i .idle).wakeUpDispatcher else none
  | .other act, s =>
      if act.ofThread = false ∧ (act.takesLock → s.lock = none) then
        (step msecsToJiffies act s.mp2).map fun m => { s with mp2 := m }
      else none

/-- The outcomes of the steps, one constructor each. -/
inductive ThreadEffect (s : Threads) : ThreadAct → Threads → Prop
  | dispatcherAcquire (hpc : s.dispatcher = .acquire) (hfree : s.lock = none) :
      ThreadEffect s .dispatcherAcquire { s with lock := some .dispatcher, dispatcher := .scan }
  | dispatcherScan {m : Mp2} (hpc : s.dispatcher = .scan)
      (hstep : step msecsToJiffies .dispatch s.mp2 = some m) :
      ThreadEffect s .dispatcherScan { s with mp2 := m, dispatcher := .setInterruptible }
  | dispatcherSetInterruptible (hpc : s.dispatcher = .setInterruptible) :
      ThreadEffect s .dispatcherSetInterruptible
        { s with interruptible := true, dispatcher := .release }
  | dispatcherRelease (hpc : s.dispatcher = .release) :
      ThreadEffect s .dispatcherRelease { s with lock := none, dispatcher := .schedule }
  | dispatcherSchedule (hpc : s.dispatcher = .schedule) :
      ThreadEffect s .dispatcherSchedule
        { s with dispatcher := if s.interruptible then .blocked else .acquire }
  | callbackAcquire {i : Nat} {a : RecPtr} (hphase : s.callback i = .idle) (hfree : s.lock = none)
      (hfired : a ∈ s.mp2.firedTimers) :
      ThreadEffect s (.callbackAcquire i a)
        { s.setCallback i (.locked a) with lock := some (.callback i) }
  | callbackMark {i : Nat} {m : Mp2} (a : RecPtr) (hphase : s.callback i = .locked a)
      (hstep : step msecsToJiffies (.callback a) s.mp2 = some m) :
      ThreadEffect s (.callbackMark i) { s.setCallback i .marked with mp2 := m }
  | callbackRelease {i : Nat} (hphase : s.callback i = .marked) :
      ThreadEffect s (.callbackRelease i) { s.setCallback i .released with lock := none }
  | callbackWake {i : Nat} (hphase : s.callback i = .released) :
      ThreadEffect s (.callbackWake i) (s.setCallback i .idle).wakeUpDispatcher
  | other {act : Act} {m : Mp2} (hact : act.ofThread = false)
      (hfree : act.takesLock → s.lock = none) (hstep : step msecsToJiffies act s.mp2 = some m) :
      ThreadEffect s (.other act) { s with mp2 := m }

variable {msecsToJiffies}

theorem threadEffect_of_step {act : ThreadAct} {s t : Threads}
    (h : threadStep msecsToJiffies act s = some t) : ThreadEffect msecsToJiffies s act t := by
  cases act with
  | dispatcherAcquire =>
      obtain ⟨⟨hpc, hfree⟩, rfl⟩ := by simpa [threadStep] using h
      exact .dispatcherAcquire hpc hfree
  | dispatcherScan =>
      obtain ⟨hpc, m, hstep, rfl⟩ := by simpa [threadStep] using h
      exact .dispatcherScan hpc hstep
  | dispatcherSetInterruptible =>
      obtain ⟨hpc, rfl⟩ := by simpa [threadStep] using h
      exact .dispatcherSetInterruptible hpc
  | dispatcherRelease =>
      obtain ⟨hpc, rfl⟩ := by simpa [threadStep] using h
      exact .dispatcherRelease hpc
  | dispatcherSchedule =>
      obtain ⟨hpc, rfl⟩ := by simpa [threadStep] using h
      exact .dispatcherSchedule hpc
  | callbackAcquire i a =>
      obtain ⟨⟨hphase, hfree, hfired⟩, rfl⟩ := by simpa [threadStep] using h
      exact .callbackAcquire hphase hfree hfired
  | callbackMark i =>
      simp only [threadStep] at h
      split at h
      · next a hphase =>
          obtain ⟨m, hstep, rfl⟩ := Option.map_eq_some_iff.mp h
          exact .callbackMark a hphase hstep
      · cases h
  | callbackRelease i =>
      obtain ⟨hphase, rfl⟩ := by simpa [threadStep] using h
      exact .callbackRelease hphase
  | callbackWake i =>
      obtain ⟨hphase, rfl⟩ := by simpa [threadStep] using h
      exact .callbackWake hphase
  | other act =>
      simp only [threadStep] at h
      split at h
      · next hguard =>
          obtain ⟨m, hstep, rfl⟩ := Option.map_eq_some_iff.mp h
          exact .other hguard.1 hguard.2 hstep
      · cases h

end

/-! ## The lock -/

/-- The dispatcher holds the lock. -/
def DispatcherPc.Holds : DispatcherPc → Prop
  | .scan => True
  | .setInterruptible => True
  | .release => True
  | _ => False

/-- The callback holds the lock. -/
def CallbackPhase.Holds : CallbackPhase → Prop
  | .locked _ => True
  | .marked => True
  | _ => False

/-- The lock is recorded as held by exactly the thread that is in its critical section. -/
structure LockHeld (s : Threads) : Prop where
  dispatcher : s.dispatcher.Holds ↔ s.lock = some .dispatcher
  callback : ∀ i, (s.callback i).Holds ↔ s.lock = some (.callback i)

theorem lockHeld_boot (memory : RecPtr → Mp2TaskStruct) (jiffies : UInt64) :
    LockHeld (Threads.boot memory jiffies) := by
  constructor <;> simp [Threads.boot, DispatcherPc.Holds, CallbackPhase.Holds]

variable {msecsToJiffies : UInt32 → UInt64} {s t : Threads}

/-- While one thread holds the lock, another is not in its critical section. -/
theorem LockHeld.exclusive (h : LockHeld s) {i : Nat} (hi : (s.callback i).Holds) :
    ¬ s.dispatcher.Holds := by
  intro hd
  have hlock := h.dispatcher.mp hd
  rw [(h.callback i).mp hi] at hlock
  cases hlock

theorem LockHeld.dispatcher_at (h : LockHeld s) {pc : DispatcherPc} (hpc : s.dispatcher = pc) :
    pc.Holds ↔ s.lock = some .dispatcher := hpc ▸ h.dispatcher

theorem LockHeld.callback_at (h : LockHeld s) {i : Nat} {phase : CallbackPhase}
    (hphase : s.callback i = phase) : phase.Holds ↔ s.lock = some (.callback i) :=
  hphase ▸ h.callback i

/-- One callback goes on to another phase. -/
theorem setCallback_holds {i : Nat} {phase : CallbackPhase} {lock : Option LockOwner}
    (hi : phase.Holds ↔ lock = some (.callback i))
    (hothers : ∀ j, j ≠ i → ((s.callback j).Holds ↔ lock = some (.callback j))) (j : Nat) :
    ((s.setCallback i phase).callback j).Holds ↔ lock = some (.callback j) := by
  by_cases hji : j = i
  · subst hji
    simpa [Threads.setCallback] using hi
  · simpa [Threads.setCallback, hji] using hothers j hji

theorem LockHeld.effect {act : ThreadAct} (h : LockHeld s)
    (he : ThreadEffect msecsToJiffies s act t) : LockHeld t := by
  cases he with
  | dispatcherAcquire hpc hfree =>
      refine ⟨iff_of_true trivial rfl, fun i => ?_⟩
      show (s.callback i).Holds ↔ _
      rw [h.callback i, hfree]
      simp
  | dispatcherScan hpc =>
      have hd := h.dispatcher_at hpc
      exact ⟨hd, h.callback⟩
  | dispatcherSetInterruptible hpc =>
      have hd := h.dispatcher_at hpc
      exact ⟨hd, h.callback⟩
  | dispatcherRelease hpc =>
      have hlock : s.lock = some .dispatcher := (h.dispatcher_at hpc).mp trivial
      refine ⟨by simp [DispatcherPc.Holds], fun i => ?_⟩
      show (s.callback i).Holds ↔ _
      rw [h.callback i, hlock]
      simp
  | dispatcherSchedule hpc =>
      have hd := h.dispatcher_at hpc
      refine ⟨?_, h.callback⟩
      show DispatcherPc.Holds (if s.interruptible then .blocked else .acquire) ↔ _
      split
      · exact hd
      · exact hd
  | @callbackAcquire i a hphase hfree =>
      refine ⟨?_, setCallback_holds (iff_of_true trivial rfl) fun j hji => ?_⟩
      · show s.dispatcher.Holds ↔ _
        rw [h.dispatcher, hfree]
        simp
      · rw [h.callback j, hfree]
        simpa using Ne.symm hji
  | @callbackMark i m a hphase =>
      have hi := h.callback_at hphase
      exact ⟨h.dispatcher, setCallback_holds hi fun j _ => h.callback j⟩
  | @callbackRelease i hphase =>
      have hi : s.lock = some (.callback i) := (h.callback_at hphase).mp trivial
      refine ⟨iff_of_false (h.exclusive ((h.callback i).mpr hi)) (by simp),
        setCallback_holds (by simp [CallbackPhase.Holds]) fun j hji => ?_⟩
      rw [h.callback j, hi]
      simpa using Ne.symm hji
  | @callbackWake i hphase =>
      have hi := h.callback_at hphase
      refine ⟨?_, setCallback_holds hi fun j _ => h.callback j⟩
      show DispatcherPc.Holds (if s.dispatcher = .blocked then .acquire else s.dispatcher) ↔ _
      split
      · next hpc =>
          have hd := h.dispatcher_at hpc
          exact hd
      · exact h.dispatcher
  | other => exact ⟨h.dispatcher, h.callback⟩

/-! ## A mark and what follows it -/

/-- The callback has marked its task and not yet woken the dispatcher. -/
def CallbackPhase.OwesWake : CallbackPhase → Prop
  | .marked => True
  | .released => True
  | _ => False

/-- Among these transitions the dispatcher takes the lock and after that scans the list. -/
def Rescanned (after : List (Transition Threads ThreadAct)) : Prop :=
  [ThreadAct.dispatcherAcquire, .dispatcherScan].Sublist (after.map Transition.act)

instance (after : List (Transition Threads ThreadAct)) : Decidable (Rescanned after) :=
  inferInstanceAs (Decidable (List.Sublist _ _))

/-- Some callback owes a wake-up. -/
def Threads.OwesWake (s : Threads) : Prop := ∃ i, (s.callback i).OwesWake

/-- The dispatcher will take the lock and scan before it sleeps, or it is to be woken. -/
def WillScan (acquired running owed : Prop) : DispatcherPc → Prop
  | .acquire => True
  | .scan => acquired
  -- it has scanned the list, and nothing is marked while it holds the lock
  | .setInterruptible => False
  | .release => False
  | .schedule => running ∨ owed
  | .blocked => owed

/-- What holds when `after` has been done since a task was marked: the dispatcher has scanned since,
or it will. -/
def Attended (after : List (Transition Threads ThreadAct)) (s : Threads) : Prop :=
  Rescanned after ∨
    WillScan (.dispatcherAcquire ∈ after.map Transition.act) (s.interruptible = false) s.OwesWake
      s.dispatcher

theorem WillScan.mono {acquired running owed acquired' running' owed' : Prop} {pc : DispatcherPc}
    (h : WillScan acquired running owed pc) (hacq : acquired → acquired')
    (hrun : running → running') (howed : owed → owed') : WillScan acquired' running' owed' pc := by
  cases pc with
  | acquire => trivial
  | scan => exact hacq h
  | setInterruptible | release => exact h.elim
  | schedule => exact h.imp hrun howed
  | blocked => exact howed h

/-- A wake-up makes the dispatcher scan again wherever it is. -/
theorem WillScan.wake {acquired running owed running' owed' : Prop} {pc : DispatcherPc}
    (h : WillScan acquired running owed pc) (hrun : running') :
    WillScan acquired running' owed' (if pc = .blocked then .acquire else pc) := by
  cases pc with
  | acquire | blocked => trivial
  | scan => exact h
  | setInterruptible | release => exact h.elim
  | schedule => exact .inl hrun

theorem Rescanned.concat {after : List (Transition Threads ThreadAct)} (h : Rescanned after)
    (x : Transition Threads ThreadAct) : Rescanned (after ++ [x]) := by
  unfold Rescanned
  rw [List.map_append]
  exact h.trans (List.sublist_append_left _ _)

/-- Another step of its own leaves a callback owing its wake-up, if it did. -/
theorem Threads.OwesWake.setCallback (h : s.OwesWake) {i : Nat} {phase : CallbackPhase}
    (hphase : (s.callback i).OwesWake → phase.OwesWake) : (s.setCallback i phase).OwesWake := by
  obtain ⟨j, hj⟩ := h
  by_cases hji : j = i
  · subst hji
    exact ⟨j, by simpa [Threads.setCallback] using hphase hj⟩
  · exact ⟨j, by simpa [Threads.setCallback, hji] using hj⟩

/-- A callback that marks its task owes the wake-up. -/
theorem attended_marked {i : Nat} (h : LockHeld s)
    (he : ThreadEffect msecsToJiffies s (.callbackMark i) t) : Attended [] t := by
  cases he with
  | callbackMark a hphase =>
      right
      have hfree : ¬ s.dispatcher.Holds := h.exclusive (i := i) (by rw [hphase]; trivial)
      have howes : Threads.OwesWake (s.setCallback i .marked) :=
        ⟨i, by simp [Threads.setCallback, CallbackPhase.OwesWake]⟩
      show WillScan _ _ _ s.dispatcher
      cases hpc : s.dispatcher with
      | acquire => trivial
      | scan | setInterruptible | release =>
          rw [hpc] at hfree
          exact absurd trivial hfree
      | schedule => exact .inr howes
      | blocked => exact howes

/-- **Every step keeps a mark attended to.** -/
theorem Attended.effect {after : List (Transition Threads ThreadAct)} {act : ThreadAct}
    (h : Attended after s) (he : ThreadEffect msecsToJiffies s act t) :
    Attended (after ++ [⟨s, act, t⟩]) t := by
  rcases h with hdone | hpending
  · exact .inl (hdone.concat _)
  have hmem : ThreadAct.dispatcherAcquire ∈ after.map Transition.act →
      ThreadAct.dispatcherAcquire ∈ List.map Transition.act (after ++ [⟨s, act, t⟩]) := fun hb => by
    rw [List.map_append]
    exact List.mem_append_left _ hb
  cases he with
  | dispatcherAcquire =>
      right
      show ThreadAct.dispatcherAcquire ∈ _
      simp
  | dispatcherScan hpc =>
      -- it took the lock after the mark, and this is the scan
      left
      rw [hpc] at hpending
      have hacq := List.singleton_sublist.mpr hpending
      unfold Rescanned
      rw [List.map_append]
      exact hacq.append (List.Sublist.refl [ThreadAct.dispatcherScan])
  | dispatcherSetInterruptible hpc =>
      rw [hpc] at hpending
      exact hpending.elim
  | dispatcherRelease hpc =>
      rw [hpc] at hpending
      exact hpending.elim
  | dispatcherSchedule hpc =>
      right
      rw [hpc] at hpending
      show WillScan _ _ s.OwesWake (if s.interruptible then .blocked else .acquire)
      cases hint : s.interruptible with
      | false => trivial
      | true =>
          rcases hpending with hrun | hwake
          · rw [hint] at hrun
            cases hrun
          · exact hwake
  | callbackAcquire hphase =>
      right
      exact hpending.mono hmem id fun howes =>
        howes.setCallback fun hi => by
          rw [hphase] at hi
          exact hi.elim
  | callbackMark =>
      right
      exact hpending.mono hmem id fun howes => howes.setCallback fun _ => trivial
  | callbackRelease =>
      right
      exact hpending.mono hmem id fun howes => howes.setCallback fun _ => trivial
  | callbackWake =>
      right
      exact (hpending.mono hmem id id).wake rfl
  | other =>
      right
      exact hpending.mono hmem id id

/-! ## Runs -/

/-- **No wake-up is lost.** In every state of a run in which the dispatcher is blocked and no
callback is between marking its task and waking the dispatcher, the dispatcher has, since any mark,
taken the lock and scanned the list. -/
theorem dispatcher_rescanned (msecsToJiffies : UInt32 → UInt64) (memory : RecPtr → Mp2TaskStruct)
    (jiffies : UInt64) {tr before after : List (Transition Threads ThreadAct)}
    {x : Transition Threads ThreadAct} {s : Threads}
    (h : Exec (threadStep msecsToJiffies) (Threads.boot memory jiffies) tr s)
    (hblocked : s.dispatcher = .blocked) (hwoken : ∀ i, ¬ (s.callback i).OwesWake)
    (hsplit : tr = before ++ x :: after) {i : Nat} (hmark : x.act = .callbackMark i) :
    Rescanned after := by
  subst hsplit
  obtain ⟨hbefore, hx, hafter⟩ := h.split
  have hlock : LockHeld x.pre :=
    (hbefore.invariant (lockHeld_boot memory jiffies)
      fun _ hy hI => hI.effect (threadEffect_of_step hy)).2
  rw [hmark] at hx
  have hattended : Attended after s := hafter.traced (C := fun _ => True)
    (attended_marked hlock (threadEffect_of_step hx))
    (fun _ _ hy _ hI => hI.effect (threadEffect_of_step hy)) (fun _ _ => trivial)
  rcases hattended with hdone | hpending
  · exact hdone
  · rw [hblocked] at hpending
    obtain ⟨j, hj⟩ := hpending
    exact absurd hj (hwoken j)

/-- The critical section a step of a thread is. -/
def criticalSection (x : Transition Threads ThreadAct) : Option Act :=
  match x.act with
  | .dispatcherScan => some .dispatch
  | .callbackMark i =>
      match x.pre.callback i with
      | .locked a => some (.callback a)
      | _ => none
  | .other act => some act
  | _ => none

/-- **The threads do nothing to the module that its critical sections in some order would not do**:
what holds of every run of the scheduler holds of every interleaving of the threads. -/
theorem exec_sections (msecsToJiffies : UInt32 → UInt64) (memory : RecPtr → Mp2TaskStruct)
    (jiffies : UInt64) {tr : List (Transition Threads ThreadAct)} {s : Threads}
    (h : Exec (threadStep msecsToJiffies) (Threads.boot memory jiffies) tr s) :
    ∃ tr', Exec (step msecsToJiffies) (Mp2.boot memory jiffies) tr' s.mp2 := by
  refine ⟨_, h.project Threads.mp2 criticalSection ?_ ?_⟩
  · rintro ⟨s, act, t⟩ hx b hb
    have he : ThreadEffect msecsToJiffies s act t := threadEffect_of_step hx
    cases he with
    | dispatcherScan hpc hstep =>
        obtain rfl := Option.some.inj hb
        exact hstep
    | callbackMark a hphase hstep =>
        obtain rfl : .callback a = b := by simpa [criticalSection, hphase] using hb
        exact hstep
    | other hact hfree hstep =>
        obtain rfl := Option.some.inj hb
        exact hstep
    | dispatcherAcquire | dispatcherSetInterruptible | dispatcherRelease | dispatcherSchedule
    | callbackAcquire | callbackRelease | callbackWake => cases hb
  · rintro ⟨s, act, t⟩ hx hb
    have he : ThreadEffect msecsToJiffies s act t := threadEffect_of_step hx
    cases he with
    | dispatcherScan | other => cases hb
    | callbackMark a hphase => simp [criticalSection, hphase] at hb
    | dispatcherAcquire | dispatcherSetInterruptible | dispatcherRelease | dispatcherSchedule
    | callbackAcquire | callbackRelease | callbackWake => rfl

/-- Process 7 registers and its timer is queued by a yield and expires; the callback marks the task,
wakes the dispatcher, and the dispatcher scans and goes back to sleep. -/
def wokenOnce : List ThreadAct :=
  [.other (.admission ⟨7, 7, 100, 10⟩), .other (.insert ⟨⟨7, 7, 100, 10⟩, []⟩ true 7),
    .other (.yield 8 7), .other (.fire 0), .callbackAcquire 0 0, .callbackMark 0,
    .callbackRelease 0, .callbackWake 0, .dispatcherAcquire, .dispatcherScan,
    .dispatcherSetInterruptible, .dispatcherRelease, .dispatcherSchedule]

def quietThreads : Threads := Threads.boot (fun _ => ⟨0, 0, 0, 0, 0, .sleeping⟩) 0

theorem wokenOnce_runs :
    (runActions (threadStep (·.toUInt64)) wokenOnce quietThreads).isSome := rfl

theorem dispatcher_rescanned_wokenOnce :
    ((endOf _ _ _ wokenOnce_runs).mp2.slab 0).state = .running ∧
      Rescanned
        ((runOf (threadStep (·.toUInt64)) wokenOnce quietThreads wokenOnce_runs).drop 6) := by
  have hsplit : runOf (threadStep (·.toUInt64)) wokenOnce quietThreads wokenOnce_runs =
      (runOf _ _ _ wokenOnce_runs).take 5 ++
        (runOf (threadStep (·.toUInt64)) wokenOnce quietThreads wokenOnce_runs).get
          ⟨5, by decide⟩ :: (runOf _ _ _ wokenOnce_runs).drop 6 := rfl
  have hwoken : ∀ i, ¬ ((endOf (threadStep (·.toUInt64)) wokenOnce quietThreads
      wokenOnce_runs).callback i).OwesWake := by
    intro i
    cases i with
    | zero => exact id
    | succ i => exact id
  exact ⟨by decide, dispatcher_rescanned (·.toUInt64) _ _ (exec_runOf wokenOnce_runs) rfl hwoken
    hsplit (i := 0) rfl⟩

/-- Up to the mark: the callback still holds the lock, and the dispatcher has not been woken yet. -/
def markedOnly : List ThreadAct := wokenOnce.take 6

theorem markedOnly_runs :
    (runActions (threadStep (·.toUInt64)) markedOnly quietThreads).isSome := rfl

theorem dispatcher_rescanned_fails : ¬ ∀ msecsToJiffies memory jiffies before x after s,
    Exec (threadStep msecsToJiffies) (Threads.boot memory jiffies) (before ++ x :: after) s →
      s.dispatcher = .blocked → (∀ i, s.callback i ≠ .released) →
      (∃ i, x.act = .callbackMark i) → Rescanned after := by
  intro hall
  have hsplit : runOf (threadStep (·.toUInt64)) markedOnly quietThreads markedOnly_runs =
      (runOf _ _ _ markedOnly_runs).take 5 ++
        (runOf (threadStep (·.toUInt64)) markedOnly quietThreads markedOnly_runs).get
          ⟨5, by decide⟩ :: [] := rfl
  have hexec := exec_runOf markedOnly_runs
  rw [hsplit] at hexec
  have hphases : ∀ i, (endOf (threadStep (·.toUInt64)) markedOnly quietThreads
      markedOnly_runs).callback i ≠ .released := by
    intro i hi
    cases i with
    | zero => cases hi
    | succ i => cases hi
  exact absurd (hall _ _ _ _ _ _ _ hexec rfl hphases ⟨0, rfl⟩) (by decide)

end KernelDev.Rms
