/-
# KernelDev.Unload — unloading the two modules

Both exit routines hold the lock of their process list while they wait for a thread that takes the
same lock. Whether the wait ends depends on where that thread is when it is told to stop, and the
laws below say so for either module, for any interleaving.
-/
import KernelDev.Profiler.Unload
import KernelDev.Rms.Unload

namespace KernelDev

open KernelDev.Lib

/-- **Unloading deadlocks exactly when it finds the other thread on its way to the lock**: the
dispatcher past the test of its loop when it is stopped, an execution of the worker past its
threshold test while the workqueue is flushed. When `mp3_exit` returns, `dwork` is neither running
nor pending. -/
theorem unloading_deadlocks {msecsToJiffies memory jiffies pageSize jiffiesToMsecs workqueue mp3
    live counters} {tr : List (Transition Rms.Unloading Rms.UnloadAct)} {s : Rms.Unloading}
    {tr' : List (Transition Profiler.Unloading Profiler.UnloadAct)} {t : Profiler.Unloading}
    (h : Exec (Rms.unloadStep msecsToJiffies) (Rms.Unloading.boot memory jiffies) tr s)
    (h' : Exec (Profiler.unloadStep msecsToJiffies pageSize jiffiesToMsecs workqueue)
      (Profiler.Unloading.boot mp3 live counters) tr' t) :
    ((∀ x ∈ tr, ¬ x.post.Deadlocked) ↔ ∀ x ∈ tr, Rms.StopsOutside x) ∧
      ((∀ x ∈ tr', Profiler.FlushesQuiet jiffiesToMsecs x) → ∀ x ∈ tr', ¬ x.post.Deadlocked) ∧
      ((¬ ∀ x ∈ tr', Profiler.FlushesQuiet jiffiesToMsecs x) →
        ∃ more u, Exec (Profiler.unloadStep msecsToJiffies pageSize jiffiesToMsecs workqueue)
          t more u ∧ u.Deadlocked) ∧
      (t.exit = .returned → t.sampler.phase = .idle ∧ t.sampler.dwork = none) := by
  refine ⟨Rms.unloading_iff h, ?_, Profiler.exec_deadlocked h', ?_⟩
  · intro hquiet x hx hd
    exact (Profiler.doomed_iff h').mpr hquiet x hx hd.doomed
  · intro hret
    have hflushed := (h'.invariant (Profiler.cancelled_boot _ _ _) fun _ hx hI =>
      hI.effect (Profiler.unloadEffect_of_step hx)).2.flushed
    exact hflushed (by rw [hret]; rfl)

/-- The dispatcher is asleep when it is stopped. -/
def stoppedAsleep : List Rms.UnloadAct :=
  [.exitLock, .exitStop, .exitWake, .loopTest, .exitJoined, .exitFree, .exitUnlock]

def quietRms : Rms.Unloading := .boot (fun _ => ⟨0, 0, 0, 0, 0, .sleeping⟩) 0

theorem stoppedAsleep_runs :
    (runActions (Rms.unloadStep (·.toUInt64)) stoppedAsleep quietRms).isSome := rfl

/-- The first sample is stored and `dwork` pending when the module is unloaded. -/
def flushedIdle : List Profiler.UnloadAct :=
  Profiler.firstSample.map .sampler ++ [.exitLock, .exitCancel, .exitFlush, .exitFlushed,
    .exitDestroy, .exitFree, .exitUnlock, .exitVfree]

def quietProfiler : Profiler.Unloading := ⟨Profiler.quietSampler, .idle⟩

/-- One jiffy is one millisecond. -/
def profilerHz1000 : Profiler.UnloadAct → Profiler.Unloading → Option Profiler.Unloading :=
  Profiler.unloadStep (·.toUInt64) 4096 (·.toUInt32) true

theorem flushedIdle_runs : (runActions profilerHz1000 flushedIdle quietProfiler).isSome := rfl

theorem unloading_deadlocks_quiet :
    (∀ x ∈ runOf _ _ _ stoppedAsleep_runs, ¬ x.post.Deadlocked) ∧
      (∀ x ∈ runOf _ _ _ flushedIdle_runs, ¬ x.post.Deadlocked) ∧
      (endOf _ _ _ flushedIdle_runs).sampler.dwork = none := by
  obtain ⟨hrms, hquiet, _, hreturned⟩ := unloading_deadlocks (exec_runOf stoppedAsleep_runs)
    (exec_runOf flushedIdle_runs)
  exact ⟨hrms.mpr (by decide), hquiet (by decide), (hreturned rfl).2⟩

/-- The dispatcher is woken by a timer and has just tested its loop when it is stopped. -/
def stoppedInLoop : List Rms.UnloadAct :=
  (Rms.wokenOnce.take 8).map .thread ++ [.loopTest, .exitLock, .exitStop, .exitWake]

theorem stoppedInLoop_runs :
    (runActions (Rms.unloadStep (·.toUInt64)) stoppedInLoop quietRms).isSome := rfl

/-- An execution has passed its test when the module is unloaded. -/
def flushedPassed : List Profiler.UnloadAct :=
  (Profiler.firstSample.take 4).map .sampler ++
    [.exitLock, .exitCancel, .exitFlush, .sampler .requeue, .sampler .stamp]

theorem flushedPassed_runs : (runActions profilerHz1000 flushedPassed quietProfiler).isSome := rfl

theorem unloading_deadlocks_fails :
    (∃ tr s, Exec (Rms.unloadStep (·.toUInt64)) quietRms tr s ∧ s.Deadlocked) ∧
      ∃ tr s, Exec profilerHz1000 quietProfiler tr s ∧ s.Deadlocked :=
  ⟨⟨_, _, exec_runOf stoppedInLoop_runs, by decide⟩,
    ⟨_, _, exec_runOf flushedPassed_runs, by decide, rfl, rfl⟩⟩

end KernelDev
