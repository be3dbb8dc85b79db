/-
# KernelDev.Profiler.Membership — the profiled set and the requests of the clients

A client asks for a process to be profiled with a registration and for an end to it with an
unregistration; what should be on `mp3_process_list` are the pids whose latest request was a
registration. `mp3_registration` appends its record whether or not the pid has one already, and
`mp3_unregistration` takes away the first record of the pid only.

An execution reads the list as it was when it took the lock, and while it holds the lock no request
is served; so what is sampled is what is listed.
-/
import KernelDev.Lib.Membership
import KernelDev.Profiler.Sampling

namespace KernelDev.Profiler

open KernelDev.Lib

variable {msecsToJiffies : UInt32 → UInt64} {pageSize : Nat} {jiffiesToMsecs : UInt64 → UInt32}
  {s t : Sampler} {act : SamplerAct}

/-- The request a step serves. -/
def SamplerAct.request : SamplerAct → Option (SetRequest UInt32)
  | .register pid _ => some (.add pid)
  | .unregister pid => some (.remove pid)
  | _ => none

/-- The requests served in a run. -/
def requests (tr : List (Transition Sampler SamplerAct)) : List (SetRequest UInt32) :=
  tr.filterMap fun x => x.act.request

/-- The step reads the counters of `pid` for a sample, or sets them to anything but what the process
uses. -/
def Samples (pid : UInt32) (x : Transition Sampler SamplerAct) : Prop :=
  (x.act = .read ∧ ∃ left totals, x.pre.phase = .reading (pid :: left) totals) ∨
    (x.post.counters pid ≠ x.pre.counters pid ∧ ∀ use, x.act ≠ .increment pid use)

/-- After the step exactly the pids asked for are listed, each once, and the step samples none but
these. -/
structure Profiled (before : List (Transition Sampler SamplerAct))
    (x : Transition Sampler SamplerAct) : Prop where
  listed : IsExact (requests (before ++ [x])) x.post.processList
  sampled : ∀ pid, Samples pid x → wanted pid (requests before)

/-- The step is not a registration of a pid whose latest request was a registration. -/
def NotRepeated (before : List (Transition Sampler SamplerAct))
    (x : Transition Sampler SamplerAct) : Prop :=
  ∀ r ∈ x.act.request, Fresh (requests before) r

instance (before : List (Transition Sampler SamplerAct)) (x : Transition Sampler SamplerAct) :
    Decidable (NotRepeated before x) :=
  inferInstanceAs (Decidable (∀ r ∈ x.act.request, Fresh (requests before) r))

/-! ## What a step does to the list -/

theorem requests_concat (before : List (Transition Sampler SamplerAct))
    (x : Transition Sampler SamplerAct) :
    requests (before ++ [x]) = requests before ++ x.act.request.toList := by
  cases hr : x.act.request <;> simp [requests, hr]

/-- A step that serves a request does to the list what the request does, and no other step changes
the list. -/
theorem processList_of_effect
    (he : SamplerEffect msecsToJiffies pageSize jiffiesToMsecs s act t) :
    t.processList = (act.request.map fun r => r.perform s.processList).getD s.processList := by
  cases he <;> rfl

/-- What an execution has still to read is listed. -/
def UnreadListed (s : Sampler) : Prop :=
  ∀ left totals, s.phase = .reading left totals → ∀ pid ∈ left, pid ∈ s.processList

/-- A request is served while no execution holds the lock. -/
theorem UnreadListed.of_free {s : Sampler} (hfree : s.phase.holdsLock = false) :
    UnreadListed s := by
  intro left totals hphase
  rw [hphase] at hfree
  cases hfree

theorem UnreadListed.effect (h : UnreadListed s)
    (he : SamplerEffect msecsToJiffies pageSize jiffiesToMsecs s act t) : UnreadListed t := by
  cases he with
  | register hfree => exact .of_free hfree
  | unregister hfree => exact .of_free hfree
  | increment | tick => exact h
  | start | checkReturn | checkPass | requeue | stamp | store => exact .of_free rfl
  | acquire =>
      intro left totals hphase pid hpid
      obtain ⟨rfl, rfl⟩ := WorkPhase.reading.inj hphase
      exact hpid
  | readNone hphase | read hphase =>
      intro left totals hread pid hpid
      obtain ⟨rfl, rfl⟩ := WorkPhase.reading.inj hread
      exact h _ _ hphase pid (List.mem_cons_of_mem _ hpid)

/-- What a step samples is the next entry of the list. -/
theorem mem_of_samples {pid : UInt32} (h : UnreadListed s)
    (he : SamplerEffect msecsToJiffies pageSize jiffiesToMsecs s act t)
    (hs : Samples pid ⟨s, act, t⟩) : pid ∈ s.processList := by
  have hread : ∀ {left totals}, s.phase = .reading (pid :: left) totals → pid ∈ s.processList :=
    fun hphase => h _ _ hphase pid List.mem_cons_self
  rcases hs with ⟨_, left, totals, hphase⟩ | ⟨hcounters, huse⟩
  · exact hread hphase
  · cases he with
    | @read other left totals hphase =>
        -- only the counters of the entry that is read change
        by_cases hpid : pid = other
        · subst hpid
          exact hread hphase
        · exact absurd (Function.update_of_ne hpid _ _) hcounters
    | @increment other use =>
        by_cases hpid : pid = other
        · subst hpid
          exact absurd rfl (huse use)
        · exact absurd (Function.update_of_ne hpid _ _) hcounters
    | _ => exact absurd rfl hcounters

/-- **One step keeps the list exact exactly when it does not register a pid again.** -/
theorem processList_step_iff {before : List (Transition Sampler SamplerAct)}
    {x : Transition Sampler SamplerAct}
    (hx : samplerStep msecsToJiffies pageSize jiffiesToMsecs x.act x.pre = some x.post)
    (h : IsExact (requests before) x.pre.processList) :
    IsExact (requests (before ++ [x])) x.post.processList ↔ NotRepeated before x := by
  rw [requests_concat, processList_of_effect (samplerEffect_of_step hx)]
  unfold NotRepeated
  cases x.act.request with
  | none => simpa using h
  | some r => simpa using h.concat_iff r

/-- **Along a run the profiled set is what the clients asked for exactly as long as no pid is
registered whose latest request was a registration.** -/
theorem profiled_iff (msecsToJiffies : UInt32 → UInt64) (pageSize : Nat)
    (jiffiesToMsecs : UInt64 → UInt32) (mp3 : Mp3) (live : Finset UInt32)
    (counters : UInt32 → CpuUse) {tr : List (Transition Sampler SamplerAct)} {s : Sampler}
    (h : Exec (samplerStep msecsToJiffies pageSize jiffiesToMsecs)
      (Sampler.boot mp3 live counters) tr s) :
    AtEach Profiled tr ↔ AtEach NotRepeated tr := by
  have hexact := h.atEach_iff (I := UnreadListed)
    (Q := fun tr s => IsExact (requests tr) s.processList) (.of_free rfl) isExact_nil
    (fun _ hx hI => hI.effect (samplerEffect_of_step hx))
    (fun _ _ hx _ hQ => processList_step_iff hx hQ)
  rw [← hexact]
  constructor
  · intro hprofiled
    exact hprofiled.imp fun _ _ hp => hp.listed
  · intro hlisted before x after htr
    subst htr
    obtain ⟨hbefore, hx, _⟩ := h.split
    have hunread : UnreadListed x.pre := (hbefore.invariant (.of_free rfl) fun _ hx hI =>
      hI.effect (samplerEffect_of_step hx)).2
    have hpre : IsExact (requests before) x.pre.processList :=
      hbefore.last_of_atEach (Q := fun tr s => IsExact (requests tr) s.processList) isExact_nil
        hlisted.left
    refine ⟨hlisted before x after rfl, fun pid hs => ?_⟩
    exact (hpre.mem_iff pid).mp (mem_of_samples hunread (samplerEffect_of_step hx) hs)

/-- Two processes register, one of them is sampled, unregisters and registers again. -/
def reregistered : List SamplerAct :=
  [.register 7 true, .register 8 true, .unregister 8, .tick 50, .start, .check, .requeue, .stamp,
    .acquire, .read, .store, .unregister 7, .register 7 true]

theorem reregistered_runs : (runActions hz1000 reregistered quietSampler).isSome := rfl

theorem profiled_reregistered :
    AtEach Profiled (runOf hz1000 reregistered quietSampler reregistered_runs) :=
  (profiled_iff (·.toUInt64) 4096 (·.toUInt32) _ _ _ (exec_runOf reregistered_runs)).mpr
    (by decide)

/-- A client registers twice and unregisters once. -/
def registeredTwice : List SamplerAct :=
  [.register 7 true, .register 7 true, .unregister 7, .tick 50, .start, .check, .requeue, .stamp,
    .acquire, .read]

theorem registeredTwice_runs : (runActions hz1000 registeredTwice quietSampler).isSome := rfl

/-- The next execution reads and resets the counters of process 7 all the same. -/
theorem profiled_fails :
    ¬ ∀ msecsToJiffies pageSize jiffiesToMsecs mp3 live counters tr s,
      Exec (samplerStep msecsToJiffies pageSize jiffiesToMsecs) (Sampler.boot mp3 live counters)
        tr s → AtEach Profiled tr := by
  intro hall
  have hrun : AtEach Profiled (runOf hz1000 registeredTwice quietSampler registeredTwice_runs) :=
    hall _ _ _ _ _ _ _ _ (exec_runOf registeredTwice_runs)
  have hread := (hrun.getElem 9 (by decide)).sampled 7 (.inl ⟨rfl, [], .zero, rfl⟩)
  exact absurd hread (by decide)

end KernelDev.Profiler
