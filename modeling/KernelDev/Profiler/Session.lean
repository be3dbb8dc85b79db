/-
# KernelDev.Profiler.Session — the profiler behind its proc file

Clients write bytes to `/proc/mp3/status` while the worker samples, processes use the processor and
time goes on. A call of `mp3_write` takes `mp3_proc_list_lock`, which the worker holds while it
reads the counters.

As for the scheduler, a history is a run of the profiler's steps (`session_refines`), and
`mp3_session_listed` says what the clients get: the list that the requests said in the messages make
of the empty one.
-/
import KernelDev.Lib.Listing
import KernelDev.Lib.Membership
import KernelDev.Lib.Session
import KernelDev.Profiler.Read
import KernelDev.Profiler.Sampling
import KernelDev.Profiler.Write

namespace KernelDev.Profiler

open KernelDev.Lib KernelDev.Lib.ReadFormat

/-! ## The system -/

/-- The step is none of a client's. -/
def SamplerAct.background : SamplerAct → Bool
  | .register _ _ | .unregister _ => false
  | .increment _ _ | .tick _ | .start | .check | .requeue | .stamp | .acquire | .read | .store =>
      true

section
variable (msecsToJiffies : UInt32 → UInt64) (pageSize : Nat) (jiffiesToMsecs : UInt64 → UInt32)

def workerStep (act : SamplerAct) (s : Sampler) : Option Sampler :=
  if act.background then samplerStep msecsToJiffies pageSize jiffiesToMsecs act s else none

/-- One call of `mp3_write`, for which there is memory or not, or one step in the background. -/
def mp3Step : FileAct Mp3Locals Bool SamplerAct → Sampler → Option Sampler :=
  fileStep mp3Format (fun _ => -1) (fun _ s => !s.phase.holdsLock)
    (fun alloc => mp3Perform msecsToJiffies alloc)
    (workerStep msecsToJiffies pageSize jiffiesToMsecs)

end

/-- A call of `mp3_write` as a step. -/
theorem mp3Step_write {msecsToJiffies : UInt32 → UInt64} {pageSize : Nat}
    {jiffiesToMsecs : UInt64 → UInt32} {w : Written Mp3Locals Bool} {s : Sampler}
    (h : s.phase.holdsLock = false) :
    mp3Step msecsToJiffies pageSize jiffiesToMsecs (.write w) s =
      (mp3Write msecsToJiffies w.env w.message w.rest w.locals w.offp s).finish.map
        (·.state) := by
  show (if (!s.phase.holdsLock) = true then _ else none) = _
  rw [if_pos (by rw [h]; rfl)]
  rfl

variable {msecsToJiffies : UInt32 → UInt64} {pageSize : Nat} {jiffiesToMsecs : UInt64 → UInt32}
  {s t : Sampler} {tr : List (Transition Sampler (FileAct Mp3Locals Bool SamplerAct))}

/-! ## A history is a run of the profiler -/

/-- What a request asks of the set of profiled pids. -/
def Mp3Request.toSet : Mp3Request → SetRequest UInt32
  | .registration pid => .add pid
  | .unregistration pid => .remove pid

/-- **An operation is one step, which does to the list what its request asks.** -/
theorem mp3Perform_step {alloc : Bool} {r : Mp3Request} {ret : Int}
    (hmay : (!s.phase.holdsLock) = true) (h : mp3Perform msecsToJiffies alloc r s = some (ret, t)) :
    t.processList = r.toSet.perform s.processList ∧
      ∃ act, samplerStep msecsToJiffies pageSize jiffiesToMsecs act s = some t := by
  have hfree : ¬ s.phase.holdsLock = true := by simpa using hmay
  cases r with
  | registration pid =>
      replace h : mp3Registration msecsToJiffies pid alloc s = some (ret, t) := h
      refine ⟨?_, .register pid alloc, ?_⟩
      · cases alloc with
        | false => cases h
        | true =>
            obtain ⟨-, rfl⟩ := Prod.mk.inj (Option.some.inj h)
            rfl
      · rw [samplerStep, if_neg hfree, h]
        rfl
  | unregistration pid =>
      obtain ⟨-, rfl⟩ := Prod.mk.inj (Option.some.inj h)
      refine ⟨rfl, .unregister pid, ?_⟩
      rw [samplerStep, if_neg hfree]
      rfl

theorem step_of_worker {act : SamplerAct}
    (h : workerStep msecsToJiffies pageSize jiffiesToMsecs act s = some t) :
    act.background = true ∧ samplerStep msecsToJiffies pageSize jiffiesToMsecs act s = some t := by
  unfold workerStep at h
  split at h
  · next hback => exact ⟨hback, h⟩
  · cases h

/-- **Every history, of whatever messages, is a run of the profiler.** -/
theorem session_refines (h : Exec (mp3Step msecsToJiffies pageSize jiffiesToMsecs) s tr t) :
    ∃ tr', Exec (samplerStep msecsToJiffies pageSize jiffiesToMsecs) s tr' t := by
  induction h with
  | refl => exact ⟨[], .refl s⟩
  | @snoc t u tr act _ hs ih =>
      obtain ⟨tr', hexec⟩ := ih
      cases act with
      | other a => exact ⟨_, hexec.snoc (step_of_worker hs).2⟩
      | write w =>
          have hmay : (!t.phase.holdsLock) = true := by
            by_contra hno
            rw [mp3Step, fileStep, if_neg hno] at hs
            cases hs
          rw [mp3Step, fileStep, if_pos hmay] at hs
          obtain ⟨e, hfinish, rfl⟩ := Option.map_eq_some_iff.mp hs
          rcases write_cases hfinish with ⟨r, -, -, hperform⟩ | ⟨-, hsame⟩
          · obtain ⟨-, act, hact⟩ := mp3Perform_step hmay hperform
            exact ⟨_, hexec.snoc hact⟩
          · rw [hsame]
            exact ⟨tr', hexec⟩

/-! ## What the clients asked for -/

/-- The requests said in the messages of a history. -/
def setRequests (tr : List (Transition Sampler (FileAct Mp3Locals Bool SamplerAct))) :
    List (SetRequest UInt32) :=
  (tr.filterMap fun x => x.act.asks mp3Format).map fun asked => asked.2.toSet

/-- The pids that are left of them. -/
def pidsAsked (tr : List (Transition Sampler (FileAct Mp3Locals Bool SamplerAct))) :
    List UInt32 :=
  (setRequests tr).foldl SetRequest.perform []

/-- A step in the background leaves the list alone. -/
theorem SamplerEffect.processList_eq {act : SamplerAct} (hback : act.background = true)
    (he : SamplerEffect msecsToJiffies pageSize jiffiesToMsecs s act t) :
    t.processList = s.processList := by
  cases he with
  | register | unregister => cases hback
  | increment | tick | start | checkReturn | checkPass | requeue | stamp | acquire | readNone | read
  | store => rfl

theorem setRequests_concat (tr : List (Transition Sampler (FileAct Mp3Locals Bool SamplerAct)))
    (x : Transition Sampler (FileAct Mp3Locals Bool SamplerAct)) :
    setRequests (tr ++ [x]) =
      setRequests tr ++ ((x.act.asks mp3Format).map fun asked => asked.2.toSet).toList := by
  cases hasks : x.act.asks mp3Format <;> simp [setRequests, hasks]

/-- **The list is what the messages make of it.** -/
theorem session_served (h : Exec (mp3Step msecsToJiffies pageSize jiffiesToMsecs) s tr t)
    (hclear : ∀ x ∈ tr, x.act.Clear mp3Format) :
    t.processList = (setRequests tr).foldl SetRequest.perform s.processList := by
  have hserved := served Sampler.processList (fun pids asked => asked.2.toSet.perform pids)
    (I := fun _ => True) h trivial
    (fun {_ _ _ _ u} _ hmay hperform => by
      have hdone : _ ∧ ∃ act, samplerStep msecsToJiffies pageSize jiffiesToMsecs act _ = some u :=
        mp3Perform_step hmay hperform
      exact ⟨trivial, hdone.1⟩)
    (fun _ ha => by
      obtain ⟨hback, hstep⟩ := step_of_worker ha
      exact ⟨trivial, (samplerEffect_of_step hstep).processList_eq hback⟩)
    hclear
  rw [setRequests, List.foldl_map]
  exact hserved.2

/-- **From an empty list, the list is the set of the pids last asked for after every message exactly
if no message asks for a pid that is asked for already.** -/
theorem session_exact_iff (h : Exec (mp3Step msecsToJiffies pageSize jiffiesToMsecs) s tr t)
    (hclear : ∀ x ∈ tr, x.act.Clear mp3Format) (hempty : s.processList = []) :
    AtEach (fun before x => IsExact (setRequests (before ++ [x])) x.post.processList) tr ↔
      EachFresh (setRequests tr) := by
  induction h with
  | refl => exact iff_of_true atEach_nil eachFresh_nil
  | @snoc t u tr act h hs ih =>
      have htr : ∀ x ∈ tr, x.act.Clear mp3Format := fun x hx =>
        hclear x (List.mem_append_left _ hx)
      have hexact : EachFresh (setRequests tr) → IsExact (setRequests tr) t.processList := by
        intro hfresh
        rw [session_served h htr, hempty]
        exact isExact_prefixes_iff.mpr hfresh _ (List.prefix_refl _)
      have hlast : u.processList =
          (setRequests (tr ++ [⟨t, act, u⟩])).foldl SetRequest.perform s.processList :=
        session_served (h.snoc hs) hclear
      rw [atEach_concat, ih htr]
      rw [setRequests_concat, List.foldl_append, ← session_served h htr] at hlast
      rw [hlast, setRequests_concat]
      cases act.asks mp3Format with
      | none =>
          simp only [Option.map_none, Option.toList_none, List.append_nil, List.foldl_nil]
          exact and_iff_left_of_imp hexact
      | some asked =>
          simp only [Option.map_some, Option.toList_some, List.foldl_cons, List.foldl_nil]
          rw [eachFresh_concat_iff]
          exact and_congr_right fun hfresh => (hexact hfresh).concat_iff asked.2.toSet

/-! ## What they get -/

/-- The lines of a list of pids. -/
def pidLines (pids : List UInt32) : Bytes := pids.flatMap pidLine

/-- **After any history of clear messages the process list is what the requests in them make of the
empty one; a read delivers exactly its lines if and only if these are two at most; and the list was
the set of the pids last asked for after every message if and only if no message asked for a pid
that was asked for already.** -/
theorem mp3_session_listed {mp3 : Mp3} {live : Finset UInt32} {counters : UInt32 → CpuUse}
    (h : Exec (mp3Step msecsToJiffies pageSize jiffiesToMsecs) (Sampler.boot mp3 live counters) tr
      t)
    (hclear : ∀ x ∈ tr, x.act.Clear mp3Format) :
    t.processList = pidsAsked tr ∧
      (∀ buffer accessible count, copyToUser accessible count = 0 →
        (pidLines (pidsAsked tr)).length < count →
          (Delivers (mp3Read buffer accessible t count 0) (pidLines (pidsAsked tr)) ↔
            (pidsAsked tr).length ≤ 2)) ∧
      (AtEach (fun before x => IsExact (setRequests (before ++ [x])) x.post.processList) tr ↔
        EachFresh (setRequests tr)) := by
  have hlist : t.processList = pidsAsked tr := session_served h hclear
  refine ⟨hlist, fun buffer accessible count hcopy hfits => ?_, session_exact_iff h hclear rfl⟩
  rw [← hlist] at hfits ⊢
  exact delivers_iff rfl hcopy hfits

/-- `"R 7\n"`, `"U\n"` at another offset, `"R 8\n"` and `"U 7\n"`, around a sample. -/
def threeWrites : List (FileAct Mp3Locals Bool SamplerAct) :=
  [.write ⟨true, [82, 32, 55, 10], [57], default, 0⟩, .other (.tick 50), .other .start,
    .other .check, .write ⟨true, [85, 10], [], default, 4⟩, .other .requeue, .other .stamp,
    .write ⟨true, [82, 32, 56, 10], [], ⟨3⟩, 0⟩, .other .acquire, .other .read, .other .read,
    .other .store, .write ⟨false, [85, 32, 55, 10], [], default, 0⟩]

/-- One jiffy is one millisecond. -/
def mp3StepHz1000 : FileAct Mp3Locals Bool SamplerAct → Sampler → Option Sampler :=
  mp3Step (·.toUInt64) 4096 (·.toUInt32)

theorem threeWrites_runs : (runActions mp3StepHz1000 threeWrites quietSampler).isSome := by
  decide +kernel

/-- `"8: \n"` is read. -/
theorem mp3_session_listed_threeWrites :
    (endOf mp3StepHz1000 threeWrites quietSampler threeWrites_runs).processList = [8] ∧
      Delivers (mp3Read (fun _ => 255) 4096
        (endOf mp3StepHz1000 threeWrites quietSampler threeWrites_runs) 4096 0)
        [56, 58, 32, 10] := by
  obtain ⟨hlist, hread, -⟩ := mp3_session_listed (exec_runOf threeWrites_runs) (by decide +kernel)
  have hpids : pidsAsked (runOf mp3StepHz1000 threeWrites quietSampler threeWrites_runs) = [8] := by
    decide +kernel
  have hlines : pidLines [8] = [56, 58, 32, 10] := by decide +kernel
  have hcopy : copyToUser 4096 4096 = 0 := by decide
  rw [hpids, hlines] at hread
  rw [hpids] at hlist
  exact ⟨hlist, (hread _ 4096 4096 hcopy (by decide)).mpr (by decide)⟩

end KernelDev.Profiler
