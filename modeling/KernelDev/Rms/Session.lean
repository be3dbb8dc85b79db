/-
# KernelDev.Rms.Session — the scheduler behind its proc file

Clients write bytes to `/proc/mp2/status`; between two calls timers expire, the dispatcher passes,
time goes on and free memory changes. The calls themselves run one at a time here. A process that
has been marked `TASK_UNINTERRUPTIBLE` runs on until it is scheduled out, so its writes are
histories like any other; without them a history is a run of the scheduler's critical sections
(`session_refines`).

What the clients get is `mp2_session_listed`: the task set is what the requests said in the messages
make of the empty one, and it is what a read delivers, as long as the read delivers anything.
-/
import KernelDev.Lib.Listing
import KernelDev.Lib.Session
import KernelDev.Rms.Read
import KernelDev.Rms.TaskSet
import KernelDev.Rms.Write

namespace KernelDev.Rms

open KernelDev.Lib KernelDev.Lib.ReadFormat

/-! ## The system -/

/-- What a call depends on apart from its message: the process that makes it, and what a
registration is answered by the slab allocator and by `find_task_by_pid`. -/
structure Mp2Env where
  writer : TaskPtr
  alloc : Bool
  found : TaskPtr
  deriving DecidableEq, Repr

/-- The action is none of a client's. -/
def Act.background : Act → Bool
  | .fire _ | .callback _ | .dispatch | .tick _ | .scribble _ _ | .recycle _ => true
  | .admission _ | .insert _ _ _ | .yield _ _ | .deregister _ _ => false

section
variable (msecsToJiffies : UInt32 → UInt64)

def backgroundStep (act : Act) (s : Mp2) : Option Mp2 :=
  if act.background then step msecsToJiffies act s else none

/-- An operation in its environment. -/
def Mp2Env.perform (e : Mp2Env) : Mp2Request → Mp2 → Option (Int × Mp2) :=
  mp2Perform msecsToJiffies e.writer e.alloc e.found

/-- One call of `mp2_write`, or one step in the background. -/
def mp2Step : FileAct Mp2Locals Mp2Env Act → Mp2 → Option Mp2 :=
  fileStep mp2Format (fun count => count) (fun _ _ => true) (Mp2Env.perform msecsToJiffies)
    (backgroundStep msecsToJiffies)

end

/-- A call of `mp2_write` as a step. -/
theorem mp2Step_write (msecsToJiffies : UInt32 → UInt64) (w : Written Mp2Locals Mp2Env) (s : Mp2) :
    mp2Step msecsToJiffies (.write w) s =
      (mp2Write msecsToJiffies w.env.writer w.env.alloc w.env.found w.message w.rest w.locals w.offp
        s).finish.map (·.state) := by
  rw [mp2Step, fileStep, if_pos rfl]
  rfl

/-! ## A history is a run of the critical sections -/

variable {msecsToJiffies : UInt32 → UInt64} {s t : Mp2}

/-- A registration that is let through is both of its critical sections. -/
theorem mp2Registration_exec {c : RegCall} {alloc : Bool} {found : TaskPtr} {ret : Int}
    (hrun : s.blocked c.writer = false)
    (h : mp2Registration msecsToJiffies c alloc found s = some (ret, t)) :
    ∃ tr, Exec (step msecsToJiffies) s tr t := by
  unfold mp2Registration at h
  split at h
  · cases h
  · next hadm =>
      obtain ⟨-, rfl⟩ : _ ∧ (mp2RegistrationInsert msecsToJiffies c alloc found s).2 = t := by
        simpa [Prod.ext_iff] using h
      have hfirst : step msecsToJiffies (.admission c) s =
          some { s with admitted := ⟨c, taskSet s⟩ :: s.admitted } := by
        simp only [step, hrun, hadm, Bool.false_eq_true, if_false]
      have hsecond : step msecsToJiffies (.insert ⟨c, taskSet s⟩ alloc found)
          { s with admitted := ⟨c, taskSet s⟩ :: s.admitted } =
          some (mp2RegistrationInsert msecsToJiffies c alloc found s).2 := by
        simp only [step]
        rw [if_pos ⟨List.mem_cons_self, hrun⟩]
        simp only [Mp2.takeAdmitted, List.erase_cons_head]
      exact ⟨_, (Exec.single hfirst).trans (.single hsecond)⟩
  · next rv hne hadm =>
      obtain ⟨-, rfl⟩ : _ ∧ s = t := by simpa [Prod.ext_iff] using h
      have hreject : step msecsToJiffies (.admission c) s = some s := by
        simp only [step, hrun, hadm, Bool.false_eq_true, if_false]
      exact ⟨_, .single hreject⟩

/-- An operation is a run of critical sections. -/
theorem perform_exec {e : Mp2Env} {r : Mp2Request} {ret : Int} (hrun : s.blocked e.writer = false)
    (h : e.perform msecsToJiffies r s = some (ret, t)) :
    ∃ tr, Exec (step msecsToJiffies) s tr t := by
  cases r with
  | registration pid period processingTime => exact mp2Registration_exec hrun h
  | yield pid =>
      obtain ⟨-, rfl⟩ := Prod.mk.inj (Option.some.inj h)
      refine ⟨_, Exec.single (a := .yield e.writer pid) ?_⟩
      rw [step, if_neg (by rw [hrun]; exact Bool.false_ne_true)]
  | deregistration pid =>
      obtain ⟨-, rfl⟩ := Prod.mk.inj (Option.some.inj h)
      refine ⟨_, Exec.single (a := .deregister e.writer pid) ?_⟩
      rw [step, if_neg (by rw [hrun]; exact Bool.false_ne_true)]

theorem step_of_background {act : Act} (h : backgroundStep msecsToJiffies act s = some t) :
    act.background = true ∧ step msecsToJiffies act s = some t := by
  unfold backgroundStep at h
  split at h
  · next hback => exact ⟨hback, h⟩
  · cases h

/-- **A history in which no process writes that is marked is a run of the scheduler**, whatever the
messages are. -/
theorem session_refines {tr : List (Transition Mp2 (FileAct Mp2Locals Mp2Env Act))}
    (h : Exec (mp2Step msecsToJiffies) s tr t)
    (hrun : ∀ x ∈ tr, ∀ w, x.act = .write w → x.pre.blocked w.env.writer = false) :
    ∃ tr', Exec (step msecsToJiffies) s tr' t := by
  induction h with
  | refl => exact ⟨[], .refl s⟩
  | @snoc t u tr act _ hs ih =>
      obtain ⟨tr', hexec⟩ := ih fun x hx => hrun x (List.mem_append_left _ hx)
      cases act with
      | other a => exact ⟨_, hexec.snoc (step_of_background hs).2⟩
      | write w =>
          rw [mp2Step, fileStep, if_pos rfl] at hs
          obtain ⟨e, hfinish, rfl⟩ := Option.map_eq_some_iff.mp hs
          rcases write_cases hfinish with ⟨r, -, -, hperform⟩ | ⟨-, hsame⟩
          · have hwriter : t.blocked w.env.writer = false :=
              hrun ⟨t, .write w, e.state⟩ (by simp) w rfl
            obtain ⟨tr'', hop⟩ := perform_exec hwriter hperform
            exact ⟨_, hexec.trans hop⟩
          · rw [hsame]
            exact ⟨tr', hexec⟩

/-! ## The task set -/

/-- What a request makes of the task set, in its environment. -/
def serveRequest (ts : List TaskParams) : Mp2Env × Mp2Request → List TaskParams
  | (e, .registration pid period processingTime) =>
      serve ts (.register ⟨pid, period, processingTime⟩ (e.alloc && e.found != 0))
  | (_, .yield _) => ts
  | (_, .deregistration pid) => serve ts (.deregister pid)

/-- **An operation keeps the invariant.** -/
theorem WellFormed.perform {e : Mp2Env} {r : Mp2Request} {ret : Int} (hwf : WellFormed s)
    (h : e.perform msecsToJiffies r s = some (ret, t)) : WellFormed t := by
  cases r with
  | registration pid period processingTime =>
      replace h : mp2Registration msecsToJiffies ⟨e.writer, pid, period, processingTime⟩ e.alloc
        e.found s = some (ret, t) := h
      unfold mp2Registration at h
      split at h
      · cases h
      · obtain ⟨-, rfl⟩ : _ ∧ (mp2RegistrationInsert msecsToJiffies
            ⟨e.writer, pid, period, processingTime⟩ e.alloc e.found s).2 = t := by
          simpa [Prod.ext_iff] using h
        rcases mp2RegistrationInsert_cases msecsToJiffies ⟨e.writer, pid, period, processingTime⟩
          e.alloc e.found s with
          ⟨-, heq⟩ | ⟨hnew, ⟨-, heq⟩ | ⟨-, -, heq⟩ | ⟨-, -, heq⟩⟩
        · rwa [heq]
        · rwa [heq]
        · rw [heq]
          exact hwf.allocated _ _ _
        · rw [heq]
          exact hwf.linked hnew
      · obtain ⟨-, rfl⟩ : _ ∧ s = t := by simpa [Prod.ext_iff] using h
        exact hwf
  | yield pid =>
      obtain ⟨-, rfl⟩ := Prod.mk.inj (Option.some.inj h)
      rcases mp2Yield_cases e.writer pid s with ⟨heq, -⟩ | ⟨y, hy, -, ⟨-, heq⟩ | ⟨-, heq⟩⟩
      · rwa [heq]
      · rw [heq]
        exact hwf.yielded hy _
      · rw [heq]
        exact hwf.modTimer (hwf.liveLt y (hwf.linkedLive y hy)) _
  | deregistration pid =>
      obtain ⟨-, rfl⟩ := Prod.mk.inj (Option.some.inj h)
      rcases mp2Deregistration_cases pid s with ⟨heq, -⟩ | ⟨d, -, -, heq⟩
      · rwa [heq]
      · rw [heq]
        exact hwf.removed d

/-- The task set that the messages of a history ask for. -/
def tasksAsked (tr : List (Transition Mp2 (FileAct Mp2Locals Mp2Env Act))) : List TaskParams :=
  (tr.filterMap fun x => x.act.asks mp2Format).foldl serveRequest []

/-- A step in the background leaves the task set alone. -/
theorem Effect.taskSet_eq {act : Act} (he : Effect msecsToJiffies s act t) (hwf : WellFormed s)
    (hback : act.background = true) : taskSet t = taskSet s := by
  have hlist : t.mp2ProcessList = s.mp2ProcessList := by
    cases he with
    | dispatch h => simp
    | fire | callbackNone | callback | dispatchStay | tick | scribble | recycle => rfl
    | reject | admission | insertDuplicate | insertNoMemory | insertNoTask | insertLink
    | yieldUnknown | yieldOnTime | yieldLate | deregisterUnknown | deregister => cases hback
  exact taskSet_congr hlist fun _ ha => he.sameTask hwf ha

/-- So does a yield. -/
theorem mp2Yield_taskSet (writer : TaskPtr) (pid : UInt32) (s : Mp2) :
    taskSet (mp2Yield writer pid s) = taskSet s := by
  rcases mp2Yield_cases writer pid s with ⟨heq, -⟩ | ⟨y, -, -, ⟨-, heq⟩ | ⟨-, heq⟩⟩
  · rw [heq]
  · rw [heq]
    refine taskSet_congr rfl fun a _ => ?_
    show SameTask _ ((s.setState y .sleeping).slab a)
    exact ⟨by simp, by simp, by simp, by simp⟩
  · rw [heq]
    exact taskSet_congr rfl fun a _ => .refl _

/-- **An operation serves its request.** -/
theorem perform_taskSet {e : Mp2Env} {r : Mp2Request} {ret : Int} (hwf : WellFormed s)
    (h : e.perform msecsToJiffies r s = some (ret, t)) :
    taskSet t = serveRequest (taskSet s) (e, r) := by
  cases r with
  | registration pid period processingTime => exact mp2Registration_taskSet hwf h
  | yield pid =>
      obtain ⟨-, rfl⟩ := Prod.mk.inj (Option.some.inj h)
      exact mp2Yield_taskSet e.writer pid s
  | deregistration pid =>
      obtain ⟨-, rfl⟩ := Prod.mk.inj (Option.some.inj h)
      exact mp2Deregistration_taskSet hwf pid

/-- **The task set is what the messages make of it.** -/
theorem session_served {tr : List (Transition Mp2 (FileAct Mp2Locals Mp2Env Act))}
    (h : Exec (mp2Step msecsToJiffies) s tr t) (hwf : WellFormed s)
    (hclear : ∀ x ∈ tr, x.act.Clear mp2Format) :
    WellFormed t ∧
      taskSet t = (tr.filterMap fun x => x.act.asks mp2Format).foldl serveRequest (taskSet s) := by
  refine served taskSet serveRequest (I := WellFormed) h hwf ?_ ?_ hclear
  · intro e r s ret t hwf _ hperform
    exact ⟨hwf.perform hperform, perform_taskSet hwf hperform⟩
  · intro a s t hwf ha
    obtain ⟨hback, hstep⟩ := step_of_background ha
    exact ⟨hwf.step hstep, (effect_of_step hstep).taskSet_eq hwf hback⟩

/-! ## The listing -/

/-- The line of a task. -/
def TaskParams.line (t : TaskParams) : Bytes :=
  decimalInt t.pid.toInt32.toInt ++ [58, 32] ++ decimal t.period.toNat ++ [44, 32] ++
    decimal t.processingTime.toNat ++ [10]

/-- The lines of a task set. -/
def taskLines (ts : List TaskParams) : Bytes := ts.flatMap TaskParams.line

theorem listing_records (s : Mp2) : mp2ReadFormat.listing s.records = taskLines (taskSet s) := by
  unfold ReadFormat.listing taskLines taskSet Mp2.records
  rw [List.flatMap_map, List.flatMap_map]
  rfl

/-- **After any history of clear messages the task set is what the requests in them make of the
empty one, and a read delivers exactly its lines if and only if these are two at most.** -/
theorem mp2_session_listed {memory : RecPtr → Mp2TaskStruct} {jiffies : UInt64}
    {tr : List (Transition Mp2 (FileAct Mp2Locals Mp2Env Act))}
    (h : Exec (mp2Step msecsToJiffies) (Mp2.boot memory jiffies) tr t)
    (hclear : ∀ x ∈ tr, x.act.Clear mp2Format) :
    taskSet t = tasksAsked tr ∧
      ∀ buffer accessible count, copyToUser accessible count = 0 →
        (taskLines (tasksAsked tr)).length < count →
          (Delivers (mp2Read buffer accessible t count 0) (taskLines (tasksAsked tr)) ↔
            (tasksAsked tr).length ≤ 2) := by
  have htasks : taskSet t = tasksAsked tr :=
    (session_served h (wellFormed_boot memory jiffies) hclear).2
  refine ⟨htasks, fun buffer accessible count hcopy hfits => ?_⟩
  have hlines : mp2ReadFormat.listing t.records = taskLines (tasksAsked tr) := by
    rw [listing_records, htasks]
  have hlength : t.records.length = (tasksAsked tr).length := by
    rw [← htasks, taskSet, Mp2.records, List.length_map, List.length_map]
  rw [← hlength]
  exact ReadFormat.delivers_iff hlines hcopy hfits

/-- `"R,7,1000,200\n"`, `"Q,8\n"`, `"R,8,500,100\n"` and `"D,7\n"`, each by a process of its own. -/
def fourWrites : List (FileAct Mp2Locals Mp2Env Act) :=
  [.write ⟨⟨7, true, 7⟩, [82, 44, 55, 44, 49, 48, 48, 48, 44, 50, 48, 48, 10], [57], default, 0⟩,
    .other (.tick 5), .write ⟨⟨9, true, 0⟩, [81, 44, 56, 10], [], default, 0⟩,
    .write ⟨⟨8, true, 8⟩, [82, 44, 56, 44, 53, 48, 48, 44, 49, 48, 48, 10], [], ⟨1, 2, 3⟩, 0⟩,
    .write ⟨⟨9, true, 0⟩, [68, 44, 55, 10], [], default, 0⟩]

theorem fourWrites_runs : (runActions (mp2Step (·.toUInt64)) fourWrites quiet).isSome := by
  decide +kernel

/-- Process 8 is left, and `"8: 500, 100\n"` is read. -/
theorem mp2_session_listed_fourWrites :
    taskSet (endOf (mp2Step (·.toUInt64)) fourWrites quiet fourWrites_runs) = [⟨8, 500, 100⟩] ∧
      Delivers (mp2Read (fun _ => 255) 4096
        (endOf (mp2Step (·.toUInt64)) fourWrites quiet fourWrites_runs) 4096 0)
        [56, 58, 32, 53, 48, 48, 44, 32, 49, 48, 48, 10] := by
  have hlisted := mp2_session_listed (exec_runOf fourWrites_runs) (by decide +kernel)
  have htasks : tasksAsked (runOf (mp2Step (·.toUInt64)) fourWrites quiet fourWrites_runs) =
      [⟨8, 500, 100⟩] := by decide +kernel
  have hlines : taskLines [⟨8, 500, 100⟩] = [56, 58, 32, 53, 48, 48, 44, 32, 49, 48, 48, 10] := by
    decide +kernel
  rw [htasks, hlines] at hlisted
  have hcopy : copyToUser 4096 4096 = 0 := by decide
  exact ⟨hlisted.1, (hlisted.2 _ 4096 4096 hcopy (by decide)).mpr (by decide)⟩

end KernelDev.Rms
