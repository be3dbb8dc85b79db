/-
# KernelDev.Rms.Admission — admission and insertion are two critical sections

`mp2_admission_control` takes and releases `mp2_proc_list_lock` on its own, and `mp2_registration`
takes the lock again to link the record. What the test accepted is the list of the first section;
the record goes into the list of the second.

`gapQuiet_admission` says that nothing else can go wrong: as long as no record is linked after the
tasks of the list have changed in its gap, the utilization test accepts every task against the very
list it joins, and the requests of the run, each served in one piece at the moment its call linked,
failed or removed, leave the same task set.
-/
import KernelDev.Rms.TaskSet

namespace KernelDev.Rms

open KernelDev.Lib

variable {msecsToJiffies : UInt32 → UInt64}

/-- Every record the transition links passes the admission test against the list it joins. -/
def LinkAdmitted (x : Transition Mp2 Act) : Prop :=
  ∀ a ∈ x.post.mp2ProcessList, a ∉ x.pre.mp2ProcessList →
    mp2AdmissionControl x.pre (x.post.slab a).period (x.post.slab a).processingTime = some 0

instance : DecidablePred LinkAdmitted := fun x =>
  inferInstanceAs (Decidable (∀ a ∈ x.post.mp2ProcessList, a ∉ x.pre.mp2ProcessList →
    mp2AdmissionControl x.pre (x.post.slab a).period (x.post.slab a).processingTime = some 0))

/-- A second section that links finds the tasks its first section read. -/
def GapQuiet (x : Transition Mp2 Act) : Prop :=
  match x.act with
  | .insert e alloc found => Links x.pre e alloc found → taskSet x.pre = e.seen
  | _ => True

instance : DecidablePred GapQuiet
  | ⟨s, .insert e alloc found, _⟩ =>
      inferInstanceAs (Decidable (Links s e alloc found → taskSet s = e.seen))
  | ⟨_, .admission _, _⟩ | ⟨_, .yield _ _, _⟩ | ⟨_, .deregister _ _, _⟩ | ⟨_, .fire _, _⟩
  | ⟨_, .callback _, _⟩ | ⟨_, .dispatch, _⟩ | ⟨_, .tick _, _⟩ | ⟨_, .scribble _ _, _⟩
  | ⟨_, .recycle _, _⟩ => inferInstanceAs (Decidable True)

/-! ## What admission leaves behind -/

/-- The utilization test accepted the call on the tasks it saw. -/
def Accepted (e : Admitted) : Prop := utilizationTest e.seen e.call.params = some 0

/-- The invariant: every registration in its gap was accepted. -/
structure AdmissionHistory (s : Mp2) : Prop where
  wellFormed : WellFormed s
  accepted : ∀ e ∈ s.admitted, Accepted e

theorem admissionHistory_boot (memory : RecPtr → Mp2TaskStruct) (jiffies : UInt64) :
    AdmissionHistory (Mp2.boot memory jiffies) where
  wellFormed := wellFormed_boot memory jiffies
  accepted := by simp [Mp2.boot]

/-- The registrations in their gap after a step were there before, or have just been admitted. -/
theorem Effect.admitted_cases {s t : Mp2} {act : Act} (he : Effect msecsToJiffies s act t)
    {e : Admitted} (h : e ∈ t.admitted) :
    e ∈ s.admitted ∨ ∃ c, e = ⟨c, taskSet s⟩ ∧
      mp2AdmissionControl s c.period c.processingTime = some 0 := by
  cases he with
  | @admission c _ hadm =>
      rcases List.mem_cons.mp h with rfl | h
      · exact .inr ⟨c, rfl, hadm⟩
      · exact .inl h
  | insertDuplicate | insertNoMemory | insertNoTask | insertLink =>
      exact .inl (List.mem_of_mem_erase h)
  | dispatch r => exact .inl (by simpa using h)
  | reject | yieldUnknown | yieldOnTime | yieldLate | deregisterUnknown | deregister | fire
  | callbackNone | callback | dispatchStay | tick | scribble | recycle => exact .inl h

/-- **Every step keeps the history of admission.** -/
theorem AdmissionHistory.step {s t : Mp2} {act : Act} (h : AdmissionHistory s)
    (hs : step msecsToJiffies act s = some t) : AdmissionHistory t := by
  have he : Effect msecsToJiffies s act t := effect_of_step hs
  refine ⟨h.wellFormed.effect he, fun e hmem => ?_⟩
  rcases he.admitted_cases hmem with hold | ⟨c, rfl, hadm⟩
  · exact h.accepted e hold
  · exact (mp2AdmissionControl_eq s c.params).symm.trans hadm

/-! ## One step -/

/-- An accepted call that finds the tasks it saw passes the test again. -/
theorem Accepted.admissionControl {s : Mp2} {e : Admitted} (h : Accepted e)
    (hseen : taskSet s = e.seen) :
    mp2AdmissionControl s e.call.period e.call.processingTime = some 0 := by
  calc mp2AdmissionControl s e.call.period e.call.processingTime
      = utilizationTest (taskSet s) e.call.params := mp2AdmissionControl_eq s e.call.params
    _ = some 0 := by rw [hseen, h]

/-- **A step whose gap was quiet links admitted tasks only.** -/
theorem linkAdmitted_of_gapQuiet {x : Transition Mp2 Act}
    (hx : step msecsToJiffies x.act x.pre = some x.post) (h : AdmissionHistory x.pre)
    (hquiet : GapQuiet x) : LinkAdmitted x := by
  obtain ⟨s, act, t⟩ := x
  have he : Effect msecsToJiffies s act t := effect_of_step hx
  intro a ha hnew
  -- only a second section links a record, and its call was accepted on the list it finds
  rcases he.linked_cases ha with hold | ⟨rfl, e, found, rfl, hmem, hlinks, rfl⟩
  · exact absurd hold hnew
  · have hseen : taskSet s = e.seen := hquiet hlinks
    have hrec : (linked msecsToJiffies e.call found (s.takeAdmitted e)).slab s.freeRec =
        newRecord msecsToJiffies e.call found (s.takeAdmitted e) := linked_slab_freeRec ..
    dsimp only
    rw [hrec]
    exact (h.accepted e hmem).admissionControl hseen

/-! ## The requests of a run -/

/-- The whole request a critical section decides, if it decides one. -/
def requestOf (x : Transition Mp2 Act) : Option Request :=
  match x.act with
  | .admission c =>
      if mp2AdmissionControl x.pre c.period c.processingTime = some 0 then none
      else some (.register c.params true)
  | .insert e alloc found => some (.register e.call.params (alloc && found != 0))
  | .deregister _ pid => some (.deregister pid)
  | _ => none

/-- **A step that links admitted tasks only does to the task set what its request asks for.** -/
theorem taskSet_step {x : Transition Mp2 Act}
    (hx : step msecsToJiffies x.act x.pre = some x.post) (hwf : WellFormed x.pre)
    (hadm : LinkAdmitted x) :
    taskSet x.post = ((requestOf x).map (serve (taskSet x.pre))).getD (taskSet x.pre) := by
  obtain ⟨s, act, t⟩ := x
  replace hwf : WellFormed s := hwf
  have he : Effect msecsToJiffies s act t := effect_of_step hx
  have hframe : t.mp2ProcessList = s.mp2ProcessList → taskSet t = taskSet s := fun hlist =>
    taskSet_congr hlist fun a ha => he.sameTask hwf ha
  cases he with
  | @reject c _ hrej =>
      -- the request fails whenever it is served here
      have htest : utilizationTest (taskSet s) c.params ≠ some 0 :=
        fun h => hrej ((mp2AdmissionControl_eq s c.params).trans h)
      simp [requestOf, hrej, serve, htest]
  | @admission c _ hacc =>
      simp only [requestOf, hacc, if_pos, Option.map_none, Option.getD_none]
      exact hframe rfl
  | @insertDuplicate e _ _ _ hdup =>
      obtain ⟨i, hi, hpid⟩ := hdup
      have hserve : ∀ b, serve (taskSet s) (.register e.call.params b) = taskSet s := by
        intro b
        rw [serve, if_neg]
        rintro ⟨-, -, hpids⟩
        exact forall_taskSet_pid_ne.mp hpids i hi hpid
      simp only [requestOf, Option.map_some, Option.getD_some, hserve]
      exact hframe rfl
  | insertNoMemory =>
      simp only [requestOf, Option.map_some, Option.getD_some, serve, Bool.false_and,
        Bool.false_eq_true, false_and, if_false]
      exact hframe rfl
  | insertNoTask =>
      simp only [requestOf, Option.map_some, Option.getD_some, serve, bne_self_eq_false,
        Bool.and_false, Bool.false_eq_true, false_and, if_false]
      exact hframe rfl
  | @insertLink e found hmem hrun hnew hfound =>
      have htaken : WellFormed (s.takeAdmitted e) := hwf.takeAdmitted e
      have hacc : mp2AdmissionControl s e.call.period e.call.processingTime = some 0 := by
        have hlinked := hadm s.freeRec (List.mem_append_right _ (List.mem_singleton.mpr rfl))
          hwf.freeRec_not_linked
        have hrec : (linked msecsToJiffies e.call found (s.takeAdmitted e)).slab s.freeRec =
            newRecord msecsToJiffies e.call found (s.takeAdmitted e) := linked_slab_freeRec ..
        rw [hrec] at hlinked
        exact hlinked
      have htest : utilizationTest (taskSet s) e.call.params = some 0 :=
        (mp2AdmissionControl_eq s e.call.params).symm.trans hacc
      have hserve : serve (taskSet s) (.register e.call.params (true && found != 0)) =
          taskSet s ++ [e.call.params] := by
        rw [serve, if_pos ⟨by simpa using hfound, htest, forall_taskSet_pid_ne.mpr hnew⟩]
      simp only [requestOf, Option.map_some, Option.getD_some, hserve]
      exact taskSet_linked htaken e.call found
  | @deregisterUnknown writer pid hnone =>
      have hnot : ∀ u ∈ taskSet s, ¬ decide (u.pid = pid) = true := by
        simpa using forall_taskSet_pid_ne.mpr hnone
      simp [requestOf, serve, List.eraseP_of_forall_not hnot]
  | @deregister writer pid d hd hpid =>
      simp only [requestOf, Option.map_some, Option.getD_some, serve]
      rw [taskSet_removed hwf hd, hpid]
  | yieldUnknown | yieldOnTime | yieldLate | fire | callbackNone | callback | dispatchStay | tick
  | scribble | recycle => exact hframe rfl
  | dispatch r => exact hframe (by simp)

/-! ## Runs -/

/-- **Along a run whose gaps are quiet every task linked passes the test against the list it joins,
and the task set is what the requests make of it, served one at a time.** -/
theorem gapQuiet_admission (msecsToJiffies : UInt32 → UInt64) (memory : RecPtr → Mp2TaskStruct)
    (jiffies : UInt64) {tr : List (Transition Mp2 Act)} {s : Mp2}
    (h : Exec (step msecsToJiffies) (Mp2.boot memory jiffies) tr s)
    (hquiet : ∀ x ∈ tr, GapQuiet x) :
    (∀ x ∈ tr, LinkAdmitted x) ∧ taskSet s = (tr.filterMap requestOf).foldl serve [] := by
  have hinv := (h.invariant (I := AdmissionHistory) (admissionHistory_boot memory jiffies)
    fun _ hx hI => hI.step hx).1
  have hadm : ∀ x ∈ tr, LinkAdmitted x := fun x hx =>
    linkAdmitted_of_gapQuiet (h.isStep x hx) (hinv x hx).1 (hquiet x hx)
  exact ⟨hadm, h.view_foldl fun x hx =>
    taskSet_step (h.isStep x hx) (hinv x hx).1.wellFormed (hadm x hx)⟩

/-- Task 7 takes 200 of 1000 ms and task 8, which joins it, 40 of 100; then task 7 leaves. -/
def joinAndLeave : List Act :=
  [.admission ⟨7, 7, 1000, 200⟩, .insert ⟨⟨7, 7, 1000, 200⟩, []⟩ true 7,
    .admission ⟨8, 8, 100, 40⟩, .insert ⟨⟨8, 8, 100, 40⟩, [⟨7, 1000, 200⟩]⟩ true 8,
    .deregister 9 7]

theorem joinAndLeave_runs : (runActions (step (·.toUInt64)) joinAndLeave quiet).isSome := rfl

theorem gapQuiet_joinAndLeave :
    let tr := runOf (step (·.toUInt64)) joinAndLeave quiet joinAndLeave_runs
    taskSet (endOf _ _ _ joinAndLeave_runs) = [⟨8, 100, 40⟩] ∧ (∀ x ∈ tr, LinkAdmitted x) ∧
      taskSet (endOf _ _ _ joinAndLeave_runs) = (tr.filterMap requestOf).foldl serve [] :=
  ⟨by decide, gapQuiet_admission (·.toUInt64) _ _ (exec_runOf joinAndLeave_runs) (by decide)⟩

/-- With task 7 registered, tasks 8 and 9 both pass admission before either is linked. -/
def admitTwice : List Act :=
  [.admission ⟨7, 7, 1000, 100⟩, .insert ⟨⟨7, 7, 1000, 100⟩, []⟩ true 7,
    .admission ⟨8, 8, 100, 500⟩, .admission ⟨9, 9, 100, 500⟩,
    .insert ⟨⟨8, 8, 100, 500⟩, [⟨7, 1000, 100⟩]⟩ true 8,
    .insert ⟨⟨9, 9, 100, 500⟩, [⟨7, 1000, 100⟩]⟩ true 9]

theorem admitTwice_runs : (runActions (step (·.toUInt64)) admitTwice quiet).isSome := rfl

/-- The second of them joins a list it does not fit: 1100 ms of work in 1200 ms. -/
theorem linkAdmitted_fails : ¬ ∀ msecsToJiffies memory jiffies tr s,
    Exec (step msecsToJiffies) (Mp2.boot memory jiffies) tr s → ∀ x ∈ tr, LinkAdmitted x := by
  intro hall
  have hrun := hall _ _ _ _ _ (exec_runOf admitTwice_runs)
  exact absurd hrun (by decide)

end KernelDev.Rms
