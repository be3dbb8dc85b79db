/-
# KernelDev.Rms.Records — the records allocated and the records linked

A record is allocated by a registration, which then links it, and is freed by the de-registration or
by the unload loop that unlinks it. The second section of a registration has an exit between the two
steps: when `find_task_by_pid` finds no process, the record filled in so far is neither linked nor
freed, and nothing refers to it any more.

`recordsConserved_iff` says that this exit is the only way a run gets records and list out of step.
-/
import KernelDev.Rms.System
import Mathlib.Data.List.Perm.Basic

namespace KernelDev.Rms

open KernelDev.Lib

variable {msecsToJiffies : UInt32 → UInt64} {s : Mp2}

/-- The records allocated and not freed are exactly the ones linked. -/
def Conserved (s : Mp2) : Prop := s.live.Perm s.mp2ProcessList

/-- A registration that returns an error here: the admission test rejects, or the second section
returns something other than 0. -/
def RegistrationFails (msecsToJiffies : UInt32 → UInt64) (x : Transition Mp2 Act) : Prop :=
  match x.act with
  | .admission c => mp2AdmissionControl x.pre c.period c.processingTime ≠ some 0
  | .insert e alloc found =>
      (mp2RegistrationInsert msecsToJiffies e.call alloc found (x.pre.takeAdmitted e)).1 ≠ 0
  | _ => False

/-- A registration that fails leaves records and list as they were. -/
def FailureKeeps (msecsToJiffies : UInt32 → UInt64) (x : Transition Mp2 Act) : Prop :=
  RegistrationFails msecsToJiffies x →
    x.post.live = x.pre.live ∧ x.post.mp2ProcessList = x.pre.mp2ProcessList

/-- A registration that gets as far as looking for its process finds one. -/
def FindsProcess (x : Transition Mp2 Act) : Prop :=
  ∀ e, x.act = .insert e true 0 → ∃ i ∈ x.pre.mp2ProcessList, (x.pre.slab i).pid = e.call.pid

theorem findsProcess_of_ne {x : Transition Mp2 Act} (h : ∀ e, x.act ≠ .insert e true 0) :
    FindsProcess x := fun e he => absurd he (h e)

/-! ## One step -/

/-- **One step keeps records and list in step exactly when no registration misses its process.** -/
theorem conserved_step_iff {x : Transition Mp2 Act}
    (hx : step msecsToJiffies x.act x.pre = some x.post) (h : Conserved x.pre) :
    Conserved x.post ↔ FindsProcess x := by
  obtain ⟨s, act, t⟩ := x
  replace h : s.live.Perm s.mp2ProcessList := h
  have he : Effect msecsToJiffies s act t := effect_of_step hx
  cases he with
  | @insertDuplicate e alloc found hmem hdup =>
      apply iff_of_true h
      rintro e' heq
      obtain ⟨rfl, -, -⟩ := Act.insert.inj heq
      exact hdup
  | @insertNoTask e hmem hnew =>
      refine iff_of_false ?_ ?_
      · -- one more record allocated than linked
        intro hpost
        have hlen := hpost.length_eq
        simp only [allocated, Mp2.takeAdmitted, List.length_cons, h.length_eq] at hlen
        omega
      · intro hfinds
        obtain ⟨i, hi, hpid⟩ := hfinds e rfl
        exact hnew i hi hpid
  | @insertLink e found hmem hrun hnew hfound =>
      refine iff_of_true ?_ (findsProcess_of_ne ?_)
      · show (s.freeRec :: s.live).Perm (s.mp2ProcessList ++ [s.freeRec])
        exact (h.cons _).trans (List.perm_append_singleton _ _).symm
      · rintro e' heq
        exact hfound (Act.insert.inj heq).2.2
  | deregister d => exact iff_of_true (h.erase d) (findsProcess_of_ne (by simp))
  | dispatch r =>
      refine iff_of_true ?_ (findsProcess_of_ne (by simp))
      show (dispatched r s).live.Perm (dispatched r s).mp2ProcessList
      rw [dispatched_live, dispatched_mp2ProcessList]
      exact h
  | reject | admission | insertNoMemory | yieldUnknown | yieldOnTime | yieldLate
  | deregisterUnknown | fire | callbackNone | callback | dispatchStay | tick | scribble | recycle =>
      exact iff_of_true h (findsProcess_of_ne (by simp))

/-- Every failure before or after that exit leaves records and list alone. -/
theorem failureKeeps_of_findsProcess {x : Transition Mp2 Act}
    (hx : step msecsToJiffies x.act x.pre = some x.post) (h : FindsProcess x) :
    FailureKeeps msecsToJiffies x := by
  obtain ⟨s, act, t⟩ := x
  intro hfails
  have he : Effect msecsToJiffies s act t := effect_of_step hx
  cases he with
  | reject | admission | insertDuplicate | insertNoMemory => exact ⟨rfl, rfl⟩
  | @insertNoTask e hmem hnew =>
      obtain ⟨i, hi, hpid⟩ := h e rfl
      exact absurd hpid (hnew i hi)
  | @insertLink e found hmem hrun hnew hfound =>
      -- linking a record returns 0
      exfalso
      rcases mp2RegistrationInsert_cases msecsToJiffies e.call true found (s.takeAdmitted e) with
        ⟨-, heq⟩ | ⟨-, ⟨halloc, -⟩ | ⟨-, h0, -⟩ | ⟨-, -, heq⟩⟩
      · exact hfails (by rw [heq])
      · cases halloc
      · exact hfound h0
      · exact hfails (by rw [heq])
  | yieldUnknown | yieldOnTime | yieldLate | deregisterUnknown | deregister | fire | callbackNone
  | callback | dispatchStay | dispatch | tick | scribble | recycle => exact hfails.elim

/-- What is allocated and not linked is what the unload loop does not free. -/
theorem mp2Exit_live_of_conserved (h : Conserved s) : (mp2Exit s).live = [] := by
  rw [(mp2Exit_lists s).2]
  have hperm := List.Perm.diff_right s.mp2ProcessList h
  rw [diff_self_eq_nil] at hperm
  exact hperm.eq_nil

/-! ## Runs -/

/-- **A run keeps the records allocated and the records linked the same, its failed registrations
change neither, and unloading leaves no record behind, exactly when no registration that got past
the duplicate test and the allocation missed its process.** -/
theorem recordsConserved_iff (msecsToJiffies : UInt32 → UInt64) (memory : RecPtr → Mp2TaskStruct)
    (jiffies : UInt64) {tr : List (Transition Mp2 Act)} {s : Mp2}
    (h : Exec (step msecsToJiffies) (Mp2.boot memory jiffies) tr s) :
    ((∀ x ∈ tr, Conserved x.post ∧ FailureKeeps msecsToJiffies x) ∧
        (mp2Exit s).mp2ProcessList = [] ∧ (mp2Exit s).live = []) ↔
      ∀ x ∈ tr, FindsProcess x := by
  have hboot : Conserved (Mp2.boot memory jiffies) := List.Perm.refl []
  have hiff := h.forall_post_iff (I := fun _ => True) trivial hboot (fun _ _ _ => trivial)
    fun x hx _ hpre => conserved_step_iff hx hpre
  constructor
  · rintro ⟨hall, -⟩
    exact hiff.mp fun x hx => (hall x hx).1
  · intro hfinds
    have hend : Conserved s := (h.guarded (I := Conserved) hboot
      (fun x hx hC hpre => (conserved_step_iff hx hpre).mpr hC) hfinds).2
    refine ⟨fun x hx => ⟨hiff.mpr hfinds x hx, ?_⟩, (mp2Exit_lists s).1,
      mp2Exit_live_of_conserved hend⟩
    exact failureKeeps_of_findsProcess (h.isStep x hx) (hfinds x hx)

/-- With two tasks registered, process 11 registers pid 9 again, and then pid 12 while there is no
memory. -/
def failedRegistrations : List Act :=
  secondTask ++
    [.admission ⟨11, 9, 50, 5⟩,
      .insert ⟨⟨11, 9, 50, 5⟩, [⟨7, 100, 10⟩, ⟨9, 50, 5⟩]⟩ true 9,
      .admission ⟨11, 12, 200, 5⟩,
      .insert ⟨⟨11, 12, 200, 5⟩, [⟨7, 100, 10⟩, ⟨9, 50, 5⟩]⟩ false 12]

theorem failedRegistrations_runs :
    (runActions (step (·.toUInt64)) failedRegistrations quiet).isSome := rfl

theorem recordsConserved_failedRegistrations :
    let tr := runOf (step (·.toUInt64)) failedRegistrations quiet failedRegistrations_runs
    let s := endOf (step (·.toUInt64)) failedRegistrations quiet failedRegistrations_runs
    s.mp2ProcessList = [0, 1] ∧
      (∀ x ∈ tr, Conserved x.post ∧ FailureKeeps (·.toUInt64) x) ∧ (mp2Exit s).live = [] := by
  intro tr s
  have hacts : ∀ x ∈ tr, x.act ∈ failedRegistrations := by decide
  have hfinds : ∀ x ∈ tr, FindsProcess x := by
    intro x hx e he
    have hact := hacts x hx
    rw [he] at hact
    simp [failedRegistrations, secondTask, firstDispatch] at hact
  obtain ⟨hall, -, hlive⟩ :=
    (recordsConserved_iff (·.toUInt64) _ _ (exec_runOf failedRegistrations_runs)).mpr hfinds
  exact ⟨by decide, hall, hlive⟩

/-- A registration of pid 5, which no process has. -/
def unknownProcess : List Act :=
  [.admission ⟨9, 5, 100, 10⟩, .insert ⟨⟨9, 5, 100, 10⟩, []⟩ true 0]

theorem unknownProcess_runs :
    (runActions (step (·.toUInt64)) unknownProcess quiet).isSome := rfl

/-- The record stays allocated for good. -/
theorem recordsConserved_fails : ¬ ∀ msecsToJiffies memory jiffies tr s,
    Exec (step msecsToJiffies) (Mp2.boot memory jiffies) tr s →
      (∀ x ∈ tr, Conserved x.post ∧ FailureKeeps msecsToJiffies x) ∧
        (mp2Exit s).mp2ProcessList = [] ∧ (mp2Exit s).live = [] := by
  intro hall
  have hlive := (hall _ _ _ _ _ (exec_runOf unknownProcess_runs)).2.2
  exact absurd hlive (by decide)

end KernelDev.Rms
