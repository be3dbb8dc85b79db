/-
# KernelDev.Rms.CurrentTask — who owns `mp2_curr_task`

`mp2_curr_task` is a second reference to a record the process list owns. Every operation keeps it
pointing into the list, and keeps `SCHED_FIFO` with the current process alone, except one: a
de-registration frees the record without looking at `mp2_curr_task`.
`currTaskOwned_iff` says that this is the only way a run can go wrong.
-/
import KernelDev.Rms.System

namespace KernelDev.Rms

open KernelDev.Lib

variable {msecsToJiffies : UInt32 → UInt64} {s : Mp2}

/-- The module owns what it dispatched. -/
structure CurrTaskOwned (s : Mp2) : Prop where
  linked : ∀ c, s.mp2CurrTask = some c → c ∈ s.mp2ProcessList
  fifo : ∀ p, (s.attr p).schedPolicy = .schedFifo →
    ∃ c, s.mp2CurrTask = some c ∧ (s.slab c).task = p
  /-- The record a pass reads and demotes has not been freed. -/
  live : ∀ c, s.mp2CurrTask = some c → c ∈ s.live
  /-- A process with real-time priority is registered. -/
  registered : ∀ p, (s.attr p).schedPolicy = .schedFifo →
    ∃ a ∈ s.mp2ProcessList, (s.slab a).task = p

/-- In a well-formed state the last two follow from the first two. -/
theorem CurrTaskOwned.of_linked_fifo (hwf : WellFormed s)
    (hlinked : ∀ c, s.mp2CurrTask = some c → c ∈ s.mp2ProcessList)
    (hfifo : ∀ p, (s.attr p).schedPolicy = .schedFifo →
      ∃ c, s.mp2CurrTask = some c ∧ (s.slab c).task = p) : CurrTaskOwned s where
  linked := hlinked
  fifo := hfifo
  live c hc := hwf.linkedLive c (hlinked c hc)
  registered p hp := by
    obtain ⟨c, hc, htask⟩ := hfifo p hp
    exact ⟨c, hlinked c hc, htask⟩

/-- No de-registration names the pid of the current task. -/
def KeepsCurrTask (x : Transition Mp2 Act) : Prop :=
  ∀ pid ∈ x.act.deregisters, ∀ c ∈ x.pre.mp2CurrTask, (x.pre.slab c).pid ≠ pid

-- Not left to instance search, which may go through all the pids there are.
instance : DecidablePred KeepsCurrTask := fun x => x.act.deregisters.decidableForallMem

theorem currTaskOwned_boot (memory : RecPtr → Mp2TaskStruct) (jiffies : UInt64) :
    CurrTaskOwned (Mp2.boot memory jiffies) := by
  constructor <;> simp [Mp2.boot, normalAttr]

/-! ## One step -/

/-- A step that unlinks nothing, and leaves the current task and the attributes alone, keeps
ownership. -/
theorem CurrTaskOwned.frame (h : CurrTaskOwned s) (hwf : WellFormed s) {act : Act} {t : Mp2}
    (he : Effect msecsToJiffies s act t) (hcurr : t.mp2CurrTask = s.mp2CurrTask)
    (hlist : s.mp2ProcessList ⊆ t.mp2ProcessList) (hattr : t.attr = s.attr) : CurrTaskOwned t := by
  apply CurrTaskOwned.of_linked_fifo (hwf.effect he)
  · intro c hc
    exact hlist (h.linked c (hcurr ▸ hc))
  · intro p hp
    obtain ⟨c, hc, htask⟩ := h.fifo p (hattr ▸ hp)
    exact ⟨c, hcurr ▸ hc, by rw [(he.sameTask hwf (h.linked c hc)).task, htask]⟩

/-- A pass that dispatches hands the priority over: the new current process has it, the old one
lost it. -/
theorem CurrTaskOwned.dispatched (h : CurrTaskOwned s) (hwf : WellFormed s) {t : RecPtr}
    (ht : t ∈ s.mp2ProcessList) : CurrTaskOwned (dispatched t s) := by
  apply CurrTaskOwned.of_linked_fifo (hwf.dispatched ht)
  · intro c hc
    obtain rfl : t = c := by simpa using hc
    simpa using ht
  · intro p hp
    refine ⟨t, by simp, ?_⟩
    rw [dispatched_attr] at hp
    by_contra hne
    rw [if_neg fun heq => hne (by simpa using heq.symm)] at hp
    -- any other process with the priority was the old current one, which has just lost it
    split at hp
    · simp [normalAttr] at hp
    · next hold => exact hold (h.fifo p hp)

/-- **One step keeps ownership exactly when it does not de-register the current task.** -/
theorem currTaskOwned_step_iff {x : Transition Mp2 Act}
    (hx : step msecsToJiffies x.act x.pre = some x.post) (hwf : WellFormed x.pre)
    (h : CurrTaskOwned x.pre) : CurrTaskOwned x.post ↔ KeepsCurrTask x := by
  obtain ⟨s, act, t⟩ := x
  replace hwf : WellFormed s := hwf
  have he : Effect msecsToJiffies s act t := effect_of_step hx
  have htrivial : act.deregisters = none → KeepsCurrTask ⟨s, act, t⟩ := by
    intro hact
    simp [KeepsCurrTask, hact]
  have hframe : t.mp2CurrTask = s.mp2CurrTask → s.mp2ProcessList ⊆ t.mp2ProcessList →
      t.attr = s.attr → CurrTaskOwned t := CurrTaskOwned.frame h hwf he
  have ht : WellFormed t := hwf.effect he
  cases he with
  | insertLink =>
      -- the list grows at its end
      exact iff_of_true (hframe rfl (List.subset_append_left _ _) rfl) (htrivial rfl)
  | @deregisterUnknown writer pid hnone =>
      apply iff_of_true h
      intro p hp c hc
      obtain rfl : pid = p := by simpa [Act.deregisters] using hp
      exact hnone c (h.linked c hc)
  | @deregister writer pid d hd hpid =>
      constructor
      · -- the record freed is the only one of its pid, so it would be the current one
        intro hpost p hp c hc hpidc
        obtain rfl : pid = p := by simpa [Act.deregisters] using hp
        obtain rfl : c = d := hwf.pidInj c (h.linked c hc) d hd (hpidc.trans hpid.symm)
        exact (hwf.nodup.mem_erase_iff.mp (hpost.linked c hc)).1 rfl
      · intro hkeep
        have hne : ∀ c, s.mp2CurrTask = some c → c ≠ d := by
          rintro c hc rfl
          exact hkeep pid rfl c hc hpid
        apply CurrTaskOwned.of_linked_fifo ht _ h.fifo
        intro c hc
        exact hwf.nodup.mem_erase_iff.mpr ⟨hne c hc, h.linked c hc⟩
  | dispatch r hr => exact iff_of_true (h.dispatched hwf hr) (htrivial rfl)
  | reject | admission | insertDuplicate | insertNoMemory | insertNoTask | yieldUnknown
  | yieldOnTime | yieldLate | fire | callbackNone | callback | dispatchStay | tick | scribble
  | recycle =>
      exact iff_of_true (hframe rfl (fun _ => id) rfl) (htrivial rfl)

/-! ## Runs -/

/-- **Along a run the current task stays owned exactly when no de-registration names it.** -/
theorem currTaskOwned_iff (msecsToJiffies : UInt32 → UInt64) (memory : RecPtr → Mp2TaskStruct)
    (jiffies : UInt64) {tr : List (Transition Mp2 Act)} {s : Mp2}
    (h : Exec (step msecsToJiffies) (Mp2.boot memory jiffies) tr s) :
    (∀ x ∈ tr, CurrTaskOwned x.post) ↔ ∀ x ∈ tr, KeepsCurrTask x :=
  h.forall_post_iff (I := WellFormed) (wellFormed_boot memory jiffies)
    (currTaskOwned_boot memory jiffies) (fun _ hx hwf => hwf.step hx)
    (fun _ hx hwf hq => currTaskOwned_step_iff hx hwf hq)

/-- Process 9 preempts process 7, which is then de-registered. -/
def preemptedLeaves : List Act := preemptRunning ++ [.deregister 9 7]

theorem preemptedLeaves_runs :
    (runActions (step (·.toUInt64)) preemptedLeaves quiet).isSome := rfl

theorem currTaskOwned_preemptedLeaves :
    let tr := runOf (step (·.toUInt64)) preemptedLeaves quiet preemptedLeaves_runs
    (∃ x ∈ tr, 0 ∈ x.pre.mp2ProcessList ∧ 0 ∉ x.post.mp2ProcessList ∧
        x.pre.mp2CurrTask = some 1 ∧ x.post.mp2CurrTask = some 1) ∧
      ∀ x ∈ tr, CurrTaskOwned x.post :=
  ⟨by decide,
    (currTaskOwned_iff (·.toUInt64) _ _ (exec_runOf preemptedLeaves_runs)).mpr (by decide)⟩

/-- Once process 7 has been dispatched, it de-registers. -/
def dispatchThenDereg : List Act := firstDispatch ++ [.deregister 7 7]

theorem dispatchThenDereg_runs :
    (runActions (step (·.toUInt64)) dispatchThenDereg quiet).isSome := rfl

/-- The task just dispatched de-registers: `mp2_curr_task` is left pointing at the freed record. -/
theorem currTaskOwned_fails : ¬ ∀ msecsToJiffies memory jiffies tr s,
    Exec (step msecsToJiffies) (Mp2.boot memory jiffies) tr s → CurrTaskOwned s := by
  intro hall
  have howned := hall _ _ _ _ _ (exec_runOf dispatchThenDereg_runs)
  have hcurr : (endOf _ _ _ dispatchThenDereg_runs).mp2CurrTask = some 0 := by decide
  have hlist : 0 ∉ (endOf _ _ _ dispatchThenDereg_runs).mp2ProcessList := by decide
  exact hlist (howned.linked 0 hcurr)

end KernelDev.Rms
