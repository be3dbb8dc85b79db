/-
# KernelDev.Rms.SleepWake — can everything the module puts to sleep be woken again?

`mp2_registration` and `mp2_yield` execute `set_current_state(TASK_UNINTERRUPTIBLE)`, which blocks
the process that WROTE the request, while what wakes a process is the timer of a record, by way of
READY and the dispatcher. The pairing law says that every blocked process is the process of a
registered record that has its timer pending or is READY.

Here a timer expiry and its callback are one action (`atomicStep`). `sleepWakePaired_iff` gives, for
every state that satisfies the law and every run from it, the requests that break it: a
registration, whose new record has no timer; a yield for somebody else's record; a de-registration
that takes the timer of a blocked process away.
-/
import KernelDev.Rms.System

namespace KernelDev.Rms

open KernelDev.Lib

variable {msecsToJiffies : UInt32 → UInt64} {s t : Mp2}

/-! ## Timer expiry as one action -/

/-- The step function in which a timer that expires runs its callback at once. -/
def atomicStep (msecsToJiffies : UInt32 → UInt64) : Act → Mp2 → Option Mp2
  | .fire a, s => (step msecsToJiffies (.fire a) s).bind (step msecsToJiffies (.callback a))
  | .callback _, _ => none
  | act, s => step msecsToJiffies act s

/-- The outcomes of an action: an expiry releases its record unless no listed record carries its
pid; every other action is a step. -/
theorem atomicStep_cases {act : Act} (h : atomicStep msecsToJiffies act s = some t) :
    (∃ a, act = .fire a ∧ (s.pendingTimer a).isSome ∧
      ((a ∉ s.mp2ProcessList ∧ t = s.delTimer a) ∨ ∃ d, t = released a d (s.delTimer a))) ∨
    (∀ a, act ≠ .fire a) ∧ (∀ a, act ≠ .callback a) ∧ Effect msecsToJiffies s act t := by
  cases act with
  | fire a =>
      left
      simp only [atomicStep, Option.bind_eq_some_iff] at h
      obtain ⟨m, hfire, hcallback⟩ := h
      cases effect_of_step hfire with
      | fire hpending =>
          refine ⟨a, rfl, hpending, ?_⟩
          cases effect_of_step hcallback with
          | callbackNone _ hnone =>
              refine .inl ⟨fun ha => hnone a ha rfl, ?_⟩
              simp [Mp2.delTimer]
          | callback d =>
              refine .inr ⟨d, ?_⟩
              simp [released, Mp2.delTimer, Mp2.store]
  | callback a => cases h
  | admission c => exact .inr ⟨by simp, by simp, effect_of_step h⟩
  | insert e alloc found => exact .inr ⟨by simp, by simp, effect_of_step h⟩
  | yield writer pid => exact .inr ⟨by simp, by simp, effect_of_step h⟩
  | deregister writer pid => exact .inr ⟨by simp, by simp, effect_of_step h⟩
  | dispatch => exact .inr ⟨by simp, by simp, effect_of_step h⟩
  | tick now => exact .inr ⟨by simp, by simp, effect_of_step h⟩
  | scribble a r => exact .inr ⟨by simp, by simp, effect_of_step h⟩
  | recycle a => exact .inr ⟨by simp, by simp, effect_of_step h⟩

theorem WellFormed.atomicStep {act : Act} (hwf : WellFormed s)
    (h : atomicStep msecsToJiffies act s = some t) : WellFormed t := by
  rcases atomicStep_cases h with ⟨a, _, hpending, ⟨_, rfl⟩ | ⟨d, rfl⟩⟩ | ⟨_, _, he⟩
  · exact hwf.delTimer a
  · exact (hwf.delTimer a).released (hwf.pendingLt a hpending) d
  · exact hwf.effect he

/-! ## The pairing law -/

/-- The record's timer is pending, or the record is READY. -/
def WillWake (s : Mp2) (a : RecPtr) : Prop :=
  (s.pendingTimer a).isSome ∨ (s.slab a).state = .ready

/-- Process `p` is the process of a registered record that will wake it. -/
def Wakeable (s : Mp2) (p : TaskPtr) : Prop :=
  ∃ a ∈ s.mp2ProcessList, (s.slab a).task = p ∧ WillWake s a

/-- Every process the module has blocked can be woken. -/
def SleepWakePaired (s : Mp2) : Prop := ∀ p, s.blocked p = true → Wakeable s p

/-- A registration that links a record comes from a process that can be woken already. -/
def InsertPairs (s : Mp2) (e : Admitted) (alloc : Bool) (found : TaskPtr) : Prop :=
  Links s e alloc found → Wakeable s e.call.writer

/-- A yield on time comes from the process of the record, or from one that can be woken already. -/
def YieldPairs (s : Mp2) (writer : TaskPtr) (pid : UInt32) : Prop :=
  ∀ y ∈ s.mp2ProcessList, (s.slab y).pid = pid → s.jiffies < (s.slab y).deadlineJiff →
    (s.slab y).task = writer ∨ Wakeable s writer

/-- A de-registration leaves the process of the record awake, or with another record. -/
def DeregisterPairs (s : Mp2) (pid : UInt32) : Prop :=
  ∀ d ∈ s.mp2ProcessList, (s.slab d).pid = pid → s.blocked (s.slab d).task = true →
    ∃ a ∈ s.mp2ProcessList, a ≠ d ∧ (s.slab a).task = (s.slab d).task ∧ WillWake s a

/-- The requests that keep the law. -/
def PairsSleep (x : Transition Mp2 Act) : Prop :=
  match x.act with
  | .insert e alloc found => InsertPairs x.pre e alloc found
  | .yield writer pid => YieldPairs x.pre writer pid
  | .deregister _ pid => DeregisterPairs x.pre pid
  | _ => True

instance (s : Mp2) (a : RecPtr) : Decidable (WillWake s a) :=
  inferInstanceAs (Decidable (_ ∨ _))

instance (s : Mp2) (p : TaskPtr) : Decidable (Wakeable s p) :=
  inferInstanceAs (Decidable (∃ a ∈ s.mp2ProcessList, (s.slab a).task = p ∧ WillWake s a))

instance : DecidablePred PairsSleep
  | ⟨s, .insert e alloc found, _⟩ =>
      inferInstanceAs (Decidable (Links s e alloc found → Wakeable s e.call.writer))
  | ⟨s, .yield writer pid, _⟩ =>
      inferInstanceAs (Decidable (∀ y ∈ s.mp2ProcessList, (s.slab y).pid = pid →
        s.jiffies < (s.slab y).deadlineJiff → (s.slab y).task = writer ∨ Wakeable s writer))
  | ⟨s, .deregister _ pid, _⟩ =>
      inferInstanceAs (Decidable (∀ d ∈ s.mp2ProcessList, (s.slab d).pid = pid →
        s.blocked (s.slab d).task = true →
          ∃ a ∈ s.mp2ProcessList, a ≠ d ∧ (s.slab a).task = (s.slab d).task ∧ WillWake s a))
  | ⟨_, .admission _, _⟩ | ⟨_, .fire _, _⟩ | ⟨_, .callback _, _⟩ | ⟨_, .dispatch, _⟩
  | ⟨_, .tick _, _⟩ | ⟨_, .scribble _ _, _⟩ | ⟨_, .recycle _, _⟩ =>
      inferInstanceAs (Decidable True)

theorem sleepWakePaired_boot (memory : RecPtr → Mp2TaskStruct) (jiffies : UInt64) :
    SleepWakePaired (Mp2.boot memory jiffies) := by
  simp [SleepWakePaired, Mp2.boot]

/-! ## One step -/

/-- A step that blocks nobody and keeps every listed record's process and way of waking up keeps
the law. -/
theorem SleepWakePaired.frame (h : SleepWakePaired s) (hblocked : t.blocked = s.blocked)
    (hlist : s.mp2ProcessList ⊆ t.mp2ProcessList)
    (htask : ∀ a ∈ s.mp2ProcessList, (t.slab a).task = (s.slab a).task)
    (hwake : ∀ a ∈ s.mp2ProcessList, WillWake s a → WillWake t a) : SleepWakePaired t := by
  intro p hp
  obtain ⟨a, ha, hap, hwakes⟩ := h p (hblocked ▸ hp)
  exact ⟨a, hlist ha, by rw [htask a ha, hap], hwake a ha hwakes⟩

/-- Pieces of the state that the law does not read may change freely. -/
theorem SleepWakePaired.frame_slab (h : SleepWakePaired s) (hblocked : t.blocked = s.blocked)
    (hlist : t.mp2ProcessList = s.mp2ProcessList)
    (hslab : ∀ a ∈ s.mp2ProcessList, t.slab a = s.slab a)
    (hpending : t.pendingTimer = s.pendingTimer) : SleepWakePaired t := by
  apply h.frame hblocked
  · rw [hlist]
    exact fun _ => id
  · intro a ha
    rw [hslab a ha]
  · intro a ha
    simp [WillWake, hslab a ha, hpending]

/-- The process a pass wakes is the only one whose record may stop waking it. -/
theorem SleepWakePaired.dispatched (h : SleepWakePaired s) (r : RecPtr) :
    SleepWakePaired (dispatched r s) := by
  intro p hp
  have hpr : p ≠ (s.slab r).task := by
    rintro rfl
    simp at hp
  obtain ⟨a, ha, hap, hwakes⟩ := h p (by simpa [hpr] using hp)
  have har : a ≠ r := by
    rintro rfl
    exact hpr hap.symm
  refine ⟨a, by simpa using ha, by simpa using hap, ?_⟩
  rcases hwakes with hpending | hready
  · exact .inl (by simpa using hpending)
  · right
    rw [dispatched_slab]
    simp [har, hready]

/-- An expiry leaves its own record pending again. -/
theorem SleepWakePaired.released (h : SleepWakePaired s) (a : RecPtr) (d : UInt64) :
    SleepWakePaired (released a d (s.delTimer a)) := by
  apply h.frame
  · rfl
  · exact fun _ => id
  · intro b _
    rw [released_slab]
    split
    · next heq => rw [heq]; rfl
    · rfl
  · intro b _ hb
    by_cases hba : b = a
    · exact .inl (by simp [Rms.released, hba])
    · simpa [WillWake, released_slab, hba, Rms.released, Mp2.delTimer] using hb

theorem sleepWakePaired_linked_iff (hwf : WellFormed s) (h : SleepWakePaired s) {c : RegCall}
    {found : TaskPtr} :
    SleepWakePaired (linked msecsToJiffies c found s) ↔ Wakeable s c.writer := by
  -- what the new state says of a record listed before, and of the new one
  have hold : ∀ a ∈ s.mp2ProcessList, (linked msecsToJiffies c found s).slab a = s.slab a :=
    fun a ha => hwf.allocated_slab ha
  have hnew : ¬ WillWake (linked msecsToJiffies c found s) s.freeRec := by
    rintro (hpending | hready)
    · rw [linked_pendingTimer_freeRec] at hpending
      cases hpending
    · rw [linked_slab_freeRec] at hready
      cases hready
  have hiff : ∀ a ∈ s.mp2ProcessList,
      WillWake (linked msecsToJiffies c found s) a ↔ WillWake s a := by
    intro a ha
    unfold WillWake
    rw [hold a ha, linked_pendingTimer_of_ne (hwf.ne_freeRec ha)]
  constructor
  · intro hpost
    obtain ⟨a, ha, hap, hwakes⟩ := hpost c.writer (by simp [linked])
    rcases List.mem_append.mp ha with ha | ha
    · exact ⟨a, ha, by rw [← hold a ha, hap], (hiff a ha).mp hwakes⟩
    · rw [List.mem_singleton.mp ha] at hwakes
      exact absurd hwakes hnew
  · intro hwriter p hp
    have hwakeable : Wakeable s p := by
      by_cases hpw : p = c.writer
      · rw [hpw]
        exact hwriter
      · exact h p (by simpa [linked, hpw] using hp)
    obtain ⟨a, ha, hap, hwakes⟩ := hwakeable
    exact ⟨a, List.mem_append_left _ ha, by rw [hold a ha, hap], (hiff a ha).mpr hwakes⟩

theorem sleepWakePaired_yielded_iff (h : SleepWakePaired s) {y : RecPtr} {writer : TaskPtr}
    (hy : y ∈ s.mp2ProcessList) :
    SleepWakePaired (yielded writer y s) ↔ (s.slab y).task = writer ∨ Wakeable s writer := by
  have htask : ∀ a, ((yielded writer y s).slab a).task = (s.slab a).task := fun a =>
    s.setState_task y a .sleeping
  have hself : WillWake (yielded writer y s) y := .inl (by simp [yielded])
  have hother : ∀ a, a ≠ y → (WillWake (yielded writer y s) a ↔ WillWake s a) := by
    intro a hay
    simp [WillWake, yielded, hay, s.setState_slab_other .sleeping hay]
  constructor
  · intro hpost
    obtain ⟨a, ha, hap, hwakes⟩ := hpost writer (by simp [yielded])
    rw [htask] at hap
    by_cases hay : a = y
    · exact .inl (by rw [← hay, hap])
    · exact .inr ⟨a, ha, hap, (hother a hay).mp hwakes⟩
  · intro hwriter p hp
    have hwakeable : (s.slab y).task = p ∨ Wakeable s p := by
      by_cases hpw : p = writer
      · rw [hpw]
        exact hwriter
      · exact .inr (h p (by simpa [yielded, hpw] using hp))
    rcases hwakeable with hyp | ⟨a, ha, hap, hwakes⟩
    · exact ⟨y, hy, by rw [htask, hyp], hself⟩
    · by_cases hay : a = y
      · exact ⟨y, hy, by rw [htask, ← hay, hap], hself⟩
      · exact ⟨a, ha, by rw [htask, hap], (hother a hay).mpr hwakes⟩

theorem sleepWakePaired_removed_iff (hwf : WellFormed s) (h : SleepWakePaired s) {d : RecPtr} :
    SleepWakePaired (removed d s) ↔ (s.blocked (s.slab d).task = true →
      ∃ a ∈ s.mp2ProcessList, a ≠ d ∧ (s.slab a).task = (s.slab d).task ∧ WillWake s a) := by
  have hother : ∀ a, a ≠ d → (WillWake (removed d s) a ↔ WillWake s a) := by
    intro a had
    simp [WillWake, removed, had]
  constructor
  · intro hpost hblocked
    obtain ⟨a, ha, hap, hwakes⟩ := hpost _ hblocked
    obtain ⟨had, ha⟩ := hwf.nodup.mem_erase_iff.mp ha
    exact ⟨a, ha, had, hap, (hother a had).mp hwakes⟩
  · intro hcond p hp
    have hwakeable : ∃ a ∈ s.mp2ProcessList, a ≠ d ∧ (s.slab a).task = p ∧ WillWake s a := by
      obtain ⟨a, ha, hap, hwakes⟩ := h p hp
      by_cases had : a = d
      · rw [had] at hap
        rw [← hap]
        exact hcond (by rw [hap]; exact hp)
      · exact ⟨a, ha, had, hap, hwakes⟩
    obtain ⟨a, ha, had, hap, hwakes⟩ := hwakeable
    exact ⟨a, hwf.nodup.mem_erase_iff.mpr ⟨had, ha⟩, hap, (hother a had).mpr hwakes⟩

/-- **One step keeps the law exactly when it is none of the requests that break it.** -/
theorem sleepWakePaired_step_iff {x : Transition Mp2 Act}
    (hx : atomicStep msecsToJiffies x.act x.pre = some x.post) (hwf : WellFormed x.pre)
    (h : SleepWakePaired x.pre) : SleepWakePaired x.post ↔ PairsSleep x := by
  obtain ⟨s, act, t⟩ := x
  replace hwf : WellFormed s := hwf
  replace h : SleepWakePaired s := h
  rcases atomicStep_cases hx with ⟨a, hact, _, hexpire⟩ | ⟨hfire, hcallback, he⟩
  · obtain rfl : act = .fire a := hact
    apply iff_of_true _ trivial
    show SleepWakePaired t
    rcases hexpire with ⟨hunlisted, ht⟩ | ⟨d, ht⟩
    · -- the timer that is gone was of no listed record
      obtain rfl : t = s.delTimer a := ht
      refine h.frame rfl (fun _ => id) (fun _ _ => rfl) fun b hb hwakes => ?_
      have hba : b ≠ a := fun heq => hunlisted (heq ▸ hb)
      simpa [WillWake, Mp2.delTimer, hba] using hwakes
    · obtain rfl : t = released a d (s.delTimer a) := ht
      exact h.released a d
  · replace he : Effect msecsToJiffies s act t := he
    cases he with
    | insertDuplicate _ hdup =>
        apply iff_of_true (h.frame_slab rfl rfl (fun _ _ => rfl) rfl)
        show Links s _ _ _ → _
        intro hlinks
        obtain ⟨i, hi, hpid⟩ := hdup
        exact absurd hpid (hlinks.2.2 i hi)
    | insertNoMemory =>
        exact iff_of_true (h.frame_slab rfl rfl (fun _ _ => rfl) rfl) (fun hl => by cases hl.1)
    | @insertNoTask e =>
        -- what was allocated is not listed
        have hslab : ∀ a ∈ s.mp2ProcessList,
            (allocated msecsToJiffies e.call 0 (s.takeAdmitted e)).slab a = s.slab a :=
          fun a ha => (hwf.takeAdmitted e).allocated_slab ha
        exact iff_of_true (h.frame_slab rfl rfl hslab rfl) (fun hl => absurd rfl hl.2.1)
    | @insertLink e found _ _ hnew hfound =>
        rw [sleepWakePaired_linked_iff (hwf.takeAdmitted e) h]
        exact ⟨fun hw _ => hw, fun hc => hc ⟨rfl, hfound, hnew⟩⟩
    | yieldUnknown hnone =>
        exact iff_of_true h fun y hy hpid => absurd hpid (hnone y hy)
    | yieldOnTime y _ hy hpid htime =>
        rw [sleepWakePaired_yielded_iff h hy]
        -- `y` is the only listed record of its pid
        refine ⟨fun hw z hz hzpid _ => ?_, fun hc => hc y hy hpid htime⟩
        rw [hwf.pidInj z hz y hy (hzpid.trans hpid.symm)]
        exact hw
    | yieldLate y hy hpid htime =>
        apply iff_of_true
        · -- a late yield queues the timer for the next tick
          refine h.frame rfl (fun _ => id) (fun _ _ => rfl) fun b _ hwakes => ?_
          by_cases hby : b = y
          · exact .inl (by simp [Mp2.modTimer, hby])
          · simpa [WillWake, Mp2.modTimer, hby] using hwakes
        · intro z hz hzpid hztime
          rw [hwf.pidInj z hz y hy (hzpid.trans hpid.symm)] at hztime
          exact absurd hztime (UInt64.not_lt.mpr htime)
    | deregisterUnknown hnone => exact iff_of_true h fun d hd hpid => absurd hpid (hnone d hd)
    | deregister d hd hpid =>
        rw [sleepWakePaired_removed_iff hwf h]
        refine ⟨fun hw e he hepid => ?_, fun hc => hc d hd hpid⟩
        rw [hwf.pidInj e he d hd (hepid.trans hpid.symm)]
        exact hw
    | @fire a => exact absurd rfl (hfire a)
    | @callbackNone a => exact absurd rfl (hcallback a)
    | @callback a => exact absurd rfl (hcallback a)
    | dispatch r => exact iff_of_true (h.dispatched r) trivial
    | scribble hfree =>
        exact iff_of_true (h.frame_slab rfl rfl (fun b hb => hwf.store_free_slab hfree hb) rfl)
          trivial
    | reject | admission | dispatchStay | tick | recycle =>
        exact iff_of_true (h.frame_slab rfl rfl (fun _ _ => rfl) rfl) trivial

/-! ## Runs -/

/-- **From any state that satisfies the law, such as the one after `mp2_init`, a run keeps it
exactly when every registration, yield and de-registration of the run does.** -/
theorem sleepWakePaired_iff (msecsToJiffies : UInt32 → UInt64) {s₀ : Mp2} (hwf : WellFormed s₀)
    (h₀ : SleepWakePaired s₀) {tr : List (Transition Mp2 Act)} {s : Mp2}
    (h : Exec (atomicStep msecsToJiffies) s₀ tr s) :
    (∀ x ∈ tr, SleepWakePaired x.post) ↔ ∀ x ∈ tr, PairsSleep x :=
  h.forall_post_iff (I := WellFormed) hwf h₀ (fun _ hx hwf => hwf.atomicStep hx)
    (fun _ hx hwf hq => sleepWakePaired_step_iff hx hwf hq)

/-- Process 7 is registered, dispatched and awake. -/
def taskRunning : Mp2 :=
  { Mp2.boot (fun _ => ⟨7, 100, 10, 200, 7, .running⟩) 100 with
    live := [0]
    nextRec := 1
    mp2ProcessList := [0]
    mp2CurrTask := some 0
    pendingTimer := fun a => if a = 0 then some 200 else none
    attr := fun t => if t = 7 then fifoAttr else normalAttr }

theorem taskRunning_wellFormed : WellFormed taskRunning := by
  constructor <;> simp [taskRunning, Mp2.boot]

theorem taskRunning_paired : SleepWakePaired taskRunning := by
  simp [SleepWakePaired, taskRunning, Mp2.boot]

/-- Process 7 yields for itself and is released at its deadline. -/
def yieldAndRelease : List Act := [.yield 7 7, .tick 200, .fire 0, .dispatch]

theorem yieldAndRelease_runs :
    (runActions (atomicStep (·.toUInt64)) yieldAndRelease taskRunning).isSome := rfl

theorem sleepWakePaired_yieldAndRelease :
    (∃ x ∈ runOf _ _ _ yieldAndRelease_runs, x.post.blocked 7 = true) ∧
      ∀ x ∈ runOf (atomicStep (·.toUInt64)) yieldAndRelease taskRunning yieldAndRelease_runs,
        SleepWakePaired x.post :=
  ⟨by decide, (sleepWakePaired_iff (·.toUInt64) taskRunning_wellFormed taskRunning_paired
    (exec_runOf yieldAndRelease_runs)).mpr (by decide)⟩

/-- Process 7 registers itself. -/
def registerOnly : List Act := [.admission ⟨7, 7, 100, 10⟩, .insert ⟨⟨7, 7, 100, 10⟩, []⟩ true 7]

theorem registerOnly_runs :
    (runActions (atomicStep (·.toUInt64)) registerOnly quiet).isSome := rfl

/-- A process that registers itself is blocked with no timer armed. -/
theorem sleepWakePaired_fails : ¬ ∀ msecsToJiffies memory jiffies tr s,
    Exec (atomicStep msecsToJiffies) (Mp2.boot memory jiffies) tr s → SleepWakePaired s := by
  intro hall
  have hpaired := hall _ _ _ _ _ (exec_runOf registerOnly_runs)
  have hblocked : (endOf _ _ _ registerOnly_runs).blocked 7 = true := by decide
  have hstuck : ¬ Wakeable (endOf _ _ _ registerOnly_runs) 7 := by decide
  exact hstuck (hpaired 7 hblocked)

end KernelDev.Rms
