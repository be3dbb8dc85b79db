/-
# KernelDev.Rms.Releases — a timer releases its task once a period and never early

The wakeup timer of a record is queued from three places: a yield before the deadline queues it for
the deadline, a yield after it queues it for now, and the callback moves the deadline on by one
period and queues it for that. A yield may also run between the expiry of the timer and the callback
that waits for the lock.

Whatever the order, `deadline_jiff` counts the callbacks since the registration (`OnSchedule`): it
is the registration time plus one period more than there have been callbacks, and no timer of the
record is queued for a time before it. So a callback under way has reached its deadline, and there
cannot be more callbacks than whole periods since the registration.

All of it rests on how the schedule starts. A de-registration does not wait for a callback under
way, and the cache may hand its record out to the next registration: the callback then releases a
task it was not fired for. `releases_onSchedule_iff` says that this is the only way a task leaves
its schedule.
-/
import KernelDev.Rms.PidMap
import Mathlib.Algebra.Group.Nat.Defs

namespace KernelDev.Rms

open KernelDev.Lib

variable {msecsToJiffies : UInt32 → UInt64} {s t : Mp2} {a : RecPtr} {reg n : Nat}

/-- The period of record `a` in jiffies, as `msecs_to_jiffies` converts it. -/
def periodJiffies (msecsToJiffies : UInt32 → UInt64) (s : Mp2) (a : RecPtr) : Nat :=
  (msecsToJiffies (s.slab a).period.toUInt32).toNat

/-- The record whose timer expires. -/
def Act.fires : Act → Option RecPtr
  | .fire a => some a
  | _ => none

/-- The clock runs forward and no time within a period of it wraps; a timer fires no earlier than
its expiry and not while a callback of the same timer is under way. -/
structure Timely (msecsToJiffies : UInt32 → UInt64) (x : Transition Mp2 Act) : Prop where
  forward : x.pre.jiffies ≤ x.post.jiffies
  noWrap : ∀ a ∈ x.post.mp2ProcessList,
    x.post.jiffies.toNat + periodJiffies msecsToJiffies x.post a < 2 ^ 64
  notEarly : ∀ a ∈ x.act.fires, ∀ e ∈ x.pre.pendingTimer a, e ≤ x.pre.jiffies
  serialized : ∀ a ∈ x.act.fires, a ∉ x.pre.firedTimers

theorem timely_iff {x : Transition Mp2 Act} : Timely msecsToJiffies x ↔
    x.pre.jiffies ≤ x.post.jiffies ∧
      (∀ a ∈ x.post.mp2ProcessList,
        x.post.jiffies.toNat + periodJiffies msecsToJiffies x.post a < 2 ^ 64) ∧
      (∀ a ∈ x.act.fires, (∀ e ∈ x.pre.pendingTimer a, e ≤ x.pre.jiffies) ∧
        a ∉ x.pre.firedTimers) :=
  ⟨fun h => ⟨h.forward, h.noWrap, fun a ha => ⟨h.notEarly a ha, h.serialized a ha⟩⟩,
    fun ⟨h, h', h''⟩ => ⟨h, h', fun a ha => (h'' a ha).1, fun a ha => (h'' a ha).2⟩⟩

instance : DecidablePred (Timely msecsToJiffies) := fun x =>
  have (a : RecPtr) : Decidable (∀ e ∈ x.pre.pendingTimer a, e ≤ x.pre.jiffies) :=
    (x.pre.pendingTimer a).decidableForallMem
  have : Decidable (∀ a ∈ x.act.fires, (∀ e ∈ x.pre.pendingTimer a, e ≤ x.pre.jiffies) ∧
      a ∉ x.pre.firedTimers) := x.act.fires.decidableForallMem
  decidable_of_iff _ timely_iff.symm

/-- The number of callbacks of record `a`. -/
def callbacks (a : RecPtr) (tr : List (Transition Mp2 Act)) : Nat :=
  tr.countP fun x => x.act = .callback a

theorem callbacks_concat (a : RecPtr) (tr : List (Transition Mp2 Act)) (x : Transition Mp2 Act) :
    callbacks a (tr ++ [x]) = callbacks a tr + if x.act = .callback a then 1 else 0 := by
  simp [callbacks, List.countP_cons]

/-- Record `a`, registered at `reg`, has had `n` callbacks. -/
structure OnSchedule (msecsToJiffies : UInt32 → UInt64) (a : RecPtr) (reg n : Nat) (s : Mp2) :
    Prop where
  deadline : (s.slab a).deadlineJiff.toNat = reg + (n + 1) * periodJiffies msecsToJiffies s a
  pending : ∀ e, s.pendingTimer a = some e → (s.slab a).deadlineJiff ≤ e
  /-- A callback under way was not fired before the deadline. -/
  fired : a ∈ s.firedTimers → (s.slab a).deadlineJiff ≤ s.jiffies
  single : s.firedTimers.count a ≤ 1
  past : reg + n * periodJiffies msecsToJiffies s a ≤ s.jiffies.toNat

/-! ## One step -/

/-- **What a callback does in a run**: it advances its own record by one period, when the pid it
reads is listed. -/
theorem callback_eq (hwf : WellFormed s) (h : step msecsToJiffies (.callback a) s = some t) :
    a ∈ s.firedTimers ∧ t =
      if ∃ i ∈ s.mp2ProcessList, (s.slab i).pid = (s.slab a).pid then
        released a ((s.slab a).deadlineJiff + msecsToJiffies (s.slab a).period.toUInt32)
          { s with firedTimers := s.firedTimers.erase a }
      else { s with firedTimers := s.firedTimers.erase a } := by
  simp only [step] at h
  split at h
  · next hfired =>
      obtain rfl := Option.some.inj h
      exact ⟨hfired, mp2TimerCallback_eq hwf.pids_nodup⟩
  · cases h

namespace OnSchedule

/-- The schedule of a record reads its deadline, its period, its timer and the clock. -/
theorem frame (h : OnSchedule msecsToJiffies a reg n s)
    (hdeadline : (t.slab a).deadlineJiff = (s.slab a).deadlineJiff)
    (hperiod : (t.slab a).period = (s.slab a).period)
    (hpending : t.pendingTimer a = s.pendingTimer a)
    (hfired : t.firedTimers.count a = s.firedTimers.count a) (hclock : s.jiffies ≤ t.jiffies) :
    OnSchedule msecsToJiffies a reg n t := by
  have hjiffies : periodJiffies msecsToJiffies t a = periodJiffies msecsToJiffies s a := by
    rw [periodJiffies, periodJiffies, hperiod]
  constructor
  · rw [hdeadline, hjiffies]
    exact h.deadline
  · rw [hpending, hdeadline]
    exact h.pending
  · rw [hdeadline, ← List.count_pos_iff, hfired, List.count_pos_iff]
    exact fun ha => UInt64.le_trans (h.fired ha) hclock
  · rw [hfired]
    exact h.single
  · rw [hjiffies]
    exact Nat.le_trans h.past hclock

/-- Queueing the timer for a time not before the deadline. -/
theorem modTimer (h : OnSchedule msecsToJiffies a reg n s) {e : UInt64}
    (he : (s.slab a).deadlineJiff ≤ e) : OnSchedule msecsToJiffies a reg n (s.modTimer a e) :=
  { h with
    pending := by
      intro e' he'
      obtain rfl : e = e' := by simpa [Mp2.modTimer] using he'
      exact he }

/-- The timer expires: the deadline has been reached, since the timer was not queued for before. -/
theorem fire (h : OnSchedule msecsToJiffies a reg n s) (hpending : (s.pendingTimer a).isSome)
    (hearly : ∀ e ∈ s.pendingTimer a, e ≤ s.jiffies) (hidle : a ∉ s.firedTimers) :
    OnSchedule msecsToJiffies a reg n { s.delTimer a with firedTimers := a :: s.firedTimers } where
  deadline := h.deadline
  pending e he := by simp [Mp2.delTimer] at he
  fired _ := by
    obtain ⟨e, he⟩ := Option.isSome_iff_exists.mp hpending
    exact UInt64.le_trans (h.pending e he) (hearly e he)
  single := by
    refine Nat.le_of_eq ?_
    rw [List.count_cons_self, List.count_eq_zero.mpr hidle]
  past := h.past

/-- The callback runs: one release and one period more. -/
theorem release (h : OnSchedule msecsToJiffies a reg n s) (hfired : a ∈ s.firedTimers)
    (hwrap : s.jiffies.toNat + periodJiffies msecsToJiffies s a < 2 ^ 64) :
    OnSchedule msecsToJiffies a reg (n + 1)
      (released a ((s.slab a).deadlineJiff + msecsToJiffies (s.slab a).period.toUInt32)
        { s with firedTimers := s.firedTimers.erase a }) := by
  have hdue : (s.slab a).deadlineJiff.toNat ≤ s.jiffies.toNat := h.fired hfired
  have hadd : ((s.slab a).deadlineJiff + msecsToJiffies (s.slab a).period.toUInt32).toNat =
      (s.slab a).deadlineJiff.toNat + periodJiffies msecsToJiffies s a := by
    rw [UInt64.toNat_add, periodJiffies]
    apply Nat.mod_eq_of_lt
    unfold periodJiffies at hwrap
    omega
  have hnext : reg + (n + 1) * periodJiffies msecsToJiffies s a +
      periodJiffies msecsToJiffies s a = reg + (n + 1 + 1) * periodJiffies msecsToJiffies s a := by
    rw [Nat.add_mul (n + 1) 1, Nat.one_mul, Nat.add_assoc]
  have hcount : (s.firedTimers.erase a).count a = 0 := by
    have hone := h.single
    rw [List.count_erase_self]
    omega
  constructor
  · simp only [periodJiffies, released_slab, if_pos]
    rw [hadd, h.deadline]
    exact hnext
  · intro e he
    obtain rfl : _ = e := by simpa [released] using he
    rw [released_slab, if_pos rfl]
    exact UInt64.le_refl _
  · -- no callback of this timer is left
    intro hmem
    exact absurd hmem (List.count_eq_zero.mp hcount)
  · show (s.firedTimers.erase a).count a ≤ 1
    omega
  · simp only [periodJiffies, released_slab, if_pos]
    show reg + (n + 1) * periodJiffies msecsToJiffies s a ≤ s.jiffies.toNat
    rw [← h.deadline]
    exact hdue

end OnSchedule

/-- The callback of record `a` itself. -/
theorem onSchedule_callback (hwf : WellFormed s) (ha : a ∈ s.mp2ProcessList)
    (hx : step msecsToJiffies (.callback a) s = some t)
    (htimely : Timely msecsToJiffies ⟨s, .callback a, t⟩)
    (h : OnSchedule msecsToJiffies a reg n s) : OnSchedule msecsToJiffies a reg (n + 1) t := by
  obtain ⟨hfired, rfl⟩ := callback_eq hwf hx
  have hmatch : ∃ i ∈ s.mp2ProcessList, (s.slab i).pid = (s.slab a).pid := ⟨a, ha, rfl⟩
  simp only [if_pos hmatch] at htimely ⊢
  apply h.release hfired
  -- the record and the clock are what they were before the callback
  have hwrap := htimely.noWrap a ha
  simp only [periodJiffies, released_slab, if_pos] at hwrap
  exact hwrap

/-- Every other step, as long as the record stays linked. -/
theorem onSchedule_other {act : Act} (he : Effect msecsToJiffies s act t) (hwf : WellFormed s)
    (htimely : Timely msecsToJiffies ⟨s, act, t⟩) (hact : act ≠ .callback a)
    (ha : a ∈ s.mp2ProcessList) (ha' : a ∈ t.mp2ProcessList)
    (h : OnSchedule msecsToJiffies a reg n s) : OnSchedule msecsToJiffies a reg n t := by
  have hclock : s.jiffies ≤ t.jiffies := htimely.forward
  have hperiod : (t.slab a).period = (s.slab a).period := (he.sameTask hwf ha).period
  have hfresh : ∀ (e : Admitted) (found : TaskPtr),
      (allocated msecsToJiffies e.call found (s.takeAdmitted e)).slab a = s.slab a :=
    fun e _ => (hwf.takeAdmitted e).allocated_slab ha
  cases he with
  | @insertNoTask e => exact h.frame (by rw [hfresh]) (by rw [hfresh]) rfl rfl hclock
  | @insertLink e found =>
      have hslab : (linked msecsToJiffies e.call found (s.takeAdmitted e)).slab a = s.slab a :=
        hfresh e found
      have hne : a ≠ (s.takeAdmitted e).freeRec := (hwf.takeAdmitted e).ne_freeRec ha
      exact h.frame (by rw [hslab]) (by rw [hslab]) (linked_pendingTimer_of_ne hne)
        (Mp2.timerSetup_count_of_ne hne) hclock
  | yieldOnTime y =>
      by_cases hay : a = y
      · subst hay
        have hmod := h.modTimer (UInt64.le_refl _)
        exact { hmod.frame (t := yielded _ a s) (by simp [yielded, Mp2.modTimer])
          (by simp [yielded, Mp2.modTimer]) rfl rfl hclock with }
      · refine h.frame ?_ hperiod ?_ rfl hclock
        · simp [yielded]
        · simp [yielded, hay]
  | yieldLate y _ _ htime =>
      by_cases hay : a = y
      · subst hay
        exact h.modTimer htime
      · refine h.frame rfl rfl ?_ rfl hclock
        simp [Mp2.modTimer, hay]
  | deregister d =>
      have had : a ≠ d := (hwf.nodup.mem_erase_iff.mp ha').1
      refine h.frame rfl rfl ?_ rfl hclock
      simp [removed, had]
  | @fire b hpending =>
      by_cases hab : a = b
      · subst hab
        exact h.fire hpending (htimely.notEarly a rfl) (htimely.serialized a rfl)
      · refine h.frame rfl rfl ?_ ?_ hclock
        · simp [Mp2.delTimer, hab]
        · exact List.count_cons_of_ne (Ne.symm hab)
  | @callbackNone b =>
      have hab : a ≠ b := fun hab => hact (hab ▸ rfl)
      exact h.frame rfl rfl rfl (List.count_erase_of_ne hab) hclock
  | @callback b d =>
      have hab : a ≠ b := fun hab => hact (hab ▸ rfl)
      refine h.frame ?_ hperiod ?_ (List.count_erase_of_ne hab) hclock
      · rw [released_slab, if_neg hab]
      · simp [released, hab]
  | dispatch r =>
      refine h.frame ?_ hperiod ?_ ?_ hclock
      · rw [dispatched_slab]
      · rw [dispatched_pendingTimer]
      · rw [dispatched_firedTimers]
  | @scribble b r hfree =>
      have hslab : (s.store b r).slab a = s.slab a := hwf.store_free_slab hfree ha
      exact h.frame (by rw [hslab]) (by rw [hslab]) rfl rfl hclock
  | reject | admission | insertDuplicate | insertNoMemory | yieldUnknown | deregisterUnknown
  | dispatchStay | tick | recycle => exact h.frame rfl rfl rfl rfl hclock

/-- **One timely step keeps a registered task on its schedule.** -/
theorem onSchedule_step {x : Transition Mp2 Act}
    (hx : step msecsToJiffies x.act x.pre = some x.post) (htimely : Timely msecsToJiffies x)
    (hwf : WellFormed x.pre) (ha : a ∈ x.pre.mp2ProcessList) (ha' : a ∈ x.post.mp2ProcessList)
    (h : OnSchedule msecsToJiffies a reg n x.pre) :
    OnSchedule msecsToJiffies a reg (n + if x.act = .callback a then 1 else 0) x.post := by
  by_cases hact : x.act = .callback a
  · rw [if_pos hact]
    obtain ⟨s, act, t⟩ := x
    obtain rfl : act = .callback a := hact
    exact onSchedule_callback hwf ha hx htimely h
  · rw [if_neg hact]
    exact onSchedule_other (effect_of_step hx) hwf htimely hact ha ha' h

/-! ## The registration -/

/-- No timer of record `a` is left of a time before: none is queued, and no callback is under
way. -/
def TimerIdle (s : Mp2) (a : RecPtr) : Prop := s.pendingTimer a = none ∧ a ∉ s.firedTimers

instance (s : Mp2) (a : RecPtr) : Decidable (TimerIdle s a) := inferInstanceAs (Decidable (_ ∧ _))

/-- What a transition that links record `a` does. -/
theorem registered_cases {x : Transition Mp2 Act}
    (hx : step msecsToJiffies x.act x.pre = some x.post) (ha : a ∉ x.pre.mp2ProcessList)
    (ha' : a ∈ x.post.mp2ProcessList) :
    ∃ (e : Admitted) (found : TaskPtr), a = x.pre.freeRec ∧
      x.post = linked msecsToJiffies e.call found (x.pre.takeAdmitted e) := by
  rcases (effect_of_step hx).linked_cases ha' with hold | ⟨heq, e, found, -, -, -, hpost⟩
  · exact absurd hold ha
  · exact ⟨e, found, heq, hpost⟩

/-- A registration takes no time. -/
theorem registered_jiffies {x : Transition Mp2 Act}
    (hx : step msecsToJiffies x.act x.pre = some x.post) (ha : a ∉ x.pre.mp2ProcessList)
    (ha' : a ∈ x.post.mp2ProcessList) : x.post.jiffies = x.pre.jiffies := by
  obtain ⟨e, found, -, hpost⟩ := registered_cases hx ha ha'
  rw [hpost]
  rfl

/-- A callback is under way after the registration exactly when the record was not idle. -/
theorem fired_registered_iff {x : Transition Mp2 Act}
    (hx : step msecsToJiffies x.act x.pre = some x.post) (ha : a ∉ x.pre.mp2ProcessList)
    (ha' : a ∈ x.post.mp2ProcessList) : a ∈ x.post.firedTimers ↔ ¬ TimerIdle x.pre a := by
  obtain ⟨e, found, rfl, hpost⟩ := registered_cases hx ha ha'
  have hfired : x.pre.freeRec ∈ x.post.firedTimers ↔ x.pre.freeRec ∈ x.pre.firedTimers ∨
      x.pre.freeRec = x.pre.freeRec ∧ (x.pre.pendingTimer x.pre.freeRec).isSome := by
    rw [hpost]
    exact Mp2.mem_timerSetup_firedTimers
  rw [hfired, TimerIdle, Option.isSome_iff_ne_none]
  tauto

/-- A registration that is handed an idle record starts the schedule. -/
theorem onSchedule_registered {x : Transition Mp2 Act}
    (hx : step msecsToJiffies x.act x.pre = some x.post) (htimely : Timely msecsToJiffies x)
    (ha : a ∉ x.pre.mp2ProcessList) (ha' : a ∈ x.post.mp2ProcessList)
    (hidle : TimerIdle x.pre a) :
    OnSchedule msecsToJiffies a x.pre.jiffies.toNat 0 x.post := by
  have hwrap := htimely.noWrap a ha'
  have hnone : a ∉ x.post.firedTimers := fun hmem =>
    (fired_registered_iff hx ha ha').mp hmem hidle
  have hclock : x.post.jiffies = x.pre.jiffies := registered_jiffies hx ha ha'
  obtain ⟨e, found, rfl, hpost⟩ := registered_cases hx ha ha'
  have hrec : x.post.slab x.pre.freeRec =
      newRecord msecsToJiffies e.call found (x.pre.takeAdmitted e) := by
    rw [hpost]
    exact linked_slab_freeRec ..
  have hpend : x.post.pendingTimer x.pre.freeRec = none := by
    rw [hpost]
    exact linked_pendingTimer_freeRec ..
  have hperiod : periodJiffies msecsToJiffies x.post x.pre.freeRec =
      (msecsToJiffies e.call.period.toUInt32).toNat := by
    rw [periodJiffies, hrec]
    rfl
  rw [hperiod, hclock] at hwrap
  constructor
  · rw [hperiod, hrec]
    show (x.pre.jiffies + msecsToJiffies e.call.period.toUInt32).toNat = x.pre.jiffies.toNat + _
    rw [UInt64.toNat_add, Nat.mod_eq_of_lt hwrap, Nat.zero_add, Nat.one_mul]
  · intro e' he'
    rw [hpend] at he'
    cases he'
  · exact fun hmem => absurd hmem hnone
  · rw [List.count_eq_zero.mpr hnone]
    exact Nat.zero_le 1
  · rw [hclock]
    omega

/-! ## Runs -/

/-- The task registered at time `reg` as record `a` has kept to its schedule through `tr`, which
leads to `s`: its deadline is one period more after its registration than there have been callbacks,
no timer of it is queued for before that, and there have been no more callbacks than whole
periods. -/
structure OnTime (msecsToJiffies : UInt32 → UInt64) (a : RecPtr) (reg : Nat)
    (tr : List (Transition Mp2 Act)) (s : Mp2) : Prop where
  deadline : (s.slab a).deadlineJiff.toNat =
    reg + (callbacks a tr + 1) * periodJiffies msecsToJiffies s a
  notEarly : ∀ e, s.pendingTimer a = some e → (s.slab a).deadlineJiff ≤ e
  bounded : callbacks a tr ≤ (s.jiffies.toNat - reg) / periodJiffies msecsToJiffies s a

theorem OnSchedule.onTime {tr : List (Transition Mp2 Act)}
    (h : OnSchedule msecsToJiffies a reg (callbacks a tr) s)
    (hpos : 0 < periodJiffies msecsToJiffies s a) : OnTime msecsToJiffies a reg tr s where
  deadline := h.deadline
  notEarly := h.pending
  bounded := by
    rw [Nat.le_div_iff_mul_le hpos]
    have hpast := h.past
    omega

/-- A task that starts on schedule keeps to it as long as it stays registered. -/
theorem onTime_of_onSchedule {s₀ s : Mp2} {tr : List (Transition Mp2 Act)}
    (h : Exec (step msecsToJiffies) s₀ tr s) (hwf : WellFormed s₀) (ha : a ∈ s₀.mp2ProcessList)
    (hstart : OnSchedule msecsToJiffies a reg 0 s₀) (hpos : 0 < periodJiffies msecsToJiffies s₀ a)
    (htimely : ∀ y ∈ tr, Timely msecsToJiffies y) (hlinked : ∀ y ∈ tr, a ∈ y.post.mp2ProcessList) :
    OnTime msecsToJiffies a reg tr s := by
  have hrun := h.traced (C := fun y => Timely msecsToJiffies y ∧ a ∈ y.post.mp2ProcessList)
    (I := fun tr s => WellFormed s ∧ a ∈ s.mp2ProcessList ∧
      0 < periodJiffies msecsToJiffies s a ∧ OnSchedule msecsToJiffies a reg (callbacks a tr) s)
    ⟨hwf, ha, hpos, hstart⟩
    (fun tr y hy ⟨htime, ha'⟩ ⟨hwfy, ha, hpos, hon⟩ => by
      have hperiod := ((effect_of_step hy).sameTask hwfy ha).period
      refine ⟨hwfy.step hy, ha', ?_, ?_⟩
      · rw [periodJiffies, hperiod]
        exact hpos
      · rw [callbacks_concat]
        exact onSchedule_step hy htime hwfy ha ha' hon)
    fun y hy => ⟨htimely y hy, hlinked y hy⟩
  exact hrun.2.2.2.onTime hrun.2.2.1

/-- **A callback left over from an earlier use of the record releases the new task at once**, at the
very time of its registration. -/
theorem not_onTime_of_fired {s₀ : Mp2} (hwf : WellFormed s₀) (ha : a ∈ s₀.mp2ProcessList)
    (hfired : a ∈ s₀.firedTimers)
    (hwrap : ∀ b ∈ s₀.mp2ProcessList,
      s₀.jiffies.toNat + periodJiffies msecsToJiffies s₀ b < 2 ^ 64) :
    ∃ t, step msecsToJiffies (.callback a) s₀ = some t ∧
      Timely msecsToJiffies ⟨s₀, .callback a, t⟩ ∧ a ∈ t.mp2ProcessList ∧
      ¬ OnTime msecsToJiffies a s₀.jiffies.toNat [⟨s₀, .callback a, t⟩] t := by
  obtain ⟨t, ht⟩ : ∃ t, step msecsToJiffies (.callback a) s₀ = some t := by
    simp only [step, if_pos hfired]
    exact ⟨_, rfl⟩
  have he := effect_of_step ht
  obtain ⟨-, hpost⟩ := callback_eq hwf ht
  rw [if_pos ⟨a, ha, rfl⟩] at hpost
  have hclock : t.jiffies = s₀.jiffies := by rw [hpost]; rfl
  have hlist : t.mp2ProcessList = s₀.mp2ProcessList := by rw [hpost]; rfl
  have hperiod : ∀ b ∈ s₀.mp2ProcessList,
      periodJiffies msecsToJiffies t b = periodJiffies msecsToJiffies s₀ b := fun b hb => by
    rw [periodJiffies, (he.sameTask hwf hb).period, periodJiffies]
  refine ⟨t, ht, ⟨?_, ?_, ?_, ?_⟩, hlist ▸ ha, fun hon => ?_⟩
  · exact UInt64.le_of_eq hclock.symm
  · intro b hb
    replace hb : b ∈ s₀.mp2ProcessList := hlist ▸ hb
    rw [hperiod b hb, hclock]
    exact hwrap b hb
  · intro b hb
    cases hb
  · intro b hb
    cases hb
  · -- one callback, and no time has passed
    have hbounded := hon.bounded
    rw [hclock, Nat.sub_self, Nat.zero_div] at hbounded
    simp [callbacks] at hbounded

/-- **Releases are never early and never too many exactly when the record handed out is idle.** In a
run whose clock does not wrap and whose timers fire on time and one at a time, the transition `x`
registers a task as record `a`. However the run goes on, the task keeps to its schedule as long as
it stays registered, exactly when no timer of an earlier use of the record is left at that time. -/
theorem releases_onSchedule_iff (msecsToJiffies : UInt32 → UInt64) (memory : RecPtr → Mp2TaskStruct)
    (jiffies : UInt64) {before : List (Transition Mp2 Act)} {x : Transition Mp2 Act}
    (h : Exec (step msecsToJiffies) (Mp2.boot memory jiffies) (before ++ [x]) x.post)
    (htimely : ∀ y ∈ before ++ [x], Timely msecsToJiffies y) {a : RecPtr}
    (hnew : a ∉ x.pre.mp2ProcessList) (hreg : a ∈ x.post.mp2ProcessList)
    (hpos : 0 < periodJiffies msecsToJiffies x.post a) :
    (∀ after s, Exec (step msecsToJiffies) x.post after s →
      (∀ y ∈ after, Timely msecsToJiffies y) → (∀ y ∈ after, a ∈ y.post.mp2ProcessList) →
        OnTime msecsToJiffies a x.pre.jiffies.toNat after s) ↔ TimerIdle x.pre a := by
  have hx := h.isStep x (by simp)
  have htime := htimely x (by simp)
  have hwf : WellFormed x.post :=
    (h.invariant (wellFormed_boot memory jiffies) fun _ hy hI => hI.step hy).2
  constructor
  · intro hall
    by_contra hbusy
    obtain ⟨t, ht, htimely', hlinked, hnot⟩ := not_onTime_of_fired hwf hreg
      ((fired_registered_iff hx hnew hreg).mpr hbusy) htime.noWrap
    apply hnot
    rw [registered_jiffies hx hnew hreg]
    exact hall _ t (Exec.single ht) (by simpa using htimely') (by simpa using hlinked)
  · intro hidle after s hafter htimely' hlinked
    exact onTime_of_onSchedule hafter hwf hreg (onSchedule_registered hx htime hnew hreg hidle) hpos
      htimely' hlinked

/-- Process 7 de-registers with its timer queued and registers again, in the same record. -/
def registerAgain : List Act :=
  firstDispatch ++ [.deregister 9 7, .recycle 0, .admission ⟨9, 7, 100, 10⟩,
    .insert ⟨⟨9, 7, 100, 10⟩, []⟩ true 7]

theorem registerAgain_runs : (runActions (step (·.toUInt64)) registerAgain quiet).isSome := rfl

/-- It yields, and its timer fires at its deadline. -/
def nextPeriod : List Act := [.yield 10 7, .tick 200, .fire 0, .callback 0]

theorem nextPeriod_runs : (runActions (step (·.toUInt64)) nextPeriod
    (endOf (step (·.toUInt64)) registerAgain quiet registerAgain_runs)).isSome := rfl

theorem releases_onSchedule_registerAgain :
    callbacks 0 (runOf _ _ _ nextPeriod_runs) = 1 ∧
      OnTime (·.toUInt64) 0 100 (runOf (step (·.toUInt64)) nextPeriod
        (endOf (step (·.toUInt64)) registerAgain quiet registerAgain_runs) nextPeriod_runs)
        (endOf _ _ _ nextPeriod_runs) := by
  -- the last transition is the second registration
  let x := (runOf (step (·.toUInt64)) registerAgain quiet registerAgain_runs).get ⟨10, by decide⟩
  have hrun : Exec (step (·.toUInt64)) quiet
      ((runOf (step (·.toUInt64)) registerAgain quiet registerAgain_runs).take 10 ++ [x]) x.post :=
    exec_runOf registerAgain_runs
  have hiff := releases_onSchedule_iff (·.toUInt64) _ _ hrun (by decide) (a := 0) (by decide)
    (by decide) (by decide)
  exact ⟨by decide, hiff.mpr (by decide) _ _ (exec_runOf nextPeriod_runs) (by decide) (by decide)⟩

/-- The timer of process 7 fires at its deadline, and before the callback takes the lock the process
de-registers and registers again, in the same record. -/
def registerInWindow : List Act :=
  [.admission ⟨7, 7, 100, 10⟩, .insert ⟨⟨7, 7, 100, 10⟩, []⟩ true 7, .yield 8 7, .tick 100, .fire 0,
    .deregister 9 7, .recycle 0, .admission ⟨9, 7, 100, 10⟩,
    .insert ⟨⟨9, 7, 100, 10⟩, []⟩ true 7]

theorem registerInWindow_runs :
    (runActions (step (·.toUInt64)) registerInWindow quiet).isSome := rfl

theorem staleCallback_runs : (runActions (step (·.toUInt64)) [.callback 0]
    (endOf (step (·.toUInt64)) registerInWindow quiet registerInWindow_runs)).isSome := rfl

/-- The callback of the old task then releases the new one at the time it is registered. -/
theorem releases_onSchedule_fails : ¬ ∀ msecsToJiffies memory jiffies before x after s a,
    Exec (step msecsToJiffies) (Mp2.boot memory jiffies) (before ++ [x]) x.post →
      (∀ y ∈ before ++ [x], Timely msecsToJiffies y) → a ∉ x.pre.mp2ProcessList →
      a ∈ x.post.mp2ProcessList → 0 < periodJiffies msecsToJiffies x.post a →
      Exec (step msecsToJiffies) x.post after s → (∀ y ∈ after, Timely msecsToJiffies y) →
      (∀ y ∈ after, a ∈ y.post.mp2ProcessList) →
        OnTime msecsToJiffies a x.pre.jiffies.toNat after s := by
  intro hall
  have hontime := hall (·.toUInt64) _ _
    ((runOf (step (·.toUInt64)) registerInWindow quiet registerInWindow_runs).take 8)
    ((runOf (step (·.toUInt64)) registerInWindow quiet registerInWindow_runs).get ⟨8, by decide⟩)
    _ _ 0 (exec_runOf registerInWindow_runs) (by decide) (by decide) (by decide) (by decide)
    (exec_runOf staleCallback_runs) (by decide) (by decide)
  exact absurd hontime.bounded (by decide)

end KernelDev.Rms
