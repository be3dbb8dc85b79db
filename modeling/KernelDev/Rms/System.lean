/-
# KernelDev.Rms.System — the scheduler under any interleaving of its critical sections

One action is one critical section of `mp2_proc_list_lock`, so the two sections of a registration
are two actions and any number of calls may be between them. A timer expiry is two actions: `fire`
takes the timer off the queue and `callback` is the body that runs later under the lock. `tick`
sets `jiffies` to anything, `scribble` lets memory that is not allocated change at any time, so
that nothing proved here depends on what a freed record happens to hold, and `recycle` puts any
freed record at the head of the cache's free list, so that an allocation may return any record that
is not allocated.

`Effect` lists the outcomes of every action, `WellFormed` is the invariant of every run.
-/
import KernelDev.Lib.Execution
import KernelDev.Lib.ObjectCache
import KernelDev.Rms.Effects
import Mathlib.Data.List.Nodup

namespace KernelDev.Rms

open KernelDev.Lib

/-- The actions. `writer` is the process that issued the request. -/
inductive Act
  | admission (c : RegCall)
  | insert (e : Admitted) (alloc : Bool) (found : TaskPtr)
  | yield (writer : TaskPtr) (pid : UInt32)
  | deregister (writer : TaskPtr) (pid : UInt32)
  | fire (a : RecPtr)
  | callback (a : RecPtr)
  | dispatch
  | tick (now : UInt64)
  | scribble (a : RecPtr) (r : Mp2TaskStruct)
  | recycle (a : RecPtr)
  deriving DecidableEq, Repr

/-- A registration leaves the gap between its two sections. -/
def Mp2.takeAdmitted (e : Admitted) (s : Mp2) : Mp2 := { s with admitted := s.admitted.erase e }

section
variable (msecsToJiffies : UInt32 → UInt64)

/-- The step function. A process that is blocked issues no request; a division by zero in the
admission test has no successor. -/
def step : Act → Mp2 → Option Mp2
  | .admission c, s =>
      if s.blocked c.writer then none
      else match mp2AdmissionControl s c.period c.processingTime with
        | none => none
        | some 0 => some { s with admitted := ⟨c, taskSet s⟩ :: s.admitted }
        | some _ => some s
  | .insert e alloc found, s =>
      if e ∈ s.admitted ∧ s.blocked e.call.writer = false then
        some (mp2RegistrationInsert msecsToJiffies e.call alloc found (s.takeAdmitted e)).2
      else none
  | .yield writer pid, s => if s.blocked writer then none else some (mp2Yield writer pid s)
  | .deregister writer pid, s =>
      if s.blocked writer then none else some (mp2Deregistration pid s)
  | .fire a, s =>
      if (s.pendingTimer a).isSome then
        some { s.delTimer a with firedTimers := a :: s.firedTimers }
      else none
  | .callback a, s =>
      if a ∈ s.firedTimers then
        some (mp2TimerCallback msecsToJiffies a { s with firedTimers := s.firedTimers.erase a })
      else none
  | .dispatch, s => some (mp2DispatcherPass s).1
  | .tick now, s => some { s with jiffies := now }
  | .scribble a r, s => if a ∈ s.live then none else some (s.store a r)
  | .recycle a, s =>
      if a < s.nextRec ∧ a ∉ s.live then some { s with recycled := some a } else none

/-! ## The outcomes of an action -/

/-- `Effect s act t`: the outcomes of every action from `s`, one constructor each. -/
inductive Effect (s : Mp2) : Act → Mp2 → Prop
  | reject {c : RegCall} (hrun : s.blocked c.writer = false)
      (hadm : mp2AdmissionControl s c.period c.processingTime ≠ some 0) : Effect s (.admission c) s
  | admission {c : RegCall} (hrun : s.blocked c.writer = false)
      (hadm : mp2AdmissionControl s c.period c.processingTime = some 0) :
      Effect s (.admission c) { s with admitted := ⟨c, taskSet s⟩ :: s.admitted }
  | insertDuplicate {e : Admitted} {alloc : Bool} {found : TaskPtr} (hmem : e ∈ s.admitted)
      (hdup : ∃ i ∈ s.mp2ProcessList, (s.slab i).pid = e.call.pid) :
      Effect s (.insert e alloc found) (s.takeAdmitted e)
  | insertNoMemory {e : Admitted} {found : TaskPtr} (hmem : e ∈ s.admitted)
      (hnew : ∀ i ∈ s.mp2ProcessList, (s.slab i).pid ≠ e.call.pid) :
      Effect s (.insert e false found) (s.takeAdmitted e)
  | insertNoTask {e : Admitted} (hmem : e ∈ s.admitted)
      (hnew : ∀ i ∈ s.mp2ProcessList, (s.slab i).pid ≠ e.call.pid) :
      Effect s (.insert e true 0) (allocated msecsToJiffies e.call 0 (s.takeAdmitted e))
  | insertLink {e : Admitted} {found : TaskPtr} (hmem : e ∈ s.admitted)
      (hrun : s.blocked e.call.writer = false)
      (hnew : ∀ i ∈ s.mp2ProcessList, (s.slab i).pid ≠ e.call.pid) (hfound : found ≠ 0) :
      Effect s (.insert e true found) (linked msecsToJiffies e.call found (s.takeAdmitted e))
  | yieldUnknown {writer : TaskPtr} {pid : UInt32}
      (hnone : ∀ i ∈ s.mp2ProcessList, (s.slab i).pid ≠ pid) : Effect s (.yield writer pid) s
  | yieldOnTime {writer : TaskPtr} {pid : UInt32} (y : RecPtr) (hrun : s.blocked writer = false)
      (hy : y ∈ s.mp2ProcessList) (hpid : (s.slab y).pid = pid)
      (htime : s.jiffies < (s.slab y).deadlineJiff) :
      Effect s (.yield writer pid) (yielded writer y s)
  | yieldLate {writer : TaskPtr} {pid : UInt32} (y : RecPtr)
      (hy : y ∈ s.mp2ProcessList) (hpid : (s.slab y).pid = pid)
      (htime : (s.slab y).deadlineJiff ≤ s.jiffies) :
      Effect s (.yield writer pid) (s.modTimer y s.jiffies)
  | deregisterUnknown {writer : TaskPtr} {pid : UInt32}
      (hnone : ∀ i ∈ s.mp2ProcessList, (s.slab i).pid ≠ pid) : Effect s (.deregister writer pid) s
  | deregister {writer : TaskPtr} {pid : UInt32} (d : RecPtr)
      (hd : d ∈ s.mp2ProcessList) (hpid : (s.slab d).pid = pid) :
      Effect s (.deregister writer pid) (removed d s)
  | fire {a : RecPtr} (hpending : (s.pendingTimer a).isSome) :
      Effect s (.fire a) { s.delTimer a with firedTimers := a :: s.firedTimers }
  | callbackNone {a : RecPtr} (hfired : a ∈ s.firedTimers)
      (hnone : ∀ i ∈ s.mp2ProcessList, (s.slab i).pid ≠ (s.slab a).pid) :
      Effect s (.callback a) { s with firedTimers := s.firedTimers.erase a }
  | callback {a : RecPtr} (d : UInt64) (hfired : a ∈ s.firedTimers)
      (hpid : ∃ i ∈ s.mp2ProcessList, (s.slab i).pid = (s.slab a).pid) :
      Effect s (.callback a) (released a d { s with firedTimers := s.firedTimers.erase a })
  | dispatchStay
      (hmin : ∀ i ∈ s.mp2ProcessList, (s.slab i).state = .ready →
        (dispatchStart s).1 ≤ (s.slab i).period) : Effect s .dispatch s
  | dispatch (h : RecPtr) (hmem : h ∈ s.mp2ProcessList) (hready : (s.slab h).state = .ready)
      (hlt : (s.slab h).period < (dispatchStart s).1)
      (hmin : ∀ i ∈ s.mp2ProcessList, (s.slab i).state = .ready →
        (s.slab h).period ≤ (s.slab i).period)
      (hne : s.mp2CurrTask ≠ some h) : Effect s .dispatch (dispatched h s)
  | tick {now : UInt64} : Effect s (.tick now) { s with jiffies := now }
  | scribble {a : RecPtr} {r : Mp2TaskStruct} (hfree : a ∉ s.live) :
      Effect s (.scribble a r) (s.store a r)
  | recycle {a : RecPtr} (hlt : a < s.nextRec) (hfree : a ∉ s.live) :
      Effect s (.recycle a) { s with recycled := some a }

/-- The second section of `e` links a record. -/
def Links (s : Mp2) (e : Admitted) (alloc : Bool) (found : TaskPtr) : Prop :=
  alloc = true ∧ found ≠ 0 ∧ ∀ i ∈ s.mp2ProcessList, (s.slab i).pid ≠ e.call.pid

instance (s : Mp2) (e : Admitted) (alloc : Bool) (found : TaskPtr) :
    Decidable (Links s e alloc found) :=
  inferInstanceAs (Decidable (_ ∧ _ ∧ ∀ i ∈ s.mp2ProcessList, (s.slab i).pid ≠ e.call.pid))

/-- The pid a de-registration names. -/
def Act.deregisters : Act → Option UInt32
  | .deregister _ pid => some pid
  | _ => none

variable {msecsToJiffies}

/-- Every step has one of the listed outcomes. -/
theorem effect_of_step {act : Act} {s t : Mp2} (h : step msecsToJiffies act s = some t) :
    Effect msecsToJiffies s act t := by
  cases act with
  | admission c =>
      simp only [step] at h
      split at h
      · cases h
      · next hrun =>
          have hrun' : s.blocked c.writer = false := by simpa using hrun
          split at h
          · -- the total period is zero
            cases h
          · next hadm =>
              obtain rfl := Option.some.inj h
              exact .admission hrun' hadm
          · next rv hne hadm =>
              obtain rfl := Option.some.inj h
              apply Effect.reject hrun'
              intro h0
              apply hne
              rw [hadm] at h0
              exact Option.some.inj h0
  | insert e alloc found =>
      simp only [step] at h
      split at h
      · next hguard =>
          obtain rfl := Option.some.inj h
          rcases mp2RegistrationInsert_cases msecsToJiffies e.call alloc found
            (s.takeAdmitted e) with
            ⟨hdup, heq⟩ | ⟨hnew, ⟨rfl, heq⟩ | ⟨rfl, rfl, heq⟩ | ⟨rfl, hfound, heq⟩⟩
          · rw [heq]
            exact .insertDuplicate hguard.1 hdup
          · rw [heq]
            exact .insertNoMemory hguard.1 hnew
          · rw [heq]
            exact .insertNoTask hguard.1 hnew
          · rw [heq]
            exact .insertLink hguard.1 hguard.2 hnew hfound
      · cases h
  | yield writer pid =>
      simp only [step] at h
      split at h
      · cases h
      · next hrun =>
          obtain rfl := Option.some.inj h
          rcases mp2Yield_cases writer pid s with
            ⟨heq, hnone⟩ | ⟨y, hy, hpid, ⟨htime, heq⟩ | ⟨htime, heq⟩⟩
          · rw [heq]
            exact .yieldUnknown hnone
          · rw [heq]
            exact .yieldOnTime y (by simpa using hrun) hy hpid htime
          · rw [heq]
            exact .yieldLate y hy hpid htime
  | deregister writer pid =>
      simp only [step] at h
      split at h
      · cases h
      · obtain rfl := Option.some.inj h
        rcases mp2Deregistration_cases pid s with ⟨heq, hnone⟩ | ⟨d, hd, hpid, heq⟩
        · rw [heq]
          exact .deregisterUnknown hnone
        · rw [heq]
          exact .deregister d hd hpid
  | fire a =>
      simp only [step] at h
      split at h
      · next hpending =>
          obtain rfl := Option.some.inj h
          exact .fire hpending
      · cases h
  | callback a =>
      simp only [step] at h
      split at h
      · next hfired =>
          obtain rfl := Option.some.inj h
          rcases mp2TimerCallback_cases msecsToJiffies a
            { s with firedTimers := s.firedTimers.erase a } with ⟨heq, hnone⟩ | ⟨hpid, d, heq⟩
          · rw [heq]
            exact .callbackNone hfired hnone
          · rw [heq]
            exact .callback d hfired hpid
      · cases h
  | dispatch =>
      obtain rfl := Option.some.inj h
      rcases mp2DispatcherPass_cases s with ⟨heq, hmin⟩ | ⟨h, hmem, hready, hlt, hmin, hne, heq⟩
      · rw [heq]
        exact .dispatchStay hmin
      · rw [heq]
        exact .dispatch h hmem hready hlt hmin hne
  | tick now =>
      obtain rfl := Option.some.inj h
      exact .tick
  | scribble a r =>
      simp only [step] at h
      split at h
      · cases h
      · next hfree =>
          obtain rfl := Option.some.inj h
          exact .scribble hfree
  | recycle a =>
      simp only [step] at h
      split at h
      · next hguard =>
          obtain rfl := Option.some.inj h
          exact .recycle hguard.1 hguard.2
      · cases h

end

/-! ## The invariant of every run -/

/-- The list holds each allocated record at most once and at most one record of a pid; every
reference the module or the timer queue keeps is to a record handed out at some time, and the free
list to one that is not allocated. -/
structure WellFormed (s : Mp2) : Prop where
  nodup : s.mp2ProcessList.Nodup
  linkedLive : ∀ a ∈ s.mp2ProcessList, a ∈ s.live
  liveNodup : s.live.Nodup
  liveLt : ∀ a ∈ s.live, a < s.nextRec
  recycledFree : ∀ a, s.recycled = some a → a ∉ s.live
  pidInj : ∀ a ∈ s.mp2ProcessList, ∀ b ∈ s.mp2ProcessList,
    (s.slab a).pid = (s.slab b).pid → a = b
  currLt : ∀ c, s.mp2CurrTask = some c → c < s.nextRec
  pendingLt : ∀ a, (s.pendingTimer a).isSome → a < s.nextRec
  firedLt : ∀ a ∈ s.firedTimers, a < s.nextRec

theorem wellFormed_boot (memory : RecPtr → Mp2TaskStruct) (jiffies : UInt64) :
    WellFormed (Mp2.boot memory jiffies) := by
  constructor <;> simp [Mp2.boot]

namespace WellFormed

variable {msecsToJiffies : UInt32 → UInt64} {s : Mp2}

theorem cache (h : WellFormed s) : ObjectCache s.live s.nextRec s.recycled :=
  ⟨h.liveLt, h.recycledFree⟩

/-- The next record to be handed out is not allocated. -/
theorem freeRec_not_live (h : WellFormed s) : s.freeRec ∉ s.live := h.cache.getD_notMem

theorem freeRec_not_linked (h : WellFormed s) : s.freeRec ∉ s.mp2ProcessList := fun hmem =>
  h.freeRec_not_live (h.linkedLive _ hmem)

/-- A linked record is not the next one to be handed out. -/
theorem ne_freeRec (h : WellFormed s) {a : RecPtr} (ha : a ∈ s.mp2ProcessList) : a ≠ s.freeRec :=
  fun heq => h.freeRec_not_linked (heq ▸ ha)

/-- Filling in a record that was free leaves a linked one as it is. -/
theorem allocated_slab (h : WellFormed s) {c : RegCall} {found : TaskPtr} {a : RecPtr}
    (ha : a ∈ s.mp2ProcessList) : (allocated msecsToJiffies c found s).slab a = s.slab a :=
  allocated_slab_of_ne (h.ne_freeRec ha)

/-- A linked record is not the one a write to free memory goes to. -/
theorem store_free_slab (h : WellFormed s) {a b : RecPtr} {r : Mp2TaskStruct} (ha : a ∉ s.live)
    (hb : b ∈ s.mp2ProcessList) : (s.store a r).slab b = s.slab b :=
  s.store_slab_other r fun hba => ha (hba ▸ h.linkedLive b hb)

theorem takeAdmitted (h : WellFormed s) (e : Admitted) : WellFormed (s.takeAdmitted e) := { h with }

theorem allocated (h : WellFormed s) (msecsToJiffies : UInt32 → UInt64) (c : RegCall)
    (found : TaskPtr) :
    WellFormed (allocated msecsToJiffies c found s) where
  nodup := h.nodup
  linkedLive a ha := List.mem_cons_of_mem _ (h.linkedLive a ha)
  liveNodup := List.nodup_cons.mpr ⟨h.freeRec_not_live, h.liveNodup⟩
  liveLt := h.cache.alloc.liveLt
  recycledFree := h.cache.alloc.recycledFree
  pidInj a ha b hb := by
    rw [h.allocated_slab ha, h.allocated_slab hb]
    exact h.pidInj a ha b hb
  currLt c hc := Nat.lt_of_lt_of_le (h.currLt c hc) (Nat.le_max_left ..)
  pendingLt a ha := Nat.lt_of_lt_of_le (h.pendingLt a ha) (Nat.le_max_left ..)
  firedLt a ha := Nat.lt_of_lt_of_le (h.firedLt a ha) (Nat.le_max_left ..)

/-- Setting up a timer makes no new reference. -/
theorem timerSetup (h : WellFormed s) (a : RecPtr) : WellFormed (s.timerSetup a) :=
  { h with
    pendingLt := by
      intro b hb
      by_cases hba : b = a
      · simp [Mp2.timerSetup, hba] at hb
      · exact h.pendingLt b (by simpa [Mp2.timerSetup, hba] using hb)
    firedLt := by
      intro b hb
      rcases Mp2.mem_timerSetup_firedTimers.mp hb with hb | ⟨rfl, hqueued⟩
      · exact h.firedLt b hb
      · exact h.pendingLt b hqueued }

theorem linked (h : WellFormed s) {c : RegCall} {found : TaskPtr}
    (hnew : ∀ i ∈ s.mp2ProcessList, (s.slab i).pid ≠ c.pid) :
    WellFormed (linked msecsToJiffies c found s) :=
  { (h.allocated msecsToJiffies c found).timerSetup s.freeRec with
    nodup := by
      refine List.nodup_append.mpr ⟨h.nodup, List.nodup_singleton _, ?_⟩
      rintro a ha b hb rfl
      exact h.ne_freeRec ha (List.mem_singleton.mp hb)
    linkedLive := by
      intro a ha
      rcases List.mem_append.mp ha with ha | ha
      · exact List.mem_cons_of_mem _ (h.linkedLive a ha)
      · rw [List.mem_singleton.mp ha]
        exact List.mem_cons_self
    pidInj := by
      -- the new record has the pid of the call, which no record listed before has
      have hfresh : ((Rms.linked msecsToJiffies c found s).slab s.freeRec).pid = c.pid := by
        rw [linked_slab_freeRec]
        rfl
      have hold : ∀ a ∈ s.mp2ProcessList,
          (Rms.linked msecsToJiffies c found s).slab a = s.slab a := fun a ha =>
        h.allocated_slab ha
      intro a ha b hb hpid
      rcases List.mem_append.mp ha with ha | ha <;> rcases List.mem_append.mp hb with hb | hb
      · rw [hold a ha, hold b hb] at hpid
        exact h.pidInj a ha b hb hpid
      · rw [List.mem_singleton.mp hb, hold a ha, hfresh] at hpid
        exact absurd hpid (hnew a ha)
      · rw [List.mem_singleton.mp ha, hold b hb, hfresh] at hpid
        exact absurd hpid.symm (hnew b hb)
      · rw [List.mem_singleton.mp ha, List.mem_singleton.mp hb] }

theorem modTimer (h : WellFormed s) {a : RecPtr} (ha : a < s.nextRec) (expires : UInt64) :
    WellFormed (s.modTimer a expires) :=
  { h with
    pendingLt := by
      intro b hb
      by_cases hba : b = a
      · rw [hba]
        exact ha
      · exact h.pendingLt b (by simpa [Mp2.modTimer, hba] using hb) }

theorem delTimer (h : WellFormed s) (a : RecPtr) : WellFormed (s.delTimer a) :=
  { h with
    pendingLt := by
      intro b hb
      by_cases hba : b = a
      · simp [Mp2.delTimer, hba] at hb
      · exact h.pendingLt b (by simpa [Mp2.delTimer, hba] using hb) }

theorem yielded (h : WellFormed s) {y : RecPtr} (hy : y ∈ s.mp2ProcessList) (writer : TaskPtr) :
    WellFormed (yielded writer y s) :=
  { h.modTimer (h.liveLt y (h.linkedLive y hy)) (s.slab y).deadlineJiff with
    pidInj := by
      intro a ha b hb hpid
      exact h.pidInj a ha b hb (by simpa [Rms.yielded] using hpid) }

theorem removed (h : WellFormed s) (d : RecPtr) : WellFormed (removed d s) where
  nodup := h.nodup.erase d
  linkedLive a ha := by
    obtain ⟨hne, ha⟩ := h.nodup.mem_erase_iff.mp ha
    exact h.liveNodup.mem_erase_iff.mpr ⟨hne, h.linkedLive a ha⟩
  liveNodup := h.liveNodup.erase d
  liveLt := (h.cache.free d).liveLt
  recycledFree := (h.cache.free d).recycledFree
  pidInj a ha b hb := h.pidInj a (List.mem_of_mem_erase ha) b (List.mem_of_mem_erase hb)
  currLt := h.currLt
  pendingLt a ha := by
    by_cases had : a = d
    · simp [Rms.removed, had] at ha
    · exact h.pendingLt a (by simpa [Rms.removed, had] using ha)
  firedLt := h.firedLt

theorem released (h : WellFormed s) {a : RecPtr} (ha : a < s.nextRec) (d : UInt64) :
    WellFormed (released a d s) :=
  { h.modTimer ha d with
    pidInj := by
      intro b hb c hc hpid
      exact h.pidInj b hb c hc (by simpa using hpid) }

theorem dispatched (h : WellFormed s) {t : RecPtr} (ht : t ∈ s.mp2ProcessList) :
    WellFormed (dispatched t s) where
  nodup := by simpa using h.nodup
  linkedLive := by simpa using h.linkedLive
  liveNodup := by simpa using h.liveNodup
  liveLt := by simpa using h.liveLt
  recycledFree := by simpa using h.recycledFree
  pidInj := by simpa using h.pidInj
  currLt := by
    intro c hc
    obtain rfl : t = c := by simpa using hc
    simpa using h.liveLt t (h.linkedLive t ht)
  pendingLt := by simpa using h.pendingLt
  firedLt := by simpa using h.firedLt

/-- **Every action keeps the invariant.** -/
theorem effect {act : Act} {t : Mp2} (h : WellFormed s) (he : Effect msecsToJiffies s act t) :
    WellFormed t := by
  cases he with
  | reject => exact h
  | admission => exact { h with }
  | insertDuplicate => exact h.takeAdmitted _
  | insertNoMemory => exact h.takeAdmitted _
  | insertNoTask => exact (h.takeAdmitted _).allocated _ _ _
  | insertLink _ _ hnew => exact (h.takeAdmitted _).linked hnew
  | yieldUnknown => exact h
  | yieldOnTime y _ hy => exact h.yielded hy _
  | yieldLate y hy => exact h.modTimer (h.liveLt y (h.linkedLive y hy)) _
  | deregisterUnknown => exact h
  | deregister d => exact h.removed d
  | @fire a hpending =>
      exact { h.delTimer a with
        firedLt := by
          simp only [List.forall_mem_cons]
          exact ⟨h.pendingLt a hpending, h.firedLt⟩ }
  | callbackNone =>
      exact { h with firedLt := fun b hb => h.firedLt b (List.mem_of_mem_erase hb) }
  | @callback a d hfired =>
      have herase : WellFormed { s with firedTimers := s.firedTimers.erase a } :=
        { h with firedLt := fun b hb => h.firedLt b (List.mem_of_mem_erase hb) }
      exact herase.released (h.firedLt a hfired) d
  | dispatchStay => exact h
  | dispatch t ht => exact h.dispatched ht
  | tick => exact { h with }
  | scribble hfree =>
      exact { h with
        pidInj := by
          intro b hb c hc hpid
          rw [h.store_free_slab hfree hb, h.store_free_slab hfree hc] at hpid
          exact h.pidInj b hb c hc hpid }
  | recycle _ hfree =>
      exact { h with recycledFree := (h.cache.recycle hfree).recycledFree }

theorem step {act : Act} {t : Mp2} (h : WellFormed s) (hs : step msecsToJiffies act s = some t) :
    WellFormed t := h.effect (effect_of_step hs)

end WellFormed

/-! ## What a registered record keeps -/

/-- The fields that are written once, when the record is filled in. -/
structure SameTask (r r' : Mp2TaskStruct) : Prop where
  pid : r'.pid = r.pid
  period : r'.period = r.period
  processingTime : r'.processingTime = r.processingTime
  task : r'.task = r.task

theorem SameTask.refl (r : Mp2TaskStruct) : SameTask r r := ⟨rfl, rfl, rfl, rfl⟩

/-- **A linked record keeps its pid, period, processing time and process.** -/
theorem Effect.sameTask {msecsToJiffies : UInt32 → UInt64} {s t : Mp2} {act : Act}
    (he : Effect msecsToJiffies s act t) (hwf : WellFormed s) {a : RecPtr}
    (ha : a ∈ s.mp2ProcessList) : SameTask (s.slab a) (t.slab a) := by
  have hfresh : ∀ (e : Admitted) (found : TaskPtr),
      (allocated msecsToJiffies e.call found (s.takeAdmitted e)).slab a = s.slab a :=
    fun e _ => (hwf.takeAdmitted e).allocated_slab ha
  cases he with
  | insertNoTask =>
      rw [hfresh]
      exact .refl _
  | @insertLink e found =>
      rw [linked_slab, hfresh]
      exact .refl _
  | yieldOnTime y =>
      show SameTask _ ((s.setState y .sleeping).slab a)
      exact ⟨by simp, by simp, by simp, by simp⟩
  | @callback b d =>
      show SameTask _ ((released b d _).slab a)
      rw [released_slab]
      split
      · next heq =>
          rw [heq]
          exact ⟨rfl, rfl, rfl, rfl⟩
      · exact .refl _
  | dispatch h => exact ⟨by simp, by simp, by simp, by simp⟩
  | scribble hfree =>
      rw [hwf.store_free_slab hfree ha]
      exact .refl _
  | reject | admission | insertDuplicate | insertNoMemory | yieldUnknown | yieldLate
  | deregisterUnknown | deregister | fire | callbackNone | dispatchStay | tick | recycle =>
      exact .refl _

/-- A record that becomes linked is the one an insertion was handed out. -/
theorem Effect.linked_cases {msecsToJiffies : UInt32 → UInt64} {s t : Mp2} {act : Act}
    (he : Effect msecsToJiffies s act t) {a : RecPtr} (ha : a ∈ t.mp2ProcessList) :
    a ∈ s.mp2ProcessList ∨ a = s.freeRec ∧ ∃ e found, act = .insert e true found ∧
      e ∈ s.admitted ∧ Links s e true found ∧
      t = linked msecsToJiffies e.call found (s.takeAdmitted e) := by
  cases he with
  | @insertLink e found hmem _ hnew hfound =>
      rcases List.mem_append.mp ha with ha | ha
      · exact .inl ha
      · exact .inr ⟨List.mem_singleton.mp ha, e, found, rfl, hmem, ⟨rfl, hfound, hnew⟩, rfl⟩
  | deregister d => exact .inl (List.mem_of_mem_erase ha)
  | dispatch h => exact .inl (by simpa using ha)
  | reject | admission | insertDuplicate | insertNoMemory | insertNoTask | yieldUnknown
  | yieldOnTime | yieldLate | deregisterUnknown | fire | callbackNone | callback | dispatchStay
  | tick | scribble | recycle => exact .inl ha

/-! ## Runs -/

/-- The state before the module has done anything, over zeroed memory. -/
def quiet : Mp2 := Mp2.boot (fun _ => ⟨0, 0, 0, 0, 0, .sleeping⟩) 0

/-- Process 7 registers with a period of 100 jiffies, process 8 yields for it (process 7 is asleep
since its registration), and at the deadline the timer fires and the dispatcher runs it. -/
def firstDispatch : List Act :=
  [.admission ⟨7, 7, 100, 10⟩, .insert ⟨⟨7, 7, 100, 10⟩, []⟩ true 7, .yield 8 7, .tick 100, .fire 0,
    .callback 0, .dispatch]

theorem firstDispatch_runs : (runActions (step (·.toUInt64)) firstDispatch quiet).isSome := by
  decide

/-- While process 7 runs, process 9 is registered with a period of 50 jiffies and yields. -/
def secondTask : List Act :=
  firstDispatch ++
    [.admission ⟨9, 9, 50, 5⟩, .insert ⟨⟨9, 9, 50, 5⟩, [⟨7, 100, 10⟩]⟩ true 9, .yield 10 9]

theorem secondTask_runs : (runActions (step (·.toUInt64)) secondTask quiet).isSome := rfl

/-- Process 9 is released while process 7 is RUNNING, and preempts it. -/
def preemptRunning : List Act := secondTask ++ [.tick 150, .fire 1, .callback 1, .dispatch]

theorem preemptRunning_runs :
    (runActions (step (·.toUInt64)) preemptRunning quiet).isSome := rfl

end KernelDev.Rms
