/-
# KernelDev.Rms.Dispatches — how often a run dispatches

A pass dispatches a READY task only if its period lies below that of `mp2_curr_task`, and nothing
but a pass ever writes `mp2_curr_task`: not the yield of the current task and not its
de-registration. So along a run the period of the current task only falls. Each dispatch is of a
shorter period than all dispatches before it (`dispatches_descend`), no record is dispatched
twice, and a process that goes to sleep when its records have been dispatched is not woken again
(`asleep_for_good`). Memory that is handed out again is a new record.

The period of a current record that has been freed is whatever its memory holds, so a run is taken
in which that memory is neither written to nor handed out again.
-/
import KernelDev.Rms.StrictRelease

namespace KernelDev.Rms

open KernelDev.Lib

variable {msecsToJiffies : UInt32 → UInt64} {s t : Mp2} {act : Act}

/-! ## The dispatches of a run -/

/-- The record a step dispatches, and its period: the one that becomes `mp2_curr_task`. -/
def dispatchedBy (x : Transition Mp2 Act) : Option (RecPtr × UInt64) :=
  if x.post.mp2CurrTask = x.pre.mp2CurrTask then none
  else x.post.mp2CurrTask.map fun h => (h, (x.pre.slab h).period)

/-- The record a step is handed out by the allocator. -/
def handedOut (x : Transition Mp2 Act) : Option RecPtr :=
  if x.pre.freeRec ∈ x.post.live ∧ x.pre.freeRec ∉ x.pre.live then some x.pre.freeRec else none

/-- The record whose memory is written to from outside the module. -/
def Act.scribbles : Act → Option RecPtr
  | .scribble a _ => some a
  | .admission _ | .insert _ _ _ | .yield _ _ | .deregister _ _ | .fire _ | .callback _ | .dispatch
  | .tick _ | .recycle _ => none

/-- The memory of the current record, which may have been freed, is neither written to from outside
nor handed out again. -/
def SparesCurrTask (x : Transition Mp2 Act) : Prop :=
  (∀ a ∈ x.act.scribbles, x.pre.mp2CurrTask ≠ some a) ∧
    ∀ a ∈ handedOut x, x.pre.mp2CurrTask ≠ some a

-- Not left to instance search, which may go through all the addresses there are.
instance : DecidablePred SparesCurrTask := fun x =>
  have := x.act.scribbles.decidableForallMem (p := fun a => x.pre.mp2CurrTask ≠ some a)
  have := (handedOut x).decidableForallMem (p := fun a => x.pre.mp2CurrTask ≠ some a)
  inferInstanceAs (Decidable (_ ∧ _))

/-! ## One step -/

/-- **What a step that dispatches does**, and that no other step changes `mp2_curr_task`. -/
theorem dispatchedBy_cases {x : Transition Mp2 Act}
    (hx : step msecsToJiffies x.act x.pre = some x.post) :
    (dispatchedBy x = none ∧ x.post.mp2CurrTask = x.pre.mp2CurrTask) ∨
    ∃ h ∈ x.pre.mp2ProcessList, (x.pre.slab h).period < (dispatchStart x.pre).1 ∧
      x.post = dispatched h x.pre ∧ dispatchedBy x = some (h, (x.pre.slab h).period) := by
  obtain ⟨s, act, t⟩ := x
  have he : Effect msecsToJiffies s act t := effect_of_step hx
  have hstay : t.mp2CurrTask = s.mp2CurrTask → dispatchedBy ⟨s, act, t⟩ = none := fun h => if_pos h
  cases he with
  | dispatch h hmem _ hlt _ hne =>
      refine .inr ⟨h, hmem, hlt, rfl, ?_⟩
      rw [dispatchedBy, if_neg fun heq => hne heq.symm]
      rfl
  | reject | admission | insertDuplicate | insertNoMemory | insertNoTask | insertLink | yieldUnknown
  | yieldOnTime | yieldLate | deregisterUnknown | deregister | fire | callbackNone | callback
  | dispatchStay | tick | scribble | recycle => exact .inl ⟨hstay rfl, rfl⟩

/-- A step after which the next free record is allocated has been handed it out. -/
theorem handedOut_eq (hwf : WellFormed s) (hlive : s.freeRec ∈ t.live) :
    handedOut ⟨s, act, t⟩ = some s.freeRec :=
  if_pos ⟨hlive, hwf.freeRec_not_live⟩

/-- The memory of a record keeps its period, but for writes from outside and a new use. -/
theorem Effect.period_eq (he : Effect msecsToJiffies s act t) (hwf : WellFormed s) {a : RecPtr}
    (hspare : act.scribbles ≠ some a) (hout : handedOut ⟨s, act, t⟩ ≠ some a) :
    (t.slab a).period = (s.slab a).period := by
  have hfresh : ∀ (e : Admitted) (found : TaskPtr), s.freeRec ∈ t.live →
      ((allocated msecsToJiffies e.call found (s.takeAdmitted e)).slab a).period =
        (s.slab a).period := fun e found hlive => by
    have hne : a ≠ (s.takeAdmitted e).freeRec := fun heq =>
      hout (by rw [handedOut_eq hwf hlive, heq]; rfl)
    rw [allocated_slab_of_ne hne]
    rfl
  cases he with
  | insertNoTask => exact hfresh _ _ List.mem_cons_self
  | insertLink => exact hfresh _ _ List.mem_cons_self
  | yieldOnTime y =>
      show ((s.setState y .sleeping).slab a).period = _
      simp
  | @callback b d =>
      show ((released b d _).slab a).period = _
      rw [released_slab]
      split
      · next heq => rw [heq]
      · rfl
  | dispatch h => simp
  | @scribble b r hfree =>
      have hne : a ≠ b := fun hab => hspare (by rw [hab]; rfl)
      rw [s.store_slab_other r hne]
  | reject | admission | insertDuplicate | insertNoMemory | yieldUnknown | yieldLate
  | deregisterUnknown | deregister | fire | callbackNone | dispatchStay | tick | recycle => rfl

/-- Only the dispatch of one of its records wakes a process. -/
theorem asleep_step {x : Transition Mp2 Act}
    (hx : step msecsToJiffies x.act x.pre = some x.post) {p : TaskPtr}
    (hp : x.pre.blocked p = true)
    (hother : ∀ d ∈ dispatchedBy x, (x.pre.slab d.1).task ≠ p) : x.post.blocked p = true := by
  have hblock : ∀ writer : TaskPtr, Function.update x.pre.blocked writer true p = true := by
    intro writer
    rw [Function.update_apply]
    split
    · rfl
    · exact hp
  rcases dispatchedBy_cases hx with ⟨-, hcurr⟩ | ⟨h, -, -, hpost, hsome⟩
  · obtain ⟨s, act, t⟩ := x
    have he : Effect msecsToJiffies s act t := effect_of_step hx
    cases he with
    | insertLink | yieldOnTime => exact hblock _
    | dispatch h _ _ _ _ hne => exact absurd hcurr.symm hne
    | reject | admission | insertDuplicate | insertNoMemory | insertNoTask | yieldUnknown
    | yieldLate | deregisterUnknown | deregister | fire | callbackNone | callback | dispatchStay
    | tick | scribble | recycle => exact hp
  · have hne : (x.pre.slab h).task ≠ p := hother _ hsome
    rw [hpost, dispatched_blocked, Function.update_of_ne hne.symm]
    exact hp

/-! ## The invariant -/

/-- The dispatches of a run, in order. -/
def dispatches (tr : List (Transition Mp2 Act)) : List (RecPtr × UInt64) :=
  tr.filterMap dispatchedBy

theorem dispatches_concat (tr : List (Transition Mp2 Act)) (x : Transition Mp2 Act) :
    dispatches (tr ++ [x]) = dispatches tr ++ (dispatchedBy x).toList := by
  cases hx : dispatchedBy x <;> simp [dispatches, hx]

/-- The records dispatched in their present use: handing a record out starts a new one. -/
def dispatchedNow (tr : List (Transition Mp2 Act)) : List RecPtr :=
  tr.foldl (fun as x => (as.filter fun a => handedOut x ≠ some a) ++
    ((dispatchedBy x).map Prod.fst).toList) []

theorem dispatchedNow_concat (tr : List (Transition Mp2 Act)) (x : Transition Mp2 Act) :
    dispatchedNow (tr ++ [x]) = ((dispatchedNow tr).filter fun a => handedOut x ≠ some a) ++
      ((dispatchedBy x).map Prod.fst).toList := by
  rw [dispatchedNow, List.foldl_append]
  rfl

theorem mem_dispatchedNow_concat {tr : List (Transition Mp2 Act)} {x : Transition Mp2 Act}
    {a : RecPtr} : a ∈ dispatchedNow (tr ++ [x]) ↔
      a ∈ dispatchedNow tr ∧ handedOut x ≠ some a ∨ ∃ d ∈ dispatchedBy x, d.1 = a := by
  rw [dispatchedNow_concat]
  simp

/-- The invariant: the periods dispatched fall, and the current record's is at most the last of
them, and at most that of any listed record that was dispatched. -/
structure Descending (tr : List (Transition Mp2 Act)) (s : Mp2) : Prop where
  wellFormed : WellFormed s
  falling : (dispatches tr).Pairwise fun d e => e.2 < d.2
  curr : ∀ d ∈ dispatches tr, ∃ c, s.mp2CurrTask = some c ∧ (s.slab c).period ≤ d.2
  listed : ∀ a ∈ dispatchedNow tr, a ∈ s.mp2ProcessList →
    ∃ c, s.mp2CurrTask = some c ∧ (s.slab c).period ≤ (s.slab a).period

theorem descending_boot (memory : RecPtr → Mp2TaskStruct) (jiffies : UInt64) :
    Descending [] (Mp2.boot memory jiffies) := by
  constructor <;> simp [dispatches, dispatchedNow, wellFormed_boot]

namespace Descending

variable {tr : List (Transition Mp2 Act)} {x : Transition Mp2 Act}

/-- A record dispatched in its present use has a period no pass goes below again. -/
theorem not_dispatched (h : Descending tr x.pre)
    (hx : step msecsToJiffies x.act x.pre = some x.post) :
    ∀ d ∈ dispatchedBy x, d.1 ∉ dispatchedNow tr := by
  intro d hd hnow
  rcases dispatchedBy_cases hx with ⟨hno, -⟩ | ⟨r, hmem, hlt, -, hsome⟩
  · rw [hno] at hd
    cases hd
  · obtain rfl : (r, (x.pre.slab r).period) = d := Option.some.inj (hsome.symm.trans hd)
    obtain ⟨c, hc, hle⟩ := h.listed r hnow hmem
    rw [dispatchStart_fst_some hc] at hlt
    exact absurd hlt (UInt64.not_lt.mpr hle)

/-- A step that dispatches nothing. -/
theorem stay (h : Descending tr x.pre) (hx : step msecsToJiffies x.act x.pre = some x.post)
    (hspare : SparesCurrTask x) (hnone : dispatchedBy x = none)
    (hcurr : x.post.mp2CurrTask = x.pre.mp2CurrTask) : Descending (tr ++ [x]) x.post := by
  have he : Effect msecsToJiffies x.pre x.act x.post := effect_of_step hx
  have hsame : dispatches (tr ++ [x]) = dispatches tr := by
    rw [dispatches_concat, hnone, Option.toList_none, List.append_nil]
  have hperiod : ∀ c, x.pre.mp2CurrTask = some c →
      (x.post.slab c).period = (x.pre.slab c).period := fun c hc =>
    he.period_eq h.wellFormed (fun hact => hspare.1 c hact hc) fun hout => hspare.2 c hout hc
  constructor
  · exact h.wellFormed.step hx
  · exact hsame ▸ h.falling
  · rw [hsame, hcurr]
    intro d hd
    obtain ⟨c, hc, hle⟩ := h.curr d hd
    exact ⟨c, hc, by rwa [hperiod c hc]⟩
  · intro a ha hlisted
    rcases mem_dispatchedNow_concat.mp ha with ⟨ha, hkept⟩ | ⟨d, hd, -⟩
    · rcases he.linked_cases hlisted with hold | ⟨rfl, e, found, -, -, -, hpost⟩
      · obtain ⟨c, hc, hle⟩ := h.listed a ha hold
        refine ⟨c, hcurr.trans hc, ?_⟩
        rwa [hperiod c hc, (he.sameTask h.wellFormed hold).period]
      · -- a record that has just been linked has just been handed out
        refine absurd (handedOut_eq h.wellFormed ?_) hkept
        rw [hpost]
        exact List.mem_cons_self
    · rw [hnone] at hd
      cases hd

/-- A step that dispatches `r`. -/
theorem dispatch (h : Descending tr x.pre) (hx : step msecsToJiffies x.act x.pre = some x.post)
    {r : RecPtr} (hlt : (x.pre.slab r).period < (dispatchStart x.pre).1)
    (hpost : x.post = dispatched r x.pre)
    (hsome : dispatchedBy x = some (r, (x.pre.slab r).period)) :
    Descending (tr ++ [x]) x.post := by
  have hall : dispatches (tr ++ [x]) = dispatches tr ++ [(r, (x.pre.slab r).period)] := by
    rw [dispatches_concat, hsome, Option.toList_some]
  -- the scan started from the current period, which is at most every period dispatched before
  have hbelow : ∀ d ∈ dispatches tr, (x.pre.slab r).period < d.2 := by
    intro d hd
    obtain ⟨c, hc, hle⟩ := h.curr d hd
    rw [dispatchStart_fst_some hc] at hlt
    exact UInt64.lt_of_lt_of_le hlt hle
  constructor
  · exact h.wellFormed.step hx
  · rw [hall, List.pairwise_append]
    refine ⟨h.falling, List.pairwise_singleton _ _, fun d hd e he => ?_⟩
    rw [List.mem_singleton.mp he]
    exact hbelow d hd
  · rw [hall, hpost]
    intro d hd
    refine ⟨r, rfl, ?_⟩
    rw [dispatched_period]
    rcases List.mem_append.mp hd with hd | hd
    · exact UInt64.le_of_lt (hbelow d hd)
    · rw [List.mem_singleton.mp hd]
      exact UInt64.le_refl _
  · intro a ha hlisted
    refine ⟨r, by rw [hpost]; rfl, ?_⟩
    rw [hpost, dispatched_mp2ProcessList] at hlisted
    rw [hpost, dispatched_period, dispatched_period]
    rcases mem_dispatchedNow_concat.mp ha with ⟨ha, -⟩ | ⟨d, hd, rfl⟩
    · obtain ⟨c, hc, hle⟩ := h.listed a ha hlisted
      rw [dispatchStart_fst_some hc] at hlt
      exact UInt64.le_of_lt (UInt64.lt_of_lt_of_le hlt hle)
    · obtain rfl : (r, (x.pre.slab r).period) = d := Option.some.inj (hsome.symm.trans hd)
      exact UInt64.le_refl _

/-- **Every step that spares the current record keeps the invariant.** -/
theorem step (h : Descending tr x.pre)
    (hx : Rms.step msecsToJiffies x.act x.pre = some x.post) (hspare : SparesCurrTask x) :
    Descending (tr ++ [x]) x.post := by
  rcases dispatchedBy_cases hx with ⟨hnone, hcurr⟩ | ⟨r, -, hlt, hpost, hsome⟩
  · exact h.stay hx hspare hnone hcurr
  · exact h.dispatch hx hlt hpost hsome

end Descending

/-! ## Runs -/

theorem descending_run {memory : RecPtr → Mp2TaskStruct} {jiffies : UInt64}
    {tr : List (Transition Mp2 Act)}
    (h : Exec (step msecsToJiffies) (Mp2.boot memory jiffies) tr s)
    (hspare : ∀ x ∈ tr, SparesCurrTask x) : Descending tr s :=
  h.traced (C := SparesCurrTask) (descending_boot memory jiffies)
    (fun _ _ hx hspare hI => hI.step hx hspare) hspare

/-- No record is dispatched that has been since it was handed out. -/
def DispatchedOnce (tr : List (Transition Mp2 Act)) : Prop :=
  AtEach (fun before x => ∀ d ∈ dispatchedBy x, d.1 ∉ dispatchedNow before) tr

/-- No memory is handed out again once it was that of a dispatched record. -/
def NoneReused (tr : List (Transition Mp2 Act)) : Prop :=
  AtEach (fun before x => ∀ a ∈ handedOut x, a ∉ (dispatches before).map Prod.fst) tr

/-- Where no memory is used twice, the records dispatched have distinct addresses. -/
theorem DispatchedOnce.nodup {tr : List (Transition Mp2 Act)} (h : DispatchedOnce tr)
    (hfresh : NoneReused tr) : ((dispatches tr).map Prod.fst).Nodup := by
  suffices hsuff : dispatchedNow tr = (dispatches tr).map Prod.fst ∧
      ((dispatches tr).map Prod.fst).Nodup from hsuff.2
  induction tr using List.reverseRecOn with
  | nil => exact ⟨rfl, List.nodup_nil⟩
  | append_singleton tr x ih =>
      obtain ⟨hbefore, hlast⟩ := atEach_concat.mp h
      obtain ⟨hfresh, hout⟩ := atEach_concat.mp hfresh
      obtain ⟨hnow, hnodup⟩ := ih hbefore hfresh
      have hall : (dispatches (tr ++ [x])).map Prod.fst =
          (dispatches tr).map Prod.fst ++ ((dispatchedBy x).map Prod.fst).toList := by
        rw [dispatches_concat, List.map_append]
        cases dispatchedBy x <;> rfl
      have hkept : (dispatchedNow tr).filter (fun a => handedOut x ≠ some a) =
          dispatchedNow tr := by
        apply List.filter_eq_self.mpr
        intro a ha
        have hne : handedOut x ≠ some a := fun heq => hout a heq (hnow ▸ ha)
        simpa using hne
      refine ⟨by rw [dispatchedNow_concat, hkept, hnow, hall], ?_⟩
      rw [hall]
      cases hd : dispatchedBy x with
      | none => simpa using hnodup
      | some d =>
          have hnew : d.1 ∉ (dispatches tr).map Prod.fst := hnow ▸ hlast d hd
          refine List.nodup_append.mpr ⟨hnodup, List.nodup_singleton _, fun a ha b hb heq => ?_⟩
          rw [List.mem_singleton.mp hb] at heq
          exact hnew (heq ▸ ha)

/-- **Along a run each dispatch is of a strictly shorter period than all dispatches before it, and
no record is dispatched twice.** -/
theorem dispatches_descend (msecsToJiffies : UInt32 → UInt64) (memory : RecPtr → Mp2TaskStruct)
    (jiffies : UInt64) {tr : List (Transition Mp2 Act)} {s : Mp2}
    (h : Exec (step msecsToJiffies) (Mp2.boot memory jiffies) tr s)
    (hspare : ∀ x ∈ tr, SparesCurrTask x) :
    (dispatches tr).Pairwise (fun d e => e.2 < d.2) ∧ DispatchedOnce tr ∧
      (NoneReused tr → ((dispatches tr).map Prod.fst).Nodup) := by
  have honce : DispatchedOnce tr := by
    intro before x after hcut
    subst hcut
    obtain ⟨hbefore, hx, -⟩ := h.split
    exact (descending_run hbefore fun y hy => hspare y (by simp [hy])).not_dispatched hx
  exact ⟨(descending_run h hspare).falling, honce, honce.nodup⟩

/-- Process 9, the current task, and process 7 leave, and process 11 is registered with a period of
20 jiffies in the record that was process 7's, and dispatched. -/
def dispatchRecycled : List Act :=
  preemptRunning ++ [.deregister 12 9, .deregister 12 7, .recycle 0, .admission ⟨11, 11, 20, 2⟩,
    .insert ⟨⟨11, 11, 20, 2⟩, []⟩ true 11, .yield 12 11, .tick 170, .fire 0, .callback 0, .dispatch]

theorem dispatchRecycled_runs :
    (runActions (step (·.toUInt64)) dispatchRecycled quiet).isSome := rfl

theorem dispatches_descend_dispatchRecycled :
    let tr := runOf (step (·.toUInt64)) dispatchRecycled quiet dispatchRecycled_runs
    dispatches tr = [(0, 100), (1, 50), (0, 20)] ∧
      (dispatches tr).Pairwise (fun d e => e.2 < d.2) ∧ DispatchedOnce tr :=
  have hall := dispatches_descend (·.toUInt64) _ _ (exec_runOf dispatchRecycled_runs) (by decide)
  ⟨by decide, hall.1, hall.2.1⟩

/-- The process has no registered record that was not dispatched in `tr`. -/
def NoneLeft (tr : List (Transition Mp2 Act)) (p : TaskPtr) (s : Mp2) : Prop :=
  ∀ a ∈ s.mp2ProcessList, (s.slab a).task = p → a ∈ dispatchedNow tr

instance (tr : List (Transition Mp2 Act)) (p : TaskPtr) : DecidablePred (NoneLeft tr p) := fun s =>
  inferInstanceAs (Decidable (∀ a ∈ s.mp2ProcessList, _ → a ∈ dispatchedNow tr))

/-- A step before which the process has been dispatched for all its records leaves it asleep. -/
theorem Descending.asleep_step {tr : List (Transition Mp2 Act)} {x : Transition Mp2 Act}
    {p : TaskPtr} (h : Descending tr x.pre)
    (hx : Rms.step msecsToJiffies x.act x.pre = some x.post) (hp : x.pre.blocked p = true)
    (hnone : NoneLeft tr p x.pre) : x.post.blocked p = true := by
  apply Rms.asleep_step hx hp
  intro d hd htask
  have hlisted : d.1 ∈ x.pre.mp2ProcessList := by
    rcases dispatchedBy_cases hx with ⟨hno, -⟩ | ⟨r, hmem, -, -, hsome⟩
    · rw [hno] at hd
      cases hd
    · obtain rfl : (r, (x.pre.slab r).period) = d := Option.some.inj (hsome.symm.trans hd)
      exact hmem
  -- the record was dispatched before, and now once more
  exact h.not_dispatched hx d hd (hnone d.1 hlisted htask)

/-- **A process that is asleep, and at no later time has a registered record that was not dispatched
before, stays asleep for the rest of the run.** -/
theorem asleep_for_good (msecsToJiffies : UInt32 → UInt64) (memory : RecPtr → Mp2TaskStruct)
    (jiffies : UInt64) {tr tr' : List (Transition Mp2 Act)} {s t : Mp2}
    (h : Exec (step msecsToJiffies) (Mp2.boot memory jiffies) tr s)
    (h' : Exec (step msecsToJiffies) s tr' t)
    (hspare : ∀ x ∈ tr ++ tr', SparesCurrTask x) {p : TaskPtr} (hp : s.blocked p = true)
    (hnone : AtEach (fun later x => NoneLeft (tr ++ later) p x.pre) tr') :
    t.blocked p = true := by
  have hstart : Descending (tr ++ []) s := by
    rw [List.append_nil]
    exact descending_run h fun x hx => hspare x (List.mem_append_left _ hx)
  have hsteps : AtEach (fun later x => SparesCurrTask x ∧ NoneLeft (tr ++ later) p x.pre) tr' :=
    fun later x after hcut => ⟨hspare x (by simp [hcut]), hnone later x after hcut⟩
  have hrun := h'.tracedAt (I := fun later s => Descending (tr ++ later) s ∧ s.blocked p = true)
    ⟨hstart, hp⟩
    (fun later x hx hC hI => by
      rw [← List.append_assoc]
      exact ⟨hI.1.step hx hC.1, hI.1.asleep_step hx hI.2 hC.2⟩)
    hsteps
  exact hrun.2

/-- Process 7 yields before its deadline; its timer fires at the deadline, its record is READY again
and the dispatcher runs. -/
def secondRelease : List Act := [.tick 200, .fire 0, .callback 0, .dispatch, .dispatch]

theorem dispatchThenYield_runs :
    (runActions (step (·.toUInt64)) (firstDispatch ++ [.yield 7 7]) quiet).isSome := rfl

theorem secondRelease_runs :
    (runActions (step (·.toUInt64)) secondRelease (endOf _ _ _ dispatchThenYield_runs)).isSome :=
  rfl

theorem asleep_for_good_secondRelease :
    ((endOf _ _ _ secondRelease_runs).slab 0).state = .ready ∧
      (endOf _ _ _ secondRelease_runs).blocked 7 = true :=
  ⟨by decide, asleep_for_good (·.toUInt64) _ _ (exec_runOf dispatchThenYield_runs)
    (exec_runOf secondRelease_runs) (by decide) (by decide) (by decide)⟩

end KernelDev.Rms
