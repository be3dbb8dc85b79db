/-
# KernelDev.Lib.FixedPriority — one processor, fixed priorities, preemption in slots of time

Time is cut into slots. A task releases jobs, each with its work in slots, and a slot goes to a task
of least key among those with work left. Nothing is said of how jobs are spread over time but an
upper bound on the work a task releases in a window of a given length.

`FixedPriority.executed_ge` is the busy-window theorem: when the tasks at or above a level release
at most `L` slots of work in any window of `L` slots, all of that level's work is done `L` slots
after its release. The argument is that the level runs out of work at least once in any `L` slots,
whatever the jobs and the tasks below it do (`FixedPriority.clear_soon`).

There is a schedule of any jobs (`fixedPriority_slotOf`), and none of them meets the deadlines of
tasks that come each period and together take more time than there is (`periodic_overload`).
-/
import Mathlib.Algebra.BigOperators.Intervals
import Mathlib.Algebra.Order.BigOperators.Group.Finset
import Mathlib.Algebra.Order.Floor.Div
import Mathlib.Data.List.MinMax
import Mathlib.Data.Nat.Count

namespace KernelDev.Lib

open Finset

variable {ι κ : Type*}

/-! ## Work released and work done -/

/-- The work released before slot `t`; `work u` is that of the job of slot `u`, 0 without one. -/
def arrived (work : ℕ → ℕ) (t : ℕ) : ℕ := ∑ u ∈ range t, work u

section
variable [DecidableEq ι]

/-- The slots before `t` that went to `i`. -/
def executed (run : ℕ → Option ι) (i : ι) (t : ℕ) : ℕ := Nat.count (fun u => run u = some i) t

/-- `i` has work to do in slot `t`. -/
def Pending (work : ι → ℕ → ℕ) (run : ℕ → Option ι) (t : ℕ) (i : ι) : Prop :=
  executed run i t < arrived (work i) (t + 1)

instance (work : ι → ℕ → ℕ) (run : ℕ → Option ι) (t : ℕ) (i : ι) :
    Decidable (Pending work run t i) :=
  inferInstanceAs (Decidable (executed run i t < arrived (work i) (t + 1)))

end

theorem arrived_mono (work : ℕ → ℕ) : Monotone (arrived work) := fun _ _ h =>
  sum_le_sum_of_subset (range_mono h)

theorem arrived_add (work : ℕ → ℕ) (t d : ℕ) :
    arrived work (t + d) = arrived work t + arrived (fun u => work (t + u)) d :=
  sum_range_add work t d

/-! ## Jobs a period apart -/

/-- Jobs of at most `cost`, at least `period` slots apart. -/
structure Sporadic (period cost : ℕ) (work : ℕ → ℕ) : Prop where
  le : ∀ t, work t ≤ cost
  apart : ∀ t u, t < u → u < t + period → 0 < work t → work u = 0

namespace Sporadic

variable {period cost : ℕ} {work : ℕ → ℕ}

theorem shift (h : Sporadic period cost work) (t : ℕ) :
    Sporadic period cost fun u => work (t + u) where
  le u := h.le _
  apart u v huv hlt hpos := h.apart (t + u) (t + v) (by omega) (by omega) hpos

/-- There is one job in a window of one period. -/
theorem arrived_period_le (h : Sporadic period cost work) : arrived work period ≤ cost := by
  by_cases hany : ∃ t, t < period ∧ 0 < work t
  · obtain ⟨t, ht, hpos⟩ := hany
    -- every other slot of the window is less than a period away from `t`
    have hother : ∀ u ∈ range period, u ≠ t → work u = 0 := by
      intro u hu hne
      have hu : u < period := mem_range.mp hu
      rcases Nat.lt_or_gt_of_ne hne with hlt | hgt
      · by_contra hwork
        have hzero : work t = 0 := h.apart u t hlt (by omega) (Nat.pos_of_ne_zero hwork)
        omega
      · exact h.apart t u hgt (by omega) hpos
    calc arrived work period = work t := sum_eq_single_of_mem t (mem_range.mpr ht) hother
      _ ≤ cost := h.le t
  · have hzero : arrived work period = 0 := by
      apply sum_eq_zero
      intro u hu
      by_contra hwork
      exact hany ⟨u, mem_range.mp hu, Nat.pos_of_ne_zero hwork⟩
    omega

theorem arrived_mul_le (h : Sporadic period cost work) (n : ℕ) :
    arrived work (period * n) ≤ n * cost := by
  induction n with
  | zero => simp [arrived]
  | succ n ih =>
      rw [Nat.mul_succ, arrived_add, Nat.succ_mul]
      exact Nat.add_le_add ih (h.shift (period * n)).arrived_period_le

/-- **A window of `d` slots has at most as many jobs as it takes periods to cover it.** -/
theorem arrived_le (h : Sporadic period cost work) (hpos : 0 < period) (t d : ℕ) :
    arrived work (t + d) ≤ arrived work t + (d ⌈/⌉ period) * cost := by
  have hcover : d ≤ period * (d ⌈/⌉ period) := (ceilDiv_le_iff_le_mul hpos).mp le_rfl
  calc arrived work (t + d) = arrived work t + arrived (fun u => work (t + u)) d :=
        arrived_add work t d
    _ ≤ arrived work t + arrived (fun u => work (t + u)) (period * (d ⌈/⌉ period)) :=
        Nat.add_le_add_left (arrived_mono _ hcover) _
    _ ≤ arrived work t + (d ⌈/⌉ period) * cost :=
        Nat.add_le_add_left ((h.shift t).arrived_mul_le _) _

end Sporadic

/-! ## Schedules -/

variable [DecidableEq ι] {run : ℕ → Option ι} {work : ι → ℕ → ℕ} {i : ι}

theorem executed_succ (i : ι) (t : ℕ) :
    executed run i (t + 1) = executed run i t + if run t = some i then 1 else 0 :=
  Nat.count_succ _ t

theorem executed_mono (run : ℕ → Option ι) (i : ι) : Monotone (executed run i) :=
  Nat.count_monotone _

variable [Preorder κ]

/-- A slot goes to a task of least key among those with work to do, and to nobody when there is
none. -/
structure FixedPriority (tasks : Finset ι) (key : ι → κ) (work : ι → ℕ → ℕ)
    (run : ℕ → Option ι) : Prop where
  busy : ∀ t i, i ∈ tasks → Pending work run t i → ∃ c, run t = some c ∧ key c ≤ key i
  sound : ∀ t i, run t = some i → i ∈ tasks ∧ Pending work run t i

namespace FixedPriority

variable {tasks level : Finset ι} {key : ι → κ} (h : FixedPriority tasks key work run)
include h

/-- No work is done that was not released. -/
theorem executed_le (i : ι) (t : ℕ) : executed run i t ≤ arrived (work i) t := by
  induction t with
  | zero => simp [executed]
  | succ t ih =>
      rw [executed_succ]
      split
      · next hrun => exact (h.sound t i hrun).2
      · exact Nat.le_trans ih (arrived_mono _ (Nat.le_succ t))

omit h in
/-- The tasks of the level have done all that was released before `t`. -/
def Clear (level : Finset ι) (work : ι → ℕ → ℕ) (run : ℕ → Option ι) (t : ℕ) : Prop :=
  ∀ i ∈ level, arrived (work i) t ≤ executed run i t

/-- A slot after which the level has work left went to the level. -/
theorem run_mem_level (hsub : level ⊆ tasks)
    (hdown : ∀ i ∈ level, ∀ c ∈ tasks, key c ≤ key i → c ∈ level) {t : ℕ}
    (hclear : ¬ Clear level work run (t + 1)) : ∃ c ∈ level, run t = some c := by
  obtain ⟨i, hi, hlt⟩ : ∃ i ∈ level, executed run i (t + 1) < arrived (work i) (t + 1) := by
    simpa [Clear] using hclear
  have hpending : Pending work run t i :=
    Nat.lt_of_le_of_lt (executed_mono run i (Nat.le_succ t)) hlt
  obtain ⟨c, hc, hle⟩ := h.busy t i (hsub hi) hpending
  exact ⟨c, hdown i hi c (h.sound t c hc).1 hle, hc⟩

omit h in
/-- A slot that goes to the level is one slot of the level's work. -/
theorem sum_executed_succ {c : ι} {t : ℕ} (hc : c ∈ level) (hrun : run t = some c) :
    ∑ i ∈ level, executed run i (t + 1) = ∑ i ∈ level, executed run i t + 1 := by
  simp only [executed_succ, sum_add_distrib, hrun, Option.some.injEq]
  simp [hc]

/-- The slots of a window in which the level is never clear all go to the level. -/
theorem sum_executed_add (hsub : level ⊆ tasks)
    (hdown : ∀ i ∈ level, ∀ c ∈ tasks, key c ≤ key i → c ∈ level) {t d : ℕ}
    (hbusy : ∀ u, t < u → u ≤ t + d → ¬ Clear level work run u) :
    ∑ i ∈ level, executed run i (t + d) = ∑ i ∈ level, executed run i t + d := by
  induction d with
  | zero => rfl
  | succ d ih =>
      obtain ⟨c, hc, hrun⟩ := h.run_mem_level hsub hdown (hbusy (t + d + 1) (by omega) (by omega))
      have hd := ih fun u hlt hle => hbusy u hlt (by omega)
      rw [← Nat.add_assoc, sum_executed_succ hc hrun, hd, Nat.add_assoc]

/-- **A level that is clear is clear again within a window that holds the work released in it.** -/
theorem clear_soon (hsub : level ⊆ tasks)
    (hdown : ∀ i ∈ level, ∀ c ∈ tasks, key c ≤ key i → c ∈ level) {L t : ℕ}
    (hdemand : ∑ i ∈ level, arrived (work i) (t + L) ≤ ∑ i ∈ level, arrived (work i) t + L)
    (hpos : 0 < L) (hclear : Clear level work run t) :
    ∃ u, t < u ∧ u ≤ t + L ∧ Clear level work run u := by
  by_contra hnone
  have hbusy : ∀ u, t < u → u ≤ t + L → ¬ Clear level work run u := fun u hlt hle hu =>
    hnone ⟨u, hlt, hle, hu⟩
  -- the whole window goes to the level, and so all that is released in it is done
  have hall : ∑ i ∈ level, arrived (work i) (t + L) ≤ ∑ i ∈ level, executed run i (t + L) :=
    calc ∑ i ∈ level, arrived (work i) (t + L) ≤ ∑ i ∈ level, arrived (work i) t + L := hdemand
      _ ≤ ∑ i ∈ level, executed run i t + L := Nat.add_le_add_right (sum_le_sum hclear) L
      _ = ∑ i ∈ level, executed run i (t + L) := (h.sum_executed_add hsub hdown hbusy).symm
  have heq := (sum_eq_sum_iff_of_le fun i _ => h.executed_le i (t + L)).mp
    (Nat.le_antisymm (sum_le_sum fun i _ => h.executed_le i (t + L)) hall)
  exact hbusy (t + L) (by omega) (by omega) fun i hi => (heq i hi).ge

/-- A level whose demand fits a window of `L` slots is clear once in any `L` slots. -/
theorem clear_within (hsub : level ⊆ tasks)
    (hdown : ∀ i ∈ level, ∀ c ∈ tasks, key c ≤ key i → c ∈ level) {L : ℕ}
    (hdemand : ∀ t,
      ∑ i ∈ level, arrived (work i) (t + L) ≤ ∑ i ∈ level, arrived (work i) t + L)
    (hpos : 0 < L) (r : ℕ) : ∃ u, r < u ∧ u ≤ r + L ∧ Clear level work run u := by
  induction r with
  | zero => exact h.clear_soon hsub hdown (hdemand 0) hpos fun i _ => Nat.zero_le _
  | succ r ih =>
      obtain ⟨u, hlt, hle, hu⟩ := ih
      rcases Nat.eq_or_lt_of_le hlt with rfl | hlt
      · exact h.clear_soon hsub hdown (hdemand _) hpos hu
      · exact ⟨u, hlt, by omega, hu⟩

/-- **The busy window.** What a level releases up to slot `r` is done `L` slots later. -/
theorem executed_ge (hsub : level ⊆ tasks)
    (hdown : ∀ i ∈ level, ∀ c ∈ tasks, key c ≤ key i → c ∈ level) {L : ℕ}
    (hdemand : ∀ t,
      ∑ i ∈ level, arrived (work i) (t + L) ≤ ∑ i ∈ level, arrived (work i) t + L)
    (hpos : 0 < L) {i : ι} (hi : i ∈ level) (r : ℕ) :
    arrived (work i) (r + 1) ≤ executed run i (r + L) := by
  obtain ⟨u, hlt, hle, hu⟩ := h.clear_within hsub hdown hdemand hpos r
  calc arrived (work i) (r + 1) ≤ arrived (work i) u := arrived_mono _ hlt
    _ ≤ executed run i u := hu i hi
    _ ≤ executed run i (r + L) := executed_mono run i hle

end FixedPriority

/-! ## A schedule of any jobs -/

section
variable {κ : Type*} [LinearOrder κ]

/-- The first task of least key among those of `l` with more work than `done`. -/
def pick (l : List ι) (key : ι → κ) (work : ι → ℕ → ℕ) (t : ℕ) (done : ι → ℕ) : Option ι :=
  (l.filter fun i => done i < arrived (work i) (t + 1)).argmin key

/-- The slots that `pick` gives each task before slot `t`. -/
def doneBefore (l : List ι) (key : ι → κ) (work : ι → ℕ → ℕ) : ℕ → ι → ℕ
  | 0, _ => 0
  | t + 1, i =>
      doneBefore l key work t i +
        if pick l key work t (doneBefore l key work t) = some i then 1 else 0

/-- The schedule that `pick` makes. -/
def slotOf (l : List ι) (key : ι → κ) (work : ι → ℕ → ℕ) (t : ℕ) : Option ι :=
  pick l key work t (doneBefore l key work t)

variable {l : List ι} {key : ι → κ}

theorem executed_slotOf (i : ι) (t : ℕ) :
    executed (slotOf l key work) i t = doneBefore l key work t i := by
  induction t with
  | zero => rfl
  | succ t ih => rw [executed_succ, ih, doneBefore, slotOf]

theorem mem_pending {t : ℕ} : i ∈ (l.filter fun i =>
      doneBefore l key work t i < arrived (work i) (t + 1)) ↔
    i ∈ l ∧ Pending work (slotOf l key work) t i := by
  simp [Pending, executed_slotOf]

/-- **Whatever the jobs, there is a schedule of them.** -/
theorem fixedPriority_slotOf (l : List ι) (key : ι → κ) (work : ι → ℕ → ℕ) :
    FixedPriority l.toFinset key work (slotOf l key work) where
  busy t i hi hpending := by
    have hmem := mem_pending.mpr ⟨List.mem_toFinset.mp hi, hpending⟩
    cases hslot : slotOf l key work t with
    | none =>
        rw [List.argmin_eq_none.mp hslot] at hmem
        exact absurd hmem List.not_mem_nil
    | some c => exact ⟨c, rfl, List.le_of_mem_argmin hmem hslot⟩
  sound t i hslot := by
    obtain ⟨hi, hpending⟩ := mem_pending.mp (List.argmin_mem hslot)
    exact ⟨List.mem_toFinset.mpr hi, hpending⟩

end

/-! ## A job each period -/

/-- A job of `cost` at every multiple of the period. -/
def periodic (period cost : ℕ) (t : ℕ) : ℕ := if period ∣ t then cost else 0

section
variable {period cost : ℕ}

theorem periodic_add (n t : ℕ) :
    periodic period cost (period * n + t) = periodic period cost t := by
  simp [periodic, Nat.dvd_add_right (Nat.dvd_mul_right period n)]

theorem sporadic_periodic (period cost : ℕ) : Sporadic period cost (periodic period cost) where
  le t := by
    unfold periodic
    split
    · exact Nat.le_refl _
    · exact Nat.zero_le _
  apart t u hlt hclose hpos := by
    have ht : period ∣ t := by
      by_contra hnot
      simp [periodic, hnot] at hpos
    -- two multiples are a period apart
    have hu : ¬ period ∣ u := by
      intro hu
      have hle := Nat.le_of_dvd (by omega) (Nat.dvd_sub hu ht)
      omega
    rw [periodic, if_neg hu]

theorem arrived_periodic_succ {d : ℕ} (hd : d < period) :
    arrived (periodic period cost) (d + 1) = cost := by
  rw [arrived, sum_range_succ', periodic, if_pos (Nat.dvd_zero period)]
  simp only [Nat.add_eq_right, sum_eq_zero_iff, mem_range]
  intro u hu
  rw [periodic, if_neg (Nat.not_dvd_of_pos_of_lt (Nat.succ_pos u) (by omega))]

theorem arrived_periodic_mul (hpos : 0 < period) (n : ℕ) :
    arrived (periodic period cost) (period * n) = n * cost := by
  induction n with
  | zero => simp [arrived]
  | succ n ih =>
      have hlast : arrived (periodic period cost) period = cost := by
        simpa [Nat.sub_add_cancel hpos] using
          arrived_periodic_succ (Nat.sub_lt hpos Nat.one_pos)
      rw [Nat.mul_succ, arrived_add, ih, Nat.succ_mul]
      simp only [periodic_add, hlast]

end

/-- A slot goes to one task at most. -/
theorem sum_executed_le (s : Finset ι) (run : ℕ → Option ι) (t : ℕ) :
    ∑ i ∈ s, executed run i t ≤ t := by
  induction t with
  | zero => simp [executed]
  | succ t ih =>
      have hslot : ∑ i ∈ s, (if run t = some i then 1 else 0) ≤ 1 := by
        cases run t with
        | none => simp
        | some c => simp only [Option.some.injEq, sum_ite_eq]; split <;> omega
      simp only [executed_succ, sum_add_distrib]
      omega

/-- **Tasks with a job at every period meet all their deadlines only if the work of a common
multiple `H` of the periods fits `H`.** -/
theorem periodic_overload {s : Finset ι} {period cost : ι → ℕ} {run : ℕ → Option ι}
    (hpos : ∀ i ∈ s, 0 < period i) {H : ℕ} (hH : 0 < H) (hdvd : ∀ i ∈ s, period i ∣ H)
    (hmeet : ∀ i ∈ s, ∀ r,
      arrived (periodic (period i) (cost i)) (r + 1) ≤ executed run i (r + period i)) :
    ∑ i ∈ s, H / period i * cost i ≤ H := by
  have hdone : ∀ i ∈ s, H / period i * cost i ≤ executed run i H := by
    intro i hi
    obtain ⟨n, rfl⟩ := hdvd i hi
    obtain ⟨m, rfl⟩ : ∃ m, n = m + 1 :=
      Nat.exists_eq_succ_of_ne_zero (Nat.pos_of_mul_pos_left hH).ne'
    -- the last job comes one period before the end
    have hlast : arrived (periodic (period i) (cost i)) (period i * m + 1) = (m + 1) * cost i := by
      rw [arrived_add, arrived_periodic_mul (hpos i hi), Nat.succ_mul]
      simp only [periodic_add]
      rw [arrived_periodic_succ (hpos i hi)]
    rw [Nat.mul_div_cancel_left _ (hpos i hi), ← hlast]
    exact hmeet i hi (period i * m)
  exact (sum_le_sum hdone).trans (sum_executed_le s run H)

end KernelDev.Lib
