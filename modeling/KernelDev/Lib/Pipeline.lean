/-
# KernelDev.Lib.Pipeline — stages run in order until one fails

A stage takes a state to a result and a new state, and a negative result is a failure. `pipeline`
runs a list of stages and stops at the first that fails; its result is that of the last stage run.
It records the stages it ran with their results, so that "no stage runs after a failed one" is a
statement about a list.
-/
import Mathlib.Data.List.Basic

namespace KernelDev.Lib

variable {ι σ : Type*}

/-- What a pipeline did: its result, the stages it ran with their results, and the state it left. -/
structure Outcome (ι σ : Type*) where
  ret : Int
  calls : List (ι × Int)
  state : σ

/-- Run the stages in order, stopping at the first negative result. `ret` is the result of the stage
before. -/
def pipeline (run : ι → σ → Int × σ) : List ι → Int → σ → Outcome ι σ
  | [], ret, s => ⟨ret, [], s⟩
  | i :: is, _, s =>
      if (run i s).1 < 0 then ⟨(run i s).1, [(i, (run i s).1)], (run i s).2⟩
      else
        let rest := pipeline run is (run i s).1 (run i s).2
        { rest with calls := (i, (run i s).1) :: rest.calls }

variable (run : ι → σ → Int × σ)

@[simp] theorem pipeline_nil (ret : Int) (s : σ) : pipeline run [] ret s = ⟨ret, [], s⟩ := rfl

theorem pipeline_cons_fails {i : ι} {s : σ} (is : List ι) (ret : Int) (h : (run i s).1 < 0) :
    pipeline run (i :: is) ret s = ⟨(run i s).1, [(i, (run i s).1)], (run i s).2⟩ := by
  rw [pipeline, if_pos h]

theorem pipeline_cons_passes {i : ι} {s : σ} (is : List ι) (ret : Int) (h : 0 ≤ (run i s).1) :
    pipeline run (i :: is) ret s =
      { pipeline run is (run i s).1 (run i s).2 with
        calls := (i, (run i s).1) :: (pipeline run is (run i s).1 (run i s).2).calls } := by
  rw [pipeline, if_neg (Int.not_lt.mpr h)]

/-- No stage runs after a failed one. -/
theorem pipeline_stops (is : List ι) (ret : Int) (s : σ) :
    (pipeline run is ret s).calls.Pairwise fun c _ => 0 ≤ c.2 := by
  induction is generalizing ret s with
  | nil => exact .nil
  | cons i is ih =>
      by_cases h : (run i s).1 < 0
      · rw [pipeline_cons_fails run is ret h]
        exact List.pairwise_singleton _ _
      · rw [pipeline_cons_passes run is ret (Int.not_lt.mp h)]
        exact List.pairwise_cons.mpr ⟨fun _ _ => Int.not_lt.mp h, ih _ _⟩

/-- A failed stage is the last one run, and its result is the pipeline's. -/
theorem pipeline_negative (is : List ι) (ret : Int) (s : σ) {c : ι × Int}
    (hc : c ∈ (pipeline run is ret s).calls) (hneg : c.2 < 0) :
    (pipeline run is ret s).ret < 0 := by
  induction is generalizing ret s with
  | nil => cases hc
  | cons i is ih =>
      by_cases h : (run i s).1 < 0
      · rw [pipeline_cons_fails run is ret h]
        exact h
      · rw [pipeline_cons_passes run is ret (Int.not_lt.mp h)] at hc ⊢
        rcases List.mem_cons.mp hc with rfl | hc
        · exact absurd hneg h
        · exact ih _ _ hc

/-- A pipeline that does not fail ran every stage, and every stage passed. -/
theorem pipeline_complete (is : List ι) (ret : Int) (s : σ)
    (hret : 0 ≤ (pipeline run is ret s).ret) :
    (pipeline run is ret s).calls.map Prod.fst = is ∧
      ∀ c ∈ (pipeline run is ret s).calls, 0 ≤ c.2 := by
  induction is generalizing ret s with
  | nil => simp
  | cons i is ih =>
      by_cases h : (run i s).1 < 0
      · rw [pipeline_cons_fails run is ret h] at hret
        exact absurd h (Int.not_lt.mpr hret)
      · rw [pipeline_cons_passes run is ret (Int.not_lt.mp h)] at hret ⊢
        obtain ⟨hall, hpass⟩ := ih _ _ hret
        exact ⟨by simp [hall], List.forall_mem_cons.mpr ⟨Int.not_lt.mp h, hpass⟩⟩

/-- What every stage keeps, the pipeline keeps. -/
theorem pipeline_invariant {I : σ → Prop} {is : List ι}
    (hstep : ∀ i ∈ is, ∀ s, I s → I (run i s).2) (ret : Int) {s : σ} (hs : I s) :
    I (pipeline run is ret s).state := by
  induction is generalizing ret s with
  | nil => exact hs
  | cons i is ih =>
      have hi : I (run i s).2 := hstep i List.mem_cons_self s hs
      by_cases h : (run i s).1 < 0
      · rw [pipeline_cons_fails run is ret h]
        exact hi
      · rw [pipeline_cons_passes run is ret (Int.not_lt.mp h)]
        exact ih (fun j hj => hstep j (List.mem_cons_of_mem _ hj)) _ hi

/-- A pipeline that does not fail ends with its last stage. -/
theorem pipeline_last (is : List ι) (i : ι) (ret : Int) (s : σ)
    (hret : 0 ≤ (pipeline run (is ++ [i]) ret s).ret) :
    (pipeline run (is ++ [i]) ret s).ret = (run i (pipeline run is ret s).state).1 ∧
      (pipeline run (is ++ [i]) ret s).state = (run i (pipeline run is ret s).state).2 := by
  induction is generalizing ret s with
  | nil =>
      rw [List.nil_append] at hret ⊢
      by_cases h : (run i s).1 < 0
      · rw [pipeline_cons_fails run [] ret h]
        exact ⟨rfl, rfl⟩
      · rw [pipeline_cons_passes run [] ret (Int.not_lt.mp h)]
        exact ⟨rfl, rfl⟩
  | cons j is ih =>
      rw [List.cons_append] at hret ⊢
      by_cases h : (run j s).1 < 0
      · -- a stage that fails before would have been the result
        rw [pipeline_cons_fails run _ ret h] at hret
        exact absurd h (Int.not_lt.mpr hret)
      · rw [pipeline_cons_passes run _ ret (Int.not_lt.mp h)] at hret ⊢
        rw [pipeline_cons_passes run is ret (Int.not_lt.mp h)]
        exact ih _ _ hret

end KernelDev.Lib
