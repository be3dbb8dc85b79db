/-
# KernelDev.Lib.Execution — executions of a step function and the rules that follow from one step

A system is given by a partial step function `α → σ → Option σ` (`none`: the action is not enabled).
`Exec` is the execution relation; it records every transition, so that a law about a run ("every
step of it ...", "every state it passes through ...") is a statement about the members of a list.

The rules below are the only inductions over executions in the development:

* `Exec.invariant` — a property that every step preserves holds of every state passed through;
* `Exec.guarded` — the same under a condition that every transition of the run meets;
* `Exec.traced` — the same for a property of the transitions taken and the state reached;
* `Exec.split` — a run is cut in two at any of its transitions;
* `Exec.forall_iff` — a per-step characterization lifts to runs;
* `Exec.forall_post_iff` — a state property that is kept by EXACTLY the steps meeting a condition
  holds along a run exactly when every transition meets the condition;
* `Exec.atEach_iff` — the same for a property of the transitions taken and the state reached;
* `Exec.tracedAt` — `Exec.traced` under a condition on each transition and those before it;
* `Exec.project` — a run seen through a view is a run of the system the view belongs to;
* `Exec.forall_iff_along` — a law about a view that the actions determine is a law about the
  actions;
* `Exec.forall_post_iff_along` — the exact guard rule with a condition on the actions alone;
* `Exec.view_foldl` — a view of the state that every transition changes as its label does is, at the
  end, what the labels make of it in order.
-/
import Mathlib.Data.List.Induction

namespace KernelDev.Lib

variable {σ τ α β : Type*}

/-- One transition of an execution: the state before, the action taken, the state after. -/
structure Transition (σ α : Type*) where
  pre : σ
  act : α
  post : σ

/-- `Exec step s tr t`: from `s`, the transitions `tr` were taken in order and led to `t`. -/
inductive Exec (step : α → σ → Option σ) : σ → List (Transition σ α) → σ → Prop
  | refl (s : σ) : Exec step s [] s
  | snoc {s t u : σ} {tr : List (Transition σ α)} {a : α} :
      Exec step s tr t → step a t = some u → Exec step s (tr ++ [⟨t, a, u⟩]) u

namespace Exec

variable {step : α → σ → Option σ} {s t u : σ} {tr : List (Transition σ α)}

theorem trans {tr' : List (Transition σ α)} (h : Exec step s tr t) (h' : Exec step t tr' u) :
    Exec step s (tr ++ tr') u := by
  induction h' with
  | refl => simpa using h
  | snoc _ hstep ih =>
      rw [← List.append_assoc]
      exact .snoc ih hstep

theorem single {a : α} (h : step a s = some t) : Exec step s [⟨s, a, t⟩] t := by
  simpa using Exec.snoc (.refl s) h

/-- Every recorded transition is a step of the system. -/
theorem isStep (h : Exec step s tr t) : ∀ x ∈ tr, step x.act x.pre = some x.post := by
  induction h with
  | refl => simp
  | snoc _ hstep ih =>
      intro x hx
      rcases List.mem_append.mp hx with hx | hx
      · exact ih x hx
      · rw [List.mem_singleton.mp hx]
        exact hstep

/-! ## Invariants -/

/-- **The guarded invariant rule.** If every transition of the run meets `C`, and a step that meets
`C` preserves `I`, then `I` holds before and after every transition and at the end. -/
theorem guarded {I : σ → Prop} {C : Transition σ α → Prop} (h : Exec step s tr t) (hinit : I s)
    (hstep : ∀ x : Transition σ α, step x.act x.pre = some x.post → C x → I x.pre → I x.post)
    (hC : ∀ x ∈ tr, C x) : (∀ x ∈ tr, I x.pre ∧ I x.post) ∧ I t := by
  induction h with
  | refl => exact ⟨by simp, hinit⟩
  | @snoc t u tr a _ hs ih =>
      -- the run up to its last transition meets `C` as well
      obtain ⟨hall, ht⟩ := ih fun x hx => hC x (List.mem_append_left _ hx)
      have hu : I u := hstep ⟨t, a, u⟩ hs (hC _ (by simp)) ht
      refine ⟨fun x hx => ?_, hu⟩
      rcases List.mem_append.mp hx with hx | hx
      · exact hall x hx
      · rw [List.mem_singleton.mp hx]
        exact ⟨ht, hu⟩

/-- **The invariant rule.** -/
theorem invariant {I : σ → Prop} (h : Exec step s tr t) (hinit : I s)
    (hstep : ∀ x : Transition σ α, step x.act x.pre = some x.post → I x.pre → I x.post) :
    (∀ x ∈ tr, I x.pre ∧ I x.post) ∧ I t :=
  guarded (C := fun _ => True) h hinit (fun x hx _ => hstep x hx) (fun _ _ => trivial)

/-- **The trace rule.** If every transition of the run meets `C`, and a step that meets `C` extends
a run of which `I` holds to one of which `I` holds, then `I` holds of the transitions taken and the
state reached. -/
theorem traced {I : List (Transition σ α) → σ → Prop} {C : Transition σ α → Prop}
    (h : Exec step s tr t) (hinit : I [] s)
    (hstep : ∀ (tr : List (Transition σ α)) (x : Transition σ α),
      step x.act x.pre = some x.post → C x → I tr x.pre → I (tr ++ [x]) x.post)
    (hC : ∀ x ∈ tr, C x) : I tr t := by
  induction h with
  | refl => exact hinit
  | @snoc t u tr a _ hs ih =>
      have ht : I tr t := ih fun x hx => hC x (List.mem_append_left _ hx)
      exact hstep tr ⟨t, a, u⟩ hs (hC _ (by simp)) ht

/-- A run is cut at any of its transitions. -/
theorem split {before after : List (Transition σ α)} {x : Transition σ α}
    (h : Exec step s (before ++ x :: after) t) :
    Exec step s before x.pre ∧ step x.act x.pre = some x.post ∧ Exec step x.post after t := by
  generalize htr : before ++ x :: after = tr at h
  induction h generalizing after with
  | refl => simp at htr
  | @snoc t u tr a h hs ih =>
      rcases List.eq_nil_or_concat after with rfl | ⟨after', y, rfl⟩
      · -- the cut is at the last transition
        obtain ⟨rfl, hx⟩ := List.append_inj' htr rfl
        obtain rfl := List.singleton_inj.mp hx
        exact ⟨h, hs, .refl _⟩
      · rw [List.concat_eq_append, ← List.cons_append, ← List.append_assoc] at htr
        obtain ⟨htr', hy⟩ := List.append_inj' htr rfl
        obtain rfl := List.singleton_inj.mp hy
        obtain ⟨hbefore, hstep, hafter⟩ := ih htr'
        refine ⟨hbefore, hstep, ?_⟩
        rw [List.concat_eq_append]
        exact .snoc hafter hs

/-! ## Exact conditions along a run -/

/-- A law about single transitions that, from the states satisfying an invariant, holds exactly
under `C` holds along a run exactly when every transition meets `C`. -/
theorem forall_iff {I : σ → Prop} {P C : Transition σ α → Prop} (h : Exec step s tr t)
    (hinit : I s)
    (hinv : ∀ x : Transition σ α, step x.act x.pre = some x.post → I x.pre → I x.post)
    (hiff : ∀ x : Transition σ α, step x.act x.pre = some x.post → I x.pre → (P x ↔ C x)) :
    (∀ x ∈ tr, P x) ↔ ∀ x ∈ tr, C x := by
  have hall := (h.invariant hinit hinv).1
  constructor
  · intro hP x hx
    exact (hiff x (h.isStep x hx) (hall x hx).1).mp (hP x hx)
  · intro hC x hx
    exact (hiff x (h.isStep x hx) (hall x hx).1).mpr (hC x hx)

/-- **The exact guard rule.** Let `Q` hold at the start. If, from a state satisfying the invariant
`I` and `Q`, a step keeps `Q` exactly when it meets `C`, then a run keeps `Q` throughout exactly
when all of its transitions meet `C`. -/
theorem forall_post_iff {I Q : σ → Prop} {C : Transition σ α → Prop} (h : Exec step s tr t)
    (hinit : I s) (hQ : Q s)
    (hinv : ∀ x : Transition σ α, step x.act x.pre = some x.post → I x.pre → I x.post)
    (hiff : ∀ x : Transition σ α, step x.act x.pre = some x.post → I x.pre → Q x.pre →
      (Q x.post ↔ C x)) :
    (∀ x ∈ tr, Q x.post) ↔ ∀ x ∈ tr, C x := by
  -- the state a run ends in satisfies `Q` as soon as all the states it passed through do
  suffices hsuff : ((∀ x ∈ tr, Q x.post) ↔ ∀ x ∈ tr, C x) ∧ ((∀ x ∈ tr, Q x.post) → Q t) from
    hsuff.1
  induction h with
  | refl => exact ⟨by simp, fun _ => hQ⟩
  | @snoc t u tr a h hs ih =>
      obtain ⟨ihiff, ihlast⟩ := ih
      have ht : I t := (h.invariant hinit hinv).2
      simp only [List.forall_mem_append, List.forall_mem_singleton]
      refine ⟨⟨?_, ?_⟩, fun hall => hall.2⟩
      · rintro ⟨hprev, hu⟩
        exact ⟨ihiff.mp hprev, (hiff ⟨t, a, u⟩ hs ht (ihlast hprev)).mp hu⟩
      · rintro ⟨hprev, hC⟩
        have hprev' := ihiff.mpr hprev
        exact ⟨hprev', (hiff ⟨t, a, u⟩ hs ht (ihlast hprev')).mpr hC⟩

/-! ## Serialization -/

/-- **The serialization rule.** If every transition changes a view of the state as its label does
(and leaves the view alone when it has none), the view after the run is the labels' effect, one
after the other, on the view before it. -/
theorem view_foldl {view : σ → τ} {label : Transition σ α → Option β} {f : τ → β → τ}
    (h : Exec step s tr t)
    (hview : ∀ x ∈ tr, view x.post = ((label x).map (f (view x.pre))).getD (view x.pre)) :
    view t = (tr.filterMap label).foldl f (view s) := by
  induction h with
  | refl => rfl
  | @snoc t u tr a _ _ ih =>
      have ht := ih fun x hx => hview x (List.mem_append_left _ hx)
      have hu : view u = ((label ⟨t, a, u⟩).map (f (view t))).getD (view t) :=
        hview ⟨t, a, u⟩ (by simp)
      rw [hu, List.filterMap_append, List.foldl_append, ← ht]
      cases hl : label ⟨t, a, u⟩ with
      | none => simp [hl]
      | some b => simp [hl]

/-- **The projection rule.** If every step of the system is, through a view of its state, the step
of another system that its label names (and leaves the view alone when it has none), the labelled
transitions are a run of that system. -/
theorem project {step' : β → τ → Option τ} (h : Exec step s tr t) (view : σ → τ)
    (label : Transition σ α → Option β)
    (hlabel : ∀ x : Transition σ α, step x.act x.pre = some x.post → ∀ b, label x = some b →
      step' b (view x.pre) = some (view x.post))
    (hquiet : ∀ x : Transition σ α, step x.act x.pre = some x.post → label x = none →
      view x.post = view x.pre) :
    Exec step' (view s)
      (tr.filterMap fun x => (label x).map fun b => ⟨view x.pre, b, view x.post⟩) (view t) := by
  induction h with
  | refl => exact .refl _
  | @snoc t u tr a _ hs ih =>
      rw [List.filterMap_append]
      cases hl : label ⟨t, a, u⟩ with
      | none =>
          have hsame : view u = view t := hquiet _ hs hl
          simpa [hl, hsame] using ih
      | some b => simpa [hl] using ih.snoc (hlabel _ hs b hl)

end Exec

/-! ## Laws about the actions alone -/

/-- `Along f C v as`: with `f` tracking what the actions `as` make of `v`, each of them meets `C`
where it is taken. -/
def Along (f : τ → α → τ) (C : α → τ → Prop) : τ → List α → Prop
  | _, [] => True
  | v, a :: as => C a v ∧ Along f C (f v a) as

instance Along.decidable (f : τ → α → τ) (C : α → τ → Prop) [∀ a v, Decidable (C a v)] :
    ∀ (v : τ) (as : List α), Decidable (Along f C v as)
  | _, [] => isTrue trivial
  | v, a :: as =>
      have := Along.decidable f C (f v a) as
      inferInstanceAs (Decidable (C a v ∧ Along f C (f v a) as))

theorem along_append {f : τ → α → τ} {C : α → τ → Prop} {v : τ} {as bs : List α} :
    Along f C v (as ++ bs) ↔ Along f C v as ∧ Along f C (as.foldl f v) bs := by
  induction as generalizing v with
  | nil => simp [Along]
  | cons a as ih => simp [Along, ih, and_assoc]

/-- **The view rule.** If the actions determine a view of the state, a law that depends on the state
through the view only is a law about the list of actions. -/
theorem Exec.forall_iff_along {step : α → σ → Option σ} {s t : σ} {tr : List (Transition σ α)}
    {f : τ → α → τ} {C : α → τ → Prop} {P : Transition σ α → Prop}
    (h : Exec step s tr t) (view : σ → τ)
    (hview : ∀ x : Transition σ α, step x.act x.pre = some x.post →
      view x.post = f (view x.pre) x.act)
    (hiff : ∀ x : Transition σ α, step x.act x.pre = some x.post → (P x ↔ C x.act (view x.pre))) :
    (∀ x ∈ tr, P x) ↔ Along f C (view s) (tr.map Transition.act) := by
  -- the induction carries the view along: what the actions so far make of it
  suffices hsuff : ((∀ x ∈ tr, P x) ↔ Along f C (view s) (tr.map Transition.act)) ∧
      view t = (tr.map Transition.act).foldl f (view s) from hsuff.1
  induction h with
  | refl => simp [Along]
  | @snoc t u tr a _ hs ih =>
      obtain ⟨ihiff, ihview⟩ := ih
      have hlast : P ⟨t, a, u⟩ ↔ C a (view t) := hiff ⟨t, a, u⟩ hs
      have hu : view u = f (view t) a := hview ⟨t, a, u⟩ hs
      rw [List.map_append, along_append, ← ihview, List.foldl_append, ← ihview, hu]
      simp only [List.forall_mem_append, List.forall_mem_singleton, ihiff, hlast]
      simp [Along]

/-- **The exact guard rule for a view.** If the actions determine a view of the state, and a step
keeps `Q` exactly when its action meets `C` at the view, then a run keeps `Q` throughout exactly
when each of its actions meets `C` where it is taken. -/
theorem Exec.forall_post_iff_along {step : α → σ → Option σ} {s t : σ}
    {tr : List (Transition σ α)} {f : τ → α → τ} {C : α → τ → Prop} {Q : σ → Prop}
    (h : Exec step s tr t) (view : σ → τ) (hQ : Q s)
    (hview : ∀ x : Transition σ α, step x.act x.pre = some x.post →
      view x.post = f (view x.pre) x.act)
    (hiff : ∀ x : Transition σ α, step x.act x.pre = some x.post → Q x.pre →
      (Q x.post ↔ C x.act (view x.pre))) :
    (∀ x ∈ tr, Q x.post) ↔ Along f C (view s) (tr.map Transition.act) :=
  (h.forall_post_iff (I := fun _ => True) trivial hQ (fun _ _ _ => trivial)
    (fun x hx _ hpre => hiff x hx hpre)).trans
    (h.forall_iff_along view hview fun _ _ => Iff.rfl)

/-! ## Laws about each step and what came before it -/

/-- At each position of the list, `P` holds of what comes before it and of the entry there. -/
def AtEach (P : List β → β → Prop) (xs : List β) : Prop :=
  ∀ before x after, xs = before ++ x :: after → P before x

section
variable {P : List β → β → Prop} {xs : List β}

theorem atEach_nil : AtEach P [] := by
  intro before x after h
  simp at h

theorem AtEach.left {ys : List β} (h : AtEach P (xs ++ ys)) : AtEach P xs := by
  intro before x after hxs
  exact h before x (after ++ ys) (by rw [hxs, List.append_assoc, List.cons_append])

theorem atEach_concat {y : β} : AtEach P (xs ++ [y]) ↔ AtEach P xs ∧ P xs y := by
  constructor
  · intro h
    exact ⟨h.left, h xs y [] rfl⟩
  · rintro ⟨hxs, hy⟩ before x after hcut
    rcases List.eq_nil_or_concat after with rfl | ⟨after', z, rfl⟩
    · -- the position is the last one
      obtain ⟨rfl, hx⟩ := List.append_inj' hcut rfl
      obtain rfl := List.singleton_inj.mp hx
      exact hy
    · rw [List.concat_eq_append, ← List.cons_append, ← List.append_assoc] at hcut
      exact hxs before x after' (List.append_inj' hcut rfl).1

theorem AtEach.getElem (h : AtEach P xs) (n : Nat) (hn : n < xs.length) :
    P (xs.take n) xs[n] :=
  h (xs.take n) xs[n] (xs.drop (n + 1)) (by rw [List.getElem_cons_drop, List.take_append_drop])

theorem AtEach.imp {R : List β → β → Prop} (h : AtEach P xs) (himp : ∀ ys y, P ys y → R ys y) :
    AtEach R xs :=
  fun before x after hxs => himp before x (h before x after hxs)

theorem atEach_iff_along :
    AtEach P xs ↔ Along (fun before x => before ++ [x]) (fun x before => P before x) [] xs := by
  induction xs using List.reverseRecOn with
  | nil => exact iff_of_true atEach_nil trivial
  | append_singleton xs y ih =>
      have hbefore : xs.foldl (fun before x => before ++ [x]) [] = xs := by
        rw [List.foldl_append_eq_append, List.nil_append, ← List.flatMap_def,
          List.flatMap_singleton']
      rw [atEach_concat, along_append, ih, hbefore]
      simp [Along]

instance [∀ ys y, Decidable (P ys y)] : Decidable (AtEach P xs) :=
  decidable_of_iff' _ atEach_iff_along

end

/-- A property of the transitions taken and the state reached that holds at the start and after
every step of a run holds of the whole run. -/
theorem Exec.last_of_atEach {step : α → σ → Option σ} {s t : σ} {tr : List (Transition σ α)}
    {Q : List (Transition σ α) → σ → Prop} (h : Exec step s tr t) (hQ : Q [] s)
    (hpost : AtEach (fun before x => Q (before ++ [x]) x.post) tr) : Q tr t := by
  cases h with
  | refl => exact hQ
  | snoc _ _ => exact (atEach_concat.mp hpost).2

/-- **The trace rule with a condition on what came before.** If each transition of the run meets `C`
where it is taken, and a step that does extends a run of which `I` holds to one of which `I` holds,
then `I` holds of the transitions taken and the state reached. -/
theorem Exec.tracedAt {step : α → σ → Option σ} {s t : σ} {tr : List (Transition σ α)}
    {I : List (Transition σ α) → σ → Prop} {C : List (Transition σ α) → Transition σ α → Prop}
    (h : Exec step s tr t) (hinit : I [] s)
    (hstep : ∀ (before : List (Transition σ α)) (x : Transition σ α),
      step x.act x.pre = some x.post → C before x → I before x.pre → I (before ++ [x]) x.post)
    (hC : AtEach C tr) : I tr t := by
  induction h with
  | refl => exact hinit
  | @snoc t u tr a _ hs ih =>
      obtain ⟨hbefore, hlast⟩ := atEach_concat.mp hC
      exact hstep tr ⟨t, a, u⟩ hs hlast (ih hbefore)

/-- **The exact trace rule.** Let `Q` hold at the start. If, from a run of which `Q` holds and a
state satisfying the invariant `I`, a step extends the run to one of which `Q` holds exactly when it
meets `C`, then `Q` holds throughout a run exactly when each of its transitions meets `C`. -/
theorem Exec.atEach_iff {step : α → σ → Option σ} {s t : σ} {tr : List (Transition σ α)}
    {I : σ → Prop} {Q : List (Transition σ α) → σ → Prop}
    {C : List (Transition σ α) → Transition σ α → Prop} (h : Exec step s tr t)
    (hinit : I s) (hQ : Q [] s)
    (hinv : ∀ x : Transition σ α, step x.act x.pre = some x.post → I x.pre → I x.post)
    (hiff : ∀ (before : List (Transition σ α)) (x : Transition σ α),
      step x.act x.pre = some x.post → I x.pre → Q before x.pre →
      (Q (before ++ [x]) x.post ↔ C before x)) :
    AtEach (fun before x => Q (before ++ [x]) x.post) tr ↔ AtEach C tr := by
  induction h with
  | refl => exact iff_of_true atEach_nil atEach_nil
  | @snoc t u tr a h hs ih =>
      have ht : I t := (h.invariant hinit hinv).2
      have hlast : AtEach C tr → (Q (tr ++ [⟨t, a, u⟩]) u ↔ C tr ⟨t, a, u⟩) := fun hC =>
        hiff tr ⟨t, a, u⟩ hs ht (h.last_of_atEach hQ (ih.mpr hC))
      rw [atEach_concat, atEach_concat, ih]
      exact and_congr_right hlast

/-! ## Running a list of actions -/

/-- Run a list of actions from a state, recording the transitions; `none` when one is not
enabled. -/
def runActions (step : α → σ → Option σ) : List α → σ → Option (List (Transition σ α) × σ)
  | [], s => some ([], s)
  | a :: as, s =>
      (step a s).bind fun t =>
        (runActions step as t).map fun r => (⟨s, a, t⟩ :: r.1, r.2)

/-- A completed run of a list of actions is an execution. -/
theorem exec_of_runActions {step : α → σ → Option σ} :
    ∀ {acts : List α} {s : σ} {tr : List (Transition σ α)} {t : σ},
      runActions step acts s = some (tr, t) → Exec step s tr t
  | [], s, tr, t, h => by
      obtain ⟨rfl, rfl⟩ : [] = tr ∧ s = t := by simpa [runActions] using h
      exact .refl s
  | a :: as, s, tr, t, h => by
      simp only [runActions, Option.bind_eq_some_iff, Option.map_eq_some_iff] at h
      obtain ⟨m, hm, ⟨tr', u⟩, hrest, hout⟩ := h
      obtain ⟨rfl, rfl⟩ : ⟨s, a, m⟩ :: tr' = tr ∧ u = t := by simpa using hout
      exact (Exec.single hm).trans (exec_of_runActions hrest)

/-- The transitions of a list of actions that runs to completion. -/
def runOf (step : α → σ → Option σ) (acts : List α) (s : σ)
    (h : (runActions step acts s).isSome) : List (Transition σ α) :=
  ((runActions step acts s).get h).1

/-- The state a list of actions that runs to completion ends in. -/
def endOf (step : α → σ → Option σ) (acts : List α) (s : σ)
    (h : (runActions step acts s).isSome) : σ :=
  ((runActions step acts s).get h).2

theorem exec_runOf {step : α → σ → Option σ} {acts : List α} {s : σ}
    (h : (runActions step acts s).isSome) :
    Exec step s (runOf step acts s h) (endOf step acts s h) :=
  exec_of_runActions (Option.some_get h).symm

end KernelDev.Lib
