/-
# KernelDev.Lib.Membership — a list that stands for a set

Elements are added to the set and removed from it by requests, and what it should contain is decided
by the latest request for each element. The list answers a request to add by appending and a request
to remove by taking the first occurrence away, without looking whether the element is there.

`isExact_iff` says when the list is the set: exactly as long as nothing is added whose latest
request was to add it.
-/
import KernelDev.Lib.Execution
import Mathlib.Data.List.Nodup

namespace KernelDev.Lib

variable {α : Type*}

/-- A request to a set. -/
inductive SetRequest (α : Type*)
  | add (a : α)
  | remove (a : α)
  deriving DecidableEq, Repr

namespace SetRequest

def subject : SetRequest α → α
  | .add a => a
  | .remove a => a

def adds : SetRequest α → Bool
  | .add _ => true
  | .remove _ => false

variable [DecidableEq α]

/-- What a list does at a request that keeps no record of its elements. -/
def perform (xs : List α) : SetRequest α → List α
  | .add a => xs ++ [a]
  | .remove a => xs.erase a

end SetRequest

variable [DecidableEq α]

/-- The latest request for `a` is to add it. -/
def wanted (a : α) (reqs : List (SetRequest α)) : Bool :=
  reqs.foldl (fun w r => if r.subject = a then r.adds else w) false

/-- The list contains exactly what is wanted, each once. -/
structure IsExact (reqs : List (SetRequest α)) (xs : List α) : Prop where
  mem_iff : ∀ a, a ∈ xs ↔ wanted a reqs
  nodup : xs.Nodup

/-- The request adds nothing that is wanted already. -/
def Fresh (reqs : List (SetRequest α)) (r : SetRequest α) : Prop :=
  r.adds → wanted r.subject reqs = false

instance (reqs : List (SetRequest α)) (r : SetRequest α) : Decidable (Fresh reqs r) :=
  inferInstanceAs (Decidable (_ → _))

variable {reqs : List (SetRequest α)} {xs : List α} {a : α}

@[simp] theorem wanted_nil : wanted a [] = false := rfl

@[simp] theorem wanted_concat (r : SetRequest α) :
    wanted a (reqs ++ [r]) = if r.subject = a then r.adds else wanted a reqs := by
  simp [wanted]

theorem isExact_nil : IsExact ([] : List (SetRequest α)) [] := by
  constructor <;> simp

theorem isExact_iff_count :
    IsExact reqs xs ↔ ∀ a, xs.count a = if wanted a reqs then 1 else 0 := by
  constructor
  · intro h a
    rw [h.nodup.count]
    simp only [h.mem_iff a]
  · intro hcount
    refine ⟨fun a => ?_, List.nodup_iff_count_le_one.mpr fun a => ?_⟩
    · rw [← List.count_pos_iff, hcount a]
      split
      · next hw => simp [hw]
      · next hw => simp [hw]
    · rw [hcount a]
      split <;> simp

/-- **One request keeps the list exact exactly when it adds nothing that is wanted already.** -/
theorem IsExact.concat_iff (h : IsExact reqs xs) (r : SetRequest α) :
    IsExact (reqs ++ [r]) (r.perform xs) ↔ Fresh reqs r := by
  rw [isExact_iff_count]
  replace h := isExact_iff_count.mp h
  cases r with
  | add a =>
      -- only the count of `a` changes, by one
      have hcount : ∀ b, (SetRequest.perform xs (.add a)).count b =
          xs.count b + if a = b then 1 else 0 := by
        intro b
        simp [SetRequest.perform, List.count_singleton]
      constructor
      · intro hadded _
        have ha := hadded a
        rw [hcount, h a, wanted_concat] at ha
        simpa [SetRequest.subject, SetRequest.adds] using ha
      · intro hfresh b
        have ha : wanted a reqs = false := hfresh rfl
        rw [hcount, h b, wanted_concat]
        by_cases hab : a = b
        · subst hab
          simp [SetRequest.subject, SetRequest.adds, ha]
        · simp [SetRequest.subject, hab]
  | remove a =>
      refine iff_of_true (fun b => ?_) (fun hadds => by cases hadds)
      rw [wanted_concat]
      show (xs.erase a).count b = _
      by_cases hab : a = b
      · subst hab
        rw [List.count_erase_self, h a]
        simp only [SetRequest.subject, SetRequest.adds]
        split <;> simp
      · rw [List.count_erase_of_ne (Ne.symm hab), h b]
        simp [SetRequest.subject, hab]

/-- None of the requests adds what is wanted already when it comes. -/
def EachFresh (reqs : List (SetRequest α)) : Prop :=
  ∀ before r after, reqs = before ++ r :: after → Fresh before r

theorem eachFresh_nil : EachFresh ([] : List (SetRequest α)) := by
  intro before r after h
  simp at h

theorem eachFresh_concat_iff {r : SetRequest α} :
    EachFresh (reqs ++ [r]) ↔ EachFresh reqs ∧ Fresh reqs r := by
  constructor
  · intro h
    refine ⟨fun before x after hreqs => ?_, h reqs r [] rfl⟩
    exact h before x (after ++ [r]) (by rw [hreqs, List.append_assoc, List.cons_append])
  · rintro ⟨hreqs, hr⟩ before x after h
    rcases List.eq_nil_or_concat' after with rfl | ⟨after', y, rfl⟩
    · obtain ⟨rfl, hx⟩ := List.append_inj' h rfl
      rwa [← List.singleton_inj.mp hx]
    · rw [← List.cons_append, ← List.append_assoc] at h
      exact hreqs before x after' (List.append_inj' h rfl).1

/-- **The list is exact after each request exactly when each of them adds nothing that is wanted
already.** -/
theorem isExact_prefixes_iff :
    (∀ before, before <+: reqs → IsExact before (before.foldl SetRequest.perform [])) ↔
      EachFresh reqs := by
  induction reqs using List.reverseRecOn with
  | nil =>
      refine iff_of_true (fun before hpre => ?_) eachFresh_nil
      rw [List.prefix_nil.mp hpre]
      exact isExact_nil
  | append_singleton reqs r ih =>
      rw [eachFresh_concat_iff, ← ih]
      simp only [List.prefix_concat_iff]
      constructor
      · intro h
        have hreqs : ∀ before, before <+: reqs →
            IsExact before (before.foldl SetRequest.perform []) := fun before hpre =>
          h before (.inr hpre)
        have hlast := h (reqs ++ [r]) (.inl rfl)
        rw [List.foldl_concat] at hlast
        exact ⟨hreqs, ((hreqs reqs (List.prefix_refl reqs)).concat_iff r).mp hlast⟩
      · rintro ⟨hreqs, hr⟩ before (rfl | hpre)
        · rw [List.foldl_concat]
          exact ((hreqs reqs (List.prefix_refl reqs)).concat_iff r).mpr hr
        · exact hreqs before hpre

end KernelDev.Lib
