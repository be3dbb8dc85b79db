/-
# KernelDev.Lib.Traversal — loops that follow a link

A loop walks from a head along a link field until it is back at the head; its body works on a state
that holds the links and may leave the loop. In the plain loop the link of the current node is read
after the body; in the safe loop it has been read before, so the body may destroy the node.

`foldUntil` is what such a loop is meant to compute from the nodes on the way. The loops run on
fuel. `forEach_eq` and `forEachSafe_eq` are their invariant rules: an invariant over the nodes still
to come, which says where the links of those nodes lead, makes the loop terminate and agree with
`foldUntil`.
-/
import Mathlib.Data.List.Basic

namespace KernelDev.Lib

variable {α σ : Type*}

/-- A body over the elements of a list, until it leaves the loop (`false`). -/
def foldUntil (body : α → σ → σ × Bool) : List α → σ → σ
  | [], s => s
  | x :: xs, s => if (body x s).2 then foldUntil body xs (body x s).1 else (body x s).1

section
variable {body : α → σ → σ × Bool} {f : α → σ → σ} {s : σ} {xs : List α}

@[simp] theorem foldUntil_nil : foldUntil body [] s = s := rfl

theorem foldUntil_cons (x : α) : foldUntil body (x :: xs) s =
    if (body x s).2 then foldUntil body xs (body x s).1 else (body x s).1 := rfl

/-- A loop over the images of elements is a loop over the elements. -/
theorem foldUntil_map {β : Type*} {g : β → α} {ys : List β} :
    foldUntil body (ys.map g) s = foldUntil (fun y => body (g y)) ys s := by
  induction ys generalizing s with
  | nil => rfl
  | cons y ys ih => rw [List.map_cons, foldUntil_cons, foldUntil_cons, ih]

/-- A body that never leaves the loop is a fold. -/
theorem foldUntil_eq_foldl (h : ∀ x s, body x s = (f x s, true)) :
    foldUntil body xs s = xs.foldl (fun s x => f x s) s := by
  induction xs generalizing s with
  | nil => rfl
  | cons x xs ih =>
      rw [foldUntil_cons, h]
      exact ih

/-- A body that acts on the first element that passes a test, and leaves, is a search. -/
theorem foldUntil_eq_find? {p : α → Bool}
    (h : ∀ x ∈ xs, body x s = if p x then (f x s, false) else (s, true)) :
    foldUntil body xs s = match xs.find? p with
      | none => s
      | some x => f x s := by
  induction xs with
  | nil => rfl
  | cons x xs ih =>
      rw [foldUntil_cons, h x List.mem_cons_self]
      by_cases hp : p x
      · rw [List.find?_cons_of_pos hp, if_pos hp]
        rfl
      · rw [List.find?_cons_of_neg hp, if_neg hp]
        exact ih fun y hy => h y (List.mem_cons_of_mem x hy)

end

section
variable [DecidableEq α]

/-- `for (; pos != head; pos = pos->next) body`. -/
def forEachFrom (next : σ → α → α) (body : α → σ → σ × Bool) (head : α) :
    Nat → α → σ → Option σ
  | 0, _, _ => none
  | fuel + 1, pos, s =>
      if pos = head then some s
      else if (body pos s).2 then
        forEachFrom next body head fuel (next (body pos s).1 pos) (body pos s).1
      else some (body pos s).1

/-- `for (pos = head->next; pos != head; pos = pos->next) body`. -/
def forEach (next : σ → α → α) (body : α → σ → σ × Bool) (head : α) (fuel : Nat) (s : σ) :
    Option σ := forEachFrom next body head fuel (next s head) s

/-- `for (; pos != head; pos = n, n = n->next) body`. -/
def forEachSafeFrom (next : σ → α → α) (body : α → σ → σ × Bool) (head : α) :
    Nat → α → α → σ → Option σ
  | 0, _, _, _ => none
  | fuel + 1, pos, n, s =>
      if pos = head then some s
      else if (body pos s).2 then
        forEachSafeFrom next body head fuel n (next (body pos s).1 n) (body pos s).1
      else some (body pos s).1

/-- `for (pos = head->next, n = pos->next; pos != head; pos = n, n = n->next) body`. -/
def forEachSafe (next : σ → α → α) (body : α → σ → σ × Bool) (head : α) (fuel : Nat) (s : σ) :
    Option σ := forEachSafeFrom next body head fuel (next s head) (next s (next s head)) s

end

/-- The first of the nodes `xs`, or the head behind them. -/
def firstOf (head : α) : List α → α
  | [] => head
  | x :: _ => x

@[simp] theorem firstOf_nil (head : α) : firstOf head [] = head := rfl

@[simp] theorem firstOf_cons (head x : α) (xs : List α) : firstOf head (x :: xs) = x := rfl

variable [DecidableEq α]
variable {next : σ → α → α} {body : α → σ → σ × Bool} {head : α} {fuel : Nat} {s : σ} {xs : List α}

/-- **The invariant rule of the plain loop.** `I` speaks of the nodes still to come; the body at the
first of them leaves its link leading to the next. -/
theorem forEachFrom_eq {I : List α → σ → Prop}
    (hbody : ∀ x ys s, I (x :: ys) s → (body x s).2 = true →
      I ys (body x s).1 ∧ next (body x s).1 x = firstOf head ys)
    (hI : I xs s) (hhead : head ∉ xs) (hfuel : xs.length < fuel) :
    forEachFrom next body head fuel (firstOf head xs) s = some (foldUntil body xs s) := by
  induction xs generalizing fuel s with
  | nil =>
      cases fuel with
      | zero => exact absurd hfuel (Nat.not_lt_zero _)
      | succ fuel => exact if_pos rfl
  | cons x xs ih =>
      cases fuel with
      | zero => exact absurd hfuel (Nat.not_lt_zero _)
      | succ fuel =>
          have hx : x ≠ head := fun heq => hhead (heq ▸ List.mem_cons_self)
          rw [firstOf_cons, forEachFrom, if_neg hx, foldUntil_cons]
          by_cases hgo : (body x s).2 = true
          · obtain ⟨hI', hnext⟩ := hbody x xs s hI hgo
            rw [if_pos hgo, if_pos hgo, hnext]
            apply ih hI'
            · exact fun hmem => hhead (List.mem_cons_of_mem x hmem)
            · exact Nat.lt_of_succ_lt_succ hfuel
          · rw [if_neg hgo, if_neg hgo]

theorem forEach_eq {I : List α → σ → Prop}
    (hbody : ∀ x ys s, I (x :: ys) s → (body x s).2 = true →
      I ys (body x s).1 ∧ next (body x s).1 x = firstOf head ys)
    (hI : I xs s) (hfirst : next s head = firstOf head xs) (hhead : head ∉ xs)
    (hfuel : xs.length < fuel) :
    forEach next body head fuel s = some (foldUntil body xs s) := by
  rw [forEach, hfirst]
  exact forEachFrom_eq hbody hI hhead hfuel

/-- **The invariant rule of the safe loop.** Here `I` says where the link of the first node to come
leads, and the body may do anything to the node it is at. -/
theorem forEachSafeFrom_eq {I : List α → σ → Prop}
    (hnext : ∀ x ys s, I (x :: ys) s → next s x = firstOf head ys)
    (hbody : ∀ x ys s, I (x :: ys) s → (body x s).2 = true → I ys (body x s).1)
    (hI : I xs s) (hhead : head ∉ xs) (hfuel : xs.length < fuel) :
    forEachSafeFrom next body head fuel (firstOf head xs) (next s (firstOf head xs)) s =
      some (foldUntil body xs s) := by
  induction xs generalizing fuel s with
  | nil =>
      cases fuel with
      | zero => exact absurd hfuel (Nat.not_lt_zero _)
      | succ fuel => exact if_pos rfl
  | cons x xs ih =>
      cases fuel with
      | zero => exact absurd hfuel (Nat.not_lt_zero _)
      | succ fuel =>
          have hx : x ≠ head := fun heq => hhead (heq ▸ List.mem_cons_self)
          rw [firstOf_cons, forEachSafeFrom, if_neg hx, foldUntil_cons]
          by_cases hgo : (body x s).2 = true
          · -- the node after `x` was read before the body ran
            rw [if_pos hgo, if_pos hgo, hnext x xs s hI]
            apply ih (hbody x xs s hI hgo)
            · exact fun hmem => hhead (List.mem_cons_of_mem x hmem)
            · exact Nat.lt_of_succ_lt_succ hfuel
          · rw [if_neg hgo, if_neg hgo]

theorem forEachSafe_eq {I : List α → σ → Prop}
    (hnext : ∀ x ys s, I (x :: ys) s → next s x = firstOf head ys)
    (hbody : ∀ x ys s, I (x :: ys) s → (body x s).2 = true → I ys (body x s).1)
    (hI : I xs s) (hfirst : next s head = firstOf head xs) (hhead : head ∉ xs)
    (hfuel : xs.length < fuel) :
    forEachSafe next body head fuel s = some (foldUntil body xs s) := by
  rw [forEachSafe, hfirst]
  exact forEachSafeFrom_eq hnext hbody hI hhead hfuel

end KernelDev.Lib
