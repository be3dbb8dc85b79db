/-
# KernelDev.Lists.ForEach — the iteration macros of `list.h`

The loops run over a state that holds the links. `list_for_each_entry*` are these loops with the
body put behind `container_of`.

A body that leaves the links alone sees the entries in order, or in reverse order when the loop goes
backwards. In the safe loops a body may take entries out as well: all that is asked of it is that
the forward links of the entries to come stay as they are, so it may unlink the entry it is at and
free it, whatever is written to the freed memory afterwards.

`history_walked` puts the operations and the loops together: whatever the calls made before, a walk
of a list shows the entries its calls put there.
-/
import KernelDev.Lib.Traversal
import KernelDev.Lists.Family

namespace KernelDev.Lists

open KernelDev.Lib

variable {α σ : Type*} [DecidableEq α]

/-! ## The macros -/

section
variable (links : σ → Links α) (body : α → σ → σ × Bool) (head : α) (fuel : Nat) (s : σ)

/-- `list_for_each`. -/
def listForEach : Option σ := forEach (fun s a => (links s a).next) body head fuel s

/-- `list_for_each_prev`. -/
def listForEachPrev : Option σ := forEach (fun s a => (links s a).prev) body head fuel s

/-- `list_for_each_safe`. -/
def listForEachSafe : Option σ := forEachSafe (fun s a => (links s a).next) body head fuel s

/-- `list_for_each_prev_safe`. -/
def listForEachPrevSafe : Option σ := forEachSafe (fun s a => (links s a).prev) body head fuel s

end

/-! ## Where the links of a ring lead -/

section
omit [DecidableEq α]
variable {m m' : Links α} {p x : α} {xs ys : List α}

theorem ring_head_next (h : Ring m p xs) : (m p).next = firstOf p xs := by
  cases xs with
  | nil => exact h.next_nil
  | cons x xs => exact h.next_cons

theorem ring_entry_next (h : Ring m p (ys ++ x :: xs)) : (m x).next = firstOf p xs := by
  have hseg := (seg_append_cons.mp h.seg).2
  cases xs with
  | nil => exact hseg.1
  | cons y xs => exact hseg.1.1

end

/-! ## Loops whose body leaves the links alone -/

section
variable {links : σ → Links α} {body : α → σ → σ × Bool} {p : α} {fuel : Nat} {s : σ} {xs : List α}

omit [DecidableEq α] in
/-- The entries to come, and the links of the ring they are on. -/
private theorem readOnly_step (hbody : ∀ x s, links (body x s).1 = links s) {x : α} {ys : List α}
    {s : σ} (h : Ring (links s) p xs ∧ (x :: ys) <:+ xs) :
    (Ring (links (body x s).1) p xs ∧ ys <:+ xs) ∧ (links (body x s).1 x).next = firstOf p ys := by
  rw [hbody]
  obtain ⟨hring, zs, rfl⟩ := h
  exact ⟨⟨hring, (List.suffix_cons x ys).trans (List.suffix_append zs _)⟩, ring_entry_next hring⟩

theorem listForEach_eq (hbody : ∀ x s, links (body x s).1 = links s) (h : Ring (links s) p xs)
    (hfuel : xs.length < fuel) :
    listForEach links body p fuel s = some (foldUntil body xs s) := by
  refine forEach_eq (I := fun ys s => Ring (links s) p xs ∧ ys <:+ xs) ?_ ⟨h, List.suffix_rfl⟩
    (ring_head_next h) h.head_notMem hfuel
  intro x ys s hI _
  exact readOnly_step hbody hI

theorem listForEachPrev_eq (hbody : ∀ x s, links (body x s).1 = links s) (h : Ring (links s) p xs)
    (hfuel : xs.length < fuel) :
    listForEachPrev links body p fuel s = some (foldUntil body xs.reverse s) := by
  -- the loop is the forward loop over the links exchanged
  let swapped : σ → Links α := fun s y => ⟨(links s y).prev, (links s y).next⟩
  have hswapped : ∀ x s, swapped (body x s).1 = swapped s := by
    intro x s
    show (fun y => (⟨(links (body x s).1 y).prev, (links (body x s).1 y).next⟩ : Link α)) = _
    rw [hbody]
  have hfuel' : xs.reverse.length < fuel := by
    rw [List.length_reverse]
    exact hfuel
  exact listForEach_eq hswapped h.reverse hfuel'

/-! ## Loops whose body may take out the entry it is at -/

/-- The safe loop shows its body the entries the list had at the start, in order, as long as the
body at an entry does not change the forward links of the entries after it. -/
theorem listForEachSafe_eq (links : σ → Links α) (body : α → σ → σ × Bool)
    (hbody : ∀ x ys s, (x :: ys) <:+ xs → (body x s).2 = true →
      ∀ y ∈ ys, (links (body x s).1 y).next = (links s y).next)
    (h : Ring (links s) p xs) (hfuel : xs.length < fuel) :
    listForEachSafe links body p fuel s = some (foldUntil body xs s) := by
  refine forEachSafe_eq
    (I := fun ys t => ys <:+ xs ∧ ∀ y ∈ ys, (links t y).next = (links s y).next)
    ?_ ?_ ⟨List.suffix_rfl, fun _ _ => rfl⟩ (ring_head_next h) h.head_notMem hfuel
  · rintro x ys t ⟨⟨zs, rfl⟩, hkeep⟩
    show (links t x).next = _
    rw [hkeep x List.mem_cons_self]
    exact ring_entry_next h
  · rintro x ys t ⟨hsuf, hkeep⟩ hgo
    refine ⟨(List.suffix_cons x ys).trans hsuf, ?_⟩
    intro y hy
    rw [hbody x ys t hsuf hgo y hy]
    exact hkeep y (List.mem_cons_of_mem x hy)

/-- **Freeing a whole list.** The body unlinks the entry it is at and frees it: what the links of a
freed entry hold afterwards is arbitrary. The loop frees exactly the entries, each once and in
order, follows no link of a freed one, and leaves the head an empty list. -/
theorem listForEachSafe_drain (links : σ → Links α) {poison1 poison2 : α} (free : α → σ → σ)
    (hfree : ∀ x ∈ xs, ∀ s, ∀ y ≠ x, links (free x s) y = listDel poison1 poison2 x (links s) y)
    (h : Ring (links s) p xs) (hfuel : xs.length < fuel) :
    listForEachSafe links (fun x s => (free x s, true)) p fuel s =
        some (xs.foldl (fun s x => free x s) s) ∧
      Ring (links (xs.foldl (fun s x => free x s) s)) p [] := by
  have hstep : ∀ x ∈ xs, ∀ ys s, Ring (links s) p (x :: ys) → Ring (links (free x s)) p ys := by
    intro x hx ys s h
    have hdel : Ring (listDel poison1 poison2 x (links s)) p ([] ++ ys) := ring_listDel h
    refine hdel.congr ?_
    intro y hy
    have hentry : Ring (links s) p ([] ++ x :: ys) := h
    exact hfree x hx s y (hentry.ne_entry hy)
  constructor
  · -- what is left of the list is a ring at every moment
    have hfold : xs.foldl (fun s x => free x s) s = foldUntil (fun x s => (free x s, true)) xs s :=
      (foldUntil_eq_foldl fun _ _ => rfl).symm
    rw [hfold]
    refine forEachSafe_eq (I := fun ys s => ys <:+ xs ∧ Ring (links s) p ys) ?_ ?_
      ⟨List.suffix_rfl, h⟩ (ring_head_next h) h.head_notMem hfuel
    · intro x ys s hI
      have hentry : Ring (links s) p ([] ++ x :: ys) := hI.2
      exact ring_entry_next hentry
    · intro x ys s hI _
      have hx : x ∈ xs := hI.1.subset List.mem_cons_self
      exact ⟨(List.suffix_cons x ys).trans hI.1, hstep x hx ys s hI.2⟩
  · clear hfuel hfree
    induction xs generalizing s with
    | nil => exact h
    | cons x xs ih =>
        apply ih (hstep x List.mem_cons_self xs s h)
        intro y hy
        exact hstep y (List.mem_cons_of_mem x hy)

end

/-! ## Histories of calls -/

/-- The calls made one after the other and the families they promise. -/
inductive History : Family α → List (Op α) → Family α → Prop
  | nil (F : Family α) : History F [] F
  | snoc {F F₁ F' : Family α} {ops : List (Op α)} {op : Op α} (h : History F ops F₁)
      (hop : Promise F₁ op F') : History F (ops ++ [op]) F'

/-- The memory after the calls. -/
def runOps (poison1 poison2 : α) (ops : List (Op α)) (m : Links α) : Links α :=
  ops.foldl (fun m op => op.run poison1 poison2 m) m

variable {poison1 poison2 : α} {m : Links α} {ops : List (Op α)} {F F' : Family α}

theorem history_kept (h : History F ops F') (hm : Represents m F) :
    Represents (runOps poison1 poison2 ops m) F' := by
  induction h with
  | nil => exact hm
  | snoc _ hop ih =>
      rw [runOps, List.foldl_append]
      exact promise_kept hop ih

/-- A walk that writes down the nodes it is shown. -/
def visit (x : α) (s : Links α × List α) : (Links α × List α) × Bool := ((s.1, s.2 ++ [x]), true)

omit [DecidableEq α] in
theorem foldUntil_visit {xs ys : List α} : foldUntil visit xs (m, ys) = (m, ys ++ xs) := by
  induction xs generalizing ys with
  | nil => rw [foldUntil_nil, List.append_nil]
  | cons x xs ih =>
      show foldUntil visit xs (m, ys ++ [x]) = _
      rw [ih, List.append_assoc, List.singleton_append]

/-- **What the operations and the loops of `list.h` do together.** Calls are made one after the
other on any number of lists in one memory, which starts uninitialised and to whose other parts
anyone writes in between. After calls that promise the family `F`, for every list of `F`: a walk
shows its entries in order, a walk backwards shows them in reverse, both end, and the tests of an
empty list, of a list with one entry and of a last entry answer for these entries. -/
theorem history_walked (poison1 poison2 : α) (m₀ : Links α) (h : History [] ops F) (p : α)
    (xs : List α) (hF : (p, xs) ∈ F) (fuel : Nat) (hfuel : xs.length < fuel) :
    let m := runOps poison1 poison2 ops m₀
    listForEach Prod.fst visit p fuel (m, []) = some (m, xs) ∧
    listForEachPrev Prod.fst visit p fuel (m, []) = some (m, xs.reverse) ∧
    (listEmpty p m = true ↔ xs = []) ∧ (listEmptyCareful p m = true ↔ xs = []) ∧
    (listIsSingular p m = true ↔ xs.length = 1) ∧
    ∀ x ∈ xs, (listIsLast x p m = true ↔ xs.getLast? = some x) := by
  have hrep : Represents (runOps poison1 poison2 ops m₀) F :=
    history_kept h ⟨List.nodup_nil, by simp⟩
  have hring : Ring (runOps poison1 poison2 ops m₀) p xs := hrep.ring _ hF
  refine ⟨?_, ?_, listEmpty_iff hring, listEmptyCareful_iff hring, listIsSingular_iff hring, ?_⟩
  · rw [listForEach_eq (s := (_, [])) (fun _ _ => rfl) hring hfuel, foldUntil_visit,
      List.nil_append]
  · rw [listForEachPrev_eq (s := (_, [])) (fun _ _ => rfl) hring hfuel, foldUntil_visit,
      List.nil_append]
  · intro x hx
    exact listIsLast_iff hring hx

/-- A list of two entries is spliced into another list, and its last entry moved to the front. -/
def spliced : List (Op Nat) :=
  [.init 0, .addTail 1 0, .addTail 2 0, .init 9, .spliceTailInit 0 9, .move 2 9]

theorem spliced_history : History [] spliced [(9, [2, 1]), (0, [])] := by
  have h₁ : History [] [.init 0] [(0, [])] := .snoc (.nil []) (.init (by simp))
  have h₂ : History [] [.init 0, .addTail 1 0] [(0, [] ++ [1])] := h₁.snoc (.addTail (by simp))
  have h₃ : History [] [.init 0, .addTail 1 0, .addTail 2 0] [(0, [1] ++ [2])] :=
    h₂.snoc (.addTail (by simp))
  have h₄ : History [] [.init 0, .addTail 1 0, .addTail 2 0, .init 9] [(9, []), (0, [1, 2])] :=
    h₃.snoc (.init (by simp))
  have hsplice : Promise [(9, []), (0, [1, 2])] (.spliceTailInit 0 9) [(9, [1, 2]), (0, [])] :=
    .reads (.sub (List.Perm.swap _ _ _).subperm) .spliceTailInit (.sub (List.Subperm.refl _))
  have hmove : Promise [(9, [1] ++ 2 :: []), (0, [])] (.move 2 9)
      [(9, 2 :: ([1] ++ [])), (0, [])] :=
    .moveWithin
  exact (h₄.snoc hsplice).snoc hmove

/-- Memory before any of it is initialised. -/
def uninitialised : Links Nat := fun _ => ⟨7, 7⟩

theorem history_walked_spliced :
    listForEach Prod.fst visit 9 3 (runOps 100 101 spliced uninitialised, []) =
      some (runOps 100 101 spliced uninitialised, [2, 1]) :=
  (history_walked 100 101 uninitialised spliced_history 9 [2, 1] (by simp) 3 (by decide)).1

end KernelDev.Lists
