/-
# KernelDev.Lists.Records — records on a list, each with the list head embedded in it

A module that keeps its records on a list has a `struct list_head` of its own for the head of the
list and one more embedded in every record, which lies in a slab. Records are numbered in the order
they are handed out, and a record that is freed may be filled with anything.

`Holds` says which records the links hold. It is kept by linking a record in at the end, by
unlinking one and freeing it, and by anything that is written to links of records that are not on
the list.
-/
import KernelDev.Lists.ForEach

namespace KernelDev.Lists

open KernelDev.Lib

/-- A `struct list_head *`. -/
inductive Node
  | head
  | entry (a : Nat)
  | poison1
  | poison2
  deriving DecidableEq, Repr

/-- `container_of(ptr, struct .., list)`. It is arithmetic and gives an address for any link; only
for an entry is it the address of a record. -/
def Node.container : Node → Nat
  | .entry a => a
  | _ => 0

/-- The links hold the records `xs` in order. -/
def Holds (links : Links Node) (xs : List Nat) : Prop := Ring links .head (xs.map .entry)

/-- `list_del` of a record that is freed then; its links are left with `junk`. -/
def freeEntry (junk : Link Node) (a : Nat) (links : Links Node) : Links Node :=
  Function.update (listDel .poison1 .poison2 (.entry a) links) (.entry a) junk

section
variable {σ : Type*} (links : σ → Links Node) (body : Nat → σ → σ × Bool)

/-- `list_for_each_entry_safe(i, temp, &head, list)`. -/
def forEachEntry (fuel : Nat) (s : σ) : Option σ :=
  listForEachSafe links (fun n => body n.container) .head fuel s

end

variable {links : Links Node} {xs : List Nat} {a d : Nat} {junk l : Link Node}

/-! ## What keeps the records -/

theorem Holds.nodup (h : Holds links xs) : xs.Nodup := h.entries_nodup.of_map Node.entry

theorem entry_notMem (h : a ∉ xs) : Node.entry a ∉ Node.head :: xs.map .entry := by simpa using h

theorem holds_initListHead (links : Links Node) : Holds (initListHead .head links) [] :=
  ring_initListHead

/-- The links of a record that is not on the list. -/
theorem Holds.update (h : Holds links xs) (ha : a ∉ xs) :
    Holds (Function.update links (.entry a) l) xs := by
  refine h.congr ?_
  intro y hy
  apply Function.update_of_ne
  rintro rfl
  exact entry_notMem ha hy

/-- `INIT_LIST_HEAD` of a fresh record. -/
theorem Holds.initEntry (h : Holds links xs) (ha : a ∉ xs) :
    Holds (initListHead (.entry a) links) xs := by
  refine h.congr ?_
  intro y hy
  apply initListHead_other
  rintro rfl
  exact entry_notMem ha hy

theorem Holds.addTail (h : Holds links xs) (ha : a ∉ xs) :
    Holds (listAddTail (.entry a) .head links) (xs ++ [a]) := by
  show Ring _ Node.head ((xs ++ [a]).map .entry)
  rw [List.map_append]
  exact ring_listAddTail h (entry_notMem ha)

theorem Holds.freeEntry (h : Holds links xs) (hd : d ∈ xs) :
    Holds (freeEntry junk d links) (xs.erase d) := by
  have hnd := h.nodup
  obtain ⟨ys, zs, rfl⟩ := List.append_of_mem hd
  have hdy : d ∉ ys := by
    intro hmem
    exact (List.nodup_append.mp hnd).2.2 d hmem d List.mem_cons_self rfl
  have h' : Ring links .head (ys.map .entry ++ .entry d :: zs.map .entry) := by
    have hring : Ring links .head ((ys ++ d :: zs).map .entry) := h
    rwa [List.map_append, List.map_cons] at hring
  rw [List.erase_append_right _ hdy, List.erase_cons_head]
  have hdel : Ring (listDel .poison1 .poison2 (.entry d) links) .head
      ((ys ++ zs).map .entry) := by
    rw [List.map_append]
    exact ring_listDel h'
  refine hdel.congr ?_
  intro y hy
  apply Function.update_of_ne
  rw [List.map_append] at hy
  exact h'.ne_entry hy

/-! ## Where the links lead -/

/-- The head leads to the first record. -/
theorem Holds.head_next (h : Holds links xs) :
    (links .head).next = firstOf .head (xs.map .entry) := ring_head_next h

/-- A record leads to the next. -/
theorem Holds.entry_next {ys zs : List Nat} (h : Holds links (ys ++ a :: zs)) :
    (links (.entry a)).next = firstOf .head (zs.map .entry) := by
  have hring : Ring links .head ((ys ++ a :: zs).map .entry) := h
  rw [List.map_append, List.map_cons] at hring
  exact ring_entry_next hring

/-! ## Loops over the records -/

section
variable {σ : Type*} {view : σ → Links Node} {body : Nat → σ → σ × Bool} {s : σ} {fuel : Nat}

variable (view) in
/-- A loop that frees nothing before it leaves runs its body over the records. -/
theorem forEachEntry_eq (hbody : ∀ i s, (body i s).2 = true → view (body i s).1 = view s)
    (h : Holds (view s) xs) (hfuel : xs.length < fuel) :
    forEachEntry view body fuel s = some (foldUntil body xs s) := by
  have hkeep : ∀ x ys s, (x :: ys) <:+ xs.map Node.entry → (body x.container s).2 = true →
      ∀ y ∈ ys, (view (body x.container s).1 y).next = (view s y).next := by
    intro x ys s _ hgo y _
    rw [hbody x.container s hgo]
  have hfuel' : (xs.map Node.entry).length < fuel := by
    rw [List.length_map]
    exact hfuel
  rw [forEachEntry, listForEachSafe_eq view (fun n => body n.container) hkeep h hfuel',
    foldUntil_map]
  rfl

variable (view) in
/-- A loop that frees every record goes over all of them and leaves an empty list. -/
theorem forEachEntry_drain (free : Nat → σ → σ) (junk : Nat → Link Node)
    (hfree : ∀ i s, view (free i s) = freeEntry (junk i) i (view s)) (h : Holds (view s) xs)
    (hfuel : xs.length < fuel) :
    forEachEntry view (fun i s => (free i s, true)) fuel s =
        some (xs.foldl (fun s i => free i s) s) ∧
      Holds (view (xs.foldl (fun s i => free i s) s)) [] := by
  have hfree' : ∀ x ∈ xs.map Node.entry, ∀ s, ∀ y ≠ x,
      view (free x.container s) y = listDel .poison1 .poison2 x (view s) y := by
    intro x hx s y hy
    obtain ⟨i, _, rfl⟩ := List.mem_map.mp hx
    show view (free i s) y = _
    rw [hfree]
    exact Function.update_of_ne hy _ _
  have hfuel' : (xs.map Node.entry).length < fuel := by
    rw [List.length_map]
    exact hfuel
  have hdrain := listForEachSafe_drain view (fun n s => free n.container s) hfree' h hfuel'
  rw [List.foldl_map] at hdrain
  exact hdrain

end

end KernelDev.Lists
