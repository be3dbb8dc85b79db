/-
# KernelDev.Lists.Family — any number of lists in one memory

A program keeps several lists whose nodes lie in one memory, next to memory that is nobody's. A
family accounts for them: each list by its head and its entries, no node in two places.
`Promise F op F'` is what the comments of `list.h` promise of a call, family by family: where the
new entry goes, what is left of the list an entry is taken from, what becomes of the emptied list.

`promise_kept` says that the pointer code keeps every promise, and `history_kept` that it does so
along any sequence of calls from any initial memory, other code writing freely to memory outside the
lists in between.
-/
import KernelDev.Lists.ListHead
import Mathlib.Data.List.Flatten
import Mathlib.Data.List.Perm.Subperm

namespace KernelDev.Lists

open KernelDev.Lib

variable {α : Type*}

/-- The lists of a program, each as its head and its entries. -/
abbrev Family (α : Type*) := List (α × List α)

/-- All nodes: the heads and the entries. -/
def Family.nodes (F : Family α) : List α := F.flatMap fun l => l.1 :: l.2

@[simp] theorem nodes_nil : Family.nodes ([] : Family α) = [] := rfl

@[simp] theorem nodes_cons (l : α × List α) (F : Family α) :
    Family.nodes (l :: F) = l.1 :: l.2 ++ Family.nodes F := rfl

@[simp] theorem nodes_append (F G : Family α) :
    Family.nodes (F ++ G) = Family.nodes F ++ Family.nodes G := List.flatMap_append

/-- The memory holds the lists of the family. -/
structure Represents (m : Links α) (F : Family α) : Prop where
  nodup : F.nodes.Nodup
  ring : ∀ l ∈ F, Ring m l.1 l.2

/-- Another account of the lists of `F`: in another order, without lists no longer of interest, or
with a list read from one of its entries. -/
inductive Reads : Family α → Family α → Prop
  | sub {F F' : Family α} (h : F'.Subperm F) : Reads F F'
  | entry (p a : α) (xs ys : List α) (G : Family α) :
      Reads ((p, xs ++ a :: ys) :: G) ((a, ys ++ p :: xs) :: G)

variable [DecidableEq α]

/-! ## The calls and what they promise -/

/-- A call of a function of `list.h`, or a store by other code. -/
inductive Op (α : Type*)
  | init (list : α)
  | add (new head : α)
  | addTail (new head : α)
  | del (entry : α)
  | delInit (entry : α)
  | replace (old new : α)
  | replaceInit (old new : α)
  | move (list head : α)
  | moveTail (list head : α)
  | rotateLeft (head : α)
  | cutPosition (list head entry : α)
  | splice (list head : α)
  | spliceTail (list head : α)
  | spliceInit (list head : α)
  | spliceTailInit (list head : α)
  | delRange (begin end_ : α)
  | write (a : α) (l : Link α)

/-- What the call does to the memory. -/
def Op.run (poison1 poison2 : α) : Op α → Links α → Links α
  | .init list => initListHead list
  | .add new head => listAdd new head
  | .addTail new head => listAddTail new head
  | .del entry => listDel poison1 poison2 entry
  | .delInit entry => listDelInit entry
  | .replace old new => listReplace old new
  | .replaceInit old new => listReplaceInit old new
  | .move list head => listMove list head
  | .moveTail list head => listMoveTail list head
  | .rotateLeft head => listRotateLeft head
  | .cutPosition list head entry => listCutPosition list head entry
  | .splice list head => listSplice list head
  | .spliceTail list head => listSpliceTail list head
  | .spliceInit list head => listSpliceInit list head
  | .spliceTailInit list head => listSpliceTailInit list head
  | .delRange begin end_ => listDelRange begin end_
  | .write a l => fun m => Function.update m a l

section
omit [DecidableEq α]

/-- What a call promises. A list may be accounted for from any of its entries before the call and
after it (`reads`), so that adding behind an entry is adding to the list read from that entry. -/
inductive Promise : Family α → Op α → Family α → Prop
  | reads {F F₁ F₂ F' : Family α} {op : Op α} (before : Reads F F₁) (h : Promise F₁ op F₂)
      (after : Reads F₂ F') : Promise F op F'
  | init {F : Family α} {n : α} (hn : n ∉ F.nodes) : Promise F (.init n) ((n, []) :: F)
  | add {p n : α} {xs : List α} {G : Family α} (hn : n ∉ Family.nodes ((p, xs) :: G)) :
      Promise ((p, xs) :: G) (.add n p) ((p, n :: xs) :: G)
  | addTail {p n : α} {xs : List α} {G : Family α} (hn : n ∉ Family.nodes ((p, xs) :: G)) :
      Promise ((p, xs) :: G) (.addTail n p) ((p, xs ++ [n]) :: G)
  | del {p e : α} {xs ys : List α} {G : Family α} :
      Promise ((p, xs ++ e :: ys) :: G) (.del e) ((p, xs ++ ys) :: G)
  | delInit {p e : α} {xs ys : List α} {G : Family α} :
      Promise ((p, xs ++ e :: ys) :: G) (.delInit e) ((p, xs ++ ys) :: (e, []) :: G)
  | replace {p n : α} {xs : List α} {G : Family α} (hn : n ∉ Family.nodes ((p, xs) :: G)) :
      Promise ((p, xs) :: G) (.replace p n) ((n, xs) :: G)
  | replaceInit {p n : α} {xs : List α} {G : Family α} (hn : n ∉ Family.nodes ((p, xs) :: G)) :
      Promise ((p, xs) :: G) (.replaceInit p n) ((n, xs) :: (p, []) :: G)
  | moveWithin {p e : α} {xs ys : List α} {G : Family α} :
      Promise ((p, xs ++ e :: ys) :: G) (.move e p) ((p, e :: (xs ++ ys)) :: G)
  | move {p q e : α} {xs ys zs : List α} {G : Family α} :
      Promise ((p, xs ++ e :: ys) :: (q, zs) :: G) (.move e q) ((p, xs ++ ys) :: (q, e :: zs) :: G)
  | moveTailWithin {p e : α} {xs ys : List α} {G : Family α} :
      Promise ((p, xs ++ e :: ys) :: G) (.moveTail e p) ((p, xs ++ ys ++ [e]) :: G)
  | moveTail {p q e : α} {xs ys zs : List α} {G : Family α} :
      Promise ((p, xs ++ e :: ys) :: (q, zs) :: G) (.moveTail e q)
        ((p, xs ++ ys) :: (q, zs ++ [e]) :: G)
  | rotateLeft {p : α} {xs : List α} {G : Family α} :
      Promise ((p, xs) :: G) (.rotateLeft p) ((p, xs.rotate 1) :: G)
  | cut {l p e : α} {xs ys : List α} {G : Family α}
      (hl : l ∉ Family.nodes ((p, xs ++ e :: ys) :: G)) :
      Promise ((p, xs ++ e :: ys) :: G) (.cutPosition l p e) ((l, xs ++ [e]) :: (p, ys) :: G)
  | cutHead {l p x : α} {xs : List α} {G : Family α}
      (hl : l ∉ Family.nodes ((p, x :: xs) :: G)) :
      Promise ((p, x :: xs) :: G) (.cutPosition l p p) ((l, []) :: (p, x :: xs) :: G)
  | cutEmpty {l p e : α} {G : Family α} :
      Promise ((p, []) :: G) (.cutPosition l p e) ((p, []) :: G)
  | cutForeign {l p e x : α} {G : Family α} (he : e ≠ x) (hp : e ≠ p) :
      Promise ((p, [x]) :: G) (.cutPosition l p e) ((p, [x]) :: G)
  | splice {l p : α} {xs ys : List α} {G : Family α} :
      Promise ((l, xs) :: (p, ys) :: G) (.splice l p) ((p, xs ++ ys) :: G)
  | spliceTail {l p : α} {xs ys : List α} {G : Family α} :
      Promise ((l, xs) :: (p, ys) :: G) (.spliceTail l p) ((p, ys ++ xs) :: G)
  | spliceInit {l p : α} {xs ys : List α} {G : Family α} :
      Promise ((l, xs) :: (p, ys) :: G) (.spliceInit l p) ((p, xs ++ ys) :: (l, []) :: G)
  | spliceTailInit {l p : α} {xs ys : List α} {G : Family α} :
      Promise ((l, xs) :: (p, ys) :: G) (.spliceTailInit l p) ((p, ys ++ xs) :: (l, []) :: G)
  | delRange {p b e : α} {xs ys zs : List α} {G : Family α} (hb : (zs ++ [e]).head? = some b) :
      Promise ((p, xs ++ (zs ++ e :: ys)) :: G) (.delRange b e) ((p, xs ++ ys) :: G)
  | write {F : Family α} {a : α} {l : Link α} (ha : a ∉ F.nodes) : Promise F (.write a l) F

end

/-! ## Accounts -/

section
omit [DecidableEq α]
variable {m m' : Links α} {F F' G : Family α}

theorem Represents.head {p : α} {xs : List α} (h : Represents m ((p, xs) :: G)) : Ring m p xs :=
  h.ring (p, xs) List.mem_cons_self

theorem Represents.second {p q : α} {xs zs : List α}
    (h : Represents m ((q, zs) :: (p, xs) :: G)) : Ring m p xs :=
  h.ring (p, xs) (List.mem_cons_of_mem _ List.mem_cons_self)

theorem Represents.disjoint {p q : α} {xs zs : List α}
    (h : Represents m ((q, zs) :: (p, xs) :: G)) : List.Disjoint (q :: zs) (p :: xs) := by
  have hnd := h.nodup
  rw [nodes_cons, nodes_cons] at hnd
  intro y hy hy'
  exact (List.nodup_append.mp hnd).2.2 y hy y (List.mem_append_left _ hy') rfl

/-- What is not on a list may change. -/
theorem Represents.congr (h : Represents m F) (hm : ∀ y ∈ Family.nodes F, m' y = m y) :
    Represents m' F := by
  refine ⟨h.nodup, ?_⟩
  intro l hl
  refine (h.ring l hl).congr ?_
  intro y hy
  exact hm y (List.mem_flatMap.mpr ⟨l, hl, hy⟩)

theorem Represents.reads (h : Represents m F) (hr : Reads F F') : Represents m F' := by
  cases hr with
  | sub hsub =>
      constructor
      · obtain ⟨F₁, hperm, hsub⟩ := hsub
        have hnd : (Family.nodes F₁).Nodup := h.nodup.sublist (hsub.flatMap _)
        exact (hperm.flatMap_right _).nodup_iff.mp hnd
      · intro l hl
        exact h.ring l (hsub.subset hl)
  | entry p a xs ys G =>
      constructor
      · have hperm : (p :: (xs ++ a :: ys) ++ Family.nodes G).Perm
            (a :: (ys ++ p :: xs) ++ Family.nodes G) := by
          apply List.Perm.append_right
          show (p :: xs ++ a :: ys).Perm (a :: ys ++ p :: xs)
          exact List.perm_append_comm
        exact hperm.nodup_iff.mp h.nodup
      · intro l hl
        rcases List.mem_cons.mp hl with rfl | hl
        · exact ring_rotate.mp (h.ring _ List.mem_cons_self)
        · exact h.ring l (List.mem_cons_of_mem _ hl)

/-- **The frame rule of families.** The lists `rs` are rebuilt as `rs'` from their own nodes and the
nodes `fresh`, which were on no list, and no other link changes: the other lists are as they
were. -/
theorem Represents.rebuild (rs rs' : Family α) (fresh : List α) (h : Represents m (rs ++ G))
    (hfresh : fresh.Nodup) (hnew : ∀ n ∈ fresh, n ∉ Family.nodes (rs ++ G))
    (hnodes : (Family.nodes rs').Subperm (fresh ++ Family.nodes rs))
    (hring : ∀ l ∈ rs', Ring m' l.1 l.2)
    (hother : ∀ y, y ∉ fresh → y ∉ Family.nodes rs → m' y = m y) : Represents m' (rs' ++ G) := by
  rw [nodes_append] at hnew
  have hnd := h.nodup
  rw [nodes_append] at hnd
  constructor
  · have hall : (fresh ++ (Family.nodes rs ++ Family.nodes G)).Nodup := by
      refine List.nodup_append.mpr ⟨hfresh, hnd, ?_⟩
      rintro n hn _ hy rfl
      exact hnew n hn hy
    rw [nodes_append]
    obtain ⟨ns, hperm, hsub⟩ := hnodes
    rw [← List.append_assoc] at hall
    have hns : (ns ++ Family.nodes G).Nodup := hall.sublist (hsub.append_right _)
    exact (hperm.append_right _).nodup_iff.mp hns
  · intro l hl
    rcases List.mem_append.mp hl with hl | hl
    · exact hring l hl
    · refine (h.ring l (List.mem_append_right rs hl)).congr ?_
      intro y hy
      have hyG : y ∈ Family.nodes G := List.mem_flatMap.mpr ⟨l, hl, hy⟩
      apply hother y
      · intro hyf
        exact hnew y hyf (List.mem_append_right _ hyG)
      · intro hyr
        exact (List.nodup_append.mp hnd).2.2 y hyr y hyG rfl

end

/-! ## The promises are kept -/

section
variable {m : Links α} {F F' G : Family α} {l p q n e : α} {xs ys zs : List α}

/-- One list is rebuilt from its own nodes. -/
theorem Represents.rebuildOne {m' : Links α} (rs' : Family α) (h : Represents m ((p, xs) :: G))
    (hnodes : ∀ a, (Family.nodes rs').count a ≤ (p :: xs).count a)
    (hring : ∀ l ∈ rs', Ring m' l.1 l.2) (hother : ∀ y, y ∉ p :: xs → m' y = m y) :
    Represents m' (rs' ++ G) := by
  refine h.rebuild [(p, xs)] rs' [] List.nodup_nil (by simp) ?_ hring ?_
  · apply List.subperm_ext_iff.mpr
    intro a _
    simpa using hnodes a
  · intro y _ hy
    apply hother
    simpa using hy

/-- One list is rebuilt from its own nodes and one that was on no list. -/
theorem Represents.rebuildFresh {m' : Links α} (rs' : Family α) (h : Represents m ((p, xs) :: G))
    (hn : n ∉ Family.nodes ((p, xs) :: G))
    (hnodes : ∀ a, (Family.nodes rs').count a ≤ (n :: p :: xs).count a)
    (hring : ∀ l ∈ rs', Ring m' l.1 l.2) (hother : ∀ y, y ∉ p :: xs → y ≠ n → m' y = m y) :
    Represents m' (rs' ++ G) := by
  refine h.rebuild [(p, xs)] rs' [n] (List.nodup_singleton n) ?_ ?_ hring ?_
  · simpa using hn
  · apply List.subperm_ext_iff.mpr
    intro a _
    simpa using hnodes a
  · intro y hyn hy
    apply hother
    · simpa using hy
    · simpa using hyn

/-- Two lists are rebuilt from their nodes. -/
theorem Represents.rebuildTwo {m' : Links α} (rs' : Family α)
    (h : Represents m ((q, zs) :: (p, xs) :: G))
    (hnodes : ∀ a, (Family.nodes rs').count a ≤ (q :: zs ++ p :: xs).count a)
    (hring : ∀ l ∈ rs', Ring m' l.1 l.2)
    (hother : ∀ y, y ∉ q :: zs → y ∉ p :: xs → m' y = m y) : Represents m' (rs' ++ G) := by
  refine h.rebuild [(q, zs), (p, xs)] rs' [] List.nodup_nil (by simp) ?_ hring ?_
  · apply List.subperm_ext_iff.mpr
    intro a _
    simpa using hnodes a
  · intro y _ hy
    simp only [nodes_cons, nodes_nil, List.append_nil, List.mem_append, not_or] at hy
    exact hother y hy.1 hy.2

/-! ### The primitive changes -/

theorem represents_init (h : Represents m F) (hn : n ∉ F.nodes) :
    Represents (initListHead n m) ((n, []) :: F) := by
  have hkeep : Represents (initListHead n m) F := by
    refine h.congr ?_
    intro y hy
    apply initListHead_other
    rintro rfl
    exact hn hy
  refine ⟨List.nodup_cons.mpr ⟨hn, h.nodup⟩, ?_⟩
  intro l hl
  rcases List.mem_cons.mp hl with rfl | hl
  · exact ring_initListHead
  · exact hkeep.ring l hl

theorem represents_add (h : Represents m ((p, xs) :: G)) (hn : n ∉ Family.nodes ((p, xs) :: G)) :
    Represents (listAdd n p m) ((p, n :: xs) :: G) := by
  have hnew : n ∉ p :: xs := fun hmem => hn (List.mem_append_left _ hmem)
  refine h.rebuildFresh [(p, n :: xs)] hn ?_ ?_ ?_
  · intro a
    simp [List.count_cons]
    omega
  · simpa using ring_listAdd h.head hnew
  · intro y hy hyn
    exact listAdd_other h.head List.mem_cons_self hy hyn

theorem represents_addTail (h : Represents m ((p, xs) :: G))
    (hn : n ∉ Family.nodes ((p, xs) :: G)) :
    Represents (listAddTail n p m) ((p, xs ++ [n]) :: G) := by
  have hnew : n ∉ p :: xs := fun hmem => hn (List.mem_append_left _ hmem)
  refine h.rebuildFresh [(p, xs ++ [n])] hn ?_ ?_ ?_
  · intro a
    simp [List.count_cons]
    omega
  · simpa using ring_listAddTail h.head hnew
  · intro y hy hyn
    exact listAddTail_other h.head List.mem_cons_self hy hyn

/-- An unlinked entry is on no list any more. -/
theorem represents_unlink (h : Represents m ((p, xs ++ e :: ys) :: G)) :
    Represents (rawListDelEntry e m) ((p, xs ++ ys) :: G) ∧
      e ∉ Family.nodes ((p, xs ++ ys) :: G) := by
  constructor
  · refine h.rebuildOne [(p, xs ++ ys)] ?_ ?_ ?_
    · intro a
      simp [List.count_cons]
    · simpa using ring_rawListDelEntry h.head
    · intro y hy
      exact rawListDelEntry_other h.head (by simp) hy
  · have hperm : (Family.nodes ((p, xs ++ e :: ys) :: G)).Perm
        (e :: Family.nodes ((p, xs ++ ys) :: G)) := by
      apply List.perm_iff_count.mpr
      intro a
      simp [List.count_cons]
      omega
    exact (List.nodup_cons.mp (hperm.nodup_iff.mp h.nodup)).1

theorem represents_replace (h : Represents m ((p, xs) :: G))
    (hn : n ∉ Family.nodes ((p, xs) :: G)) :
    Represents (listReplace p n m) ((n, xs) :: G) ∧ p ∉ Family.nodes ((n, xs) :: G) := by
  have hnew : n ∉ p :: xs := fun hmem => hn (List.mem_append_left _ hmem)
  constructor
  · refine h.rebuildFresh [(n, xs)] hn ?_ ?_ ?_
    · intro a
      simp [List.count_cons]
    · simpa using ring_listReplace h.head hnew
    · intro y hy hyn
      exact listReplace_other h.head hy hyn
  · have hp := (List.nodup_cons.mp h.nodup).1
    intro hmem
    rcases List.mem_cons.mp hmem with rfl | hmem
    · exact hnew List.mem_cons_self
    · exact hp hmem

/-- The entries of the first list come to the front of the second, whose links say so; the head
they are taken from is on no list any more. -/
theorem represents_splice (h : Represents m ((l, e :: xs) :: (p, ys) :: G)) :
    Represents (rawListSplice l p (m p).next m) ((p, e :: xs ++ ys) :: G) ∧
      l ∉ Family.nodes ((p, e :: xs ++ ys) :: G) := by
  constructor
  · refine h.rebuildTwo [(p, e :: xs ++ ys)] ?_ ?_ ?_
    · intro a
      simp [List.count_cons]
      omega
    · simpa using ring_rawListSplice h.head h.second h.disjoint
    · intro y hy hy'
      refine rawListSplice_other h.head hy ?_ ?_
      · rintro rfl
        exact hy' List.mem_cons_self
      · intro heq
        exact hy' (heq ▸ (h.second.links_mem List.mem_cons_self).1)
  · have hperm : (Family.nodes ((l, e :: xs) :: (p, ys) :: G)).Perm
        (l :: Family.nodes ((p, e :: xs ++ ys) :: G)) := by
      apply List.perm_iff_count.mpr
      intro a
      simp [List.count_cons]
      omega
    exact (List.nodup_cons.mp (hperm.nodup_iff.mp h.nodup)).1

theorem represents_spliceTail (h : Represents m ((l, e :: xs) :: (p, ys) :: G)) :
    Represents (rawListSplice l (m p).prev p m) ((p, ys ++ e :: xs) :: G) ∧
      l ∉ Family.nodes ((p, ys ++ e :: xs) :: G) := by
  rcases List.eq_nil_or_concat' ys with rfl | ⟨ws, w, rfl⟩
  · have hsplice := represents_splice h
    rw [h.second.next_nil, List.append_nil] at hsplice
    rw [h.second.prev_nil, List.nil_append]
    exact hsplice
  · -- the second list is read from its last entry and back
    have hswap : Represents m ((p, ws ++ [w]) :: (l, e :: xs) :: G) :=
      h.reads (.sub (List.Perm.swap _ _ _).subperm)
    have hw : Represents m ((l, e :: xs) :: (w, [] ++ p :: ws) :: G) :=
      (hswap.reads (.entry p w ws [] _)).reads (.sub (List.Perm.swap _ _ _).subperm)
    obtain ⟨hrep, hl⟩ := represents_splice hw
    rw [h.second.prev_concat]
    rw [hw.second.next_cons] at hrep
    have hback := hrep.reads (.entry w p (e :: xs) ws G)
    rw [List.append_assoc]
    refine ⟨hback, ?_⟩
    simp only [nodes_cons, List.mem_append, List.mem_cons, not_or] at hl ⊢
    tauto

theorem represents_cut (h : Represents m ((p, xs ++ e :: ys) :: G))
    (hl : l ∉ Family.nodes ((p, xs ++ e :: ys) :: G)) :
    Represents (rawListCutPosition l p e m) ((l, xs ++ [e]) :: (p, ys) :: G) := by
  have hnew : l ∉ p :: (xs ++ e :: ys) := fun hmem => hl (List.mem_append_left _ hmem)
  refine h.rebuildFresh [(l, xs ++ [e]), (p, ys)] hl ?_ ?_ ?_
  · intro a
    simp [List.count_cons]
    omega
  · simpa using ring_rawListCutPosition h.head hnew
  · intro y hy hyl
    exact rawListCutPosition_other (e := e) h.head (by simp) hy hyl

/-! ### The calls -/

variable {op : Op α} {poison1 poison2 : α}

/-- A call that does to the linked nodes what unlinking `e` does. -/
theorem represents_del (h : Represents m ((p, xs ++ e :: ys) :: G)) :
    Represents (listDel poison1 poison2 e m) ((p, xs ++ ys) :: G) := by
  obtain ⟨hrep, he⟩ := represents_unlink h
  refine hrep.congr ?_
  intro y hy
  apply listDel_other
  rintro rfl
  exact he hy

theorem represents_moveWithin (h : Represents m ((p, xs ++ e :: ys) :: G)) :
    Represents (listMove e p m) ((p, e :: (xs ++ ys)) :: G) := by
  obtain ⟨hrep, he⟩ := represents_unlink h
  exact represents_add hrep he

theorem represents_moveTailWithin (h : Represents m ((p, xs ++ e :: ys) :: G)) :
    Represents (listMoveTail e p m) ((p, xs ++ ys ++ [e]) :: G) := by
  obtain ⟨hrep, he⟩ := represents_unlink h
  exact represents_addTail hrep he

omit [DecidableEq α] in
theorem Represents.swap {a b : α × List α} (h : Represents m (a :: b :: G)) :
    Represents m (b :: a :: G) := h.reads (.sub (List.Perm.swap _ _ _).subperm)

omit [DecidableEq α] in
theorem nodes_swap {a b : α × List α} {y : α} :
    y ∈ Family.nodes (a :: b :: G) ↔ y ∈ Family.nodes (b :: a :: G) := by
  simp only [nodes_cons, List.mem_append, List.mem_cons]
  tauto

theorem represents_move (h : Represents m ((p, xs ++ e :: ys) :: (q, zs) :: G)) :
    Represents (listMove e q m) ((p, xs ++ ys) :: (q, e :: zs) :: G) := by
  obtain ⟨hrep, he⟩ := represents_unlink h
  exact (represents_add hrep.swap (nodes_swap.not.mp he)).swap

theorem represents_moveTail (h : Represents m ((p, xs ++ e :: ys) :: (q, zs) :: G)) :
    Represents (listMoveTail e q m) ((p, xs ++ ys) :: (q, zs ++ [e]) :: G) := by
  obtain ⟨hrep, he⟩ := represents_unlink h
  exact (represents_addTail hrep.swap (nodes_swap.not.mp he)).swap

theorem represents_delRange {b : α} (h : Represents m ((p, xs ++ (zs ++ e :: ys)) :: G))
    (hb : (zs ++ [e]).head? = some b) : Represents (listDelRange b e m) ((p, xs ++ ys) :: G) := by
  have hmem : b ∈ zs ++ [e] := List.mem_of_mem_head? hb
  refine h.rebuildOne [(p, xs ++ ys)] ?_ ?_ ?_
  · intro a
    simp [List.count_cons]
    omega
  · simpa using ring_listDelRange h.head hb
  · intro y hy
    refine listDelRange_other h.head ?_ (by simp) hy
    simp only [List.mem_append, List.mem_cons, List.not_mem_nil, or_false] at hmem ⊢
    tauto

/-- The tests read the list off the links of its head. -/
theorem listEmpty_iff (h : Ring m p xs) : listEmpty p m = true ↔ xs = [] := by
  rw [listEmpty, decide_eq_true_iff]
  exact h.next_eq_self

theorem listEmptyCareful_iff (h : Ring m p xs) : listEmptyCareful p m = true ↔ xs = [] := by
  rw [listEmptyCareful, Bool.and_eq_true, decide_eq_true_iff, decide_eq_true_iff, h.next_eq_self]
  constructor
  · exact And.left
  · rintro rfl
    exact ⟨rfl, by rw [h.next_nil, h.prev_nil]⟩

theorem listIsLast_iff (h : Ring m p xs) (he : e ∈ xs) :
    listIsLast e p m = true ↔ xs.getLast? = some e := by
  obtain ⟨ys, zs, rfl⟩ := List.append_of_mem he
  rw [listIsLast, decide_eq_true_iff]
  have hrot := ring_rotate.mp h
  cases zs with
  | nil =>
      refine iff_of_true hrot.next_cons ?_
      rw [List.getLast?_concat]
  | cons z zs =>
      have hnext : (m e).next = z := hrot.next_cons
      have hne : z ≠ p := by
        rintro rfl
        exact h.head_notMem (by simp)
      rw [hnext]
      refine iff_of_false hne ?_
      intro hlast
      have hnd := (List.nodup_append.mp h.entries_nodup).2.1
      rw [List.getLast?_append_of_ne_nil _ (List.cons_ne_nil e (z :: zs)),
        List.getLast?_cons_cons] at hlast
      exact (List.nodup_cons.mp hnd).1 (List.mem_of_getLast? hlast)

theorem listIsSingular_iff (h : Ring m p xs) : listIsSingular p m = true ↔ xs.length = 1 := by
  cases xs with
  | nil => simp [listIsSingular, (listEmpty_iff h).mpr rfl]
  | cons x xs =>
      have hne : listEmpty p m = false := by
        rw [Bool.eq_false_iff, Ne, listEmpty_iff h]
        exact List.cons_ne_nil x xs
      simp [listIsSingular, hne, h.next_eq_prev]

theorem listEmpty_cons {x : α} (h : Ring m p (x :: xs)) : listEmpty p m = false := by
  rw [Bool.eq_false_iff, Ne, listEmpty_iff h]
  exact List.cons_ne_nil x xs

theorem represents_rotateLeft (h : Represents m ((p, xs) :: G)) :
    Represents (listRotateLeft p m) ((p, xs.rotate 1) :: G) := by
  cases xs with
  | nil =>
      have hempty : listEmpty p m = true := (listEmpty_iff h.head).mpr rfl
      rw [listRotateLeft, hempty]
      exact h
  | cons x xs =>
      rw [listRotateLeft, listEmpty_cons h.head, h.head.next_cons]
      show Represents (listMoveTail x p m) ((p, (x :: xs).rotate 1) :: G)
      rw [List.rotate_cons_succ, List.rotate_zero]
      have h' : Represents m ((p, [] ++ x :: xs) :: G) := h
      exact represents_moveTailWithin h'

/-- The entries of a spliced list, which is empty or not. -/
theorem represents_listSplice (h : Represents m ((l, xs) :: (p, ys) :: G)) :
    Represents (listSplice l p m) ((p, xs ++ ys) :: G) ∧
      Represents (listSpliceInit l p m) ((p, xs ++ ys) :: (l, []) :: G) := by
  cases xs with
  | nil =>
      have hempty : listEmpty l m = true := (listEmpty_iff h.head).mpr rfl
      rw [listSplice, listSpliceInit, hempty]
      exact ⟨h.reads (.sub (List.sublist_cons_self _ _).subperm), h.swap⟩
  | cons x xs =>
      rw [listSplice, listSpliceInit, listEmpty_cons h.head]
      obtain ⟨hrep, hl⟩ := represents_splice h
      exact ⟨hrep, (represents_init hrep hl).swap⟩

theorem represents_listSpliceTail (h : Represents m ((l, xs) :: (p, ys) :: G)) :
    Represents (listSpliceTail l p m) ((p, ys ++ xs) :: G) ∧
      Represents (listSpliceTailInit l p m) ((p, ys ++ xs) :: (l, []) :: G) := by
  cases xs with
  | nil =>
      have hempty : listEmpty l m = true := (listEmpty_iff h.head).mpr rfl
      rw [listSpliceTail, listSpliceTailInit, hempty, List.append_nil]
      exact ⟨h.reads (.sub (List.sublist_cons_self _ _).subperm), h.swap⟩
  | cons x xs =>
      rw [listSpliceTail, listSpliceTailInit, listEmpty_cons h.head]
      obtain ⟨hrep, hl⟩ := represents_spliceTail h
      exact ⟨hrep, (represents_init hrep hl).swap⟩

/-- A cut behind an entry. The test of a singular list is passed: its entry is the one named. -/
theorem represents_listCutPosition (h : Represents m ((p, xs ++ e :: ys) :: G))
    (hl : l ∉ Family.nodes ((p, xs ++ e :: ys) :: G)) :
    Represents (listCutPosition l p e m) ((l, xs ++ [e]) :: (p, ys) :: G) := by
  have hne : listEmpty p m = false := by
    rw [Bool.eq_false_iff, Ne, listEmpty_iff h.head]
    simp
  have hep : e ≠ p := by
    rintro rfl
    exact h.head.head_notMem (by simp)
  have hguard : (listIsSingular p m && ((m p).next ≠ e && p ≠ e)) = false := by
    by_cases hsing : listIsSingular p m = true
    · -- the only entry is `e`
      have hlen := (listIsSingular_iff h.head).mp hsing
      obtain rfl : xs = [] := by
        apply List.eq_nil_of_length_eq_zero
        simp at hlen
        omega
      have hfirst : (m p).next = e := h.head.next_cons
      simp [hfirst]
    · simp [hsing]
  rw [listCutPosition, hne, hguard]
  show Represents (if e = p then initListHead l m else rawListCutPosition l p e m) _
  rw [if_neg hep]
  exact represents_cut h hl

/-- **Every promise is kept by the pointer code.** -/
theorem promise_kept (h : Promise F op F') (hm : Represents m F) :
    Represents (op.run poison1 poison2 m) F' := by
  induction h with
  | reads before _ after ih => exact (ih (hm.reads before)).reads after
  | init hn => exact represents_init hm hn
  | add hn => exact represents_add hm hn
  | addTail hn => exact represents_addTail hm hn
  | del => exact represents_del hm
  | delInit =>
      obtain ⟨hrep, he⟩ := represents_unlink hm
      exact (represents_init hrep he).swap
  | replace hn => exact (represents_replace hm hn).1
  | replaceInit hn =>
      obtain ⟨hrep, hp⟩ := represents_replace hm hn
      exact (represents_init hrep hp).swap
  | moveWithin => exact represents_moveWithin hm
  | move => exact represents_move hm
  | moveTailWithin => exact represents_moveTailWithin hm
  | moveTail => exact represents_moveTail hm
  | rotateLeft => exact represents_rotateLeft hm
  | cut hl => exact represents_listCutPosition hm hl
  | @cutHead l p x xs G hl =>
      have hrun : listCutPosition l p p m = initListHead l m := by
        rw [listCutPosition, listEmpty_cons hm.head]
        simp
      rw [Op.run, hrun]
      exact represents_init hm hl
  | @cutEmpty l p e G =>
      have hrun : listCutPosition l p e m = m := by
        rw [listCutPosition, (listEmpty_iff hm.head).mpr rfl, if_pos rfl]
      rw [Op.run, hrun]
      exact hm
  | @cutForeign l p e x G he hp =>
      have hfirst : (m p).next ≠ e := by
        rw [hm.head.next_cons]
        exact he.symm
      have hrun : listCutPosition l p e m = m := by
        rw [listCutPosition, listEmpty_cons hm.head, (listIsSingular_iff hm.head).mpr rfl]
        simp [hfirst, hp.symm]
      rw [Op.run, hrun]
      exact hm
  | splice => exact (represents_listSplice hm).1
  | spliceTail => exact (represents_listSpliceTail hm).1
  | spliceInit => exact (represents_listSplice hm).2
  | spliceTailInit => exact (represents_listSpliceTail hm).2
  | delRange hb => exact represents_delRange hm hb
  | write ha =>
      refine hm.congr ?_
      intro y hy
      apply Function.update_of_ne
      rintro rfl
      exact ha hy

end

end KernelDev.Lists
