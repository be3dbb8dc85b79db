/-
# KernelDev.Lib.LinkRing — circular doubly linked lists in a memory of link pairs

A node is an address that holds two links. `Seg m a xs b` says that going from `a` the nodes `xs`
come one after the other and then `b`, and that the links back agree. A ring is a segment from a
node to itself with no node twice: the node it is read from is its head, and the nodes met on the
way are its entries.

A ring has no distinguished node: `ring_rotate` reads it from any of its entries. The rules of
pointer surgery (`Ring.insert`, `Ring.remove`, `Ring.splice`, `Ring.cut`, `Ring.rename`) are stated
for the node at the seam and for any change of the memory that has the effect they list; a rule for
another place of the ring is obtained by rotating.
-/
import Mathlib.Data.List.Nodup
import Mathlib.Data.List.Rotate
import Mathlib.Logic.Function.Basic

namespace KernelDev.Lib

/-- The two links of a node. -/
@[ext]
structure Link (α : Type*) where
  next : α
  prev : α
  deriving DecidableEq, Repr

/-- A memory of link pairs. -/
abbrev Links (α : Type*) := α → Link α

variable {α : Type*}

namespace Links

variable [DecidableEq α] (m : Links α) (a b y : α)

/-- Store into the forward link of `a`. -/
def setNext : Links α := Function.update m a { m a with next := b }

/-- Store into the backward link of `a`. -/
def setPrev : Links α := Function.update m a { m a with prev := b }

@[simp] theorem setNext_next : (m.setNext a b y).next = if y = a then b else (m y).next := by
  by_cases h : y = a
  · subst h; simp [setNext]
  · simp [setNext, h]

@[simp] theorem setNext_prev : (m.setNext a b y).prev = (m y).prev := by
  by_cases h : y = a
  · subst h; simp [setNext]
  · simp [setNext, h]

@[simp] theorem setPrev_next : (m.setPrev a b y).next = (m y).next := by
  by_cases h : y = a
  · subst h; simp [setPrev]
  · simp [setPrev, h]

@[simp] theorem setPrev_prev : (m.setPrev a b y).prev = if y = a then b else (m y).prev := by
  by_cases h : y = a
  · subst h; simp [setPrev]
  · simp [setPrev, h]

end Links

/-! ## Segments -/

/-- `b` follows `a`, in both directions. -/
def Linked (m : Links α) (a b : α) : Prop := (m a).next = b ∧ (m b).prev = a

instance [DecidableEq α] (m : Links α) (a b : α) : Decidable (Linked m a b) :=
  inferInstanceAs (Decidable (_ ∧ _))

/-- From `a` through `xs` to `b`. -/
def Seg (m : Links α) : α → List α → α → Prop
  | a, [], b => Linked m a b
  | a, x :: xs, b => Linked m a x ∧ Seg m x xs b

instance decidableSeg [DecidableEq α] (m : Links α) :
    (a : α) → (xs : List α) → (b : α) → Decidable (Seg m a xs b)
  | a, [], b => inferInstanceAs (Decidable (Linked m a b))
  | a, x :: xs, b =>
      have := decidableSeg m x xs b
      inferInstanceAs (Decidable (Linked m a x ∧ Seg m x xs b))

variable {m m' : Links α} {a b p x : α} {xs ys : List α}

@[simp] theorem seg_nil : Seg m a [] b ↔ Linked m a b := Iff.rfl

@[simp] theorem seg_cons : Seg m a (x :: xs) b ↔ Linked m a x ∧ Seg m x xs b := Iff.rfl

/-- A segment is cut at any node on its way. -/
theorem seg_append_cons : Seg m a (xs ++ x :: ys) b ↔ Seg m a xs x ∧ Seg m x ys b := by
  induction xs generalizing a with
  | nil => rfl
  | cons y xs ih =>
      show Linked m a y ∧ Seg m y (xs ++ x :: ys) b ↔ (Linked m a y ∧ Seg m y xs x) ∧ Seg m x ys b
      rw [ih, and_assoc]

/-- A segment depends on the forward links of all its nodes but the last and on the backward links
of all but the first. -/
theorem Seg.congr (h : Seg m a xs b) (hnext : ∀ y ∈ a :: xs, (m' y).next = (m y).next)
    (hprev : ∀ y ∈ xs ++ [b], (m' y).prev = (m y).prev) : Seg m' a xs b := by
  induction xs generalizing a with
  | nil =>
      show (m' a).next = b ∧ (m' b).prev = a
      rw [hnext a (by simp), hprev b (by simp)]
      exact h
  | cons x xs ih =>
      obtain ⟨⟨hn, hp⟩, hrest⟩ := h
      refine ⟨⟨?_, ?_⟩, ?_⟩
      · rw [hnext a (by simp), hn]
      · rw [hprev x (by simp), hp]
      · apply ih hrest
        · intro y hy
          exact hnext y (List.mem_cons_of_mem a hy)
        · intro y hy
          exact hprev y (List.mem_cons_of_mem x hy)

/-- The last node of a segment is where the backward link of its end points. -/
theorem Seg.prev_mem (h : Seg m a xs b) : (m b).prev ∈ a :: xs := by
  induction xs generalizing a with
  | nil =>
      rw [h.2]
      exact List.mem_cons_self
  | cons x xs ih => exact List.mem_cons_of_mem a (ih h.2)

/-- The first node of a segment is where the forward link of its start points. -/
theorem Seg.next_mem (h : Seg m a xs b) : (m a).next ∈ xs ++ [b] := by
  cases xs with
  | nil =>
      rw [h.1]
      exact List.mem_cons_self
  | cons x xs =>
      rw [h.1.1]
      exact List.mem_cons_self

/-- The start of a segment is moved: only the seam is linked anew. -/
theorem Seg.restart {a' : α} (h : Seg m a xs b) (hnd : (xs ++ [b]).Nodup)
    (hseam : Linked m' a' (m a).next) (hnext : ∀ y ∈ xs, (m' y).next = (m y).next)
    (hprev : ∀ y ∈ xs ++ [b], y ≠ (m a).next → (m' y).prev = (m y).prev) : Seg m' a' xs b := by
  cases xs with
  | nil =>
      rw [h.1] at hseam
      exact hseam
  | cons x xs =>
      rw [h.1.1] at hseam hprev
      refine ⟨hseam, h.2.congr hnext ?_⟩
      intro y hy
      apply hprev y (List.mem_cons_of_mem x hy)
      rintro rfl
      exact (List.nodup_cons.mp hnd).1 hy

/-- The end of a segment is moved: only the seam is linked anew. -/
theorem Seg.retarget {b' : α} (h : Seg m a xs b) (hnd : (a :: xs).Nodup)
    (hseam : Linked m' (m b).prev b')
    (hnext : ∀ y ∈ a :: xs, y ≠ (m b).prev → (m' y).next = (m y).next)
    (hprev : ∀ y ∈ xs, (m' y).prev = (m y).prev) : Seg m' a xs b' := by
  induction xs generalizing a with
  | nil =>
      rw [h.2] at hseam
      exact hseam
  | cons x xs ih =>
      have ha : a ≠ (m b).prev := by
        intro ha
        apply (List.nodup_cons.mp hnd).1
        rw [ha]
        exact h.2.prev_mem
      refine ⟨⟨?_, ?_⟩, ih h.2 (List.nodup_cons.mp hnd).2 ?_ ?_⟩
      · rw [hnext a List.mem_cons_self ha]
        exact h.1.1
      · rw [hprev x List.mem_cons_self]
        exact h.1.2
      · intro y hy
        exact hnext y (List.mem_cons_of_mem a hy)
      · intro y hy
        exact hprev y (List.mem_cons_of_mem x hy)

/-- Read backwards, a segment is a segment of the memory with the links exchanged. -/
theorem Seg.reverse (h : Seg m a xs b) :
    Seg (fun y => ⟨(m y).prev, (m y).next⟩) b xs.reverse a := by
  induction xs generalizing a with
  | nil => exact ⟨h.2, h.1⟩
  | cons x xs ih =>
      rw [List.reverse_cons]
      exact seg_append_cons.mpr ⟨ih h.2, h.1.2, h.1.1⟩

/-! ## Rings -/

/-- The ring read from `p` has the entries `xs`. -/
structure Ring (m : Links α) (p : α) (xs : List α) : Prop where
  nodup : (p :: xs).Nodup
  seg : Seg m p xs p

/-- A ring is read from any of its entries. -/
theorem ring_rotate : Ring m p (xs ++ x :: ys) ↔ Ring m x (ys ++ p :: xs) := by
  have hnodup : (p :: (xs ++ x :: ys)).Nodup ↔ (x :: (ys ++ p :: xs)).Nodup := by
    apply List.Perm.nodup_iff
    have h : (p :: xs ++ x :: ys).Perm (x :: ys ++ p :: xs) := List.perm_append_comm
    exact h
  constructor
  · rintro ⟨hnd, hseg⟩
    rw [seg_append_cons] at hseg
    exact ⟨hnodup.mp hnd, seg_append_cons.mpr ⟨hseg.2, hseg.1⟩⟩
  · rintro ⟨hnd, hseg⟩
    rw [seg_append_cons] at hseg
    exact ⟨hnodup.mpr hnd, seg_append_cons.mpr ⟨hseg.2, hseg.1⟩⟩

namespace Ring

theorem head_notMem (h : Ring m p xs) : p ∉ xs := (List.nodup_cons.mp h.nodup).1

theorem entries_nodup (h : Ring m p xs) : xs.Nodup := (List.nodup_cons.mp h.nodup).2

/-- The other nodes of a ring differ from an entry. -/
theorem ne_entry {e y : α} (h : Ring m p (xs ++ e :: ys)) (hy : y ∈ p :: (xs ++ ys)) : y ≠ e := by
  rintro rfl
  apply (List.nodup_cons.mp (ring_rotate.mp h).nodup).1
  simp only [List.mem_append, List.mem_cons] at hy ⊢
  tauto

/-- A ring depends on the links of its own nodes only. -/
theorem congr (h : Ring m p xs) (hm : ∀ y ∈ p :: xs, m' y = m y) : Ring m' p xs := by
  refine ⟨h.nodup, h.seg.congr ?_ ?_⟩
  · intro y hy
    rw [hm y hy]
  · intro y hy
    have hy' : y ∈ p :: xs := by
      rw [List.mem_append, List.mem_singleton] at hy
      rw [List.mem_cons]
      exact hy.symm
    rw [hm y hy']

theorem next_nil (h : Ring m p []) : (m p).next = p := h.seg.1

theorem prev_nil (h : Ring m p []) : (m p).prev = p := h.seg.2

theorem next_cons (h : Ring m p (x :: xs)) : (m p).next = x := h.seg.1.1

theorem prev_concat (h : Ring m p (xs ++ [x])) : (m p).prev = x := (seg_append_cons.mp h.seg).2.2

/-- A head points to itself exactly when it has no entries. -/
theorem next_eq_self (h : Ring m p xs) : (m p).next = p ↔ xs = [] := by
  cases xs with
  | nil => exact iff_of_true h.next_nil rfl
  | cons x xs =>
      refine iff_of_false ?_ (List.cons_ne_nil x xs)
      rw [h.next_cons]
      intro hxp
      apply h.head_notMem
      rw [hxp]
      exact List.mem_cons_self

/-- Both links of a head with entries agree exactly when there is one entry. -/
theorem next_eq_prev (h : Ring m p (x :: xs)) : (m p).next = (m p).prev ↔ xs = [] := by
  rw [h.next_cons]
  rcases List.eq_nil_or_concat' xs with rfl | ⟨ys, y, rfl⟩
  · have hring : Ring m p ([] ++ [x]) := h
    have hp : (m p).prev = x := hring.prev_concat
    exact iff_of_true hp.symm rfl
  · have hring : Ring m p (x :: ys ++ [y]) := h
    have hp : (m p).prev = y := hring.prev_concat
    rw [hp]
    refine iff_of_false ?_ (by simp)
    intro hxy
    have hnd := h.entries_nodup
    rw [hxy] at hnd
    simp at hnd

theorem next_mem_entries (h : Ring m p xs) (hne : xs ≠ []) : (m p).next ∈ xs := by
  cases xs with
  | nil => exact absurd rfl hne
  | cons x xs =>
      rw [h.next_cons]
      exact List.mem_cons_self

theorem prev_mem_entries (h : Ring m p xs) (hne : xs ≠ []) : (m p).prev ∈ xs := by
  cases xs with
  | nil => exact absurd rfl hne
  | cons x xs => exact h.seg.2.prev_mem

/-- The nodes of a ring link to nodes of the ring. -/
theorem links_mem (h : Ring m p xs) {y : α} (hy : y ∈ p :: xs) :
    (m y).next ∈ p :: xs ∧ (m y).prev ∈ p :: xs := by
  have hhead : ∀ {q : α} {zs : List α}, Ring m q zs →
      (m q).next ∈ q :: zs ∧ (m q).prev ∈ q :: zs := by
    intro q zs h
    refine ⟨?_, h.seg.prev_mem⟩
    simpa [or_comm] using h.seg.next_mem
  rcases List.mem_cons.mp hy with rfl | hy
  · exact hhead h
  · -- the ring is read from the entry
    obtain ⟨ys, zs, rfl⟩ := List.append_of_mem hy
    have hmem := hhead (ring_rotate.mp h)
    simp only [List.mem_cons, List.mem_append] at hmem ⊢
    tauto

/-- On a ring the two links undo each other. -/
theorem links_inverse (h : Ring m p xs) {y : α} (hy : y ∈ p :: xs) :
    (m (m y).next).prev = y ∧ (m (m y).prev).next = y := by
  have hhead : ∀ {q : α} {zs : List α}, Ring m q zs →
      (m (m q).next).prev = q ∧ (m (m q).prev).next = q := by
    intro q zs h
    constructor
    · cases zs with
      | nil => rw [h.next_nil, h.prev_nil]
      | cons z zs =>
          rw [h.next_cons]
          exact h.seg.1.2
    · rcases List.eq_nil_or_concat' zs with rfl | ⟨ws, w, rfl⟩
      · rw [h.prev_nil, h.next_nil]
      · rw [h.prev_concat]
        exact (seg_append_cons.mp h.seg).2.1
  rcases List.mem_cons.mp hy with rfl | hy
  · exact hhead h
  · obtain ⟨ys, zs, rfl⟩ := List.append_of_mem hy
    exact hhead (ring_rotate.mp h)

/-- Different nodes are followed by different nodes. -/
theorem next_inj (h : Ring m p xs) {y z : α} (hy : y ∈ p :: xs) (hz : z ∈ p :: xs)
    (heq : (m y).next = (m z).next) : y = z := by
  rw [← (h.links_inverse hy).1, heq, (h.links_inverse hz).1]

/-- With the links exchanged a ring is read backwards. -/
theorem reverse (h : Ring m p xs) : Ring (fun y => ⟨(m y).prev, (m y).next⟩) p xs.reverse := by
  have hperm : (p :: xs.reverse).Perm (p :: xs) := (List.reverse_perm xs).cons p
  exact ⟨hperm.nodup_iff.mpr h.nodup, h.seg.reverse⟩

theorem snoc_nodup (h : Ring m p xs) : (xs ++ [p]).Nodup := by
  have hperm : (xs ++ [p]).Perm (p :: xs) := List.perm_append_singleton p xs
  exact hperm.nodup_iff.mpr h.nodup

/-! ## Pointer surgery -/

/-- `n` is put between `p` and what follows it. -/
theorem insert {n : α} (h : Ring m p xs) (hn : n ∉ p :: xs) (hpn : Linked m' p n)
    (hseam : Linked m' n (m p).next) (hnext : ∀ y ∈ xs, (m' y).next = (m y).next)
    (hprev : ∀ y ∈ p :: xs, y ≠ (m p).next → (m' y).prev = (m y).prev) :
    Ring m' p (n :: xs) := by
  have hnd : (p :: n :: xs).Nodup := by
    have hperm : (p :: n :: xs).Perm (n :: p :: xs) := List.Perm.swap n p xs
    exact hperm.nodup_iff.mpr (List.nodup_cons.mpr ⟨hn, h.nodup⟩)
  refine ⟨hnd, hpn, h.seg.restart h.snoc_nodup hseam hnext ?_⟩
  intro y hy
  apply hprev y
  simpa [or_comm] using hy

/-- The entries up to `e` are taken out. -/
theorem remove {e : α} (h : Ring m p (xs ++ e :: ys)) (hseam : Linked m' p (m e).next)
    (hnext : ∀ y ∈ ys, (m' y).next = (m y).next)
    (hprev : ∀ y ∈ p :: ys, y ≠ (m e).next → (m' y).prev = (m y).prev) : Ring m' p ys := by
  have hnd : (xs ++ e :: (ys ++ [p])).Nodup := by
    have hsnoc := h.snoc_nodup
    rwa [List.append_assoc, List.cons_append] at hsnoc
  have hnd' : (ys ++ [p]).Nodup := (List.nodup_cons.mp (List.nodup_append.mp hnd).2.1).2
  have hperm : (ys ++ [p]).Perm (p :: ys) := List.perm_append_singleton p ys
  have hseg : Seg m e ys p := (seg_append_cons.mp h.seg).2
  refine ⟨hperm.nodup_iff.mp hnd', hseg.restart hnd' hseam hnext ?_⟩
  intro y hy
  apply hprev y
  simpa [or_comm] using hy

/-- The entries of a second ring go between `p` and what follows it. -/
theorem splice {l : α} (hl : Ring m l (x :: xs)) (h : Ring m p ys)
    (hdisj : List.Disjoint (x :: xs) (p :: ys)) (hpx : Linked m' p x)
    (hseam : Linked m' (m l).prev (m p).next)
    (hnext : ∀ y ∈ x :: xs ++ ys, y ≠ (m l).prev → (m' y).next = (m y).next)
    (hprev : ∀ y ∈ xs ++ p :: ys, y ≠ (m p).next → (m' y).prev = (m y).prev) :
    Ring m' p (x :: xs ++ ys) := by
  have hlast : (m l).prev ∈ x :: xs := hl.seg.2.prev_mem
  have hfirst : (m p).next ∈ p :: ys := (h.links_mem List.mem_cons_self).1
  have hnd : (p :: (x :: xs ++ ys)).Nodup := by
    have hperm : (p :: (x :: xs ++ ys)).Perm (x :: xs ++ p :: ys) := List.perm_middle.symm
    refine hperm.nodup_iff.mpr (List.nodup_append.mpr ⟨hl.entries_nodup, h.nodup, ?_⟩)
    rintro y hy _ hy' rfl
    exact hdisj hy hy'
  -- the moved entries keep their links inside
  have hmoved : Seg m' x xs (m p).next := by
    refine hl.seg.2.retarget hl.entries_nodup hseam ?_ ?_
    · intro y hy
      exact hnext y (List.mem_append_left ys hy)
    · intro y hy
      apply hprev y (List.mem_append_left _ hy)
      rintro rfl
      exact hdisj (List.mem_cons_of_mem x hy) hfirst
  refine ⟨hnd, ?_⟩
  cases ys with
  | nil =>
      rw [h.next_nil] at hmoved
      rw [List.append_nil]
      exact ⟨hpx, hmoved⟩
  | cons q ys =>
      rw [h.next_cons] at hmoved hprev
      refine ⟨hpx, seg_append_cons.mpr ⟨hmoved, h.seg.2.congr ?_ ?_⟩⟩
      · intro y hy
        apply hnext y (List.mem_append_right _ hy)
        rintro rfl
        exact hdisj hlast (List.mem_cons_of_mem p hy)
      · intro y hy
        have hq := (List.nodup_cons.mp h.snoc_nodup).1
        apply hprev y
        · apply List.mem_append_right
          simpa [or_comm, or_left_comm] using Or.inr (a := y = q) (List.mem_append.mp hy)
        · rintro rfl
          exact hq hy

/-- The entries up to `e` are moved under a new head. -/
theorem cut {l e : α} (h : Ring m p (xs ++ e :: ys)) (hl : l ∉ p :: (xs ++ e :: ys))
    (hfront : Linked m' l (m p).next) (hback : Linked m' e l) (hrest : Linked m' p (m e).next)
    (hnext : ∀ y ∈ xs ++ ys, (m' y).next = (m y).next)
    (hprev : ∀ y ∈ xs ++ e :: (ys ++ [p]), y ≠ (m p).next → y ≠ (m e).next →
      (m' y).prev = (m y).prev) :
    Ring m' l (xs ++ [e]) ∧ Ring m' p ys := by
  obtain ⟨hseg, hseg'⟩ := seg_append_cons.mp h.seg
  have hsnoc : (xs ++ [e] ++ (ys ++ [p])).Nodup := by
    have hnd := h.snoc_nodup
    simpa using hnd
  obtain ⟨hnd, hnd', hdisj⟩ := List.nodup_append.mp hsnoc
  constructor
  · have hlnd : (l :: (xs ++ [e])).Nodup := by
      refine List.nodup_cons.mpr ⟨?_, hnd⟩
      intro hmem
      apply hl
      simp only [List.mem_append, List.mem_cons, List.not_mem_nil, or_false] at hmem ⊢
      tauto
    have hmoved : Seg m' l xs e := by
      refine hseg.restart hnd hfront ?_ ?_
      · intro y hy
        exact hnext y (List.mem_append_left ys hy)
      · intro y hy hne
        refine hprev y ?_ hne ?_
        · simp only [List.mem_append, List.mem_cons, List.not_mem_nil, or_false] at hy ⊢
          tauto
        · exact hdisj y hy (m e).next hseg'.next_mem
    exact ⟨hlnd, seg_append_cons.mpr ⟨hmoved, hback⟩⟩
  · have hpnd : (p :: ys).Nodup := by
      have hperm : (ys ++ [p]).Perm (p :: ys) := List.perm_append_singleton p ys
      exact hperm.nodup_iff.mp hnd'
    refine ⟨hpnd, hseg'.restart hnd' hrest ?_ ?_⟩
    · intro y hy
      exact hnext y (List.mem_append_right xs hy)
    · intro y hy hne
      refine hprev y ?_ ?_ hne
      · exact List.mem_append_right xs (List.mem_cons_of_mem e hy)
      · exact (hdisj (m p).next hseg.next_mem y hy).symm

/-- A node takes the place of the head. -/
theorem rename {n : α} (h : Ring m p xs) (hn : n ∉ p :: xs)
    (hempty : xs = [] → Linked m' n n)
    (hfirst : xs ≠ [] → Linked m' n (m p).next) (hlast : xs ≠ [] → Linked m' (m p).prev n)
    (hnext : ∀ y ∈ xs, y ≠ (m p).prev → (m' y).next = (m y).next)
    (hprev : ∀ y ∈ xs, y ≠ (m p).next → (m' y).prev = (m y).prev) : Ring m' n xs := by
  have hnd : (n :: xs).Nodup :=
    List.nodup_cons.mpr ⟨fun hmem => hn (List.mem_cons_of_mem p hmem), h.entries_nodup⟩
  refine ⟨hnd, ?_⟩
  cases xs with
  | nil => exact hempty rfl
  | cons x xs =>
      have hfirst := hfirst (List.cons_ne_nil x xs)
      rw [h.next_cons] at hfirst hprev
      refine ⟨hfirst, h.seg.2.retarget h.entries_nodup (hlast (List.cons_ne_nil x xs)) hnext ?_⟩
      intro y hy
      apply hprev y (List.mem_cons_of_mem x hy)
      rintro rfl
      exact (List.nodup_cons.mp h.entries_nodup).1 hy

end Ring

end KernelDev.Lib
