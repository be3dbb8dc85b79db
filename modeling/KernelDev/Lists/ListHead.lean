/-
# KernelDev.Lists.ListHead — the operations on `struct list_head`

The functions of `list.h`, store by store, over a memory of link pairs. The loader keeps its objects
on such a list and both kernel modules keep their processes on one. `LIST_POISON1` and
`LIST_POISON2` are parameters.

The functions whose names begin with two underscores have `raw` in their place. For each operation:
the ring it leaves (`ring_*`) and the nodes whose links it does not touch (`*_other`).
-/
import KernelDev.Lib.LinkRing

namespace KernelDev.Lists

open KernelDev.Lib

variable {α : Type*} [DecidableEq α]

/-! ## The functions -/

/-- `INIT_LIST_HEAD`. -/
def initListHead (list : α) (m : Links α) : Links α :=
  (m.setNext list list).setPrev list list

/-- `__list_add`: put `new` between two nodes known to be neighbours. -/
def rawListAdd (new prev next : α) (m : Links α) : Links α :=
  (((m.setPrev next new).setNext new next).setPrev new prev).setNext prev new

/-- `list_add`. -/
def listAdd (new head : α) (m : Links α) : Links α := rawListAdd new head (m head).next m

/-- `list_add_tail`. -/
def listAddTail (new head : α) (m : Links α) : Links α := rawListAdd new (m head).prev head m

/-- `__list_del`. -/
def rawListDel (prev next : α) (m : Links α) : Links α :=
  (m.setPrev next prev).setNext prev next

/-- `__list_del_entry`. -/
def rawListDelEntry (entry : α) (m : Links α) : Links α :=
  rawListDel (m entry).prev (m entry).next m

/-- `list_del`: the entry is left pointing at the poison addresses. -/
def listDel (poison1 poison2 entry : α) (m : Links α) : Links α :=
  ((rawListDelEntry entry m).setNext entry poison1).setPrev entry poison2

/-- `list_replace`. -/
def listReplace (old new : α) (m : Links α) : Links α :=
  let m := m.setNext new (m old).next
  let m := m.setPrev (m new).next new
  let m := m.setPrev new (m old).prev
  m.setNext (m new).prev new

/-- `list_replace_init`. -/
def listReplaceInit (old new : α) (m : Links α) : Links α :=
  initListHead old (listReplace old new m)

/-- `list_del_init`. -/
def listDelInit (entry : α) (m : Links α) : Links α := initListHead entry (rawListDelEntry entry m)

/-- `list_move`. -/
def listMove (list head : α) (m : Links α) : Links α := listAdd list head (rawListDelEntry list m)

/-- `list_move_tail`. -/
def listMoveTail (list head : α) (m : Links α) : Links α :=
  listAddTail list head (rawListDelEntry list m)

/-- `list_is_last`. -/
def listIsLast (list head : α) (m : Links α) : Bool := (m list).next = head

/-- `list_empty`. -/
def listEmpty (head : α) (m : Links α) : Bool := (m head).next = head

/-- `list_empty_careful`. -/
def listEmptyCareful (head : α) (m : Links α) : Bool :=
  (m head).next = head && (m head).next = (m head).prev

/-- `list_rotate_left`. -/
def listRotateLeft (head : α) (m : Links α) : Links α :=
  if !listEmpty head m then listMoveTail (m head).next head m else m

/-- `list_is_singular`. -/
def listIsSingular (head : α) (m : Links α) : Bool :=
  !listEmpty head m && (m head).next = (m head).prev

/-- `__list_cut_position`. -/
def rawListCutPosition (list head entry : α) (m : Links α) : Links α :=
  let newFirst := (m entry).next
  let m := m.setNext list (m head).next
  let m := m.setPrev (m list).next list
  let m := m.setPrev list entry
  let m := m.setNext entry list
  let m := m.setNext head newFirst
  m.setPrev newFirst head

/-- `list_cut_position`: on an empty list, and on a singular one that does not hold `entry`, `list`
is left as it was. -/
def listCutPosition (list head entry : α) (m : Links α) : Links α :=
  if listEmpty head m then m
  else if listIsSingular head m && ((m head).next ≠ entry && head ≠ entry) then m
  else if entry = head then initListHead list m
  else rawListCutPosition list head entry m

/-- `__list_splice`: the links of `list` itself are not touched. -/
def rawListSplice (list prev next : α) (m : Links α) : Links α :=
  let first := (m list).next
  let last := (m list).prev
  (((m.setPrev first prev).setNext prev first).setNext last next).setPrev next last

/-- `list_splice`. -/
def listSplice (list head : α) (m : Links α) : Links α :=
  if !listEmpty list m then rawListSplice list head (m head).next m else m

/-- `list_splice_tail`. -/
def listSpliceTail (list head : α) (m : Links α) : Links α :=
  if !listEmpty list m then rawListSplice list (m head).prev head m else m

/-- `list_splice_init`. -/
def listSpliceInit (list head : α) (m : Links α) : Links α :=
  if !listEmpty list m then initListHead list (rawListSplice list head (m head).next m) else m

/-- `list_splice_tail_init`. -/
def listSpliceTailInit (list head : α) (m : Links α) : Links α :=
  if !listEmpty list m then initListHead list (rawListSplice list (m head).prev head m) else m

/-- `list_del_range`. -/
def listDelRange (begin end_ : α) (m : Links α) : Links α :=
  let m := m.setNext (m begin).prev (m end_).next
  m.setPrev (m end_).next (m begin).prev

/-! ## Initialising and adding -/

variable {m : Links α} {p n e l y : α} {xs ys zs : List α}

@[simp] theorem initListHead_same : initListHead p m p = ⟨p, p⟩ := by
  ext <;> simp [initListHead]

theorem initListHead_other (h : y ≠ p) : initListHead p m y = m y := by
  ext <;> simp [initListHead, h]

theorem ring_initListHead : Ring (initListHead p m) p [] := by
  refine ⟨List.nodup_singleton p, ?_, ?_⟩ <;> simp

theorem rawListAdd_other {prev next : α} (hn : y ≠ n) (hprev : y ≠ prev) (hnext : y ≠ next) :
    rawListAdd n prev next m y = m y := by
  ext <;> simp [rawListAdd, hn, hprev, hnext]

/-- Adding next to a node of a ring touches the new node and nodes of the ring. -/
theorem listAdd_other (h : Ring m p xs) (he : e ∈ p :: xs) (hy : y ∉ p :: xs) (hn : y ≠ n) :
    listAdd n e m y = m y :=
  rawListAdd_other hn (fun heq => hy (heq ▸ he)) (fun heq => hy (heq ▸ (h.links_mem he).1))

theorem listAddTail_other (h : Ring m p xs) (he : e ∈ p :: xs) (hy : y ∉ p :: xs) (hn : y ≠ n) :
    listAddTail n e m y = m y :=
  rawListAdd_other hn (fun heq => hy (heq ▸ (h.links_mem he).2)) (fun heq => hy (heq ▸ he))

/-- A node put between `p` and what follows it. -/
theorem ring_listAdd (h : Ring m p xs) (hn : n ∉ p :: xs) : Ring (listAdd n p m) p (n :: xs) := by
  have hfirst : (m p).next ≠ n := fun heq => hn (heq ▸ (h.links_mem List.mem_cons_self).1)
  have hnp : n ≠ p := by
    rintro rfl
    exact hn List.mem_cons_self
  refine h.insert hn ⟨?_, ?_⟩ ⟨?_, ?_⟩ ?_ ?_
  · simp [listAdd, rawListAdd]
  · simp [listAdd, rawListAdd]
  · simp [listAdd, rawListAdd, hnp]
  · simp [listAdd, rawListAdd, hfirst]
  · intro y hy
    have hyp : y ≠ p := fun heq => h.head_notMem (heq ▸ hy)
    have hyn : y ≠ n := fun heq => hn (heq ▸ List.mem_cons_of_mem p hy)
    simp [listAdd, rawListAdd, hyp, hyn]
  · intro y hy hne
    have hyn : y ≠ n := fun heq => hn (heq ▸ hy)
    simp [listAdd, rawListAdd, hne, hyn]

/-- A node put between `p` and what comes before it. -/
theorem ring_listAddTail (h : Ring m p xs) (hn : n ∉ p :: xs) :
    Ring (listAddTail n p m) p (xs ++ [n]) := by
  rcases List.eq_nil_or_concat' xs with rfl | ⟨ys, z, rfl⟩
  · have heq : listAddTail n p m = listAdd n p m := by
      rw [listAddTail, listAdd, h.prev_nil, h.next_nil]
    rw [heq]
    exact ring_listAdd h hn
  · rw [List.append_assoc]
    -- seen from the last entry, the node goes between it and the head
    have hz : Ring m z (p :: ys) := ring_rotate.mp h
    have heq : listAddTail n p m = listAdd n z m := by
      rw [listAddTail, listAdd, h.prev_concat, hz.next_cons]
    have hnz : n ∉ z :: p :: ys := by
      simp only [List.mem_cons, List.mem_append, List.not_mem_nil, or_false, not_or] at hn ⊢
      tauto
    rw [heq]
    exact ring_rotate.mpr (ring_listAdd hz hnz)

/-! ## Deleting -/

theorem rawListDel_other {prev next : α} (hprev : y ≠ prev) (hnext : y ≠ next) :
    rawListDel prev next m y = m y := by
  ext <;> simp [rawListDel, hprev, hnext]

/-- The first entry is unlinked. -/
theorem ring_rawListDelEntry_first (h : Ring m p (e :: ys)) : Ring (rawListDelEntry e m) p ys := by
  have hp : (m e).prev = p := h.seg.1.2
  have hne : ∀ y ∈ ys, y ≠ p := by
    rintro y hy rfl
    exact h.head_notMem (List.mem_cons_of_mem e hy)
  have h' : Ring m p ([] ++ e :: ys) := h
  refine h'.remove ⟨?_, ?_⟩ ?_ ?_
  · simp [rawListDelEntry, rawListDel, hp]
  · simp [rawListDelEntry, rawListDel, hp]
  · intro y hy
    simp [rawListDelEntry, rawListDel, hp, hne y hy]
  · intro y _ hyn
    simp [rawListDelEntry, rawListDel, hyn]

/-- An entry is unlinked. -/
theorem ring_rawListDelEntry (h : Ring m p (xs ++ e :: ys)) :
    Ring (rawListDelEntry e m) p (xs ++ ys) := by
  rcases List.eq_nil_or_concat' xs with rfl | ⟨zs, z, rfl⟩
  · exact ring_rawListDelEntry_first h
  · rw [List.append_assoc] at h ⊢
    -- seen from the entry before it, it comes first
    exact ring_rotate.mpr (ring_rawListDelEntry_first (ring_rotate.mp h))

/-- Unlinking a node of a ring touches nodes of the ring. -/
theorem rawListDelEntry_other (h : Ring m p xs) (he : e ∈ p :: xs) (hy : y ∉ p :: xs) :
    rawListDelEntry e m y = m y :=
  rawListDel_other (fun heq => hy (heq ▸ (h.links_mem he).2))
    (fun heq => hy (heq ▸ (h.links_mem he).1))

theorem listDel_other {poison1 poison2 : α} (he : y ≠ e) :
    listDel poison1 poison2 e m y = rawListDelEntry e m y := by
  ext <;> simp [listDel, he]

theorem listDelInit_other (he : y ≠ e) : listDelInit e m y = rawListDelEntry e m y :=
  initListHead_other he

theorem ring_listDel {poison1 poison2 : α} (h : Ring m p (xs ++ e :: ys)) :
    Ring (listDel poison1 poison2 e m) p (xs ++ ys) := by
  refine (ring_rawListDelEntry h).congr ?_
  intro y hy
  exact listDel_other (h.ne_entry hy)

theorem ring_listDelInit (h : Ring m p (xs ++ e :: ys)) :
    Ring (listDelInit e m) p (xs ++ ys) ∧ Ring (listDelInit e m) e [] := by
  refine ⟨(ring_rawListDelEntry h).congr ?_, ring_initListHead⟩
  intro y hy
  exact listDelInit_other (h.ne_entry hy)

/-- The entries from the first one, `b`, to `e` are unlinked. -/
theorem ring_listDelRange_first {b : α} (h : Ring m p (zs ++ e :: ys))
    (hb : (zs ++ [e]).head? = some b) : Ring (listDelRange b e m) p ys := by
  have hnext : (m p).next = b := by
    cases zs with
    | nil =>
        rw [h.next_cons]
        exact Option.some.inj hb
    | cons z zs =>
        rw [h.next_cons]
        exact Option.some.inj hb
  have hp : (m b).prev = p := by
    rw [← hnext]
    exact (h.links_inverse List.mem_cons_self).1
  have hmid : ∀ y ∈ ys, y ≠ p := by
    rintro y hy rfl
    exact h.head_notMem (List.mem_append_right zs (List.mem_cons_of_mem e hy))
  refine h.remove ⟨?_, ?_⟩ ?_ ?_
  · simp [listDelRange, hp]
  · simp [listDelRange, hp]
  · intro y hy
    simp [listDelRange, hp, hmid y hy]
  · intro y _ hyn
    simp [listDelRange, hyn]

/-- The entries from `b` to `e` are unlinked. -/
theorem ring_listDelRange {b : α} (h : Ring m p (xs ++ (zs ++ e :: ys)))
    (hb : (zs ++ [e]).head? = some b) : Ring (listDelRange b e m) p (xs ++ ys) := by
  rcases List.eq_nil_or_concat' xs with rfl | ⟨ws, w, rfl⟩
  · exact ring_listDelRange_first h hb
  · rw [List.append_assoc] at h ⊢
    have hw : Ring m w (zs ++ e :: ys ++ p :: ws) := ring_rotate.mp h
    rw [List.append_assoc, List.cons_append] at hw
    exact ring_rotate.mpr (ring_listDelRange_first hw hb)

theorem listDelRange_other {b : α} (h : Ring m p xs) (hb : b ∈ p :: xs) (he : e ∈ p :: xs)
    (hy : y ∉ p :: xs) : listDelRange b e m y = m y := by
  have hb : y ≠ (m b).prev := fun heq => hy (heq ▸ (h.links_mem hb).2)
  have he : y ≠ (m e).next := fun heq => hy (heq ▸ (h.links_mem he).1)
  ext
  · simp [listDelRange, hb]
  · simp [listDelRange, he]

/-! ## Replacing and moving -/

/-- A node takes the place of another one; one in the place of the head of an empty list is the head
of an empty list. -/
theorem ring_listReplace (h : Ring m p xs) (hn : n ∉ p :: xs) : Ring (listReplace p n m) n xs := by
  have hnp : n ≠ p := by
    rintro rfl
    exact hn List.mem_cons_self
  rcases eq_or_ne xs [] with rfl | hne
  · refine ⟨List.nodup_singleton n, ?_, ?_⟩
    · simp [listReplace, h.next_nil]
    · simp [listReplace, h.next_nil]
  · have hfirst := h.next_mem_entries hne
    have hlast := h.prev_mem_entries hne
    have hfn : (m p).next ≠ n := fun heq => hn (heq ▸ List.mem_cons_of_mem p hfirst)
    have hln : (m p).prev ≠ n := fun heq => hn (heq ▸ List.mem_cons_of_mem p hlast)
    have hpf : p ≠ (m p).next := fun heq => h.head_notMem (heq ▸ hfirst)
    refine h.rename hn (fun heq => absurd heq hne) (fun _ => ⟨?_, ?_⟩) (fun _ => ⟨?_, ?_⟩) ?_ ?_
    · simp [listReplace, hpf, hln.symm]
    · simp [listReplace, hfn]
    · simp [listReplace, hpf]
    · simp [listReplace, hpf]
    · intro y hy hyl
      have hyn : y ≠ n := fun heq => hn (heq ▸ List.mem_cons_of_mem p hy)
      simp [listReplace, hpf, hyl, hyn]
    · intro y hy hyf
      have hyn : y ≠ n := fun heq => hn (heq ▸ List.mem_cons_of_mem p hy)
      simp [listReplace, hyf, hyn]

/-- A replacement touches the new node and the two neighbours of the old one. -/
theorem listReplace_other (h : Ring m p xs) (hy : y ∉ p :: xs) (hn : y ≠ n) :
    listReplace p n m y = m y := by
  have hnext : y ≠ (m p).next := fun heq => hy (heq ▸ (h.links_mem List.mem_cons_self).1)
  have hprev : y ≠ (m p).prev := fun heq => hy (heq ▸ (h.links_mem List.mem_cons_self).2)
  ext
  · -- what the code takes for the old predecessor is the new node when the list is empty
    have hseam : y ≠ if p = (m p).next then n else (m p).prev := by
      split
      · exact hn
      · exact hprev
    simp [listReplace, hn, hseam]
  · simp [listReplace, hn, hnext]

/-! ## Splicing and cutting -/

/-- Splicing touches nodes of the two rings. -/
theorem rawListSplice_other {prev next : α} (hl : Ring m l xs) (hy : y ∉ l :: xs)
    (hprev : y ≠ prev) (hnext : y ≠ next) : rawListSplice l prev next m y = m y := by
  have hf : y ≠ (m l).next := fun heq => hy (heq ▸ (hl.links_mem List.mem_cons_self).1)
  have hz : y ≠ (m l).prev := fun heq => hy (heq ▸ (hl.links_mem List.mem_cons_self).2)
  ext <;> simp [rawListSplice, hf, hprev, hz, hnext]

/-- The entries of `l` go between `p` and what follows it. -/
theorem ring_rawListSplice (hl : Ring m l (e :: xs)) (h : Ring m p ys)
    (hdisj : List.Disjoint (l :: e :: xs) (p :: ys)) :
    Ring (rawListSplice l p (m p).next m) p (e :: xs ++ ys) := by
  have hlast : (m l).prev ∈ e :: xs := hl.seg.2.prev_mem
  have hfirst : (m p).next ∈ p :: ys := (h.links_mem List.mem_cons_self).1
  have hne : (m l).prev ≠ p := by
    intro heq
    exact hdisj (List.mem_cons_of_mem l hlast) (heq ▸ List.mem_cons_self)
  have hne' : e ≠ (m p).next := by
    rintro rfl
    exact hdisj (List.mem_cons_of_mem l List.mem_cons_self) hfirst
  refine hl.splice h ?_ ⟨?_, ?_⟩ ⟨?_, ?_⟩ ?_ ?_
  · intro y hy hy'
    exact hdisj (List.mem_cons_of_mem l hy) hy'
  · simp [rawListSplice, hne.symm, hl.next_cons]
  · simp [rawListSplice, hl.next_cons, hne']
  · simp [rawListSplice]
  · simp [rawListSplice]
  · intro y hy hyl
    have hyp : y ≠ p := by
      rintro rfl
      rcases List.mem_append.mp hy with hy | hy
      · exact hdisj (List.mem_cons_of_mem l hy) List.mem_cons_self
      · exact h.head_notMem hy
    simp [rawListSplice, hyl, hyp]
  · intro y hy hyf
    have hye : y ≠ e := by
      rintro rfl
      rcases List.mem_append.mp hy with hy | hy
      · exact (List.nodup_cons.mp hl.entries_nodup).1 hy
      · exact hdisj (List.mem_cons_of_mem l List.mem_cons_self) hy
    simp [rawListSplice, hl.next_cons, hyf, hye]

/-- The entries up to `e` are moved to `l`, whatever `l` held. -/
theorem ring_rawListCutPosition (h : Ring m p (xs ++ e :: ys)) (hl : l ∉ p :: (xs ++ e :: ys)) :
    Ring (rawListCutPosition l p e m) l (xs ++ [e]) ∧ Ring (rawListCutPosition l p e m) p ys := by
  have hmid : e ∈ p :: (xs ++ e :: ys) := by simp
  have hlp : l ≠ p := fun heq => hl (heq ▸ List.mem_cons_self)
  have hle : l ≠ e := fun heq => hl (heq ▸ hmid)
  have hlf : l ≠ (m p).next := fun heq => hl (heq ▸ (h.links_mem List.mem_cons_self).1)
  have hlr : l ≠ (m e).next := fun heq => hl (heq ▸ (h.links_mem hmid).1)
  have hep : e ≠ p := by
    rintro rfl
    exact h.head_notMem (by simp)
  have hfr : (m p).next ≠ (m e).next := by
    intro heq
    exact hep (h.next_inj List.mem_cons_self hmid heq).symm
  refine h.cut hl ⟨?_, ?_⟩ ⟨?_, ?_⟩ ⟨?_, ?_⟩ ?_ ?_
  · simp [rawListCutPosition, hlp, hle]
  · simp [rawListCutPosition, hlf.symm, hfr]
  · simp [rawListCutPosition, hep]
  · simp [rawListCutPosition, hlr]
  · simp [rawListCutPosition]
  · simp [rawListCutPosition]
  · intro y hy
    have hye : y ≠ e := h.ne_entry (List.mem_cons_of_mem p hy)
    have hmem : y ∈ xs ++ e :: ys := by
      rw [List.mem_append] at hy ⊢
      exact hy.imp id (List.mem_cons_of_mem e)
    have hyp : y ≠ p := fun heq => h.head_notMem (heq ▸ hmem)
    have hyl : y ≠ l := fun heq => hl (heq ▸ List.mem_cons_of_mem p hmem)
    simp [rawListCutPosition, hyp, hye, hyl]
  · intro y hy hyf hyr
    have hyl : y ≠ l := by
      rintro rfl
      apply hl
      simp only [List.mem_append, List.mem_cons, List.not_mem_nil, or_false] at hy ⊢
      tauto
    simp [rawListCutPosition, hyf, hyr, hyl]

/-- A cut touches nodes of the ring and the new head. -/
theorem rawListCutPosition_other (h : Ring m p xs) (he : e ∈ p :: xs)
    (hy : y ∉ p :: xs) (hyl : y ≠ l) : rawListCutPosition l p e m y = m y := by
  have hyp : y ≠ p := fun heq => hy (heq ▸ List.mem_cons_self)
  have hye : y ≠ e := fun heq => hy (heq ▸ he)
  have hf : y ≠ (m p).next := fun heq => hy (heq ▸ (h.links_mem List.mem_cons_self).1)
  have hr : y ≠ (m e).next := fun heq => hy (heq ▸ (h.links_mem he).1)
  ext <;> simp [rawListCutPosition, hyp, hye, hyl, hf, hr]

end KernelDev.Lists
