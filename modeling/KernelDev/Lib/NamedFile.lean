/-
# KernelDev.Lib.NamedFile — files behind names

A name is bound to a file or to none; what is written goes to the file that the writer opened, at
the writer's own position, whatever the name is bound to by then. A file outlives its name, so a
file is never handed out twice.

`FileSystem.Homed` says of which name every file once was the file. A file that two names share was
linked to both by hand, and there is none such here: opening one name neither truncates nor returns
the file of another (`create_data_other`, `create_home`).
-/
import Mathlib.Logic.Function.Basic
import Mathlib.Data.List.TakeDrop

namespace KernelDev.Lib

/-- A file, named or not. -/
abbrev Inode := Nat

/-- Bytes written at a position of a file; a position past the end leaves zeros before it. -/
def overwrite (old : List UInt8) (pos : Nat) (bytes : List UInt8) : List UInt8 :=
  (old ++ List.replicate (pos - old.length) 0).take pos ++ bytes ++ old.drop (pos + bytes.length)

/-- Written at its end a file grows. -/
theorem overwrite_length (old bytes : List UInt8) :
    overwrite old old.length bytes = old ++ bytes := by
  simp [overwrite]

structure FileSystem (Name : Type*) where
  names : Name → Option Inode
  data : Inode → List UInt8
  /-- Files are handed out from here on. -/
  next : Inode

namespace FileSystem

variable {Name : Type*} [DecidableEq Name]

/-- `open(name, O_WRONLY | O_CREAT | O_TRUNC)`. -/
def create (name : Name) (fs : FileSystem Name) : Inode × FileSystem Name :=
  match fs.names name with
  | some i => (i, { fs with data := Function.update fs.data i [] })
  | none =>
      (fs.next,
        { names := Function.update fs.names name (some fs.next)
          data := Function.update fs.data fs.next []
          next := fs.next + 1 })

omit [DecidableEq Name] in
/-- `write` to the open file `i` at `pos`. -/
def write (i : Inode) (pos : Nat) (bytes : List UInt8) (fs : FileSystem Name) : FileSystem Name :=
  { fs with data := Function.update fs.data i (overwrite (fs.data i) pos bytes) }

/-- `unlink(name)`. -/
def unlink (name : Name) (fs : FileSystem Name) : FileSystem Name :=
  { fs with names := Function.update fs.names name none }

variable {fs : FileSystem Name} {name other : Name}

/-! ## Opening for writing -/

/-- The name is bound to what is opened, and that is empty. -/
theorem create_names (fs : FileSystem Name) (name : Name) :
    (fs.create name).2.names name = some (fs.create name).1 := by
  unfold create
  cases h : fs.names name with
  | some i => exact h
  | none => simp

theorem create_data (fs : FileSystem Name) (name : Name) :
    (fs.create name).2.data (fs.create name).1 = [] := by
  unfold create
  cases fs.names name <;> simp

theorem create_names_other (h : other ≠ name) :
    (fs.create name).2.names other = fs.names other := by
  unfold create
  cases fs.names name with
  | some i => rfl
  | none => simp [h]

theorem next_le_create (fs : FileSystem Name) (name : Name) :
    fs.next ≤ (fs.create name).2.next := by
  unfold create
  cases fs.names name with
  | some i => exact Nat.le_refl _
  | none => exact Nat.le_succ _

/-! ## The name of a file -/

/-- Every bound file has been handed out, and is that of one name. -/
structure Homed (fs : FileSystem Name) (home : Inode → Name) : Prop where
  bound : ∀ name i, fs.names name = some i → home i = name
  handedOut : ∀ name i, fs.names name = some i → i < fs.next

variable {home : Inode → Name} (h : Homed fs home)
include h

/-- Files of other names keep what they hold. -/
theorem Homed.create_data_other (hne : other ≠ name) {i : Inode} (hi : fs.names other = some i) :
    (fs.create name).2.data i = fs.data i := by
  unfold create
  cases hname : fs.names name with
  | some j =>
      have hij : i ≠ j := by
        rintro rfl
        exact hne ((h.bound other i hi).symm.trans (h.bound name i hname))
      simp [hij]
  | none =>
      have hij : i ≠ fs.next := Nat.ne_of_lt (h.handedOut other i hi)
      simp [hij]

/-- What is opened is the file of its name, and the files handed out before stay that of theirs. -/
theorem Homed.create_home (name : Name) :
    ∃ home' : Inode → Name, Homed (fs.create name).2 home' ∧
      home' (fs.create name).1 = name ∧ (fs.create name).1 < (fs.create name).2.next ∧
      ∀ i < fs.next, home' i = home i := by
  unfold create
  cases hname : fs.names name with
  | some i =>
      exact ⟨home, ⟨h.bound, h.handedOut⟩, h.bound name i hname, h.handedOut name i hname,
        fun _ _ => rfl⟩
  | none =>
      have hold : ∀ i < fs.next, Function.update home fs.next name i = home i := fun i hi =>
        Function.update_of_ne (Nat.ne_of_lt hi) _ _
      have hcase : ∀ n i, Function.update fs.names name (some fs.next) n = some i →
          n = name ∧ i = fs.next ∨ fs.names n = some i := by
        intro n i hn
        by_cases hnn : n = name
        · subst hnn
          exact .inl ⟨rfl, by simpa using hn.symm⟩
        · exact .inr (by simpa [hnn] using hn)
      refine ⟨Function.update home fs.next name, ⟨?_, ?_⟩, Function.update_self ..,
        Nat.lt_succ_self _, hold⟩
      · intro n i hn
        rcases hcase n i hn with ⟨rfl, rfl⟩ | hn
        · exact Function.update_self ..
        · rw [hold i (h.handedOut n i hn), h.bound n i hn]
      · intro n i hn
        rcases hcase n i hn with ⟨rfl, rfl⟩ | hn
        · exact Nat.lt_succ_self _
        · exact Nat.lt_succ_of_lt (h.handedOut n i hn)

omit [DecidableEq Name] in
theorem Homed.write (i : Inode) (pos : Nat) (bytes : List UInt8) :
    Homed (fs.write i pos bytes) home := ⟨h.bound, h.handedOut⟩

theorem Homed.unlink (name : Name) : Homed (fs.unlink name) home := by
  have hcase : ∀ n i, (fs.unlink name).names n = some i → fs.names n = some i := by
    intro n i hn
    by_cases hnn : n = name
    · simp [FileSystem.unlink, hnn] at hn
    · simpa [FileSystem.unlink, hnn] using hn
  exact ⟨fun n i hn => h.bound n i (hcase n i hn), fun n i hn => h.handedOut n i (hcase n i hn)⟩

omit [DecidableEq Name] in
/-- A write to the file of one name leaves the file of another. -/
theorem Homed.write_data_other {i j : Inode} (hi : fs.names name = some i) (hj : home j ≠ name)
    (pos : Nat) (bytes : List UInt8) : (fs.write j pos bytes).data i = fs.data i := by
  have hij : i ≠ j := by
    rintro rfl
    exact hj (h.bound name i hi)
  simp [FileSystem.write, hij]

end FileSystem

end KernelDev.Lib
