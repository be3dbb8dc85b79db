/-
# KernelDev.Runtime.Cleanup — the per-CPU cleanup table and the panic handler

A program runs with unwinding disabled: a panic runs no destructor. What a program must give back is
noted in a table of 64 entries, which the panic handler walks before it leaves through
`iu_landingpad`. `F` is the type of cleanup functions.
-/
import Mathlib.Data.List.Basic

namespace KernelDev.Runtime

variable {F : Type*}

/-- `ENTRIES_SIZE`. -/
def entriesSize : Nat := 64

/-! ## Entries -/

structure CleanupEntry (F : Type*) where
  valid : UInt64
  cleanupFn : Option F
  /-- A `*const ()`; `0` is null. -/
  cleanupArg : Nat
  deriving DecidableEq, Repr

namespace CleanupEntry

def new (cleanupFn : F) (cleanupArg : Nat) : CleanupEntry F := ⟨1, some cleanupFn, cleanupArg⟩

def default : CleanupEntry F := ⟨0, none, 0⟩

/-- The call `cleanup` makes. -/
def cleanup (e : CleanupEntry F) : Option (F × Nat) :=
  if e.valid ≠ 0 then e.cleanupFn.map fun f => (f, e.cleanupArg) else none

@[simp] theorem cleanup_new (f : F) (a : Nat) : (new f a).cleanup = some (f, a) := rfl

@[simp] theorem cleanup_default : (default : CleanupEntry F).cleanup = none := rfl

end CleanupEntry

/-! ## The table -/

/-- `CleanupEntries`: the table of one CPU. -/
structure CleanupEntries (F : Type*) where
  entries : List (CleanupEntry F)
  length_eq : entries.length = entriesSize

namespace CleanupEntries

/-- The table with no entry in use. -/
def fresh : CleanupEntries F := ⟨List.replicate entriesSize .default, List.length_replicate⟩

/-- `find_next_emtpy_entry`; `none` is the panic when the table is full. -/
def findNextEmtpyEntry (t : CleanupEntries F) : Option Nat :=
  t.entries.findIdx? fun e => e.valid == 0

/-- `cleanup_all`: the calls it makes, in order, and the table it leaves. -/
def cleanupAll (t : CleanupEntries F) : List (F × Nat) × CleanupEntries F :=
  (t.entries.filterMap CleanupEntry.cleanup,
    ⟨t.entries.map fun _ => .default, by rw [List.length_map, t.length_eq]⟩)

/-- The entry handed out is the first that is not in use. -/
theorem findNextEmtpyEntry_eq_some {t : CleanupEntries F} {idx : Nat} :
    t.findNextEmtpyEntry = some idx ↔ ∃ h : idx < t.entries.length,
      t.entries[idx].valid = 0 ∧ ∀ j, (hj : j < idx) → t.entries[j].valid ≠ 0 := by
  simp [findNextEmtpyEntry, List.findIdx?_eq_some_iff_getElem]

/-- A constructor is refused exactly when every entry is in use. -/
theorem findNextEmtpyEntry_eq_none {t : CleanupEntries F} :
    t.findNextEmtpyEntry = none ↔ ∀ e ∈ t.entries, e.valid ≠ 0 := by
  simp [findNextEmtpyEntry]

/-- **`cleanup_all` leaves no entry in use, whatever was registered.** -/
theorem cleanupAll_snd (t : CleanupEntries F) : t.cleanupAll.2 = fresh := by
  simp [cleanupAll, fresh, List.map_const', t.length_eq]

/-- An empty table has nothing to clean up. -/
@[simp] theorem cleanupAll_fresh : (fresh : CleanupEntries F).cleanupAll.1 = [] := by
  rw [cleanupAll, fresh, List.filterMap_eq_nil_iff]
  intro e he
  rw [List.eq_of_mem_replicate he]
  rfl

end CleanupEntries

/-! ## The message of a panic -/

/-- What the handler reads of a `PanicInfo`: `message()`, as the string it is when it has no format
arguments, and the payload when it is a string. -/
structure PanicInfo where
  message : Option (Option (List UInt8))
  payload : Option (List UInt8)
  deriving DecidableEq, Repr

/-- `Rust program panicked`, its newline and its NUL. -/
def panicDefault : List UInt8 :=
  [0x52, 0x75, 0x73, 0x74, 0x20, 0x70, 0x72, 0x6f, 0x67, 0x72, 0x61, 0x6d, 0x20, 0x70, 0x61, 0x6e,
    0x69, 0x63, 0x6b, 0x65, 0x64, 0x0a, 0x00]

/-- Copy `s` to the front of the zeroed buffer, cut so that a NUL remains. -/
def fillMsg (s : List UInt8) : List UInt8 :=
  s.take 127 ++ List.replicate (128 - min 127 s.length) 0

/-- `msg`, the 128 bytes handed to `iu_landingpad`. -/
def panicMsg (info : PanicInfo) : List UInt8 :=
  match info.message with
  | some (some s) => fillMsg s
  | some none => fillMsg panicDefault
  | none =>
      match info.payload with
      | some s => fillMsg s
      | none => fillMsg panicDefault

theorem fillMsg_length (s : List UInt8) : (fillMsg s).length = 128 := by
  simp only [fillMsg, List.length_append, List.length_take, List.length_replicate]
  omega

theorem fillMsg_last (s : List UInt8) : (fillMsg s)[127]? = some 0 := by
  have hlen : (s.take 127).length ≤ 127 := by
    rw [List.length_take]
    exact Nat.min_le_left _ _
  rw [fillMsg, List.getElem?_append_right hlen, List.getElem?_replicate_of_lt]
  rw [List.length_take]
  omega

/-- **The message fills its buffer and ends in NUL, whatever the panic says.** -/
theorem panicMsg_nulTerminated (info : PanicInfo) :
    (panicMsg info).length = 128 ∧ (panicMsg info)[127]? = some 0 := by
  have hfill : ∀ s, (fillMsg s).length = 128 ∧ (fillMsg s)[127]? = some 0 := fun s =>
    ⟨fillMsg_length s, fillMsg_last s⟩
  unfold panicMsg
  split
  · exact hfill _
  · exact hfill _
  · split <;> exact hfill _

end KernelDev.Runtime
