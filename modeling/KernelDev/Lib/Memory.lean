/-
# KernelDev.Lib.Memory — bytes in memory and the integers they are

Memory is a byte at every 64-bit address, and an integer is stored with its least significant byte
first. `load` takes consecutive bytes; what is written behind each other is loaded in pieces.
-/
import Mathlib.Data.Nat.Digits.Lemmas

namespace KernelDev.Lib

/-! ## Little-endian integers -/

/-- The `n` low bytes of `x`, least significant first. -/
def leBytes : Nat → Nat → List UInt8
  | 0, _ => []
  | n + 1, x => UInt8.ofNat x :: leBytes n (x / 256)

/-- The number some bytes are. -/
def readLe (bytes : List UInt8) : Nat := Nat.ofDigits 256 (bytes.map UInt8.toNat)

@[simp] theorem leBytes_length (n x : Nat) : (leBytes n x).length = n := by
  induction n generalizing x with
  | zero => rfl
  | succ n ih => rw [leBytes, List.length_cons, ih]

theorem readLe_cons (b : UInt8) (bs : List UInt8) :
    readLe (b :: bs) = b.toNat + 256 * readLe bs := by
  simp [readLe, Nat.ofDigits_cons]

/-- **A number that fits is read back.** -/
theorem readLe_leBytes {n x : Nat} (h : x < 256 ^ n) : readLe (leBytes n x) = x := by
  induction n generalizing x with
  | zero =>
      obtain rfl : x = 0 := by simpa using h
      rfl
  | succ n ih =>
      have hdiv : x / 256 < 256 ^ n := by
        rw [pow_succ] at h
        exact Nat.div_lt_of_lt_mul (Nat.mul_comm (256 ^ n) 256 ▸ h)
      rw [leBytes, readLe_cons, ih hdiv, UInt8.toNat_ofNat']
      omega

/-- Bytes are digits. -/
theorem toNat_lt_of_mem_map (bytes : List UInt8) : ∀ d ∈ bytes.map UInt8.toNat, d < 256 := by
  intro d hd
  obtain ⟨b, _, rfl⟩ := List.mem_map.mp hd
  exact b.toNat_lt

theorem readLe_lt (bytes : List UInt8) : readLe bytes < 256 ^ bytes.length := by
  have hlt := Nat.ofDigits_lt_base_pow_length (by omega) (toNat_lt_of_mem_map bytes)
  rwa [List.length_map] at hlt

/-- Bytes of one length are the same number only if they are the same. -/
theorem readLe_inj {bs bs' : List UInt8} (hlen : bs.length = bs'.length)
    (h : readLe bs = readLe bs') : bs = bs' := by
  have hmap : bs.map UInt8.toNat = bs'.map UInt8.toNat :=
    Nat.ofDigits_inj_of_len_eq (by omega) (by simpa using hlen) (toNat_lt_of_mem_map bs)
      (toNat_lt_of_mem_map bs') h
  exact List.map_injective_iff.mpr (fun a b hab => UInt8.toNat_inj.mp hab) hmap

/-! ## Memory -/

/-- The bytes of a process. -/
abbrev Memory := UInt64 → UInt8

/-- The `n` bytes at `a`. -/
def load (mem : Memory) : UInt64 → Nat → List UInt8
  | _, 0 => []
  | a, n + 1 => mem a :: load mem (a + 1) n

variable {mem : Memory} {a b : UInt64}

@[simp] theorem load_length (a : UInt64) (n : Nat) : (load mem a n).length = n := by
  induction n generalizing a with
  | zero => rfl
  | succ n ih => rw [load, List.length_cons, ih]

/-- What is loaded in one piece is loaded in two. -/
theorem load_add (a : UInt64) (m n : Nat) :
    load mem a (m + n) = load mem a m ++ load mem (a + UInt64.ofNat m) n := by
  induction m generalizing a with
  | zero => simp [load]
  | succ m ih =>
      have haddr : a + 1 + UInt64.ofNat m = a + UInt64.ofNat (m + 1) := by
        rw [UInt64.ofNat_add, UInt64.add_assoc, UInt64.add_comm 1]
        rfl
      rw [Nat.succ_add, load, load, ih, haddr, List.cons_append]

/-- A part of what is loaded is loaded from where it begins. -/
theorem load_part {k n m : Nat} (h : k + n ≤ m) :
    load mem (a + UInt64.ofNat k) n = ((load mem a m).drop k).take n := by
  obtain ⟨r, rfl⟩ := Nat.exists_eq_add_of_le h
  rw [Nat.add_assoc, load_add, load_add, List.drop_left' (load_length a k),
    List.take_left' (load_length _ n)]

/-- Memory with these bytes at `a` and zeros elsewhere. -/
def Memory.ofBytes (a : UInt64) (bytes : List UInt8) : Memory := fun x =>
  bytes.getD (x - a).toNat 0

theorem Memory.ofBytes_eq_zero {bytes : List UInt8} (h : bytes.length ≤ (b - a).toNat) :
    Memory.ofBytes a bytes b = 0 := by
  rw [ofBytes, List.getD_eq_getElem?_getD, List.getElem?_eq_none h]
  rfl

/-! ## Storing -/

theorem load_eq_map (mem : Memory) (a : UInt64) (n : Nat) :
    load mem a n = (List.range n).map fun i => mem (a + UInt64.ofNat i) := by
  induction n generalizing a with
  | zero => rfl
  | succ n ih =>
      have hnext : ∀ i, a + 1 + UInt64.ofNat i = a + UInt64.ofNat (i + 1) := fun i => by
        rw [UInt64.ofNat_add, UInt64.add_assoc, UInt64.add_comm 1]
        rfl
      rw [load, ih, List.range_succ_eq_map, List.map_cons, List.map_map]
      simp only [hnext]
      rw [show UInt64.ofNat 0 = 0 from rfl, UInt64.add_zero]
      rfl

/-- The bytes are put at `a`. -/
def store (mem : Memory) (a : UInt64) (bytes : List UInt8) : Memory := fun x =>
  bytes.getD (x - a).toNat (mem x)

/-- **The frame.** What is not among the places stored to keeps its byte. -/
theorem store_of_le {bytes : List UInt8} {x : UInt64} (h : bytes.length ≤ (x - a).toNat) :
    store mem a bytes x = mem x := by
  rw [store, List.getD_eq_getElem?_getD, List.getElem?_eq_none h]
  rfl

/-- **What is stored is loaded.** -/
theorem load_store {bytes : List UInt8} (h : bytes.length < UInt64.size) :
    load (store mem a bytes) a bytes.length = bytes := by
  rw [load_eq_map]
  apply List.ext_getElem
  · rw [List.length_map, List.length_range]
  · intro i hi hi'
    have hoff : (a + UInt64.ofNat i - a).toNat = i := by
      rw [UInt64.add_comm, UInt64.add_sub_cancel]
      exact UInt64.toNat_ofNat_of_lt' (Nat.lt_trans hi' h)
    rw [List.getElem_map, List.getElem_range, store, hoff, List.getD_eq_getElem?_getD,
      List.getElem?_eq_getElem hi']
    rfl

/-- What is loaded is determined by the bytes it is loaded from. -/
theorem load_congr {mem' : Memory} {n : Nat}
    (h : ∀ i < n, mem (a + UInt64.ofNat i) = mem' (a + UInt64.ofNat i)) :
    load mem a n = load mem' a n := by
  rw [load_eq_map, load_eq_map]
  exact List.map_congr_left fun i hi => h i (List.mem_range.mp hi)

/-! ## Integers in memory -/

def readU32 (mem : Memory) (a : UInt64) : UInt32 := UInt32.ofNat (readLe (load mem a 4))

def readU64 (mem : Memory) (a : UInt64) : UInt64 := UInt64.ofNat (readLe (load mem a 8))

/-- **An integer is read back where it was written.** -/
theorem readU32_eq {x : UInt32} (h : load mem a 4 = leBytes 4 x.toNat) : readU32 mem a = x := by
  rw [readU32, h, readLe_leBytes x.toNat_lt, UInt32.ofNat_toNat]

theorem readU64_eq {x : UInt64} (h : load mem a 8 = leBytes 8 x.toNat) : readU64 mem a = x := by
  rw [readU64, h, readLe_leBytes x.toNat_lt, UInt64.ofNat_toNat]

/-- The same integer is read only from the same bytes. -/
theorem readU32_eq_iff : readU32 mem a = readU32 mem b ↔ load mem a 4 = load mem b 4 := by
  constructor
  · intro h
    have hlt : ∀ c, readLe (load mem c 4) < UInt32.size := fun c => by
      have hc := readLe_lt (load mem c 4)
      rwa [load_length] at hc
    have hnat := congrArg UInt32.toNat h
    rw [readU32, readU32, UInt32.toNat_ofNat_of_lt' (hlt a), UInt32.toNat_ofNat_of_lt' (hlt b)]
      at hnat
    exact readLe_inj (by rw [load_length, load_length]) hnat
  · intro h
    rw [readU32, readU32, h]

end KernelDev.Lib
