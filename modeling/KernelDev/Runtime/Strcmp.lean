/-
# KernelDev.Runtime.Strcmp — `bpf_strcmp` and `bpf_strncmp`

Both go through the characters of two strings side by side and stop at the first difference; the
second stops after `cnt` characters as well. A `str` is UTF-8, so what the first compares are the
bytes, and what the second compares are prefixes that end between two characters.
-/
import KernelDev.Lib.Comparison
import KernelDev.Lib.Utf8

namespace KernelDev.Runtime

open KernelDev.Lib

/-! ## The functions -/

/-- The loop of `bpf_strcmp`, on what is left of the two iterators. -/
def strcmpLoop : List Char → List Char → Int
  | c₁ :: cs₁, c₂ :: cs₂ =>
      if c₁ = c₂ then strcmpLoop cs₁ cs₂ else if c₁ < c₂ then -1 else 1
  | [], _ :: _ => -1
  | _ :: _, [] => 1
  | [], [] => 0

/-- `bpf_strcmp`. -/
def bpfStrcmp (s₁ s₂ : String) : Int := strcmpLoop s₁.toList s₂.toList

/-- The loop of `bpf_strncmp`, from `idx` on. -/
def strncmpLoop (cnt : Nat) : Nat → List Char → List Char → Int
  | idx, cs₁, cs₂ =>
      if idx < cnt then
        match cs₁, cs₂ with
        | c₁ :: cs₁, c₂ :: cs₂ =>
            if c₁ = c₂ then strncmpLoop cnt (idx + 1) cs₁ cs₂ else if c₁ < c₂ then -1 else 1
        | [], _ :: _ => -1
        | _ :: _, [] => 1
        | [], [] => 0
      else 0

/-- `bpf_strncmp`. -/
def bpfStrncmp (s₁ s₂ : String) (cnt : Nat) : Int := strncmpLoop cnt 0 s₁.toList s₂.toList

/-! ## What they compare -/

/-- The loop finds the first difference. -/
theorem strcmpLoop_eq (cs ds : List Char) : strcmpLoop cs ds = threeWay cs ds := by
  induction cs generalizing ds with
  | nil =>
      cases ds with
      | nil => rfl
      | cons d ds => exact (threeWay_nil_cons d ds).symm
  | cons c cs ih =>
      cases ds with
      | nil => exact (threeWay_cons_nil c cs).symm
      | cons d ds =>
          rw [strcmpLoop]
          split
          · next heq => rw [heq, threeWay_cons_self, ih]
          · next hne => exact (threeWay_cons_of_ne hne cs ds).symm

/-- After `idx` characters the loop compares what is left up to `cnt`. -/
theorem strncmpLoop_eq (cnt idx : Nat) (cs ds : List Char) :
    strncmpLoop cnt idx cs ds = strcmpLoop (cs.take (cnt - idx)) (ds.take (cnt - idx)) := by
  induction cs generalizing idx ds with
  | nil =>
      unfold strncmpLoop
      split
      · next hidx =>
          obtain ⟨n, hn⟩ := Nat.exists_eq_succ_of_ne_zero (Nat.sub_ne_zero_of_lt hidx)
          rw [hn]
          cases ds with
          | nil => rfl
          | cons d ds => rfl
      · next hend =>
          rw [Nat.sub_eq_zero_of_le (Nat.not_lt.mp hend)]
          rfl
  | cons c cs ih =>
      unfold strncmpLoop
      split
      · next hidx =>
          obtain ⟨n, hn⟩ := Nat.exists_eq_succ_of_ne_zero (Nat.sub_ne_zero_of_lt hidx)
          have hrest : cnt - (idx + 1) = n := by omega
          rw [hn]
          cases ds with
          | nil => rfl
          | cons d ds =>
              simp only [List.take_succ_cons, strcmpLoop, ih, hrest]
      · next hend =>
          rw [Nat.sub_eq_zero_of_le (Nat.not_lt.mp hend)]
          rfl

theorem bpfStrcmp_eq (s t : String) : bpfStrcmp s t = threeWay s.toList t.toList :=
  strcmpLoop_eq s.toList t.toList

theorem isComparison_bpfStrcmp : IsComparison bpfStrcmp := by
  apply isComparison_of_eq (g := String.toList) fun s t h => String.toList_inj.mp h
  intro s t
  rw [bpfStrcmp_eq]
  unfold threeWay
  congr

/-- The first `cnt` characters of a string. -/
def firstChars (cnt : Nat) (s : String) : String := String.ofList (s.toList.take cnt)

/-- A string of the first characters is a prefix, and what follows begins with a character. -/
theorem stringBytes_firstChars (cnt : Nat) (s : String) :
    stringBytes s = stringBytes (firstChars cnt s) ++ utf8 (s.toList.drop cnt) := by
  rw [stringBytes_eq, stringBytes_eq, firstChars, String.toList_ofList, ← utf8_append,
    List.take_append_drop]

/-- **`bpf_strcmp` compares the bytes of two strings, and `bpf_strncmp` those of the first `cnt`
characters.** -/
theorem bpfStrcmp_bytes :
    (∀ s t, bpfStrcmp s t = threeWay (stringBytes s) (stringBytes t)) ∧
      IsComparison bpfStrcmp ∧
      ∀ s t cnt, bpfStrncmp s t cnt = bpfStrcmp (firstChars cnt s) (firstChars cnt t) ∧
        (firstChars cnt s).length = min cnt s.length ∧
        stringBytes s = stringBytes (firstChars cnt s) ++ utf8 (s.toList.drop cnt) := by
  refine ⟨fun s t => ?_, isComparison_bpfStrcmp, fun s t cnt => ⟨?_, ?_, ?_⟩⟩
  · rw [bpfStrcmp_eq, stringBytes_eq, stringBytes_eq]
    exact threeWay_congr utf8_lt_iff.symm utf8_inj.symm
  · rw [bpfStrncmp, bpfStrcmp, strncmpLoop_eq, firstChars, firstChars, String.toList_ofList,
      String.toList_ofList]
    rfl
  · rw [firstChars, String.length_ofList, List.length_take]
    rfl
  · exact stringBytes_firstChars cnt s

end KernelDev.Runtime
