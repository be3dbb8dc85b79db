/-
# KernelDev.Wire.Reads — the listings the two proc files deliver

`mp2_read` and `mp3_read` share their loop and its flaw: `*offp` is moved by the running total and
not by the entry. What they deliver is what they should for at most two entries. They stay inside
their buffer as long as the entries fit where they are printed. And they copy what `kmalloc` left in
the buffer as soon as more is asked for than the first two entries.
-/
import KernelDev.Profiler.Read
import KernelDev.Profiler.Sampling
import KernelDev.Rms.Read
import KernelDev.Rms.System

namespace KernelDev.Wire

open KernelDev.Lib

variable {memory memory' : Nat → UInt8} {accessible accessible' count count' : Nat}

/-! ## The listing -/

/-- `mp2_read` delivers the listing, and the next read of the file returns 0. -/
structure Mp2Lists (memory memory' : Nat → UInt8) (accessible accessible' count count' : Nat)
    (s s' : Rms.Mp2) : Prop where
  first : Rms.mp2ReadFormat.Lists (Rms.mp2Read memory accessible s count 0) s.records
  next : (Rms.mp2Read memory' accessible' s' count'
    (Rms.mp2Read memory accessible s count 0).offp).ret = 0

/-- The same of `mp3_read`. -/
structure Mp3Lists (memory memory' : Nat → UInt8) (accessible accessible' count count' : Nat)
    (t t' : Profiler.Sampler) : Prop where
  first : Profiler.mp3ReadFormat.Lists (Profiler.mp3Read memory accessible t count 0) t.processList
  next : (Profiler.mp3Read memory' accessible' t' count'
    (Profiler.mp3Read memory accessible t count 0).offp).ret = 0

theorem mp2Skips_iff (count : Nat) (l : List Rms.Mp2TaskStruct) :
    Rms.mp2ReadFormat.Skips count l ↔ ∀ r ∈ l.head?, count ≤ r.line.length := by
  refine forall₂_congr fun r _ => ?_
  rw [Rms.mp2Overflows_iff (ReadFormat.text_length_le_intMax Rms.mp2ReadFormat r)]
  exact or_iff_right Bool.false_ne_true

theorem mp3Skips_iff (count : Nat) (l : List UInt32) :
    Profiler.mp3ReadFormat.Skips count l ↔ l = [] ∨ count < 4 := by
  cases l with
  | nil => exact iff_of_true (fun pid h => by cases h) (.inl rfl)
  | cons pid pids =>
      have hne : pid :: pids ≠ [] := List.cons_ne_nil pid pids
      have hskips : Profiler.mp3ReadFormat.Skips count (pid :: pids) ↔
          Profiler.mp3ReadFormat.full 0 count = true := by
        unfold ReadFormat.Skips
        rw [List.head?_cons]
        exact ⟨fun h => (h pid rfl).resolve_right Bool.false_ne_true, fun h _ _ => .inl h⟩
      rw [hskips, Profiler.mp3Full_iff, or_iff_right hne, Nat.zero_add]

variable (memory memory') in
/-- **The two files deliver their listing, and 0 next, exactly when it has at most two entries and,
if it has none, the next read counts none.** The lists may have changed in between. -/
theorem listing_exact_iff (hcopy : copyToUser accessible count = 0)
    (hcopy' : copyToUser accessible' count' = 0) {s : Rms.Mp2} {t : Profiler.Sampler}
    (hfits : (Rms.mp2ReadFormat.listing s.records).length < count)
    (hfits' : (Profiler.mp3ReadFormat.listing t.processList).length < count) (s' : Rms.Mp2)
    (t' : Profiler.Sampler) :
    (Mp2Lists memory memory' accessible accessible' count count' s s' ↔
        s.records.length ≤ 2 ∧
          (s.records = [] → ∀ r ∈ s'.records.head?, count' ≤ r.line.length)) ∧
      (Mp3Lists memory memory' accessible accessible' count count' t t' ↔
        t.processList.length ≤ 2 ∧
          (t.processList = [] → t'.processList = [] ∨ count' < 4)) := by
  have hmp2 : Mp2Lists memory memory' accessible accessible' count count' s s' ↔ _ ∧ _ :=
    ⟨fun h => ⟨h.first, h.next⟩, fun h => ⟨h.1, h.2⟩⟩
  have hmp3 : Mp3Lists memory memory' accessible accessible' count count' t t' ↔ _ ∧ _ :=
    ⟨fun h => ⟨h.first, h.next⟩, fun h => ⟨h.1, h.2⟩⟩
  rw [hmp2, hmp3, ← mp2Skips_iff, ← mp3Skips_iff]
  exact ⟨ReadFormat.listing_iff hcopy hcopy' hfits s'.records,
    ReadFormat.listing_iff hcopy hcopy' hfits' t'.processList⟩

/-- Tasks of 200 in 1000 ms with these pids. -/
def tasksOf (pids : List UInt32) : Rms.Mp2 :=
  { Rms.Mp2.boot (fun a => ⟨pids.getD a 0, 1000, 200, 0, 7, .sleeping⟩) 0 with
    live := List.range pids.length
    nextRec := pids.length
    mp2ProcessList := List.range pids.length }

/-- A profiler with these pids registered. -/
def profiledOf (pids : List UInt32) : Profiler.Sampler :=
  { Profiler.quietSampler with processList := pids }

theorem listing_exact_two :
    Mp2Lists (fun _ => 0) (fun _ => 0) 4096 4096 4096 4096 (tasksOf [7, 8]) (tasksOf [7, 8]) ∧
      Mp3Lists (fun _ => 0) (fun _ => 0) 4096 4096 4096 4096 (profiledOf [7, 8])
        (profiledOf [7, 8]) := by
  have hcopy : copyToUser 4096 4096 = 0 := by decide
  have hmp2 : (Rms.mp2ReadFormat.listing (tasksOf [7, 8]).records).length < 4096 := by
    decide +kernel
  have hmp3 : (Profiler.mp3ReadFormat.listing (profiledOf [7, 8]).processList).length < 4096 := by
    decide +kernel
  have hexact := listing_exact_iff (fun _ => 0) (fun _ => 0) hcopy hcopy hmp2 hmp3 (tasksOf [7, 8])
    (profiledOf [7, 8])
  rw [hexact.1, hexact.2]
  exact ⟨⟨by decide, fun h => by cases h⟩, ⟨by decide, fun h => by cases h⟩⟩

/-- Three tasks are not listed, in a buffer of 4096 bytes. -/
theorem listing_exact_fails :
    (Rms.mp2ReadFormat.listing (tasksOf [7, 8, 9]).records).length < 4096 ∧
      (Profiler.mp3ReadFormat.listing [7, 8, 9]).length < 4096 ∧
      (¬ ∀ s : Rms.Mp2, (Rms.mp2ReadFormat.listing s.records).length < 4096 →
        Mp2Lists (fun _ => 0) (fun _ => 0) 4096 4096 4096 4096 s s) ∧
      ¬ ∀ t : Profiler.Sampler, (Profiler.mp3ReadFormat.listing t.processList).length < 4096 →
        Mp3Lists (fun _ => 0) (fun _ => 0) 4096 4096 4096 4096 t t := by
  have hmp2 : (Rms.mp2ReadFormat.listing (tasksOf [7, 8, 9]).records).length < 4096 := by
    decide +kernel
  have hmp3 : (Profiler.mp3ReadFormat.listing [7, 8, 9]).length < 4096 := by decide +kernel
  refine ⟨hmp2, hmp3, fun hall => ?_, fun hall => ?_⟩
  · have hlists := (hall (tasksOf [7, 8, 9]) hmp2).first
    have hthree := (ReadFormat.lists_iff (by decide) hmp2).mp hlists
    exact absurd hthree (by decide)
  · have hlists := (hall (profiledOf [7, 8, 9]) hmp3).first
    have hthree := (ReadFormat.lists_iff (by decide) hmp3).mp hlists
    exact absurd hthree (by decide)

/-! ## The buffer -/

variable (memory accessible count) in
/-- A read at another offset than 0 prints nothing. -/
theorem contained_of_offp_ne {α : Type*} (R : ReadFormat α) {offp : Nat} (h : offp ≠ 0)
    (l : List α) :
    (R.read memory accessible l count offp).Contained count ∧
      (R.read memory accessible l count offp).Allotted count := by
  rw [ReadFormat.read_of_offp_ne h]
  exact ⟨⟨(fun s hs => by cases hs), Int.natCast_nonneg count⟩,
    ⟨(fun s hs => by cases hs), Int.natCast_nonneg count⟩⟩

theorem contained_iff_of_offp {α : Type*} (R : ReadFormat α) {l : List α} {C A : Prop}
    (h : ((R.read memory accessible l count 0).Contained count ↔ C) ∧
      ((R.read memory accessible l count 0).Allotted count ↔ A)) (offp : Nat) :
    ((R.read memory accessible l count offp).Contained count ↔ offp ≠ 0 ∨ C) ∧
      ((R.read memory accessible l count offp).Allotted count ↔ offp ≠ 0 ∨ A) := by
  by_cases hoffp : offp = 0
  · rw [hoffp, or_iff_right (not_not.mpr rfl), or_iff_right (not_not.mpr rfl)]
    exact h
  · obtain ⟨hcontained, hallotted⟩ := contained_of_offp_ne memory accessible count R hoffp l
    exact ⟨iff_of_true hcontained (.inl hoffp), iff_of_true hallotted (.inl hoffp)⟩

/-- **A read stays inside its buffer exactly when the entries fit where they are printed; it stays
inside what each `snprintf` is told exactly when no second entry is printed.** -/
theorem reads_contained_iff (memory : Nat → UInt8) (accessible count offp : Nat) (s : Rms.Mp2)
    (t : Profiler.Sampler) :
    (((Rms.mp2Read memory accessible s count offp).Contained count ↔
          offp ≠ 0 ∨ intMax < count ∨ Rms.Mp2Fits count s.records) ∧
        ((Rms.mp2Read memory accessible s count offp).Allotted count ↔
          offp ≠ 0 ∨ intMax < count ∨ Rms.Mp2Alone count s.records)) ∧
      ((Profiler.mp3Read memory accessible t count offp).Contained count ↔
          offp ≠ 0 ∨ intMax < count ∨ Profiler.Mp3Fits accessible count t.processList) ∧
        ((Profiler.mp3Read memory accessible t count offp).Allotted count ↔
          offp ≠ 0 ∨ intMax < count ∨ Profiler.Mp3Alone accessible count t.processList) :=
  ⟨contained_iff_of_offp _ (Rms.mp2Read_contained_iff s.records) offp,
    contained_iff_of_offp _ (Profiler.mp3Read_contained_iff t.processList) offp⟩

/-- The second of two tasks is printed beyond the end of a buffer of 20 bytes; a buffer of 4 bytes
makes `mp3_read` report the 8 of a pid with five digits. -/
theorem reads_contained_fails :
    (¬ ∀ s : Rms.Mp2, (Rms.mp2Read (fun _ => 0) 20 s 20 0).Contained 20) ∧
      ¬ ∀ t : Profiler.Sampler, (Profiler.mp3Read (fun _ => 0) 4 t 4 0).Contained 4 := by
  refine ⟨fun hall => ?_, fun hall => ?_⟩
  · have hfits := (Rms.mp2Read_contained_iff _).1.mp (hall (tasksOf [7, 8]))
    revert hfits
    decide +kernel
  · have hret := (hall (profiledOf [12345])).ret
    revert hret
    decide +kernel

/-! ## What is copied -/

/-- **What a read leaves in the user's buffer is determined by the list and the count exactly when
it copies no more than the first two entries printed.** -/
theorem reads_determined_iff (accessible count offp : Nat) (s : Rms.Mp2) (t : Profiler.Sampler) :
    ((∀ memory memory' : Nat → UInt8, (Rms.mp2Read memory accessible s count offp).user =
          (Rms.mp2Read memory' accessible s count offp).user) ↔
        offp ≠ 0 ∨ intMax < count ∨ min accessible count ≤ Rms.mp2Filled s.records) ∧
      ((∀ memory memory' : Nat → UInt8, (Profiler.mp3Read memory accessible t count offp).user =
          (Profiler.mp3Read memory' accessible t count offp).user) ↔
        offp ≠ 0 ∨ intMax < count ∨
          min accessible count ≤ Profiler.mp3Filled count t.processList) := by
  by_cases hoffp : offp = 0
  · rw [hoffp, or_iff_right (not_not.mpr rfl), or_iff_right (not_not.mpr rfl)]
    exact ⟨Rms.mp2Read_determined_iff accessible count s.records,
      Profiler.mp3Read_determined_iff accessible count t.processList⟩
  · refine ⟨iff_of_true (fun m m' => ?_) (.inl hoffp), iff_of_true (fun m m' => ?_) (.inl hoffp)⟩
    · rw [Rms.mp2Read, Rms.mp2Read, ReadFormat.read_of_offp_ne hoffp,
        ReadFormat.read_of_offp_ne hoffp]
    · rw [Profiler.mp3Read, Profiler.mp3Read, ReadFormat.read_of_offp_ne hoffp,
        ReadFormat.read_of_offp_ne hoffp]

/-- With one task registered a read of 4096 bytes delivers what was in the buffer behind it. -/
theorem reads_determined_fails :
    (¬ ∀ (s : Rms.Mp2) (memory memory' : Nat → UInt8),
        (Rms.mp2Read memory 4096 s 4096 0).user = (Rms.mp2Read memory' 4096 s 4096 0).user) ∧
      ¬ ∀ (t : Profiler.Sampler) (memory memory' : Nat → UInt8),
        (Profiler.mp3Read memory 4096 t 4096 0).user =
          (Profiler.mp3Read memory' 4096 t 4096 0).user := by
  refine ⟨fun hall => ?_, fun hall => ?_⟩
  · have hfilled := (Rms.mp2Read_determined_iff 4096 4096 _).mp (hall (tasksOf [7]))
    revert hfilled
    decide +kernel
  · have hfilled := (Profiler.mp3Read_determined_iff 4096 4096 _).mp (hall (profiledOf [7]))
    revert hfilled
    decide +kernel

end KernelDev.Wire
