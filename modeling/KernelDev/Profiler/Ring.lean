/-
# KernelDev.Profiler.Ring — the profiler buffer as a ring of the last samples

`mp3_work_function` looks whether the next sample fits only when it has one to store, so at the end
of the buffer `sampling_idx` stands behind it until then. With nothing else writing to the buffer
its slots are those of a ring (`KernelDev.Lib.Ring`).
-/
import KernelDev.Lib.Ring
import KernelDev.Profiler.Sampling

namespace KernelDev.Profiler

open KernelDev.Lib

/-! ## Slots of four words -/

/-- A sample that is all marker. -/
def emptySample : Sample := ⟨marker, marker, marker, marker⟩

theorem emptySample_word (k : Nat) : emptySample.word k = marker := by
  unfold Sample.word emptySample
  split
  · rfl
  · rfl
  · rfl
  · rfl

/-- The four words of a slot. -/
def slotAt (mem : Nat → UInt64) (j : Nat) : Sample :=
  ⟨mem (4 * j), mem (4 * j + 1), mem (4 * j + 2), mem (4 * j + 3)⟩

def slotCount (pageSize : Nat) : Nat := memBufSize pageSize / sampleSize

/-- Where `storeSample` stores, in bytes. -/
def Mp3.storeIdx (pageSize : Nat) (s : Mp3) : Nat :=
  if s.samplingIdx + sampleSize > memBufSize pageSize then 0 else s.samplingIdx

variable {pageSize : Nat}

/-- The buffer is made of whole slots. -/
theorem sampleSize_mul_slotCount : sampleSize * slotCount pageSize = memBufSize pageSize := by
  unfold slotCount memBufSize sampleSize pageCount
  omega

theorem slotCount_pos (hpage : 0 < pageSize) : 0 < slotCount pageSize := by
  unfold slotCount memBufSize sampleSize pageCount
  omega

theorem slotAt_eq {mem : Nat → UInt64} {j : Nat} {w : Sample}
    (h : ∀ k < 4, mem (4 * j + k) = w.word k) : slotAt mem j = w := by
  have h₀ : mem (4 * j) = w.jiffies := h 0 (by omega)
  have h₁ : mem (4 * j + 1) = w.minFlt := h 1 (by omega)
  have h₂ : mem (4 * j + 2) = w.majFlt := h 2 (by omega)
  have h₃ : mem (4 * j + 3) = w.cpuUtil := h 3 (by omega)
  rw [slotAt, h₀, h₁, h₂, h₃]

theorem slotAt_congr {mem mem' : Nat → UInt64} {j : Nat}
    (h : ∀ k < 4, mem (4 * j + k) = mem' (4 * j + k)) : slotAt mem j = slotAt mem' j := by
  apply slotAt_eq
  intro k hk
  rw [h k hk]
  rcases k with _ | _ | _ | _ | k
  · rfl
  · rfl
  · rfl
  · rfl
  · omega

/-- Storing a sample at a slot replaces this slot. -/
theorem slotAt_putWords (mem : Nat → UInt64) (i : Nat) (w : Sample) (j : Nat) :
    slotAt (putWords mem (sampleSize * i) w) j = if j = i then w else slotAt mem j := by
  have hoff : sampleSize * i / 8 = 4 * i := by
    unfold sampleSize
    omega
  by_cases hji : j = i
  · rw [if_pos hji]
    apply slotAt_eq
    intro k hk
    rw [putWords_apply, hoff, if_pos (by omega), hji, Nat.add_sub_cancel_left]
  · rw [if_neg hji]
    apply slotAt_congr
    intro k hk
    rw [putWords_apply, hoff, if_neg (by omega)]

/-! ## The invariant -/

/-- The buffer is the ring of the samples written. -/
structure RingKept (pageSize : Nat) (s : Mp3) : Prop where
  cursor : ∃ i, s.samplingIdx = sampleSize * i ∧
    CursorAt (slotCount pageSize) s.written.length i
  slots : ∀ j < slotCount pageSize,
    slotAt s.memBuffer j = ring (slotCount pageSize) emptySample s.written j

theorem ringKept_vmallocMemBuffer (memory : Nat → UInt64) (jiffies : UInt64) :
    RingKept pageSize (vmallocMemBuffer pageSize memory jiffies) where
  cursor := ⟨0, rfl, Nat.zero_le _, rfl⟩
  slots := by
    intro j hj
    have hsize : sampleSize * slotCount pageSize = memBufSize pageSize := sampleSize_mul_slotCount
    apply slotAt_eq (w := emptySample)
    intro k hk
    have hin : 4 * j + k < memBufSize pageSize / 8 := by
      unfold sampleSize at hsize
      omega
    show (if 4 * j + k < memBufSize pageSize / 8 then marker else memory (4 * j + k)) = _
    rw [if_pos hin, emptySample_word]

/-- The store is at the slot of the next sample. -/
theorem RingKept.storeIdx_eq {s : Mp3} (h : RingKept pageSize s) :
    s.storeIdx pageSize = sampleSize * (s.written.length % slotCount pageSize) := by
  obtain ⟨i, hidx, hcursor⟩ := h.cursor
  rw [← hcursor.wrapped_eq, Mp3.storeIdx, hidx, ← sampleSize_mul_slotCount, ← Nat.mul_succ]
  unfold wrapped sampleSize
  by_cases hend : i + 1 > slotCount pageSize
  · rw [if_pos hend, if_pos (Nat.mul_lt_mul_of_pos_left hend (by omega))]
  · rw [if_neg hend, if_neg (Nat.not_lt.mpr (Nat.mul_le_mul_left _ (Nat.not_lt.mp hend)))]

/-- **A store of `mp3_work_function` is inside the buffer and keeps the ring.** -/
theorem RingKept.storeSample {s : Mp3} (h : RingKept pageSize s) (hpage : 0 < pageSize)
    (w : Sample) :
    s.storeIdx pageSize + sampleSize ≤ memBufSize pageSize ∧
      RingKept pageSize (storeSample pageSize w s) := by
  have hstore := h.storeIdx_eq
  have hslot := Nat.mod_lt s.written.length (slotCount_pos hpage)
  obtain ⟨i, hidx, hcursor⟩ := h.cursor
  have hwritten : (Profiler.storeSample pageSize w s).written = s.written ++ [w] := rfl
  have hmem : (Profiler.storeSample pageSize w s).memBuffer =
      putWords s.memBuffer (s.storeIdx pageSize) w := rfl
  have hnext : (Profiler.storeSample pageSize w s).samplingIdx =
      s.storeIdx pageSize + sampleSize := rfl
  refine ⟨?_, ⟨wrapped (slotCount pageSize) i + 1, ?_, ?_⟩, fun j hj => ?_⟩
  · rw [hstore, ← sampleSize_mul_slotCount, ← Nat.mul_succ]
    exact Nat.mul_le_mul_left _ hslot
  · rw [hnext, hstore, ← hcursor.wrapped_eq, ← Nat.mul_succ]
  · rw [hwritten, List.length_append, List.length_singleton]
    exact hcursor.succ (slotCount_pos hpage)
  · rw [hmem, hwritten, hstore, slotAt_putWords, ring_concat, Function.update_apply, h.slots j hj]

/-! ## Runs -/

variable {msecsToJiffies : UInt32 → UInt64} {jiffiesToMsecs : UInt64 → UInt32}

/-- Only a store changes the buffer. -/
theorem RingKept.effect {s t : Sampler} {act : SamplerAct} (h : RingKept pageSize s.mp3)
    (hpage : 0 < pageSize)
    (he : SamplerEffect msecsToJiffies pageSize jiffiesToMsecs s act t) :
    RingKept pageSize t.mp3 := by
  cases he with
  | store hphase => exact (h.storeSample hpage _).2
  | tick | stamp => exact ⟨h.cursor, h.slots⟩
  | register | unregister | increment | start | checkReturn | checkPass | requeue | acquire
  | readNone | read => exact h

/-- The sample that a step stores: the sums of the execution, with the time. -/
def storedBy (x : Transition Sampler SamplerAct) : Option Sample :=
  match x.act, x.pre.phase with
  | .store, .reading [] totals => some (totals.sample x.pre.mp3.jiffies)
  | _, _ => none

/-- The history holds the samples that the steps of the run stored. -/
theorem written_eq {s t : Sampler} {tr : List (Transition Sampler SamplerAct)}
    (h : Exec (samplerStep msecsToJiffies pageSize jiffiesToMsecs) s tr t) :
    t.mp3.written = s.mp3.written ++ tr.filterMap storedBy := by
  let written (s : Sampler) : List Sample := s.mp3.written
  have hstep : ∀ x ∈ tr, written x.post =
      ((storedBy x).map fun w => written x.pre ++ [w]).getD (written x.pre) := by
    rintro ⟨s, act, t⟩ hx
    have he : SamplerEffect msecsToJiffies pageSize jiffiesToMsecs s act t :=
      samplerEffect_of_step (h.isStep _ hx)
    cases he with
    | store hphase => simp [written, storedBy, hphase, storeSample]
    | register | unregister | increment | tick | start | checkReturn | checkPass | requeue
    | stamp | acquire | readNone | read => rfl
  have hrun : written t = (tr.filterMap storedBy).foldl (fun ws w => ws ++ [w]) (written s) :=
    h.view_foldl hstep
  rw [List.foldl_append_eq_append, ← List.flatMap_def, List.flatMap_singleton'] at hrun
  exact hrun

/-- **Along a run that nothing reads from, the samples written are those its stores stored, every
store is inside the buffer, `sampling_idx` is at a sample's border and not past the end, and each
slot holds the latest of the samples that went there, or -1 throughout.** -/
theorem buffer_ring (hpage : 0 < pageSize) {memory : Nat → UInt64} {jiffies : UInt64}
    {live : Finset UInt32} {counters : UInt32 → CpuUse}
    {tr : List (Transition Sampler SamplerAct)} {s : Sampler}
    (h : Exec (samplerStep msecsToJiffies pageSize jiffiesToMsecs)
      (Sampler.boot (vmallocMemBuffer pageSize memory jiffies) live counters) tr s) :
    s.mp3.written = tr.filterMap storedBy ∧
      (∀ x ∈ tr, x.act = .store →
        x.pre.mp3.storeIdx pageSize + sampleSize ≤ memBufSize pageSize) ∧
      sampleSize ∣ s.mp3.samplingIdx ∧ s.mp3.samplingIdx ≤ memBufSize pageSize ∧
      ∀ j < slotCount pageSize,
        (∀ m, IsGreatest {m | m < s.mp3.written.length ∧ m % slotCount pageSize = j} m →
          s.mp3.written[m]? = some (slotAt s.mp3.memBuffer j)) ∧
        ((∀ m < s.mp3.written.length, m % slotCount pageSize ≠ j) →
          slotAt s.mp3.memBuffer j = emptySample) := by
  obtain ⟨hall, hlast⟩ := h.invariant (I := fun s => RingKept pageSize s.mp3)
    (ringKept_vmallocMemBuffer memory jiffies)
    fun x hx hI => hI.effect hpage (samplerEffect_of_step hx)
  obtain ⟨i, hidx, hcursor⟩ := hlast.cursor
  refine ⟨written_eq h, fun x hx _ => ((hall x hx).1.storeSample hpage emptySample).1, ⟨i, hidx⟩,
    ?_, fun j hj => ⟨fun m hm => ?_, fun hnone => ?_⟩⟩
  · rw [hidx, ← sampleSize_mul_slotCount]
    exact Nat.mul_le_mul_left _ hcursor.le
  · rw [hlast.slots j hj]
    exact getElem?_of_isGreatest hm
  · rw [hlast.slots j hj]
    exact ring_of_forall_ne hnone

/-- What process 7 uses in a period. -/
def periodUse : CpuUse := ⟨3, 1, 10, 2⟩

/-- Its sample number `n`. -/
def periodSample (n : Nat) : Sample := ⟨UInt64.ofNat (50 * n) + 50, 3, 1, 12⟩

/-- Process 7 is registered, `n` samples have been stored, the last of them just now, and the
process has run since. -/
structure PeriodsDone (n : Nat) (s : Sampler) : Prop where
  phase : s.phase = .idle
  dwork : s.dwork = some (50 * n + 50)
  now : s.now = 50 * n
  listed : s.processList = [7]
  live : s.live = {7}
  counters : s.counters 7 = periodUse
  clock : s.mp3.jiffies = UInt64.ofNat (50 * n)
  old : s.mp3.oldJiffies = UInt64.ofNat (50 * n)
  written : s.mp3.written = (List.range n).map periodSample

/-- One more period, at whose end the work function goes through without delay. -/
theorem PeriodsDone.period {n : Nat} {s : Sampler} (h : PeriodsDone n s) :
    ∃ tr t, Exec hz1000 s tr t ∧ PeriodsDone (n + 1) t := by
  obtain ⟨mp3, listed, live, counters, now, dwork, phase, registered⟩ := s
  obtain ⟨rfl, rfl, rfl, rfl, rfl, hcounters, hclock, hold, hwritten⟩ := h
  replace hcounters : counters 7 = periodUse := hcounters
  replace hclock : mp3.jiffies = UInt64.ofNat (50 * n) := hclock
  replace hold : mp3.oldJiffies = UInt64.ofNat (50 * n) := hold
  let ticked : Mp3 := { mp3 with jiffies := mp3.jiffies + UInt64.ofNat 50 }
  let started : Sampler := ⟨ticked, [7], {7}, counters, 50 * n + 50, none, .started, registered⟩
  let stamped : Sampler := ⟨{ ticked with oldJiffies := ticked.jiffies }, [7], {7}, counters,
    50 * n + 50, some (50 * n + 50 + 50), .stamped, registered⟩
  have htick : Exec hz1000
      ⟨mp3, [7], {7}, counters, 50 * n, some (50 * n + 50), .idle, registered⟩ _ _ :=
    .single (a := .tick 50) rfl
  have hstart := htick.snoc (a := .start) (u := started) (by
    simp [hz1000, samplerStep, started, ticked])
  have helapsed : Sampler.elapsedMs (·.toUInt32) started = 50 := by
    show (mp3.jiffies + UInt64.ofNat 50 - mp3.oldJiffies).toUInt32 = 50
    rw [hclock, hold, UInt64.add_comm, UInt64.add_sub_cancel]
    rfl
  have hcheck := hstart.snoc (a := .check) (u := { started with phase := .passed }) (by
    rw [hz1000, samplerStep, if_pos rfl, helapsed]
    rfl)
  have hstamp := (hcheck.snoc (a := .requeue) rfl).snoc (a := .stamp) (u := stamped) rfl
  have hacquire := hstamp.snoc (a := .acquire) rfl
  have hread := hacquire.snoc (a := .read) (u := { stamped with
    counters := Function.update counters 7 .zero
    phase := .reading [] (Totals.zero.add periodUse) }) (by
      simp [hz1000, samplerStep, readEntry, getCpuUse, stamped, hcounters])
  have hstore := hread.snoc (a := .store) rfl
  have hused := hstore.snoc (a := .increment 7 periodUse) rfl
  have hclock' : ticked.jiffies = UInt64.ofNat (50 * (n + 1)) := by
    rw [Nat.mul_succ, UInt64.ofNat_add, ← hclock]
  refine ⟨_, _, hused, rfl, rfl, rfl, rfl, rfl, rfl, hclock', hclock', ?_⟩
  have hsample : (Totals.zero.add periodUse).sample ticked.jiffies = periodSample n := by
    show Sample.mk (mp3.jiffies + UInt64.ofNat 50) _ _ _ = _
    rw [hclock]
    rfl
  show mp3.written ++ [(Totals.zero.add periodUse).sample ticked.jiffies] = _
  rw [hsample, List.range_succ, List.map_append, ← hwritten]
  rfl

/-- The work function runs at the end of each of `n` periods. -/
theorem exists_periods (n : Nat) : ∃ tr s, Exec hz1000 quietSampler tr s ∧ PeriodsDone n s := by
  induction n with
  | zero =>
      have hregister : Exec hz1000 quietSampler _ _ := .single (a := .register 7 true) rfl
      exact ⟨_, _, hregister, rfl, rfl, rfl, rfl, rfl, rfl, rfl, rfl, rfl⟩
  | succ n ih =>
      obtain ⟨tr, s, hexec, hdone⟩ := ih
      obtain ⟨tr', t, hperiod, hnext⟩ := hdone.period
      exact ⟨_, t, hexec.trans hperiod, hnext⟩

/-- The buffer has 16384 slots: after 16385 samples the last of them is in slot 0, in the place of
the first, and the second one still in slot 1. -/
theorem buffer_ring_wrapped : ∃ tr s, Exec hz1000 quietSampler tr s ∧
    s.mp3.written.length = 16385 ∧ slotAt s.mp3.memBuffer 0 = periodSample 16384 ∧
      slotAt s.mp3.memBuffer 1 = periodSample 1 := by
  obtain ⟨tr, s, hexec, hdone⟩ := exists_periods 16385
  have hslots := (buffer_ring (by decide) hexec).2.2.2.2
  have hcount : slotCount 4096 = 16384 := by decide
  have hlength : s.mp3.written.length = 16385 := by
    rw [hdone.written, List.length_map, List.length_range]
  have hat : ∀ m < 16385, s.mp3.written[m]? = some (periodSample m) := by
    intro m hm
    rw [hdone.written, List.getElem?_map, List.getElem?_range hm]
    rfl
  rw [hcount, hlength] at hslots
  refine ⟨tr, s, hexec, hlength, ?_, ?_⟩
  · have hlast := (hslots 0 (by decide)).1 16384 ⟨⟨by decide, by decide⟩, fun m hm => ?_⟩
    · exact Option.some.inj (hlast.symm.trans (hat 16384 (by decide)))
    · exact Nat.le_of_lt_succ hm.1
  · have hsecond := (hslots 1 (by decide)).1 1 ⟨⟨by decide, by decide⟩, fun m hm => ?_⟩
    · exact Option.some.inj (hsecond.symm.trans (hat 1 (by decide)))
    · obtain ⟨hlt, hmod⟩ := hm
      omega

end KernelDev.Profiler
