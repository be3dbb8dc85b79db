/-
# KernelDev.Profiler.Monitor — the read loop of the monitor program

The monitor looks for a word that is not the marker among the first `BUFD_MAX` of the mapped
buffer and then prints words four at a time, overwriting each with the marker and going back to the
first word after `BUFD_MAX` of them, until a tuple would start with the marker.

* `monitorMain_done` — the loop always comes to its end;
* `monitorMain_accounts` — every live word printed is one live cell less, and the cells above
  `BUFD_MAX` are not touched;
* `monitorMain_laidOut` — on a buffer that holds samples in order below `BUFD_MAX`, the monitor
  prints exactly the ones still there.
-/
import KernelDev.Lib.MarkedCells
import KernelDev.Profiler.Buffer

namespace KernelDev.Profiler

open KernelDev.Lib

/-! ## The program -/

/-- `BUFD_MAX`, in words. -/
def bufdMax : Nat := 48000

/-- The mapped buffer, `index`, and the tuples printed. -/
structure Monitor where
  buf : Nat → UInt64
  index : Nat
  out : List Sample

/-- Read the word at `index`, put the marker there and go to the next word. -/
def takeWord (m : Monitor) : UInt64 × Monitor :=
  (m.buf m.index,
    { m with
      buf := Function.update m.buf m.index marker
      index := if m.index + 1 ≥ bufdMax then 0 else m.index + 1 })

/-- One pass of the `while` loop: print one tuple. -/
def printTuple (m : Monitor) : Monitor :=
  let (jiffies, m) := takeWord m
  let (minFlt, m) := takeWord m
  let (majFlt, m) := takeWord m
  let (cpuUtil, m) := takeWord m
  { m with out := m.out ++ [⟨jiffies, minFlt, majFlt, cpuUtil⟩] }

/-- The `while` loop, for at most `fuel` passes. -/
def drain : Nat → Monitor → Monitor
  | 0, m => m
  | fuel + 1, m => if m.buf m.index ≠ marker then drain fuel (printTuple m) else m

/-- The loops of `main`. There is a pass for every word the monitor can reach. -/
def monitorMain (buf : Nat → UInt64) : Monitor :=
  drain (bufdMax + 1) ⟨buf, firstLive marker buf bufdMax 0, []⟩

/-! ## One tuple -/

/-- The number of words of a tuple that are not the marker. -/
def Sample.live (w : Sample) : Nat :=
  Lib.live marker w.jiffies + Lib.live marker w.minFlt + Lib.live marker w.majFlt +
    Lib.live marker w.cpuUtil

theorem Sample.Unmarked.live_eq {w : Sample} (h : w.Unmarked) : w.live = 4 := by
  simp [Sample.live, live_of_ne, h.jiffies, h.minFlt, h.majFlt, h.cpuUtil]

theorem takeWord_index_lt (m : Monitor) : (takeWord m).2.index < bufdMax := by
  show (if m.index + 1 ≥ bufdMax then 0 else m.index + 1) < bufdMax
  split
  · decide
  · omega

theorem takeWord_live {N : Nat} {m : Monitor} (hm : m.index < N) :
    liveCells marker N (takeWord m).2.buf + Lib.live marker (takeWord m).1 =
      liveCells marker N m.buf := liveCells_clear marker hm m.buf

theorem takeWord_above {m : Monitor} (hm : m.index ≤ bufdMax) {i : Nat} (hi : bufdMax < i) :
    (takeWord m).2.buf i = m.buf i := by
  have hne : i ≠ m.index := by omega
  simp [takeWord, hne]

/-- The tuple a pass prints. -/
def tupleAt (m : Monitor) : Sample :=
  let m₁ := (takeWord m).2
  let m₂ := (takeWord m₁).2
  let m₃ := (takeWord m₂).2
  ⟨(takeWord m).1, (takeWord m₁).1, (takeWord m₂).1, (takeWord m₃).1⟩

theorem printTuple_out (m : Monitor) : (printTuple m).out = m.out ++ [tupleAt m] := rfl

theorem printTuple_index_lt (m : Monitor) : (printTuple m).index < bufdMax := takeWord_index_lt _

theorem printTuple_live {N : Nat} (hN : bufdMax < N) {m : Monitor} (hm : m.index ≤ bufdMax) :
    liveCells marker N (printTuple m).buf + (tupleAt m).live = liveCells marker N m.buf := by
  have h₀ := takeWord_live (m := m) (Nat.lt_of_le_of_lt hm hN)
  have h₁ := takeWord_live (m := (takeWord m).2) (Nat.lt_trans (takeWord_index_lt m) hN)
  have h₂ := takeWord_live (m := (takeWord (takeWord m).2).2)
    (Nat.lt_trans (takeWord_index_lt _) hN)
  have h₃ := takeWord_live (m := (takeWord (takeWord (takeWord m).2).2).2)
    (Nat.lt_trans (takeWord_index_lt _) hN)
  show liveCells marker N (takeWord (takeWord (takeWord (takeWord m).2).2).2).2.buf +
    (tupleAt m).live = _
  simp only [tupleAt, Sample.live]
  omega

theorem printTuple_above {m : Monitor} (hm : m.index ≤ bufdMax) {i : Nat} (hi : bufdMax < i) :
    (printTuple m).buf i = m.buf i := by
  show (takeWord (takeWord (takeWord (takeWord m).2).2).2).2.buf i = m.buf i
  rw [takeWord_above (Nat.le_of_lt (takeWord_index_lt _)) hi,
    takeWord_above (Nat.le_of_lt (takeWord_index_lt _)) hi,
    takeWord_above (Nat.le_of_lt (takeWord_index_lt _)) hi, takeWord_above hm hi]

/-! ## The loop -/

theorem drain_of_marker {fuel : Nat} {m : Monitor} (h : m.buf m.index = marker) :
    drain fuel m = m := by
  cases fuel with
  | zero => rfl
  | succ fuel => simp [drain, h]

theorem drain_of_live {fuel : Nat} {m : Monitor} (h : m.buf m.index ≠ marker) :
    drain (fuel + 1) m = drain fuel (printTuple m) := by
  rw [drain, if_pos h]

/-- A pass on a live word leaves fewer live cells, so as many passes as there are live cells are
enough. -/
theorem drain_done {fuel : Nat} {m : Monitor} (hm : m.index ≤ bufdMax)
    (hfuel : liveCells marker (bufdMax + 1) m.buf ≤ fuel) :
    (drain fuel m).buf (drain fuel m).index = marker := by
  induction fuel generalizing m with
  | zero =>
      show m.buf m.index = marker
      by_contra hlive
      have hpos := liveCells_pos (N := bufdMax + 1) (by omega) hlive
      omega
  | succ fuel ih =>
      by_cases hlive : m.buf m.index = marker
      · rw [drain_of_marker hlive]
        exact hlive
      · rw [drain_of_live hlive]
        apply ih (Nat.le_of_lt (printTuple_index_lt m))
        -- the first word of the tuple was live, so one live cell less at least
        have hcount := printTuple_live (N := bufdMax + 1) (by omega) hm
        have htuple : 1 ≤ (tupleAt m).live := by
          have hfirst : (tupleAt m).jiffies ≠ marker := hlive
          simp only [Sample.live, live_of_ne hfirst]
          omega
        omega

/-- What the loop prints it takes out of the buffer below `BUFD_MAX`. -/
theorem drain_accounts {N : Nat} (hN : bufdMax < N) (fuel : Nat) {m : Monitor}
    (hm : m.index ≤ bufdMax) :
    ∃ printed, (drain fuel m).out = m.out ++ printed ∧
      liveCells marker N (drain fuel m).buf + (printed.map Sample.live).sum =
        liveCells marker N m.buf ∧
      ∀ i, bufdMax < i → (drain fuel m).buf i = m.buf i := by
  induction fuel generalizing m with
  | zero => exact ⟨[], by simp [drain], by simp [drain], fun _ _ => rfl⟩
  | succ fuel ih =>
      by_cases hlive : m.buf m.index = marker
      · rw [drain_of_marker hlive]
        exact ⟨[], by simp, by simp, fun _ _ => rfl⟩
      · rw [drain_of_live hlive]
        obtain ⟨printed, hout, hcount, habove⟩ := ih (Nat.le_of_lt (printTuple_index_lt m))
        refine ⟨tupleAt m :: printed, ?_, ?_, fun i hi => ?_⟩
        · rw [hout, printTuple_out, List.append_assoc, List.singleton_append]
        · have htuple := printTuple_live hN hm
          rw [List.map_cons, List.sum_cons]
          omega
        · rw [habove i hi, printTuple_above hm hi]

/-! ## The whole program -/

theorem firstLive_le (buf : Nat → UInt64) : firstLive marker buf bufdMax 0 ≤ bufdMax := by
  simpa using (firstLive_spec marker buf bufdMax 0).2.1

/-- **The monitor runs to its end**: the loop stops because the next word is the marker. -/
theorem monitorMain_done (buf : Nat → UInt64) :
    (monitorMain buf).buf (monitorMain buf).index = marker :=
  drain_done (firstLive_le buf) (liveCells_le _ _ _)

/-- **Every live word printed is a live cell less, and cells above `BUFD_MAX` stay.** -/
theorem monitorMain_accounts {N : Nat} (hN : bufdMax < N) (buf : Nat → UInt64) :
    liveCells marker N (monitorMain buf).buf + ((monitorMain buf).out.map Sample.live).sum =
        liveCells marker N buf ∧
      ∀ i, bufdMax < i → (monitorMain buf).buf i = buf i := by
  have hstart : (Monitor.mk buf (firstLive marker buf bufdMax 0) []).index ≤ bufdMax :=
    firstLive_le buf
  obtain ⟨printed, hout, hcount, habove⟩ := drain_accounts hN (bufdMax + 1) hstart
  have hprinted : (monitorMain buf).out = printed := by simpa [monitorMain] using hout
  exact ⟨by rw [hprinted]; exact hcount, habove⟩

/-! ## A buffer with samples in order -/

/-- The word of a list of samples, the first `done` of them taken out, that belongs to cell `i`. -/
def wordAt (ws : List Sample) (done i : Nat) : UInt64 :=
  match ws[i / 4]? with
  | some w => if done ≤ i / 4 then w.word (i % 4) else marker
  | none => marker

/-- The buffer up to `BUFD_MAX` holds the samples from its beginning, `done` of them taken out. -/
def LaidOut (ws : List Sample) (done : Nat) (buf : Nat → UInt64) : Prop :=
  ∀ i ≤ bufdMax, buf i = wordAt ws done i

theorem wordAt_live {ws : List Sample} {done k : Nat} (hk : k < ws.length) (hdone : done ≤ k)
    {j : Nat} (hj : j < 4) : wordAt ws done (4 * k + j) = ws[k].word j := by
  have hdiv : (4 * k + j) / 4 = k := by omega
  have hmod : (4 * k + j) % 4 = j := by omega
  simp [wordAt, hdiv, hmod, hk, hdone]

theorem wordAt_empty {ws : List Sample} {done i : Nat} (hi : i / 4 < done ∨ ws.length ≤ i / 4) :
    wordAt ws done i = marker := by
  unfold wordAt
  split
  · next w hw =>
      have hlt : i / 4 < ws.length := (List.getElem?_eq_some_iff.mp hw).1
      rw [if_neg (by omega)]
  · rfl

/-- Four words in a row below `BUFD_MAX`. -/
theorem printTuple_eq {m : Monitor} (hm : m.index + 3 < bufdMax) :
    tupleAt m = ⟨m.buf m.index, m.buf (m.index + 1), m.buf (m.index + 2), m.buf (m.index + 3)⟩ ∧
      (∀ i, (printTuple m).buf i =
        if m.index ≤ i ∧ i < m.index + 4 then marker else m.buf i) ∧
      (printTuple m).index = if m.index + 4 ≥ bufdMax then 0 else m.index + 4 := by
  have h₁ : ¬ m.index + 1 ≥ bufdMax := by omega
  have h₂ : ¬ m.index + 1 + 1 ≥ bufdMax := by omega
  have h₃ : ¬ m.index + 1 + 1 + 1 ≥ bufdMax := by omega
  refine ⟨?_, fun i => ?_, ?_⟩
  · simp [tupleAt, takeWord, h₁, h₂, h₃, Nat.add_assoc]
  · simp only [printTuple, takeWord, if_neg h₁, if_neg h₂, if_neg h₃, Function.update_apply]
    by_cases hi : m.index ≤ i ∧ i < m.index + 4
    · rw [if_pos hi]
      split_ifs <;> first | rfl | omega
    · rw [if_neg hi, if_neg (by omega), if_neg (by omega), if_neg (by omega), if_neg (by omega)]
  · simp only [printTuple, takeWord, if_neg h₁, if_neg h₂, if_neg h₃]

/-- A pass at the first sample left prints it and takes it out. -/
theorem printTuple_laidOut {ws : List Sample} {a : Nat} {m : Monitor}
    (hfit : 4 * ws.length ≤ bufdMax)
    (ha : a < ws.length) (hbuf : LaidOut ws a m.buf) (hm : m.index = 4 * a) :
    tupleAt m = ws[a] ∧ LaidOut ws (a + 1) (printTuple m).buf ∧
      (printTuple m).index = if 4 * (a + 1) ≥ bufdMax then 0 else 4 * (a + 1) := by
  have hroom : m.index + 3 < bufdMax := by omega
  obtain ⟨htuple, hcells, hindex⟩ := printTuple_eq hroom
  have hword : ∀ j < 4, m.buf (4 * a + j) = ws[a].word j := fun j hj => by
    rw [hbuf _ (by omega), wordAt_live ha (Nat.le_refl a) hj]
  refine ⟨?_, fun i hi => ?_, ?_⟩
  · rw [htuple, hm]
    have h₀ := hword 0 (by omega)
    rw [Nat.add_zero] at h₀
    rw [h₀, hword 1 (by omega), hword 2 (by omega), hword 3 (by omega)]
    rfl
  · rw [hcells, hm]
    by_cases hcell : 4 * a ≤ i ∧ i < 4 * a + 4
    · rw [if_pos hcell, wordAt_empty (.inl (by omega))]
    · rw [if_neg hcell, hbuf i hi]
      unfold wordAt
      split
      · have hle : a ≤ i / 4 ↔ a + 1 ≤ i / 4 := by omega
        simp only [hle]
      · rfl
  · rw [hindex, hm]
    rfl

/-- The loop, started at the first sample left, prints all that are left. -/
theorem drain_laidOut {ws : List Sample} (hmarked : ∀ w ∈ ws, w.Unmarked)
    (hfit : 4 * ws.length ≤ bufdMax) {fuel a : Nat} {m : Monitor} (hfuel : ws.length - a ≤ fuel)
    (ha : a < ws.length) (hbuf : LaidOut ws a m.buf) (hm : m.index = 4 * a) :
    (drain fuel m).out = m.out ++ ws.drop a ∧ LaidOut ws ws.length (drain fuel m).buf := by
  induction fuel generalizing a m with
  | zero => omega
  | succ fuel ih =>
      have hlive : m.buf m.index ≠ marker := by
        have hword := wordAt_live ha (Nat.le_refl a) (j := 0) (by omega)
        rw [Nat.add_zero] at hword
        rw [hbuf _ (by omega), hm, hword]
        exact (hmarked _ (List.getElem_mem ha)).word 0
      obtain ⟨htuple, hbuf', hindex⟩ := printTuple_laidOut hfit ha hbuf hm
      have hdrop : ws.drop a = ws[a] :: ws.drop (a + 1) := List.drop_eq_getElem_cons ha
      rw [drain_of_live hlive]
      rcases Nat.lt_or_ge (a + 1) ws.length with hlt | hge
      · have hnext : (printTuple m).index = 4 * (a + 1) := by
          rw [hindex, if_neg (by omega)]
        obtain ⟨hout, hlaid⟩ := ih (by omega) hlt hbuf' hnext
        refine ⟨?_, hlaid⟩
        rw [hout, printTuple_out, htuple, hdrop, List.append_assoc, List.singleton_append]
      · -- the last sample: every cell is empty now, the one the loop stops at too
        have hall : a + 1 = ws.length := by omega
        have hstop : (printTuple m).buf (printTuple m).index = marker := by
          have hle : (printTuple m).index ≤ bufdMax := Nat.le_of_lt (printTuple_index_lt m)
          rw [hbuf' _ hle]
          exact wordAt_empty (by omega)
        rw [drain_of_marker hstop]
        refine ⟨?_, hall ▸ hbuf'⟩
        rw [printTuple_out, htuple, hdrop, List.drop_of_length_le (by omega)]

/-- **On a buffer with samples in order below `BUFD_MAX` the monitor prints the ones still there, in
order, and leaves it empty.** -/
theorem monitorMain_laidOut {ws : List Sample} (hmarked : ∀ w ∈ ws, w.Unmarked)
    (hfit : 4 * ws.length ≤ bufdMax) {a : Nat} (ha : a ≤ ws.length) {buf : Nat → UInt64}
    (hbuf : LaidOut ws a buf) :
    (monitorMain buf).out = ws.drop a ∧ LaidOut ws ws.length (monitorMain buf).buf := by
  obtain ⟨-, hle, hempty, hlive⟩ := firstLive_spec marker buf bufdMax 0
  rw [Nat.zero_add] at hle hlive
  rcases Nat.eq_or_lt_of_le ha with rfl | hlt
  · -- nothing is left, and the scan ends behind the last word
    have hstop : buf (firstLive marker buf bufdMax 0) = marker := by
      rw [hbuf _ hle]
      exact wordAt_empty (by omega)
    have hmain : monitorMain buf = ⟨buf, firstLive marker buf bufdMax 0, []⟩ :=
      drain_of_marker hstop
    rw [hmain]
    exact ⟨by simp, hbuf⟩
  · have hword : buf (4 * a) ≠ marker := by
      have hfirst := wordAt_live hlt (Nat.le_refl a) (j := 0) (by omega)
      rw [Nat.add_zero] at hfirst
      rw [hbuf _ (by omega), hfirst]
      exact (hmarked _ (List.getElem_mem hlt)).word 0
    have hstart : firstLive marker buf bufdMax 0 = 4 * a := by
      rcases Nat.lt_trichotomy (firstLive marker buf bufdMax 0) (4 * a) with h | h | h
      · refine absurd ?_ (hlive (by omega))
        rw [hbuf _ hle]
        exact wordAt_empty (by omega)
      · exact h
      · exact absurd (hempty _ (Nat.zero_le _) h) hword
    have hfuel : ws.length - a ≤ bufdMax + 1 := by omega
    exact drain_laidOut hmarked hfit hfuel hlt hbuf hstart

end KernelDev.Profiler
