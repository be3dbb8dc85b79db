/-
# KernelDev.Profiler.HandOver — from the work function to the monitor, over any run

The kernel module and the monitor share the buffer and the marker and nothing else. The module
wraps around at the end of its 128 pages; the monitor goes back to the first word after `BUFD_MAX`
= 48000 words. With pages of 4096 bytes the buffer has 65536 words, so the two stop agreeing at
sample 12001.

`handsOver_iff` says exactly this: in a run the monitor hands over every sample, in order and once,
if and only if it is never run after more samples than `BUFD_MAX` words hold.
-/
import KernelDev.Lib.Execution
import KernelDev.Profiler.Monitor

namespace KernelDev.Profiler

open KernelDev.Lib

/-! ## The two programs together -/

/-- The module, and what all runs of the monitor have printed. -/
structure Session where
  kernel : Mp3
  printed : List Sample

/-- `work` is one execution of the work function; `monitor` is one run of the monitor. -/
inductive Act
  | tick (now : UInt64)
  | work (uses : List (Option CpuUse))
  | monitor
  deriving DecidableEq, Repr

def Act.isMonitor : Act → Bool
  | .monitor => true
  | _ => false

section
variable (pageSize : Nat) (jiffiesToMsecs : UInt64 → UInt32)

/-- Right after the buffer has been allocated. -/
def Session.boot (memory : Nat → UInt64) (jiffies : UInt64) : Session :=
  ⟨vmallocMemBuffer pageSize memory jiffies, []⟩

def step : Act → Session → Option Session
  | .tick now, s => some { s with kernel := { s.kernel with jiffies := now } }
  | .work uses, s => some { s with kernel := mp3WorkFunction pageSize jiffiesToMsecs uses s.kernel }
  | .monitor, s =>
      let m := monitorMain s.kernel.memBuffer
      some ⟨{ s.kernel with memBuffer := m.buf }, s.printed ++ m.out⟩

end

/-- After a run of the monitor everything written has been printed. -/
def HandsOver (x : Transition Session Act) : Prop :=
  x.act.isMonitor = true → x.post.printed = x.post.kernel.written

/-- No word of a sample is the marker. -/
def WritesUnmarked (x : Transition Session Act) : Prop :=
  ∀ w ∈ x.post.kernel.written, w.Unmarked

/-- There are always fewer unread samples than the buffer can hold. -/
def UnreadFit (pageSize : Nat) (x : Transition Session Act) : Prop :=
  x.post.kernel.written.length - x.post.printed.length < memBufSize pageSize / sampleSize

/-- The monitor is run on no more samples than fit below `BUFD_MAX`. -/
def FitsMonitor (x : Transition Session Act) : Prop :=
  x.act.isMonitor = true → 4 * x.pre.kernel.written.length ≤ bufdMax

instance : DecidablePred FitsMonitor := fun x =>
  inferInstanceAs (Decidable (x.act.isMonitor = true → 4 * x.pre.kernel.written.length ≤ bufdMax))

instance : DecidablePred WritesUnmarked := fun x =>
  inferInstanceAs (Decidable (∀ w ∈ x.post.kernel.written, w.Unmarked))

variable {pageSize : Nat} {jiffiesToMsecs : UInt64 → UInt32}

/-! ## Storing a sample -/

/-- The buffer has room for a sample beyond `BUFD_MAX` words. -/
theorem room_of_page (hpage : bufdMax * 8 < memBufSize pageSize) :
    bufdMax * 8 + sampleSize ≤ memBufSize pageSize := by
  simp only [bufdMax, memBufSize, pageCount, sampleSize] at hpage ⊢
  omega

/-- Up to and including the sample behind `BUFD_MAX`, samples go one behind the other. -/
theorem storeSample_eq (hpage : bufdMax * 8 < memBufSize pageSize) {k : Mp3}
    (hfit : 4 * k.written.length ≤ bufdMax)
    (hidx : k.samplingIdx = sampleSize * k.written.length) (w : Sample) :
    storeSample pageSize w k =
      { k with
        memBuffer := putWords k.memBuffer (sampleSize * k.written.length) w
        samplingIdx := sampleSize * (k.written.length + 1)
        written := k.written ++ [w] } := by
  have hroom := room_of_page hpage
  have hwrap : ¬ sampleSize * k.written.length + sampleSize > memBufSize pageSize := by
    simp only [bufdMax, sampleSize] at hroom hfit ⊢
    omega
  simp only [storeSample, hidx, if_neg hwrap]
  rfl

/-- A sample stored behind the others. -/
theorem LaidOut.append {ws : List Sample} {done : Nat} {buf : Nat → UInt64}
    (h : LaidOut ws done buf) (hdone : done ≤ ws.length) (w : Sample) :
    LaidOut (ws ++ [w]) done (putWords buf (sampleSize * ws.length) w) := by
  intro i hi
  have hbase : sampleSize * ws.length / 8 = 4 * ws.length := by
    simp only [sampleSize]
    omega
  rw [putWords_apply, hbase]
  by_cases hcell : 4 * ws.length ≤ i ∧ i < 4 * ws.length + 4
  · obtain ⟨j, hj, rfl⟩ : ∃ j < 4, i = 4 * ws.length + j := ⟨i - 4 * ws.length, by omega, by omega⟩
    rw [if_pos hcell, wordAt_live (by simp) hdone hj, Nat.add_sub_cancel_left]
    simp
  · rw [if_neg hcell, h i hi]
    -- a cell outside the new sample is an old sample's, or behind all of them
    rcases Nat.lt_trichotomy (i / 4) ws.length with hlt | heq | hgt
    · simp only [wordAt, List.getElem?_append_left hlt]
    · omega
    · rw [wordAt_empty (.inr (by omega)), wordAt_empty (.inr (by simp; omega))]

/-! ## A monitor that keeps up -/

/-- While the samples fit below `BUFD_MAX`, the buffer holds them in order without the ones
printed. -/
structure InStep (s : Session) : Prop where
  idx : s.kernel.samplingIdx = sampleSize * s.kernel.written.length
  laidOut : LaidOut s.kernel.written s.printed.length s.kernel.memBuffer
  printed : s.printed <+: s.kernel.written

theorem inStep_boot (hpage : bufdMax * 8 < memBufSize pageSize) (memory : Nat → UInt64)
    (jiffies : UInt64) : InStep (.boot pageSize memory jiffies) where
  idx := rfl
  laidOut i hi := by
    have hin : i < memBufSize pageSize / 8 := by
      have hroom := room_of_page hpage
      simp only [sampleSize] at hroom
      omega
    simp [Session.boot, vmallocMemBuffer, hin, wordAt]
  printed := List.prefix_rfl

theorem InStep.monitor {s : Session} (h : InStep s) (hfit : 4 * s.kernel.written.length ≤ bufdMax)
    (hmarked : ∀ w ∈ s.kernel.written, w.Unmarked) :
    s.printed ++ (monitorMain s.kernel.memBuffer).out = s.kernel.written ∧
      LaidOut s.kernel.written s.kernel.written.length (monitorMain s.kernel.memBuffer).buf := by
  obtain ⟨hout, hlaid⟩ := monitorMain_laidOut hmarked hfit h.printed.length_le h.laidOut
  refine ⟨?_, hlaid⟩
  rw [hout]
  exact List.prefix_iff_eq_append.mp h.printed

/-- **A step keeps the two in step as long as the monitor is run on what fits.** -/
theorem inStep_step (hpage : bufdMax * 8 < memBufSize pageSize) {x : Transition Session Act}
    (hx : step pageSize jiffiesToMsecs x.act x.pre = some x.post) (hmarked : WritesUnmarked x)
    (hfits : FitsMonitor x) (h : 4 * x.pre.kernel.written.length ≤ bufdMax → InStep x.pre) :
    4 * x.post.kernel.written.length ≤ bufdMax → InStep x.post := by
  obtain ⟨s, act, t⟩ := x
  replace hx : step pageSize jiffiesToMsecs act s = some t := hx
  intro hpost
  cases act with
  | tick now =>
      obtain rfl := Option.some.inj hx
      have hs := h hpost
      exact ⟨hs.idx, hs.laidOut, hs.printed⟩
  | work uses =>
      obtain rfl := Option.some.inj hx
      rcases mp3WorkFunction_cases pageSize jiffiesToMsecs uses s.kernel with heq | ⟨w, heq⟩
      · simp only [heq] at hpost ⊢
        exact h hpost
      · simp only [heq] at hpost ⊢
        have hfit : 4 * s.kernel.written.length ≤ bufdMax := by
          simp only [storeSample, List.length_append, List.length_singleton] at hpost
          omega
        have hs := h hfit
        have hstore := storeSample_eq hpage
          (k := { s.kernel with oldJiffies := s.kernel.jiffies }) hfit hs.idx w
        rw [hstore]
        exact ⟨by simp, hs.laidOut.append hs.printed.length_le w,
          hs.printed.trans (List.prefix_append _ _)⟩
  | monitor =>
      obtain rfl := Option.some.inj hx
      have hfit := hfits rfl
      have hs := h hfit
      obtain ⟨hprinted, hlaid⟩ := hs.monitor hfit hmarked
      refine ⟨hs.idx, ?_, ?_⟩
      · show LaidOut _ (s.printed ++ _).length _
        rw [hprinted]
        exact hlaid
      · show s.printed ++ _ <+: _
        rw [hprinted]

theorem handsOver_of_inStep {x : Transition Session Act}
    (hx : step pageSize jiffiesToMsecs x.act x.pre = some x.post) (hmarked : WritesUnmarked x)
    (hfits : FitsMonitor x) (h : 4 * x.pre.kernel.written.length ≤ bufdMax → InStep x.pre) :
    HandsOver x := by
  obtain ⟨s, act, t⟩ := x
  replace hx : step pageSize jiffiesToMsecs act s = some t := hx
  cases act with
  | tick | work => exact fun hmonitor => nomatch hmonitor
  | monitor =>
      intro _
      obtain rfl := Option.some.inj hx
      have hfit := hfits rfl
      exact ((h hfit).monitor hfit hmarked).1

/-! ## A monitor that does not -/

theorem putWords_liveCells (N : Nat) (mem : Nat → UInt64) (off : Nat) (w : Sample) :
    liveCells marker N (putWords mem off w) ≤ liveCells marker N mem + 4 := by
  unfold putWords
  calc _ ≤ _ + 1 := liveCells_update_le marker N _ _ _
    _ ≤ _ + 1 + 1 := Nat.add_le_add_right (liveCells_update_le marker N _ _ _) 1
    _ ≤ _ + 1 + 1 + 1 := Nat.add_le_add_right (liveCells_update_le marker N _ _ _) 2
    _ ≤ liveCells marker N mem + 1 + 1 + 1 + 1 :=
        Nat.add_le_add_right (liveCells_update_le marker N _ _ _) 3

/-- An unmarked sample leaves a live word or puts another there. -/
theorem putWords_live_of_live {mem : Nat → UInt64} (off : Nat) {w : Sample} (hw : w.Unmarked)
    {i : Nat} (hi : mem i ≠ marker) : putWords mem off w i ≠ marker := by
  rw [putWords_apply]
  split
  · exact hw.word _
  · exact hi

/-- No more words are live than samples are unread, and the word behind `BUFD_MAX` is one of them
from sample 12001 on: the monitor never takes it. -/
structure Accounted (s : Session) : Prop where
  live : liveCells marker (bufdMax + 2) s.kernel.memBuffer + 4 * s.printed.length ≤
    4 * s.kernel.written.length
  idx : 4 * s.kernel.written.length ≤ bufdMax →
    s.kernel.samplingIdx = sampleSize * s.kernel.written.length
  beyond : bufdMax < 4 * s.kernel.written.length → s.kernel.memBuffer (bufdMax + 1) ≠ marker

theorem accounted_boot (hpage : bufdMax * 8 < memBufSize pageSize) (memory : Nat → UInt64)
    (jiffies : UInt64) : Accounted (.boot pageSize memory jiffies) where
  live := by
    have hempty : liveCells marker (bufdMax + 2)
        (vmallocMemBuffer pageSize memory jiffies).memBuffer = 0 := by
      apply liveCells_eq_zero
      intro i hi
      apply if_pos
      have hroom := room_of_page hpage
      simp only [sampleSize] at hroom
      omega
    show liveCells _ _ (vmallocMemBuffer pageSize memory jiffies).memBuffer + 4 * 0 ≤ 4 * 0
    rw [hempty]
  idx _ := rfl
  beyond h := absurd h (Nat.not_lt_zero _)

/-- Storing an unmarked sample keeps the account. -/
theorem Accounted.storeSample {s : Session} (h : Accounted s)
    (hpage : bufdMax * 8 < memBufSize pageSize) {w : Sample} (hw : w.Unmarked) {k : Mp3}
    (hk : k = { s.kernel with oldJiffies := k.oldJiffies }) :
    Accounted { s with kernel := storeSample pageSize w k } := by
  obtain ⟨mem, idx, jiffies, old, written⟩ := k
  obtain ⟨rfl, rfl, -, rfl⟩ : mem = s.kernel.memBuffer ∧ idx = s.kernel.samplingIdx ∧
      jiffies = s.kernel.jiffies ∧ written = s.kernel.written := by
    simpa using hk
  refine ⟨?_, fun hfit => ?_, fun hbeyond => ?_⟩
  · have hput := putWords_liveCells (bufdMax + 2) s.kernel.memBuffer
      (if s.kernel.samplingIdx + sampleSize > memBufSize pageSize then 0
        else s.kernel.samplingIdx) w
    have hlive := h.live
    simp only [Profiler.storeSample, List.length_append, List.length_singleton]
    omega
  · simp only [Profiler.storeSample, List.length_append, List.length_singleton] at hfit
    have hidx := h.idx (by omega)
    rw [storeSample_eq hpage (by simp only; omega) (by simpa using hidx)]
    simp
  · simp only [Profiler.storeSample, List.length_append, List.length_singleton] at hbeyond
    by_cases hfit : 4 * s.kernel.written.length ≤ bufdMax
    · -- the sample that lands behind `BUFD_MAX`
      have hidx := h.idx hfit
      rw [storeSample_eq hpage (by simpa using hfit) (by simpa using hidx)]
      have hbase : sampleSize * s.kernel.written.length / 8 = 4 * s.kernel.written.length := by
        simp only [sampleSize]
        omega
      have hcell : 4 * s.kernel.written.length ≤ bufdMax + 1 ∧
          bufdMax + 1 < 4 * s.kernel.written.length + 4 := by
        simp only [bufdMax] at hfit hbeyond ⊢
        omega
      show putWords _ _ w (bufdMax + 1) ≠ marker
      rw [putWords_apply, hbase, if_pos hcell]
      exact hw.word _
    · exact putWords_live_of_live _ hw (h.beyond (by omega))

/-- A run of the monitor that hands over keeps the account, and is a run on what fits: the word
behind `BUFD_MAX` would have been left over. -/
theorem Accounted.monitor {s : Session} (h : Accounted s)
    (hmarked : ∀ w ∈ s.kernel.written, w.Unmarked)
    (hhands : s.printed ++ (monitorMain s.kernel.memBuffer).out = s.kernel.written) :
    4 * s.kernel.written.length ≤ bufdMax ∧
      liveCells marker (bufdMax + 2) (monitorMain s.kernel.memBuffer).buf = 0 := by
  obtain ⟨hcount, habove⟩ := monitorMain_accounts (N := bufdMax + 2) (by omega) s.kernel.memBuffer
  have hlen : s.printed.length + (monitorMain s.kernel.memBuffer).out.length =
      s.kernel.written.length := by rw [← hhands, List.length_append]
  have hfour : ∀ w ∈ (monitorMain s.kernel.memBuffer).out, w.live = 4 := fun w hw =>
    (hmarked w (by rw [← hhands]; exact List.mem_append_right _ hw)).live_eq
  have hsum : ((monitorMain s.kernel.memBuffer).out.map Sample.live).sum =
      4 * (monitorMain s.kernel.memBuffer).out.length := by
    rw [List.map_congr_left hfour]
    simp [Nat.mul_comm]
  have hlive := h.live
  -- four words for each of the samples: as many as were live, so none are left
  have hzero : liveCells marker (bufdMax + 2) (monitorMain s.kernel.memBuffer).buf = 0 := by omega
  refine ⟨?_, hzero⟩
  by_contra hlong
  -- but the word behind `BUFD_MAX` is live, and out of the monitor's reach
  have hleft : (monitorMain s.kernel.memBuffer).buf (bufdMax + 1) ≠ marker := by
    rw [habove _ (by omega)]
    exact h.beyond (by omega)
  have hpos := liveCells_pos (N := bufdMax + 2) (by omega) hleft
  omega

/-- **A step of a run in which every monitor hands over keeps the account, and runs the monitor on
what fits only.** -/
theorem accounted_step (hpage : bufdMax * 8 < memBufSize pageSize) {x : Transition Session Act}
    (hx : step pageSize jiffiesToMsecs x.act x.pre = some x.post) (hmarked : WritesUnmarked x)
    (hhands : HandsOver x) (h : Accounted x.pre) : Accounted x.post ∧ FitsMonitor x := by
  obtain ⟨s, act, t⟩ := x
  replace hx : step pageSize jiffiesToMsecs act s = some t := hx
  replace h : Accounted s := h
  cases act with
  | tick now =>
      obtain rfl := Option.some.inj hx
      exact ⟨⟨h.live, h.idx, h.beyond⟩, fun hmonitor => nomatch hmonitor⟩
  | work uses =>
      obtain rfl := Option.some.inj hx
      refine ⟨?_, fun hmonitor => nomatch hmonitor⟩
      rcases mp3WorkFunction_cases pageSize jiffiesToMsecs uses s.kernel with heq | ⟨w, heq⟩
      · simp only [heq]
        exact h
      · have hw : w.Unmarked := by
          apply hmarked w
          show w ∈ (mp3WorkFunction pageSize jiffiesToMsecs uses s.kernel).written
          rw [heq]
          simp [storeSample]
        simp only [heq]
        exact h.storeSample hpage hw rfl
  | monitor =>
      obtain rfl := Option.some.inj hx
      have hhands' : s.printed ++ (monitorMain s.kernel.memBuffer).out = s.kernel.written :=
        hhands rfl
      obtain ⟨hfit, hzero⟩ := h.monitor hmarked hhands'
      refine ⟨⟨?_, h.idx, fun hbeyond => absurd hfit (Nat.not_le.mpr hbeyond)⟩, fun _ => hfit⟩
      show liveCells marker _ (monitorMain s.kernel.memBuffer).buf + 4 * (s.printed ++ _).length ≤ _
      rw [hzero, hhands', Nat.zero_add]

/-! ## Runs -/

section Runs

variable (hpage : bufdMax * 8 < memBufSize pageSize) {memory : Nat → UInt64} {jiffies : UInt64}
  {tr : List (Transition Session Act)} {s : Session}
  (h : Exec (step pageSize jiffiesToMsecs) (.boot pageSize memory jiffies) tr s)
  (hmarked : ∀ x ∈ tr, WritesUnmarked x)
include hpage h hmarked

/-- A run whose monitors run on what fits hands everything over. -/
theorem handsOver_of_fitsMonitor (hfits : ∀ x ∈ tr, FitsMonitor x) : ∀ x ∈ tr, HandsOver x := by
  have hall := (h.guarded
    (I := fun s => 4 * s.kernel.written.length ≤ bufdMax → InStep s)
    (C := fun x => WritesUnmarked x ∧ FitsMonitor x) (fun _ => inStep_boot hpage memory jiffies)
    (fun x hx hC hI => inStep_step hpage hx hC.1 hC.2 hI)
    (fun x hx => ⟨hmarked x hx, hfits x hx⟩)).1
  exact fun x hx => handsOver_of_inStep (h.isStep x hx) (hmarked x hx) (hfits x hx) (hall x hx).1

/-- A run that hands everything over has run the monitor on what fits. -/
theorem fitsMonitor_of_handsOver (hhands : ∀ x ∈ tr, HandsOver x) : ∀ x ∈ tr, FitsMonitor x := by
  have hall := (h.guarded (I := Accounted) (C := fun x => WritesUnmarked x ∧ HandsOver x)
    (accounted_boot hpage memory jiffies)
    (fun x hx hC hI => (accounted_step hpage hx hC.1 hC.2 hI).1)
    (fun x hx => ⟨hmarked x hx, hhands x hx⟩)).1
  exact fun x hx =>
    (accounted_step hpage (h.isStep x hx) (hmarked x hx) (hhands x hx) (hall x hx).1).2

/-- **In a run that writes no -1, every run of the monitor hands over every sample, in order and
once, exactly when none of them starts after more samples than `BUFD_MAX` words hold.** -/
theorem handsOver_iff : (∀ x ∈ tr, HandsOver x) ↔ ∀ x ∈ tr, FitsMonitor x :=
  ⟨fitsMonitor_of_handsOver hpage h hmarked, handsOver_of_fitsMonitor hpage h hmarked⟩

end Runs

/-- A clock by which the threshold has always passed. -/
def everySample : UInt64 → UInt32 := fun _ => 50

/-- The profiler with pages of 4096 bytes. -/
def Session.fresh : Session := .boot 4096 (fun _ => 0) 0

/-- Two samples, the monitor, another sample, the monitor. -/
def sampleAndRead : List Act :=
  [.tick 100, .work [some ⟨3, 1, 7, 2⟩, none], .tick 150, .work [], .monitor, .tick 200,
    .work [some ⟨5, 0, 1, 1⟩], .monitor]

theorem sampleAndRead_runs :
    (runActions (step 4096 everySample) sampleAndRead .fresh).isSome := rfl

theorem handsOver_sampleAndRead :
    (endOf _ _ _ sampleAndRead_runs).printed.length = 3 ∧
      ∀ x ∈ runOf (step 4096 everySample) sampleAndRead .fresh sampleAndRead_runs, HandsOver x :=
  ⟨by decide,
    (handsOver_iff (by decide) (exec_runOf sampleAndRead_runs) (by decide)).mpr (by decide)⟩

/-- The work function runs `n` times with nothing registered and the clock at 0. -/
theorem exists_works (n : Nat) (hn : n ≤ 12001) :
    ∃ tr s, Exec (step 4096 everySample) .fresh tr s ∧ s.printed = [] ∧ s.kernel.jiffies = 0 ∧
      s.kernel.written.length = n ∧ (∀ w ∈ s.kernel.written, w.Unmarked) ∧
      ∀ x ∈ tr, WritesUnmarked x ∧ UnreadFit 4096 x := by
  induction n with
  | zero => exact ⟨[], .fresh, .refl _, rfl, rfl, rfl, by simp [Session.fresh, Session.boot,
      vmallocMemBuffer], by simp⟩
  | succ n ih =>
      obtain ⟨tr, s, hexec, hprinted, hjiffies, hlen, hmarked, hall⟩ := ih (by omega)
      let k := mp3WorkFunction 4096 everySample [] s.kernel
      have hwritten : k.written = s.kernel.written ++ [⟨0, 0, 0, 0⟩] := by
        show (storeSample 4096 (takeSample s.kernel.jiffies []) _).written = _
        rw [hjiffies]
        rfl
      have hmarked' : ∀ w ∈ k.written, w.Unmarked := by
        rw [hwritten, List.forall_mem_append, List.forall_mem_singleton]
        exact ⟨hmarked, by decide⟩
      have hlen' : k.written.length = n + 1 := by rw [hwritten]; simp [hlen]
      have hstep : step 4096 everySample (.work []) s = some { s with kernel := k } := rfl
      refine ⟨_, _, hexec.snoc hstep, hprinted, hjiffies, hlen', hmarked', ?_⟩
      rw [List.forall_mem_append, List.forall_mem_singleton]
      refine ⟨hall, hmarked', ?_⟩
      show k.written.length - s.printed.length < 16384
      omega

/-- After 12001 samples, 4383 fewer than the buffer holds, the monitor does not find all of them. -/
theorem handsOver_fails : ¬ ∀ tr s, Exec (step 4096 everySample) .fresh tr s →
    (∀ x ∈ tr, WritesUnmarked x) → (∀ x ∈ tr, UnreadFit 4096 x) → ∀ x ∈ tr, HandsOver x := by
  intro hall
  obtain ⟨tr, s, hexec, -, -, hlen, hmarked, hgood⟩ := exists_works 12001 (Nat.le_refl _)
  let m := monitorMain s.kernel.memBuffer
  let t : Session := ⟨{ s.kernel with memBuffer := m.buf }, s.printed ++ m.out⟩
  have hread : Exec (step 4096 everySample) .fresh (tr ++ [⟨s, .monitor, t⟩]) t :=
    hexec.snoc rfl
  have hmarked' : ∀ x ∈ tr ++ [⟨s, .monitor, t⟩], WritesUnmarked x := by
    rw [List.forall_mem_append, List.forall_mem_singleton]
    exact ⟨fun x hx => (hgood x hx).1, hmarked⟩
  have hunread : ∀ x ∈ tr ++ [⟨s, .monitor, t⟩], UnreadFit 4096 x := by
    rw [List.forall_mem_append, List.forall_mem_singleton]
    refine ⟨fun x hx => (hgood x hx).2, ?_⟩
    show s.kernel.written.length - t.printed.length < 16384
    omega
  have hhands := hall _ _ hread hmarked' hunread
  have hfits := fitsMonitor_of_handsOver (by decide) hread hmarked' hhands _
    (List.mem_append_right _ (List.mem_singleton.mpr rfl)) rfl
  have hshort : 4 * s.kernel.written.length ≤ 48000 := hfits
  omega

end KernelDev.Profiler
