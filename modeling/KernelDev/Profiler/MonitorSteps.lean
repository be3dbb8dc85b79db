/-
# KernelDev.Profiler.MonitorSteps — the accesses of the monitor program

The loops of `main`, one access to the buffer at a time: the reads of the search, the read of the
`while` condition, and for each word of a tuple the read that prints it and the store of the marker.
What the search and the drain loop make of the buffer is `monitorMain`.
-/
import KernelDev.Lib.Execution
import KernelDev.Profiler.Monitor

namespace KernelDev.Profiler

open KernelDev.Lib

/-! ## The program, step by step -/

/-- Where the program is: in the search, at the `while` condition, at the `k`-th word of a tuple
before it is printed and before the marker is stored, and behind the loop. -/
inductive MonitorPc
  | search
  | test
  | print (k : Nat)
  | clear (k : Nat)
  | done
  deriving DecidableEq, Repr

/-- The mapped buffer, `index`, and where the program is. -/
structure MonitorState where
  buf : Nat → UInt64
  index : Nat
  pc : MonitorPc

inductive MonitorAct
  | search
  /-- The search has come to `BUFD_MAX`. -/
  | leave
  | test
  | print
  | clear
  deriving DecidableEq, Repr

def MonitorState.start (buf : Nat → UInt64) : MonitorState := ⟨buf, 0, .search⟩

/-- Store the marker at `index` and go on to the next word. -/
def MonitorState.cleared (s : MonitorState) (pc : MonitorPc) : MonitorState where
  buf := Function.update s.buf s.index marker
  index := if s.index + 1 ≥ bufdMax then 0 else s.index + 1
  pc := pc

def monitorStep : MonitorAct → MonitorState → Option MonitorState
  | .search, s =>
      if s.pc = .search ∧ s.index < bufdMax then
        if s.buf s.index ≠ marker then some { s with pc := .test }
        else some { s with index := s.index + 1 }
      else none
  | .leave, s =>
      if s.pc = .search ∧ ¬ s.index < bufdMax then some { s with pc := .test } else none
  | .test, s =>
      if s.pc = .test then
        some { s with pc := if s.buf s.index ≠ marker then .print 0 else .done }
      else none
  | .print, s =>
      match s.pc with
      | .print k => some { s with pc := .clear k }
      | _ => none
  | .clear, s =>
      match s.pc with
      | .clear k => some (s.cleared (if k < 3 then .print (k + 1) else .test))
      | _ => none

/-- **What a step can do.** -/
inductive MonitorEffect (s : MonitorState) : MonitorAct → MonitorState → Prop
  | found (hpc : s.pc = .search) (hlt : s.index < bufdMax) (hlive : s.buf s.index ≠ marker) :
      MonitorEffect s .search { s with pc := .test }
  | next (hpc : s.pc = .search) (hlt : s.index < bufdMax) (hempty : s.buf s.index = marker) :
      MonitorEffect s .search { s with index := s.index + 1 }
  | leave (hpc : s.pc = .search) (hend : bufdMax ≤ s.index) :
      MonitorEffect s .leave { s with pc := .test }
  | enter (hpc : s.pc = .test) (hlive : s.buf s.index ≠ marker) :
      MonitorEffect s .test { s with pc := .print 0 }
  | stop (hpc : s.pc = .test) (hempty : s.buf s.index = marker) :
      MonitorEffect s .test { s with pc := .done }
  | print {k : Nat} (hpc : s.pc = .print k) : MonitorEffect s .print { s with pc := .clear k }
  | clear {k : Nat} (hpc : s.pc = .clear k) (hk : k < 3) :
      MonitorEffect s .clear (s.cleared (.print (k + 1)))
  | clearLast {k : Nat} (hpc : s.pc = .clear k) (hk : 3 ≤ k) :
      MonitorEffect s .clear (s.cleared .test)

theorem monitorEffect_of_step {act : MonitorAct} {s t : MonitorState}
    (h : monitorStep act s = some t) : MonitorEffect s act t := by
  cases act with
  | search =>
      rw [monitorStep] at h
      split at h
      · next hguard =>
          split at h
          · next hlive =>
              obtain rfl := Option.some.inj h
              exact .found hguard.1 hguard.2 hlive
          · next hempty =>
              obtain rfl := Option.some.inj h
              exact .next hguard.1 hguard.2 (not_not.mp hempty)
      · cases h
  | leave =>
      rw [monitorStep] at h
      split at h
      · next hguard =>
          obtain rfl := Option.some.inj h
          exact .leave hguard.1 (Nat.not_lt.mp hguard.2)
      · cases h
  | test =>
      rw [monitorStep] at h
      split at h
      · next hpc =>
          obtain rfl := Option.some.inj h
          by_cases hempty : s.buf s.index = marker
          · rw [if_neg (not_not.mpr hempty)]
            exact .stop hpc hempty
          · rw [if_pos hempty]
            exact .enter hpc hempty
      · cases h
  | print =>
      rw [monitorStep] at h
      split at h
      · next k hpc =>
          obtain rfl := Option.some.inj h
          exact .print hpc
      · cases h
  | clear =>
      rw [monitorStep] at h
      split at h
      · next k hpc =>
          obtain rfl := Option.some.inj h
          by_cases hk : k < 3
          · rw [if_pos hk]
            exact .clear hpc hk
          · rw [if_neg hk]
            exact .clearLast hpc (Nat.not_lt.mp hk)
      · cases h

/-- A program that is not behind the loop goes on. -/
theorem monitorStep_enabled {s : MonitorState} (h : s.pc ≠ .done) :
    ∃ act t, monitorStep act s = some t := by
  cases hpc : s.pc with
  | search =>
      by_cases hlt : s.index < bufdMax
      · by_cases hlive : s.buf s.index ≠ marker
        · exact ⟨.search, _, by rw [monitorStep, if_pos ⟨hpc, hlt⟩, if_pos hlive]⟩
        · exact ⟨.search, _, by rw [monitorStep, if_pos ⟨hpc, hlt⟩, if_neg hlive]⟩
      · exact ⟨.leave, _, if_pos ⟨hpc, hlt⟩⟩
  | test => exact ⟨.test, _, if_pos hpc⟩
  | print k => exact ⟨.print, _, by rw [monitorStep, hpc]⟩
  | clear k => exact ⟨.clear, _, by rw [monitorStep, hpc]⟩
  | done => exact absurd hpc h

/-! ## What is printed -/

/-- The values printed of word `i`. -/
def printedOf (i : Nat) (tr : List (Transition MonitorState MonitorAct)) : List UInt64 :=
  tr.filterMap fun x => if x.act = .print ∧ x.pre.index = i then some (x.pre.buf i) else none

theorem printedOf_concat (i : Nat) (tr : List (Transition MonitorState MonitorAct))
    (x : Transition MonitorState MonitorAct) :
    printedOf i (tr ++ [x]) = printedOf i tr ++
      if x.act = .print ∧ x.pre.index = i then [x.pre.buf i] else [] := by
  rw [printedOf, List.filterMap_append]
  split
  · next h => simp [printedOf, h]
  · next h => simp [printedOf, h]

/-- The value printed of word `i` that the marker is stored over next. -/
def MonitorState.pending (s : MonitorState) (i : Nat) : List UInt64 :=
  match s.pc with
  | .clear _ => if s.index = i then [s.buf i] else []
  | _ => []

/-! ## Termination -/

/-- What is left to do: the search, the words of a tuple, and nine steps for a live word. -/
def MonitorState.rank (s : MonitorState) : Nat :=
  let cells := liveCells marker (bufdMax + 1) s.buf
  match s.pc with
  | .search => 9 * cells + 2 + (bufdMax - s.index)
  | .test => 9 * cells + 1
  | .print k => if k = 0 then 9 * cells else 9 * cells + 1 + 2 * (4 - k)
  | .clear k => if k = 0 then 9 * cells - 1 else 9 * cells + 2 * (4 - k)
  | .done => 0

/-- `index` is in reach, a tuple has four words, and the first of them is live. -/
structure InReach (s : MonitorState) : Prop where
  index : s.index ≤ bufdMax
  word : ∀ k, s.pc = .print k ∨ s.pc = .clear k → k < 4
  live : s.pc = .print 0 ∨ s.pc = .clear 0 → s.buf s.index ≠ marker

variable {s t : MonitorState} {act : MonitorAct}

theorem cleared_index_le (s : MonitorState) (pc : MonitorPc) : (s.cleared pc).index ≤ bufdMax := by
  show (if s.index + 1 ≥ bufdMax then 0 else s.index + 1) ≤ bufdMax
  split
  · exact Nat.zero_le _
  · omega

theorem InReach.step (h : InReach s) (he : MonitorEffect s act t) : InReach t := by
  cases he with
  | found | leave | stop => exact ⟨h.index, by simp, by simp⟩
  | next hpc hlt => exact ⟨hlt, by simp [hpc], by simp [hpc]⟩
  | enter hpc hlive => exact ⟨h.index, by simp, fun _ => hlive⟩
  | @print k hpc =>
      refine ⟨h.index, fun j hj => ?_, fun hzero => ?_⟩
      · obtain rfl : k = j := by simpa using hj
        exact h.word k (.inl hpc)
      · obtain rfl : k = 0 := by simpa using hzero
        exact h.live (.inl hpc)
  | @clear k hpc hk =>
      refine ⟨cleared_index_le s _, fun j hj => ?_, fun hzero => ?_⟩
      · obtain rfl : k + 1 = j := by simpa [MonitorState.cleared] using hj
        omega
      · simp [MonitorState.cleared] at hzero
  | clearLast => exact ⟨cleared_index_le s _, by simp [MonitorState.cleared],
      by simp [MonitorState.cleared]⟩

/-- **Every step leaves less to do.** -/
theorem InReach.rank_lt (h : InReach s) (he : MonitorEffect s act t) : t.rank < s.rank := by
  have hindex : s.index < bufdMax + 1 := Nat.lt_succ_of_le h.index
  have hcells := liveCells_clear marker hindex s.buf
  cases he with
  | found hpc hlt | leave hpc hlt | next hpc hlt =>
      simp only [MonitorState.rank, hpc]
      omega
  | enter hpc | stop hpc => simp [MonitorState.rank, hpc]
  | @print k hpc =>
      simp only [MonitorState.rank, hpc]
      split
      · next hzero =>
          have hpos := liveCells_pos hindex (h.live (.inl (hzero ▸ hpc)))
          omega
      · have hk := h.word k (.inl hpc)
        omega
  | @clear k hpc hk =>
      simp only [MonitorState.rank, MonitorState.cleared, hpc, Nat.succ_ne_zero, if_false]
      split
      · next hzero =>
          -- the first word of the tuple was live
          rw [live_of_ne (h.live (.inr (hzero ▸ hpc)))] at hcells
          omega
      · omega
  | @clearLast k hpc hk =>
      have hlt := h.word k (.inr hpc)
      simp only [MonitorState.rank, MonitorState.cleared, hpc]
      rw [if_neg (by omega)]
      omega

/-! ## The accesses -/

/-- After the transitions `tr` from the content `buf`. -/
structure MonitorKept (buf : Nat → UInt64) (tr : List (Transition MonitorState MonitorAct))
    (s : MonitorState) : Prop where
  inReach : InReach s
  /-- A live word has not been printed, but for one about to be cleared. -/
  printed : ∀ i, s.buf i ≠ marker → printedOf i tr = s.pending i
  words : ∀ i, s.buf i = buf i ∨ s.buf i = marker
  length : tr.length + s.rank ≤ (MonitorState.start buf).rank

theorem monitorKept_start (buf : Nat → UInt64) : MonitorKept buf [] (.start buf) where
  inReach := ⟨Nat.zero_le _, by simp [MonitorState.start], by simp [MonitorState.start]⟩
  printed _ _ := rfl
  words _ := .inl rfl
  length := by simp

/-- A store leaves a word as it is or makes it the marker. -/
theorem cleared_buf (s : MonitorState) (pc : MonitorPc) (i : Nat) :
    (s.cleared pc).buf i = if i = s.index then marker else s.buf i :=
  Function.update_apply s.buf s.index marker i

theorem MonitorEffect.buf (he : MonitorEffect s act t) (i : Nat) :
    t.buf i = s.buf i ∨ t.buf i = marker := by
  cases he with
  | clear | clearLast =>
      rw [cleared_buf]
      split
      · exact .inr rfl
      · exact .inl rfl
  | _ => exact .inl rfl

/-- What is printed of a live word is pending, and what is pending is cleared. -/
theorem MonitorEffect.pending (he : MonitorEffect s act t) {i : Nat} (hi : t.buf i ≠ marker) :
    s.buf i ≠ marker ∧
      t.pending i = s.pending i ++ if act = .print ∧ s.index = i then [s.buf i] else [] := by
  cases he with
  | found hpc | next hpc | leave hpc | enter hpc | stop hpc =>
      exact ⟨hi, by simp [MonitorState.pending, hpc]⟩
  | print hpc => exact ⟨hi, by simp [MonitorState.pending, hpc]⟩
  | clear hpc | clearLast hpc =>
      rw [cleared_buf] at hi
      split at hi
      · exact absurd rfl hi
      · next hne =>
          exact ⟨hi, by simp [MonitorState.pending, MonitorState.cleared, hpc, Ne.symm hne]⟩

theorem MonitorKept.step {buf : Nat → UInt64} {tr : List (Transition MonitorState MonitorAct)}
    (h : MonitorKept buf tr s) (he : MonitorEffect s act t) :
    MonitorKept buf (tr ++ [⟨s, act, t⟩]) t := by
  refine ⟨h.inReach.step he, fun i hi => ?_, fun i => ?_, ?_⟩
  · obtain ⟨hlive, hpending⟩ := he.pending hi
    rw [printedOf_concat, h.printed i hlive, hpending]
  · rcases he.buf i with hsame | hmarker
    · rw [hsame]
      exact h.words i
    · exact .inr hmarker
  · have hrank := h.inReach.rank_lt he
    have hlen := h.length
    rw [List.length_append, List.length_singleton]
    omega

theorem monitorKept {buf : Nat → UInt64} {tr : List (Transition MonitorState MonitorAct)}
    (h : Exec monitorStep (.start buf) tr s) : MonitorKept buf tr s :=
  h.traced (C := fun _ => True) (monitorKept_start buf)
    (fun _ _ hstep _ hkept => hkept.step (monitorEffect_of_step hstep)) fun _ _ => trivial

/-- A word that a step makes the marker has just been printed. -/
theorem MonitorEffect.pending_of_cleared (he : MonitorEffect s act t) {i : Nat}
    (hlive : s.buf i ≠ marker) (hmarker : t.buf i = marker) : s.pending i = [s.buf i] := by
  cases he with
  | clear hpc | clearLast hpc =>
      rw [cleared_buf] at hmarker
      split at hmarker
      · next hi => simp [MonitorState.pending, hpc, hi]
      · exact absurd hmarker hlive
  | _ => exact absurd hmarker hlive

/-- What the monitor may do to a buffer, and how long. -/
structure MonitorSafe (tr : List (Transition MonitorState MonitorAct)) (s : MonitorState) :
    Prop where
  /-- The program comes to its end. -/
  bounded : tr.length ≤ 480011
  goesOn : s.pc ≠ .done → ∃ act t, monitorStep act s = some t
  inReach : ∀ x ∈ tr, x.pre.index ≤ 48000
  onlyMarker : ∀ x ∈ tr, ∀ i, x.post.buf i ≠ x.pre.buf i → x.post.buf i = marker
  printedOnce : ∀ before x after, tr = before ++ x :: after → ∀ i, x.pre.buf i ≠ marker →
    x.post.buf i = marker → printedOf i before = [x.pre.buf i]

/-- **Whatever the buffer holds, the monitor comes to its end, reads and writes the words up to
`BUFD_MAX` only, stores nothing but the marker, and stores it over a live word only after it has
printed the word once.** -/
theorem monitor_safe {buf : Nat → UInt64} {tr : List (Transition MonitorState MonitorAct)}
    (h : Exec monitorStep (.start buf) tr s) : MonitorSafe tr s where
  bounded := by
    have hlen := (monitorKept h).length
    have hcells := liveCells_le marker (bufdMax + 1) buf
    have hrank : (MonitorState.start buf).rank =
        9 * liveCells marker (bufdMax + 1) buf + 2 + bufdMax := rfl
    unfold bufdMax at *
    omega
  goesOn := monitorStep_enabled
  inReach x hx := by
    obtain ⟨before, after, rfl⟩ := List.append_of_mem hx
    exact (monitorKept h.split.1).inReach.index
  onlyMarker x hx i hne :=
    ((monitorEffect_of_step (h.isStep x hx)).buf i).resolve_left hne
  printedOnce before x after htr i hlive hmarker := by
    subst htr
    have hkept := monitorKept h.split.1
    have heffect := monitorEffect_of_step h.split.2.1
    rw [hkept.printed i hlive]
    exact heffect.pending_of_cleared hlive hmarker

/-- A buffer with one sample, behind an empty word. -/
def oneSample (i : Nat) : UInt64 :=
  match i with
  | 1 => 100
  | 2 => 7
  | 3 => 0
  | 4 => 25
  | _ => marker

/-- A word is printed and cleared. -/
def takeOne : List MonitorAct := [.print, .clear]

/-- The search passes the empty word, the sample is printed, and the loop stops behind it. -/
def printOne : List MonitorAct :=
  [.search, .search, .test] ++ takeOne ++ takeOne ++ takeOne ++ takeOne ++ [.test]

theorem printOne_runs : (runActions monitorStep printOne (.start oneSample)).isSome := by
  decide

theorem monitor_safe_printOne :
    let tr := runOf _ _ _ printOne_runs
    let s := endOf _ _ _ printOne_runs
    s.pc = .done ∧ [0, 1, 2, 3, 4].map (printedOf · tr) = [[], [100], [7], [0], [25]] ∧
      (∀ i < 6, s.buf i = marker) ∧ MonitorSafe tr s :=
  ⟨by decide, by decide, by decide, monitor_safe (exec_runOf printOne_runs)⟩

/-! ## The loops of `main` -/

/-- The words printed. -/
def printedWords (tr : List (Transition MonitorState MonitorAct)) : List UInt64 :=
  tr.filterMap fun x => if x.act = .print then some (x.pre.buf x.pre.index) else none

/-- From one state to another some words are printed. -/
def Prints (s : MonitorState) (ws : List UInt64) (t : MonitorState) : Prop :=
  ∃ tr, Exec monitorStep s tr t ∧ printedWords tr = ws

theorem Prints.trans {u : MonitorState} {ws vs : List UInt64} (h : Prints s ws t)
    (h' : Prints t vs u) : Prints s (ws ++ vs) u := by
  obtain ⟨tr, hexec, rfl⟩ := h
  obtain ⟨tr', hexec', rfl⟩ := h'
  exact ⟨tr ++ tr', hexec.trans hexec', List.filterMap_append⟩

theorem prints_silent (act : MonitorAct) (h : monitorStep act s = some t) (hact : act ≠ .print) :
    Prints s [] t :=
  ⟨[⟨s, act, t⟩], .single h, by simp [printedWords, hact]⟩

/-- The search ends at the first live word. -/
theorem prints_search (buf : Nat → UInt64) {n i : Nat} (hn : i + n = bufdMax) :
    Prints ⟨buf, i, .search⟩ [] ⟨buf, firstLive marker buf n i, .test⟩ := by
  induction n generalizing i with
  | zero =>
      apply prints_silent .leave
      · exact if_pos ⟨rfl, by simp only; omega⟩
      · decide
  | succ n ih =>
      have hguard : (MonitorState.mk buf i .search).pc = .search ∧
          (MonitorState.mk buf i .search).index < bufdMax := ⟨rfl, by simp only; omega⟩
      rw [firstLive]
      split
      · next hlive =>
          apply prints_silent .search
          · rw [monitorStep, if_pos hguard, if_pos hlive]
          · decide
      · next hempty =>
          have hnext : Prints ⟨buf, i, .search⟩ [] ⟨buf, i + 1, .search⟩ := by
            apply prints_silent .search
            · rw [monitorStep, if_pos hguard, if_neg hempty]
            · decide
          exact hnext.trans (ih (by omega))

/-- A word of a tuple is printed and cleared. -/
theorem prints_takeWord (m : Monitor) (k : Nat) :
    Prints ⟨m.buf, m.index, .print k⟩ [(takeWord m).1]
      ⟨(takeWord m).2.buf, (takeWord m).2.index, if k < 3 then .print (k + 1) else .test⟩ :=
  ⟨[⟨⟨m.buf, m.index, .print k⟩, .print, ⟨m.buf, m.index, .clear k⟩⟩,
      ⟨⟨m.buf, m.index, .clear k⟩, .clear, _⟩],
    .snoc (.single rfl) rfl, rfl⟩

/-- The four words of a sample. -/
def Sample.words (w : Sample) : List UInt64 := [w.jiffies, w.minFlt, w.majFlt, w.cpuUtil]

/-- A pass of the loop. -/
theorem prints_printTuple {m : Monitor} (hlive : m.buf m.index ≠ marker) :
    Prints ⟨m.buf, m.index, .test⟩ (tupleAt m).words
      ⟨(printTuple m).buf, (printTuple m).index, .test⟩ := by
  have henter : Prints ⟨m.buf, m.index, .test⟩ [] ⟨m.buf, m.index, .print 0⟩ := by
    apply prints_silent .test
    · rw [monitorStep, if_pos rfl, if_pos hlive]
    · decide
  exact (((henter.trans (prints_takeWord m 0)).trans (prints_takeWord (takeWord m).2 1)).trans
    (prints_takeWord (takeWord (takeWord m).2).2 2)).trans
    (prints_takeWord (takeWord (takeWord (takeWord m).2).2).2 3)

/-- The loop, if there are passes enough for it to end. -/
theorem prints_drain {fuel : Nat} {m : Monitor}
    (hstop : (drain fuel m).buf (drain fuel m).index = marker) :
    ∃ ws, (drain fuel m).out.flatMap Sample.words = m.out.flatMap Sample.words ++ ws ∧
      Prints ⟨m.buf, m.index, .test⟩ ws ⟨(drain fuel m).buf, (drain fuel m).index, .done⟩ := by
  by_cases hempty : m.buf m.index = marker
  · rw [drain_of_marker hempty]
    refine ⟨[], (List.append_nil _).symm, ?_⟩
    apply prints_silent .test
    · rw [monitorStep, if_pos rfl, if_neg (not_not.mpr hempty)]
    · decide
  · cases fuel with
    | zero => exact absurd hstop hempty
    | succ fuel =>
        rw [drain_of_live hempty] at hstop ⊢
        obtain ⟨ws, hout, hrest⟩ := prints_drain hstop
        refine ⟨(tupleAt m).words ++ ws, ?_, (prints_printTuple hempty).trans hrest⟩
        rw [hout, printTuple_out, List.flatMap_append, List.flatMap_singleton, List.append_assoc]

/-- **The accesses make of the buffer what `main` makes of it, and print what it prints.** -/
theorem prints_monitorMain (buf : Nat → UInt64) :
    Prints (.start buf) ((monitorMain buf).out.flatMap Sample.words)
      ⟨(monitorMain buf).buf, (monitorMain buf).index, .done⟩ := by
  obtain ⟨ws, hout, hdrain⟩ := prints_drain (monitorMain_done buf)
  have hsearch := prints_search buf (Nat.zero_add bufdMax)
  rw [monitorMain, hout]
  exact hsearch.trans hdrain

end KernelDev.Profiler
