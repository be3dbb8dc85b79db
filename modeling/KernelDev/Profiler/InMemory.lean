/-
# KernelDev.Profiler.InMemory — the profiler's process list as it lies in memory

`Profiler.Sampler` takes `mp3_process_list` for a list of pids. In memory it is a list of records
that `mp3_registration` allocates and links in at the end and `mp3_unregistration` unlinks and
frees; and the worker goes through it one entry after the other, with the entry it is at and the one
after that in local variables, while the processes run on and free memory changes.

`profiler_memory_refines`: every run over the records is a run of the profiler over the pids. The
allocated records are those on the list, so that `mp3_exit` leaves none behind.
-/
import KernelDev.Lib.ObjectCache
import KernelDev.Lists.Records
import KernelDev.Profiler.Sampling

namespace KernelDev.Profiler

open KernelDev.Lib (Link ObjectCache objectCache_empty Exec Transition firstOf foldUntil
  foldUntil_cons foldUntil_nil foldUntil_eq_find? runActions runOf endOf exec_runOf)
open KernelDev.Lists

/-! ## The module in memory -/

/-- A `struct mp3_task_struct *`. -/
abbrev RecPtr : Type := Nat

/-- The module with its list in memory. The list of `sampler` and the entries its phase has still to
read are not used; `taskI` and `tempTask` are the local variables of the worker. Of a record nothing
but the pid is read. -/
structure Mp3Memory where
  sampler : Sampler
  pids : RecPtr → UInt32
  links : Lib.Links Node
  /-- The records that are allocated. -/
  live : List RecPtr
  /-- Every record handed out so far lies below. -/
  nextRec : RecPtr
  /-- A freed record at the head of the cache's free list. Without one the cache hands out memory
  that it has not handed out before. -/
  recycled : Option RecPtr
  taskI : Node
  tempTask : Node

/-- After `mp3_init`, in a memory that holds anything but for `LIST_HEAD(mp3_process_list)`. -/
def Mp3Memory.boot (sampler : Sampler) (pids : RecPtr → UInt32) (links : Lib.Links Node) :
    Mp3Memory where
  sampler := sampler
  pids := pids
  links := initListHead .head links
  live := []
  nextRec := 0
  recycled := none
  taskI := .head
  tempTask := .head

namespace Mp3Memory

/-- The record that the cache hands out next. -/
def freeRec (m : Mp3Memory) : RecPtr := m.recycled.getD m.nextRec

section
variable (msecsToJiffies : UInt32 → UInt64) (junk : RecPtr → Link Node) (fuel : Nat)

/-- `mp3_registration`, which does not return without memory for the record. -/
def mp3Registration (pid : UInt32) (alloc : Bool) (m : Mp3Memory) : Option Mp3Memory :=
  if alloc then
    let newProc := m.freeRec
    let links := initListHead (.entry newProc) m.links
    some { m with
      sampler := { m.sampler.queueDwork msecsToJiffies with registered := true }
      pids := Function.update m.pids newProc pid
      links := listAddTail (.entry newProc) .head links
      live := newProc :: m.live
      nextRec := max m.nextRec (newProc + 1)
      recycled := none }
  else none

/-- `list_del` and `kmem_cache_free` of one record. -/
def release (i : RecPtr) (m : Mp3Memory) : Mp3Memory :=
  { m with links := freeEntry (junk i) i m.links, live := m.live.erase i }

/-- `mp3_unregistration`. -/
def mp3Unregistration (pid : UInt32) (m : Mp3Memory) : Option Mp3Memory :=
  let body (i : RecPtr) (m : Mp3Memory) : Mp3Memory × Bool :=
    if m.pids i = pid then (m.release junk i, false) else (m, true)
  forEachEntry Mp3Memory.links body fuel m

end

/-- Where `list_for_each_entry_safe` starts. -/
def startLoop (m : Mp3Memory) : Mp3Memory :=
  let taskI := (m.links .head).next
  { m with taskI := taskI, tempTask := (m.links taskI).next }

/-- Its step from one entry to the next. -/
def nextEntry (m : Mp3Memory) : Mp3Memory :=
  { m with taskI := m.tempTask, tempTask := (m.links m.tempTask).next }

end Mp3Memory

/-- The steps in memory: those of the profiler, changes of free memory, and the cache putting a
freed record at the head of its free list. -/
inductive Mp3MemAct
  | act (a : SamplerAct)
  | scribble (a : RecPtr) (pid : UInt32)
  | scribbleLinks (a : RecPtr) (l : Link Node)
  | recycle (a : RecPtr)
  deriving DecidableEq, Repr

/-- The step of the profiler it is, if any. -/
def Mp3MemAct.act? : Mp3MemAct → Option SamplerAct
  | .act a => some a
  | .scribble _ _ => none
  | .scribbleLinks _ _ => none
  | .recycle _ => none

section
variable (msecsToJiffies : UInt32 → UInt64) (pageSize : Nat) (jiffiesToMsecs : UInt64 → UInt32)
  (junk : RecPtr → Link Node) (fuel : Nat)

def mp3MemStep : Mp3MemAct → Mp3Memory → Option Mp3Memory
  | .act (.register pid alloc), m =>
      if m.sampler.phase.holdsLock then none else m.mp3Registration msecsToJiffies pid alloc
  | .act (.unregister pid), m =>
      if m.sampler.phase.holdsLock then none else m.mp3Unregistration junk fuel pid
  | .act .acquire, m =>
      if m.sampler.phase = .stamped then
        some { m.startLoop with sampler := { m.sampler with phase := .reading [] .zero } }
      else none
  | .act .read, m =>
      match m.sampler.phase with
      | .reading _ totals =>
          if m.taskI = .head then none
          else
            let (totals, s) := readEntry (m.pids m.taskI.container) totals m.sampler
            some { m.nextEntry with sampler := { s with phase := .reading [] totals } }
      | _ => none
  | .act .store, m =>
      match m.sampler.phase with
      | .reading _ totals =>
          if m.taskI = .head then
            some { m with sampler := { m.sampler with
              mp3 := storeSample pageSize (totals.sample m.sampler.mp3.jiffies) m.sampler.mp3
              phase := .idle } }
          else none
      | _ => none
  | .act a, m =>
      -- the steps that do not look at the list
      (samplerStep msecsToJiffies pageSize jiffiesToMsecs a m.sampler).map fun s =>
        { m with sampler := s }
  | .scribble a pid, m =>
      if a ∈ m.live then none else some { m with pids := Function.update m.pids a pid }
  | .scribbleLinks a l, m =>
      if a ∈ m.live then none
      else some { m with links := Function.update m.links (.entry a) l }
  | .recycle a, m =>
      if a < m.nextRec ∧ a ∉ m.live then some { m with recycled := some a } else none

end

/-! ## The records and the pids -/

namespace Mp3Memory

/-- The phase of an execution that has still to read these pids. -/
def withLeft (left : List UInt32) : WorkPhase → WorkPhase
  | .reading _ totals => .reading left totals
  | phase => phase

/-- The profiler over the pids, when the list holds `xs` and the worker has still to read `ys`. -/
def view (m : Mp3Memory) (xs ys : List RecPtr) : Sampler :=
  { m.sampler with
    processList := xs.map m.pids
    phase := withLeft (ys.map m.pids) m.sampler.phase }

/-- The list holds the records `xs`, which are those allocated, and the worker, if it goes through
the list, has the records `ys` before it. -/
structure Keeps (m : Mp3Memory) (xs ys : List RecPtr) : Prop where
  holds : Holds m.links xs
  live : List.Perm m.live xs
  cache : ObjectCache m.live m.nextRec m.recycled
  ahead : ∃ zs, xs = zs ++ ys
  taskI : m.sampler.phase.holdsLock = true → m.taskI = firstOf .head (ys.map .entry)
  tempTask : m.sampler.phase.holdsLock = true → m.tempTask = (m.links m.taskI).next

variable {m m' : Mp3Memory} {xs ys : List RecPtr}

theorem keeps_boot (sampler : Sampler) (pids : RecPtr → UInt32) (links : Lib.Links Node)
    (hidle : sampler.phase.holdsLock = false) : Keeps (boot sampler pids links) [] [] where
  holds := holds_initListHead links
  live := .refl _
  cache := objectCache_empty
  ahead := ⟨[], rfl⟩
  taskI h := by
    rw [show (boot sampler pids links).sampler.phase = sampler.phase from rfl, hidle] at h
    cases h
  tempTask h := by
    rw [show (boot sampler pids links).sampler.phase = sampler.phase from rfl, hidle] at h
    cases h

@[simp] theorem withLeft_holdsLock (left : List UInt32) (phase : WorkPhase) :
    (withLeft left phase).holdsLock = phase.holdsLock := by
  cases phase <;> rfl

theorem withLeft_of_free {left : List UInt32} {phase : WorkPhase}
    (h : phase.holdsLock = false) : withLeft left phase = phase := by
  cases phase with
  | reading => cases h
  | _ => rfl

theorem withLeft_eq_iff {left : List UInt32} {phase phase' : WorkPhase}
    (h : phase'.holdsLock = false) : withLeft left phase = phase' ↔ phase = phase' := by
  cases phase with
  | reading l totals =>
      refine iff_of_false ?_ ?_
      · rintro rfl
        cases h
      · rintro rfl
        cases h
  | _ => exact Iff.rfl

/-- While nobody holds the lock, nothing is before the worker. -/
theorem view_of_free (hfree : m.sampler.phase.holdsLock = false) :
    m.view xs ys = { m.sampler with processList := xs.map m.pids } := by
  rw [view, withLeft_of_free hfree]

namespace Keeps

theorem of_free (hholds : Holds m.links xs) (hlive : List.Perm m.live xs)
    (hcache : ObjectCache m.live m.nextRec m.recycled)
    (hfree : m.sampler.phase.holdsLock = false) :
    Keeps m xs [] where
  holds := hholds
  live := hlive
  cache := hcache
  ahead := ⟨xs, (List.append_nil xs).symm⟩
  taskI h := by
    rw [hfree] at h
    cases h
  tempTask h := by
    rw [hfree] at h
    cases h

theorem mem_live (h : Keeps m xs ys) {a : RecPtr} : a ∈ m.live ↔ a ∈ xs := h.live.mem_iff

theorem freeRec_notMem (h : Keeps m xs ys) : m.freeRec ∉ xs := fun hmem =>
  h.cache.getD_notMem (h.mem_live.mpr hmem)

end Keeps

/-- A record that is not on the list shows no pid. -/
theorem view_scribble {a : RecPtr} {pid : UInt32} (ha : a ∉ xs) (hahead : ∃ zs, xs = zs ++ ys) :
    Mp3Memory.view { m with pids := Function.update m.pids a pid } xs ys = m.view xs ys := by
  have hsame : ∀ l : List RecPtr, l ⊆ xs → l.map (Function.update m.pids a pid) = l.map m.pids := by
    intro l hl
    apply List.map_congr_left
    intro b hb
    apply Function.update_of_ne
    rintro rfl
    exact ha (hl hb)
  obtain ⟨zs, rfl⟩ := hahead
  unfold view
  rw [hsame _ (List.Subset.refl _), hsame _ (List.subset_append_right zs ys)]

/-- Links of a record that is not on the list lead nowhere the worker goes. -/
theorem Keeps.scribbleLinks (h : Keeps m xs ys) {a : RecPtr} {l : Link Node} (ha : a ∉ xs) :
    Keeps { m with links := Function.update m.links (.entry a) l } xs ys := by
  refine ⟨h.holds.update ha, h.live, h.cache, h.ahead, h.taskI, fun hlock => ?_⟩
  have hne : m.taskI ≠ .entry a := by
    rw [h.taskI hlock]
    obtain ⟨zs, rfl⟩ := h.ahead
    cases ys with
    | nil => exact Node.noConfusion
    | cons b ys =>
        rw [List.map_cons, Lib.firstOf_cons]
        rintro ⟨⟩
        exact ha (by simp)
  rw [h.tempTask hlock]
  exact (congrArg Link.next (Function.update_of_ne hne _ _)).symm

/-- Both sides take the step, or neither. -/
def Agree (memory : Option Mp3Memory) (list : Option Sampler) : Prop :=
  (memory = none ∧ list = none) ∨
    ∃ m xs ys, memory = some m ∧ list = some (m.view xs ys) ∧ Keeps m xs ys

/-! ## The steps -/

section
variable {msecsToJiffies : UInt32 → UInt64} {pageSize : Nat} {jiffiesToMsecs : UInt64 → UInt32}
  {junk : RecPtr → Link Node} {fuel : Nat}

/-- A registration links the record in that it is handed out. -/
theorem mp3Registration_agree (h : Keeps m xs ys) (hfree : m.sampler.phase.holdsLock = false)
    (pid : UInt32) (alloc : Bool) :
    Agree (m.mp3Registration msecsToJiffies pid alloc)
      ((Profiler.mp3Registration msecsToJiffies pid alloc (m.view xs ys)).map (·.2)) := by
  cases alloc with
  | false => exact .inl ⟨rfl, rfl⟩
  | true =>
      have hnew := h.freeRec_notMem
      refine .inr ⟨_, xs ++ [m.freeRec], [], rfl, ?_, ?_⟩
      · -- the pids of the other records stay
        have hpids : (xs ++ [m.freeRec]).map (Function.update m.pids m.freeRec pid) =
            xs.map m.pids ++ [pid] := by
          rw [List.map_append, List.map_singleton, Function.update_self]
          congr 1
          apply List.map_congr_left
          intro a ha
          apply Function.update_of_ne
          rintro rfl
          exact hnew ha
        rw [view_of_free hfree, view_of_free, hpids]
        · rfl
        · exact hfree
      · refine .of_free ((h.holds.initEntry hnew).addTail hnew) ?_ h.cache.alloc hfree
        exact (List.Perm.cons _ h.live).trans (List.perm_append_singleton _ _).symm

/-- The first record of a pid stands where the pid first does. -/
theorem erase_map_of_find? {f : RecPtr → UInt32} {pid : UInt32} {xs : List RecPtr} {d : RecPtr}
    (h : xs.find? (fun i => f i = pid) = some d) : (xs.map f).erase pid = (xs.erase d).map f := by
  induction xs with
  | nil => cases h
  | cons x xs ih =>
      by_cases hx : f x = pid
      · rw [List.find?_cons_of_pos (by simpa using hx)] at h
        obtain rfl := Option.some.inj h
        rw [List.map_cons, hx, List.erase_cons_head, List.erase_cons_head]
      · rw [List.find?_cons_of_neg (by simpa using hx)] at h
        have hd : f d = pid := by simpa using List.find?_some h
        have hne : x ≠ d := by
          rintro rfl
          exact hx hd
        rw [List.map_cons, List.erase_cons_tail (by simpa using hx),
          List.erase_cons_tail (by simpa using hne), List.map_cons, ih h]

/-- An unregistration frees the first record of the pid. -/
theorem mp3Unregistration_agree (h : Keeps m xs ys) (hfree : m.sampler.phase.holdsLock = false)
    (hfuel : xs.length < fuel) (pid : UInt32) :
    Agree (m.mp3Unregistration junk fuel pid)
      (some (Profiler.mp3Unregistration pid (m.view xs ys)).2) := by
  rw [mp3Unregistration, forEachEntry_eq Mp3Memory.links ?_ h.holds hfuel]
  · rw [foldUntil_eq_find? (p := fun i => decide (m.pids i = pid))
      (f := fun i m => m.release junk i)
      (fun i _ => by simp)]
    rw [view_of_free hfree]
    cases hfind : xs.find? fun i => m.pids i = pid with
    | none =>
        have hnone : pid ∉ xs.map m.pids := by
          simpa [List.find?_eq_none] using hfind
        refine .inr ⟨m, xs, [], rfl, ?_, .of_free h.holds h.live h.cache hfree⟩
        rw [view_of_free hfree]
        show some ({ m.sampler with processList := (xs.map m.pids).erase pid } : Sampler) = _
        rw [List.erase_of_not_mem hnone]
    | some d =>
        have hd : d ∈ xs := List.mem_of_find?_eq_some hfind
        refine .inr ⟨m.release junk d, xs.erase d, [], rfl, ?_, ?_⟩
        · rw [view_of_free]
          · show some ({ m.sampler with processList := (xs.map m.pids).erase pid } : Sampler) = _
            rw [erase_map_of_find? hfind]
            rfl
          · exact hfree
        · exact .of_free (h.holds.freeEntry hd) (h.live.erase d) (h.cache.free d) hfree
  · intro i m hgo
    split
    · next hpid =>
        rw [if_pos hpid] at hgo
        cases hgo
    · rfl

/-- The worker takes the lock and goes to the first entry. -/
theorem acquire_agree (h : Keeps m xs ys) :
    Agree (mp3MemStep msecsToJiffies pageSize jiffiesToMsecs junk fuel (.act .acquire) m)
      (samplerStep msecsToJiffies pageSize jiffiesToMsecs .acquire (m.view xs ys)) := by
  unfold mp3MemStep samplerStep
  dsimp only
  by_cases hphase : m.sampler.phase = .stamped
  · have hphase' : (m.view xs ys).phase = .stamped := (withLeft_eq_iff rfl).mpr hphase
    rw [if_pos hphase, if_pos hphase']
    refine .inr ⟨_, xs, xs, rfl, rfl, ?_⟩
    exact ⟨h.holds, h.live, h.cache, ⟨[], rfl⟩, fun _ => h.holds.head_next, fun _ => rfl⟩
  · have hphase' : ¬ (m.view xs ys).phase = .stamped := fun heq =>
      hphase ((withLeft_eq_iff rfl).mp heq)
    rw [if_neg hphase, if_neg hphase']
    exact .inl ⟨rfl, rfl⟩

variable (m xs ys) in
/-- What an entry adds to the sums does not depend on the list. -/
theorem readEntry_view (pid : UInt32) (totals : Totals) (phase : WorkPhase) :
    (readEntry pid totals (m.view xs ys)).1 = (readEntry pid totals m.sampler).1 ∧
      { (readEntry pid totals (m.view xs ys)).2 with phase := phase } =
        ({ (readEntry pid totals m.sampler).2 with
          processList := xs.map m.pids, phase := phase } : Sampler) := by
  unfold readEntry getCpuUse
  have hlive : (m.view xs ys).live = m.sampler.live := rfl
  rw [hlive]
  by_cases hpid : pid ∈ m.sampler.live
  · rw [if_pos hpid, if_pos hpid]
    exact ⟨rfl, rfl⟩
  · rw [if_neg hpid, if_neg hpid]
    exact ⟨rfl, rfl⟩

/-- The worker reads the entry it is at. -/
theorem read_agree (h : Keeps m xs ys) :
    Agree (mp3MemStep msecsToJiffies pageSize jiffiesToMsecs junk fuel (.act .read) m)
      (samplerStep msecsToJiffies pageSize jiffiesToMsecs .read (m.view xs ys)) := by
  have hphase' : (m.view xs ys).phase = withLeft (ys.map m.pids) m.sampler.phase := rfl
  unfold mp3MemStep samplerStep
  simp only [hphase']
  cases hphase : m.sampler.phase with
  | reading left totals =>
      have hlock : m.sampler.phase.holdsLock = true := by rw [hphase]; rfl
      have htask := h.taskI hlock
      cases ys with
      | nil =>
          rw [List.map_nil, Lib.firstOf_nil] at htask
          exact .inl ⟨if_pos htask, rfl⟩
      | cons a ys =>
          rw [List.map_cons, Lib.firstOf_cons] at htask
          obtain ⟨zs, rfl⟩ := h.ahead
          have hne : m.taskI ≠ .head := by rw [htask]; exact Node.noConfusion
          obtain ⟨htotals, hstate⟩ := readEntry_view m (zs ++ a :: ys) (a :: ys) (m.pids a) totals
            (.reading (ys.map m.pids) (readEntry (m.pids a) totals m.sampler).1)
          refine .inr ⟨_, zs ++ a :: ys, ys, if_neg hne, ?_, ?_⟩
          · show some ({ (readEntry (m.pids a) totals (m.view (zs ++ a :: ys) (a :: ys))).2 with
              phase := .reading (ys.map m.pids)
                (readEntry (m.pids a) totals (m.view (zs ++ a :: ys) (a :: ys))).1 } :
              Sampler) = _
            rw [htotals, hstate, htask]
            rfl
          · have hnext : m.tempTask = firstOf .head (ys.map .entry) := by
              rw [h.tempTask hlock, htask]
              exact h.holds.entry_next
            exact ⟨h.holds, h.live, h.cache, ⟨zs ++ [a], by simp⟩, fun _ => hnext, fun _ => rfl⟩
  | idle | started | passed | requeued | stamped => exact .inl ⟨rfl, rfl⟩

/-- The worker stores the sample when it is back at the head. -/
theorem store_agree (h : Keeps m xs ys) :
    Agree (mp3MemStep msecsToJiffies pageSize jiffiesToMsecs junk fuel (.act .store) m)
      (samplerStep msecsToJiffies pageSize jiffiesToMsecs .store (m.view xs ys)) := by
  have hphase' : (m.view xs ys).phase = withLeft (ys.map m.pids) m.sampler.phase := rfl
  unfold mp3MemStep samplerStep
  simp only [hphase']
  cases hphase : m.sampler.phase with
  | reading left totals =>
      have hlock : m.sampler.phase.holdsLock = true := by rw [hphase]; rfl
      have htask := h.taskI hlock
      cases ys with
      | nil =>
          rw [List.map_nil, Lib.firstOf_nil] at htask
          exact .inr ⟨_, xs, [], if_pos htask, rfl, .of_free h.holds h.live h.cache rfl⟩
      | cons a ys =>
          rw [List.map_cons, Lib.firstOf_cons] at htask
          have hne : m.taskI ≠ .head := by rw [htask]; exact Node.noConfusion
          exact .inl ⟨if_neg hne, rfl⟩
  | idle | started | passed | requeued | stamped => exact .inl ⟨rfl, rfl⟩

/-- A step that does not look at the list, and leaves the worker where it is. -/
theorem keeps_sampler (h : Keeps m xs ys) {s : Sampler}
    (hphase : s.phase.holdsLock = m.sampler.phase.holdsLock) :
    Keeps { m with sampler := s } xs ys :=
  ⟨h.holds, h.live, h.cache, h.ahead, fun hlock => h.taskI (hphase ▸ hlock),
    fun hlock => h.tempTask (hphase ▸ hlock)⟩

/-- A step of an execution before it goes for the lock. -/
theorem phaseStep_agree (h : Keeps m xs ys) (phase : WorkPhase) (hphase : phase.holdsLock = false)
    (f : Sampler → Sampler) (hfree : (f m.sampler).phase.holdsLock = false)
    (hview : f (m.view xs ys) = Mp3Memory.view { m with sampler := f m.sampler } xs ys) :
    Agree ((if m.sampler.phase = phase then some (f m.sampler) else none).map fun s =>
        { m with sampler := s })
      (if (m.view xs ys).phase = phase then some (f (m.view xs ys)) else none) := by
  by_cases hm : m.sampler.phase = phase
  · have hm' : (m.view xs ys).phase = phase := (withLeft_eq_iff hphase).mpr hm
    rw [if_pos hm, if_pos hm', hview]
    exact .inr ⟨_, xs, ys, rfl, rfl, keeps_sampler h (by rw [hfree, hm, hphase])⟩
  · have hm' : ¬ (m.view xs ys).phase = phase := fun heq => hm ((withLeft_eq_iff hphase).mp heq)
    rw [if_neg hm, if_neg hm']
    exact .inl ⟨rfl, rfl⟩

/-- **One step in memory is one step of the profiler.** -/
theorem mp3MemStep_agree (msecsToJiffies : UInt32 → UInt64) (pageSize : Nat)
    (jiffiesToMsecs : UInt64 → UInt32) (junk : RecPtr → Link Node) (h : Keeps m xs ys)
    (hfuel : xs.length < fuel) (a : SamplerAct) :
    Agree (mp3MemStep msecsToJiffies pageSize jiffiesToMsecs junk fuel (.act a) m)
      (samplerStep msecsToJiffies pageSize jiffiesToMsecs a (m.view xs ys)) := by
  have hlocked : (m.view xs ys).phase.holdsLock = m.sampler.phase.holdsLock :=
    withLeft_holdsLock _ _
  cases a with
  | register pid alloc =>
      unfold mp3MemStep samplerStep
      simp only [hlocked]
      by_cases hlock : m.sampler.phase.holdsLock = true
      · exact .inl ⟨if_pos hlock, if_pos hlock⟩
      · rw [if_neg hlock, if_neg hlock]
        exact mp3Registration_agree h (Bool.eq_false_of_not_eq_true hlock) pid alloc
  | unregister pid =>
      unfold mp3MemStep samplerStep
      simp only [hlocked]
      by_cases hlock : m.sampler.phase.holdsLock = true
      · exact .inl ⟨if_pos hlock, if_pos hlock⟩
      · rw [if_neg hlock, if_neg hlock]
        exact mp3Unregistration_agree h (Bool.eq_false_of_not_eq_true hlock) hfuel pid
  | acquire => exact acquire_agree h
  | read => exact read_agree h
  | store => exact store_agree h
  | increment pid use =>
      unfold mp3MemStep samplerStep
      dsimp only
      by_cases hlive : pid ∈ m.sampler.live
      · rw [if_pos hlive]
        exact .inr ⟨_, xs, ys, rfl, if_pos hlive, keeps_sampler h rfl⟩
      · rw [if_neg hlive]
        exact .inl ⟨rfl, if_neg hlive⟩
  | tick n => exact .inr ⟨_, xs, ys, rfl, rfl, keeps_sampler h rfl⟩
  | start =>
      unfold mp3MemStep samplerStep
      dsimp only
      have hdwork : (m.view xs ys).dwork = m.sampler.dwork := rfl
      rw [hdwork]
      cases m.sampler.dwork with
      | none => exact .inl ⟨rfl, rfl⟩
      | some due =>
          have hguard : ((m.view xs ys).phase = .idle ∧ due ≤ (m.view xs ys).now) ↔
              m.sampler.phase = .idle ∧ due ≤ m.sampler.now :=
            and_congr_left' (withLeft_eq_iff rfl)
          by_cases hready : m.sampler.phase = .idle ∧ due ≤ m.sampler.now
          · simp only [if_pos hready, if_pos (hguard.mpr hready)]
            exact .inr ⟨_, xs, ys, rfl, rfl, keeps_sampler h (by rw [hready.1]; rfl)⟩
          · simp only [if_neg hready, if_neg (mt hguard.mp hready)]
            exact .inl ⟨rfl, rfl⟩
  | check =>
      refine phaseStep_agree h .started rfl (fun s => { s with
        phase := if s.elapsedMs jiffiesToMsecs < threshSamplingPeriodMs then .idle else .passed })
        ?_ ?_
      · dsimp only
        split <;> rfl
      · have helapsed :
            (m.view xs ys).elapsedMs jiffiesToMsecs = m.sampler.elapsedMs jiffiesToMsecs := rfl
        rw [helapsed]
        by_cases hbelow : m.sampler.elapsedMs jiffiesToMsecs < threshSamplingPeriodMs
        · rw [if_pos hbelow]
          rfl
        · rw [if_neg hbelow]
          rfl
  | requeue =>
      exact phaseStep_agree h .passed rfl
        (fun s => { s.queueDwork msecsToJiffies with phase := .requeued }) rfl rfl
  | stamp =>
      exact phaseStep_agree h .requeued rfl
        (fun s => { s with
          mp3 := { s.mp3 with oldJiffies := s.mp3.jiffies }, phase := .stamped }) rfl rfl

/-! ## Runs -/

/-- A step makes the list longer by at most one. -/
theorem length_of_effect {s t : Sampler} {a : SamplerAct}
    (he : SamplerEffect msecsToJiffies pageSize jiffiesToMsecs s a t) :
    t.processList.length ≤ s.processList.length + 1 := by
  cases he with
  | register => exact List.length_append.le
  | unregister => exact List.length_erase_le.trans (Nat.le_succ _)
  | _ => exact Nat.le_succ _

/-- The run in memory and the run of the profiler it is. -/
structure Simulates (msecsToJiffies : UInt32 → UInt64) (pageSize : Nat)
    (jiffiesToMsecs : UInt64 → UInt32) (start : Sampler)
    (tr : List (Transition Mp3Memory Mp3MemAct)) (m : Mp3Memory) (xs ys : List RecPtr)
    (tr' : List (Transition Sampler SamplerAct)) : Prop where
  run : Exec (samplerStep msecsToJiffies pageSize jiffiesToMsecs) start tr' (m.view xs ys)
  acts : tr'.map (·.act) = (tr.map (·.act)).filterMap Mp3MemAct.act?
  keeps : Keeps m xs ys
  length : xs.length ≤ tr.length

theorem simulates_run {mp3 : Mp3} {procs : Finset UInt32} {counters : UInt32 → CpuUse}
    {pids : RecPtr → UInt32} {links : Lib.Links Node}
    {tr : List (Transition Mp3Memory Mp3MemAct)}
    (hrun : Exec (mp3MemStep msecsToJiffies pageSize jiffiesToMsecs junk fuel)
      (boot (Sampler.boot mp3 procs counters) pids links) tr m)
    (hfuel : tr.length < fuel) :
    ∃ xs ys tr', Simulates msecsToJiffies pageSize jiffiesToMsecs (Sampler.boot mp3 procs counters)
      tr m xs ys tr' := by
  induction hrun with
  | refl =>
      exact ⟨[], [], [], .refl _, rfl, keeps_boot _ pids links rfl, Nat.le_refl 0⟩
  | @snoc m m' tr a _ hstep ih =>
      rw [List.length_append, List.length_singleton] at hfuel
      obtain ⟨xs, ys, tr', hsim⟩ := ih (Nat.lt_of_succ_lt hfuel)
      have hlen : (tr ++ [(⟨m, a, m'⟩ : Transition Mp3Memory Mp3MemAct)]).length = tr.length + 1 :=
        List.length_append
      cases a with
      | act a =>
          have hxs : xs.length < fuel := Nat.lt_of_le_of_lt hsim.length (Nat.lt_of_succ_lt hfuel)
          rcases mp3MemStep_agree msecsToJiffies pageSize jiffiesToMsecs junk hsim.keeps hxs a with
            ⟨hnone, _⟩ | ⟨m₁, xs', ys', hmem, hlist, hkeeps⟩
          · rw [hnone] at hstep
            cases hstep
          · obtain rfl : m₁ = m' := Option.some.inj (hmem.symm.trans hstep)
            refine ⟨xs', ys', _, hsim.run.snoc hlist, ?_, hkeeps, ?_⟩
            · simp [hsim.acts, Mp3MemAct.act?]
            · have hgrow := length_of_effect (samplerEffect_of_step hlist)
              simp only [view, List.length_map] at hgrow
              rw [hlen]
              exact hgrow.trans (Nat.succ_le_succ hsim.length)
      | scribble a pid =>
          unfold mp3MemStep at hstep
          dsimp only at hstep
          split at hstep
          · cases hstep
          · next hlive =>
              obtain rfl := Option.some.inj hstep
              have ha : a ∉ xs := fun hmem => hlive (hsim.keeps.mem_live.mpr hmem)
              refine ⟨xs, ys, tr', ?_, ?_, ?_, ?_⟩
              · rw [view_scribble ha hsim.keeps.ahead]
                exact hsim.run
              · simp [hsim.acts, Mp3MemAct.act?]
              · exact { hsim.keeps with }
              · rw [hlen]
                exact hsim.length.trans (Nat.le_succ _)
      | scribbleLinks a l =>
          unfold mp3MemStep at hstep
          dsimp only at hstep
          split at hstep
          · cases hstep
          · next hlive =>
              obtain rfl := Option.some.inj hstep
              have ha : a ∉ xs := fun hmem => hlive (hsim.keeps.mem_live.mpr hmem)
              refine ⟨xs, ys, tr', hsim.run, ?_, hsim.keeps.scribbleLinks ha, ?_⟩
              · simp [hsim.acts, Mp3MemAct.act?]
              · rw [hlen]
                exact hsim.length.trans (Nat.le_succ _)
      | recycle a =>
          unfold mp3MemStep at hstep
          dsimp only at hstep
          split at hstep
          · next hfree =>
              obtain rfl := Option.some.inj hstep
              refine ⟨xs, ys, tr', hsim.run, ?_, ?_, ?_⟩
              · simp [hsim.acts, Mp3MemAct.act?]
              · exact { hsim.keeps with cache := hsim.keeps.cache.recycle hfree.2 }
              · rw [hlen]
                exact hsim.length.trans (Nat.le_succ _)
          · cases hstep

end

end Mp3Memory

def quietMemory : Mp3Memory :=
  Mp3Memory.boot quietSampler (fun _ => 0) fun _ => ⟨.poison1, .poison1⟩

end KernelDev.Profiler
