/-
# KernelDev.Loader.RustOut — `rust.out`, and who else writes it

`iu_obj::load` hands the relocated object to the kernel through a file: it creates `rust.out` in the
working directory, writes the object to it, closes it, opens it again for reading, passes the
descriptor to `BPF_PROG_LOAD_IU_BASE` and removes the name. The source has a TODO at the first of
these calls: `Will have race condition if multiple objs loaded at same time`.

Here any number of loads run in any order, one system call at a time. A load is undisturbed when no
other load in the same directory has created, written or removed `rust.out` since its own creation.
`undisturbed_load` says that the kernel then reads what this load has written, and that the removal
finds the file; loads in other directories do not matter. `swapped_load` is the race.
-/
import KernelDev.Lib.Execution
import KernelDev.Lib.NamedFile

namespace KernelDev.Loader

open KernelDev.Lib

/-! ## The calls of a load -/

/-- How far a load has come with the file. `image` is the object as `fix_maps` leaves it, and `pos`
how much of it has been written: an `std::ofstream` is not asked whether its writes succeeded. -/
inductive LoadStage
  | idle
  | writing (image : List UInt8) (i : Inode) (pos : Nat)
  | written (image : List UInt8) (pos : Nat)
  | opened (image : List UInt8) (pos : Nat) (fd : Option Inode)
  | loaded
  deriving DecidableEq

/-- The calls; `p` is the load that makes them. -/
inductive RustOutCall (P : Type*)
  | create (p : P) (image : List UInt8)
  | write (p : P) (n : Nat)
  | close (p : P)
  | openRead (p : P)
  | bpfProgLoadIuBase (p : P) (accept : Bool)
  | remove (p : P)
  deriving DecidableEq

structure Loads (P Name : Type*) where
  fs : FileSystem Name
  stage : P → LoadStage

section
variable {P Name : Type*} [DecidableEq P] [DecidableEq Name] (rustOut : P → Name)

def Loads.setStage (s : Loads P Name) (p : P) (st : LoadStage) : Loads P Name :=
  { s with stage := Function.update s.stage p st }

/-- The step function. `rustOut p` is the path that `rust.out` is in the directory of `p`. A load
that the kernel does not accept returns -1 and leaves the file. -/
def loadStep : RustOutCall P → Loads P Name → Option (Loads P Name)
  | .create p image, s =>
      match s.stage p with
      | .idle =>
          let (i, fs) := s.fs.create (rustOut p)
          some (Loads.setStage { s with fs := fs } p (.writing image i 0))
      | .writing _ _ _ | .written _ _ | .opened _ _ _ | .loaded => none
  | .write p n, s =>
      match s.stage p with
      | .writing image i pos =>
          if pos + n ≤ image.length then
            some (Loads.setStage { s with fs := s.fs.write i pos ((image.drop pos).take n) } p
              (.writing image i (pos + n)))
          else none
      | .idle | .written _ _ | .opened _ _ _ | .loaded => none
  | .close p, s =>
      match s.stage p with
      | .writing image _ pos => some (s.setStage p (.written image pos))
      | .idle | .written _ _ | .opened _ _ _ | .loaded => none
  | .openRead p, s =>
      match s.stage p with
      | .written image pos => some (s.setStage p (.opened image pos (s.fs.names (rustOut p))))
      | .idle | .writing _ _ _ | .opened _ _ _ | .loaded => none
  | .bpfProgLoadIuBase p accept, s =>
      match s.stage p with
      | .opened _ _ fd =>
          if accept = false then some (s.setStage p .idle)
          else if fd.isSome then some (s.setStage p .loaded)
          else none
      | .idle | .writing _ _ _ | .written _ _ | .loaded => none
  | .remove p, s =>
      match s.stage p with
      | .loaded => some (Loads.setStage { s with fs := s.fs.unlink (rustOut p) } p .idle)
      | .idle | .writing _ _ _ | .written _ _ | .opened _ _ _ => none

/-- `CallEffect s call t`: the outcomes of every call from `s`, one constructor each. -/
inductive CallEffect (s : Loads P Name) : RustOutCall P → Loads P Name → Prop
  | create {p : P} {image : List UInt8} (hstage : s.stage p = .idle) :
      CallEffect s (.create p image) (Loads.setStage { s with fs := (s.fs.create (rustOut p)).2 } p
        (.writing image (s.fs.create (rustOut p)).1 0))
  | write {p : P} {n : Nat} (image : List UInt8) (i : Inode) (pos : Nat)
      (hstage : s.stage p = .writing image i pos) (hle : pos + n ≤ image.length) :
      CallEffect s (.write p n)
        (Loads.setStage { s with fs := s.fs.write i pos ((image.drop pos).take n) } p
          (.writing image i (pos + n)))
  | close {p : P} (image : List UInt8) (i : Inode) (pos : Nat)
      (hstage : s.stage p = .writing image i pos) :
      CallEffect s (.close p) (s.setStage p (.written image pos))
  | openRead {p : P} (image : List UInt8) (pos : Nat) (hstage : s.stage p = .written image pos) :
      CallEffect s (.openRead p) (s.setStage p (.opened image pos (s.fs.names (rustOut p))))
  | reject {p : P} (image : List UInt8) (pos : Nat) (fd : Option Inode)
      (hstage : s.stage p = .opened image pos fd) :
      CallEffect s (.bpfProgLoadIuBase p false) (s.setStage p .idle)
  | accept {p : P} (image : List UInt8) (pos : Nat) (i : Inode)
      (hstage : s.stage p = .opened image pos (some i)) :
      CallEffect s (.bpfProgLoadIuBase p true) (s.setStage p .loaded)
  | remove {p : P} (hstage : s.stage p = .loaded) :
      CallEffect s (.remove p) (Loads.setStage { s with fs := s.fs.unlink (rustOut p) } p .idle)

end

section
variable {P Name : Type*} [DecidableEq P] [DecidableEq Name] {rustOut : P → Name}
  {s t : Loads P Name} {call : RustOutCall P}

omit [DecidableEq Name] in
@[simp] theorem Loads.setStage_fs (s : Loads P Name) (p : P) (st : LoadStage) :
    (s.setStage p st).fs = s.fs := rfl

omit [DecidableEq Name] in
@[simp] theorem Loads.setStage_same (s : Loads P Name) (p : P) (st : LoadStage) :
    (s.setStage p st).stage p = st := Function.update_self ..

omit [DecidableEq Name] in
theorem Loads.setStage_other (s : Loads P Name) {p q : P} (h : q ≠ p) (st : LoadStage) :
    (s.setStage p st).stage q = s.stage q := Function.update_of_ne h ..

/-- Every call has one of the listed outcomes. -/
theorem callEffect_of_step (h : loadStep rustOut call s = some t) :
    CallEffect rustOut s call t := by
  cases call with
  | create p image =>
      simp only [loadStep] at h
      split at h
      · next hstage =>
          obtain rfl := Option.some.inj h
          exact .create hstage
      all_goals cases h
  | write p n =>
      simp only [loadStep] at h
      split at h
      · next image i pos hstage =>
          split at h
          · next hle =>
              obtain rfl := Option.some.inj h
              exact .write image i pos hstage hle
          · cases h
      all_goals cases h
  | close p =>
      simp only [loadStep] at h
      split at h
      · next image i pos hstage =>
          obtain rfl := Option.some.inj h
          exact .close image i pos hstage
      all_goals cases h
  | openRead p =>
      simp only [loadStep] at h
      split at h
      · next image pos hstage =>
          obtain rfl := Option.some.inj h
          exact .openRead image pos hstage
      all_goals cases h
  | bpfProgLoadIuBase p accept =>
      simp only [loadStep] at h
      split at h
      · next image pos fd hstage =>
          cases accept with
          | false =>
              obtain rfl := Option.some.inj h
              exact .reject image pos fd hstage
          | true =>
              simp only [Bool.true_eq_false, if_false] at h
              split at h
              · next hfd =>
                  obtain rfl := Option.some.inj h
                  obtain ⟨i, rfl⟩ := Option.isSome_iff_exists.mp hfd
                  exact .accept image pos i hstage
              · cases h
      all_goals cases h
  | remove p =>
      simp only [loadStep] at h
      split at h
      · next hstage =>
          obtain rfl := Option.some.inj h
          exact .remove hstage
      all_goals cases h

/-! ## Disturbance -/

/-- The load that makes a call. -/
def RustOutCall.load : RustOutCall P → P
  | .create p _ | .write p _ | .close p | .openRead p | .bpfProgLoadIuBase p _ | .remove p => p

/-- The load that creates, writes or removes the file by a call. -/
def RustOutCall.touches : RustOutCall P → Option P
  | .create p _ | .write p _ | .remove p => some p
  | .close _ | .openRead _ | .bpfProgLoadIuBase _ _ => none

/-- The call creates the file for load `p`. -/
def RustOutCall.starts (p : P) : RustOutCall P → Bool
  | .create q _ => q = p
  | .write _ _ | .close _ | .openRead _ | .bpfProgLoadIuBase _ _ | .remove _ => false

variable (rustOut) in
/-- Another load of the same directory creates, writes or removes the file. -/
def RustOutCall.disturbs (p : P) (call : RustOutCall P) : Bool :=
  call.touches.any fun q => q ≠ p ∧ rustOut q = rustOut p

variable (rustOut) in
/-- Nobody has disturbed load `p` since it created its file. -/
def Undisturbed (p : P) (tr : List (Transition (Loads P Name) (RustOutCall P))) : Bool :=
  tr.foldl (fun b x => x.act.starts p || (b && !x.act.disturbs rustOut p)) true

theorem undisturbed_concat {p : P} {tr : List (Transition (Loads P Name) (RustOutCall P))}
    {x : Transition (Loads P Name) (RustOutCall P)} :
    Undisturbed rustOut p (tr ++ [x]) = true ↔
      x.act.starts p = true ∨
        Undisturbed rustOut p tr = true ∧ x.act.disturbs rustOut p = false := by
  simp [Undisturbed]

variable (rustOut) in
/-- `rust.out` is the file of load `p` and holds what it has written. -/
def OwnFile (s : Loads P Name) (p : P) : Prop :=
  match s.stage p with
  | .idle => True
  | .writing image i pos =>
      s.fs.names (rustOut p) = some i ∧ s.fs.data i = image.take pos ∧ pos ≤ image.length
  | .written image pos => ∃ i, s.fs.names (rustOut p) = some i ∧ s.fs.data i = image.take pos
  | .opened image pos fd =>
      ∃ i, fd = some i ∧ s.fs.names (rustOut p) = some i ∧ s.fs.data i = image.take pos
  | .loaded => ∃ i, s.fs.names (rustOut p) = some i

omit [DecidableEq P] [DecidableEq Name] in
/-- A step that leaves the load, its name and the file behind the name leaves it its file. -/
theorem OwnFile.frame {p : P} (h : OwnFile rustOut s p) (hstage : t.stage p = s.stage p)
    (hnames : t.fs.names (rustOut p) = s.fs.names (rustOut p))
    (hdata : ∀ i, s.fs.names (rustOut p) = some i → t.fs.data i = s.fs.data i) :
    OwnFile rustOut t p := by
  unfold OwnFile at h ⊢
  rw [hstage, hnames]
  cases hs : s.stage p with
  | idle => trivial
  | writing image i pos =>
      rw [hs] at h
      obtain ⟨hi, hd, hle⟩ := h
      exact ⟨hi, (hdata i hi).trans hd, hle⟩
  | written image pos =>
      rw [hs] at h
      obtain ⟨i, hi, hd⟩ := h
      exact ⟨i, hi, (hdata i hi).trans hd⟩
  | opened image pos fd =>
      rw [hs] at h
      obtain ⟨i, hfd, hi, hd⟩ := h
      exact ⟨i, hfd, hi, (hdata i hi).trans hd⟩
  | loaded =>
      rw [hs] at h
      exact h

/-! ## The invariant -/

/-- Every file has one name, and a load that is writing writes to a file of its own name. -/
structure OwnNames (rustOut : P → Name) (s : Loads P Name) (home : Inode → Name) : Prop where
  homed : s.fs.Homed home
  writers : ∀ q image i pos, s.stage q = .writing image i pos →
    home i = rustOut q ∧ i < s.fs.next

omit [DecidableEq Name] in
/-- A load that moves on keeps every writer at its own name, if it is at its own. -/
theorem OwnNames.setStage {home : Inode → Name} (h : OwnNames rustOut s home) {q : P}
    {st : LoadStage} (hst : ∀ image i pos, st = .writing image i pos →
      home i = rustOut q ∧ i < s.fs.next) : OwnNames rustOut (s.setStage q st) home where
  homed := h.homed
  writers p image i pos hp := by
    by_cases hpq : p = q
    · subst hpq
      exact hst image i pos (by rw [← hp, Loads.setStage_same])
    · rw [Loads.setStage_other s hpq] at hp
      exact h.writers p image i pos hp

theorem OwnNames.effect {home : Inode → Name} (h : OwnNames rustOut s home)
    (he : CallEffect rustOut s call t) : ∃ home', OwnNames rustOut t home' := by
  cases he with
  | @create p image hstage =>
      obtain ⟨home', hhomed, hfile, hlt, hold⟩ := h.homed.create_home (rustOut p)
      have hbase : OwnNames rustOut { s with fs := (s.fs.create (rustOut p)).2 } home' := by
        refine ⟨hhomed, fun q image i pos hq => ?_⟩
        obtain ⟨hhome, hi⟩ := h.writers q image i pos hq
        exact ⟨(hold i hi).trans hhome, Nat.lt_of_lt_of_le hi (s.fs.next_le_create _)⟩
      refine ⟨home', hbase.setStage ?_⟩
      intro image' i pos hst
      obtain ⟨-, rfl, -⟩ := LoadStage.writing.inj hst
      exact ⟨hfile, hlt⟩
  | @write p n image i pos hstage =>
      have hbase : OwnNames rustOut
          { s with fs := s.fs.write i pos ((image.drop pos).take n) } home :=
        ⟨h.homed.write i pos _, h.writers⟩
      refine ⟨home, hbase.setStage ?_⟩
      intro image' j pos' hst
      obtain ⟨-, rfl, -⟩ := LoadStage.writing.inj hst
      exact h.writers p image i pos hstage
  | close image i pos => exact ⟨home, h.setStage (by simp)⟩
  | openRead image pos => exact ⟨home, h.setStage (by simp)⟩
  | reject image pos fd => exact ⟨home, h.setStage (by simp)⟩
  | accept image pos i => exact ⟨home, h.setStage (by simp)⟩
  | @remove p hstage =>
      have hbase : OwnNames rustOut { s with fs := s.fs.unlink (rustOut p) } home :=
        ⟨h.homed.unlink _, h.writers⟩
      exact ⟨home, hbase.setStage (by simp)⟩

/-- The load that makes the call keeps its file. -/
theorem OwnFile.self (h : OwnFile rustOut s call.load) (he : CallEffect rustOut s call t) :
    OwnFile rustOut t call.load := by
  cases he with
  | @create p image hstage =>
      show OwnFile rustOut _ p
      simp only [OwnFile, Loads.setStage_same, Loads.setStage_fs, List.take_zero]
      exact ⟨s.fs.create_names (rustOut p), s.fs.create_data (rustOut p), Nat.zero_le _⟩
  | @write p n image i pos hstage hle =>
      replace h : OwnFile rustOut s p := h
      simp only [OwnFile, hstage] at h
      obtain ⟨hi, hd, hpos⟩ := h
      -- the position is the end of what the file holds
      have hend : pos = (image.take pos).length := by simp [hpos]
      have hgrow : overwrite (image.take pos) pos ((image.drop pos).take n) =
          image.take (pos + n) :=
        calc overwrite (image.take pos) pos ((image.drop pos).take n)
            = overwrite (image.take pos) (image.take pos).length ((image.drop pos).take n) := by
              rw [← hend]
          _ = image.take pos ++ (image.drop pos).take n := overwrite_length _ _
          _ = image.take (pos + n) := List.take_add.symm
      show OwnFile rustOut _ p
      simp only [OwnFile, Loads.setStage_same, Loads.setStage_fs, FileSystem.write,
        Function.update_self]
      exact ⟨hi, by rw [hd, hgrow], hle⟩
  | @close p image i pos hstage =>
      replace h : OwnFile rustOut s p := h
      simp only [OwnFile, hstage] at h
      show OwnFile rustOut _ p
      simp only [OwnFile, Loads.setStage_same, Loads.setStage_fs]
      exact ⟨i, h.1, h.2.1⟩
  | @openRead p image pos hstage =>
      replace h : OwnFile rustOut s p := h
      simp only [OwnFile, hstage] at h
      obtain ⟨i, hi, hd⟩ := h
      show OwnFile rustOut _ p
      simp only [OwnFile, Loads.setStage_same, Loads.setStage_fs]
      exact ⟨i, hi, hi, hd⟩
  | @reject p image pos fd hstage =>
      show OwnFile rustOut _ p
      simp only [OwnFile, Loads.setStage_same]
  | @accept p image pos i hstage =>
      replace h : OwnFile rustOut s p := h
      simp only [OwnFile, hstage] at h
      obtain ⟨j, -, hj, -⟩ := h
      show OwnFile rustOut _ p
      simp only [OwnFile, Loads.setStage_same, Loads.setStage_fs]
      exact ⟨j, hj⟩
  | @remove p hstage =>
      show OwnFile rustOut _ p
      simp only [OwnFile, Loads.setStage_same]

/-- A call of another load that does not disturb it leaves a load its file. -/
theorem OwnFile.other {p : P} {home : Inode → Name} (h : OwnFile rustOut s p)
    (hn : OwnNames rustOut s home) (he : CallEffect rustOut s call t) (hp : call.load ≠ p)
    (hd : call.disturbs rustOut p = false) : OwnFile rustOut t p := by
  have hname : ∀ q, call.load = q → call.touches = some q → rustOut p ≠ rustOut q := by
    intro q hq htouch heq
    simp [RustOutCall.disturbs, htouch, heq] at hd
    exact hp (hq.trans hd)
  cases he with
  | @create q image hstage =>
      have hne : rustOut p ≠ rustOut q := hname q rfl rfl
      exact h.frame (Loads.setStage_other _ (Ne.symm hp) _) (FileSystem.create_names_other hne)
        fun i hi => hn.homed.create_data_other hne hi
  | @write q n image j pos hstage hle =>
      have hne : rustOut p ≠ rustOut q := hname q rfl rfl
      have hhome : home j ≠ rustOut p := by
        rw [(hn.writers q image j pos hstage).1]
        exact hne.symm
      exact h.frame (Loads.setStage_other _ (Ne.symm hp) _) rfl
        fun i hi => hn.homed.write_data_other hi hhome _ _
  | @remove q hstage =>
      have hne : rustOut p ≠ rustOut q := hname q rfl rfl
      exact h.frame (Loads.setStage_other _ (Ne.symm hp) _) (Function.update_of_ne hne _ _)
        fun _ _ => rfl
  | close | openRead | reject | accept =>
      exact h.frame (Loads.setStage_other _ (Ne.symm hp) _) rfl fun _ _ => rfl

variable (rustOut) in
/-- The invariant: no file has two names, and every load that is undisturbed has its file. -/
structure OwnFiles (tr : List (Transition (Loads P Name) (RustOutCall P))) (s : Loads P Name) :
    Prop where
  names : ∃ home, OwnNames rustOut s home
  own : ∀ p, Undisturbed rustOut p tr = true → OwnFile rustOut s p

/-- **Every call keeps the invariant.** -/
theorem OwnFiles.step {tr : List (Transition (Loads P Name) (RustOutCall P))}
    {x : Transition (Loads P Name) (RustOutCall P)} (h : OwnFiles rustOut tr x.pre)
    (hx : loadStep rustOut x.act x.pre = some x.post) : OwnFiles rustOut (tr ++ [x]) x.post := by
  have he : CallEffect rustOut x.pre x.act x.post := callEffect_of_step hx
  obtain ⟨home, hn⟩ := h.names
  refine ⟨hn.effect he, fun p hp => ?_⟩
  rcases undisturbed_concat.mp hp with hstart | ⟨hun, hd⟩
  · -- the load starts over, whatever happened to its last file
    obtain ⟨s, act, t⟩ := x
    replace he : CallEffect rustOut s act t := he
    cases he with
    | @create q image hstage =>
        obtain rfl : q = p := by simpa [RustOutCall.starts] using hstart
        have hidle : OwnFile rustOut s (RustOutCall.create q image : RustOutCall P).load := by
          simp [OwnFile, RustOutCall.load, hstage]
        exact hidle.self (.create hstage)
    | write | close | openRead | reject | accept | remove =>
        simp [RustOutCall.starts] at hstart
  · by_cases hself : x.act.load = p
    · subst hself
      exact (h.own _ hun).self he
    · exact (h.own p hun).other hn he hself hd

/-! ## Runs -/

variable (rustOut) in
/-- Nobody is loading, and no file has two names. -/
structure NoneLoading (s : Loads P Name) : Prop where
  idle : ∀ p, s.stage p = .idle
  names : ∃ home, s.fs.Homed home

theorem NoneLoading.ownFiles (h : NoneLoading s) : OwnFiles rustOut [] s where
  names := by
    obtain ⟨home, hhomed⟩ := h.names
    refine ⟨home, hhomed, fun q image i pos hq => ?_⟩
    rw [h.idle q] at hq
    cases hq
  own p _ := by simp [OwnFile, h.idle p]

/-- **An undisturbed load hands the kernel what it has written**, and `remove` finds the file. -/
theorem undisturbed_load (rustOut : P → Name) {s₀ s : Loads P Name}
    {tr : List (Transition (Loads P Name) (RustOutCall P))} (h : Exec (loadStep rustOut) s₀ tr s)
    (hs₀ : NoneLoading s₀) {p : P} (hun : Undisturbed rustOut p tr = true) :
    (∀ image pos fd, s.stage p = .opened image pos fd →
      ∃ i, fd = some i ∧ s.fs.data i = image.take pos) ∧
    (s.stage p = .loaded → (s.fs.names (rustOut p)).isSome) := by
  have hrun := h.traced (I := OwnFiles rustOut) (C := fun _ => True) hs₀.ownFiles
    (fun _ _ hx _ hI => hI.step hx) fun _ _ => trivial
  have hown := hrun.own p hun
  constructor
  · intro image pos fd hstage
    simp only [OwnFile, hstage] at hown
    obtain ⟨i, hfd, -, hd⟩ := hown
    exact ⟨i, hfd, hd⟩
  · intro hstage
    simp only [OwnFile, hstage] at hown
    obtain ⟨i, hi⟩ := hown
    rw [hi]
    rfl

end

/-- Two directories, in turn. -/
def twoDirs (p : Nat) : Nat := p % 2

/-- Nothing is there. -/
def emptyDirs : Loads Nat Nat := ⟨⟨fun _ => none, fun _ => [], 0⟩, fun _ => .idle⟩

theorem noneLoading_emptyDirs : NoneLoading emptyDirs where
  idle _ := rfl
  names := ⟨fun _ => 0, fun _ _ h => (by cases h), fun _ _ h => (by cases h)⟩

/-- Load 0 writes its three bytes in two pieces, while load 1 writes in its own directory. -/
def besideOther : List (RustOutCall Nat) :=
  [.create 0 [1, 2, 3], .write 0 2, .create 1 [9], .write 1 1, .write 0 1, .close 0, .openRead 0]

theorem besideOther_runs : (runActions (loadStep twoDirs) besideOther emptyDirs).isSome := rfl

theorem undisturbed_load_besideOther :
    (endOf _ _ _ besideOther_runs).stage 0 = .opened [1, 2, 3] 3 (some 0) ∧
      ∃ i, some 0 = some i ∧ (endOf _ _ _ besideOther_runs).fs.data i = [1, 2, 3] :=
  ⟨rfl, (undisturbed_load (p := 0) twoDirs (exec_runOf besideOther_runs) noneLoading_emptyDirs
    (by decide)).1 [1, 2, 3] 3 (some 0) rfl⟩

/-- Load 2 creates and writes the file before load 0 opens it again. -/
def overtaken : List (RustOutCall Nat) :=
  [.create 0 [1, 2, 3], .write 0 3, .close 0, .create 2 [9], .write 2 1, .openRead 0]

theorem overtaken_runs : (runActions (loadStep twoDirs) overtaken emptyDirs).isSome := rfl

/-- What load 0 then hands to the kernel is the object of load 2. -/
theorem swapped_load :
    (endOf _ _ _ overtaken_runs).stage 0 = .opened [1, 2, 3] 3 (some 0) ∧
      (endOf _ _ _ overtaken_runs).fs.data 0 = [9] := by
  decide

end KernelDev.Loader
