/-
# KernelDev.Wire.Apps — any number of `userapp`s and the scheduler

One `userapp` registers, yields once and once more after each of its jobs, and de-registers; each
request is one message to a file opened for it, which the C library may write again at another
offset. Here any number of them run against one scheduler, and their writes interleave with each
other and with what the scheduler does in the background as they like.

`apps_registered`: at every moment the task set consists of the apps whose registration was accepted
and that have not de-registered yet, each with its own parameters.
-/
import KernelDev.Rms.Session
import KernelDev.Wire.Clients

namespace KernelDev.Wire

open KernelDev.Lib KernelDev.Rms

/-! ## The program -/

/-- One `userapp` process: its arguments, and the time it measured for a job. -/
structure UserApp where
  task : TaskPtr
  pid : Int32
  period : UInt64
  numberOfJobs : UInt64
  processingTime : UInt64
  deriving DecidableEq, Repr

namespace UserApp

/-- `int jobs = number_of_jobs`, as the loop counts them. -/
def jobs (a : UserApp) : Nat := a.numberOfJobs.toUInt32.toInt32.toInt.toNat

/-- What `main` writes. -/
def messages (a : UserApp) : List Bytes :=
  registerProcess a.pid a.period a.processingTime ::
    (List.replicate (a.jobs + 1) (yieldProcess a.pid) ++ [deregisterProcess a.pid])

def params (a : UserApp) : TaskParams := ⟨a.pid.toUInt32, a.period, a.processingTime⟩

end UserApp

/-! ## Histories of apps -/

/-- A history of the scheduler and its clients. -/
abbrev Mp2History : Type := List (Transition Mp2 (FileAct Mp2Locals Mp2Env Act))

/-- The message of an act, if the process writes one to a new file. -/
def messageOf (task : TaskPtr) : FileAct Mp2Locals Mp2Env Act → Option Bytes
  | .write w => if w.env.writer = task ∧ w.offp = 0 then some w.message else none
  | .other _ => none

/-- What a process has written to new files. -/
def sent (task : TaskPtr) (tr : Mp2History) : List Bytes :=
  tr.filterMap fun x => messageOf task x.act

def writerOf : FileAct Mp2Locals Mp2Env Act → Option TaskPtr
  | .write w => some w.env.writer
  | .other _ => none

/-- All writes are those of the apps, each in the order of its program, as far as it has come. -/
structure RunBy (apps : List UserApp) (tr : Mp2History) : Prop where
  byApp : ∀ x ∈ tr, ∀ task ∈ writerOf x.act, ∃ a ∈ apps, a.task = task
  inOrder : ∀ a ∈ apps, sent a.task tr <+: a.messages

/-- The apps are different processes. -/
structure Distinct (apps : List UserApp) : Prop where
  task : ∀ a ∈ apps, ∀ b ∈ apps, a.task = b.task → a = b
  pid : ∀ a ∈ apps, ∀ b ∈ apps, a.pid = b.pid → a = b

/-- The registration of the app is let through in this transition: there is memory for its record,
the process is found, and the utilization test accepts it against the tasks there are. -/
def Accepts (a : UserApp) (x : Transition Mp2 (FileAct Mp2Locals Mp2Env Act)) : Prop :=
  ∃ w, x.act = .write w ∧ w.env.writer = a.task ∧ w.offp = 0 ∧
    w.message = registerProcess a.pid a.period a.processingTime ∧
    (w.env.alloc && w.env.found != 0) = true ∧
    utilizationTest (taskSet x.pre) a.params = some 0

/-- The app is registered: it has been let through and has not written its last message. -/
def Registered (a : UserApp) (tr : Mp2History) : Prop :=
  (∃ x ∈ tr, Accepts a x) ∧ sent a.task tr ≠ a.messages

/-! ## What the messages ask for -/

/-- A message that ends in a newline and says a request is clear. -/
theorem clear_of_said {bs : Bytes} {r : Mp2Request} (h : Mp2Says (chomp bs) r)
    (hnl : bs.getLast? = some newline) : mp2Format.Clear bs := by
  have hsaid : mp2Format.Says (chomp bs) r := mp2Format_said.mpr h
  rw [← mp2Format.lawful_iff bs]
  intro rest l
  have hperform : mp2Format.handle bs rest l = .perform r :=
    Format.handle_of_said hsaid hnl rest l
  refine ⟨fun r' => ⟨fun h' => ?_, fun h' => ?_⟩, fun hnone => absurd hsaid (hnone r)⟩
  · obtain rfl := RequestOutcome.perform.inj (hperform.symm.trans h')
    exact hsaid
  · exact Format.handle_of_said h' hnl rest l

/-- What a message of an app asks for. -/
inductive Asks (a : UserApp) : Bytes → Mp2Request → Prop
  | register : Asks a (registerProcess a.pid a.period a.processingTime)
      (.registration a.pid.toUInt32 a.period a.processingTime)
  | yield : Asks a (yieldProcess a.pid) (.yield a.pid.toUInt32)
  | deregister : Asks a (deregisterProcess a.pid) (.deregistration a.pid.toUInt32)

theorem Asks.said {a : UserApp} {bs : Bytes} {r : Mp2Request} (h : Asks a bs r) :
    Mp2Says (chomp bs) r ∧ bs.getLast? = some newline := by
  cases h with
  | register => exact ⟨registerProcess_said _ _ _, List.getLast?_concat⟩
  | yield => exact ⟨yieldProcess_said _, List.getLast?_concat⟩
  | deregister => exact ⟨deregisterProcess_said _, List.getLast?_concat⟩

/-- The next message of an app: its first is the registration, its last the de-registration. -/
inductive Next (a : UserApp) (before : List Bytes) : Bytes → Prop
  | register (hfirst : before = []) (hmore : before ++ [registerProcess a.pid a.period
      a.processingTime] ≠ a.messages) :
      Next a before (registerProcess a.pid a.period a.processingTime)
  | yield (hlater : before ≠ []) (hmore : before ++ [yieldProcess a.pid] ≠ a.messages) :
      Next a before (yieldProcess a.pid)
  | deregister (hlater : before ≠ []) (hlast : before ++ [deregisterProcess a.pid] = a.messages) :
      Next a before (deregisterProcess a.pid)

theorem next_of_start {a : UserApp} {before : List Bytes} {m : Bytes}
    (h : before ++ [m] <+: a.messages) : Next a before m := by
  unfold UserApp.messages at h
  cases before with
  | nil =>
      obtain ⟨rfl, -⟩ := List.cons_prefix_cons.mp h
      refine .register rfl fun heq => ?_
      have hlength := congrArg List.length heq
      simp [UserApp.messages] at hlength
  | cons first rest =>
      rw [List.cons_append] at h
      obtain ⟨rfl, hrest⟩ := List.cons_prefix_cons.mp h
      rcases List.prefix_concat_iff.mp hrest with hlast | hyields
      · obtain ⟨rfl, hm⟩ := List.append_inj' hlast rfl
        obtain rfl := List.singleton_inj.mp hm
        exact .deregister (List.cons_ne_nil _ _) rfl
      · have hm : m = yieldProcess a.pid :=
          List.eq_of_mem_replicate (hyields.subset (by simp))
        subst hm
        refine .yield (List.cons_ne_nil _ _) fun heq => ?_
        have hlength := congrArg List.length heq
        have hle := hyields.length_le
        simp only [UserApp.messages, List.length_append, List.length_cons, List.length_nil,
          List.length_replicate] at hlength hle
        omega

/-- What is written first asks for a registration, what is written last for a de-registration. -/
theorem Next.asks {a : UserApp} {before : List Bytes} {m : Bytes} (h : Next a before m) :
    ∃ r, Asks a m r := by
  cases h with
  | register => exact ⟨_, .register⟩
  | yield => exact ⟨_, .yield⟩
  | deregister => exact ⟨_, .deregister⟩

/-- A registration is told from the other messages by its letter. -/
theorem registerProcess_ne {a b : UserApp} :
    yieldProcess b.pid ≠ registerProcess a.pid a.period a.processingTime ∧
      deregisterProcess b.pid ≠ registerProcess a.pid a.period a.processingTime := by
  constructor
  · intro h
    have hhead := congrArg List.head? h
    simp [yieldProcess, registerProcess] at hhead
  · intro h
    have hhead := congrArg List.head? h
    simp [deregisterProcess, registerProcess] at hhead

/-! ## One transition -/

variable {msecsToJiffies : UInt32 → UInt64} {apps : List UserApp} {tr : Mp2History} {s t : Mp2}
  {a b : UserApp} {x : Transition Mp2 (FileAct Mp2Locals Mp2Env Act)}

theorem sent_concat (task : TaskPtr) (tr : Mp2History)
    (x : Transition Mp2 (FileAct Mp2Locals Mp2Env Act)) :
    sent task (tr ++ [x]) = sent task tr ++ (messageOf task x.act).toList := by
  cases hm : messageOf task x.act <;> simp [sent, hm]

theorem RunBy.prefix (h : RunBy apps (tr ++ [x])) : RunBy apps tr where
  byApp y hy := h.byApp y (List.mem_append_left _ hy)
  inOrder a ha := by
    have hx := h.inOrder a ha
    rw [sent_concat] at hx
    exact (List.prefix_append _ _).trans hx

/-- An app that has been let through has written something. -/
theorem sent_ne_nil (h : ∃ x ∈ tr, Accepts a x) : sent a.task tr ≠ [] := by
  obtain ⟨x, hx, w, hact, htask, hoffp, -⟩ := h
  have hsent : messageOf a.task x.act = some w.message := by
    rw [hact, messageOf, if_pos ⟨htask, hoffp⟩]
  exact List.ne_nil_of_mem (List.mem_filterMap.mpr ⟨x, hx, hsent⟩)

/-- A transition that is no registration of the app and not its last message leaves it registered or
not, as it was. -/
theorem registered_concat_iff (hno : ¬ Accepts a x)
    (hlast : sent a.task (tr ++ [x]) = a.messages ↔ sent a.task tr = a.messages) :
    Registered a (tr ++ [x]) ↔ Registered a tr := by
  unfold Registered
  rw [Ne, hlast]
  refine and_congr_left fun _ => ⟨?_, ?_⟩
  · rintro ⟨y, hy, hacc⟩
    rcases List.mem_append.mp hy with hy | hy
    · exact ⟨y, hy, hacc⟩
    · rw [List.mem_singleton.mp hy] at hacc
      exact absurd hacc hno
  · rintro ⟨y, hy, hacc⟩
    exact ⟨y, List.mem_append_left _ hy, hacc⟩

/-- A transition in which the process writes nothing new leaves its app as it was. -/
theorem registered_of_silent (h : messageOf a.task x.act = none) :
    Registered a (tr ++ [x]) ↔ Registered a tr := by
  refine registered_concat_iff ?_ (by rw [sent_concat, h, Option.toList_none, List.append_nil])
  rintro ⟨w, hact, htask, hoffp, -⟩
  rw [hact, messageOf, if_pos ⟨htask, hoffp⟩] at h
  cases h

/-- The task set after a transition. -/
theorem taskSet_of_step (hs : mp2Step msecsToJiffies x.act x.pre = some x.post)
    (hwf : WellFormed x.pre) (hclear : x.act.Clear mp2Format) :
    taskSet x.post =
      ((x.act.asks mp2Format).map (serveRequest (taskSet x.pre))).getD (taskSet x.pre) := by
  have hserved := (session_served (Exec.single hs) hwf (by simpa using hclear)).2
  rw [hserved]
  cases hasks : x.act.asks mp2Format <;> simp [hasks]

/-- What a write to a new file asks for. -/
theorem asks_of_write {w : Written Mp2Locals Mp2Env} {m : Bytes} {r : Mp2Request}
    (hoffp : w.offp = 0) (hmessage : w.message = m) (h : Asks a m r) :
    FileAct.asks mp2Format (.write w : FileAct Mp2Locals Mp2Env Act) = some (w.env, r) ∧
      FileAct.Clear mp2Format (.write w : FileAct Mp2Locals Mp2Env Act) := by
  subst hmessage
  obtain ⟨hsaid, hnl⟩ := h.said
  refine ⟨?_, fun _ => clear_of_said hsaid hnl⟩
  rw [FileAct.asks, if_neg (not_not.mpr hoffp),
    Format.request_eq_some_iff.mpr (mp2Format_said.mpr hsaid)]
  rfl

/-- What a transition of such a run is: a step in the background, a message written again, or the
next message of an app. -/
inductive Turn (apps : List UserApp) (tr : Mp2History)
    (x : Transition Mp2 (FileAct Mp2Locals Mp2Env Act)) : Prop
  | silent (hasks : x.act.asks mp2Format = none) (hclear : x.act.Clear mp2Format)
      (hsent : ∀ task, messageOf task x.act = none) : Turn apps tr x
  | next {a : UserApp} {w : Written Mp2Locals Mp2Env} (ha : a ∈ apps) (hact : x.act = .write w)
      (hwriter : w.env.writer = a.task) (hoffp : w.offp = 0)
      (hstart : sent a.task tr ++ [w.message] <+: a.messages) : Turn apps tr x

theorem RunBy.turn (h : RunBy apps (tr ++ [x])) : Turn apps tr x := by
  cases hact : x.act with
  | other act =>
      refine .silent ?_ ?_ fun task => ?_
      · rw [hact]
        rfl
      · rw [hact]
        trivial
      · rw [hact]
        rfl
  | write w =>
      by_cases hoffp : w.offp = 0
      · obtain ⟨a, ha, hwriter⟩ := h.byApp x (by simp) w.env.writer (by rw [hact]; rfl)
        have hstart := h.inOrder a ha
        have hsent : messageOf a.task x.act = some w.message := by
          rw [hact, messageOf, if_pos ⟨hwriter.symm, hoffp⟩]
        rw [sent_concat, hsent] at hstart
        exact .next ha hact hwriter.symm hoffp hstart
      · refine .silent ?_ ?_ fun task => ?_
        · rw [hact, FileAct.asks, if_pos hoffp]
        · rw [hact]
          exact fun hzero => absurd hzero hoffp
        · rw [hact, messageOf, if_neg fun hboth => hoffp hboth.2]

theorem Turn.clear (h : Turn apps tr x) : x.act.Clear mp2Format := by
  cases h with
  | silent _ hclear => exact hclear
  | next ha hact hwriter hoffp hstart =>
      obtain ⟨r, hasks⟩ := (next_of_start hstart).asks
      rw [hact]
      exact (asks_of_write hoffp rfl hasks).2

/-- De-registration takes away the task of the pid. -/
theorem mem_deregistered {s : Mp2} (hwf : WellFormed s) {pid : UInt32} {u : TaskParams} :
    u ∈ (taskSet s).eraseP (fun u => u.pid = pid) ↔ u ∈ taskSet s ∧ u.pid ≠ pid := by
  have hnodup : ((taskSet s).map TaskParams.pid).Nodup := by
    rw [taskSet, List.map_map]
    exact List.Nodup.map_on (fun a ha b hb hab => hwf.pidInj a ha b hb hab) hwf.nodup
  revert hnodup
  induction taskSet s with
  | nil => simp
  | cons v l ih =>
      intro hnodup
      obtain ⟨hv, hl⟩ := List.nodup_cons.mp hnodup
      have hfresh : ∀ u ∈ l, u.pid ≠ v.pid := fun u hu heq =>
        hv (heq ▸ List.mem_map_of_mem hu)
      rw [List.eraseP_cons]
      by_cases hpid : v.pid = pid
      · subst hpid
        simp only [decide_true, cond_true, List.mem_cons]
        refine ⟨fun hu => ⟨.inr hu, hfresh u hu⟩, ?_⟩
        rintro ⟨rfl | hu, hne⟩
        · exact absurd rfl hne
        · exact hu
      · simp only [hpid, decide_false, cond_false, List.mem_cons, ih hl]
        constructor
        · rintro (rfl | ⟨hu, hne⟩)
          · exact ⟨.inl rfl, hpid⟩
          · exact ⟨.inr hu, hne⟩
        · rintro ⟨rfl | hu, hne⟩
          · exact .inl rfl
          · exact .inr ⟨hu, hne⟩

/-! ## The task set of a run -/

/-- The task set consists of the apps that are registered. -/
def AllRegistered (apps : List UserApp) (tr : Mp2History) (s : Mp2) : Prop :=
  ∀ u, u ∈ taskSet s ↔ ∃ a ∈ apps, u = a.params ∧ Registered a tr

theorem params_pid_ne (hdistinct : Distinct apps) (ha : a ∈ apps) (hb : b ∈ apps) (hne : b ≠ a) :
    b.params.pid ≠ a.params.pid := by
  intro hpid
  apply hne
  have hback := congrArg UInt32.toInt32 hpid
  exact hdistinct.pid b hb a ha hback

/-- Only the app that writes can become registered or cease to be. -/
theorem registered_of_other (hdistinct : Distinct apps) (ha : a ∈ apps) (hb : b ∈ apps)
    (hne : b ≠ a) {w : Written Mp2Locals Mp2Env} (hact : x.act = .write w)
    (hwriter : w.env.writer = a.task) : Registered b (tr ++ [x]) ↔ Registered b tr := by
  apply registered_of_silent
  rw [hact, messageOf, if_neg]
  rintro ⟨htask, -⟩
  exact hne (hdistinct.task b hb a ha (htask.symm.trans hwriter))

section Step

variable {w : Written Mp2Locals Mp2Env} (hdistinct : Distinct apps) (ha : a ∈ apps)
  (hwf : WellFormed x.pre) (hs : mp2Step msecsToJiffies x.act x.pre = some x.post)
  (h : AllRegistered apps tr x.pre) (hact : x.act = .write w) (hwriter : w.env.writer = a.task)
  (hoffp : w.offp = 0)

include hact hwriter hoffp in
theorem sent_written : sent a.task (tr ++ [x]) = sent a.task tr ++ [w.message] := by
  rw [sent_concat, hact, messageOf, if_pos ⟨hwriter, hoffp⟩, Option.toList_some]

include hact in
/-- A message that is no registration lets nothing through. -/
theorem not_accepts
    (hmessage : w.message ≠ registerProcess a.pid a.period a.processingTime) : ¬ Accepts a x := by
  rintro ⟨w', hact', -, -, hmessage', -⟩
  obtain rfl := FileAct.write.inj (hact.symm.trans hact')
  exact hmessage hmessage'

include hdistinct ha hwf hs h hact hwriter hoffp in
/-- The first message of an app. -/
theorem allRegistered_register (hfirst : sent a.task tr = [])
    (hmore : sent a.task (tr ++ [x]) ≠ a.messages)
    (hmessage : w.message = registerProcess a.pid a.period a.processingTime) :
    AllRegistered apps (tr ++ [x]) x.post := by
  obtain ⟨hasks, hclear⟩ := asks_of_write hoffp hmessage (Asks.register (a := a))
  have hbefore : ¬ ∃ y ∈ tr, Accepts a y := fun hacc => sent_ne_nil hacc hfirst
  -- no task has the pid of the app yet
  have hfresh : ∀ u ∈ taskSet x.pre, u.pid ≠ a.params.pid := by
    intro u hu hpid
    obtain ⟨b, hb, rfl, hreg⟩ := (h u).mp hu
    by_cases hba : b = a
    · exact hbefore (hba ▸ hreg.1)
    · exact params_pid_ne hdistinct ha hb hba hpid
  have hself : Registered a (tr ++ [x]) ↔ (w.env.alloc && w.env.found != 0) = true ∧
      utilizationTest (taskSet x.pre) a.params = some 0 := by
    constructor
    · rintro ⟨⟨y, hy, hacc⟩, -⟩
      rcases List.mem_append.mp hy with hy | hy
      · exact absurd ⟨y, hy, hacc⟩ hbefore
      · rw [List.mem_singleton.mp hy] at hacc
        obtain ⟨w', hact', -, -, -, hanswer⟩ := hacc
        obtain rfl := FileAct.write.inj (hact.symm.trans hact')
        exact hanswer
    · rintro ⟨hserved, htest⟩
      exact ⟨⟨x, by simp, w, hact, hwriter, hoffp, hmessage, hserved, htest⟩, hmore⟩
  have hpost : taskSet x.post = serve (taskSet x.pre)
      (.register a.params (w.env.alloc && w.env.found != 0)) := by
    rw [taskSet_of_step hs hwf (by rw [hact]; exact hclear), hact, hasks]
    rfl
  intro u
  rw [hpost, serve]
  split
  · next hyes =>
      rw [List.mem_append, List.mem_singleton, h u]
      constructor
      · rintro (⟨b, hb, rfl, hreg⟩ | rfl)
        · have hba : b ≠ a := fun heq => hbefore (heq ▸ hreg.1)
          exact ⟨b, hb, rfl,
            (registered_of_other hdistinct ha hb hba hact hwriter).mpr hreg⟩
        · exact ⟨a, ha, rfl, hself.mpr ⟨hyes.1, hyes.2.1⟩⟩
      · rintro ⟨b, hb, rfl, hreg⟩
        by_cases hba : b = a
        · exact .inr (by rw [hba])
        · exact .inl ⟨b, hb, rfl,
            (registered_of_other hdistinct ha hb hba hact hwriter).mp hreg⟩
  · next hno =>
      rw [h u]
      refine exists_congr fun b => and_congr_right fun hb => and_congr_right fun _ => ?_
      by_cases hba : b = a
      · subst hba
        refine iff_of_false (fun hreg => hbefore hreg.1) fun hreg => hno ?_
        exact ⟨(hself.mp hreg).1, (hself.mp hreg).2, hfresh⟩
      · exact (registered_of_other hdistinct ha hb hba hact hwriter).symm

include hdistinct ha hwf hs h hact hwriter hoffp in
/-- A yield. -/
theorem allRegistered_yield (hbefore : sent a.task tr ≠ a.messages)
    (hmore : sent a.task (tr ++ [x]) ≠ a.messages) (hmessage : w.message = yieldProcess a.pid) :
    AllRegistered apps (tr ++ [x]) x.post := by
  obtain ⟨hasks, hclear⟩ := asks_of_write hoffp hmessage (Asks.yield (a := a))
  have hpost : taskSet x.post = taskSet x.pre := by
    rw [taskSet_of_step hs hwf (by rw [hact]; exact hclear), hact, hasks]
    rfl
  intro u
  rw [hpost, h u]
  refine exists_congr fun b => and_congr_right fun hb => and_congr_right fun _ => ?_
  by_cases hba : b = a
  · subst hba
    refine (registered_concat_iff (not_accepts hact ?_) (iff_of_false hmore hbefore)).symm
    rw [hmessage]
    exact registerProcess_ne.1
  · exact (registered_of_other hdistinct ha hb hba hact hwriter).symm

include hdistinct ha hwf hs h hact hwriter hoffp in
/-- The last message of an app. -/
theorem allRegistered_deregister (hlast : sent a.task (tr ++ [x]) = a.messages)
    (hmessage : w.message = deregisterProcess a.pid) :
    AllRegistered apps (tr ++ [x]) x.post := by
  obtain ⟨hasks, hclear⟩ := asks_of_write hoffp hmessage (Asks.deregister (a := a))
  have hpost : taskSet x.post = (taskSet x.pre).eraseP fun u => u.pid = a.params.pid := by
    rw [taskSet_of_step hs hwf (by rw [hact]; exact hclear), hact, hasks]
    rfl
  intro u
  rw [hpost, mem_deregistered hwf, h u]
  constructor
  · rintro ⟨⟨b, hb, rfl, hreg⟩, hpid⟩
    have hba : b ≠ a := fun heq => hpid (by rw [heq])
    exact ⟨b, hb, rfl, (registered_of_other hdistinct ha hb hba hact hwriter).mpr hreg⟩
  · rintro ⟨b, hb, rfl, hreg⟩
    have hba : b ≠ a := by
      rintro rfl
      exact hreg.2 hlast
    exact ⟨⟨b, hb, rfl, (registered_of_other hdistinct ha hb hba hact hwriter).mp hreg⟩,
      params_pid_ne hdistinct ha hb hba⟩

end Step

/-- **One transition keeps the task set the registered apps.** -/
theorem allRegistered_step (hdistinct : Distinct apps) (hwf : WellFormed x.pre)
    (hs : mp2Step msecsToJiffies x.act x.pre = some x.post) (hturn : Turn apps tr x)
    (h : AllRegistered apps tr x.pre) : AllRegistered apps (tr ++ [x]) x.post := by
  cases hturn with
  | silent hasks hclear hsent =>
      intro u
      rw [taskSet_of_step hs hwf hclear, hasks]
      refine (h u).trans ?_
      refine exists_congr fun a => and_congr_right fun _ => and_congr_right fun _ => ?_
      exact (registered_of_silent (hsent a.task)).symm
  | @next a w ha hact hwriter hoffp hstart =>
      have hsent : sent a.task (tr ++ [x]) = sent a.task tr ++ [w.message] :=
        sent_written hact hwriter hoffp
      have hbefore : sent a.task tr ≠ a.messages := by
        intro heq
        have hle := hstart.length_le
        rw [heq, List.length_append, List.length_singleton] at hle
        omega
      have hnext := next_of_start hstart
      generalize hmessage : w.message = m at hnext hsent
      cases hnext with
      | register hfirst hmore =>
          exact allRegistered_register hdistinct ha hwf hs h hact hwriter hoffp hfirst
            (by rw [hsent]; exact hmore) hmessage
      | yield _ hmore =>
          exact allRegistered_yield hdistinct ha hwf hs h hact hwriter hoffp hbefore
            (by rw [hsent]; exact hmore) hmessage
      | deregister _ hlast =>
          exact allRegistered_deregister hdistinct ha hwf hs h hact hwriter hoffp
            (by rw [hsent]; exact hlast) hmessage

/-- **However any number of apps run, the task set consists of those whose registration was let
through and that have not written their last message; it is empty when all of them have.** -/
theorem apps_registered {memory : RecPtr → Mp2TaskStruct} {jiffies : UInt64}
    (hdistinct : Distinct apps) (h : Exec (mp2Step msecsToJiffies) (Mp2.boot memory jiffies) tr t)
    (hrun : RunBy apps tr) :
    AllRegistered apps tr t ∧
      ((∀ a ∈ apps, sent a.task tr = a.messages) → t.mp2ProcessList = []) := by
  have hall : WellFormed t ∧ AllRegistered apps tr t := by
    induction h with
    | refl =>
        refine ⟨wellFormed_boot memory jiffies, fun u => ?_⟩
        simp [taskSet, Mp2.boot, Registered]
    | @snoc t u tr act h hs ih =>
        obtain ⟨hwf, hreg⟩ := ih hrun.prefix
        have hturn : Turn apps tr ⟨t, act, u⟩ := hrun.turn
        exact ⟨(session_served (Exec.single hs) hwf (by simpa using hturn.clear)).1,
          allRegistered_step hdistinct hwf hs hturn hreg⟩
  refine ⟨hall.2, fun hdone => ?_⟩
  have hempty : taskSet t = [] := by
    rw [List.eq_nil_iff_forall_not_mem]
    intro u hu
    obtain ⟨a, ha, -, hreg⟩ := (hall.2 u).mp hu
    exact hreg.2 (hdone a ha)
  exact List.map_eq_nil_iff.mp hempty

/-- Two apps of one job each. The first goes through its program; the second has yielded once. -/
def twoApps : List UserApp := [⟨7, 7, 1000, 1, 200⟩, ⟨8, 8, 500, 1, 100⟩]

def writeOf (task : TaskPtr) (message : Bytes) : FileAct Mp2Locals Mp2Env Act :=
  .write ⟨⟨task, true, task⟩, message, [], default, 0⟩

def twoAppsActs : List (FileAct Mp2Locals Mp2Env Act) :=
  [writeOf 7 (registerProcess 7 1000 200), writeOf 8 (registerProcess 8 500 100),
    writeOf 7 (yieldProcess 7), writeOf 8 (yieldProcess 8), .other (.tick 1000), .other (.fire 0),
    .other (.callback 0), .other .dispatch, writeOf 7 (yieldProcess 7),
    writeOf 7 (deregisterProcess 7)]

theorem twoApps_runs : (runActions (mp2Step (·.toUInt64)) twoAppsActs quiet).isSome := by
  decide +kernel

theorem apps_registered_twoApps :
    AllRegistered twoApps (runOf (mp2Step (·.toUInt64)) twoAppsActs quiet twoApps_runs)
        (endOf (mp2Step (·.toUInt64)) twoAppsActs quiet twoApps_runs) ∧
      taskSet (endOf (mp2Step (·.toUInt64)) twoAppsActs quiet twoApps_runs) =
        [⟨8, 500, 100⟩] := by
  have hdistinct : Distinct twoApps := ⟨by decide, by decide⟩
  have hrun : RunBy twoApps (runOf (mp2Step (·.toUInt64)) twoAppsActs quiet twoApps_runs) :=
    ⟨by decide +kernel, by decide +kernel⟩
  exact ⟨(apps_registered hdistinct (exec_runOf twoApps_runs) hrun).1, by decide +kernel⟩

end KernelDev.Wire
