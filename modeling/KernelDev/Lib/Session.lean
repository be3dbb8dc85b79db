/-
# KernelDev.Lib.Session — histories of messages written to one file

Clients write messages to a file whose callback reads requests of a `Format`; between two calls the
system behind the file takes steps of its own. Each call meets its own surroundings: what lies
behind its buffer, what its locals hold, at which offset it writes, and the environment `E` its
operation depends on.

`served` is the rule: if every operation changes a view of the state as its request says and no
other step changes the view, then the view after any history of clear messages is what the requests
the grammar reads in them make of it, in order.
-/
import KernelDev.Lib.Execution
import KernelDev.Lib.ProcWrite

namespace KernelDev.Lib

variable {L R S E A T : Type}

/-! ## What a message asks for -/

namespace Format

variable (F : Format L R)

/-- The request the grammar reads in a text. The locals of the parser do not matter for a text it
accepts. -/
def request [Inhabited L] (s : Bytes) : Option R :=
  if F.Exact s then
    match F.parse s default with
    | .perform r => some r
    | _ => none
  else none

variable {F}

/-- **It is the request that is said.** -/
theorem request_eq_some_iff [Inhabited L] {s : Bytes} {r : R} :
    F.request s = some r ↔ F.Says s r := by
  constructor
  · intro h
    unfold request at h
    split at h
    · next hexact =>
        split at h
        · next r' hparse =>
            obtain rfl := Option.some.inj h
            exact says_of_exact hexact hparse
        · cases h
    · cases h
  · intro h
    unfold request
    rw [if_pos (exact_of_said h), parse_of_said h default]

theorem request_eq_none_iff [Inhabited L] {s : Bytes} :
    F.request s = none ↔ ∀ r, ¬ F.Says s r := by
  rw [Option.eq_none_iff_forall_ne_some]
  exact forall_congr' fun r => not_congr request_eq_some_iff

end Format

/-! ## Histories -/

/-- One call of `write()`. -/
structure Written (L E : Type) where
  env : E
  message : Bytes
  rest : Bytes
  locals : L
  offp : Nat

/-- What happens to the system behind the file. -/
inductive FileAct (L E A : Type)
  | write (w : Written L E)
  | other (a : A)

section

variable (F : Format L R)

/-- The request of an act, if it makes one. A message at another offset than 0 makes none. -/
def FileAct.asks [Inhabited L] : FileAct L E A → Option (E × R)
  | .write w => if w.offp ≠ 0 then none else (F.request (chomp w.message)).map (w.env, ·)
  | .other _ => none

/-- The parser obeys its grammar on the message. -/
def FileAct.Clear : FileAct L E A → Prop
  | .write w => w.offp = 0 → F.Clear w.message
  | .other _ => True

instance : (act : FileAct L E A) → Decidable (act.Clear F)
  | .write w => inferInstanceAs (Decidable (w.offp = 0 → F.Clear w.message))
  | .other _ => inferInstanceAs (Decidable True)

/-- The step function. A call that does not return has no successor; `mayWrite` says which
environments a call can come from. -/
def fileStep (again : Nat → Int) (mayWrite : E → S → Bool) (perform : E → R → S → Option (Int × S))
    (other : A → S → Option S) : FileAct L E A → S → Option S
  | .write w, s =>
      if mayWrite w.env s then
        (F.write again (perform w.env) w.message w.rest w.locals w.offp s).finish.map (·.state)
      else none
  | .other a, s => other a s

end

variable {F : Format L R} {again : Nat → Int} {mayWrite : E → S → Bool}
  {perform : E → R → S → Option (Int × S)} {other : A → S → Option S} {s t : S}

/-- **What a call can do**: perform a request, or leave the state as it is. -/
theorem write_cases {perform : R → S → Option (Int × S)} {bs rest : Bytes} {l : L} {offp : Nat}
    {e : WriteEnd S} (h : (F.write again perform bs rest l offp s).finish = some e) :
    (∃ r, offp = 0 ∧ F.handle bs rest l = .perform r ∧ perform r s = some (e.ret, e.state)) ∨
      ((offp = 0 → ∃ message, F.handle bs rest l = .error message) ∧ e.state = s) := by
  by_cases hoffp : offp = 0
  · subst hoffp
    rw [Format.write_zero] at h
    cases hout : F.handle bs rest l with
    | fault =>
        rw [hout] at h
        cases h
    | error message =>
        rw [hout] at h
        obtain rfl := Option.some.inj h
        exact .inr ⟨fun _ => ⟨message, rfl⟩, rfl⟩
    | perform r =>
        rw [hout] at h
        obtain ⟨⟨ret, t⟩, hperform, rfl⟩ := Option.map_eq_some_iff.mp h
        exact .inl ⟨r, rfl, rfl, hperform⟩
  · rw [Format.write_again F again hoffp] at h
    obtain rfl := Option.some.inj h
    exact .inr ⟨fun h => absurd h hoffp, rfl⟩

variable [Inhabited L]

/-- A clear act does what it asks for, in its environment, and nothing if it asks for nothing. -/
theorem fileStep_cases {act : FileAct L E A} (hclear : act.Clear F)
    (h : fileStep F again mayWrite perform other act s = some t) :
    (∃ e r ret, act.asks F = some (e, r) ∧ mayWrite e s = true ∧ perform e r s = some (ret, t)) ∨
      (act.asks F = none ∧ (t = s ∨ ∃ a, act = .other a ∧ other a s = some t)) := by
  cases act with
  | other a => exact .inr ⟨rfl, .inr ⟨a, rfl, h⟩⟩
  | write w =>
      have hmay : mayWrite w.env s = true := by
        by_contra hno
        rw [fileStep, if_neg hno] at h
        cases h
      rw [fileStep, if_pos hmay] at h
      obtain ⟨e, hfinish, rfl⟩ := Option.map_eq_some_iff.mp h
      rcases write_cases hfinish with ⟨r, hoffp, hhandle, hperform⟩ | ⟨herror, hsame⟩
      · -- the parser reads the request that is said
        have hsaid : F.Says (chomp w.message) r :=
          (((F.lawful_iff w.message).mpr (hclear hoffp) w.rest w.locals).1 r).mp hhandle
        have hasks : FileAct.asks F (.write w : FileAct L E A) = some (w.env, r) := by
          rw [FileAct.asks, if_neg (not_not.mpr hoffp), Format.request_eq_some_iff.mpr hsaid]
          rfl
        exact .inl ⟨w.env, r, e.ret, hasks, hmay, hperform⟩
      · refine .inr ⟨?_, .inl hsame⟩
        show (if w.offp ≠ 0 then none else _) = none
        split
        · rfl
        · next hoffp =>
            have hzero : w.offp = 0 := not_not.mp hoffp
            have hlaw := (F.lawful_iff w.message).mpr (hclear hzero) w.rest w.locals
            obtain ⟨message, hmessage⟩ := herror hzero
            have hnone : ∀ r, ¬ F.Says (chomp w.message) r := by
              intro r hr
              have hperform := (hlaw.1 r).mpr hr
              rw [hmessage] at hperform
              cases hperform
            rw [Format.request_eq_none_iff.mpr hnone]
            rfl

/-- **A history of clear messages serves the requests said in them, in order.** -/
theorem served (view : S → T) (serve : T → E × R → T) {I : S → Prop}
    {tr : List (Transition S (FileAct L E A))}
    (h : Exec (fileStep F again mayWrite perform other) s tr t) (hinit : I s)
    (hperform : ∀ {e r s ret t}, I s → mayWrite e s = true → perform e r s = some (ret, t) →
      I t ∧ view t = serve (view s) (e, r))
    (hother : ∀ {a s t}, I s → other a s = some t → I t ∧ view t = view s)
    (hclear : ∀ x ∈ tr, x.act.Clear F) :
    I t ∧ view t = (tr.filterMap fun x => x.act.asks F).foldl serve (view s) := by
  have hstep : ∀ x : Transition S (FileAct L E A),
      fileStep F again mayWrite perform other x.act x.pre = some x.post → x.act.Clear F →
      I x.pre → I x.post ∧
        view x.post = ((x.act.asks F).map (serve (view x.pre))).getD (view x.pre) := by
    intro x hx hxclear hI
    rcases fileStep_cases hxclear hx with
      ⟨e, r, ret, hasks, hmay, hdone⟩ | ⟨hasks, hsame | ⟨a, -, ha⟩⟩
    · rw [hasks]
      exact hperform hI hmay hdone
    · rw [hasks, hsame]
      exact ⟨hI, rfl⟩
    · rw [hasks]
      exact hother hI ha
  obtain ⟨hall, ht⟩ := h.guarded hinit (fun x hx hc hI => (hstep x hx hc hI).1) hclear
  refine ⟨ht, h.view_foldl fun x hx => ?_⟩
  exact (hstep x (h.isStep x hx) (hclear x hx) (hall x hx).1).2

end KernelDev.Lib
