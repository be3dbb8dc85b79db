/-
# KernelDev.Lib.RequestFormat — messages of a command letter and separated fields

A `Format` describes a parser of one-line messages as kernel modules write them by hand: the buffer
is cut at a separator with `strsep`, the tokens after the first are converted one by one and stored
in local variables, and the first byte of the first token selects the request, which is called with
the locals. The buffer is read as a C string, so the message ends at the first NUL byte, which may
lie behind the buffer.

`Format.Says` is the grammar such a parser stands for: one letter, the separator, and as many fields
as the request has arguments. `Format.lawful_iff` says for which byte strings the parser obeys it
whatever follows the buffer in memory and whatever the locals hold.
-/
import KernelDev.Lib.Decimal
import Mathlib.Data.List.TakeWhile

namespace KernelDev.Lib

variable {L R : Type}

/-! ## The parser -/

/-- `strsep(&s, sep)`: the token, and what is left of the string (`none`: NULL). -/
def strsep (sep : UInt8) (s : Bytes) : Bytes × Option Bytes :=
  (s.takeWhile (· ≠ sep),
    match s.dropWhile (· ≠ sep) with
    | [] => none
    | _ :: left => some left)

/-- A field of a message: how its token is stored in the locals `L`, and the text printed when it is
not accepted. `Open t` says that more digits can make `t` acceptable. -/
structure RequestField (L : Type) where
  store : Bytes → Option (L → L)
  error : String
  Open : Bytes → Prop
  decidableOpen : DecidablePred Open
  noNul : ∀ t, (store t).isSome → 0 ∉ t
  open_of_store : ∀ t e, (store (t ++ e)).isSome → Open t
  store_of_open : ∀ t, Open t → ∃ e, (∀ b ∈ e, isDigit b) ∧ (store (t ++ e)).isSome

/-- The loop over the tokens after the first one: the error or the locals, and the string pointer
where the loop was left. -/
def readFields (sep : UInt8) (tooMany : String) :
    List (RequestField L) → Option Bytes → L → Except String L × Option Bytes
  | _, none, l => (.ok l, none)
  | [], some s, _ => (.error tooMany, (strsep sep s).2)
  | f :: fs, some s, l =>
      let (token, left) := strsep sep s
      match f.store token with
      | none => (.error f.error, left)
      | some set => readFields sep tooMany fs left (set l)

/-- A request with its number of arguments, called with the locals. -/
structure Command (L R : Type) where
  arity : Nat
  call : L → R

structure Format (L R : Type) where
  sep : UInt8
  fields : List (RequestField L)
  tooMany : String
  command : UInt8 → Option (Command L R)
  unknown : String
  sep_ne_nul : sep ≠ 0
  sep_not_digit : isDigit sep = false
  command_nul : command 0 = none
  command_sep : command sep = none
  arity_pos : ∀ c cmd, command c = some cmd → 0 < cmd.arity
  /-- A call with as many fields as it has arguments reads nothing but these. -/
  determined : ∀ c cmd, command c = some cmd → ∀ args l l' m m',
    args.count sep + 1 = cmd.arity → (readFields sep tooMany fields (some args) l).1 = .ok m →
    (readFields sep tooMany fields (some args) l').1 = .ok m' → cmd.call m = cmd.call m'

/-- What becomes of a message. `fault` is an access outside the buffer. -/
inductive RequestOutcome (R : Type)
  | fault
  | error (message : String)
  | perform (request : R)
  deriving DecidableEq, Repr

/-- `'\n'`. -/
def newline : UInt8 := 10

namespace Format

variable (F : Format L R)

/-- What the parser makes of the text, as a C string. -/
def parse (text : Bytes) (l : L) : RequestOutcome R :=
  let (op, left) := strsep F.sep text
  match (readFields F.sep F.tooMany F.fields left l).1 with
  | .error message => .error message
  | .ok l =>
      match F.command (op.headD 0) with
      | none => .error F.unknown
      | some cmd => .perform (cmd.call l)

/-- What becomes of a message `bs` when the bytes `rest` and a NUL follow the buffer and the locals
hold `l`. A trailing newline is replaced by NUL; for an empty message the byte before the buffer is
looked at. -/
def handle (bs rest : Bytes) (l : L) : RequestOutcome R :=
  match bs.getLast? with
  | none => .fault
  | some last =>
      let kerBuf := if last = newline then bs.dropLast ++ [0] else bs
      F.parse ((kerBuf ++ rest).takeWhile (· ≠ 0)) l

end Format

/-! ## The grammar -/

/-- A message or number up to one optional trailing newline. -/
def chomp (bs : Bytes) : Bytes := if bs.getLast? = some newline then bs.dropLast else bs

namespace Format

variable (F : Format L R)

/-- The text is exactly a command letter and its fields, and they make the request `r`. -/
def Says (s : Bytes) (r : R) : Prop :=
  ∃ c cmd args, F.command c = some cmd ∧ s = c :: F.sep :: args ∧
    args.count F.sep + 1 = cmd.arity ∧
    ∀ l, ∃ m, (readFields F.sep F.tooMany F.fields (some args) l).1 = .ok m ∧ cmd.call m = r

end Format

/-- The outcome is the request the grammar says, or an error if it says none. -/
def Lawful (o : RequestOutcome R) (Says : R → Prop) : Prop :=
  (∀ r, o = .perform r ↔ Says r) ∧ ((∀ r, ¬ Says r) → ∃ message, o = .error message)

/-! ## Tokens -/

variable {sep : UInt8}

theorem ne_of_notMem {c : UInt8} {s : Bytes} (h : c ∉ s) : ∀ b ∈ s, decide (b ≠ c) = true := by
  rintro b hb
  rw [decide_eq_true_eq]
  rintro rfl
  exact h hb

theorem strsep_of_notMem {s : Bytes} (h : sep ∉ s) : strsep sep s = (s, none) := by
  have hall := ne_of_notMem h
  unfold strsep
  rw [List.takeWhile_eq_self_iff.mpr hall, List.dropWhile_eq_nil_iff.mpr hall]

theorem strsep_append {t r : Bytes} (h : sep ∉ t) :
    strsep sep (t ++ sep :: r) = (t, some r) := by
  have hall := ne_of_notMem h
  unfold strsep
  rw [List.takeWhile_append_of_pos hall, List.dropWhile_append_of_pos hall]
  simp

/-- **What `strsep` can do.** -/
theorem strsep_cases (sep : UInt8) (s : Bytes) :
    (sep ∉ s ∧ strsep sep s = (s, none)) ∨
      ∃ t r, s = t ++ sep :: r ∧ sep ∉ t ∧ strsep sep s = (t, some r) := by
  by_cases h : sep ∈ s
  · right
    obtain ⟨t, r, rfl, ht⟩ := List.eq_append_cons_of_mem h
    exact ⟨t, r, rfl, ht, strsep_append ht⟩
  · exact .inl ⟨h, strsep_of_notMem h⟩

/-! ## Fields that are accepted -/

/-- The fields of what is left of the text are accepted, and there are no more than may be. -/
def AcceptsFields (sep : UInt8) : List (RequestField L) → Option Bytes → Prop
  | _, none => True
  | [], some _ => False
  | f :: fs, some s =>
      (f.store (strsep sep s).1).isSome ∧ AcceptsFields sep fs (strsep sep s).2

/-- The same of the fields that a separator ends, and more digits can make the last one
acceptable. -/
def CompletesFields (sep : UInt8) : List (RequestField L) → Option Bytes → Prop
  | _, none => True
  | [], some _ => False
  | f :: fs, some s =>
      match (strsep sep s).2 with
      | none => f.Open s
      | some left => (f.store (strsep sep s).1).isSome ∧ CompletesFields sep fs (some left)

instance AcceptsFields.decidable (sep : UInt8) :
    ∀ (fs : List (RequestField L)) (left : Option Bytes), Decidable (AcceptsFields sep fs left)
  | [], none | _ :: _, none => isTrue trivial
  | [], some _ => isFalse id
  | f :: fs, some s =>
      have := AcceptsFields.decidable sep fs (strsep sep s).2
      inferInstanceAs (Decidable ((f.store (strsep sep s).1).isSome ∧ AcceptsFields sep fs _))

instance CompletesFields.decidable (sep : UInt8) :
    ∀ (fs : List (RequestField L)) (left : Option Bytes), Decidable (CompletesFields sep fs left)
  | [], none | _ :: _, none => isTrue trivial
  | [], some _ => isFalse id
  | f :: fs, some s =>
      have hlast : Decidable (f.Open s) := f.decidableOpen s
      have hleft (left : Bytes) : Decidable (CompletesFields sep fs (some left)) :=
        CompletesFields.decidable sep fs (some left)
      match hcut : (strsep sep s).2 with
      | none => decidable_of_iff (f.Open s) (by simp only [CompletesFields, hcut])
      | some left =>
          decidable_of_iff ((f.store (strsep sep s).1).isSome ∧ CompletesFields sep fs (some left))
            (by simp only [CompletesFields, hcut])

section Fields

variable {tooMany : String}

theorem readFields_cases (sep : UInt8) (tooMany : String) (fs : List (RequestField L))
    (left : Option Bytes) (l : L) :
    (AcceptsFields sep fs left ∧ ∃ m, (readFields sep tooMany fs left l).1 = .ok m) ∨
      (¬ AcceptsFields sep fs left ∧
        ∃ message, (readFields sep tooMany fs left l).1 = .error message) := by
  induction fs generalizing left l with
  | nil =>
      cases left with
      | none => exact .inl ⟨trivial, l, rfl⟩
      | some s => exact .inr ⟨id, tooMany, rfl⟩
  | cons f fs ih =>
      cases left with
      | none => exact .inl ⟨trivial, l, rfl⟩
      | some s =>
          simp only [AcceptsFields, readFields]
          cases f.store (strsep sep s).1 with
          | none => exact .inr ⟨by simp, f.error, rfl⟩
          | some set => simpa using ih (strsep sep s).2 (set l)

theorem acceptsFields_of_ok {fs : List (RequestField L)} {left : Option Bytes} {l m : L}
    (h : (readFields sep tooMany fs left l).1 = .ok m) : AcceptsFields sep fs left := by
  rcases readFields_cases sep tooMany fs left l with ⟨hacc, -⟩ | ⟨-, message, herr⟩
  · exact hacc
  · rw [h] at herr
    cases herr

/-- A field that a separator ends is stored, and the loop goes on behind it. -/
theorem readFields_append {f : RequestField L} {fs : List (RequestField L)} {t r : Bytes} {l m : L}
    (ht : sep ∉ t) :
    (readFields sep tooMany (f :: fs) (some (t ++ sep :: r)) l).1 = .ok m ↔
      ∃ set, f.store t = some set ∧ (readFields sep tooMany fs (some r) (set l)).1 = .ok m := by
  simp only [readFields, strsep_append ht]
  cases f.store t with
  | none => simp
  | some set => simp

/-- The last field. -/
theorem readFields_last {f : RequestField L} {fs : List (RequestField L)} {t : Bytes} {l m : L}
    (ht : sep ∉ t) :
    (readFields sep tooMany (f :: fs) (some t) l).1 = .ok m ↔
      ∃ set, f.store t = some set ∧ set l = m := by
  simp only [readFields, strsep_of_notMem ht]
  cases f.store t with
  | none => simp
  | some set => simp

/-- A string with a separator is a token, the separator and a string with one separator less. -/
theorem cut_of_count {s : Bytes} {n : Nat} (h : s.count sep = n + 1) :
    ∃ t r, s = t ++ sep :: r ∧ sep ∉ t ∧ r.count sep = n := by
  rcases strsep_cases sep s with ⟨hsep, -⟩ | ⟨t, r, rfl, ht, -⟩
  · rw [List.count_eq_zero.mpr hsep] at h
    cases h
  · rw [List.count_append, List.count_cons_self, List.count_eq_zero.mpr ht] at h
    exact ⟨t, r, rfl, ht, by omega⟩

/-- There are no more fields than may be. -/
theorem AcceptsFields.count_lt {fs : List (RequestField L)} {s : Bytes}
    (h : AcceptsFields sep fs (some s)) : s.count sep < fs.length := by
  induction fs generalizing s with
  | nil => exact h.elim
  | cons f fs ih =>
      rcases strsep_cases sep s with ⟨hsep, -⟩ | ⟨t, r, rfl, ht, hcut⟩
      · rw [List.count_eq_zero.mpr hsep]
        exact Nat.succ_pos _
      · simp only [AcceptsFields, hcut] at h
        have hr := ih h.2
        rw [List.count_append, List.count_cons_self, List.count_eq_zero.mpr ht, List.length_cons]
        omega

theorem AcceptsFields.noNul (hsep : sep ≠ 0) {fs : List (RequestField L)} {s : Bytes}
    (h : AcceptsFields sep fs (some s)) : 0 ∉ s := by
  induction fs generalizing s with
  | nil => exact h.elim
  | cons f fs ih =>
      rcases strsep_cases sep s with ⟨-, hcut⟩ | ⟨t, r, rfl, -, hcut⟩
      · simp only [AcceptsFields, hcut] at h
        exact f.noNul s h.1
      · simp only [AcceptsFields, hcut] at h
        simp only [List.mem_append, List.mem_cons, not_or]
        exact ⟨f.noNul t h.1, hsep.symm, ih h.2⟩

/-- What some continuation makes acceptable can be completed. -/
theorem completesFields_of_accepts {fs : List (RequestField L)} {s e : Bytes}
    (h : AcceptsFields sep fs (some (s ++ e))) : CompletesFields sep fs (some s) := by
  induction fs generalizing s with
  | nil => exact h.elim
  | cons f fs ih =>
      rcases strsep_cases sep s with ⟨hsep, hcut⟩ | ⟨t, r, rfl, ht, hcut⟩
      · simp only [CompletesFields, hcut]
        rcases strsep_cases sep e with ⟨hsep', -⟩ | ⟨t, r, rfl, ht, -⟩
        · have hall : sep ∉ s ++ e := by simp [hsep, hsep']
          simp only [AcceptsFields, strsep_of_notMem hall] at h
          exact f.open_of_store s e h.1
        · -- the continuation ends this field and begins another
          have hall : sep ∉ s ++ t := by simp [hsep, ht]
          rw [← List.append_assoc] at h
          simp only [AcceptsFields, strsep_append hall] at h
          exact f.open_of_store s t h.1
      · simp only [CompletesFields, hcut]
        rw [List.append_assoc, List.cons_append] at h
        simp only [AcceptsFields, strsep_append ht] at h
        exact ⟨h.1, ih h.2⟩

theorem accepts_of_completesFields (hsep : isDigit sep = false) {fs : List (RequestField L)}
    {s : Bytes} (h : CompletesFields sep fs (some s)) :
    ∃ e, (∀ b ∈ e, isDigit b) ∧ AcceptsFields sep fs (some (s ++ e)) := by
  induction fs generalizing s with
  | nil => exact h.elim
  | cons f fs ih =>
      rcases strsep_cases sep s with ⟨hs, hcut⟩ | ⟨t, r, rfl, ht, hcut⟩
      · simp only [CompletesFields, hcut] at h
        obtain ⟨e, he, hstore⟩ := f.store_of_open s h
        have hne : sep ∉ e := fun hmem => by
          have hdigit := he sep hmem
          rw [hsep] at hdigit
          cases hdigit
        have hall : sep ∉ s ++ e := by simp [hs, hne]
        refine ⟨e, he, ?_⟩
        simp only [AcceptsFields, strsep_of_notMem hall]
        exact ⟨hstore, trivial⟩
      · simp only [CompletesFields, hcut] at h
        obtain ⟨e, he, hacc⟩ := ih h.2
        refine ⟨e, he, ?_⟩
        rw [List.append_assoc, List.cons_append]
        simp only [AcceptsFields, strsep_append ht]
        exact ⟨h.1, hacc⟩

end Fields

/-! ## Texts -/

namespace Format

variable (F : Format L R)

/-- The text is acted on: it begins with a command letter and its fields are accepted. -/
def Accepts (text : Bytes) : Prop :=
  (F.command ((strsep F.sep text).1.headD 0)).isSome ∧
    AcceptsFields F.sep F.fields (strsep F.sep text).2

/-- The text begins with a command letter and can be continued to one whose fields are accepted. -/
def Completes (text : Bytes) : Prop :=
  (F.command ((strsep F.sep text).1.headD 0)).isSome ∧
    CompletesFields F.sep F.fields (strsep F.sep text).2

/-- The command word is a letter alone, it has as many fields as the request has arguments, and no
NUL is inside. -/
def Exact (s : Bytes) : Prop :=
  ∃ c cmd, F.command c = some cmd ∧ [c, F.sep] <+: s ∧ s.count F.sep = cmd.arity ∧ 0 ∉ s

instance (text : Bytes) : Decidable (F.Accepts text) :=
  inferInstanceAs (Decidable (_ ∧ AcceptsFields F.sep F.fields _))

instance (text : Bytes) : Decidable (F.Completes text) :=
  inferInstanceAs (Decidable (_ ∧ CompletesFields F.sep F.fields _))

instance (s : Bytes) : Decidable (F.Exact s) :=
  match s with
  | [] => isFalse fun ⟨_, _, _, hstart, _⟩ => by simp at hstart
  | b :: s =>
      match hcmd : F.command b with
      | none => isFalse fun ⟨c, cmd, hcmd', hstart, _⟩ => by
          rw [(List.cons_prefix_cons.mp hstart).1, hcmd] at hcmd'
          cases hcmd'
      | some cmd =>
          decidable_of_iff ([b, F.sep] <+: b :: s ∧ (b :: s).count F.sep = cmd.arity ∧ 0 ∉ b :: s)
            ⟨fun h => ⟨b, cmd, hcmd, h⟩, fun ⟨c, cmd', hcmd', hstart, h⟩ => by
              obtain rfl := (List.cons_prefix_cons.mp hstart).1
              obtain rfl := Option.some.inj (hcmd.symm.trans hcmd')
              exact ⟨hstart, h⟩⟩

variable {F}

/-- **What the parser can make of a text.** -/
theorem parse_cases (F : Format L R) (text : Bytes) (l : L) :
    (F.Accepts text ∧ ∃ r, F.parse text l = .perform r) ∨
      (¬ F.Accepts text ∧ ∃ message, F.parse text l = .error message) := by
  unfold parse Accepts
  rcases readFields_cases F.sep F.tooMany F.fields (strsep F.sep text).2 l with
    ⟨hacc, m, hm⟩ | ⟨hacc, message, herr⟩
  · simp only [hm]
    cases F.command ((strsep F.sep text).1.headD 0) with
    | none => exact .inr ⟨by simp, F.unknown, rfl⟩
    | some cmd => exact .inl ⟨⟨rfl, hacc⟩, cmd.call m, rfl⟩
  · simp only [herr]
    exact .inr ⟨fun h => hacc h.2, message, rfl⟩

theorem accepts_of_perform {text : Bytes} {l : L} {r : R} (h : F.parse text l = .perform r) :
    F.Accepts text := by
  rcases parse_cases F text l with ⟨hacc, -⟩ | ⟨-, message, herr⟩
  · exact hacc
  · rw [h] at herr
    cases herr

/-- A command letter is not the separator. -/
theorem ne_sep {c : UInt8} {cmd : Command L R} (h : F.command c = some cmd) : F.sep ∉ [c] := by
  intro hmem
  rw [← List.mem_singleton.mp hmem, F.command_sep] at h
  cases h

theorem strsep_letter {c : UInt8} {cmd : Command L R} (h : F.command c = some cmd) (args : Bytes) :
    strsep F.sep (c :: F.sep :: args) = ([c], some args) := strsep_append (ne_sep h)

/-! ### What the grammar says is done -/

theorem parse_of_said {s : Bytes} {r : R} (h : F.Says s r) (l : L) : F.parse s l = .perform r := by
  obtain ⟨c, cmd, args, hcmd, rfl, -, hread⟩ := h
  obtain ⟨m, hm, rfl⟩ := hread l
  simp only [parse, strsep_letter hcmd, hm, List.headD_cons, hcmd]

theorem exact_of_said [Nonempty L] {s : Bytes} {r : R} (h : F.Says s r) : F.Exact s := by
  obtain ⟨c, cmd, args, hcmd, rfl, hcount, hread⟩ := h
  obtain ⟨l⟩ := ‹Nonempty L›
  obtain ⟨m, hm, -⟩ := hread l
  have hargs : 0 ∉ args := (acceptsFields_of_ok hm).noNul F.sep_ne_nul
  have hc : c ≠ F.sep := fun heq => ne_sep hcmd (by simp [heq])
  have hc0 : c ≠ 0 := by
    rintro rfl
    rw [F.command_nul] at hcmd
    cases hcmd
  refine ⟨c, cmd, hcmd, ⟨args, rfl⟩, ?_, ?_⟩
  · rw [List.count_cons_of_ne hc, List.count_cons_self, hcount]
  · simp only [List.mem_cons, not_or]
    exact ⟨hc0.symm, F.sep_ne_nul.symm, hargs⟩

/-- An exact text that is acted on says what is done. -/
theorem says_of_exact {s : Bytes} {r : R} {l : L} (hexact : F.Exact s)
    (h : F.parse s l = .perform r) : F.Says s r := by
  have hacc := accepts_of_perform h
  obtain ⟨c, cmd, hcmd, ⟨args, rfl⟩, hcount, -⟩ := hexact
  rw [List.cons_append, List.cons_append, List.nil_append] at hacc hcount h
  have hc : c ≠ F.sep := fun heq => ne_sep hcmd (by simp [heq])
  have harity : args.count F.sep + 1 = cmd.arity := by
    rw [← hcount, List.count_cons_of_ne hc, List.count_cons_self]
  have hread : ∀ l, ∃ m, (readFields F.sep F.tooMany F.fields (some args) l).1 = .ok m := by
    intro l
    have hfields : AcceptsFields F.sep F.fields (some args) := by
      simpa only [strsep_letter hcmd] using hacc.2
    rcases readFields_cases F.sep F.tooMany F.fields (some args) l with ⟨-, hm⟩ | ⟨hno, -⟩
    · exact hm
    · exact absurd hfields hno
  refine ⟨c, cmd, args, hcmd, rfl, harity, fun l' => ?_⟩
  obtain ⟨m, hm⟩ := hread l
  obtain ⟨m', hm'⟩ := hread l'
  -- the locals before the message do not matter
  refine ⟨m', hm', ?_⟩
  rw [F.determined c cmd hcmd args l' l m' m harity hm' hm]
  simp only [parse, strsep_letter hcmd, hm, List.headD_cons, hcmd] at h
  exact RequestOutcome.perform.inj h

/-- A text acted on has at most one separator for each field. -/
theorem Accepts.count_le {text : Bytes} (h : F.Accepts text) :
    text.count F.sep ≤ F.fields.length := by
  rcases strsep_cases F.sep text with ⟨hsep, -⟩ | ⟨t, r, rfl, ht, hcut⟩
  · rw [List.count_eq_zero.mpr hsep]
    exact Nat.zero_le _
  · have hr := h.2
    rw [hcut] at hr
    have hlt := AcceptsFields.count_lt hr
    rw [List.count_append, List.count_cons_self, List.count_eq_zero.mpr ht]
    omega

/-! ### Continuations -/

theorem completes_of_accepts {s e : Bytes} (hs : s ≠ []) (h : F.Accepts (s ++ e)) :
    F.Completes s := by
  rcases strsep_cases F.sep s with ⟨hsep, hcut⟩ | ⟨t, r, rfl, ht, hcut⟩
  · -- the first token may go on, but its first byte is there
    have hhead : ∀ e', (s ++ e').headD 0 = s.headD 0 := by
      intro e'
      cases s with
      | nil => exact absurd rfl hs
      | cons b s => rfl
    refine ⟨?_, by simp [hcut, CompletesFields]⟩
    have hcmd := h.1
    rw [hcut]
    rcases strsep_cases F.sep e with ⟨hsep', -⟩ | ⟨t, r, rfl, ht, -⟩
    · rwa [strsep_of_notMem (by simp [hsep, hsep']), hhead] at hcmd
    · rwa [← List.append_assoc, strsep_append (by simp [hsep, ht]), hhead] at hcmd
  · unfold Completes
    unfold Accepts at h
    rw [List.append_assoc, List.cons_append, strsep_append ht] at h
    rw [hcut]
    exact ⟨h.1, completesFields_of_accepts h.2⟩

theorem accepts_of_completes {s : Bytes} (h : F.Completes s) :
    ∃ e, (∀ b ∈ e, isDigit b) ∧ F.Accepts (s ++ e) := by
  rcases strsep_cases F.sep s with ⟨-, hcut⟩ | ⟨t, r, rfl, ht, hcut⟩
  · refine ⟨[], by simp, ?_⟩
    unfold Completes at h
    rw [List.append_nil]
    unfold Accepts
    rw [hcut] at h ⊢
    exact ⟨h.1, by simp [AcceptsFields]⟩
  · unfold Completes at h
    rw [hcut] at h
    obtain ⟨e, he, hacc⟩ := accepts_of_completesFields F.sep_not_digit h.2
    refine ⟨e, he, ?_⟩
    unfold Accepts
    rw [List.append_assoc, List.cons_append, strsep_append ht]
    exact ⟨h.1, hacc⟩

end Format

/-! ## Messages -/

/-- The message ends before the memory behind the buffer is looked at: a newline closes it, which
becomes a NUL, or it has a NUL inside. -/
def Closed (bs : Bytes) : Prop := bs.getLast? = some newline ∨ 0 ∈ bs

instance (bs : Bytes) : Decidable (Closed bs) :=
  inferInstanceAs (Decidable (_ ∨ 0 ∈ bs))

theorem takeWhile_of_noNul {bs : Bytes} (h : (0 : UInt8) ∉ bs) : bs.takeWhile (· ≠ 0) = bs :=
  List.takeWhile_eq_self_iff.mpr (ne_of_notMem h)

/-- What follows a NUL does not count. -/
theorem takeWhile_append_nul {bs es : Bytes} (h : (0 : UInt8) ∈ bs) :
    (bs ++ es).takeWhile (· ≠ 0) = bs.takeWhile (· ≠ 0) := by
  obtain ⟨t, r, rfl, ht⟩ := List.eq_append_cons_of_mem h
  have hall := ne_of_notMem ht
  rw [List.append_assoc, List.takeWhile_append_of_pos hall, List.takeWhile_append_of_pos hall]
  simp

theorem chomp_of_newline {s : Bytes} : chomp (s ++ [newline]) = s := by simp [chomp]

namespace Format

variable {F : Format L R}

/-- A closed message is read up to its newline or its first NUL. -/
theorem handle_closed {bs : Bytes} (h : Closed bs) (rest : Bytes) (l : L) :
    F.handle bs rest l = F.parse ((chomp bs).takeWhile (· ≠ 0)) l := by
  rcases List.eq_nil_or_concat bs with rfl | ⟨s, last, rfl⟩
  · simp [Closed] at h
  rw [List.concat_eq_append] at h ⊢
  unfold handle
  rw [List.getLast?_concat]
  by_cases hlast : last = newline
  · subst hlast
    -- the NUL put in place of the newline ends the text, if no other did before
    have hcut : (s ++ [0]).takeWhile (· ≠ 0) = s.takeWhile (· ≠ 0) := by
      by_cases hs : (0 : UInt8) ∈ s
      · exact takeWhile_append_nul hs
      · rw [List.takeWhile_append_of_pos (List.takeWhile_eq_self_iff.mp (takeWhile_of_noNul hs)),
          takeWhile_of_noNul hs]
        simp
    simp only [if_pos, List.dropLast_concat, chomp_of_newline]
    rw [takeWhile_append_nul (by simp), hcut]
  · have hnul : (0 : UInt8) ∈ s ++ [last] := by
      rcases h with hnl | hnul
      · rw [List.getLast?_concat] at hnl
        exact absurd (Option.some.inj hnl) hlast
      · exact hnul
    have hchomp : chomp (s ++ [last]) = s ++ [last] := by simp [chomp, hlast]
    simp only [if_neg hlast, hchomp, takeWhile_append_nul hnul]

/-- An open message goes on with what follows it in memory. -/
theorem handle_open {bs : Bytes} (hne : bs ≠ []) (h : ¬ Closed bs) (rest : Bytes) (l : L) :
    F.handle bs rest l = F.parse (bs ++ rest.takeWhile (· ≠ 0)) l := by
  obtain ⟨hnl, hnul⟩ : bs.getLast? ≠ some newline ∧ 0 ∉ bs := by simpa [Closed] using h
  unfold handle
  cases hlast : bs.getLast? with
  | none => exact absurd (List.getLast?_eq_none_iff.mp hlast) hne
  | some last =>
      have hne' : last ≠ newline := fun heq => hnl (heq ▸ hlast)
      simp only [if_neg hne', List.takeWhile_append_of_pos (ne_of_notMem hnul)]

/-- The messages on which the parser obeys its grammar: a closed one, if it is acted on at all, has
a command letter alone and exactly its fields, without a NUL inside; an open one cannot be continued
to one that is acted on. -/
def Clear (F : Format L R) (bs : Bytes) : Prop :=
  bs ≠ [] ∧
    (Closed bs → F.Accepts ((chomp bs).takeWhile (· ≠ 0)) → F.Exact (chomp bs)) ∧
    (¬ Closed bs → ¬ F.Completes bs)

instance (bs : Bytes) : Decidable (F.Clear bs) :=
  inferInstanceAs (Decidable (bs ≠ [] ∧ (Closed bs → _ → F.Exact _) ∧ (¬ Closed bs → ¬ _)))

/-- A text that is not acted on is an error. -/
theorem lawful_of_not_accepts {text : Bytes} {l : L} {Says : R → Prop} (h : ¬ F.Accepts text)
    (hsaid : ∀ r, ¬ Says r) : Lawful (F.parse text l) Says := by
  rcases parse_cases F text l with ⟨hacc, -⟩ | ⟨-, message, herr⟩
  · exact absurd hacc h
  · refine ⟨fun r => iff_of_false ?_ (hsaid r), fun _ => ⟨message, herr⟩⟩
    rw [herr]
    simp

theorem lawful_closed_iff [Nonempty L] {bs : Bytes} (h : Closed bs) :
    (∀ rest l, Lawful (F.handle bs rest l) (F.Says (chomp bs))) ↔
      (F.Accepts ((chomp bs).takeWhile (· ≠ 0)) → F.Exact (chomp bs)) := by
  have hnul : ∀ {r}, F.Says (chomp bs) r → (chomp bs).takeWhile (· ≠ 0) = chomp bs := by
    intro r hsaid
    obtain ⟨c, cmd, -, -, -, hno⟩ := exact_of_said hsaid
    exact takeWhile_of_noNul hno
  simp only [handle_closed h]
  constructor
  · intro hlaw hacc
    obtain ⟨l⟩ := ‹Nonempty L›
    rcases parse_cases F ((chomp bs).takeWhile (· ≠ 0)) l with ⟨-, r, hr⟩ | ⟨hno, -⟩
    · exact exact_of_said (((hlaw [] l).1 r).mp hr)
    · exact absurd hacc hno
  · intro hexact _ l
    by_cases hacc : F.Accepts ((chomp bs).takeWhile (· ≠ 0))
    · obtain ⟨c, cmd, -, -, -, hno⟩ := hexact hacc
      have htext := takeWhile_of_noNul hno
      rw [htext]
      refine ⟨fun r => ⟨says_of_exact (hexact hacc), fun hsaid => parse_of_said hsaid l⟩,
        fun hnone => ?_⟩
      rcases parse_cases F (chomp bs) l with ⟨-, r, hr⟩ | ⟨-, herr⟩
      · exact absurd (says_of_exact (hexact hacc) hr) (hnone r)
      · exact herr
    · refine lawful_of_not_accepts hacc fun r hsaid => hacc ?_
      rw [hnul hsaid]
      exact accepts_of_perform (parse_of_said hsaid l)

theorem lawful_open_iff [Nonempty L] {bs : Bytes} (hne : bs ≠ []) (h : ¬ Closed bs) :
    (∀ rest l, Lawful (F.handle bs rest l) (F.Says (chomp bs))) ↔ ¬ F.Completes bs := by
  have hchomp : chomp bs = bs := by
    unfold chomp
    rw [if_neg fun hnl => h (.inl hnl)]
  simp only [handle_open hne h, hchomp]
  constructor
  · intro hlaw hcomp
    obtain ⟨l⟩ := ‹Nonempty L›
    obtain ⟨e, he, hacc⟩ := accepts_of_completes hcomp
    have hnul : (0 : UInt8) ∉ e := fun hmem => by
      have hdigit := he 0 hmem
      revert hdigit
      decide
    rcases parse_cases F (bs ++ e) l with ⟨-, r, hr⟩ | ⟨hno, -⟩
    · have hsaid : F.Says bs r := ((hlaw e l).1 r).mp (by rw [takeWhile_of_noNul hnul]; exact hr)
      -- the same message with too many separators behind it is not acted on
      have hmany := ((hlaw (List.replicate (F.fields.length + 1) F.sep) l).1 r).mpr hsaid
      have hno : (0 : UInt8) ∉ List.replicate (F.fields.length + 1) F.sep := by
        simp [List.mem_replicate, F.sep_ne_nul.symm]
      rw [takeWhile_of_noNul hno] at hmany
      have hle := (accepts_of_perform hmany).count_le
      rw [List.count_append, List.count_replicate_self] at hle
      omega
    · exact absurd hacc hno
  · intro hcomp rest l
    refine lawful_of_not_accepts (fun hacc => hcomp (completes_of_accepts hne hacc)) fun r hsaid =>
      hcomp ?_
    have hacc := accepts_of_perform (parse_of_said hsaid l)
    rw [← List.append_nil bs] at hacc
    exact completes_of_accepts hne hacc

/-- **The parser obeys its grammar on a message, whatever follows it and whatever the locals hold,
exactly when the message is clear.** -/
theorem lawful_iff [Nonempty L] (F : Format L R) (bs : Bytes) :
    (∀ rest l, Lawful (F.handle bs rest l) (F.Says (chomp bs))) ↔ F.Clear bs := by
  by_cases hne : bs = []
  · subst hne
    refine iff_of_false (fun hlaw => ?_) fun hclear => hclear.1 rfl
    obtain ⟨l⟩ := ‹Nonempty L›
    obtain ⟨message, herr⟩ := (hlaw [] l).2 (by
      rintro r ⟨c, cmd, args, -, heq, -⟩
      cases heq)
    cases herr
  · by_cases h : Closed bs
    · rw [lawful_closed_iff h]
      exact ⟨fun hc => ⟨hne, fun _ => hc, fun hno => absurd h hno⟩, fun hc => hc.2.1 h⟩
    · rw [lawful_open_iff hne h]
      exact ⟨fun hc => ⟨hne, fun hyes => absurd hyes h, fun _ => hc⟩, fun hc => hc.2.2 h⟩

end Format

end KernelDev.Lib
