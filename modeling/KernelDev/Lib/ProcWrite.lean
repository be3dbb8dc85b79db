/-
# KernelDev.Lib.ProcWrite — write callbacks of `/proc` files, and clients that repeat `write()`

A callback gets a message and the file offset. One that reads requests of a `Format` acts on a
message at offset 0, returns what the operation returned, and at any other offset only gives an
answer. The kernel stores the offset the callback leaves when it returned no error.

`clientWrite` is a client that repeats `write()` on what is left of its message until all bytes are
taken or an error is returned. `exactlyOnce_iff` says when its request is executed exactly once if
a retry is answered with its length, and `not_exactlyOnce` that it never works out if a retry is
answered with an error and the operation returned 0.
-/
import KernelDev.Lib.RequestFormat

namespace KernelDev.Lib

variable {L R S : Type}

/-! ## Write callbacks -/

/-- What a callback leaves when it returns. -/
structure WriteEnd (S : Type) where
  ret : Int
  offp : Nat
  state : S

/-- A call of a callback: the operation it called, and its end if it returned. -/
structure WriteCall (S R : Type) where
  called : Option R
  finish : Option (WriteEnd S)

/-- `-EINVAL`. -/
def einval : Int := -22

/-- The rest of a callback after its message was read: the operation is called, which may not
return, or an error is returned. -/
def RequestOutcome.call (perform : R → S → Option (Int × S)) (offp : Nat) (s : S) :
    RequestOutcome R → WriteCall S R
  | .fault => ⟨none, none⟩
  | .error _ => ⟨none, some ⟨einval, offp, s⟩⟩
  | .perform r => ⟨some r, (perform r s).map fun (ret, s) => ⟨ret, offp, s⟩⟩

/-- The callback on a message `bs` with `rest` behind it in memory and its locals at `l`. `again` is
its answer to a message at another offset than 0, of this length. -/
def Format.write (F : Format L R) (again : Nat → Int) (perform : R → S → Option (Int × S))
    (bs rest : Bytes) (l : L) (offp : Nat) (s : S) : WriteCall S R :=
  if offp ≠ 0 then ⟨none, some ⟨again bs.length, offp, s⟩⟩
  else (F.handle bs rest l).call perform (offp + bs.length) s

/-- The call is of the request the grammar says; if it says none, an error is returned and the state
is as before. -/
def WriteCall.Lawful (w : WriteCall S R) (Says : R → Prop) (s : S) : Prop :=
  (∀ r, w.called = some r ↔ Says r) ∧
    ((∀ r, ¬ Says r) → ∃ e, w.finish = some e ∧ e.ret < 0 ∧ e.state = s)

variable {perform : R → S → Option (Int × S)}

theorem RequestOutcome.call_called {o : RequestOutcome R} {offp : Nat} {s : S} {r : R} :
    (o.call perform offp s).called = some r ↔ o = .perform r := by
  cases o <;> simp [RequestOutcome.call]

/-- A callback is lawful where its parser is. -/
theorem RequestOutcome.call_lawful {o : RequestOutcome R} {offp : Nat} {s : S} {Says : R → Prop} :
    (o.call perform offp s).Lawful Says s ↔ Lawful o Says := by
  unfold WriteCall.Lawful Lib.Lawful
  simp only [call_called]
  refine and_congr_right fun hsaid => forall_congr' fun hnone => ?_
  cases o with
  | fault => simp [RequestOutcome.call]
  | error message => simp [RequestOutcome.call, einval]
  | perform r => exact absurd ((hsaid r).mp rfl) (hnone r)

/-- **The callback obeys the grammar on a message, whatever follows it and whatever the locals hold,
exactly when the message is clear.** -/
theorem Format.write_lawful_iff [Nonempty L] (F : Format L R) (again : Nat → Int) (bs : Bytes)
    (s : S) :
    (∀ rest l, (F.write again perform bs rest l 0 s).Lawful (F.Says (chomp bs)) s) ↔
      F.Clear bs := by
  rw [← F.lawful_iff bs]
  exact forall_congr' fun rest => forall_congr' fun l => RequestOutcome.call_lawful

theorem Format.write_zero (F : Format L R) (again : Nat → Int) (bs rest : Bytes) (l : L) (s : S) :
    F.write again perform bs rest l 0 s = (F.handle bs rest l).call perform bs.length s := by
  unfold Format.write
  rw [if_neg (by simp), Nat.zero_add]

theorem Format.write_again (F : Format L R) (again : Nat → Int) {bs rest : Bytes} {l : L}
    {offp : Nat} {s : S} (h : offp ≠ 0) :
    F.write again perform bs rest l offp s = ⟨none, some ⟨again bs.length, offp, s⟩⟩ := if_pos h

/-- A message that ends in a newline makes the request it says. -/
theorem Format.handle_of_said [Nonempty L] {F : Format L R} {bs : Bytes} {r : R}
    (h : F.Says (chomp bs) r) (hnl : bs.getLast? = some newline) (rest : Bytes) (l : L) :
    F.handle bs rest l = .perform r := by
  obtain ⟨c, cmd, -, -, -, hnul⟩ := exact_of_said h
  rw [handle_closed (.inl hnl), takeWhile_of_noNul hnul]
  exact parse_of_said h l

theorem Format.write_called [Nonempty L] {F : Format L R} {again : Nat → Int} {bs : Bytes} {r : R}
    (h : F.Says (chomp bs) r) (hnl : bs.getLast? = some newline) (rest : Bytes) (l : L) (s : S) :
    (F.write again perform bs rest l 0 s).called = some r := by
  rw [write_zero, handle_of_said h hnl]
  rfl

/-- An open message with too many separators behind it is an error. -/
theorem Format.handle_of_open {F : Format L R} {bs : Bytes} {r : R} (h : F.Says (chomp bs) r)
    (hopen : ¬ Closed bs) (l : L) :
    ∃ message, F.handle bs (List.replicate (F.fields.length + 1) F.sep) l = .error message := by
  have hne : bs ≠ [] := by
    rintro rfl
    obtain ⟨c, cmd, args, -, heq, -⟩ := h
    cases heq
  have hno : (0 : UInt8) ∉ List.replicate (F.fields.length + 1) F.sep := by
    simp [List.mem_replicate, F.sep_ne_nul.symm]
  rw [handle_open hne hopen, takeWhile_of_noNul hno]
  rcases parse_cases F (bs ++ List.replicate (F.fields.length + 1) F.sep) l with
    ⟨hacc, -⟩ | ⟨-, herr⟩
  · have hle := hacc.count_le
    rw [List.count_append, List.count_replicate_self] at hle
    omega
  · exact herr

/-! ## Clients -/

/-- The end of a client's loop: the operations its calls called, and the error it got. -/
structure ClientEnd (R : Type) where
  called : List R
  error : Option Int
  deriving DecidableEq, Repr

/-- A client that repeats `write()` on what is left of its message. Each call of the callback meets
its own surroundings, by its number, and before the next one `others` change the state. There is no
end where a call does not return, or within the fuel. -/
def clientWrite (write : Nat → Bytes → Nat → S → WriteCall S R) (others : Nat → S → S) :
    Nat → Nat → Bytes → Nat → S → Option (ClientEnd R)
  | 0, _, _, _, _ => none
  | _ + 1, _, [], _, _ => some ⟨[], none⟩
  | fuel + 1, n, b :: bs, offp, s =>
      let w := write n (b :: bs) offp s
      match w.finish with
      | none => none
      | some e =>
          -- the offset is stored if no error was returned
          if e.ret < 0 then some ⟨w.called.toList, some e.ret⟩
          else
            (clientWrite write others fuel (n + 1) ((b :: bs).drop e.ret.toNat) e.offp
              (others n e.state)).map fun c => { c with called := w.called.toList ++ c.called }

/-- The loop on a new file comes to its end, the request has been executed once and nothing else
has, and if the operation returned no error the client got none. -/
def ExactlyOnce (perform : R → S → Option (Int × S))
    (write : Nat → Bytes → Nat → S → WriteCall S R) (others : Nat → S → S) (bs : Bytes) (r : R)
    (s : S) : Prop :=
  ∃ ret s', perform r s = some (ret, s') ∧
    ∃ fuel c, clientWrite write others fuel 0 bs 0 s = some c ∧ c.called = [r] ∧
      (0 ≤ ret → c.error = none)

section Clients

variable {write : Nat → Bytes → Nat → S → WriteCall S R} {others : Nat → S → S} {bs : Bytes} {r : R}
  {s s' : S} {ret : Int}

/-- **What one call can do to the client**: an error ends its loop. -/
theorem clientWrite_cases {fuel n offp : Nat} {c : ClientEnd R} (hne : bs ≠ [])
    (h : clientWrite write others fuel n bs offp s = some c) :
    ∃ e, (write n bs offp s).finish = some e ∧
      ((e.ret < 0 ∧ c = ⟨(write n bs offp s).called.toList, some e.ret⟩) ∨
        (0 ≤ e.ret ∧ ∃ fuel' c', clientWrite write others fuel' (n + 1) (bs.drop e.ret.toNat) e.offp
          (others n e.state) = some c' ∧
          c = { c' with called := (write n bs offp s).called.toList ++ c'.called })) := by
  cases fuel with
  | zero => cases h
  | succ fuel =>
      cases bs with
      | nil => exact absurd rfl hne
      | cons b bs =>
          rw [clientWrite] at h
          cases hfin : (write n (b :: bs) offp s).finish with
          | none => simp [hfin] at h
          | some e =>
              simp only [hfin] at h
              refine ⟨e, rfl, ?_⟩
              split at h
              · next hret => exact .inl ⟨hret, (Option.some.inj h).symm⟩
              · next hret =>
                  obtain ⟨c', hc', rfl⟩ := Option.map_eq_some_iff.mp h
                  exact .inr ⟨by omega, fuel, c', hc', rfl⟩

/-- Where a retry is answered with its length, the second call is the last. -/
theorem clientWrite_retry {offp n : Nat} {t : S} {bs : Bytes}
    (hagain : write n bs offp t = ⟨none, some ⟨bs.length, offp, t⟩⟩) :
    clientWrite write others 2 n bs offp t = some ⟨[], none⟩ := by
  cases bs with
  | nil => rfl
  | cons b bs =>
      rw [clientWrite, hagain]
      have hret : ¬ ((b :: bs).length : Int) < 0 := by omega
      simp only [if_neg hret, Int.toNat_natCast, List.drop_length]
      rfl

end Clients

/-! ## Exactly once -/

namespace Format

variable {F : Format L R} {again : Nat → Int} {bs : Bytes} {r : R} {s : S}

/-- What the callback of a client meets: its calls by number. -/
def writes (F : Format L R) (again : Nat → Int) (perform : R → S → Option (Int × S))
    (rest : Nat → Bytes) (locals : Nat → L) (n : Nat) (bs : Bytes) (offp : Nat) (s : S) :
    WriteCall S R :=
  F.write again perform bs (rest n) (locals n) offp s

theorem ne_nil_of_said (h : F.Says (chomp bs) r) : bs ≠ [] := by
  rintro rfl
  obtain ⟨c, cmd, args, -, heq, -⟩ := h
  cases heq

/-- A message that says a request has no NUL inside, so only a newline closes it. -/
theorem closed_iff_of_said [Nonempty L] (h : F.Says (chomp bs) r) :
    Closed bs ↔ bs.getLast? = some newline := by
  refine ⟨fun hclosed => hclosed.resolve_right fun hnul => ?_, .inl⟩
  obtain ⟨c, cmd, -, -, -, hno⟩ := exact_of_said h
  unfold chomp at hno
  split at hno
  · next hnl =>
      have hbs := List.dropLast_append_getLast? newline hnl
      rw [← hbs, List.mem_append, List.mem_singleton] at hnul
      rcases hnul with hnul | hnul
      · exact hno hnul
      · exact absurd hnul (by decide)
  · exact hno hnul

/-- An operation that returns is executed once if a retry is answered with its length. -/
theorem exactlyOnce_of_newline [Nonempty L] (hagain : ∀ n, again n = n)
    (h : F.Says (chomp bs) r) (hnl : bs.getLast? = some newline) {ret : Int} {s' : S}
    (hperform : perform r s = some (ret, s')) (rest : Nat → Bytes) (locals : Nat → L)
    (others : Nat → S → S) :
    ExactlyOnce perform (F.writes again perform rest locals) others bs r s := by
  have hne := ne_nil_of_said h
  have hfirst : F.writes again perform rest locals 0 bs 0 s =
      ⟨some r, some ⟨ret, bs.length, s'⟩⟩ := by
    rw [writes, write_zero, handle_of_said h hnl]
    simp only [RequestOutcome.call, hperform, Option.map_some]
  refine ⟨ret, s', hperform, 3, ?_⟩
  cases bs with
  | nil => exact absurd rfl hne
  | cons b bs =>
      rw [clientWrite, hfirst]
      by_cases hret : ret < 0
      · simp only [if_pos hret]
        exact ⟨_, rfl, rfl, fun hpos => absurd hpos (by omega)⟩
      · -- the retry, if there is one
        have hretry : F.writes again perform rest locals 1 ((b :: bs).drop ret.toNat)
            (b :: bs).length (others 0 s') =
            ⟨none, some ⟨((b :: bs).drop ret.toNat).length, (b :: bs).length, others 0 s'⟩⟩ := by
          rw [writes, write_again _ _ (by simp), hagain]
        simp only [if_neg hret, clientWrite_retry hretry]
        exact ⟨_, rfl, rfl, fun _ => rfl⟩

/-- **Exactly once, where a retry is answered with its length**: for a message that says a request,
whatever follows it and whatever the locals hold, exactly if it ends in a newline and the operation
returns. -/
theorem exactlyOnce_iff [Nonempty L] (hagain : ∀ n, again n = n) (h : F.Says (chomp bs) r) :
    (∀ rest locals others,
      ExactlyOnce perform (F.writes again perform rest locals) others bs r s) ↔
      bs.getLast? = some newline ∧ (perform r s).isSome := by
  constructor
  · intro honce
    obtain ⟨l⟩ := ‹Nonempty L›
    obtain ⟨ret, s', hperform, -⟩ := honce (fun _ => []) (fun _ => l) fun _ s => s
    refine ⟨?_, by rw [hperform]; rfl⟩
    by_contra hnl
    -- an open message may be followed by anything
    obtain ⟨message, herr⟩ := handle_of_open h (mt (closed_iff_of_said h).mp hnl) l
    obtain ⟨-, -, -, fuel, c, hc, hcalled, -⟩ := honce
      (fun _ => List.replicate (F.fields.length + 1) F.sep) (fun _ => l) fun _ s => s
    obtain ⟨e, hfin, hend⟩ := clientWrite_cases (ne_nil_of_said h) hc
    simp only [writes, write_zero, herr, RequestOutcome.call] at hfin hend
    rw [← Option.some.inj hfin] at hend
    rcases hend with ⟨-, rfl⟩ | ⟨hpos, -⟩
    · cases hcalled
    · exact absurd hpos (by simp [einval])
  · rintro ⟨hnl, hsome⟩ rest locals others
    obtain ⟨⟨ret, s'⟩, hperform⟩ := Option.isSome_iff_exists.mp hsome
    exact exactlyOnce_of_newline hagain h hnl hperform rest locals others

/-- **Never, where a retry is answered with an error** and the operation returns 0, which makes the
client repeat all of its message. -/
theorem not_exactlyOnce (hagain : ∀ n, again n < 0) (hne : bs ≠ [])
    (hzero : ∀ ret s', perform r s = some (ret, s') → ret = 0) (rest : Nat → Bytes)
    (locals : Nat → L) (others : Nat → S → S) :
    ¬ ExactlyOnce perform (F.writes again perform rest locals) others bs r s := by
  rintro ⟨ret, s', hperform, fuel, c, hc, hcalled, herror⟩
  have hret := hzero ret s' hperform
  have hnone : c.error = none := herror (by omega)
  obtain ⟨e, hfin, ⟨-, rfl⟩ | ⟨hpos, fuel', c', hc', rfl⟩⟩ := clientWrite_cases hne hc
  · cases hnone
  rw [writes, write_zero] at hfin hcalled
  have hcall : F.handle bs (rest 0) (locals 0) = .perform r := by
    cases hout : F.handle bs (rest 0) (locals 0) with
    | fault => simp [hout, RequestOutcome.call] at hfin
    | error message =>
        simp only [hout, RequestOutcome.call, Option.some.injEq] at hfin
        rw [← hfin] at hpos
        exact absurd hpos (by simp [einval])
    | perform r' =>
        simp only [hout, RequestOutcome.call, Option.toList_some, List.cons_append,
          List.cons.injEq] at hcalled
        rw [hcalled.1]
  simp only [hcall, RequestOutcome.call, hperform, Option.map_some, Option.some.injEq] at hfin
  subst hfin hret
  -- the client begins again, and the second call returns an error
  obtain ⟨e, hfin, hend⟩ := clientWrite_cases (by simpa using hne) hc'
  have hoffp : bs.length ≠ 0 := by simpa using hne
  rw [writes, write_again _ _ hoffp] at hfin
  have hagain' : e.ret < 0 := by
    rw [← Option.some.inj hfin]
    exact hagain _
  rcases hend with ⟨-, rfl⟩ | ⟨hpos', -⟩
  · cases hnone
  · omega

end Format

end KernelDev.Lib
