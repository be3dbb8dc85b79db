/-
# KernelDev.Lib.WriteBuffer — the buffer of a write callback and the pointer to it

A callback that reads requests of a `Format` allocates a buffer, copies the message into it, moves
the pointer along with `strsep` and frees what the pointer is at the end. A pointer is the offset
from what was allocated, or NULL.

`Format.handle` follows the texts that the pointer points to. Here the same loop follows the pointer
itself; `strsep_drop` and `readFields_drop` say that the texts are what is found at it.
-/
import KernelDev.Lib.ProcWrite

namespace KernelDev.Lib

variable {L R S : Type}

/-- The token at an offset of a C string. -/
def tokenAt (sep : UInt8) (text : Bytes) (k : Nat) : Bytes := (text.drop k).takeWhile (· ≠ sep)

/-- Where `strsep` moves a pointer: behind the separator, or to NULL. -/
def afterToken (sep : UInt8) (text : Bytes) (k : Nat) : Option Nat :=
  if k + (tokenAt sep text k).length < text.length then some (k + (tokenAt sep text k).length + 1)
  else none

/-- The loop over the tokens after the first one: the error or the locals, and the pointer where the
loop was left. -/
def loopFields (sep : UInt8) (tooMany : String) (text : Bytes) :
    List (RequestField L) → Option Nat → L → Except String L × Option Nat
  | _, none, l => (.ok l, none)
  | [], some k, _ => (.error tooMany, afterToken sep text k)
  | f :: fs, some k, l =>
      match f.store (tokenAt sep text k) with
      | none => (.error f.error, afterToken sep text k)
      | some set => loopFields sep tooMany text fs (afterToken sep text k) (set l)

namespace Format

variable (F : Format L R)

/-- The pointers given to `kfree` when the text is read: the callback gets to `kfree` unless the
operation does not return. -/
def parseFrees (perform : R → S → Option (Int × S)) (text : Bytes) (l : L) (s : S) :
    List (Option Nat) :=
  let op := tokenAt F.sep text 0
  match loopFields F.sep F.tooMany text F.fields (afterToken F.sep text 0) l with
  | (.error _, kerBuf) => [kerBuf]
  | (.ok l, kerBuf) =>
      match F.command (op.headD 0) with
      | none => [kerBuf]
      | some cmd => if (perform (cmd.call l) s).isSome then [kerBuf] else []

/-- The pointers given to `kfree` after the buffer was allocated. `copied` says whether
`copy_from_user` returned 0. For an empty message the byte before the buffer is looked at, and the
callback does not get to `kfree`. -/
def kfrees (perform : R → S → Option (Int × S)) (copied : Bool) (bs rest : Bytes) (l : L) (s : S) :
    List (Option Nat) :=
  if !copied then [some 0]
  else
    match bs.getLast? with
    | none => []
    | some last =>
        let kerBuf := if last = newline then bs.dropLast ++ [0] else bs
        F.parseFrees perform ((kerBuf ++ rest).takeWhile (· ≠ 0)) l s

end Format

/-! ## The pointer and the text -/

variable {sep : UInt8} {tooMany : String} {text : Bytes}

theorem strsep_drop (sep : UInt8) (text : Bytes) (k : Nat) :
    strsep sep (text.drop k) =
      (tokenAt sep text k, (afterToken sep text k).map fun k => text.drop k) := by
  have hlen : (text.drop k).length = text.length - k := List.length_drop
  unfold afterToken
  rcases strsep_cases sep (text.drop k) with ⟨hsep, hcut⟩ | ⟨t, r, hdrop, ht, hcut⟩
  · have htoken : tokenAt sep text k = text.drop k := congrArg Prod.fst hcut
    rw [hcut, htoken, hlen, if_neg (by omega)]
    rfl
  · have htoken : tokenAt sep text k = t := congrArg Prod.fst hcut
    rw [hdrop, List.length_append, List.length_cons] at hlen
    have hrest : text.drop (k + t.length + 1) = r := by
      rw [Nat.add_assoc, ← List.drop_drop, hdrop, ← List.drop_drop, List.drop_left]
      rfl
    rw [hcut, htoken, if_pos (by omega), Option.map_some, hrest]

/-- **The loop finds the texts at its pointer.** -/
theorem readFields_drop (fs : List (RequestField L)) (p : Option Nat) (l : L) :
    readFields sep tooMany fs (p.map fun k => text.drop k) l =
      ((loopFields sep tooMany text fs p l).1,
        (loopFields sep tooMany text fs p l).2.map fun k => text.drop k) := by
  induction fs generalizing p l with
  | nil =>
      cases p with
      | none => rfl
      | some k => exact congrArg (fun x => (_, x)) (congrArg Prod.snd (strsep_drop sep text k))
  | cons f fs ih =>
      cases p with
      | none => rfl
      | some k =>
          rw [Option.map_some, readFields, strsep_drop, loopFields]
          simp only
          cases f.store (tokenAt sep text k) with
          | none => rfl
          | some set => exact ih (afterToken sep text k) (set l)

/-- `strsep` never leaves a pointer at the beginning. -/
theorem afterToken_ne_zero (sep : UInt8) (text : Bytes) (k : Nat) :
    afterToken sep text k ≠ some 0 := by
  unfold afterToken
  split
  · exact fun h => Nat.succ_ne_zero _ (Option.some.inj h)
  · exact nofun

/-- **Nor does the loop.** -/
theorem loopFields_ne_zero (sep : UInt8) (tooMany : String) (text : Bytes)
    (fs : List (RequestField L)) {p : Option Nat} (l : L) (h : p ≠ some 0) :
    (loopFields sep tooMany text fs p l).2 ≠ some 0 := by
  induction fs generalizing p l with
  | nil =>
      cases p with
      | none => exact nofun
      | some k => exact afterToken_ne_zero sep text k
  | cons f fs ih =>
      cases p with
      | none => exact nofun
      | some k =>
          rw [loopFields]
          cases f.store (tokenAt sep text k) with
          | none => exact afterToken_ne_zero sep text k
          | some set => exact ih (set l) (afterToken_ne_zero sep text k)

/-! ## What is freed -/

namespace Format

theorem notMem_parseFrees (F : Format L R) (perform : R → S → Option (Int × S)) (text : Bytes)
    (l : L) (s : S) : some 0 ∉ F.parseFrees perform text l s := by
  have hptr := loopFields_ne_zero F.sep F.tooMany text F.fields l (afterToken_ne_zero F.sep text 0)
  unfold parseFrees
  extract_lets op
  split
  · next hloop =>
      rw [hloop] at hptr
      exact fun hmem => hptr (List.mem_singleton.mp hmem).symm
  · next kerBuf hloop =>
      rw [hloop] at hptr
      have hnot : some 0 ∉ [kerBuf] := fun hmem => hptr (List.mem_singleton.mp hmem).symm
      split
      · exact hnot
      · split
        · exact hnot
        · exact List.not_mem_nil

/-- Once the message is copied, what was allocated is not freed. -/
theorem notMem_kfrees (F : Format L R) (perform : R → S → Option (Int × S)) (bs rest : Bytes)
    (l : L) (s : S) : some 0 ∉ F.kfrees perform true bs rest l s := by
  rw [kfrees, if_neg (by decide)]
  cases bs.getLast? with
  | none => exact List.not_mem_nil
  | some last => exact F.notMem_parseFrees perform _ l s

/-- **What was allocated is freed, and nothing else, exactly when the message was not copied.** -/
theorem kfrees_eq_iff (F : Format L R) (perform : R → S → Option (Int × S)) (copied : Bool)
    (bs rest : Bytes) (l : L) (s : S) :
    F.kfrees perform copied bs rest l s = [some 0] ↔ copied = false := by
  cases copied with
  | false => exact iff_of_true rfl rfl
  | true =>
      refine iff_of_false (fun h => ?_) (by decide)
      exact F.notMem_kfrees perform bs rest l s (h ▸ List.mem_singleton_self _)

theorem parseFrees_length (F : Format L R) (perform : R → S → Option (Int × S)) (text : Bytes)
    (offp : Nat) (l : L) (s : S) :
    (F.parseFrees perform text l s).length =
      if ((F.parse text l).call perform offp s).finish.isSome then 1 else 0 := by
  have hop : strsep F.sep text =
      (tokenAt F.sep text 0, (afterToken F.sep text 0).map fun k => text.drop k) :=
    strsep_drop F.sep text 0
  rw [parse, parseFrees, hop]
  simp only [readFields_drop]
  split
  · next hloop =>
      rw [hloop]
      rfl
  · next hloop =>
      rw [hloop]
      simp only
      cases F.command ((tokenAt F.sep text 0).headD 0) with
      | none => rfl
      | some cmd =>
          simp only [RequestOutcome.call, Option.isSome_map]
          split <;> rfl

/-- **A callback that returns has called `kfree` once, and one that does not return never.** -/
theorem kfrees_length (F : Format L R) (again : Nat → Int) (perform : R → S → Option (Int × S))
    (bs rest : Bytes) (l : L) (s : S) :
    (F.kfrees perform true bs rest l s).length =
      if (F.write again perform bs rest l 0 s).finish.isSome then 1 else 0 := by
  rw [write_zero, kfrees, handle, if_neg (by decide)]
  cases bs.getLast? with
  | none => rfl
  | some last => exact F.parseFrees_length perform _ bs.length l s

/-- **A callback that returns has given NULL or a pointer into the buffer to `kfree`.** -/
theorem kfrees_of_returned (F : Format L R) (again : Nat → Int) (perform : R → S → Option (Int × S))
    (bs rest : Bytes) (l : L) (s : S) (h : (F.write again perform bs rest l 0 s).finish.isSome) :
    ∃ p, p ≠ some 0 ∧ F.kfrees perform true bs rest l s = [p] := by
  have hlen := F.kfrees_length again perform bs rest l s
  rw [if_pos h] at hlen
  obtain ⟨p, hp⟩ := List.length_eq_one_iff.mp hlen
  refine ⟨p, ?_, hp⟩
  rintro rfl
  exact F.notMem_kfrees perform bs rest l s (hp ▸ List.mem_singleton_self _)

end Format

end KernelDev.Lib
