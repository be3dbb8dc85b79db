/-
# KernelDev.Runtime.FieldTransmute — the derive macro that lets packet bytes be a struct

`#[derive(FieldTransmute)]` gives a type a `new` that takes the bytes of a packet to be a value of
it. Two things keep other types out: the macro looks at the fields by name, through arrays and
references, and for each field it emits a bound `direct_packet_access_ok::<T>()` for the compiler to
check. The first concerns structs with named fields only, the second all structs; an item that is
not a struct gets its `new` without either.

The macro sees syntax. What a path or another type expression stands for where the macro is used is
the compiler's to say; it is a parameter here.
-/
import Mathlib.Data.List.Basic

namespace KernelDev.Runtime

/-! ## What the macro sees -/

/-- One segment of a path: the identifier, and the tokens of its arguments. -/
structure PathSegment where
  ident : String
  arguments : String
  deriving DecidableEq, Repr

/-- `syn::TypePath`. A path has a last segment. -/
structure TypePath where
  qself : Option String
  leading : List PathSegment
  last : PathSegment
  deriving DecidableEq, Repr

/-- `syn::Type`; `other` is any kind but the three that are told apart, given by its tokens. -/
inductive SynType
  | path (p : TypePath)
  | array (elem : SynType) (len : Nat)
  | reference (elem : SynType)
  | other (tokens : String)
  deriving DecidableEq, Repr

/-- `syn::Field`: a field of a tuple struct has no identifier. -/
structure ItemField where
  ident : Option String
  ty : SynType
  deriving DecidableEq, Repr

/-- `syn::Fields`. -/
inductive Fields
  | named (fields : List (String × SynType))
  | unnamed (fields : List SynType)
  | unit
  deriving DecidableEq, Repr

def Fields.toList : Fields → List ItemField
  | .named fields => fields.map fun f => ⟨some f.1, f.2⟩
  | .unnamed fields => fields.map fun ty => ⟨none, ty⟩
  | .unit => []

/-- A compile error at some tokens. -/
structure SynError where
  span : SynType
  message : String
  deriving DecidableEq, Repr

def typeChecking (p : TypePath) : Bool :=
  p.last.ident ∈ ["u8", "i8", "i16", "u16", "i32", "u32", "i64", "u64"]

def fieldTypeCheck : SynType → Except SynError Unit
  | .path p =>
      if typeChecking p then .ok () else .error ⟨.path p, "All fields must be numeric type"⟩
  | .array elem _ => fieldTypeCheck elem
  | .reference elem => fieldTypeCheck elem
  | ty => .error ⟨ty, "All fields must be validate type"⟩

/-- The integer types of `direct_packet_access_ok_impl`. -/
inductive IntTy
  | u64
  | i64
  | u32
  | i32
  | u16
  | i16
  | u8
  | i8
  deriving DecidableEq, Repr

def IntTy.size : IntTy → Nat
  | .u64 => 8
  | .i64 => 8
  | .u32 => 4
  | .i32 => 4
  | .u16 => 2
  | .i16 => 2
  | .u8 => 1
  | .i8 => 1

/-- The types themselves. -/
inductive RustType
  | int (t : IntTy)
  | array (elem : RustType) (len : Nat)
  | reference (elem : RustType)
  | other (id : Nat)
  deriving DecidableEq, Repr

/-- A fixed-width integer or an array of one. -/
def RustType.PlainData (ty : RustType) : Prop :=
  ∃ t, ty = .int t ∨ ∃ n, ty = .array (.int t) n

/-- The size of a value, of types whose layout is known. -/
def RustType.size : RustType → Option Nat
  | .int t => some t.size
  | .array elem len => elem.size.map (len * ·)
  | _ => none

/-- The bytes are a value of the type. Every bit pattern is an integer, the elements of an array
follow each other, and `foreign` says what is a value of any other type. -/
def RustType.Valid (foreign : RustType → List UInt8 → Prop) : RustType → List UInt8 → Prop
  | .int t, bytes => bytes.length = t.size
  | .array elem len, bytes =>
      ∃ elems : List (List UInt8), elems.length = len ∧ elems.flatten = bytes ∧
        ∀ e ∈ elems, elem.Valid foreign e
  | ty, bytes => foreign ty bytes

/-- The type an array or a reference is of, in the end. -/
def SynType.base : SynType → SynType
  | .array elem _ => elem.base
  | .reference elem => elem.base
  | ty => ty

/-- **The check of a field is a check of its base, and an error is at the base.** -/
theorem fieldTypeCheck_eq (ty : SynType) :
    fieldTypeCheck ty =
      match ty.base with
      | .path p =>
          if typeChecking p then .ok ()
          else .error ⟨.path p, "All fields must be numeric type"⟩
      | base => .error ⟨base, "All fields must be validate type"⟩ := by
  induction ty with
  | path | other => rfl
  | array elem len ih => exact ih
  | reference elem ih => exact ih

/-! ## The bounds -/

/-- Bytes of the right number fall into `len` pieces of equal size. -/
theorem exists_pieces {size : Nat} : ∀ {len : Nat} {bytes : List UInt8},
    bytes.length = len * size →
    ∃ elems : List (List UInt8), elems.length = len ∧ elems.flatten = bytes ∧
      ∀ e ∈ elems, e.length = size
  | 0, bytes, h => by
      have hnil : bytes = [] := List.length_eq_zero_iff.mp (by rw [h, Nat.zero_mul])
      exact ⟨[], rfl, hnil.symm, by simp⟩
  | len + 1, bytes, h => by
      rw [Nat.succ_mul] at h
      have hrest : (bytes.drop size).length = len * size := by
        rw [List.length_drop]
        omega
      obtain ⟨elems, hlen, hflat, hsize⟩ := exists_pieces hrest
      refine ⟨bytes.take size :: elems, by rw [List.length_cons, hlen], ?_, ?_⟩
      · rw [List.flatten_cons, hflat, List.take_append_drop]
      · refine List.forall_mem_cons.mpr ⟨?_, hsize⟩
        rw [List.length_take]
        omega

/-- **Any bytes are a value of plain data.** -/
theorem RustType.PlainData.valid {ty : RustType} (h : ty.PlainData)
    (foreign : RustType → List UInt8 → Prop) {bytes : List UInt8}
    (hsize : ty.size = some bytes.length) : ty.Valid foreign bytes := by
  obtain ⟨t, rfl | ⟨n, rfl⟩⟩ := h
  · exact (Option.some.inj hsize).symm
  · exact exists_pieces (Option.some.inj hsize).symm

end KernelDev.Runtime
