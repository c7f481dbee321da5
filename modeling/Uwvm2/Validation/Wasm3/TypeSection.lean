import Mathlib

/-!
# Decoded type sections

The records of `recursive_type.h` that the binary decoder fills. Enumerations are
C++ enumerations over `unsigned`, so a record may hold a number that is not one of
the enumerators; `beyond n` is the `n`-th such number.
-/

namespace Uwvm2.Validation.Wasm3

def toU64 (n : Int) : Nat := if 0 ≤ n then n.toNat else (2 ^ 64 + n).toNat

inductive AbstractHeapType
  | noexn
  | nofunc
  | noextern_
  | none
  | func
  | extern_
  | any
  | eq
  | i31
  | struct_
  | array
  | exn
  deriving DecidableEq, Repr

def AbstractHeapType.code : AbstractHeapType → Int
  | .noexn => -12
  | .nofunc => -13
  | .noextern_ => -14
  | .none => -15
  | .func => -16
  | .extern_ => -17
  | .any => -18
  | .eq => -19
  | .i31 => -20
  | .struct_ => -21
  | .array => -22
  | .exn => -23

def AbstractHeapType.all : List AbstractHeapType :=
  [.noexn, .nofunc, .noextern_, .none, .func, .extern_, .any, .eq, .i31, .struct_, .array, .exn]

def AbstractHeapType.ofCode? (code : Int) : Option AbstractHeapType :=
  all.find? fun a => a.code = code

/-- A negative code is an abstract heap type, a nonnegative one a type index. -/
structure HeapType where
  code : Int := AbstractHeapType.func.code
  deriving DecidableEq, Repr

/-- Only the validator uses this code: no binary can hold it. -/
def HeapType.bottomCode : Int := -0x100000001

def HeapType.isDefined (heap : HeapType) : Bool := 0 ≤ heap.code

def HeapType.defined (index : Nat) : HeapType := ⟨index⟩

inductive ValueKind
  | i32
  | i64
  | f32
  | f64
  | v128
  | reference
  | beyond (n : Nat)
  deriving DecidableEq, Repr

def ValueKind.toNat : ValueKind → Nat
  | .i32 => 0
  | .i64 => 1
  | .f32 => 2
  | .f64 => 3
  | .v128 => 4
  | .reference => 5
  | .beyond n => 6 + n

structure CoreValueType where
  kind : ValueKind := .i32
  heap : HeapType := {}
  nullable : Bool := false
  deriving DecidableEq, Repr

inductive PackedKind
  | none
  | i8
  | i16
  | beyond (n : Nat)
  deriving DecidableEq, Repr

def PackedKind.toNat : PackedKind → Nat
  | .none => 0
  | .i8 => 1
  | .i16 => 2
  | .beyond n => 3 + n

structure StorageType where
  value : CoreValueType := {}
  packed : PackedKind := .none
  deriving DecidableEq, Repr

structure FieldType where
  storage : StorageType := {}
  mutable_ : Bool := false
  deriving DecidableEq, Repr

inductive CompositeKind
  | function
  | struct_
  | array
  | beyond (n : Nat)
  deriving DecidableEq, Repr

def CompositeKind.toNat : CompositeKind → Nat
  | .function => 0
  | .struct_ => 1
  | .array => 2
  | .beyond n => 3 + n

structure SubType where
  kind : CompositeKind := .function
  final_ : Bool := true
  binaryOffset : Nat := 0
  supertypes : List Nat := []
  parameters : List CoreValueType := []
  results : List CoreValueType := []
  fields : List FieldType := []
  deriving DecidableEq, Repr, Inhabited

structure RecursiveGroup where
  binaryOffset : Nat := 0
  firstTypeIndex : Nat
  types : List SubType
  deriving DecidableEq, Repr

structure RecursiveTypeSection where
  typeCount : Nat
  groups : List RecursiveGroup
  deriving DecidableEq, Repr

/-- The types of all groups, by type index. -/
def RecursiveTypeSection.definitions (typeSection : RecursiveTypeSection) : List SubType :=
  typeSection.groups.flatMap RecursiveGroup.types

end Uwvm2.Validation.Wasm3
