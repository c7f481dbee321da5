import Uwvm2.Lib.Check
import Uwvm2.Validation.Wasm3.TypeSection

/-!
# The binary reader

The reader of `recursive_type_binary.h`. It moves a position over its input and stops at the
first failure, which it reports with the position. Integers are decoded by a scanner that
is not part of the repository.
-/

namespace Uwvm2.Validation.Wasm3

inductive RecursiveTypeBinaryError
  | ok
  | truncated
  | invalidInteger
  | invalidHeapType
  | invalidValueType
  | invalidCompositeType
  | invalidMutability
  | impossibleCount
  | trailingBytes
  deriving DecidableEq, Repr

structure RecursiveTypeBinaryResult where
  error : RecursiveTypeBinaryError := .ok
  errorOffset : Nat := 0
  deriving DecidableEq, Repr

/-- The codes of the scanner that the reader tells apart. -/
inductive ParseCode
  | ok
  | overflow
  | other
  deriving DecidableEq, Repr

/-- What the scanner makes of some bytes; `length` of them are behind it. -/
structure Scanned (α : Type) where
  code : ParseCode
  value : α
  length : Nat

/-- `parse_by_scan` with `leb128_get`, for the two carriers. -/
structure LebScanner where
  u32 : List UInt8 → Scanned Nat
  i64 : List UInt8 → Scanned Int

structure Reader (ε : Type) where
  input : List UInt8
  leb : LebScanner
  wrap : RecursiveTypeBinaryResult → ε

abbrev Read (ε α : Type) := StateT Nat (Except ε) α

def abstractHeap (byte : UInt8) : Bool := 0x69 ≤ byte && byte ≤ 0x74

namespace Reader

variable {ε α σ : Type} (r : Reader ε)

def fail (error : RecursiveTypeBinaryError) : Read ε α := do throw (r.wrap ⟨error, ← get⟩)

def peek : Read ε UInt8 := do
  match r.input[← get]? with
  | none => r.fail .truncated
  | some byte => pure byte

def byte : Read ε UInt8 := do
  let value ← r.peek
  modify (· + 1)
  pure value

/-- Both carriers occupy at most five bytes. -/
def integer (scan : List UInt8 → Scanned α) : Read ε α := do
  let position ← get
  if position = r.input.length then r.fail .truncated
  else
    let count := min (r.input.length - position) 5
    let decoded := scan ((r.input.drop position).take count)
    set (position + decoded.length)
    if decoded.code = .ok then pure decoded.value
    else r.fail (if decoded.code = .overflow ∨ count = 5 then .invalidInteger else .truncated)

def u32 : Read ε Nat := do
  let decoded ← r.integer r.leb.u32
  if decoded > 0xffffffff then r.fail .invalidInteger else pure decoded

def s33 : Read ε Int := do
  let decoded ← r.integer r.leb.i64
  if decoded < -0x100000000 ∨ decoded > 0xffffffff then r.fail .invalidInteger else pure decoded

/-- Abstract heap types are single bytes. -/
def heap : Read ε HeapType := do
  let first ← r.peek
  if abstractHeap first then
    let _ ← r.byte
    pure ⟨first.toNat - 128⟩
  else
    let index ← r.s33
    if index < 0 then r.fail .invalidHeapType else pure ⟨index⟩

def value : Read ε CoreValueType := do
  let first ← r.byte
  match first with
  | 0x7f => pure { kind := .i32 }
  | 0x7e => pure { kind := .i64 }
  | 0x7d => pure { kind := .f32 }
  | 0x7c => pure { kind := .f64 }
  | 0x7b => pure { kind := .v128 }
  | 0x63 => do pure { kind := .reference, nullable := true, heap := ← r.heap }
  | 0x64 => do pure { kind := .reference, nullable := false, heap := ← r.heap }
  | _ =>
    if abstractHeap first then
      pure { kind := .reference, nullable := true, heap := ⟨first.toNat - 128⟩ }
    else r.fail .invalidValueType

def items (read : σ → Read ε (α × σ)) : Nat → σ → Read ε (List α × σ)
  | 0, s => pure ([], s)
  | count + 1, s => do
    let (item, s) ← read s
    let (rest, s) ← items read count s
    pure (item :: rest, s)

/-- A list of elements of `size` bytes in memory and at least `minimumBytes` in the input. -/
def listFrom (minimumBytes size : Nat) (read : σ → Read ε (α × σ)) (s : σ) :
    Read ε (List α × σ) := do
  let count ← r.u32
  let position ← get
  if count > (r.input.length - position) / minimumBytes ∨ count > (2 ^ 63 - 1) / size then
    r.fail .impossibleCount
  else items read count s

end Reader

theorem read_bind_ok {ε α β : Type} {x : Read ε α} {f : α → Read ε β} {b : β} :
    (x >>= f) position = .ok (b, position') ↔
      ∃ a middle, x position = .ok (a, middle) ∧ f a middle = .ok (b, position') := by
  show (x position >>= fun r => f r.1 r.2) = _ ↔ _
  rw [bind_ok, Prod.exists]

end Uwvm2.Validation.Wasm3
