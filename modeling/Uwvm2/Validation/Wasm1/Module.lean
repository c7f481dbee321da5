import Uwvm2.Lib.Leb128

/-!
# What the WebAssembly 1.0 validator reads and reports

The parts of a parsed module that function-body validation looks at, the
third-party LEB128 reader it calls, and its error values.
-/

namespace Uwvm2.Validation.Wasm1

open Leb128

inductive ValueType
  | i32
  | i64
  | f32
  | f64
  deriving DecidableEq, Repr

structure FunctionType where
  parameter : List ValueType
  result : List ValueType
  deriving DecidableEq, Repr, Inhabited

structure GlobalType where
  type : ValueType
  isMutable : Bool
  deriving DecidableEq, Repr

structure LocalEntry where
  count : Nat
  type : ValueType
  deriving DecidableEq, Repr

/-- The sections of a module as far as the validator uses them. Tables and
memories enter only by their number. -/
structure ModuleStorage where
  importedFunctions : List FunctionType
  importedTableCount : Nat
  importedMemoryCount : Nat
  importedGlobals : List GlobalType
  types : List FunctionType
  funcs : List Nat
  tableCount : Nat
  memoryCount : Nat
  localGlobals : List GlobalType
  codes : List (List LocalEntry)
  deriving Repr

/-- What parsing guarantees of a module and the validator relies on without
checking: type indices in range, one code entry per function, and counts that
fit the 32-bit integers they are kept in. -/
structure ParsedModule extends ModuleStorage where
  funcs_lt : ∀ i ∈ funcs, i < types.length
  codes_length : codes.length = funcs.length
  parameters_fit : ∀ t ∈ types ++ importedFunctions, t.parameter.length < 2 ^ 32
  locals_fit : ∀ (i j : Nat) (locals : List LocalEntry) (t : FunctionType),
    funcs[i]? = some j → types[j]? = some t → codes[i]? = some locals →
    t.parameter.length + (locals.map LocalEntry.count).sum < 2 ^ 32
  globals_fit : importedGlobals.length + localGlobals.length < 2 ^ 32
  tables_fit : importedTableCount + tableCount < 2 ^ 32
  memories_fit : importedMemoryCount + memoryCount < 2 ^ 32

def ModuleStorage.SingleResult (m : ModuleStorage) : Prop :=
  ∀ t ∈ m.types ++ m.importedFunctions, t.result.length ≤ 1

inductive ParseCode
  | endOfFile
  | incomplete
  | invalid
  | overflow
  deriving DecidableEq, Repr

def ParseCode.ofLeb : Failure → ParseCode
  | .endOfInput => .endOfFile
  | .overflow => .overflow

structure LebReader where
  u32 : List UInt8 → Except ParseCode (Nat × List UInt8)
  i32 : List UInt8 → Except ParseCode (Int × List UInt8)
  i64 : List UInt8 → Except ParseCode (Int × List UInt8)

/-- The documented behaviour of the reader: it takes one LEB128 integer of the
given width off the front of its input, and fails if there is none. -/
structure LebReader.Correct (r : LebReader) : Prop where
  u32 : Reads (Unsigned 32) r.u32
  i32 : Reads (Signed 32) r.i32
  i64 : Reads (Signed 64) r.i64

def LebReader.reference : LebReader where
  u32 bs := (readUnsigned 32 bs).mapError ParseCode.ofLeb
  i32 bs := (readSigned 32 bs).mapError ParseCode.ofLeb
  i64 bs := (readSigned 64 bs).mapError ParseCode.ofLeb

theorem LebReader.reference_correct : LebReader.reference.Correct where
  u32 := (readUnsigned_reads 32).mapError
  i32 := (readSigned_reads 32).mapError
  i64 := (readSigned_reads 64).mapError

/-- Error codes with the details each one selects. A type detail is `none` where
the source reports a value-initialised type. -/
inductive ErrorCode
  | notLocalFunction (functionIndex : Nat)
  | invalidFunctionIndex (functionIndex allFunctionSize : Nat)
  | missingEnd
  | illegalOpbase (u8 : UInt8)
  | missingBlockType
  | illegalBlockType (u8 : UInt8)
  | operandStackUnderflow (opCodeName : String) (stackSizeActual stackSizeRequired : Nat)
  | ifCondTypeNotI32 (condType : Option ValueType)
  | illegalElse
  | ifThenResultMismatch (expectedCount actualCount : Nat)
      (expectedType actualType : Option ValueType)
  | ifMissingElse (expectedCount : Nat) (expectedType : Option ValueType)
  | endResultMismatch (blockKind : String) (expectedCount actualCount : Nat)
      (expectedType actualType : Option ValueType)
  | trailingCodeAfterEnd
  | invalidLabelIndex
  | illegalLabelIndex (labelIndex allLabelCount : Nat)
  | brValueTypeMismatch (opCodeName : String) (expectedType actualType : Option ValueType)
  | brCondTypeNotI32 (opCodeName : String) (condType : Option ValueType)
  | brTableTargetCountExceedsRemainingBytes (targetCount remainingBytes maxTargetCount : Nat)
  | brTableTargetTypeMismatch (expectedLabelIndex mismatchedLabelIndex expectedArity
      actualArity : Nat) (expectedType actualType : Option ValueType)
  | invalidFunctionIndexEncoding
  | invalidTypeIndex
  | invalidTableIndex
  | illegalTypeIndex (typeIndex allTypeCount : Nat)
  | illegalTableIndex (tableIndex allTableCount : Nat)
  | selectCondTypeNotI32 (condType : Option ValueType)
  | selectTypeMismatch (typeV1 typeV2 : Option ValueType)
  | invalidLocalIndex
  | illegalLocalIndex (localIndex allLocalCount : Nat)
  | localSetTypeMismatch (localIndex : Nat) (expectedType actualType : Option ValueType)
  | localTeeTypeMismatch (localIndex : Nat) (expectedType actualType : Option ValueType)
  | invalidGlobalIndex
  | illegalGlobalIndex (globalIndex allGlobalCount : Nat)
  | immutableGlobalSet (globalIndex : Nat)
  | globalSetTypeMismatch (globalIndex : Nat) (expectedType actualType : Option ValueType)
  | invalidMemargAlign
  | invalidMemargOffset
  | noMemory (opCodeName : String) (align offset : Nat)
  | illegalMemargAlignment (opCodeName : String) (align maxAlign : Nat)
  | memargAddressTypeNotI32 (opCodeName : String) (addrType : Option ValueType)
  | storeValueTypeMismatch (opCodeName : String) (expectedType actualType : Option ValueType)
  | invalidMemoryIndex
  | illegalMemoryIndex (memoryIndex allMemoryCount : Nat)
  | memoryGrowDeltaTypeNotI32 (deltaType : Option ValueType)
  | invalidConstImmediate (opCodeName : String)
  | numericOperandTypeMismatch (opCodeName : String) (expectedType actualType : Option ValueType)
  deriving DecidableEq, Repr

/-- `errCurr` is the offset of the offending instruction in the body. -/
structure CodeValidationError where
  errCurr : Nat
  errCode : ErrorCode
  parseCode : ParseCode
  deriving DecidableEq, Repr

end Uwvm2.Validation.Wasm1
