import Uwvm2.Validation.Wasm1.Validator

/-!
# The control flow of the wasm1p1 function-body validator

`validateCode` of the wasm1p1 feature set on control instructions, constants and
numeric instructions, as the source computes it. Blocks take any number of
operands and leave any number of results. What the switch does with any other
opcode is a parameter about which nothing is assumed.

Opcodes, their numeric arms, the integer reader and the frame kinds are those of
the WebAssembly 1.0 validator.
-/

namespace Uwvm2.Validation.Wasm1p1

open Wasm1 (Arm BlockType LebReader ParseCode Wasm1Code plusOne sizeMax toU32)

inductive ValueType
  | i32
  | i64
  | f32
  | f64
  | v128
  | funcref
  | externref
  deriving DecidableEq, Repr

def ValueType.ofMvp : Wasm1.ValueType → ValueType
  | .i32 => .i32
  | .i64 => .i64
  | .f32 => .f32
  | .f64 => .f64

structure FunctionType where
  parameter : List ValueType
  result : List ValueType
  deriving DecidableEq, Repr, Inhabited

/-- The sections of a module as far as control flow uses them. -/
structure ModuleStorage where
  importFuncCount : Nat
  types : List FunctionType
  funcs : List Nat
  deriving Repr

/-- What parsing guarantees: type indices are in range and the lists of a function
type have 32-bit lengths. -/
structure ParsedModule extends ModuleStorage where
  funcs_lt : ∀ i ∈ funcs, i < types.length
  types_fit : ∀ t ∈ types, t.parameter.length < 2 ^ 32 ∧ t.result.length < 2 ^ 32

-- Features

inductive WasmFeatureCliMode
  | unspecified
  | directWasmmvp
  | directWasm1p1
  | directWasm2
  | scoped
  deriving DecidableEq, Repr

structure FeatureParameter where
  cliMode : WasmFeatureCliMode := .unspecified
  disableMultiValue : Bool := false
  disableReferenceTypes : Bool := false
  disableSignExtension : Bool := false
  disableNontrappingFloatToInt : Bool := false
  disableSimd : Bool := false
  controllableAllowMultiResultVector : Bool := false
  deriving DecidableEq, Repr

def usesMvpValidationRules (parameter : FeatureParameter) : Bool :=
  parameter.cliMode = .directWasmmvp

def valueTypeEnabled (para : FeatureParameter) : ValueType → Bool
  | .i32 | .i64 | .f32 | .f64 => true
  | .v128 => !para.disableSimd
  | .funcref | .externref => !para.disableReferenceTypes

inductive FeatureKind
  | multiValue
  | referenceTypes
  | signExtension
  | nontrappingFloatToInt
  | simd
  deriving DecidableEq, Repr

def ValueType.code : ValueType → UInt8
  | .i32 => 0x7F
  | .i64 => 0x7E
  | .f32 => 0x7D
  | .f64 => 0x7C
  | .v128 => 0x7B
  | .funcref => 0x70
  | .externref => 0x6F

-- Errors, state and environment

/-- Error codes with the details each one selects. A type detail is `none` where
the source reports a value-initialised type. A required feature is always reported
with an instruction as its subject. -/
inductive ErrorCode
  | notLocalFunction (functionIndex : Nat)
  | invalidFunctionIndex (functionIndex allFunctionSize : Nat)
  | missingEnd
  | illegalOpbase (u8 : UInt8)
  | missingBlockType
  | illegalBlockType (u8 : UInt8)
  | illegalTypeIndex (typeIndex allTypeCount : Nat)
  | featureRequired (value : Nat) (feature : FeatureKind)
  | operandStackUnderflow (opCodeName : String) (stackSizeActual stackSizeRequired : Nat)
  | ifCondTypeNotI32 (condType : Option ValueType)
  | illegalElse
  | ifThenResultMismatch (expectedCount actualCount : Nat)
      (expectedType actualType : Option ValueType)
  | ifMissingElse (expectedCount : Nat) (expectedType : Option ValueType)
  | endResultMismatch (blockKind : String) (expectedCount actualCount : Nat)
      (expectedType actualType : Option ValueType)
  | trailingCodeAfterEnd
  | invalidLabelIndex
  | illegalLabelIndex (labelIndex allLabelCount : Nat)
  | brValueTypeMismatch (opCodeName : String) (expectedType actualType : Option ValueType)
  | brCondTypeNotI32 (opCodeName : String) (condType : Option ValueType)
  | brTableTargetCountExceedsRemainingBytes (targetCount remainingBytes maxTargetCount : Nat)
  | brTableTargetTypeMismatch (expectedLabelIndex mismatchedLabelIndex expectedArity
      actualArity : Nat) (expectedType actualType : Option ValueType)
  | invalidConstImmediate (opCodeName : String)
  | numericOperandTypeMismatch (opCodeName : String) (expectedType actualType : Option ValueType)
  deriving DecidableEq, Repr

structure CodeValidationError where
  errCurr : Nat
  errCode : ErrorCode
  parseCode : ParseCode
  deriving DecidableEq, Repr

abbrev Result (α : Type) := Except CodeValidationError α

/-- An entry of the operand stack; `none` has its unknown flag set, which only arms
outside this model do. -/
abbrev Operand := Option ValueType

structure Block where
  label : List ValueType
  start : List ValueType
  result : List ValueType
  operandStackBase : Nat
  type : BlockType
  polymorphicBase : Bool
  deriving DecidableEq, Repr

structure State where
  codeCurr : List UInt8
  controlFlowStack : List Block
  operandStack : List Operand
  isPolymorphic : Bool
  deriving DecidableEq, Repr

/-- What stays fixed while one body is validated. `otherArm` stands for the arms of the
switch that are not modelled; it gets the input at the opcode and the state after it. -/
structure Env where
  leb : LebReader
  para : FeatureParameter
  types : List FunctionType
  codeSize : Nat
  otherArm : List UInt8 → State → Result (Option State)

def errorWith (pc : ParseCode) (env : Env) (opBegin : List UInt8) (code : ErrorCode) :
    CodeValidationError :=
  ⟨env.codeSize - opBegin.length, code, pc⟩

def errorAt : Env → List UInt8 → ErrorCode → CodeValidationError := errorWith .invalid

def readImm (read : List UInt8 → Except ParseCode (α × List UInt8)) (env : Env)
    (opBegin : List UInt8) (code : ErrorCode) (st : State) : Result (α × State) :=
  match read st.codeCurr with
  | .ok (x, next) => .ok (x, { st with codeCurr := next })
  | .error pc => .error (errorWith pc env opBegin code)

-- Operand stack helpers

def currFrameOperandStackBase (st : State) : Nat :=
  match st.controlFlowStack with
  | [] => 0
  | frame :: _ => frame.operandStackBase

def concreteOperandCount (st : State) : Nat :=
  let base := currFrameOperandStackBase st
  if st.operandStack.length ≥ base then st.operandStack.length - base else 0

def pushOperand (t : ValueType) (st : State) : State :=
  { st with operandStack := some t :: st.operandStack }

def pushValueTypes (ts : List ValueType) (st : State) : State :=
  ts.foldl (fun st t => pushOperand t st) st

def popBack (st : State) : State := { st with operandStack := st.operandStack.tail }

def tryPopConcreteOperand (st : State) : Option Operand × State :=
  if concreteOperandCount st = 0 then (none, st) else (st.operandStack.head?, popBack st)

def popAvailableConcreteOperands : Nat → State → State
  | 0, st => st
  | count + 1, st =>
    if concreteOperandCount st = 0 then st
    else popAvailableConcreteOperands count (popBack st)

def truncateTo (base : Nat) (st : State) : State :=
  { st with operandStack := st.operandStack.drop (st.operandStack.length - base) }

def setUnreachable (st : State) : State :=
  { truncateTo (currFrameOperandStackBase st) st with isPolymorphic := true }

def stackEntryTypeMatches (operand : Operand) (expectedType : ValueType) : Bool :=
  operand = none || operand = some expectedType

/-- `none` is an operand that the current frame does not have. -/
def operandTypeMatches (operand : Option Operand) (expectedType : ValueType) : Bool :=
  match operand with
  | none => true
  | some o => stackEntryTypeMatches o expectedType

def ensureOperands (env : Env) (opBegin : List UInt8) (opName : String) (required : Nat)
    (st : State) : Result Unit :=
  ensure (st.isPolymorphic = true ∨ required ≤ concreteOperandCount st)
    (errorAt env opBegin (.operandStackUnderflow opName (concreteOperandCount st) required))

/-- One operand more than `arity`; the requirement saturates. -/
def ensureOperandsPlusOne (env : Env) (opBegin : List UInt8) (opName : String) (arity : Nat)
    (st : State) : Result Unit :=
  ensure (st.isPolymorphic = true ∨ ¬ (arity = sizeMax ∨ concreteOperandCount st < plusOne arity))
    (errorAt env opBegin
      (.operandStackUnderflow opName (concreteOperandCount st) (plusOne arity)))

/-- The loops that compare operands with expected types from the top down, as far as
the current frame has operands. -/
def checkConcrete (fail : ValueType → Operand → CodeValidationError) :
    List ValueType → List Operand → Result Unit
  | t :: ts, o :: os => do
    ensure (stackEntryTypeMatches o t = true) (fail t o)
    checkConcrete fail ts os
  | _, _ => .ok ()

/-- `expected` is in declaration order. -/
def checkConcreteOperands (fail : ValueType → Operand → CodeValidationError)
    (expected : List ValueType) (st : State) : Result Unit :=
  checkConcrete fail expected.reverse (st.operandStack.take (concreteOperandCount st))

def checkArguments (env : Env) (opBegin : List UInt8) (opName : String)
    (expected : List ValueType) (st : State) : Result Unit :=
  checkConcreteOperands (fun t o => errorAt env opBegin (.brValueTypeMismatch opName (some t) o))
    expected st

def popExpectedOperands (env : Env) (opBegin : List UInt8) (opName : String)
    (expected : List ValueType) (st : State) : Result State := do
  ensureOperands env opBegin opName expected.length st
  checkArguments env opBegin opName expected st
  return popAvailableConcreteOperands expected.length st

-- Block types

structure BlockSignature where
  start : List ValueType
  result : List ValueType
  deriving DecidableEq, Repr

variable (env : Env) (opBegin : List UInt8) (st : State)

def ensureValueTypeEnabled (t : ValueType) : Result Unit :=
  ensure (valueTypeEnabled env.para t = true)
    (errorAt env opBegin (.featureRequired t.code.toNat
      (if t = .v128 then .simd else .referenceTypes)))

/-- A block type written as a value type that a feature flag governs. -/
def gatedResult (t : ValueType) : Result BlockSignature := do
  ensureValueTypeEnabled env opBegin t
  return ⟨[], [t]⟩

def indexedSignature (blocktype : Nat) : Result BlockSignature := do
  ensure (¬ (env.para.disableMultiValue = true ∨
      env.para.controllableAllowMultiResultVector = true))
    (errorAt env opBegin (.featureRequired (toU32 blocktype) .multiValue))
  match env.types[blocktype]? with
  | some type => do
    ensure (blocktype < 2 ^ 32)
      (errorAt env opBegin (.illegalTypeIndex (toU32 blocktype) (toU32 env.types.length)))
    return ⟨type.parameter, type.result⟩
  | none => .error (errorAt env opBegin
      (.illegalTypeIndex (toU32 blocktype) (toU32 env.types.length)))

def blockSignature (firstBlocktypeByte : UInt8) (blocktype : Int) : Result BlockSignature :=
  if blocktype = -64 then .ok ⟨[], []⟩
  else if blocktype = -1 then .ok ⟨[], [.i32]⟩
  else if blocktype = -2 then .ok ⟨[], [.i64]⟩
  else if blocktype = -3 then .ok ⟨[], [.f32]⟩
  else if blocktype = -4 then .ok ⟨[], [.f64]⟩
  else if blocktype = -5 then gatedResult env opBegin .v128
  else if blocktype = -16 then gatedResult env opBegin .funcref
  else if blocktype = -17 then gatedResult env opBegin .externref
  else if 0 ≤ blocktype then indexedSignature env opBegin blocktype.toNat
  else .error (errorAt env opBegin (.illegalBlockType firstBlocktypeByte))

/-- The integer is read in 64 bits; an encoding of more than five bytes, or of a
negative number in more than one, is not a block type. -/
def parseBlockType : Result (BlockSignature × State) :=
  match st.codeCurr with
  | [] => .error (errorWith .endOfFile env opBegin .missingBlockType)
  | firstBlocktypeByte :: _ => do
    let (blocktype, next) ← readImm env.leb.i64 env opBegin (.invalidConstImmediate "blocktype") st
    let blocktypeEncodedSize := st.codeCurr.length - next.codeCurr.length
    ensure (¬ (blocktypeEncodedSize > 5 ∨ (blocktype < 0 ∧ blocktypeEncodedSize ≠ 1)))
      (errorAt env opBegin (.illegalBlockType firstBlocktypeByte))
    let signature ← blockSignature env opBegin firstBlocktypeByte blocktype
    return (signature, next)

def pushFrame (type : BlockType) (signature : BlockSignature) (st : State) : State :=
  pushValueTypes signature.start
    { st with
      controlFlowStack :=
        { label := if type = .loop then signature.start else signature.result
          start := signature.start
          result := signature.result
          operandStackBase := st.operandStack.length
          type
          polymorphicBase := st.isPolymorphic } :: st.controlFlowStack
      isPolymorphic := false }

def enterControlFrame (opName : String) (type : BlockType) (signature : BlockSignature)
    (st : State) : Result State := do
  let st ← popExpectedOperands env opBegin opName signature.start st
  return pushFrame type signature st

-- Arms of the switch: blocks
--
-- Each arm starts with the opcode consumed; `opBegin` is the input at the opcode.

def block : Result State := do
  let (signature, st) ← parseBlockType env opBegin st
  enterControlFrame env opBegin "block" .block signature st

def loop : Result State := do
  let (signature, st) ← parseBlockType env opBegin st
  enterControlFrame env opBegin "loop" .loop signature st

def popI32 (code : Option ValueType → ErrorCode) (st : State) : Result State := do
  let (cond, st) := tryPopConcreteOperand st
  ensure (operandTypeMatches cond .i32 = true) (errorAt env opBegin (code cond.join))
  return st

def if_ : Result State := do
  let (signature, st) ← parseBlockType env opBegin st
  ensureOperandsPlusOne env opBegin "if" signature.start.length st
  let st ← popI32 env opBegin .ifCondTypeNotI32 st
  enterControlFrame env opBegin "if" .if_ signature st

def reportedExpected (result : List ValueType) : Option ValueType :=
  if result.length = 1 then result.head? else none

def reportedActual (actualCount : Nat) (st : State) : Option ValueType :=
  if actualCount = 1 then st.operandStack.head?.join else none

/-- The operands at the end of a block are its results, as far as they are known. -/
def checkResults (fail : (expected actual : Option ValueType) → CodeValidationError)
    (result : List ValueType) (st : State) : Result Unit := do
  let actual := concreteOperandCount st
  ensure (if st.isPolymorphic then actual ≤ result.length else actual = result.length)
    (fail (reportedExpected result) (reportedActual actual st))
  checkConcreteOperands (fun t o => fail (some t) o) result st

/-- The alternative starts where the frame started, with its parameters. -/
def enterElse (ifFrame : Block) (rest : List Block) (st : State) : State :=
  { pushValueTypes ifFrame.start (truncateTo ifFrame.operandStackBase st) with
    isPolymorphic := false
    controlFlowStack := { ifFrame with type := .else_ } :: rest }

def else_ : Result State :=
  match st.controlFlowStack with
  | [] => .error (errorAt env opBegin .illegalElse)
  | ifFrame :: rest => do
    ensure (ifFrame.type = .if_) (errorAt env opBegin .illegalElse)
    checkResults (fun expected actual => errorAt env opBegin
      (.ifThenResultMismatch ifFrame.result.length (concreteOperandCount st) expected actual))
      ifFrame.result st
    return enterElse ifFrame rest st

def leaveFrame (frame : Block) (rest : List Block) (st : State) : State :=
  { pushValueTypes frame.result (truncateTo frame.operandStackBase st) with
    isPolymorphic := frame.polymorphicBase
    controlFlowStack := rest }

/-- `none` is the return from the validator at the end of the function frame. -/
def end_ : Result (Option State) :=
  match st.controlFlowStack with
  | [] => .error (errorAt env opBegin (.illegalOpbase 0x0b))
  | frame :: rest => do
    -- a missing alternative is the identity on the parameters
    ensure (¬ (frame.type = .if_ ∧ frame.start ≠ frame.result))
      (errorAt env opBegin (.ifMissingElse frame.result.length (reportedExpected frame.result)))
    checkResults (fun expected actual => errorAt env opBegin
      (.endResultMismatch frame.type.kind frame.result.length (concreteOperandCount st)
        expected actual)) frame.result st
    let st := leaveFrame frame rest st
    if frame.type = .function then do
      ensure (st.codeCurr = []) (errorAt env opBegin .trailingCodeAfterEnd)
      return none
    else return some st

-- Arms of the switch: branches

def checkLabel (labelIndex : Nat) : Result Block :=
  match st.controlFlowStack[labelIndex]? with
  | some frame => .ok frame
  | none => .error (errorAt env opBegin
      (.illegalLabelIndex labelIndex (toU32 st.controlFlowStack.length)))

def br : Result State := do
  let (labelIndex, st) ← readImm env.leb.u32 env opBegin .invalidLabelIndex st
  let targetFrame ← checkLabel env opBegin st labelIndex
  let st ← popExpectedOperands env opBegin "br" targetFrame.label st
  return setUnreachable st

def brIf : Result State := do
  let (labelIndex, st) ← readImm env.leb.u32 env opBegin .invalidLabelIndex st
  let targetFrame ← checkLabel env opBegin st labelIndex
  ensureOperandsPlusOne env opBegin "br_if" targetFrame.label.length st
  let st ← popI32 env opBegin (.brCondTypeNotI32 "br_if") st
  checkArguments env opBegin "br_if" targetFrame.label st
  -- in unreachable code the label's types stand for what is missing or unknown
  if st.isPolymorphic ∧ targetFrame.label ≠ [] then
    return pushValueTypes targetFrame.label (popAvailableConcreteOperands
      (min (concreteOperandCount st) targetFrame.label.length) st)
  else return st

/-- The operand `depth` entries below the top is missing or unknown, so that different
label types may meet in it. -/
def argumentIsBottom (depth : Nat) : Bool :=
  !usesMvpValidationRules env.para && st.isPolymorphic &&
    (concreteOperandCount st ≤ depth || st.operandStack[depth]? = some none)

/-- The first position, of those in both lists, at which the types differ and cannot
meet. The selector is still on top of the operand stack. -/
def firstMismatch (arity : Nat) : Nat → List ValueType → List ValueType →
    Option (ValueType × ValueType)
  | i, e :: es, a :: as =>
    if e ≠ a ∧ argumentIsBottom env st (arity - i) = false then some (e, a)
    else firstMismatch arity (i + 1) es as
  | _, _, _ => none

def checkBrTableSig (expectedLabel : Nat) (expected : List ValueType) (li : Nat)
    (actual : List ValueType) : Result Unit :=
  let mismatch := firstMismatch env st expected.length 0 expected actual
  let reported := mismatch.elim (expected.head?, actual.head?) fun (e, a) => (some e, some a)
  ensure (expected.length = actual.length ∧ mismatch = none)
    (errorAt env opBegin (.brTableTargetTypeMismatch expectedLabel li (toU32 expected.length)
      (toU32 actual.length) reported.1 reported.2))

def brTableTarget (first : Option (Nat × List ValueType)) (st : State) :
    Result ((Nat × List ValueType) × State) := do
  let (li, st) ← readImm env.leb.u32 env opBegin .invalidLabelIndex st
  let frame ← checkLabel env opBegin st li
  match first with
  | none => return ((li, frame.label), st)
  | some (expectedLabel, expected) => do
    checkBrTableSig env opBegin st expectedLabel expected li frame.label
    return ((expectedLabel, expected), st)

def brTableTargets : Nat → Option (Nat × List ValueType) → State →
    Result (Option (Nat × List ValueType) × State)
  | 0, first, st => .ok (first, st)
  | n + 1, first, st => do
    let (first, st) ← brTableTarget env opBegin first st
    brTableTargets n (some first) st

def brTable : Result State := do
  let (targetCount, st) ← readImm env.leb.u32 env opBegin .invalidLabelIndex st
  let remainingBytes := st.codeCurr.length
  ensure (¬ (targetCount = sizeMax ∨ remainingBytes = 0 ∨ targetCount ≥ remainingBytes))
    (errorAt env opBegin (.brTableTargetCountExceedsRemainingBytes targetCount remainingBytes
      (remainingBytes - 1)))
  let (first, st) ← brTableTargets env opBegin targetCount none st
  let ((_, expected), st) ← brTableTarget env opBegin first st
  ensureOperandsPlusOne env opBegin "br_table" expected.length st
  let st ← popI32 env opBegin (.brCondTypeNotI32 "br_table") st
  checkArguments env opBegin "br_table" expected st
  return setUnreachable (popAvailableConcreteOperands expected.length st)

def return_ : Result State := do
  let result := (st.controlFlowStack.getLast?.map Block.result).getD []
  let st ← popExpectedOperands env opBegin "return" result st
  return setUnreachable st

-- Arms of the switch: numeric instructions

def i32Const : Result State := do
  let (_, st) ← readImm env.leb.i32 env opBegin (.invalidConstImmediate "i32.const") st
  return pushOperand .i32 st

def i64Const : Result State := do
  let (_, st) ← readImm env.leb.i64 env opBegin (.invalidConstImmediate "i64.const") st
  return pushOperand .i64 st

def floatConst (opName : String) (size : Nat) (t : ValueType) : Result State := do
  ensure (size ≤ st.codeCurr.length)
    (errorWith .endOfFile env opBegin (.invalidConstImmediate opName))
  return pushOperand t { st with codeCurr := st.codeCurr.drop size }

def f32Const : Result State := floatConst env opBegin st "f32.const" 4 .f32

def f64Const : Result State := floatConst env opBegin st "f64.const" 8 .f64

def popNumeric (opName : String) (t : ValueType) (st : State) : Result State := do
  let (operand, st) := tryPopConcreteOperand st
  ensure (operandTypeMatches operand t = true)
    (errorAt env opBegin (.numericOperandTypeMismatch opName (some t) operand.join))
  return st

def validateNumericUnary (opName : String) (expectedOperandType resultType : ValueType)
    (st : State) : Result State := do
  ensureOperands env opBegin opName 1 st
  let st ← popNumeric env opBegin opName expectedOperandType st
  return pushOperand resultType st

def validateNumericBinary (opName : String) (expectedOperandType resultType : ValueType) :
    Result State := do
  ensureOperands env opBegin opName 2 st
  let st ← popNumeric env opBegin opName expectedOperandType st
  let st ← popNumeric env opBegin opName expectedOperandType st
  return pushOperand resultType st

def signExtension : UInt8 → Option (String × ValueType)
  | 0xC0 => some ("i32.extend8_s", .i32)
  | 0xC1 => some ("i32.extend16_s", .i32)
  | 0xC2 => some ("i64.extend8_s", .i64)
  | 0xC3 => some ("i64.extend16_s", .i64)
  | 0xC4 => some ("i64.extend32_s", .i64)
  | _ => none

def extend (opcode : UInt8) (opName : String) (t : ValueType) : Result State := do
  ensure (env.para.disableSignExtension = false)
    (errorAt env opBegin (.featureRequired opcode.toNat .signExtension))
  validateNumericUnary env opBegin opName t t st

/-- The saturating truncations behind the numeric prefix, with operand and result type. -/
def truncSat : Nat → Option (String × ValueType × ValueType)
  | 0 => some ("i32.trunc_sat_f32_s", .f32, .i32)
  | 1 => some ("i32.trunc_sat_f32_u", .f32, .i32)
  | 2 => some ("i32.trunc_sat_f64_s", .f64, .i32)
  | 3 => some ("i32.trunc_sat_f64_u", .f64, .i32)
  | 4 => some ("i64.trunc_sat_f32_s", .f32, .i64)
  | 5 => some ("i64.trunc_sat_f32_u", .f32, .i64)
  | 6 => some ("i64.trunc_sat_f64_s", .f64, .i64)
  | 7 => some ("i64.trunc_sat_f64_u", .f64, .i64)
  | _ => none

-- The loop

/-- The arm ends with `break`: the loop goes on. -/
def continues (r : Result State) : Result (Option State) := some <$> r

def numericPrefix : Result (Option State) := do
  let (subopcode, next) ← readImm env.leb.u32 env opBegin
    (.invalidConstImmediate "numeric_prefix") st
  match truncSat subopcode with
  | some (opName, t, r) => do
    ensure (env.para.disableNontrappingFloatToInt = false)
      (errorAt env opBegin (.featureRequired subopcode .nontrappingFloatToInt))
    continues (validateNumericUnary env opBegin opName t r next)
  | none => env.otherArm opBegin st

def runArm : Arm → Result (Option State)
  | .unreachable => continues (.ok (setUnreachable st))
  | .nop => continues (.ok st)
  | .block => continues (block env opBegin st)
  | .loop => continues (loop env opBegin st)
  | .if_ => continues (if_ env opBegin st)
  | .else_ => continues (else_ env opBegin st)
  | .end_ => end_ env opBegin st
  | .br => continues (br env opBegin st)
  | .brIf => continues (brIf env opBegin st)
  | .brTable => continues (brTable env opBegin st)
  | .return_ => continues (return_ env opBegin st)
  | .i32Const => continues (i32Const env opBegin st)
  | .i64Const => continues (i64Const env opBegin st)
  | .f32Const => continues (f32Const env opBegin st)
  | .f64Const => continues (f64Const env opBegin st)
  | .validateNumericUnary n t r =>
    continues (validateNumericUnary env opBegin n (.ofMvp t) (.ofMvp r) st)
  | .validateNumericBinary n t r =>
    continues (validateNumericBinary env opBegin st n (.ofMvp t) (.ofMvp r))
  | _ => env.otherArm opBegin st

def step : Result (Option State) :=
  match st.codeCurr with
  | [] => .error (errorAt env [] .missingEnd)
  | b :: rest =>
    let st := { st with codeCurr := rest }
    match Wasm1Code.ofByte? b with
    | some op => runArm env (b :: rest) st op.arm
    | none =>
      match signExtension b with
      | some (opName, t) => continues (extend env (b :: rest) st b opName t)
      | none =>
        if b = 0xFC then numericPrefix env (b :: rest) st else env.otherArm (b :: rest) st

def initialState (funcType : FunctionType) (code : List UInt8) : State :=
  ⟨code, [⟨funcType.result, [], funcType.result, 0, .function, false⟩], [], false⟩

/-- Validate the body of function `functionIndex`. Every round consumes its opcode, so
the loop is bounded by the number of bytes. -/
def validateCode (leb : LebReader) (otherArm : List UInt8 → State → Result (Option State))
    (m : ModuleStorage) (functionIndex : Nat) (code : List UInt8) (para : FeatureParameter) :
    Result Unit := do
  ensure (m.importFuncCount ≤ functionIndex) ⟨0, .notLocalFunction functionIndex, .invalid⟩
  let localFuncIdx := functionIndex - m.importFuncCount
  ensure (localFuncIdx < m.funcs.length)
    ⟨0, .invalidFunctionIndex functionIndex (m.importFuncCount + m.funcs.length), .invalid⟩
  let currFuncType := m.types.getD (m.funcs.getD localFuncIdx 0) default
  let env : Env := ⟨leb, para, m.types, code.length, otherArm⟩
  StackTyping.loop (step env) (errorAt env [] .missingEnd) (code.length + 1)
    (initialState currFuncType code)

end Uwvm2.Validation.Wasm1p1
