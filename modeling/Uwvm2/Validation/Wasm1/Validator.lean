import Uwvm2.Lib.StructuredBinary
import Uwvm2.Validation.Wasm1.Opcode

/-!
# The WebAssembly 1.0 function-body validator

`validateCode` as the source computes it: one round of the loop reads an opcode
and runs the arm of the switch for it on the control-flow stack, the operand
stack and the polymorphic flag. Both stacks are lists with the top first. The
unread input is the list of bytes from `code_curr` to `code_end`.
-/

namespace Uwvm2.Validation.Wasm1

/-- An entry of the operand stack. The source keeps a type and an unknown flag and
pushes only known types and, in polymorphic `select`, a value-initialised type
with the flag set; the latter is `none`, which equals no value type. -/
abbrev Operand := Option ValueType

inductive BlockType
  | function
  | block
  | loop
  | if_
  | else_
  deriving DecidableEq, Repr

structure Block where
  result : List ValueType
  operandStackBase : Nat
  type : BlockType
  polymorphicBase : Bool
  deriving DecidableEq, Repr

structure State where
  codeCurr : List UInt8
  controlFlowStack : List Block
  operandStack : List Operand
  isPolymorphic : Bool
  deriving DecidableEq, Repr

/-- What stays fixed while one body is validated. -/
structure Env where
  leb : LebReader
  module : ModuleStorage
  currFuncType : FunctionType
  currCodeLocals : List LocalEntry
  codeSize : Nat

def Env.ofFunction (leb : LebReader) (m : ModuleStorage) (localFuncIdx codeSize : Nat) : Env where
  leb
  module := m
  currFuncType := m.types.getD (m.funcs.getD localFuncIdx 0) default
  currCodeLocals := m.codes.getD localFuncIdx []
  codeSize

def toU32 (n : Nat) : Nat := n % 2 ^ 32

def sizeMax : Nat := 2 ^ 64 - 1

namespace Env

variable (env : Env)

def importFuncCount : Nat := env.module.importedFunctions.length
def localFuncCount : Nat := env.module.funcs.length
def funcParameterCount : Nat := toU32 env.currFuncType.parameter.length

def allLocalCount : Nat :=
  env.currCodeLocals.foldl (fun n part => toU32 (n + part.count)) env.funcParameterCount

def importedGlobalCount : Nat := toU32 env.module.importedGlobals.length
def allGlobalCount : Nat := toU32 (env.importedGlobalCount + toU32 env.module.localGlobals.length)
def allTableCount : Nat :=
  toU32 (toU32 env.module.importedTableCount + toU32 env.module.tableCount)
def allMemoryCount : Nat :=
  toU32 (toU32 env.module.importedMemoryCount + toU32 env.module.memoryCount)

def localFuncType (i : Nat) : FunctionType :=
  env.module.types.getD (env.module.funcs.getD i 0) default

end Env

abbrev Result (α : Type) := Except CodeValidationError α

/-- Errors are reported at the opcode, given by the bytes unread before it. -/
def errorWith (pc : ParseCode) (env : Env) (opBegin : List UInt8) (code : ErrorCode) :
    CodeValidationError :=
  ⟨env.codeSize - opBegin.length, code, pc⟩

def errorAt : Env → List UInt8 → ErrorCode → CodeValidationError := errorWith .invalid

def readImm (read : List UInt8 → Except ParseCode (α × List UInt8)) (env : Env)
    (opBegin : List UInt8) (code : ErrorCode) (st : State) : Result (α × State) :=
  match read st.codeCurr with
  | .ok (x, next) => .ok (x, { st with codeCurr := next })
  | .error pc => .error (errorWith pc env opBegin code)

-- Operand stack helpers

def currFrameOperandStackBase (st : State) : Nat :=
  match st.controlFlowStack with
  | [] => 0
  | frame :: _ => frame.operandStackBase

def concreteOperandCount (st : State) : Nat :=
  let base := currFrameOperandStackBase st
  if st.operandStack.length ≥ base then st.operandStack.length - base else 0

def pushOperand (t : ValueType) (st : State) : State :=
  { st with operandStack := some t :: st.operandStack }

def pushUnknownOperand (st : State) : State :=
  { st with operandStack := none :: st.operandStack }

def pushOperands (ts : List ValueType) (st : State) : State :=
  ts.foldl (fun st t => pushOperand t st) st

def popBack (st : State) : State := { st with operandStack := st.operandStack.tail }

def replaceTop (t : ValueType) (st : State) : State :=
  { st with operandStack := some t :: st.operandStack.tail }

/-- The popped operand, or nothing when the current frame has none left. -/
def tryPopConcreteOperand (st : State) : Option Operand × State :=
  if concreteOperandCount st = 0 then (none, st) else (st.operandStack.head?, popBack st)

def popAvailableConcreteOperands : Nat → State → State
  | 0, st => st
  | count + 1, st =>
    if concreteOperandCount st = 0 then st
    else popAvailableConcreteOperands count (popBack st)

def truncateTo (base : Nat) (st : State) : State :=
  { st with operandStack := st.operandStack.drop (st.operandStack.length - base) }

/-- The rest of the frame cannot be reached: drop its operands. -/
def setUnreachable (st : State) : State :=
  { truncateTo (currFrameOperandStackBase st) st with isPolymorphic := true }

/-- The operand was on the stack, its type is known and it is not `expected`. -/
def mismatches (operand : Option Operand) (expected : ValueType) : Prop :=
  ∃ t, operand = some (some t) ∧ t ≠ expected

instance (operand : Option Operand) (expected : ValueType) :
    Decidable (mismatches operand expected) :=
  match operand with
  | some (some t) => decidable_of_iff (t ≠ expected) (by simp [mismatches])
  | some none => isFalse (by simp [mismatches])
  | none => isFalse (by simp [mismatches])

def reportedType (operand : Option Operand) : Option ValueType := operand.join

def ensureOperands (env : Env) (opBegin : List UInt8) (opName : String) (required : Nat)
    (st : State) : Result Unit :=
  ensure (st.isPolymorphic = true ∨ required ≤ concreteOperandCount st)
    (errorAt env opBegin (.operandStackUnderflow opName (concreteOperandCount st) required))

/-- The loops that compare operands with expected types from the top down, as far as
the current frame has operands. `expected` is in declaration order. -/
def checkConcrete (fail : ValueType → Operand → CodeValidationError) :
    List ValueType → List Operand → Result Unit
  | t :: ts, o :: os => do
    ensure (¬ mismatches (some o) t) (fail t o)
    checkConcrete fail ts os
  | _, _ => .ok ()

def checkConcreteOperands (fail : ValueType → Operand → CodeValidationError)
    (expected : List ValueType) (st : State) : Result Unit :=
  checkConcrete fail expected.reverse (st.operandStack.take (concreteOperandCount st))

def blockResult (blocktypeByte : UInt8) : Option (List ValueType) :=
  match blocktypeByte with
  | 0x40 => some []
  | 0x7f => some [.i32]
  | 0x7e => some [.i64]
  | 0x7d => some [.f32]
  | 0x7c => some [.f64]
  | _ => none

def readBlockType (env : Env) (opBegin : List UInt8) (st : State) :
    Result (List ValueType × State) :=
  match st.codeCurr with
  | [] => .error (errorWith .endOfFile env opBegin .missingBlockType)
  | b :: rest =>
    match blockResult b with
    | some result => .ok (result, { st with codeCurr := rest })
    | none => .error (errorAt env opBegin (.illegalBlockType b))

def pushFrame (type : BlockType) (result : List ValueType) (st : State) : State :=
  { st with
    controlFlowStack := ⟨result, st.operandStack.length, type, st.isPolymorphic⟩ ::
      st.controlFlowStack
    isPolymorphic := false }

-- Arms of the switch: control flow
--
-- Each arm starts with the opcode consumed; `opBegin` is the input at the opcode.

variable (env : Env) (opBegin : List UInt8) (st : State)

def block : Result State := do
  let (result, st) ← readBlockType env opBegin st
  return pushFrame .block result st

def loop : Result State := do
  let (result, st) ← readBlockType env opBegin st
  return pushFrame .loop result st

def if_ : Result State := do
  let (result, st) ← readBlockType env opBegin st
  ensureOperands env opBegin "if" 1 st
  let (cond, st) := tryPopConcreteOperand st
  ensure (¬ mismatches cond .i32) (errorAt env opBegin (.ifCondTypeNotI32 (reportedType cond)))
  return pushFrame .if_ result st

def reportedExpected (result : List ValueType) : Option ValueType :=
  if result.length = 1 then result.head? else none

def reportedActual (actualCount : Nat) (st : State) : Option ValueType :=
  if actualCount = 1 then reportedType st.operandStack.head? else none

/-- The operands at the end of a block are its results, as far as they are known. -/
def checkResults (fail : (expected actual : Option ValueType) → CodeValidationError)
    (result : List ValueType) (st : State) : Result Unit := do
  let actual := concreteOperandCount st
  ensure (if st.isPolymorphic then actual ≤ result.length else actual = result.length)
    (fail (reportedExpected result) (reportedActual actual st))
  checkConcreteOperands (fun t o => fail (some t) o) result st

/-- The alternative starts where the frame started. -/
def enterElse (ifFrame : Block) (rest : List Block) (st : State) : State :=
  { truncateTo ifFrame.operandStackBase st with
    isPolymorphic := false
    controlFlowStack := { ifFrame with type := .else_ } :: rest }

def else_ : Result State :=
  match st.controlFlowStack with
  | [] => .error (errorAt env opBegin .illegalElse)
  | ifFrame :: rest => do
    ensure (ifFrame.type = .if_) (errorAt env opBegin .illegalElse)
    checkResults (fun expected actual => errorAt env opBegin
      (.ifThenResultMismatch ifFrame.result.length (concreteOperandCount st) expected actual))
      ifFrame.result st
    return enterElse ifFrame rest st

def BlockType.kind : BlockType → String
  | .function => "function"
  | .block => "block"
  | .loop => "loop"
  | .if_ => "if"
  | .else_ => "if-else"

/-- Close a frame: its results take the place of its operands. -/
def leaveFrame (frame : Block) (rest : List Block) (st : State) : State :=
  { pushOperands frame.result (truncateTo frame.operandStackBase st) with
    isPolymorphic := frame.polymorphicBase
    controlFlowStack := rest }

/-- `none` is the return from the validator at the end of the function frame. -/
def end_ : Result (Option State) :=
  match st.controlFlowStack with
  | [] => .error (errorAt env opBegin (.illegalOpbase 0x0b))
  | frame :: rest => do
    ensure (¬ (frame.type = .if_ ∧ frame.result.length ≠ 0))
      (errorAt env opBegin (.ifMissingElse frame.result.length frame.result.head?))
    checkResults (fun expected actual => errorAt env opBegin
      (.endResultMismatch frame.type.kind frame.result.length (concreteOperandCount st)
        expected actual)) frame.result st
    let st := leaveFrame frame rest st
    if frame.type = .function then do
      ensure (st.codeCurr = []) (errorAt env opBegin .trailingCodeAfterEnd)
      return none
    else return some st

def labelTypes (frame : Block) : List ValueType :=
  if frame.type = .loop then [] else frame.result

def checkLabel (labelIndex : Nat) : Result Block :=
  match st.controlFlowStack[labelIndex]? with
  | some frame => .ok frame
  | none => .error (errorAt env opBegin
      (.illegalLabelIndex labelIndex (toU32 st.controlFlowStack.length)))

def checkArguments (opName : String) (expected : List ValueType) (st : State) : Result Unit :=
  checkConcreteOperands (fun t o => errorAt env opBegin (.brValueTypeMismatch opName (some t) o))
    expected st

def br : Result State := do
  let (labelIndex, st) ← readImm env.leb.u32 env opBegin .invalidLabelIndex st
  let targetFrame ← checkLabel env opBegin st labelIndex
  let target := labelTypes targetFrame
  ensureOperands env opBegin "br" target.length st
  checkArguments env opBegin "br" target st
  return setUnreachable (popAvailableConcreteOperands target.length st)

/-- Requirements that include one operand more than `arity` saturate. -/
def plusOne (arity : Nat) : Nat := if arity = sizeMax then sizeMax else arity + 1

def ensureOperandsPlusOne (opName : String) (arity : Nat) (st : State) : Result Unit :=
  ensure (st.isPolymorphic = true ∨ ¬ (arity = sizeMax ∨ concreteOperandCount st < plusOne arity))
    (errorAt env opBegin
      (.operandStackUnderflow opName (concreteOperandCount st) (plusOne arity)))

def popCondition (opName : String) (st : State) : Result State := do
  let (cond, st) := tryPopConcreteOperand st
  ensure (¬ mismatches cond .i32)
    (errorAt env opBegin (.brCondTypeNotI32 opName (reportedType cond)))
  return st

def brIf : Result State := do
  let (labelIndex, st) ← readImm env.leb.u32 env opBegin .invalidLabelIndex st
  let targetFrame ← checkLabel env opBegin st labelIndex
  let target := labelTypes targetFrame
  ensureOperandsPlusOne env opBegin "br_if" target.length st
  let st ← popCondition env opBegin "br_if" st
  checkArguments env opBegin "br_if" target st
  -- in unreachable code the label's type stands for what may be missing
  match target with
  | [] => return st
  | t :: _ =>
    if st.isPolymorphic then
      return pushOperand t (popAvailableConcreteOperands
        (min (concreteOperandCount st) target.length) st)
    else return st

/-- The signature of a `br_table` target: its arity and, if any, its first type. -/
structure TargetSig where
  label : Nat
  arity : Nat
  type : Option ValueType
  deriving DecidableEq, Repr

def getSig (labelIndex : Nat) (frame : Block) : TargetSig :=
  if frame.type = .loop then ⟨labelIndex, 0, none⟩
  else ⟨labelIndex, frame.result.length, frame.result.head?⟩

def brTableTarget (expected : Option TargetSig) (st : State) : Result (TargetSig × State) := do
  let (li, st) ← readImm env.leb.u32 env opBegin .invalidLabelIndex st
  let frame ← checkLabel env opBegin st li
  let sig := getSig li frame
  match expected with
  | none => return (sig, st)
  | some first => do
    ensure (sig.arity = first.arity ∧ (first.arity ≠ 0 → sig.type = first.type))
      (errorAt env opBegin (.brTableTargetTypeMismatch first.label li (toU32 first.arity)
        (toU32 sig.arity) first.type sig.type))
    return (first, st)

def brTableTargets : Nat → Option TargetSig → State → Result (Option TargetSig × State)
  | 0, expected, st => .ok (expected, st)
  | n + 1, expected, st => do
    let (first, st) ← brTableTarget env opBegin expected st
    brTableTargets n (some first) st

/-- Unlike the other arms, `br_table` compares the stored type without looking at
whether the operand is unknown. -/
def checkTableOperands (expected : Option ValueType) : List Operand → Result Unit
  | [] => .ok ()
  | o :: os => do
    ensure (o = expected) (errorAt env opBegin (.brValueTypeMismatch "br_table" expected o))
    checkTableOperands expected os

def brTable : Result State := do
  let (targetCount, st) ← readImm env.leb.u32 env opBegin .invalidLabelIndex st
  let remainingBytes := st.codeCurr.length
  ensure (¬ (targetCount = sizeMax ∨ remainingBytes = 0 ∨ targetCount ≥ remainingBytes))
    (errorAt env opBegin (.brTableTargetCountExceedsRemainingBytes targetCount remainingBytes
      (remainingBytes - 1)))
  let (expected, st) ← brTableTargets env opBegin targetCount none st
  let (sig, st) ← brTableTarget env opBegin expected st
  ensureOperandsPlusOne env opBegin "br_table" sig.arity st
  let st ← popCondition env opBegin "br_table" st
  checkTableOperands env opBegin sig.type
    (st.operandStack.take (min (concreteOperandCount st) sig.arity))
  return setUnreachable (popAvailableConcreteOperands sig.arity st)

def return_ : Result State := do
  let result := (st.controlFlowStack.getLast?.map Block.result).getD []
  ensureOperands env opBegin "return" result.length st
  checkArguments env opBegin "return" result st
  return setUnreachable (popAvailableConcreteOperands result.length st)

-- Arms of the switch: calls, parametric and variable instructions

def applyCall (opName : String) (callee : FunctionType) (st : State) : Result State := do
  checkArguments env opBegin opName callee.parameter st
  return pushOperands callee.result (popAvailableConcreteOperands callee.parameter.length st)

def calleeType (funcIndex : Nat) : FunctionType :=
  if funcIndex < env.importFuncCount then env.module.importedFunctions.getD funcIndex default
  else env.localFuncType (funcIndex - env.importFuncCount)

def call : Result State := do
  let (funcIndex, st) ← readImm env.leb.u32 env opBegin .invalidFunctionIndexEncoding st
  let allFunctionSize := env.importFuncCount + env.localFuncCount
  ensure (funcIndex < allFunctionSize)
    (errorAt env opBegin (.invalidFunctionIndex funcIndex allFunctionSize))
  let callee := calleeType env funcIndex
  ensureOperands env opBegin "call" callee.parameter.length st
  applyCall env opBegin "call" callee st

/-- The table index is a literal zero byte, not an encoded integer. -/
def readTableIndex (st : State) : Result State :=
  match st.codeCurr with
  | 0 :: rest => .ok { st with codeCurr := rest }
  | _ => .error (errorAt env opBegin .invalidTableIndex)

def callIndirect : Result State := do
  let (typeIndex, st) ← readImm env.leb.u32 env opBegin .invalidTypeIndex st
  let st ← readTableIndex env opBegin st
  ensure (typeIndex < env.module.types.length)
    (errorAt env opBegin (.illegalTypeIndex typeIndex (toU32 env.module.types.length)))
  ensure (0 < env.allTableCount) (errorAt env opBegin (.illegalTableIndex 0 env.allTableCount))
  let callee := env.module.types.getD typeIndex default
  ensureOperandsPlusOne env opBegin "call_indirect" callee.parameter.length st
  let st ← popCondition env opBegin "call_indirect" st
  applyCall env opBegin "call_indirect" callee st

def drop : Result State := do
  ensureOperands env opBegin "drop" 1 st
  return (tryPopConcreteOperand st).2

def select : Result State := do
  ensureOperands env opBegin "select" 3 st
  let (cond, st) := tryPopConcreteOperand st
  ensure (¬ mismatches cond .i32)
    (errorAt env opBegin (.selectCondTypeNotI32 (reportedType cond)))
  let (v2, st) := tryPopConcreteOperand st
  let (v1, st) := tryPopConcreteOperand st
  match reportedType v1, reportedType v2 with
  | some t1, some t2 => do
    ensure (t1 = t2) (errorAt env opBegin (.selectTypeMismatch (some t1) (some t2)))
    return pushOperand t1 st
  | some t1, none => return pushOperand t1 st
  | none, some t2 => return pushOperand t2 st
  | none, none => return pushUnknownOperand st

def findLocal : List LocalEntry → Nat → Option ValueType
  | [], _ => none
  | part :: rest, i => if i < part.count then some part.type else findLocal rest (i - part.count)

def localType (localIndex : Nat) : Result ValueType := do
  let illegal := errorAt env opBegin (.illegalLocalIndex localIndex env.allLocalCount)
  ensure (localIndex < env.allLocalCount) illegal
  if localIndex < env.funcParameterCount then
    return env.currFuncType.parameter.getD localIndex .i32
  else
    match findLocal env.currCodeLocals (localIndex - env.funcParameterCount) with
    | some t => return t
    | none => .error illegal

def localGet : Result State := do
  let (localIndex, st) ← readImm env.leb.u32 env opBegin .invalidLocalIndex st
  let t ← localType env opBegin localIndex
  return pushOperand t st

def popTyped (opName : String) (t : ValueType) (code : Option ValueType → ErrorCode) (st : State) :
    Result State := do
  ensureOperands env opBegin opName 1 st
  let (value, st) := tryPopConcreteOperand st
  ensure (¬ mismatches value t) (errorAt env opBegin (code (reportedType value)))
  return st

def localSet : Result State := do
  let (localIndex, st) ← readImm env.leb.u32 env opBegin .invalidLocalIndex st
  let t ← localType env opBegin localIndex
  popTyped env opBegin "local.set" t (.localSetTypeMismatch localIndex (some t)) st

def localTee : Result State := do
  let (localIndex, st) ← readImm env.leb.u32 env opBegin .invalidLocalIndex st
  let t ← localType env opBegin localIndex
  ensureOperands env opBegin "local.tee" 1 st
  if concreteOperandCount st = 0 then return pushOperand t st
  else do
    let value := st.operandStack.head?
    ensure (¬ mismatches value t)
      (errorAt env opBegin (.localTeeTypeMismatch localIndex (some t) (reportedType value)))
    return replaceTop t st

def globalAt (globalIndex : Nat) : GlobalType :=
  if globalIndex < env.importedGlobalCount then
    env.module.importedGlobals.getD globalIndex ⟨.i32, false⟩
  else env.module.localGlobals.getD (globalIndex - env.importedGlobalCount) ⟨.i32, false⟩

def readGlobalIndex : Result (Nat × State) := do
  let (globalIndex, st) ← readImm env.leb.u32 env opBegin .invalidGlobalIndex st
  ensure (globalIndex < env.allGlobalCount)
    (errorAt env opBegin (.illegalGlobalIndex globalIndex env.allGlobalCount))
  return (globalIndex, st)

def globalGet : Result State := do
  let (globalIndex, st) ← readGlobalIndex env opBegin st
  return pushOperand (globalAt env globalIndex).type st

def globalSet : Result State := do
  let (globalIndex, st) ← readGlobalIndex env opBegin st
  let global := globalAt env globalIndex
  ensure (global.isMutable = true) (errorAt env opBegin (.immutableGlobalSet globalIndex))
  popTyped env opBegin "global.set" global.type
    (.globalSetTypeMismatch globalIndex (some global.type)) st

-- Arms of the switch: memory and numeric instructions

def readMemarg (opName : String) (maxAlign : Nat) (st : State) : Result State := do
  let (align, st) ← readImm env.leb.u32 env opBegin .invalidMemargAlign st
  let (offset, st) ← readImm env.leb.u32 env opBegin .invalidMemargOffset st
  ensure (env.allMemoryCount ≠ 0) (errorAt env opBegin (.noMemory opName align offset))
  ensure (align ≤ maxAlign) (errorAt env opBegin (.illegalMemargAlignment opName align maxAlign))
  return st

def validateMemLoad (opName : String) (maxAlign : Nat) (resultType : ValueType) : Result State := do
  let st ← readMemarg env opBegin opName maxAlign st
  let st ← popTyped env opBegin opName .i32 (.memargAddressTypeNotI32 opName) st
  return pushOperand resultType st

def validateMemStore (opName : String) (maxAlign : Nat) (expectedValueType : ValueType) :
    Result State := do
  let st ← readMemarg env opBegin opName maxAlign st
  ensureOperands env opBegin opName 2 st
  let (value, st) := tryPopConcreteOperand st
  let (addr, st) := tryPopConcreteOperand st
  ensure (¬ mismatches addr .i32)
    (errorAt env opBegin (.memargAddressTypeNotI32 opName (reportedType addr)))
  ensure (¬ mismatches value expectedValueType)
    (errorAt env opBegin
      (.storeValueTypeMismatch opName (some expectedValueType) (reportedType value)))
  return st

def readMemoryIndex (opName : String) : Result State :=
  match st.codeCurr with
  | [] => .error (errorWith .endOfFile env opBegin .invalidMemoryIndex)
  | memidx :: rest => do
    ensure (memidx = 0)
      (errorAt env opBegin (.illegalMemoryIndex memidx.toNat env.allMemoryCount))
    ensure (env.allMemoryCount ≠ 0) (errorAt env opBegin (.noMemory opName 0 0))
    return { st with codeCurr := rest }

def memorySize : Result State := do
  let st ← readMemoryIndex env opBegin st "memory.size"
  return pushOperand .i32 st

def memoryGrow : Result State := do
  let st ← readMemoryIndex env opBegin st "memory.grow"
  let st ← popTyped env opBegin "memory.grow" .i32 .memoryGrowDeltaTypeNotI32 st
  return pushOperand .i32 st

def i32Const : Result State := do
  let (_, st) ← readImm env.leb.i32 env opBegin (.invalidConstImmediate "i32.const") st
  return pushOperand .i32 st

def i64Const : Result State := do
  let (_, st) ← readImm env.leb.i64 env opBegin (.invalidConstImmediate "i64.const") st
  return pushOperand .i64 st

def floatConst (opName : String) (size : Nat) (t : ValueType) : Result State := do
  ensure (size ≤ st.codeCurr.length)
    (errorWith .endOfFile env opBegin (.invalidConstImmediate opName))
  return pushOperand t { st with codeCurr := st.codeCurr.drop size }

def f32Const : Result State := floatConst env opBegin st "f32.const" 4 .f32

def f64Const : Result State := floatConst env opBegin st "f64.const" 8 .f64

def validateNumericUnary (opName : String) (expectedOperandType resultType : ValueType) :
    Result State := do
  let st ← popTyped env opBegin opName expectedOperandType
    (.numericOperandTypeMismatch opName (some expectedOperandType)) st
  return pushOperand resultType st

def validateNumericBinary (opName : String) (expectedOperandType resultType : ValueType) :
    Result State := do
  ensureOperands env opBegin opName 2 st
  let (rhs, st) := tryPopConcreteOperand st
  ensure (¬ mismatches rhs expectedOperandType)
    (errorAt env opBegin
      (.numericOperandTypeMismatch opName (some expectedOperandType) (reportedType rhs)))
  let (lhs, st) := tryPopConcreteOperand st
  ensure (¬ mismatches lhs expectedOperandType)
    (errorAt env opBegin
      (.numericOperandTypeMismatch opName (some expectedOperandType) (reportedType lhs)))
  return pushOperand resultType st

-- The loop

/-- The arm ends with `break`: the loop goes on. -/
def continues (r : Result State) : Result (Option State) := some <$> r

def runArm : Arm → Result (Option State)
  | .unreachable => continues (.ok (setUnreachable st))
  | .nop => continues (.ok st)
  | .block => continues (block env opBegin st)
  | .loop => continues (loop env opBegin st)
  | .if_ => continues (if_ env opBegin st)
  | .else_ => continues (else_ env opBegin st)
  | .end_ => end_ env opBegin st
  | .br => continues (br env opBegin st)
  | .brIf => continues (brIf env opBegin st)
  | .brTable => continues (brTable env opBegin st)
  | .return_ => continues (return_ env opBegin st)
  | .call => continues (call env opBegin st)
  | .callIndirect => continues (callIndirect env opBegin st)
  | .drop => continues (drop env opBegin st)
  | .select => continues (select env opBegin st)
  | .localGet => continues (localGet env opBegin st)
  | .localSet => continues (localSet env opBegin st)
  | .localTee => continues (localTee env opBegin st)
  | .globalGet => continues (globalGet env opBegin st)
  | .globalSet => continues (globalSet env opBegin st)
  | .memorySize => continues (memorySize env opBegin st)
  | .memoryGrow => continues (memoryGrow env opBegin st)
  | .i32Const => continues (i32Const env opBegin st)
  | .i64Const => continues (i64Const env opBegin st)
  | .f32Const => continues (f32Const env opBegin st)
  | .f64Const => continues (f64Const env opBegin st)
  | .validateMemLoad n a t => continues (validateMemLoad env opBegin st n a t)
  | .validateMemStore n a t => continues (validateMemStore env opBegin st n a t)
  | .validateNumericUnary n t r => continues (validateNumericUnary env opBegin st n t r)
  | .validateNumericBinary n t r => continues (validateNumericBinary env opBegin st n t r)

/-- One round of the loop. `none` is the return at the function's `end`. -/
def step : Result (Option State) :=
  match st.codeCurr with
  | [] => .error (errorAt env [] .missingEnd)
  | b :: rest =>
    match Wasm1Code.ofByte? b with
    | none => .error (errorAt env (b :: rest) (.illegalOpbase b))
    | some op => runArm env (b :: rest) { st with codeCurr := rest } op.arm

/-- The function frame, whose label and result are the function's result. -/
def initialState (funcType : FunctionType) (code : List UInt8) : State :=
  ⟨code, [⟨funcType.result, 0, .function, false⟩], [], false⟩

/-- Validate the body of function `functionIndex`. Every round consumes its opcode, so
the loop is bounded by the number of bytes. -/
def validateCode (leb : LebReader) (m : ModuleStorage) (functionIndex : Nat)
    (code : List UInt8) : Result Unit := do
  let importFuncCount := m.importedFunctions.length
  ensure (importFuncCount ≤ functionIndex) ⟨0, .notLocalFunction functionIndex, .invalid⟩
  let localFuncIdx := functionIndex - importFuncCount
  ensure (localFuncIdx < m.funcs.length)
    ⟨0, .invalidFunctionIndex functionIndex (importFuncCount + m.funcs.length), .invalid⟩
  let env := Env.ofFunction leb m localFuncIdx code.length
  StackTyping.loop (step env) (errorAt env [] .missingEnd) (code.length + 1)
    (initialState env.currFuncType code)

end Uwvm2.Validation.Wasm1
