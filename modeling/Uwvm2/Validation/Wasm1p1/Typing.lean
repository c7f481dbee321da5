import Uwvm2.Lib.StructuredTyping
import Uwvm2.Validation.Wasm1.Syntax
import Uwvm2.Validation.Wasm1p1.Validator

/-!
# Control and numeric instructions of WebAssembly 2.0

Syntax, binary format and declarative typing of the instructions that the model
of the wasm1p1 validator covers. Blocks, sequences and bodies follow the general
rules of structured code; operand types are the value types and a bottom type
that matches all of them. Parts of the standard that a feature flag turns off
are not in force: their value types and instructions have no type.
-/

namespace Uwvm2.Validation.Wasm1p1

open StackTyping
open Wasm1 (NumInstr Sx U32 U32s Width)

-- Syntax

inductive ExtendOp
  | i32Extend8
  | i32Extend16
  | i64Extend8
  | i64Extend16
  | i64Extend32
  deriving DecidableEq, Repr

inductive PlainInstr
  | unreachable
  | nop
  | br (l : Nat)
  | brIf (l : Nat)
  | brTable (ls : List Nat) (l : Nat)
  | return_
  | i32Const (n : Int)
  | i64Const (n : Int)
  | f32Const (z : List UInt8)
  | f64Const (z : List UInt8)
  | num (n : NumInstr)
  | extend (op : ExtendOp)
  | truncSat (dst src : Width) (sx : Sx)
  deriving DecidableEq, Repr

/-- A block type is empty, a single result or a type of the type section. -/
inductive BlockTy
  | empty
  | result (t : ValueType)
  | index (x : Nat)
  deriving DecidableEq, Repr

abbrev Instr := StackTyping.Instr PlainInstr BlockTy

def ExtendOp.opcode : ExtendOp → UInt8
  | .i32Extend8 => 0xC0
  | .i32Extend16 => 0xC1
  | .i64Extend8 => 0xC2
  | .i64Extend16 => 0xC3
  | .i64Extend32 => 0xC4

/-- The number behind the prefix byte of a saturating truncation. -/
def truncSatIndex (dst src : Width) (sx : Sx) : Nat :=
  (if dst = .w64 then 4 else 0) + (if src = .w64 then 2 else 0) + if sx = .u then 1 else 0

inductive PlainBytes : PlainInstr → List UInt8 → Prop
  | unreachable : PlainBytes .unreachable [0x00]
  | nop : PlainBytes .nop [0x01]
  | br : U32 a l → PlainBytes (.br l) (0x0C :: a)
  | brIf : U32 a l → PlainBytes (.brIf l) (0x0D :: a)
  | brTable : U32 a ls.length → U32s b ls → U32 c l →
      PlainBytes (.brTable ls l) (0x0E :: (a ++ (b ++ c)))
  | return_ : PlainBytes .return_ [0x0F]
  | i32Const : Leb128.Signed 32 a n → PlainBytes (.i32Const n) (0x41 :: a)
  | i64Const : Leb128.Signed 64 a n → PlainBytes (.i64Const n) (0x42 :: a)
  | f32Const : z.length = 4 → PlainBytes (.f32Const z) (0x43 :: z)
  | f64Const : z.length = 8 → PlainBytes (.f64Const z) (0x44 :: z)
  | num : PlainBytes (.num n) [n.opcode]
  | extend : PlainBytes (.extend op) [op.opcode]
  | truncSat : U32 a (truncSatIndex dst src sx) → PlainBytes (.truncSat dst src sx) (0xFC :: a)

/-- A type index is written as a signed 33-bit integer. -/
inductive BlockTypeBytes : BlockTy → List UInt8 → Prop
  | empty : BlockTypeBytes .empty [0x40]
  | result : BlockTypeBytes (.result t) [t.code]
  | index : Leb128.Signed 33 a (x : Nat) → BlockTypeBytes (.index x) a

def grammar : Grammar PlainInstr BlockTy where
  plain := PlainBytes
  blockType := BlockTypeBytes
  plain_ne_nil := nofun

/-- The bytes are those of a sequence of these instructions and of the tokens that open
and close blocks, in any order. -/
def BuiltFromTokens (code : List UInt8) : Prop := ∃ ts, TokensBytes grammar ts code

def Decodes (code : List UInt8) (body : List Instr) : Prop := ExprBytes grammar body code

-- Typing

/-- The optional parts of the standard that the instructions above touch. -/
structure Parts where
  vectors : Bool
  references : Bool
  signExtension : Bool
  saturatingTruncation : Bool

def FeatureParameter.parts (para : FeatureParameter) : Parts where
  vectors := !para.disableSimd
  references := !para.disableReferenceTypes
  signExtension := !para.disableSignExtension
  saturatingTruncation := !para.disableNontrappingFloatToInt

def Parts.HasType (parts : Parts) : ValueType → Prop
  | .v128 => parts.vectors = true
  | .funcref | .externref => parts.references = true
  | _ => True

structure Context where
  parts : Parts
  types : List FunctionType
  return_ : List ValueType

abbrev OperandType := Option ValueType

abbrev known (ts : List ValueType) : List OperandType := ts.map some

def NumInstr.operands (n : NumInstr) : List ValueType := n.type.1.map .ofMvp

def NumInstr.result (n : NumInstr) : ValueType := .ofMvp n.type.2

def ExtendOp.type : ExtendOp → ValueType
  | .i32Extend8 | .i32Extend16 => .i32
  | .i64Extend8 | .i64Extend16 | .i64Extend32 => .i64

/-- `PlainTyped C ls p a b`: instruction `p` has type `[a] → [b]` under label types
`ls`, innermost first. -/
inductive PlainTyped (C : Context) :
    List (List ValueType) → PlainInstr → List OperandType → List OperandType → Prop
  | unreachable : PlainTyped C ls .unreachable a b
  | nop : PlainTyped C ls .nop [] []
  | br : ls[l]? = some ts → PlainTyped C ls (.br l) (known ts ++ a) b
  | brIf : ls[l]? = some ts → PlainTyped C ls (.brIf l) (known (.i32 :: ts)) (known ts)
  -- one list of operand types has to match every label
  | brTable : (∀ l ∈ js ++ [j], ∃ ts, ls[l]? = some ts ∧
        List.Forall₂ (Matching.bottom ValueType).le os (known ts)) →
      PlainTyped C ls (.brTable js j) (some .i32 :: (os ++ a)) b
  | return_ : PlainTyped C ls .return_ (known C.return_.reverse ++ a) b
  | i32Const : PlainTyped C ls (.i32Const n) [] [some .i32]
  | i64Const : PlainTyped C ls (.i64Const n) [] [some .i64]
  | f32Const : PlainTyped C ls (.f32Const z) [] [some .f32]
  | f64Const : PlainTyped C ls (.f64Const z) [] [some .f64]
  | num : PlainTyped C ls (.num n) (known (NumInstr.operands n)) [some (NumInstr.result n)]
  | extend : C.parts.signExtension = true →
      PlainTyped C ls (.extend op) [some op.type] [some op.type]
  | truncSat : C.parts.saturatingTruncation = true →
      PlainTyped C ls (.truncSat dst src sx) [some (.ofMvp src.float)] [some (.ofMvp dst.int)]

inductive BlockTyped (C : Context) : BlockTy → List ValueType → List ValueType → Prop
  | empty : BlockTyped C .empty [] []
  | result : C.parts.HasType t → BlockTyped C (.result t) [] [t]
  | index : C.types[x]? = some f →
      BlockTyped C (.index x) f.parameter.reverse f.result.reverse

def rules (C : Context) : Rules ValueType OperandType PlainInstr BlockTy where
  matching := Matching.bottom ValueType
  cond := .i32
  blockType := BlockTyped C
  plain := PlainTyped C

def ModuleStorage.context (m : ModuleStorage) (parts : Parts) (i : Nat) : Context where
  parts
  types := m.types
  return_ := (m.types.getD (m.funcs.getD i 0) default).result

def WellTyped (m : ModuleStorage) (parts : Parts) (i : Nat) (body : List Instr) : Prop :=
  BodyTyped (rules (m.context parts i)) (m.context parts i).return_.reverse body

end Uwvm2.Validation.Wasm1p1
