import Uwvm2.Lib.StructuredBinary
import Uwvm2.Validation.Wasm1.Module

/-!
# WebAssembly 1.0 instructions and their binary format

The instructions of WebAssembly 1.0 as the standard groups them, and the byte
sequences of each. Nothing here is read off the validator.
-/

namespace Uwvm2.Validation.Wasm1

-- Numeric instructions

inductive Width
  | w32
  | w64
  deriving DecidableEq, Repr

inductive Sx
  | s
  | u
  deriving DecidableEq, Repr

inductive IUnOp
  | clz | ctz | popcnt
  deriving DecidableEq, Repr

inductive IBinOp
  | add | sub | mul | div (sx : Sx) | rem (sx : Sx) | and | or | xor | shl | shr (sx : Sx)
  | rotl | rotr
  deriving DecidableEq, Repr

inductive IRelOp
  | eq | ne | lt (sx : Sx) | gt (sx : Sx) | le (sx : Sx) | ge (sx : Sx)
  deriving DecidableEq, Repr

inductive FUnOp
  | abs | neg | ceil | floor | trunc | nearest | sqrt
  deriving DecidableEq, Repr

inductive FBinOp
  | add | sub | mul | div | min | max | copysign
  deriving DecidableEq, Repr

inductive FRelOp
  | eq | ne | lt | gt | le | ge
  deriving DecidableEq, Repr

/-- Numeric instructions other than constants. Integer and float operators are
indexed by the width of their operands; conversions by target and source. -/
inductive NumInstr
  | eqz (w : Width)
  | irelop (w : Width) (op : IRelOp)
  | frelop (w : Width) (op : FRelOp)
  | iunop (w : Width) (op : IUnOp)
  | ibinop (w : Width) (op : IBinOp)
  | funop (w : Width) (op : FUnOp)
  | fbinop (w : Width) (op : FBinOp)
  | wrap
  | extend (sx : Sx)
  | trunc (dst src : Width) (sx : Sx)
  | convert (dst src : Width) (sx : Sx)
  | demote
  | promote
  | reinterpretAsInt (w : Width)
  | reinterpretAsFloat (w : Width)
  deriving DecidableEq, Repr

def Width.int : Width → ValueType
  | .w32 => .i32
  | .w64 => .i64

def Width.float : Width → ValueType
  | .w32 => .f32
  | .w64 => .f64

def NumInstr.type : NumInstr → List ValueType × ValueType
  | .eqz w => ([w.int], .i32)
  | .irelop w _ => ([w.int, w.int], .i32)
  | .frelop w _ => ([w.float, w.float], .i32)
  | .iunop w _ => ([w.int], w.int)
  | .ibinop w _ => ([w.int, w.int], w.int)
  | .funop w _ => ([w.float], w.float)
  | .fbinop w _ => ([w.float, w.float], w.float)
  | .wrap => ([.i64], .i32)
  | .extend _ => ([.i32], .i64)
  | .trunc dst src _ => ([src.float], dst.int)
  | .convert dst src _ => ([src.int], dst.float)
  | .demote => ([.f64], .f32)
  | .promote => ([.f32], .f64)
  | .reinterpretAsInt w => ([w.float], w.int)
  | .reinterpretAsFloat w => ([w.int], w.float)

def Sx.index : Sx → UInt8
  | .s => 0
  | .u => 1

def IUnOp.index : IUnOp → UInt8
  | .clz => 0 | .ctz => 1 | .popcnt => 2

def IBinOp.index : IBinOp → UInt8
  | .add => 0 | .sub => 1 | .mul => 2 | .div sx => 3 + sx.index | .rem sx => 5 + sx.index
  | .and => 7 | .or => 8 | .xor => 9 | .shl => 10 | .shr sx => 11 + sx.index
  | .rotl => 13 | .rotr => 14

def IRelOp.index : IRelOp → UInt8
  | .eq => 0 | .ne => 1 | .lt sx => 2 + sx.index | .gt sx => 4 + sx.index
  | .le sx => 6 + sx.index | .ge sx => 8 + sx.index

def FUnOp.index : FUnOp → UInt8
  | .abs => 0 | .neg => 1 | .ceil => 2 | .floor => 3 | .trunc => 4 | .nearest => 5 | .sqrt => 6

def FBinOp.index : FBinOp → UInt8
  | .add => 0 | .sub => 1 | .mul => 2 | .div => 3 | .min => 4 | .max => 5 | .copysign => 6

def FRelOp.index : FRelOp → UInt8
  | .eq => 0 | .ne => 1 | .lt => 2 | .gt => 3 | .le => 4 | .ge => 5

def NumInstr.opcode : NumInstr → UInt8
  | .eqz .w32 => 0x45
  | .irelop .w32 op => 0x46 + op.index
  | .eqz .w64 => 0x50
  | .irelop .w64 op => 0x51 + op.index
  | .frelop .w32 op => 0x5B + op.index
  | .frelop .w64 op => 0x61 + op.index
  | .iunop .w32 op => 0x67 + op.index
  | .ibinop .w32 op => 0x6A + op.index
  | .iunop .w64 op => 0x79 + op.index
  | .ibinop .w64 op => 0x7C + op.index
  | .funop .w32 op => 0x8B + op.index
  | .fbinop .w32 op => 0x92 + op.index
  | .funop .w64 op => 0x99 + op.index
  | .fbinop .w64 op => 0xA0 + op.index
  | .wrap => 0xA7
  | .trunc .w32 .w32 sx => 0xA8 + sx.index
  | .trunc .w32 .w64 sx => 0xAA + sx.index
  | .extend sx => 0xAC + sx.index
  | .trunc .w64 .w32 sx => 0xAE + sx.index
  | .trunc .w64 .w64 sx => 0xB0 + sx.index
  | .convert .w32 .w32 sx => 0xB2 + sx.index
  | .convert .w32 .w64 sx => 0xB4 + sx.index
  | .demote => 0xB6
  | .convert .w64 .w32 sx => 0xB7 + sx.index
  | .convert .w64 .w64 sx => 0xB9 + sx.index
  | .promote => 0xBB
  | .reinterpretAsInt .w32 => 0xBC
  | .reinterpretAsInt .w64 => 0xBD
  | .reinterpretAsFloat .w32 => 0xBE
  | .reinterpretAsFloat .w64 => 0xBF

-- Memory instructions

inductive LoadInstr
  | load (t : ValueType)
  | i32Load8 (sx : Sx)
  | i32Load16 (sx : Sx)
  | i64Load8 (sx : Sx)
  | i64Load16 (sx : Sx)
  | i64Load32 (sx : Sx)
  deriving DecidableEq, Repr

inductive StoreInstr
  | store (t : ValueType)
  | i32Store8
  | i32Store16
  | i64Store8
  | i64Store16
  | i64Store32
  deriving DecidableEq, Repr

def ValueType.bytes : ValueType → Nat
  | .i32 => 4
  | .i64 => 8
  | .f32 => 4
  | .f64 => 8

def LoadInstr.bytes : LoadInstr → Nat
  | .load t => t.bytes
  | .i32Load8 _ => 1
  | .i32Load16 _ => 2
  | .i64Load8 _ => 1
  | .i64Load16 _ => 2
  | .i64Load32 _ => 4

def StoreInstr.bytes : StoreInstr → Nat
  | .store t => t.bytes
  | .i32Store8 => 1
  | .i32Store16 => 2
  | .i64Store8 => 1
  | .i64Store16 => 2
  | .i64Store32 => 4

def LoadInstr.type : LoadInstr → ValueType
  | .load t => t
  | .i32Load8 _ | .i32Load16 _ => .i32
  | .i64Load8 _ | .i64Load16 _ | .i64Load32 _ => .i64

def StoreInstr.type : StoreInstr → ValueType
  | .store t => t
  | .i32Store8 | .i32Store16 => .i32
  | .i64Store8 | .i64Store16 | .i64Store32 => .i64

def LoadInstr.opcode : LoadInstr → UInt8
  | .load .i32 => 0x28
  | .load .i64 => 0x29
  | .load .f32 => 0x2A
  | .load .f64 => 0x2B
  | .i32Load8 sx => 0x2C + sx.index
  | .i32Load16 sx => 0x2E + sx.index
  | .i64Load8 sx => 0x30 + sx.index
  | .i64Load16 sx => 0x32 + sx.index
  | .i64Load32 sx => 0x34 + sx.index

def StoreInstr.opcode : StoreInstr → UInt8
  | .store .i32 => 0x36
  | .store .i64 => 0x37
  | .store .f32 => 0x38
  | .store .f64 => 0x39
  | .i32Store8 => 0x3A
  | .i32Store16 => 0x3B
  | .i64Store8 => 0x3C
  | .i64Store16 => 0x3D
  | .i64Store32 => 0x3E

-- Instructions that are not blocks

inductive PlainInstr
  | unreachable
  | nop
  | br (l : Nat)
  | brIf (l : Nat)
  | brTable (ls : List Nat) (l : Nat)
  | return_
  | call (x : Nat)
  | callIndirect (x : Nat)
  | drop
  | select
  | localGet (x : Nat)
  | localSet (x : Nat)
  | localTee (x : Nat)
  | globalGet (x : Nat)
  | globalSet (x : Nat)
  | load (op : LoadInstr) (align offset : Nat)
  | store (op : StoreInstr) (align offset : Nat)
  | memorySize
  | memoryGrow
  | i32Const (n : Int)
  | i64Const (n : Int)
  | f32Const (z : List UInt8)
  | f64Const (z : List UInt8)
  | num (n : NumInstr)
  deriving DecidableEq, Repr

abbrev U32 : List UInt8 → Nat → Prop := Leb128.Unsigned 32

inductive U32s : List UInt8 → List Nat → Prop
  | nil : U32s [] []
  | cons : U32 a n → U32s b ns → U32s (a ++ b) (n :: ns)

inductive PlainBytes : PlainInstr → List UInt8 → Prop
  | unreachable : PlainBytes .unreachable [0x00]
  | nop : PlainBytes .nop [0x01]
  | br : U32 a l → PlainBytes (.br l) (0x0C :: a)
  | brIf : U32 a l → PlainBytes (.brIf l) (0x0D :: a)
  | brTable : U32 a ls.length → U32s b ls → U32 c l →
      PlainBytes (.brTable ls l) (0x0E :: (a ++ (b ++ c)))
  | return_ : PlainBytes .return_ [0x0F]
  | call : U32 a x → PlainBytes (.call x) (0x10 :: a)
  | callIndirect : U32 a x → PlainBytes (.callIndirect x) (0x11 :: (a ++ [0x00]))
  | drop : PlainBytes .drop [0x1A]
  | select : PlainBytes .select [0x1B]
  | localGet : U32 a x → PlainBytes (.localGet x) (0x20 :: a)
  | localSet : U32 a x → PlainBytes (.localSet x) (0x21 :: a)
  | localTee : U32 a x → PlainBytes (.localTee x) (0x22 :: a)
  | globalGet : U32 a x → PlainBytes (.globalGet x) (0x23 :: a)
  | globalSet : U32 a x → PlainBytes (.globalSet x) (0x24 :: a)
  | load : U32 a align → U32 b offset → PlainBytes (.load op align offset) (op.opcode :: (a ++ b))
  | store : U32 a align → U32 b offset → PlainBytes (.store op align offset) (op.opcode :: (a ++ b))
  | memorySize : PlainBytes .memorySize [0x3F, 0x00]
  | memoryGrow : PlainBytes .memoryGrow [0x40, 0x00]
  | i32Const : Leb128.Signed 32 a n → PlainBytes (.i32Const n) (0x41 :: a)
  | i64Const : Leb128.Signed 64 a n → PlainBytes (.i64Const n) (0x42 :: a)
  | f32Const : z.length = 4 → PlainBytes (.f32Const z) (0x43 :: z)
  | f64Const : z.length = 8 → PlainBytes (.f64Const z) (0x44 :: z)
  | num : PlainBytes (.num n) [n.opcode]

inductive BlockTypeBytes : Option ValueType → List UInt8 → Prop
  | empty : BlockTypeBytes none [0x40]
  | i32 : BlockTypeBytes (some .i32) [0x7F]
  | i64 : BlockTypeBytes (some .i64) [0x7E]
  | f32 : BlockTypeBytes (some .f32) [0x7D]
  | f64 : BlockTypeBytes (some .f64) [0x7C]

def grammar : StackTyping.Grammar PlainInstr (Option ValueType) where
  plain := PlainBytes
  blockType := BlockTypeBytes
  plain_ne_nil := nofun

abbrev Instr := StackTyping.Instr PlainInstr (Option ValueType)

/-- `code` is an instruction sequence followed by `end`, which is its last byte. -/
def Decodes (code : List UInt8) (body : List Instr) : Prop :=
  StackTyping.ExprBytes grammar body code

end Uwvm2.Validation.Wasm1
