import Uwvm2.Validation.Wasm1.Module

/-!
# Opcodes of the WebAssembly 1.0 validator

The opcode enumeration and, for each opcode, the arm of the validator's switch
that handles it. Arms that call a shared helper carry its arguments.
-/

namespace Uwvm2.Validation.Wasm1

inductive Wasm1Code
  | unreachable
  | nop
  | block
  | loop
  | if_
  | else_
  | end_
  | br
  | brIf
  | brTable
  | return_
  | call
  | callIndirect
  | drop
  | select
  | localGet
  | localSet
  | localTee
  | globalGet
  | globalSet
  | i32Load
  | i64Load
  | f32Load
  | f64Load
  | i32Load8S
  | i32Load8U
  | i32Load16S
  | i32Load16U
  | i64Load8S
  | i64Load8U
  | i64Load16S
  | i64Load16U
  | i64Load32S
  | i64Load32U
  | i32Store
  | i64Store
  | f32Store
  | f64Store
  | i32Store8
  | i32Store16
  | i64Store8
  | i64Store16
  | i64Store32
  | memorySize
  | memoryGrow
  | i32Const
  | i64Const
  | f32Const
  | f64Const
  | i32Eqz
  | i32Eq
  | i32Ne
  | i32LtS
  | i32LtU
  | i32GtS
  | i32GtU
  | i32LeS
  | i32LeU
  | i32GeS
  | i32GeU
  | i64Eqz
  | i64Eq
  | i64Ne
  | i64LtS
  | i64LtU
  | i64GtS
  | i64GtU
  | i64LeS
  | i64LeU
  | i64GeS
  | i64GeU
  | f32Eq
  | f32Ne
  | f32Lt
  | f32Gt
  | f32Le
  | f32Ge
  | f64Eq
  | f64Ne
  | f64Lt
  | f64Gt
  | f64Le
  | f64Ge
  | i32Clz
  | i32Ctz
  | i32Popcnt
  | i32Add
  | i32Sub
  | i32Mul
  | i32DivS
  | i32DivU
  | i32RemS
  | i32RemU
  | i32And
  | i32Or
  | i32Xor
  | i32Shl
  | i32ShrS
  | i32ShrU
  | i32Rotl
  | i32Rotr
  | i64Clz
  | i64Ctz
  | i64Popcnt
  | i64Add
  | i64Sub
  | i64Mul
  | i64DivS
  | i64DivU
  | i64RemS
  | i64RemU
  | i64And
  | i64Or
  | i64Xor
  | i64Shl
  | i64ShrS
  | i64ShrU
  | i64Rotl
  | i64Rotr
  | f32Abs
  | f32Neg
  | f32Ceil
  | f32Floor
  | f32Trunc
  | f32Nearest
  | f32Sqrt
  | f32Add
  | f32Sub
  | f32Mul
  | f32Div
  | f32Min
  | f32Max
  | f32Copysign
  | f64Abs
  | f64Neg
  | f64Ceil
  | f64Floor
  | f64Trunc
  | f64Nearest
  | f64Sqrt
  | f64Add
  | f64Sub
  | f64Mul
  | f64Div
  | f64Min
  | f64Max
  | f64Copysign
  | i32WrapI64
  | i32TruncF32S
  | i32TruncF32U
  | i32TruncF64S
  | i32TruncF64U
  | i64ExtendI32S
  | i64ExtendI32U
  | i64TruncF32S
  | i64TruncF32U
  | i64TruncF64S
  | i64TruncF64U
  | f32ConvertI32S
  | f32ConvertI32U
  | f32ConvertI64S
  | f32ConvertI64U
  | f32DemoteF64
  | f64ConvertI32S
  | f64ConvertI32U
  | f64ConvertI64S
  | f64ConvertI64U
  | f64PromoteF32
  | i32ReinterpretF32
  | i64ReinterpretF64
  | f32ReinterpretI32
  | f64ReinterpretI64
  deriving DecidableEq, Repr

def Wasm1Code.toByte : Wasm1Code → UInt8
  | .unreachable => 0x00
  | .nop => 0x01
  | .block => 0x02
  | .loop => 0x03
  | .if_ => 0x04
  | .else_ => 0x05
  | .end_ => 0x0b
  | .br => 0x0c
  | .brIf => 0x0d
  | .brTable => 0x0e
  | .return_ => 0x0f
  | .call => 0x10
  | .callIndirect => 0x11
  | .drop => 0x1a
  | .select => 0x1b
  | .localGet => 0x20
  | .localSet => 0x21
  | .localTee => 0x22
  | .globalGet => 0x23
  | .globalSet => 0x24
  | .i32Load => 0x28
  | .i64Load => 0x29
  | .f32Load => 0x2a
  | .f64Load => 0x2b
  | .i32Load8S => 0x2c
  | .i32Load8U => 0x2d
  | .i32Load16S => 0x2e
  | .i32Load16U => 0x2f
  | .i64Load8S => 0x30
  | .i64Load8U => 0x31
  | .i64Load16S => 0x32
  | .i64Load16U => 0x33
  | .i64Load32S => 0x34
  | .i64Load32U => 0x35
  | .i32Store => 0x36
  | .i64Store => 0x37
  | .f32Store => 0x38
  | .f64Store => 0x39
  | .i32Store8 => 0x3a
  | .i32Store16 => 0x3b
  | .i64Store8 => 0x3c
  | .i64Store16 => 0x3d
  | .i64Store32 => 0x3e
  | .memorySize => 0x3f
  | .memoryGrow => 0x40
  | .i32Const => 0x41
  | .i64Const => 0x42
  | .f32Const => 0x43
  | .f64Const => 0x44
  | .i32Eqz => 0x45
  | .i32Eq => 0x46
  | .i32Ne => 0x47
  | .i32LtS => 0x48
  | .i32LtU => 0x49
  | .i32GtS => 0x4a
  | .i32GtU => 0x4b
  | .i32LeS => 0x4c
  | .i32LeU => 0x4d
  | .i32GeS => 0x4e
  | .i32GeU => 0x4f
  | .i64Eqz => 0x50
  | .i64Eq => 0x51
  | .i64Ne => 0x52
  | .i64LtS => 0x53
  | .i64LtU => 0x54
  | .i64GtS => 0x55
  | .i64GtU => 0x56
  | .i64LeS => 0x57
  | .i64LeU => 0x58
  | .i64GeS => 0x59
  | .i64GeU => 0x5a
  | .f32Eq => 0x5b
  | .f32Ne => 0x5c
  | .f32Lt => 0x5d
  | .f32Gt => 0x5e
  | .f32Le => 0x5f
  | .f32Ge => 0x60
  | .f64Eq => 0x61
  | .f64Ne => 0x62
  | .f64Lt => 0x63
  | .f64Gt => 0x64
  | .f64Le => 0x65
  | .f64Ge => 0x66
  | .i32Clz => 0x67
  | .i32Ctz => 0x68
  | .i32Popcnt => 0x69
  | .i32Add => 0x6a
  | .i32Sub => 0x6b
  | .i32Mul => 0x6c
  | .i32DivS => 0x6d
  | .i32DivU => 0x6e
  | .i32RemS => 0x6f
  | .i32RemU => 0x70
  | .i32And => 0x71
  | .i32Or => 0x72
  | .i32Xor => 0x73
  | .i32Shl => 0x74
  | .i32ShrS => 0x75
  | .i32ShrU => 0x76
  | .i32Rotl => 0x77
  | .i32Rotr => 0x78
  | .i64Clz => 0x79
  | .i64Ctz => 0x7a
  | .i64Popcnt => 0x7b
  | .i64Add => 0x7c
  | .i64Sub => 0x7d
  | .i64Mul => 0x7e
  | .i64DivS => 0x7f
  | .i64DivU => 0x80
  | .i64RemS => 0x81
  | .i64RemU => 0x82
  | .i64And => 0x83
  | .i64Or => 0x84
  | .i64Xor => 0x85
  | .i64Shl => 0x86
  | .i64ShrS => 0x87
  | .i64ShrU => 0x88
  | .i64Rotl => 0x89
  | .i64Rotr => 0x8a
  | .f32Abs => 0x8b
  | .f32Neg => 0x8c
  | .f32Ceil => 0x8d
  | .f32Floor => 0x8e
  | .f32Trunc => 0x8f
  | .f32Nearest => 0x90
  | .f32Sqrt => 0x91
  | .f32Add => 0x92
  | .f32Sub => 0x93
  | .f32Mul => 0x94
  | .f32Div => 0x95
  | .f32Min => 0x96
  | .f32Max => 0x97
  | .f32Copysign => 0x98
  | .f64Abs => 0x99
  | .f64Neg => 0x9a
  | .f64Ceil => 0x9b
  | .f64Floor => 0x9c
  | .f64Trunc => 0x9d
  | .f64Nearest => 0x9e
  | .f64Sqrt => 0x9f
  | .f64Add => 0xa0
  | .f64Sub => 0xa1
  | .f64Mul => 0xa2
  | .f64Div => 0xa3
  | .f64Min => 0xa4
  | .f64Max => 0xa5
  | .f64Copysign => 0xa6
  | .i32WrapI64 => 0xa7
  | .i32TruncF32S => 0xa8
  | .i32TruncF32U => 0xa9
  | .i32TruncF64S => 0xaa
  | .i32TruncF64U => 0xab
  | .i64ExtendI32S => 0xac
  | .i64ExtendI32U => 0xad
  | .i64TruncF32S => 0xae
  | .i64TruncF32U => 0xaf
  | .i64TruncF64S => 0xb0
  | .i64TruncF64U => 0xb1
  | .f32ConvertI32S => 0xb2
  | .f32ConvertI32U => 0xb3
  | .f32ConvertI64S => 0xb4
  | .f32ConvertI64U => 0xb5
  | .f32DemoteF64 => 0xb6
  | .f64ConvertI32S => 0xb7
  | .f64ConvertI32U => 0xb8
  | .f64ConvertI64S => 0xb9
  | .f64ConvertI64U => 0xba
  | .f64PromoteF32 => 0xbb
  | .i32ReinterpretF32 => 0xbc
  | .i64ReinterpretF64 => 0xbd
  | .f32ReinterpretI32 => 0xbe
  | .f64ReinterpretI64 => 0xbf

def Wasm1Code.all : List Wasm1Code :=
  [.unreachable, .nop, .block, .loop, .if_, .else_, .end_, .br, .brIf, .brTable, .return_, .call,
   .callIndirect, .drop, .select, .localGet, .localSet, .localTee, .globalGet, .globalSet,
   .i32Load, .i64Load, .f32Load, .f64Load, .i32Load8S, .i32Load8U, .i32Load16S, .i32Load16U,
   .i64Load8S, .i64Load8U, .i64Load16S, .i64Load16U, .i64Load32S, .i64Load32U, .i32Store,
   .i64Store, .f32Store, .f64Store, .i32Store8, .i32Store16, .i64Store8, .i64Store16,
   .i64Store32, .memorySize, .memoryGrow, .i32Const, .i64Const, .f32Const, .f64Const, .i32Eqz,
   .i32Eq, .i32Ne, .i32LtS, .i32LtU, .i32GtS, .i32GtU, .i32LeS, .i32LeU, .i32GeS, .i32GeU,
   .i64Eqz, .i64Eq, .i64Ne, .i64LtS, .i64LtU, .i64GtS, .i64GtU, .i64LeS, .i64LeU, .i64GeS,
   .i64GeU, .f32Eq, .f32Ne, .f32Lt, .f32Gt, .f32Le, .f32Ge, .f64Eq, .f64Ne, .f64Lt, .f64Gt,
   .f64Le, .f64Ge, .i32Clz, .i32Ctz, .i32Popcnt, .i32Add, .i32Sub, .i32Mul, .i32DivS, .i32DivU,
   .i32RemS, .i32RemU, .i32And, .i32Or, .i32Xor, .i32Shl, .i32ShrS, .i32ShrU, .i32Rotl, .i32Rotr,
   .i64Clz, .i64Ctz, .i64Popcnt, .i64Add, .i64Sub, .i64Mul, .i64DivS, .i64DivU, .i64RemS,
   .i64RemU, .i64And, .i64Or, .i64Xor, .i64Shl, .i64ShrS, .i64ShrU, .i64Rotl, .i64Rotr, .f32Abs,
   .f32Neg, .f32Ceil, .f32Floor, .f32Trunc, .f32Nearest, .f32Sqrt, .f32Add, .f32Sub, .f32Mul,
   .f32Div, .f32Min, .f32Max, .f32Copysign, .f64Abs, .f64Neg, .f64Ceil, .f64Floor, .f64Trunc,
   .f64Nearest, .f64Sqrt, .f64Add, .f64Sub, .f64Mul, .f64Div, .f64Min, .f64Max, .f64Copysign,
   .i32WrapI64, .i32TruncF32S, .i32TruncF32U, .i32TruncF64S, .i32TruncF64U, .i64ExtendI32S,
   .i64ExtendI32U, .i64TruncF32S, .i64TruncF32U, .i64TruncF64S, .i64TruncF64U, .f32ConvertI32S,
   .f32ConvertI32U, .f32ConvertI64S, .f32ConvertI64U, .f32DemoteF64, .f64ConvertI32S,
   .f64ConvertI32U, .f64ConvertI64S, .f64ConvertI64U, .f64PromoteF32, .i32ReinterpretF32,
   .i64ReinterpretF64, .f32ReinterpretI32, .f64ReinterpretI64]

/-- The enumerator with a given value; a byte that is none reaches the switch's
default. -/
def Wasm1Code.ofByte? (b : UInt8) : Option Wasm1Code := Wasm1Code.all.find? fun c => c.toByte = b

inductive Arm
  | unreachable
  | nop
  | block
  | loop
  | if_
  | else_
  | end_
  | br
  | brIf
  | brTable
  | return_
  | call
  | callIndirect
  | drop
  | select
  | localGet
  | localSet
  | localTee
  | globalGet
  | globalSet
  | memorySize
  | memoryGrow
  | i32Const
  | i64Const
  | f32Const
  | f64Const
  | validateMemLoad (opName : String) (maxAlign : Nat) (resultType : ValueType)
  | validateMemStore (opName : String) (maxAlign : Nat) (expectedValueType : ValueType)
  | validateNumericUnary (opName : String) (expectedOperandType resultType : ValueType)
  | validateNumericBinary (opName : String) (expectedOperandType resultType : ValueType)
  deriving DecidableEq, Repr

def Wasm1Code.arm : Wasm1Code → Arm
  | .unreachable => .unreachable
  | .nop => .nop
  | .block => .block
  | .loop => .loop
  | .if_ => .if_
  | .else_ => .else_
  | .end_ => .end_
  | .br => .br
  | .brIf => .brIf
  | .brTable => .brTable
  | .return_ => .return_
  | .call => .call
  | .callIndirect => .callIndirect
  | .drop => .drop
  | .select => .select
  | .localGet => .localGet
  | .localSet => .localSet
  | .localTee => .localTee
  | .globalGet => .globalGet
  | .globalSet => .globalSet
  | .i32Load => .validateMemLoad "i32.load" 2 .i32
  | .i64Load => .validateMemLoad "i64.load" 3 .i64
  | .f32Load => .validateMemLoad "f32.load" 2 .f32
  | .f64Load => .validateMemLoad "f64.load" 3 .f64
  | .i32Load8S => .validateMemLoad "i32.load8_s" 0 .i32
  | .i32Load8U => .validateMemLoad "i32.load8_u" 0 .i32
  | .i32Load16S => .validateMemLoad "i32.load16_s" 1 .i32
  | .i32Load16U => .validateMemLoad "i32.load16_u" 1 .i32
  | .i64Load8S => .validateMemLoad "i64.load8_s" 0 .i64
  | .i64Load8U => .validateMemLoad "i64.load8_u" 0 .i64
  | .i64Load16S => .validateMemLoad "i64.load16_s" 1 .i64
  | .i64Load16U => .validateMemLoad "i64.load16_u" 1 .i64
  | .i64Load32S => .validateMemLoad "i64.load32_s" 2 .i64
  | .i64Load32U => .validateMemLoad "i64.load32_u" 2 .i64
  | .i32Store => .validateMemStore "i32.store" 2 .i32
  | .i64Store => .validateMemStore "i64.store" 3 .i64
  | .f32Store => .validateMemStore "f32.store" 2 .f32
  | .f64Store => .validateMemStore "f64.store" 3 .f64
  | .i32Store8 => .validateMemStore "i32.store8" 0 .i32
  | .i32Store16 => .validateMemStore "i32.store16" 1 .i32
  | .i64Store8 => .validateMemStore "i64.store8" 0 .i64
  | .i64Store16 => .validateMemStore "i64.store16" 1 .i64
  | .i64Store32 => .validateMemStore "i64.store32" 2 .i64
  | .memorySize => .memorySize
  | .memoryGrow => .memoryGrow
  | .i32Const => .i32Const
  | .i64Const => .i64Const
  | .f32Const => .f32Const
  | .f64Const => .f64Const
  | .i32Eqz => .validateNumericUnary "i32.eqz" .i32 .i32
  | .i32Eq => .validateNumericBinary "i32.eq" .i32 .i32
  | .i32Ne => .validateNumericBinary "i32.ne" .i32 .i32
  | .i32LtS => .validateNumericBinary "i32.lt_s" .i32 .i32
  | .i32LtU => .validateNumericBinary "i32.lt_u" .i32 .i32
  | .i32GtS => .validateNumericBinary "i32.gt_s" .i32 .i32
  | .i32GtU => .validateNumericBinary "i32.gt_u" .i32 .i32
  | .i32LeS => .validateNumericBinary "i32.le_s" .i32 .i32
  | .i32LeU => .validateNumericBinary "i32.le_u" .i32 .i32
  | .i32GeS => .validateNumericBinary "i32.ge_s" .i32 .i32
  | .i32GeU => .validateNumericBinary "i32.ge_u" .i32 .i32
  | .i64Eqz => .validateNumericUnary "i64.eqz" .i64 .i32
  | .i64Eq => .validateNumericBinary "i64.eq" .i64 .i32
  | .i64Ne => .validateNumericBinary "i64.ne" .i64 .i32
  | .i64LtS => .validateNumericBinary "i64.lt_s" .i64 .i32
  | .i64LtU => .validateNumericBinary "i64.lt_u" .i64 .i32
  | .i64GtS => .validateNumericBinary "i64.gt_s" .i64 .i32
  | .i64GtU => .validateNumericBinary "i64.gt_u" .i64 .i32
  | .i64LeS => .validateNumericBinary "i64.le_s" .i64 .i32
  | .i64LeU => .validateNumericBinary "i64.le_u" .i64 .i32
  | .i64GeS => .validateNumericBinary "i64.ge_s" .i64 .i32
  | .i64GeU => .validateNumericBinary "i64.ge_u" .i64 .i32
  | .f32Eq => .validateNumericBinary "f32.eq" .f32 .i32
  | .f32Ne => .validateNumericBinary "f32.ne" .f32 .i32
  | .f32Lt => .validateNumericBinary "f32.lt" .f32 .i32
  | .f32Gt => .validateNumericBinary "f32.gt" .f32 .i32
  | .f32Le => .validateNumericBinary "f32.le" .f32 .i32
  | .f32Ge => .validateNumericBinary "f32.ge" .f32 .i32
  | .f64Eq => .validateNumericBinary "f64.eq" .f64 .i32
  | .f64Ne => .validateNumericBinary "f64.ne" .f64 .i32
  | .f64Lt => .validateNumericBinary "f64.lt" .f64 .i32
  | .f64Gt => .validateNumericBinary "f64.gt" .f64 .i32
  | .f64Le => .validateNumericBinary "f64.le" .f64 .i32
  | .f64Ge => .validateNumericBinary "f64.ge" .f64 .i32
  | .i32Clz => .validateNumericUnary "i32.clz" .i32 .i32
  | .i32Ctz => .validateNumericUnary "i32.ctz" .i32 .i32
  | .i32Popcnt => .validateNumericUnary "i32.popcnt" .i32 .i32
  | .i32Add => .validateNumericBinary "i32.add" .i32 .i32
  | .i32Sub => .validateNumericBinary "i32.sub" .i32 .i32
  | .i32Mul => .validateNumericBinary "i32.mul" .i32 .i32
  | .i32DivS => .validateNumericBinary "i32.div_s" .i32 .i32
  | .i32DivU => .validateNumericBinary "i32.div_u" .i32 .i32
  | .i32RemS => .validateNumericBinary "i32.rem_s" .i32 .i32
  | .i32RemU => .validateNumericBinary "i32.rem_u" .i32 .i32
  | .i32And => .validateNumericBinary "i32.and" .i32 .i32
  | .i32Or => .validateNumericBinary "i32.or" .i32 .i32
  | .i32Xor => .validateNumericBinary "i32.xor" .i32 .i32
  | .i32Shl => .validateNumericBinary "i32.shl" .i32 .i32
  | .i32ShrS => .validateNumericBinary "i32.shr_s" .i32 .i32
  | .i32ShrU => .validateNumericBinary "i32.shr_u" .i32 .i32
  | .i32Rotl => .validateNumericBinary "i32.rotl" .i32 .i32
  | .i32Rotr => .validateNumericBinary "i32.rotr" .i32 .i32
  | .i64Clz => .validateNumericUnary "i64.clz" .i64 .i64
  | .i64Ctz => .validateNumericUnary "i64.ctz" .i64 .i64
  | .i64Popcnt => .validateNumericUnary "i64.popcnt" .i64 .i64
  | .i64Add => .validateNumericBinary "i64.add" .i64 .i64
  | .i64Sub => .validateNumericBinary "i64.sub" .i64 .i64
  | .i64Mul => .validateNumericBinary "i64.mul" .i64 .i64
  | .i64DivS => .validateNumericBinary "i64.div_s" .i64 .i64
  | .i64DivU => .validateNumericBinary "i64.div_u" .i64 .i64
  | .i64RemS => .validateNumericBinary "i64.rem_s" .i64 .i64
  | .i64RemU => .validateNumericBinary "i64.rem_u" .i64 .i64
  | .i64And => .validateNumericBinary "i64.and" .i64 .i64
  | .i64Or => .validateNumericBinary "i64.or" .i64 .i64
  | .i64Xor => .validateNumericBinary "i64.xor" .i64 .i64
  | .i64Shl => .validateNumericBinary "i64.shl" .i64 .i64
  | .i64ShrS => .validateNumericBinary "i64.shr_s" .i64 .i64
  | .i64ShrU => .validateNumericBinary "i64.shr_u" .i64 .i64
  | .i64Rotl => .validateNumericBinary "i64.rotl" .i64 .i64
  | .i64Rotr => .validateNumericBinary "i64.rotr" .i64 .i64
  | .f32Abs => .validateNumericUnary "f32.abs" .f32 .f32
  | .f32Neg => .validateNumericUnary "f32.neg" .f32 .f32
  | .f32Ceil => .validateNumericUnary "f32.ceil" .f32 .f32
  | .f32Floor => .validateNumericUnary "f32.floor" .f32 .f32
  | .f32Trunc => .validateNumericUnary "f32.trunc" .f32 .f32
  | .f32Nearest => .validateNumericUnary "f32.nearest" .f32 .f32
  | .f32Sqrt => .validateNumericUnary "f32.sqrt" .f32 .f32
  | .f32Add => .validateNumericBinary "f32.add" .f32 .f32
  | .f32Sub => .validateNumericBinary "f32.sub" .f32 .f32
  | .f32Mul => .validateNumericBinary "f32.mul" .f32 .f32
  | .f32Div => .validateNumericBinary "f32.div" .f32 .f32
  | .f32Min => .validateNumericBinary "f32.min" .f32 .f32
  | .f32Max => .validateNumericBinary "f32.max" .f32 .f32
  | .f32Copysign => .validateNumericBinary "f32.copysign" .f32 .f32
  | .f64Abs => .validateNumericUnary "f64.abs" .f64 .f64
  | .f64Neg => .validateNumericUnary "f64.neg" .f64 .f64
  | .f64Ceil => .validateNumericUnary "f64.ceil" .f64 .f64
  | .f64Floor => .validateNumericUnary "f64.floor" .f64 .f64
  | .f64Trunc => .validateNumericUnary "f64.trunc" .f64 .f64
  | .f64Nearest => .validateNumericUnary "f64.nearest" .f64 .f64
  | .f64Sqrt => .validateNumericUnary "f64.sqrt" .f64 .f64
  | .f64Add => .validateNumericBinary "f64.add" .f64 .f64
  | .f64Sub => .validateNumericBinary "f64.sub" .f64 .f64
  | .f64Mul => .validateNumericBinary "f64.mul" .f64 .f64
  | .f64Div => .validateNumericBinary "f64.div" .f64 .f64
  | .f64Min => .validateNumericBinary "f64.min" .f64 .f64
  | .f64Max => .validateNumericBinary "f64.max" .f64 .f64
  | .f64Copysign => .validateNumericBinary "f64.copysign" .f64 .f64
  | .i32WrapI64 => .validateNumericUnary "i32.wrap_i64" .i64 .i32
  | .i32TruncF32S => .validateNumericUnary "i32.trunc_f32_s" .f32 .i32
  | .i32TruncF32U => .validateNumericUnary "i32.trunc_f32_u" .f32 .i32
  | .i32TruncF64S => .validateNumericUnary "i32.trunc_f64_s" .f64 .i32
  | .i32TruncF64U => .validateNumericUnary "i32.trunc_f64_u" .f64 .i32
  | .i64ExtendI32S => .validateNumericUnary "i64.extend_i32_s" .i32 .i64
  | .i64ExtendI32U => .validateNumericUnary "i64.extend_i32_u" .i32 .i64
  | .i64TruncF32S => .validateNumericUnary "i64.trunc_f32_s" .f32 .i64
  | .i64TruncF32U => .validateNumericUnary "i64.trunc_f32_u" .f32 .i64
  | .i64TruncF64S => .validateNumericUnary "i64.trunc_f64_s" .f64 .i64
  | .i64TruncF64U => .validateNumericUnary "i64.trunc_f64_u" .f64 .i64
  | .f32ConvertI32S => .validateNumericUnary "f32.convert_i32_s" .i32 .f32
  | .f32ConvertI32U => .validateNumericUnary "f32.convert_i32_u" .i32 .f32
  | .f32ConvertI64S => .validateNumericUnary "f32.convert_i64_s" .i64 .f32
  | .f32ConvertI64U => .validateNumericUnary "f32.convert_i64_u" .i64 .f32
  | .f32DemoteF64 => .validateNumericUnary "f32.demote_f64" .f64 .f32
  | .f64ConvertI32S => .validateNumericUnary "f64.convert_i32_s" .i32 .f64
  | .f64ConvertI32U => .validateNumericUnary "f64.convert_i32_u" .i32 .f64
  | .f64ConvertI64S => .validateNumericUnary "f64.convert_i64_s" .i64 .f64
  | .f64ConvertI64U => .validateNumericUnary "f64.convert_i64_u" .i64 .f64
  | .f64PromoteF32 => .validateNumericUnary "f64.promote_f32" .f32 .f64
  | .i32ReinterpretF32 => .validateNumericUnary "i32.reinterpret_f32" .f32 .i32
  | .i64ReinterpretF64 => .validateNumericUnary "i64.reinterpret_f64" .f64 .i64
  | .f32ReinterpretI32 => .validateNumericUnary "f32.reinterpret_i32" .i32 .f32
  | .f64ReinterpretI64 => .validateNumericUnary "f64.reinterpret_i64" .i64 .f64

theorem Wasm1Code.mem_all (c : Wasm1Code) : c ∈ Wasm1Code.all := by
  have hget : Wasm1Code.all[c.ctorIdx]? = some c := by cases c <;> rfl
  exact List.mem_of_getElem? hget

theorem Wasm1Code.all_sorted :
    Wasm1Code.all.Pairwise fun c d => c.toByte.toNat < d.toByte.toNat := by
  have hchain : (Wasm1Code.all.map fun c => c.toByte.toNat).IsChain (· < ·) := by decide +kernel
  exact List.pairwise_map.mp (List.isChain_iff_pairwise.mp hchain)

theorem Wasm1Code.ofByte?_eq_some : ofByte? b = some c ↔ c.toByte = b := by
  constructor
  · intro h
    simpa using List.find?_some h
  · rintro rfl
    obtain ⟨as, bs, hall⟩ := List.append_of_mem c.mem_all
    have hsorted := hall ▸ Wasm1Code.all_sorted
    refine List.find?_eq_some_iff_append.mpr ⟨by simp, as, bs, hall, fun a ha => ?_⟩
    have hlt := (List.pairwise_append.mp hsorted).2.2 a ha c (by simp)
    have hne : a.toByte ≠ c.toByte := fun heq => by simp [heq] at hlt
    simpa using hne

end Uwvm2.Validation.Wasm1
