import Uwvm2.Lib.StructuredTyping
import Uwvm2.Validation.Wasm1.Syntax

/-!
# Typing of WebAssembly 1.0 function bodies

The declarative typing rules of WebAssembly 1.0. Blocks, sequences and bodies
follow the general rules of structured code with equality as the only matching
of operand types; the rules of all other instructions are below. Stack types
have the top of the stack first, so a declared list of parameters or results is
reversed.
-/

namespace Uwvm2.Validation.Wasm1

open StackTyping

/-- The context of a function body apart from its labels. All tables and memories
are alike for typing, so they are counted. -/
structure Context where
  types : List FunctionType
  funcs : List FunctionType
  tables : Nat
  mems : Nat
  globals : List GlobalType
  locals : List ValueType
  return_ : List ValueType

/-- `PlainTyped C ls p a b`: instruction `p` has type `[a] → [b]` under label types
`ls`, innermost first. -/
inductive PlainTyped (C : Context) :
    List (List ValueType) → PlainInstr → List ValueType → List ValueType → Prop
  | unreachable : PlainTyped C ls .unreachable a b
  | nop : PlainTyped C ls .nop [] []
  | br : ls[l]? = some ts → PlainTyped C ls (.br l) (ts ++ a) b
  | brIf : ls[l]? = some ts → PlainTyped C ls (.brIf l) (.i32 :: ts) ts
  | brTable : (∀ l ∈ js ++ [j], ls[l]? = some ts) →
      PlainTyped C ls (.brTable js j) (.i32 :: (ts ++ a)) b
  | return_ : PlainTyped C ls .return_ (C.return_.reverse ++ a) b
  | call : C.funcs[x]? = some f → PlainTyped C ls (.call x) f.parameter.reverse f.result.reverse
  | callIndirect : 0 < C.tables → C.types[x]? = some f →
      PlainTyped C ls (.callIndirect x) (.i32 :: f.parameter.reverse) f.result.reverse
  | drop : PlainTyped C ls .drop [t] []
  | select : PlainTyped C ls .select [.i32, t, t] [t]
  | localGet : C.locals[x]? = some t → PlainTyped C ls (.localGet x) [] [t]
  | localSet : C.locals[x]? = some t → PlainTyped C ls (.localSet x) [t] []
  | localTee : C.locals[x]? = some t → PlainTyped C ls (.localTee x) [t] [t]
  | globalGet : C.globals[x]? = some g → PlainTyped C ls (.globalGet x) [] [g.type]
  | globalSet : C.globals[x]? = some g → g.isMutable = true →
      PlainTyped C ls (.globalSet x) [g.type] []
  | load : 0 < C.mems → 2 ^ align ≤ op.bytes →
      PlainTyped C ls (.load op align offset) [.i32] [op.type]
  | store : 0 < C.mems → 2 ^ align ≤ op.bytes →
      PlainTyped C ls (.store op align offset) [op.type, .i32] []
  | memorySize : 0 < C.mems → PlainTyped C ls .memorySize [] [.i32]
  | memoryGrow : 0 < C.mems → PlainTyped C ls .memoryGrow [.i32] [.i32]
  | i32Const : PlainTyped C ls (.i32Const n) [] [.i32]
  | i64Const : PlainTyped C ls (.i64Const n) [] [.i64]
  | f32Const : PlainTyped C ls (.f32Const z) [] [.f32]
  | f64Const : PlainTyped C ls (.f64Const z) [] [.f64]
  | num : PlainTyped C ls (.num n) n.type.1 [n.type.2]

def rules (C : Context) : Rules ValueType ValueType PlainInstr (Option ValueType) where
  matching := Matching.eq ValueType
  cond := .i32
  blockType b ins outs := ins = [] ∧ outs = b.toList
  plain := PlainTyped C

def declared (parts : List LocalEntry) : List ValueType :=
  parts.flatMap fun part => List.replicate part.count part.type

/-- The context of the `i`-th function that the module itself defines: its locals are
the parameters followed by the declared locals. -/
def ModuleStorage.context (m : ModuleStorage) (i : Nat) : Context :=
  let funcType := m.types.getD (m.funcs.getD i 0) default
  { types := m.types
    funcs := m.importedFunctions ++ m.funcs.map fun j => m.types.getD j default
    tables := m.importedTableCount + m.tableCount
    mems := m.importedMemoryCount + m.memoryCount
    globals := m.importedGlobals ++ m.localGlobals
    locals := funcType.parameter ++ declared (m.codes.getD i [])
    return_ := funcType.result }

def WellTyped (m : ModuleStorage) (i : Nat) (body : List Instr) : Prop :=
  BodyTyped (rules (m.context i)) (m.context i).return_.reverse body

end Uwvm2.Validation.Wasm1
