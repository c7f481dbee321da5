import Uwvm2.Validation.Wasm1.Opcode
import Uwvm2.Validation.Wasm1.Syntax

/-!
# The opcode table agrees with the binary format

Every opcode of the validator's enumeration is the opcode of an instruction of
WebAssembly 1.0, every instruction has one, and the arguments in the switch
(alignment bound, operand and result types) are those of the instruction.
-/

namespace Uwvm2.Validation.Wasm1

open List

-- Instruction families in the order of their opcodes

def Sx.all : List Sx := [.s, .u]

def IUnOp.all : List IUnOp := [.clz, .ctz, .popcnt]

def IBinOp.all : List IBinOp :=
  [.add, .sub, .mul, .div .s, .div .u, .rem .s, .rem .u, .and, .or, .xor, .shl, .shr .s, .shr .u,
   .rotl, .rotr]

def IRelOp.all : List IRelOp :=
  [.eq, .ne, .lt .s, .lt .u, .gt .s, .gt .u, .le .s, .le .u, .ge .s, .ge .u]

def FUnOp.all : List FUnOp := [.abs, .neg, .ceil, .floor, .trunc, .nearest, .sqrt]

def FBinOp.all : List FBinOp := [.add, .sub, .mul, .div, .min, .max, .copysign]

def FRelOp.all : List FRelOp := [.eq, .ne, .lt, .gt, .le, .ge]

def NumInstr.families : List (List NumInstr) :=
  [[.eqz .w32], IRelOp.all.map (.irelop .w32), [.eqz .w64], IRelOp.all.map (.irelop .w64),
   FRelOp.all.map (.frelop .w32), FRelOp.all.map (.frelop .w64),
   IUnOp.all.map (.iunop .w32), IBinOp.all.map (.ibinop .w32),
   IUnOp.all.map (.iunop .w64), IBinOp.all.map (.ibinop .w64),
   FUnOp.all.map (.funop .w32), FBinOp.all.map (.fbinop .w32),
   FUnOp.all.map (.funop .w64), FBinOp.all.map (.fbinop .w64),
   [.wrap], Sx.all.map (.trunc .w32 .w32), Sx.all.map (.trunc .w32 .w64), Sx.all.map .extend,
   Sx.all.map (.trunc .w64 .w32), Sx.all.map (.trunc .w64 .w64),
   Sx.all.map (.convert .w32 .w32), Sx.all.map (.convert .w32 .w64), [.demote],
   Sx.all.map (.convert .w64 .w32), Sx.all.map (.convert .w64 .w64), [.promote],
   [.reinterpretAsInt .w32], [.reinterpretAsInt .w64], [.reinterpretAsFloat .w32],
   [.reinterpretAsFloat .w64]]

def NumInstr.all : List NumInstr := NumInstr.families.flatten

def LoadInstr.families : List (List LoadInstr) :=
  [[.load .i32], [.load .i64], [.load .f32], [.load .f64], Sx.all.map .i32Load8,
   Sx.all.map .i32Load16, Sx.all.map .i64Load8, Sx.all.map .i64Load16, Sx.all.map .i64Load32]

def LoadInstr.all : List LoadInstr := LoadInstr.families.flatten

def StoreInstr.all : List StoreInstr :=
  [.store .i32, .store .i64, .store .f32, .store .f64, .i32Store8, .i32Store16, .i64Store8,
   .i64Store16, .i64Store32]

theorem Sx.mem_all (sx : Sx) : sx ∈ Sx.all := by cases sx <;> decide

theorem IUnOp.mem_all (op : IUnOp) : op ∈ IUnOp.all := by cases op <;> decide

theorem IBinOp.mem_all (op : IBinOp) : op ∈ IBinOp.all := by
  rcases op with _ | _ | _ | ⟨_ | _⟩ | ⟨_ | _⟩ | _ | _ | _ | _ | ⟨_ | _⟩ | _ | _ <;> decide

theorem IRelOp.mem_all (op : IRelOp) : op ∈ IRelOp.all := by
  rcases op with _ | _ | ⟨_ | _⟩ | ⟨_ | _⟩ | ⟨_ | _⟩ | ⟨_ | _⟩ <;> decide

theorem FUnOp.mem_all (op : FUnOp) : op ∈ FUnOp.all := by cases op <;> decide

theorem FBinOp.mem_all (op : FBinOp) : op ∈ FBinOp.all := by cases op <;> decide

theorem FRelOp.mem_all (op : FRelOp) : op ∈ FRelOp.all := by cases op <;> decide

theorem NumInstr.mem_all (n : NumInstr) : n ∈ NumInstr.all := by
  rcases n with ⟨_ | _⟩ | ⟨_ | _, op⟩ | ⟨_ | _, op⟩ | ⟨_ | _, op⟩ | ⟨_ | _, op⟩ | ⟨_ | _, op⟩ |
    ⟨_ | _, op⟩ | _ | op | ⟨_ | _, _ | _, op⟩ | ⟨_ | _, _ | _, op⟩ | _ | _ | ⟨_ | _⟩ | ⟨_ | _⟩ <;>
  simp [NumInstr.all, NumInstr.families, Sx.mem_all, IUnOp.mem_all, IBinOp.mem_all,
    IRelOp.mem_all, FUnOp.mem_all, FBinOp.mem_all, FRelOp.mem_all]

theorem LoadInstr.mem_all (op : LoadInstr) : op ∈ LoadInstr.all := by
  rcases op with ⟨_ | _ | _ | _⟩ | _ | _ | _ | _ | _ <;>
  simp [LoadInstr.all, LoadInstr.families, Sx.mem_all]

theorem StoreInstr.mem_all (op : StoreInstr) : op ∈ StoreInstr.all := by
  rcases op with ⟨_ | _ | _ | _⟩ | _ | _ | _ | _ | _ <;> simp [StoreInstr.all]

-- Arms

def Arm.opcode? : Arm → Option UInt8
  | .unreachable => some 0x00
  | .nop => some 0x01
  | .block => some 0x02
  | .loop => some 0x03
  | .if_ => some 0x04
  | .else_ => some 0x05
  | .end_ => some 0x0B
  | .br => some 0x0C
  | .brIf => some 0x0D
  | .brTable => some 0x0E
  | .return_ => some 0x0F
  | .call => some 0x10
  | .callIndirect => some 0x11
  | .drop => some 0x1A
  | .select => some 0x1B
  | .localGet => some 0x20
  | .localSet => some 0x21
  | .localTee => some 0x22
  | .globalGet => some 0x23
  | .globalSet => some 0x24
  | .memorySize => some 0x3F
  | .memoryGrow => some 0x40
  | .i32Const => some 0x41
  | .i64Const => some 0x42
  | .f32Const => some 0x43
  | .f64Const => some 0x44
  | _ => none

/-- The arm treats its opcode as this load. -/
def Arm.loads (op : LoadInstr) : Arm → Bool
  | .validateMemLoad _ maxAlign t => t = op.type && op.bytes = 2 ^ maxAlign
  | _ => false

def Arm.stores (op : StoreInstr) : Arm → Bool
  | .validateMemStore _ maxAlign t => t = op.type && op.bytes = 2 ^ maxAlign
  | _ => false

def Arm.computes (n : NumInstr) : Arm → Bool
  | .validateNumericUnary _ t r => n.type = ([t], r)
  | .validateNumericBinary _ t r => n.type = ([t, t], r)
  | _ => false

namespace Wasm1Code

def loads : List Wasm1Code := (all.drop 20).take 14
def stores : List Wasm1Code := (all.drop 34).take 9
def numerics : List Wasm1Code := all.drop 49

theorem loads_table : Forall₂ (fun c op => c.toByte = op.opcode ∧ c.arm.loads op = true)
    loads LoadInstr.all := by
  decide +kernel

theorem stores_table : Forall₂ (fun c op => c.toByte = op.opcode ∧ c.arm.stores op = true)
    stores StoreInstr.all := by
  decide +kernel

theorem numerics_table : Forall₂ (fun c n => c.toByte = n.opcode ∧ c.arm.computes n = true)
    numerics NumInstr.all := by
  decide +kernel

theorem others_table :
    ∀ c ∈ all.take 20 ++ (all.drop 43).take 6, c.arm.opcode? = some c.toByte := by
  decide +kernel

theorem exists_partner {α β : Type} {R : α → β → Prop} {as : List α} {bs : List β}
    (h : Forall₂ R as bs) {b : β} (hb : b ∈ bs) : ∃ a ∈ as, R a b := by
  induction h with
  | nil => cases hb
  | @cons a _ as _ hab _ ih =>
    rcases mem_cons.mp hb with rfl | hb
    · exact ⟨a, by simp, hab⟩
    · obtain ⟨a', ha', hR⟩ := ih hb
      exact ⟨a', by simp [ha'], hR⟩

theorem exists_load (op : LoadInstr) : ∃ c : Wasm1Code, c.toByte = op.opcode ∧
    ∃ opName maxAlign, c.arm = .validateMemLoad opName maxAlign op.type ∧
      op.bytes = 2 ^ maxAlign := by
  obtain ⟨c, -, hbyte, harm⟩ := exists_partner loads_table op.mem_all
  refine ⟨c, hbyte, ?_⟩
  cases hc : c.arm <;> simp [hc, Arm.loads] at harm
  case validateMemLoad opName maxAlign t => exact ⟨opName, maxAlign, by rw [harm.1], harm.2⟩

theorem exists_store (op : StoreInstr) : ∃ c : Wasm1Code, c.toByte = op.opcode ∧
    ∃ opName maxAlign, c.arm = .validateMemStore opName maxAlign op.type ∧
      op.bytes = 2 ^ maxAlign := by
  obtain ⟨c, -, hbyte, harm⟩ := exists_partner stores_table op.mem_all
  refine ⟨c, hbyte, ?_⟩
  cases hc : c.arm <;> simp [hc, Arm.stores] at harm
  case validateMemStore opName maxAlign t => exact ⟨opName, maxAlign, by rw [harm.1], harm.2⟩

theorem exists_numeric (n : NumInstr) : ∃ c : Wasm1Code, c.toByte = n.opcode ∧
    ((∃ opName t r, c.arm = .validateNumericUnary opName t r ∧ n.type = ([t], r)) ∨
      ∃ opName t r, c.arm = .validateNumericBinary opName t r ∧ n.type = ([t, t], r)) := by
  obtain ⟨c, -, hbyte, harm⟩ := exists_partner numerics_table n.mem_all
  refine ⟨c, hbyte, ?_⟩
  cases hc : c.arm <;> simp [hc, Arm.computes] at harm
  case validateNumericUnary opName t r => exact .inl ⟨opName, t, r, rfl, harm⟩
  case validateNumericBinary opName t r => exact .inr ⟨opName, t, r, rfl, harm⟩

/-- Each opcode belongs to its arm alone or is that of a load, store or numeric
instruction. -/
theorem arm_cases (c : Wasm1Code) : c.arm.opcode? = some c.toByte ∨
    (∃ op : LoadInstr, c.toByte = op.opcode ∧ c.arm.loads op = true) ∨
    (∃ op : StoreInstr, c.toByte = op.opcode ∧ c.arm.stores op = true) ∨
    ∃ n : NumInstr, c.toByte = n.opcode ∧ c.arm.computes n = true := by
  have hall : all = (all.take 20 ++ loads) ++ (stores ++ ((all.drop 43).take 6 ++ numerics)) := rfl
  have hc := hall ▸ c.mem_all
  simp only [mem_append] at hc
  rcases hc with (hc | hc) | hc | hc | hc
  · exact .inl (others_table c (mem_append_left _ hc))
  · obtain ⟨op, -, h⟩ := exists_partner loads_table.flip hc
    exact .inr (.inl ⟨op, h⟩)
  · obtain ⟨op, -, h⟩ := exists_partner stores_table.flip hc
    exact .inr (.inr (.inl ⟨op, h⟩))
  · exact .inl (others_table c (mem_append_right _ hc))
  · obtain ⟨n, -, h⟩ := exists_partner numerics_table.flip hc
    exact .inr (.inr (.inr ⟨n, h⟩))

end Wasm1Code

end Uwvm2.Validation.Wasm1
