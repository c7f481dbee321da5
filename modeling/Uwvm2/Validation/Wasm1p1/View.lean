import Uwvm2.Validation.Wasm1p1.Checker

/-!
# Validator states of wasm1p1 as views of the token machine

The flat view of a token machine whose frames take and leave any number of
operands, and what the operand stack helpers do through it.
-/

namespace Uwvm2.Validation.Wasm1p1

open StackTyping OpStack
open Wasm1 (BlockType plusOne sizeMax)

-- The flat view

/-- The operands that the open frames cannot reach, innermost first. -/
def below : List (Frame ValueType) → List Operand
  | [] => []
  | f :: fs => f.saved.vals ++ below fs

def frameType : FrameKind → BlockType
  | .func => .function
  | .block => .block
  | .loop => .loop
  | .ifThen => .if_
  | .ifElse => .else_

def blockOf (f : Frame ValueType) (base : Nat) : Block where
  label := f.label.reverse
  start := f.ins.reverse
  result := f.outs.reverse
  operandStackBase := base
  type := frameType f.kind
  polymorphicBase := f.saved.poly

def blocks : List (Frame ValueType) → List Block
  | [] => []
  | f :: fs => blockOf f (below (f :: fs)).length :: blocks fs

/-- The validator state with unread input `c` that a machine stands for. -/
def stateOf (c : List UInt8) (m : Machine ValueType) : State :=
  ⟨c, blocks m.frames, m.cur.vals ++ below m.frames, m.cur.poly⟩

/-- The state as a function of the operands of the innermost frame. -/
abbrev within (c : List UInt8) (F : List (Frame ValueType)) (σ : OpStack ValueType) : State :=
  stateOf c ⟨F, σ⟩

@[simp] theorem stateOf_codeCurr (c : List UInt8) (m : Machine ValueType) :
    (stateOf c m).codeCurr = c := rfl

@[simp] theorem stateOf_controlFlowStack (c : List UInt8) (m : Machine ValueType) :
    (stateOf c m).controlFlowStack = blocks m.frames := rfl

@[simp] theorem stateOf_isPolymorphic (c : List UInt8) (m : Machine ValueType) :
    (stateOf c m).isPolymorphic = m.cur.poly := rfl

@[simp] theorem stateOf_withCode (c c' : List UInt8) (m : Machine ValueType) :
    { stateOf c m with codeCurr := c' } = stateOf c' m := rfl

variable {c : List UInt8} {f : Frame ValueType}
  {fs : List (Frame ValueType)} {σ : OpStack ValueType}

@[simp] theorem currFrameOperandStackBase_stateOf :
    currFrameOperandStackBase (stateOf c ⟨f :: fs, σ⟩) = (below (f :: fs)).length := rfl

@[simp] theorem concreteOperandCount_stateOf :
    concreteOperandCount (stateOf c ⟨f :: fs, σ⟩) = σ.vals.length := by
  simp [concreteOperandCount, stateOf, currFrameOperandStackBase, blocks, blockOf]

theorem popBack_stateOf (h : σ.vals ≠ []) :
    popBack (stateOf c ⟨f :: fs, σ⟩) = stateOf c ⟨f :: fs, σ.tail⟩ := by
  cases hs : σ.vals with
  | nil => exact absurd hs h
  | cons o os => simp [popBack, stateOf, hs]

@[simp] theorem tryPop_stateOf : tryPopConcreteOperand (stateOf c ⟨f :: fs, σ⟩) =
      (σ.vals.head?, stateOf c ⟨f :: fs, σ.tail⟩) := by
  unfold tryPopConcreteOperand
  rw [concreteOperandCount_stateOf]
  cases hs : σ.vals with
  | nil => simp [tail_eq_self hs]
  | cons o os =>
    rw [popBack_stateOf (by simp [hs])]
    simp [stateOf, hs]

@[simp] theorem pushOperand_stateOf :
    pushOperand t (stateOf c m) = stateOf c { m with cur := m.cur.push t } := rfl

theorem pushValueTypes_eq (ts : List ValueType) (st : State) :
    pushValueTypes ts st = { st with operandStack := ts.reverse.map some ++ st.operandStack } := by
  unfold pushValueTypes
  induction ts generalizing st with
  | nil => rfl
  | cons t ts ih =>
    rw [List.foldl_cons, ih]
    simp [pushOperand]

@[simp] theorem pushValueTypes_stateOf :
    pushValueTypes ts (stateOf c m) = stateOf c { m with cur := m.cur.pushAll ts.reverse } := by
  simp [pushValueTypes_eq, stateOf]

@[simp] theorem popAvailable_stateOf :
    popAvailableConcreteOperands n (stateOf c ⟨f :: fs, σ⟩) = stateOf c ⟨f :: fs, σ.drop n⟩ := by
  induction n generalizing σ with
  | zero => rfl
  | succ n ih =>
    unfold popAvailableConcreteOperands
    rw [concreteOperandCount_stateOf, drop_succ]
    cases hs : σ.vals with
    | nil =>
      have hdrop : σ.tail.drop n = σ := OpStack.ext (by simp [hs]) rfl
      simp [hdrop]
    | cons o os =>
      rw [popBack_stateOf (by simp [hs]), ih]
      simp

@[simp] theorem setUnreachable_stateOf :
    setUnreachable (stateOf c ⟨f :: fs, σ⟩) = stateOf c ⟨f :: fs, .unreachable⟩ := by
  unfold setUnreachable
  rw [currFrameOperandStackBase_stateOf]
  simp [truncateTo, stateOf]

-- Checks on the view

theorem readImm_eq {α : Type} {read : List UInt8 → Except Wasm1.ParseCode (α × List UInt8)} {x : α}
    (h : read c = .ok (x, c')) :
    readImm read env opBegin code (stateOf c m) = .ok (x, stateOf c' m) := by
  simp only [readImm, stateOf_codeCurr, h]
  rfl

theorem stackEntryTypeMatches_iff : stackEntryTypeMatches o t = true ∧ OpStack.agrees ts os = true ↔
      OpStack.agrees (t :: ts) (o :: os) = true := by
  cases o <;> simp [stackEntryTypeMatches, OpStack.agrees]

theorem operandTypeMatches_head :
    operandTypeMatches os.head? t = true ↔ OpStack.agrees [t] os = true := by
  cases os with
  | nil => simp [operandTypeMatches, OpStack.agrees]
  | cons o os => cases o <;> simp [operandTypeMatches, stackEntryTypeMatches, OpStack.agrees]

@[simp] theorem ensureOperands_ok :
    ensureOperands env opBegin opName n (stateOf c ⟨f :: fs, σ⟩) = .ok u ↔
      σ.poly = true ∨ n ≤ σ.vals.length := by
  simp [ensureOperands]

theorem checkConcrete_ok : checkConcrete fail ts os = .ok u ↔ OpStack.agrees ts os = true := by
  induction ts generalizing os with
  | nil => simp [checkConcrete]
  | cons t ts ih =>
    cases os with
    | nil => simp [checkConcrete, OpStack.agrees]
    | cons o os =>
      rw [← stackEntryTypeMatches_iff]
      simp [checkConcrete, ih]

@[simp] theorem checkConcreteOperands_ok {fail : ValueType → Operand → CodeValidationError} :
    checkConcreteOperands fail ts (stateOf c ⟨f :: fs, σ⟩) = .ok u ↔
      OpStack.agrees ts.reverse σ.vals = true := by
  unfold checkConcreteOperands
  rw [checkConcrete_ok, concreteOperandCount_stateOf]
  simp [stateOf]

-- Popping operands

theorem popExpectedOperands_tracks (ts : List ValueType) : Tracks (within c (f :: fs))
      (popExpectedOperands env opBegin opName ts (stateOf c ⟨f :: fs, σ⟩))
      (σ.popAll ts.reverse) := by
  intro st'
  simp only [popExpectedOperands, checkArguments, bind_ok, ensureOperands_ok,
    checkConcreteOperands_ok, popAvailable_stateOf, pure_ok, popAll_eq_some,
    List.length_reverse]
  constructor
  · rintro ⟨_, hlen, _, hagree, rfl⟩
    exact ⟨_, ⟨hlen, hagree, rfl⟩, rfl⟩
  · rintro ⟨_, ⟨hlen, hagree, rfl⟩, rfl⟩
    exact ⟨(), hlen, (), hagree, rfl⟩

theorem condition_tracks {α β : Type} {view : α → β} {k : State → Result β}
    {g : OpStack ValueType → Option α} (hn : n = ts.length) (hlen : n < sizeMax)
    (hk : σ.tail.poly = true ∨ ts.length ≤ σ.tail.vals.length →
      Tracks view (k (stateOf c ⟨f :: fs, σ.tail⟩)) ((σ.tail.popAll ts).bind g)) :
    Tracks view (do
        ensureOperandsPlusOne env opBegin opName n (stateOf c ⟨f :: fs, σ⟩)
        let st ← popI32 env opBegin code (stateOf c ⟨f :: fs, σ⟩)
        k st)
      ((σ.popAll (.i32 :: ts)).bind g) := by
  subst hn
  have hplus : plusOne ts.length = ts.length + 1 := if_neg (Nat.ne_of_lt hlen)
  have hfail : ¬ ((σ.poly = true ∨ ts.length + 1 ≤ σ.vals.length) ∧
      OpStack.agrees [.i32] σ.vals = true) → (σ.popAll (.i32 :: ts)).bind g = none := by
    intro hno
    cases hpop : σ.popAll (.i32 :: ts) with
    | none => rfl
    | some ρ =>
      obtain ⟨hl, -, -⟩ := popAll_eq_some.mp hpop
      obtain ⟨⟨_, hi⟩, -⟩ := popAll_cons.mp hpop
      exact absurd ⟨hl, (popExpect_eq_some.mp hi).2.1⟩ hno
  simp only [ensureOperandsPlusOne, popI32, tryPop_stateOf, stateOf_isPolymorphic,
    concreteOperandCount_stateOf, hplus, bind_assoc, pure_bind, operandTypeMatches_head]
  refine Tracks.ensure (fun hno => hfail fun h => hno (h.1.imp_right fun h => ?_)) fun hl => ?_
  · rintro (heq | hlt)
    · exact Nat.ne_of_lt hlen heq
    · exact Nat.not_lt.mpr h hlt
  refine Tracks.ensure (fun hno => hfail fun h => hno h.2) fun hi => ?_
  have hl' : σ.poly = true ∨ ts.length + 1 ≤ σ.vals.length :=
    hl.imp_right fun h => Nat.not_lt.mp fun hlt => h (.inr hlt)
  have hpop : σ.popExpect .i32 = some σ.tail :=
    popExpect_eq_some.mpr ⟨hl'.imp_right fun h => by omega, hi, rfl⟩
  have hcons : σ.popAll (.i32 :: ts) = σ.tail.popAll ts := by
    simp [OpStack.popAll, hpop]
  rw [hcons]
  exact hk (hl'.imp_right fun h => by simpa using Nat.le_sub_one_of_lt h)

end Uwvm2.Validation.Wasm1p1
