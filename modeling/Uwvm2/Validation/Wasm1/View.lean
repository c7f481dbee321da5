import Uwvm2.Validation.Wasm1.Checker
import Uwvm2.Validation.Wasm1.Validator

/-!
# Validator states as views of the token machine

A validator state is the flat view of a token machine: the operands of all open
frames in one list, with each frame remembering where its own begin. `Yields`
says that an arm of the switch does through this view what the checker does on
the operands of the innermost frame.
-/

namespace Uwvm2.Validation.Wasm1

open StackTyping OpStack

-- The flat view

/-- The operands that the open frames cannot reach, innermost first. -/
def below : List (Frame ValueType) → List Operand
  | [] => []
  | f :: fs => f.saved.vals ++ below fs

def frameType : FrameKind → BlockType
  | .func => .function
  | .block => .block
  | .loop => .loop
  | .ifThen => .if_
  | .ifElse => .else_

def blockOf (f : Frame ValueType) (base : Nat) : Block :=
  ⟨f.outs.reverse, base, frameType f.kind, f.saved.poly⟩

def blocks : List (Frame ValueType) → List Block
  | [] => []
  | f :: fs => blockOf f (below (f :: fs)).length :: blocks fs

/-- The validator state with unread input `c` that a machine stands for. -/
def stateOf (c : List UInt8) (m : Machine ValueType) : State :=
  ⟨c, blocks m.frames, m.cur.vals ++ below m.frames, m.cur.poly⟩

@[simp] theorem stateOf_codeCurr (c : List UInt8) (m : Machine ValueType) :
    (stateOf c m).codeCurr = c := rfl

@[simp] theorem stateOf_controlFlowStack (c : List UInt8) (m : Machine ValueType) :
    (stateOf c m).controlFlowStack = blocks m.frames := rfl

@[simp] theorem stateOf_isPolymorphic (c : List UInt8) (m : Machine ValueType) :
    (stateOf c m).isPolymorphic = m.cur.poly := rfl

@[simp] theorem stateOf_withCode (c c' : List UInt8) (m : Machine ValueType) :
    { stateOf c m with codeCurr := c' } = stateOf c' m := rfl

variable {c : List UInt8} {f : Frame ValueType} {fs : List (Frame ValueType)}
  {τ : OpStack ValueType} {st' : State}

@[simp] theorem currFrameOperandStackBase_stateOf :
    currFrameOperandStackBase (stateOf c ⟨f :: fs, σ⟩) = (below (f :: fs)).length := rfl

@[simp] theorem concreteOperandCount_stateOf :
    concreteOperandCount (stateOf c ⟨f :: fs, σ⟩) = σ.vals.length := by
  simp [concreteOperandCount, stateOf, currFrameOperandStackBase, blocks, blockOf]

theorem popBack_stateOf (h : σ.vals ≠ []) :
    popBack (stateOf c ⟨f :: fs, σ⟩) = stateOf c ⟨f :: fs, σ.tail⟩ := by
  cases hs : σ.vals with
  | nil => exact absurd hs h
  | cons o os => simp [popBack, stateOf, hs]

theorem replaceTop_stateOf (h : σ.vals ≠ []) :
    replaceTop t (stateOf c ⟨f :: fs, σ⟩) = stateOf c ⟨f :: fs, σ.tail.push t⟩ := by
  cases hs : σ.vals with
  | nil => exact absurd hs h
  | cons o os => simp [replaceTop, stateOf, hs]

theorem head?_stateOf (h : σ.vals ≠ []) :
    (stateOf c ⟨f :: fs, σ⟩).operandStack.head? = σ.vals.head? := by
  cases hs : σ.vals with
  | nil => exact absurd hs h
  | cons o os => simp [stateOf, hs]

@[simp] theorem tryPop_stateOf : tryPopConcreteOperand (stateOf c ⟨f :: fs, σ⟩) =
      (σ.vals.head?, stateOf c ⟨f :: fs, σ.tail⟩) := by
  unfold tryPopConcreteOperand
  rw [concreteOperandCount_stateOf]
  cases hs : σ.vals with
  | nil => simp [tail_eq_self hs]
  | cons o os =>
    rw [popBack_stateOf (by simp [hs]), head?_stateOf (by simp [hs])]
    simp [hs]

@[simp] theorem pushOperand_stateOf :
    pushOperand t (stateOf c m) = stateOf c { m with cur := m.cur.push t } := rfl

theorem pushUnknownOperand_stateOf (h : σ.poly = true) :
    pushUnknownOperand (stateOf c ⟨F, σ⟩) = stateOf c ⟨F, σ.pushUnknown h⟩ := by
  simpa [pushUnknownOperand, stateOf, OpStack.pushUnknown] using h

theorem pushOperands_eq (ts : List ValueType) (st : State) :
    pushOperands ts st = { st with operandStack := ts.reverse.map some ++ st.operandStack } := by
  unfold pushOperands
  induction ts generalizing st with
  | nil => rfl
  | cons t ts ih =>
    rw [List.foldl_cons, ih]
    simp [pushOperand]

@[simp] theorem pushOperands_stateOf :
    pushOperands ts (stateOf c m) = stateOf c { m with cur := m.cur.pushAll ts.reverse } := by
  simp [pushOperands_eq, stateOf]

@[simp] theorem popAvailable_stateOf :
    popAvailableConcreteOperands n (stateOf c ⟨f :: fs, σ⟩) = stateOf c ⟨f :: fs, σ.drop n⟩ := by
  induction n generalizing σ with
  | zero => rfl
  | succ n ih =>
    unfold popAvailableConcreteOperands
    rw [concreteOperandCount_stateOf, drop_succ]
    cases hs : σ.vals with
    | nil =>
      have hdrop : σ.tail.drop n = σ := OpStack.ext (by simp [hs]) rfl
      simp [hdrop]
    | cons o os =>
      rw [popBack_stateOf (by simp [hs]), ih]
      simp

@[simp] theorem setUnreachable_stateOf :
    setUnreachable (stateOf c ⟨f :: fs, σ⟩) = stateOf c ⟨f :: fs, .unreachable⟩ := by
  unfold setUnreachable
  rw [currFrameOperandStackBase_stateOf]
  simp [truncateTo, stateOf]

-- Checks on the view

theorem readImm_ok {α : Type} {read : List UInt8 → Except ParseCode (α × List UInt8)} {x : α} :
    readImm read env opBegin code (stateOf c m) = .ok (x, st') ↔
      ∃ c', read c = .ok (x, c') ∧ st' = stateOf c' m := by
  unfold readImm
  cases h : read (stateOf c m).codeCurr with
  | error e => simp_all
  | ok r =>
    obtain ⟨y, c'⟩ := r
    simp_all [stateOf, eq_comm]

theorem not_mismatches : ¬ mismatches o t ↔ agrees [t] o.toList = true := by
  match o with
  | none => simp [mismatches, agrees]
  | some none => simp [mismatches, agrees]
  | some (some t') => simp [mismatches, agrees]

theorem agrees_head {os : List Operand} : agrees [t] os.head?.toList = agrees [t] os := by
  cases os with
  | nil => rfl
  | cons o os => simp [agrees]

@[simp] theorem ensureOperands_ok :
    ensureOperands env opBegin opName n (stateOf c ⟨f :: fs, σ⟩) = .ok u ↔
      σ.poly = true ∨ n ≤ σ.vals.length := by
  simp [ensureOperands]

theorem checkConcrete_ok : checkConcrete fail ts os = .ok u ↔ agrees ts os = true := by
  induction ts generalizing os with
  | nil => simp [checkConcrete]
  | cons t ts ih =>
    cases os with
    | nil => simp [checkConcrete, agrees]
    | cons o os =>
      simp only [checkConcrete, bind_ok, ensure_ok, exists_and_left, ih, not_mismatches]
      simp [agrees]

@[simp] theorem checkConcreteOperands_ok {fail : ValueType → Operand → CodeValidationError} :
    checkConcreteOperands fail ts (stateOf c ⟨f :: fs, σ⟩) = .ok u ↔
      agrees ts.reverse σ.vals = true := by
  unfold checkConcreteOperands
  rw [checkConcrete_ok, concreteOperandCount_stateOf]
  simp [stateOf]

-- Arms of the switch on the view

/-- The result of an arm, given what the checker says about the operands. -/
def Yields (r : Result State) (c : List UInt8) (F : List (Frame ValueType))
    (e : Option (OpStack ValueType)) : Prop :=
  ∀ st', r = .ok st' ↔ ∃ τ, e = some τ ∧ st' = stateOf c ⟨F, τ⟩

theorem Yields.bind (hr : Yields r c F e) (hk : ∀ τ, Yields (k (stateOf c ⟨F, τ⟩)) c' F (g τ)) :
    Yields (r >>= k) c' F (e.bind g) :=
  Tracks.bind hr fun τ _ => hk τ

theorem Yields.pure : Yields (pure (stateOf c ⟨F, τ⟩)) c F (some τ) :=
  Tracks.pure rfl

theorem Yields.push : Yields (Pure.pure (pushOperand t (stateOf c ⟨F, τ⟩))) c F (some (τ.push t)) :=
  Yields.pure (τ := τ.push t)

theorem Yields.of_eq (h : τ = τ') : Yields (Pure.pure (stateOf c ⟨F, τ⟩)) c F (some τ') :=
  h ▸ Yields.pure

theorem Yields.error : Yields (.error e) c F none := Tracks.error

theorem readImm_eq {α : Type} {read : List UInt8 → Except ParseCode (α × List UInt8)} {x : α}
    (h : read c = .ok (x, c')) :
    readImm read env opBegin code (stateOf c m) = .ok (x, stateOf c' m) :=
  readImm_ok.mpr ⟨c', h, rfl⟩

theorem popTyped_yields :
    Yields (popTyped env opBegin opName t code (stateOf c ⟨f :: fs, σ⟩)) c (f :: fs)
      (σ.popExpect t) := by
  intro st'
  simp only [popTyped, tryPop_stateOf, bind_ok, ensureOperands_ok, ensure_ok, not_mismatches,
    agrees_head, pure_ok, popExpect_eq_some]
  constructor
  · rintro ⟨_, hlen, _, hagree, rfl⟩
    exact ⟨_, ⟨hlen, hagree, rfl⟩, rfl⟩
  · rintro ⟨_, ⟨hlen, hagree, rfl⟩, rfl⟩
    exact ⟨(), hlen, (), hagree, rfl⟩

theorem arguments_yield {k : State → Result State}
    (hk : ∀ τ, Yields (k (stateOf c ⟨f :: fs, τ⟩)) c' (f :: fs) (g τ)) :
    Yields (do
        ensureOperands env opBegin opName ts.length (stateOf c ⟨f :: fs, σ⟩)
        checkArguments env opBegin opName ts (stateOf c ⟨f :: fs, σ⟩)
        k (popAvailableConcreteOperands ts.length (stateOf c ⟨f :: fs, σ⟩)))
      c' (f :: fs) ((σ.popAll ts.reverse).bind g) := by
  have hpop : σ.popAll ts.reverse = some (σ.drop ts.length) ↔
      (σ.poly = true ∨ ts.length ≤ σ.vals.length) ∧ agrees ts.reverse σ.vals = true := by
    rw [popAll_eq_some]
    simp
  intro st'
  simp only [checkArguments, bind_ok, ensureOperands_ok, checkConcreteOperands_ok,
    popAvailable_stateOf, (hk _) _, Option.bind_eq_some_iff]
  constructor
  · rintro ⟨_, hlen, _, hagree, τ, hg, rfl⟩
    exact ⟨τ, ⟨_, hpop.mpr ⟨hlen, hagree⟩, hg⟩, rfl⟩
  · rintro ⟨τ, ⟨ρ, hρ, hg⟩, rfl⟩
    obtain rfl : ρ = σ.drop ts.length := by
      simpa using (popAll_eq_some.mp hρ).2.2
    obtain ⟨hlen, hagree⟩ := hpop.mp hρ
    exact ⟨(), hlen, (), hagree, τ, hg, rfl⟩

end Uwvm2.Validation.Wasm1
