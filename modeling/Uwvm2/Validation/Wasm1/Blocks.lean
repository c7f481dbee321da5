import Uwvm2.Validation.Wasm1.Branches

/-!
# The arms of the validator that open and close blocks

`block`, `loop`, `if`, `else` and `end` change the stack of frames exactly as
the token machine does.
-/

namespace Uwvm2.Validation.Wasm1

open StackTyping

variable {t : Option ValueType}

theorem readBlockType_ok (h : BlockTypeBytes t a) :
    readBlockType env opBegin (stateOf (a ++ c) m) = .ok (t.toList, stateOf c m) := by
  cases h <;> rfl

/-- A block has at most one result, so its list of results reads the same both ways. -/
theorem pushFrame_stateOf (k : FrameKind) : pushFrame (frameType k) t.toList (stateOf c m) =
      stateOf c ⟨⟨k, [], t.toList, m.cur⟩ :: m.frames, .ofTypes []⟩ := by
  cases t <;> simp [pushFrame, stateOf, blocks, blockOf, below]

theorem block_eq (h : BlockTypeBytes t a) : block env opBegin (stateOf (a ++ c) m) =
      .ok (stateOf c ⟨⟨.block, [], t.toList, m.cur⟩ :: m.frames, .ofTypes []⟩) := by
  simp only [block, readBlockType_ok h, ok_bind]
  exact congrArg Except.ok (pushFrame_stateOf .block)

theorem loop_eq (h : BlockTypeBytes t a) : loop env opBegin (stateOf (a ++ c) m) =
      .ok (stateOf c ⟨⟨.loop, [], t.toList, m.cur⟩ :: m.frames, .ofTypes []⟩) := by
  simp only [loop, readBlockType_ok h, ok_bind]
  exact congrArg Except.ok (pushFrame_stateOf .loop)

theorem if_ok (h : BlockTypeBytes t a) : if_ env opBegin (stateOf (a ++ c) ⟨f :: fs, σ⟩) = .ok st' ↔
      ∃ ρ, σ.popExpect .i32 = some ρ ∧
        st' = stateOf c ⟨⟨.ifThen, [], t.toList, ρ⟩ :: f :: fs, .ofTypes []⟩ := by
  have hpush : ∀ ρ, pushFrame .if_ t.toList (stateOf c ⟨f :: fs, ρ⟩) =
      stateOf c ⟨⟨.ifThen, [], t.toList, ρ⟩ :: f :: fs, .ofTypes []⟩ :=
    fun ρ => pushFrame_stateOf .ifThen
  simp only [if_, readBlockType_ok h, ok_bind, bind_ok, ensureOperands_ok, tryPop_stateOf,
    ensure_ok, not_mismatches, agrees_head, pure_ok, hpush, OpStack.popExpect_eq_some]
  constructor
  · rintro ⟨_, hlen, _, hcond, rfl⟩
    exact ⟨_, ⟨hlen, hcond, rfl⟩, rfl⟩
  · rintro ⟨_, ⟨hlen, hcond, rfl⟩, rfl⟩
    exact ⟨(), hlen, (), hcond, rfl⟩

theorem checkResults_ok :
    checkResults fail result (stateOf c ⟨f :: fs, σ⟩) = .ok u ↔ σ.exits result.reverse = true := by
  simp only [checkResults, bind_ok, ensure_ok, checkConcreteOperands_ok, stateOf_isPolymorphic,
    concreteOperandCount_stateOf, OpStack.exits_eq_true, List.length_reverse, exists_const]

theorem frameType_if : frameType k = .if_ ↔ k = .ifThen := by
  cases k <;> simp [frameType]

theorem frameType_function : frameType k = .function ↔ k = .func := by
  cases k <;> simp [frameType]

theorem enterElse_stateOf :
    enterElse (blockOf f (below (f :: fs)).length) (blocks fs) (stateOf c ⟨f :: fs, σ⟩) =
      stateOf c ⟨{ f with kind := .ifElse } :: fs, .ofTypes []⟩ := by
  simp [enterElse, truncateTo, stateOf, blocks, blockOf, frameType, below]

theorem else_ok : else_ env opBegin (stateOf c ⟨f :: fs, σ⟩) = .ok st' ↔
      f.kind = .ifThen ∧ σ.exits f.outs = true ∧
        st' = stateOf c ⟨{ f with kind := .ifElse } :: fs, .ofTypes []⟩ := by
  have hresult : (blockOf f (below (f :: fs)).length).result.reverse = f.outs := by simp [blockOf]
  simp only [else_, stateOf_controlFlowStack, blocks, bind_ok, ensure_ok, checkResults_ok, pure_ok,
    enterElse_stateOf, hresult]
  simp [blockOf, frameType_if, eq_comm (b := st')]

theorem leaveFrame_stateOf :
    leaveFrame (blockOf f (below (f :: fs)).length) (blocks fs) (stateOf c ⟨f :: fs, σ⟩) =
      stateOf c ⟨fs, f.saved.pushAll f.outs⟩ := by
  simp [leaveFrame, pushOperands_eq, truncateTo, stateOf, blockOf, below]

theorem end_ok (hk : f.kind ≠ .func) : end_ env opBegin (stateOf c ⟨f :: fs, σ⟩) = .ok r ↔
      (f.kind = .ifThen → f.outs = []) ∧ σ.exits f.outs = true ∧
        r = some (stateOf c ⟨fs, f.saved.pushAll f.outs⟩) := by
  have hresult : (blockOf f (below (f :: fs)).length).result.reverse = f.outs := by simp [blockOf]
  have htype : ¬ (blockOf f (below (f :: fs)).length).type = .function := by
    simpa [blockOf, frameType_function] using hk
  simp only [end_, stateOf_controlFlowStack, blocks, bind_ok, ensure_ok, checkResults_ok, pure_ok,
    leaveFrame_stateOf, hresult, htype, if_false]
  simp [blockOf, frameType_if, eq_comm (b := r)]

theorem end_func_ok (hk : f.kind = .func) : end_ env opBegin (stateOf c ⟨f :: fs, σ⟩) = .ok r ↔
      σ.exits f.outs = true ∧ c = [] ∧ r = none := by
  have hresult : (blockOf f (below (f :: fs)).length).result.reverse = f.outs := by simp [blockOf]
  have htype : (blockOf f (below (f :: fs)).length).type = .function := by
    simpa [blockOf, frameType_function] using hk
  simp only [end_, stateOf_controlFlowStack, blocks, bind_ok, ensure_ok, checkResults_ok, pure_ok,
    leaveFrame_stateOf, hresult, htype, if_true, stateOf_codeCurr]
  simp [eq_comm (b := r)]

end Uwvm2.Validation.Wasm1
