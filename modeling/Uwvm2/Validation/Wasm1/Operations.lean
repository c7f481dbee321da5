import Uwvm2.Validation.Wasm1.Branches

/-!
# The arms of the validator that neither open nor leave a block

Calls, parametric, variable, memory and numeric instructions: each arm is the
checker's effect, given that the validator's environment describes the typing
context.
-/

namespace Uwvm2.Validation.Wasm1

open StackTyping OpStack

/-- The validator's environment as a typing context. Each field says that one of the
validator's own lookups finds what the context holds. -/
structure EnvFor (env : Env) (C : Context) : Prop where
  leb : env.leb.Correct
  types : env.module.types = C.types
  funcs : ∀ x, C.funcs[x]? =
    if x < env.importFuncCount + env.localFuncCount then some (calleeType env x) else none
  tables : 0 < env.allTableCount ↔ 0 < C.tables
  mems : env.allMemoryCount ≠ 0 ↔ 0 < C.mems
  globals : ∀ x, C.globals[x]? =
    if x < env.allGlobalCount then some (globalAt env x) else none
  locals : ∀ opBegin x t, localType env opBegin x = .ok t ↔ C.locals[x]? = some t
  result : C.return_.length ≤ 1
  parameters : ∀ t ∈ C.types, t.parameter.length < sizeMax

variable {env : Env} {opBegin c c' : List UInt8} {f : Frame ValueType}
  {fs : List (Frame ValueType)} {σ τ : OpStack ValueType} {C : Context}
  {ls : List (List ValueType)} {x : Nat}

theorem Yields.ensure {p : Prop} [Decidable p] (h : p → Yields (k ()) c F g) :
    Yields (ensure p e >>= k) c F (if p then g else none) := by
  by_cases hp : p
  · rw [ensure_pos hp, if_pos hp]
    exact h hp
  · rw [ensure_neg hp, if_neg hp]
    exact .error

-- Calls

theorem call_yields (hE : EnvFor env C) (h : env.leb.u32 c = .ok (x, c')) :
    Yields (call env opBegin (stateOf c ⟨f :: fs, σ⟩)) c' (f :: fs)
      (effect C true ls (.call x) σ) := by
  have heff : effect C true ls (.call x) σ =
      if x < env.importFuncCount + env.localFuncCount then
        σ.apply (calleeType env x).parameter.reverse (calleeType env x).result.reverse
      else none := by
    simp only [effect, signature, hE.funcs]
    split <;> rfl
  rw [heff]
  simp only [call, readImm_eq h, ok_bind, applyCall]
  refine Yields.ensure fun _ => ?_
  rw [OpStack.apply, Option.map_eq_bind]
  exact arguments_yield (k := fun st => pure (pushOperands _ st)) fun τ => by
    rw [pushOperands_stateOf]
    exact .pure

theorem readTableIndex_zero :
    readTableIndex env opBegin (stateOf (0 :: c) m) = .ok (stateOf c m) := rfl

theorem callIndirect_yields (hE : EnvFor env C) (h : env.leb.u32 c = .ok (x, 0 :: c')) :
    Yields (callIndirect env opBegin (stateOf c ⟨f :: fs, σ⟩)) c' (f :: fs)
      (effect C true ls (.callIndirect x) σ) := by
  have heff : effect C true ls (.callIndirect x) σ =
      if x < C.types.length then
        if 0 < env.allTableCount then
          σ.apply (.i32 :: (C.types.getD x default).parameter.reverse)
            (C.types.getD x default).result.reverse
        else none
      else none := by
    simp only [effect, signature, hE.tables]
    by_cases hx : x < C.types.length
    · by_cases ht : 0 < C.tables
      · simp [hx, ht]
      · simp [hx, ht]
    · simp [hx]
  rw [heff]
  simp only [callIndirect, readImm_eq h, ok_bind, readTableIndex_zero, applyCall, hE.types]
  refine Yields.ensure fun hx => Yields.ensure fun _ => ?_
  rw [OpStack.apply, Option.map_eq_bind, popAll_bind]
  have hparam : (C.types.getD x default).parameter.length < sizeMax := by
    simpa [hx] using hE.parameters _ (List.getElem_mem hx)
  refine condition_yields hparam fun _ => ?_
  rw [popAvailable_stateOf, pushOperands_stateOf]
  refine .of_eq ?_
  simp [drop_succ]

-- Parametric and variable instructions

theorem drop_yields :
    Yields (drop env opBegin (stateOf c ⟨f :: fs, σ⟩)) c (f :: fs) (effect C true ls .drop σ) := by
  intro st'
  simp only [drop, bind_ok, ensureOperands_ok, tryPop_stateOf, pure_ok, effect,
    Option.map_eq_some_iff, Prod.exists, popAny_eq_some]
  constructor
  · rintro ⟨_, hlen, rfl⟩
    exact ⟨_, ⟨_, _, ⟨hlen, rfl, rfl⟩, rfl⟩, rfl⟩
  · rintro ⟨_, ⟨_, _, ⟨hlen, rfl, rfl⟩, rfl⟩, rfl⟩
    exact ⟨(), hlen, rfl⟩

theorem selectEffect_eq : selectEffect σ = if σ.poly = true ∨ 3 ≤ σ.vals.length then
      if OpStack.agrees [.i32] σ.vals = true then
        selectResult σ.tail.tail.vals.head?.join σ.tail.vals.head?.join σ.tail.tail.tail
      else none
    else none := by
  ext τ
  simp only [selectEffect, Option.bind_eq_some_iff, popExpect_eq_some, Prod.exists,
    popAny_eq_some, Option.ite_none_right_eq_some]
  constructor
  · rintro ⟨_, ⟨h₁, hcond, rfl⟩, _, _, ⟨h₂, rfl, rfl⟩, _, _, ⟨h₃, rfl, rfl⟩, h⟩
    refine ⟨?_, hcond, h⟩
    simp only [tail_poly, tail_vals, List.length_tail] at h₃
    exact h₃.imp_right fun h => by omega
  · rintro ⟨hlen, hcond, h⟩
    have hlen' : ∀ n ≤ 3, σ.poly = true ∨ n ≤ σ.vals.length := fun n hn => hlen.imp_right (by omega)
    refine ⟨_, ⟨hlen' 1 (by omega), hcond, rfl⟩, _, _, ⟨?_, rfl, rfl⟩, _, _, ⟨?_, rfl, rfl⟩, h⟩
    · simpa using (hlen' 2 (by omega)).imp_right fun h => (by omega : 1 ≤ σ.vals.length - 1)
    · simpa using (hlen' 3 (by omega)).imp_right fun h => (by omega : 1 ≤ σ.vals.length - 1 - 1)

theorem select_yields : Yields (select env opBegin (stateOf c ⟨f :: fs, σ⟩)) c (f :: fs)
      (effect C true ls .select σ) := by
  simp only [select, effect, selectEffect_eq, tryPop_stateOf, ensureOperands, stateOf_isPolymorphic,
    concreteOperandCount_stateOf, not_mismatches, agrees_head]
  refine Yields.ensure fun hlen => Yields.ensure fun _ => ?_
  have hpoly := poly_of_unknown (σ := σ.tail.tail) (hlen.imp_right fun hlen => by simp; omega)
  unfold reportedType
  generalize σ.tail.tail.vals.head?.join = v₁ at hpoly
  generalize σ.tail.vals.head?.join = v₂
  rcases v₁ with _ | a <;> rcases v₂ with _ | b
  · have hp : σ.tail.tail.tail.poly = true := hpoly rfl
    simp only [selectResult, hp, dite_true, pushUnknownOperand_stateOf hp]
    exact .pure
  · exact .push
  · exact .push
  · exact Yields.ensure fun _ => .push

theorem local_yields (hE : EnvFor env C) (hk : ∀ t, Yields (k t) c F (g t)) :
    Yields (localType env opBegin x >>= k) c F (C.locals[x]?.bind g) := by
  cases hx : C.locals[x]? with
  | some t =>
    rw [(hE.locals opBegin x t).mpr hx]
    exact hk t
  | none =>
    obtain ⟨e, he⟩ : ∃ e, localType env opBegin x = .error e :=
      error_of_not_ok fun t ht => by simp [(hE.locals opBegin x t).mp ht] at hx
    rw [he]
    exact .error

section

variable (hE : EnvFor env C) (h : env.leb.u32 c = .ok (x, c'))

include hE h

theorem localGet_yields : Yields (localGet env opBegin (stateOf c ⟨f :: fs, σ⟩)) c' (f :: fs)
      (effect C true ls (.localGet x) σ) := by
  simp only [localGet, readImm_eq h, ok_bind, effect, signature, Option.bind_map]
  exact local_yields hE fun t => .push

theorem localSet_yields : Yields (localSet env opBegin (stateOf c ⟨f :: fs, σ⟩)) c' (f :: fs)
      (effect C true ls (.localSet x) σ) := by
  simp only [localSet, readImm_eq h, ok_bind, effect, signature, Option.bind_map]
  refine local_yields hE fun t => ?_
  simpa [apply_one] using popTyped_yields

theorem localTee_yields : Yields (localTee env opBegin (stateOf c ⟨f :: fs, σ⟩)) c' (f :: fs)
      (effect C true ls (.localTee x) σ) := by
  simp only [localTee, readImm_eq h, ok_bind, effect, signature, Option.bind_map]
  refine local_yields hE fun t => ?_
  by_cases hs : σ.vals = []
  · -- the operand comes from the polymorphic base and stays there
    have heff : σ.apply [t] [t] = if σ.poly = true ∨ 1 ≤ σ.vals.length then some (σ.push t)
        else none := by
      ext τ
      simp [apply_eq_some, hs, OpStack.agrees, drop_succ, tail_eq_self hs,
        eq_comm (a := τ)]
    simp only [Function.comp_apply, heff, ensureOperands, stateOf_isPolymorphic,
      concreteOperandCount_stateOf, hs, List.length_nil, if_true]
    exact Yields.ensure fun _ => .push
  · have heff : σ.apply [t] [t] = if σ.poly = true ∨ 1 ≤ σ.vals.length then
        if OpStack.agrees [t] σ.vals = true then some (σ.tail.push t) else none else none := by
      ext τ
      simp [apply_eq_some, drop_succ, eq_comm (a := τ)]
    simp only [Function.comp_apply, heff, ensureOperands, stateOf_isPolymorphic,
      concreteOperandCount_stateOf, List.length_eq_zero_iff, hs, if_false, head?_stateOf hs,
      not_mismatches, agrees_head, replaceTop_stateOf hs]
    exact Yields.ensure fun _ => Yields.ensure fun _ => .pure

-- Globals

theorem globalGet_yields : Yields (globalGet env opBegin (stateOf c ⟨f :: fs, σ⟩)) c' (f :: fs)
      (effect C true ls (.globalGet x) σ) := by
  have heff : effect C true ls (.globalGet x) σ =
      if x < env.allGlobalCount then some (σ.push (globalAt env x).type) else none := by
    simp only [effect, signature, hE.globals]
    split <;> rfl
  simp only [globalGet, readGlobalIndex, readImm_eq h, ok_bind, heff, bind_assoc, pure_bind]
  exact Yields.ensure fun _ => .push

theorem globalSet_yields : Yields (globalSet env opBegin (stateOf c ⟨f :: fs, σ⟩)) c' (f :: fs)
      (effect C true ls (.globalSet x) σ) := by
  have heff : effect C true ls (.globalSet x) σ =
      if x < env.allGlobalCount then
        if (globalAt env x).isMutable = true then σ.popExpect (globalAt env x).type else none
      else none := by
    simp only [effect, signature, hE.globals]
    split
    · split <;> simp [apply_one, *]
    · rfl
  simp only [globalSet, readGlobalIndex, readImm_eq h, ok_bind, heff, bind_assoc, pure_bind]
  exact Yields.ensure fun _ => Yields.ensure fun _ => popTyped_yields

end

-- Memory and numeric instructions

section

variable (hE : EnvFor env C) (halign : env.leb.u32 c = .ok (align, c₁))
  (hoffset : env.leb.u32 c₁ = .ok (offset, c'))

include hE halign hoffset

theorem memarg_yields (hk : Yields (k (stateOf c' ⟨f :: fs, σ⟩)) c' (f :: fs) e) :
    Yields (readMemarg env opBegin opName maxAlign (stateOf c ⟨f :: fs, σ⟩) >>= k) c' (f :: fs)
      (if 0 < C.mems ∧ align ≤ maxAlign then e else none) := by
  have hif : (if 0 < C.mems ∧ align ≤ maxAlign then e else none) =
      if env.allMemoryCount ≠ 0 then if align ≤ maxAlign then e else none else none := by
    simp only [hE.mems, ite_and]
  rw [hif]
  simp only [readMemarg, readImm_eq halign, readImm_eq hoffset, ok_bind, bind_assoc, pure_bind]
  exact Yields.ensure fun _ => Yields.ensure fun _ => hk

theorem validateMemLoad_yields (hop : op.bytes = 2 ^ maxAlign) :
    Yields (validateMemLoad env opBegin (stateOf c ⟨f :: fs, σ⟩) opName maxAlign op.type) c'
      (f :: fs) (effect C true ls (.load op align offset) σ) := by
  have heff : effect C true ls (.load op align offset) σ =
      if 0 < C.mems ∧ align ≤ maxAlign then
        (σ.popExpect .i32).bind fun ρ => some (ρ.push op.type)
      else none := by
    simp only [effect, signature, hop, Nat.pow_le_pow_iff_right (Nat.one_lt_two)]
    split <;> simp [apply_one]
  rw [heff]
  exact memarg_yields hE halign hoffset (popTyped_yields.bind fun _ => .push)

end

theorem apply_two : σ.apply [t, u] outs = if σ.poly = true ∨ 2 ≤ σ.vals.length then
      if OpStack.agrees [t] σ.vals = true ∧ OpStack.agrees [u] σ.tail.vals = true then
        some (σ.tail.tail.pushAll outs) else none else none := by
  have hcons : OpStack.agrees [t, u] σ.vals = true ↔ _ := agrees_cons
  ext τ
  simp only [apply_eq_some, hcons, Option.ite_none_right_eq_some]
  simp [drop_succ, eq_comm (a := τ)]

theorem validateMemStore_yields (hE : EnvFor env C) (halign : env.leb.u32 c = .ok (align, c₁))
    (hoffset : env.leb.u32 c₁ = .ok (offset, c')) (hop : op.bytes = 2 ^ maxAlign) :
    Yields (validateMemStore env opBegin (stateOf c ⟨f :: fs, σ⟩) opName maxAlign op.type) c'
      (f :: fs) (effect C true ls (.store op align offset) σ) := by
  have heff : effect C true ls (.store op align offset) σ =
      if 0 < C.mems ∧ align ≤ maxAlign then
        if σ.poly = true ∨ 2 ≤ σ.vals.length then
          if OpStack.agrees [.i32] σ.tail.vals = true then
            if OpStack.agrees [op.type] σ.vals = true then some σ.tail.tail else none
          else none
        else none
      else none := by
    simp only [effect, signature, hop, Nat.pow_le_pow_iff_right (Nat.one_lt_two)]
    split
    · simp only [Option.bind_some, apply_two, pushAll_nil, and_comm, ite_and]
    · rfl
  rw [heff]
  refine memarg_yields hE halign hoffset ?_
  simp only [ensureOperands, stateOf_isPolymorphic, concreteOperandCount_stateOf, tryPop_stateOf,
    not_mismatches, agrees_head]
  exact Yields.ensure fun _ => Yields.ensure fun _ => Yields.ensure fun _ => .pure

theorem memoryIndex_yields (hE : EnvFor env C)
    (hk : Yields (k (stateOf c ⟨f :: fs, σ⟩)) c (f :: fs) e) :
    Yields (readMemoryIndex env opBegin (stateOf (0 :: c) ⟨f :: fs, σ⟩) opName >>= k) c (f :: fs)
      (if 0 < C.mems then e else none) := by
  have hif : (if 0 < C.mems then e else none) =
      if env.allMemoryCount ≠ 0 then e else none := by simp only [hE.mems]
  rw [hif]
  have hread : readMemoryIndex env opBegin (stateOf (0 :: c) ⟨f :: fs, σ⟩) opName = (do
      ensure (env.allMemoryCount ≠ 0) (errorAt env opBegin (.noMemory opName 0 0))
      return stateOf c ⟨f :: fs, σ⟩) := rfl
  simp only [hread, bind_assoc, pure_bind]
  exact Yields.ensure fun _ => hk

theorem memorySize_yields (hE : EnvFor env C) :
    Yields (memorySize env opBegin (stateOf (0 :: c) ⟨f :: fs, σ⟩)) c (f :: fs)
      (effect C true ls .memorySize σ) := by
  have heff : effect C true ls .memorySize σ = if 0 < C.mems then some (σ.push .i32) else none := by
    simp only [effect, signature]
    split <;> rfl
  rw [heff]
  exact memoryIndex_yields hE .push

theorem memoryGrow_yields (hE : EnvFor env C) :
    Yields (memoryGrow env opBegin (stateOf (0 :: c) ⟨f :: fs, σ⟩)) c (f :: fs)
      (effect C true ls .memoryGrow σ) := by
  have heff : effect C true ls .memoryGrow σ = if 0 < C.mems then
      (σ.popExpect .i32).bind fun ρ => some (ρ.push .i32) else none := by
    simp only [effect, signature]
    split <;> simp [apply_one]
  rw [heff]
  exact memoryIndex_yields hE (popTyped_yields.bind fun _ => .push)

theorem i32Const_yields (h : env.leb.i32 c = .ok (n, c')) :
    Yields (i32Const env opBegin (stateOf c ⟨f :: fs, σ⟩)) c' (f :: fs)
      (effect C true ls (.i32Const n) σ) := by
  simp only [i32Const, readImm_eq h, ok_bind]
  exact .push

theorem i64Const_yields (h : env.leb.i64 c = .ok (n, c')) :
    Yields (i64Const env opBegin (stateOf c ⟨f :: fs, σ⟩)) c' (f :: fs)
      (effect C true ls (.i64Const n) σ) := by
  simp only [i64Const, readImm_eq h, ok_bind]
  exact .push

theorem floatConst_yields :
    Yields (floatConst env opBegin (stateOf (z ++ c) ⟨f :: fs, σ⟩) opName z.length t) c (f :: fs)
      (some (σ.push t)) := by
  simp only [floatConst, stateOf_codeCurr, List.length_append, Nat.le_add_right, ensure_pos,
    ok_bind, List.drop_left, stateOf_withCode]
  exact .push

theorem validateNumericUnary_yields :
    Yields (validateNumericUnary env opBegin (stateOf c ⟨f :: fs, σ⟩) opName t r) c (f :: fs)
      (σ.apply [t] [r]) := by
  rw [apply_one]
  exact popTyped_yields.bind fun _ => .push

theorem validateNumericBinary_yields :
    Yields (validateNumericBinary env opBegin (stateOf c ⟨f :: fs, σ⟩) opName t r) c (f :: fs)
      (σ.apply [t, t] [r]) := by
  simp only [apply_two, ite_and, validateNumericBinary, ensureOperands, stateOf_isPolymorphic,
    concreteOperandCount_stateOf, tryPop_stateOf, not_mismatches, agrees_head, pushAll_one]
  exact Yields.ensure fun _ => Yields.ensure fun _ => Yields.ensure fun _ => .push

end Uwvm2.Validation.Wasm1
