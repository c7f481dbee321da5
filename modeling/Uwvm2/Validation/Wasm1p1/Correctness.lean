import Uwvm2.Validation.Wasm1p1.Step

/-!
# Validation of multi-value control flow

With multi-value enabled and the MVP rules off, a body that is built from control,
constant and numeric instructions is accepted exactly when its bytes decode to
well-typed code. What the validator does at other opcodes is a parameter, so the
result does not depend on it.
-/

namespace Uwvm2.Validation.Wasm1p1

open StackTyping
open Wasm1 (LebReader U32)

theorem ParsedModule.envFor (m : ParsedModule) (hleb : leb.Correct)
    (hmulti : para.disableMultiValue = false)
    (hvector : para.controllableAllowMultiResultVector = false)
    (hcore2 : usesMvpValidationRules para = false) (hi : i < m.funcs.length) (n : Nat) :
    EnvFor ⟨leb, para, m.types, n, otherArm⟩ (m.context para.parts i) := by
  have hfunc : m.funcs[i]? = some (m.funcs.getD i 0) := by simp [hi]
  have hlt : m.funcs.getD i 0 < m.types.length := m.funcs_lt _ (List.mem_of_getElem? hfunc)
  have htype : m.types.getD (m.funcs.getD i 0) default ∈ m.types := by
    have hget : m.types[m.funcs.getD i 0]? = some (m.types.getD (m.funcs.getD i 0) default) := by
      simp only [List.getD_eq_getElem?_getD] at hlt ⊢
      simp [hlt]
    exact List.mem_of_getElem? hget
  constructor
  case leb => exact hleb
  case multiValue => simp [hmulti, hvector]
  case core2 => exact hcore2
  case parts => rfl
  case types => rfl
  case types_fit => exact m.types_fit
  case return_fit => exact (m.types_fit _ htype).2

theorem initialState_views (C : Context) (hfit : C.return_.length < 2 ^ 32)
    (funcType : FunctionType) (h : funcType.result = C.return_) (code : List UInt8) :
    Views C (initialState funcType code) (.start C.return_.reverse) := by
  refine ⟨.func (by simpa using hfit), ?_⟩
  simp [initialState, stateOf, Machine.start, blocks, blockOf, below, frameType, Frame.label, h]

theorem validateCode_eq (hi : i < m.funcs.length) :
    validateCode leb otherArm m (m.importFuncCount + i) code para =
      StackTyping.loop (step ⟨leb, para, m.types, code.length, otherArm⟩)
        (errorAt ⟨leb, para, m.types, code.length, otherArm⟩ [] .missingEnd) (code.length + 1)
        (initialState (m.types.getD (m.funcs.getD i 0) default) code) := by
  simp only [validateCode, Nat.le_add_right, ensure_pos, ok_bind, Nat.add_sub_cancel_left, hi]

/-- A body of these instructions is accepted exactly when it is well-typed code of the
function's declared type. -/
theorem validateCode_iff {leb : LebReader} (hleb : leb.Correct)
    (otherArm : List UInt8 → State → Result (Option State)) (m : ParsedModule)
    {para : FeatureParameter} (hmulti : para.disableMultiValue = false)
    (hvector : para.controllableAllowMultiResultVector = false)
    (hcore2 : usesMvpValidationRules para = false) {i : Nat} (hi : i < m.funcs.length)
    {code : List UInt8} (hcode : BuiltFromTokens code) :
    validateCode leb otherArm m.toModuleStorage (m.importFuncCount + i) code para = .ok () ↔
      ∃ body, Decodes code body ∧ WellTyped m.toModuleStorage para.parts i body := by
  obtain ⟨ts, hts⟩ := hcode
  have hE : EnvFor ⟨leb, para, m.types, code.length, otherArm⟩ (m.context para.parts i) :=
    m.envFor hleb hmulti hvector hcore2 hi code.length
  have hfollows := step_follows hE
  have hV := initialState_views (m.context para.parts i) hE.return_fit
    (m.types.getD (m.funcs.getD i 0) default) rfl code
  have hlen : ts.length < code.length + 1 := Nat.lt_succ_of_le hts.length_le
  rw [validateCode_eq hi, hfollows.loop_ok_iff hV hts hlen]
  constructor
  · intro h
    obtain ⟨body, bs, rfl, hflat⟩ := Checker.Accepts.flat ((hfollows.returns_iff_run hV hts).mp h)
    have hbody : Decodes code body := exprBytes_iff.mpr ⟨bs, hflat, hts⟩
    obtain ⟨τ, hτ, hex⟩ := (hfollows.returns_iff_checked hV hbody).mp h
    exact ⟨body, hbody, checker_sound.body hτ hex⟩
  · rintro ⟨body, hbody, htyped⟩
    exact (hfollows.returns_iff_checked hV hbody).mpr (checker_complete.body htyped)

def oneFunction : ParsedModule where
  importFuncCount := 0
  types := [⟨[], [.i32]⟩]
  funcs := [0]
  funcs_lt := by simp
  types_fit := by simp

/-- `block (result i64) unreachable br_table 0 1 end i32.wrap_i64` is well typed: in
unreachable code the labels of `br_table` may differ. -/
theorem validateCode_differing_labels :
    ∃ body, Decodes [0x02, 0x7E, 0x00, 0x0E, 0x01, 0x00, 0x01, 0x0B, 0xA7, 0x0B] body ∧
      WellTyped oneFunction.toModuleStorage (FeatureParameter.parts {}) 0 body := by
  have hok : validateCode .reference (fun _ _ => .ok none) oneFunction.toModuleStorage 0
      [0x02, 0x7E, 0x00, 0x0E, 0x01, 0x00, 0x01, 0x0B, 0xA7, 0x0B] {} = .ok () := rfl
  have hcode : BuiltFromTokens [0x02, 0x7E, 0x00, 0x0E, 0x01, 0x00, 0x01, 0x0B, 0xA7, 0x0B] := by
    have hone : U32 [0x01] 1 := .last (by decide) (by decide)
    have hzero : U32 [0x00] 0 := .last (by decide) (by decide)
    have hblock : TokenBytes grammar (.enter .block (.result .i64)) [0x02, 0x7E] :=
      .enter BlockTypeBytes.result
    have hunreachable : TokenBytes grammar (.plain .unreachable) [0x00] :=
      .plain PlainBytes.unreachable
    have htable : PlainBytes (.brTable [0] 1) [0x0E, 0x01, 0x00, 0x01] :=
      .brTable hone (.cons hzero .nil) hone
    have hwrap : TokenBytes grammar (.plain (.num .wrap)) [0xA7] :=
      .plain PlainBytes.num
    exact ⟨_, .cons hblock (.cons hunreachable (.cons (.plain htable) (.cons .fin (.cons hwrap
      (.cons .fin .nil)))))⟩
  exact (validateCode_iff Wasm1.LebReader.reference_correct (fun _ _ => .ok none)
    oneFunction rfl rfl rfl (by decide) hcode).mp hok

end Uwvm2.Validation.Wasm1p1
