import Uwvm2.Validation.Wasm1p1.View

/-!
# The block arms of the wasm1p1 validator

Reading a block type, and opening and closing blocks with operands and results,
as the token machine does it.
-/

namespace Uwvm2.Validation.Wasm1p1

open StackTyping List Leb128
open Wasm1 (sizeMax)

/-- What the environment has to do with the typing context: multi-value blocks are
enabled, the rules of WebAssembly 1.0 are not selected, and all lists of types have
32-bit lengths. -/
structure EnvFor (env : Env) (C : Context) : Prop where
  leb : env.leb.Correct
  multiValue : ¬ (env.para.disableMultiValue = true ∨
    env.para.controllableAllowMultiResultVector = true)
  core2 : usesMvpValidationRules env.para = false
  parts : C.parts = env.para.parts
  types : env.types = C.types
  types_fit : ∀ t ∈ C.types, t.parameter.length < 2 ^ 32 ∧ t.result.length < 2 ^ 32
  return_fit : C.return_.length < 2 ^ 32

/-- The open frames inside a function with results `outs`: the function's own frame is
the outermost. -/
inductive OpenFrames (outs : List ValueType) : List (Frame ValueType) → Prop
  | func : outs.length < 2 ^ 32 → OpenFrames outs [⟨.func, [], outs, .ofTypes []⟩]
  | nest : k ≠ .func → ins.length < 2 ^ 32 → us.length < 2 ^ 32 → OpenFrames outs F →
      OpenFrames outs (⟨k, ins, us, ρ⟩ :: F)

theorem OpenFrames.ne_nil (h : OpenFrames outs F) : F ≠ [] := by
  cases h <;> simp

theorem OpenFrames.getLast
    (h : OpenFrames outs F) : (blocks F).getLast?.map Block.result = some outs.reverse := by
  induction h with
  | func => rfl
  | nest _ _ _ _ ih =>
    obtain ⟨b, hb, hres⟩ := Option.map_eq_some_iff.mp ih
    simp [blocks, getLast?_cons, hb, hres]

theorem OpenFrames.label_lt (h : OpenFrames outs F) (hts : ts ∈ F.map Frame.label) :
    ts.length < sizeMax := by
  suffices hfit : ts.length < 2 ^ 32 from Nat.lt_of_lt_of_le hfit (by decide)
  induction h with
  | func hlen =>
    obtain rfl : ts = outs := by simpa [Frame.label] using hts
    exact hlen
  | nest _ hins hus _ ih =>
    rcases mem_cons.mp hts with rfl | hrest
    · unfold Frame.label
      split <;> assumption
    · exact ih hrest

variable {env : Env} {C : Context} {c : List UInt8}

-- Block types

/-- The signature and state after a block type with the given operands and results. -/
abbrev signatureOf (c : List UInt8) (m : Machine ValueType)
    (sides : List ValueType × List ValueType) : BlockSignature × State :=
  (⟨sides.1.reverse, sides.2.reverse⟩, stateOf c m)

theorem gatedResult_tracks
    (he : e = if valueTypeEnabled env.para t = true then some ([], [t]) else none) :
    Tracks (fun sides => (⟨sides.1.reverse, sides.2.reverse⟩ : BlockSignature))
      (gatedResult env opBegin t) e := by
  subst he
  refine Tracks.ensure (fun hno => if_neg hno) fun h => ?_
  rw [if_pos h]
  exact .pure rfl

theorem blockSignature_result (hE : EnvFor env C) :
    Tracks (fun sides => (⟨sides.1.reverse, sides.2.reverse⟩ : BlockSignature))
      (blockSignature env opBegin b (t.code.toNat - 128)) (blockSides C (.result t)) := by
  have hparts := hE.parts
  cases t
  case v128 => exact gatedResult_tracks (by simp [blockSides, hparts, FeatureParameter.parts,
    valueTypeEnabled])
  case funcref => exact gatedResult_tracks (by simp [blockSides, hparts, FeatureParameter.parts,
    valueTypeEnabled])
  case externref => exact gatedResult_tracks (by simp [blockSides, hparts,
    FeatureParameter.parts, valueTypeEnabled])
  all_goals exact .pure rfl

theorem blockSignature_index (hE : EnvFor env C) {x : Nat} (hx : x < 2 ^ 32) :
    Tracks (fun sides => (⟨sides.1.reverse, sides.2.reverse⟩ : BlockSignature))
      (blockSignature env opBegin b x) (blockSides C (.index x)) := by
  have hneg : ∀ n : Int, n < 0 → ¬ (x : Int) = n := fun n hn => by omega
  have hsig : blockSignature env opBegin b x = indexedSignature env opBegin x := by
    simp (disch := decide) only [blockSignature, hneg, if_false, Int.natCast_nonneg, if_true,
      Int.toNat_natCast]
  rw [hsig, indexedSignature, hE.types, blockSides]
  refine Tracks.ensure (fun hno => absurd hE.multiValue hno) fun _ => ?_
  cases C.types[x]? with
  | none => exact .error
  | some t =>
    refine Tracks.ensure (fun hno => absurd hx hno) fun _ => ?_
    exact .pure (by simp)

theorem parseBlockType_eq (hE : EnvFor env C)
    (ha : Signed 64 a n) (hsize : a.length ≤ 5) (hneg : n < 0 → a.length = 1) :
    ∃ b, parseBlockType env opBegin (stateOf (a ++ c) m) =
      blockSignature env opBegin b n >>= fun signature => pure (signature, stateOf c m) := by
  match a with
  | [] => exact absurd ha Signed.ne_nil
  | b :: a =>
    refine ⟨b, ?_⟩
    have hread : env.leb.i64 (b :: (a ++ c)) = .ok (n, c) := hE.leb.i64.complete ha
    have hlen : (b :: (a ++ c)).length - c.length = (b :: a).length := by
      rw [← cons_append, length_append, Nat.add_sub_cancel]
    have hfine : ¬ ((b :: (a ++ c)).length - c.length > 5 ∨
        (n < 0 ∧ (b :: (a ++ c)).length - c.length ≠ 1)) := by
      rw [hlen]
      rintro (h | ⟨h, hne⟩)
      · exact Nat.not_lt.mpr hsize h
      · exact hne (hneg h)
    rw [cons_append]
    simp only [parseBlockType, readImm_eq hread, ok_bind]
    simp only [stateOf_codeCurr]
    exact ensure_bind hfine

theorem parseBlockType_tracks (hE : EnvFor env C) (h : BlockTypeBytes b a) :
    Tracks (signatureOf c m) (parseBlockType env opBegin (stateOf (a ++ c) m))
      (blockSides C b) := by
  -- in each case the integer is read and then looked up
  have hsplit : ∀ {n : Int}, Signed 64 a n → a.length ≤ 5 → (n < 0 → a.length = 1) →
      (∀ b', Tracks (fun sides => (⟨sides.1.reverse, sides.2.reverse⟩ : BlockSignature))
        (blockSignature env opBegin b' n) (blockSides C b)) →
      Tracks (signatureOf c m) (parseBlockType env opBegin (stateOf (a ++ c) m))
        (blockSides C b) := by
    intro n ha hsize hneg htracks
    obtain ⟨b', hb'⟩ : ∃ b', parseBlockType env opBegin (stateOf (a ++ c) m) = _ :=
      parseBlockType_eq hE ha hsize hneg
    rw [hb']
    exact (htracks b').bind_pure fun sides => rfl
  cases h with
  | empty =>
    have hneg : Signed 64 [0x40] (((0x40 : UInt8).toNat : Int) - 128) :=
      .neg (by decide) (by decide) (by decide)
    exact hsplit hneg (by decide) (fun _ => rfl) fun b' => .pure rfl
  | @result t =>
    have hcode : 64 ≤ t.code.toNat ∧ t.code.toNat < 128 := by cases t <;> decide
    have hneg : Signed 64 [t.code] (t.code.toNat - 128) :=
      .neg hcode.1 hcode.2 (by omega)
    exact hsplit hneg (by simp) (fun _ => rfl) fun b' => blockSignature_result hE
  | @index _ x ha =>
    have hlt : x < 2 ^ 32 := by exact_mod_cast ha.lt
    have hsize : a.length ≤ 5 := by
      rcases ha.length_le with h | h <;> omega
    exact hsplit (ha.mono (by decide)) hsize (fun h => by omega) fun b' =>
      blockSignature_index hE hlt

theorem BlockTyped.fits (hE : EnvFor env C)
    (h : BlockTyped C b ins outs) : ins.length < 2 ^ 32 ∧ outs.length < 2 ^ 32 := by
  cases h with
  | empty => simp
  | result => simp
  | index hf => simpa using hE.types_fit _ (mem_of_getElem? hf)

-- Blocks

/-- The state inside a new block over the remaining operands. -/
abbrev insideBlock (c : List UInt8) (F : List (Frame ValueType)) (k : FrameKind)
    (ins outs : List ValueType) (ρ : OpStack ValueType) : State :=
  stateOf c ⟨⟨k, ins, outs, ρ⟩ :: F, .ofTypes ins⟩

theorem frameType_loop : frameType k = .loop ↔ k = .loop := by
  cases k <;> simp [frameType]

theorem pushFrame_stateOf (k : FrameKind) :
    pushFrame (frameType k) ⟨ins.reverse, outs.reverse⟩ (stateOf c ⟨F, ρ⟩) =
      insideBlock c F k ins outs ρ := by
  have hlabel : (if frameType k = .loop then ins.reverse else outs.reverse) =
      (Frame.label ⟨k, ins, outs, ρ⟩).reverse := by
    simp only [frameType_loop, Frame.label]
    split <;> rfl
  simp [pushFrame, pushValueTypes_eq, stateOf, blocks, blockOf, below, hlabel, OpStack.ofTypes]

theorem enterControlFrame_tracks (k : FrameKind) : Tracks (insideBlock c (f :: fs) k ins outs)
      (enterControlFrame env opBegin opName (frameType k) ⟨ins.reverse, outs.reverse⟩
        (stateOf c ⟨f :: fs, σ⟩)) (σ.popAll ins) := by
  have hpop : Tracks (within c (f :: fs))
      (popExpectedOperands env opBegin opName ins.reverse (stateOf c ⟨f :: fs, σ⟩))
      (σ.popAll ins) := by
    simpa using popExpectedOperands_tracks ins.reverse
  exact hpop.bind_pure fun ρ => pushFrame_stateOf k

theorem if_tracks (hlen : ins.length < 2 ^ 32) :
    Tracks (insideBlock c (f :: fs) .ifThen ins outs) (do
        ensureOperandsPlusOne env opBegin "if" ins.reverse.length (stateOf c ⟨f :: fs, σ⟩)
        let st ← popI32 env opBegin .ifCondTypeNotI32 (stateOf c ⟨f :: fs, σ⟩)
        enterControlFrame env opBegin "if" .if_ ⟨ins.reverse, outs.reverse⟩ st)
      (σ.popAll (.i32 :: ins)) := by
  have hmax : ins.reverse.length < sizeMax := by
    rw [length_reverse]
    exact Nat.lt_of_lt_of_le hlen (by decide)
  rw [← Option.bind_fun_some (σ.popAll (.i32 :: ins))]
  refine condition_tracks length_reverse hmax fun _ => ?_
  rw [Option.bind_fun_some]
  exact enterControlFrame_tracks .ifThen

theorem checkResults_ok :
    checkResults fail result (stateOf c ⟨f :: fs, σ⟩) = .ok u ↔ σ.exits result.reverse = true := by
  simp only [checkResults, bind_ok, ensure_ok, checkConcreteOperands_ok, stateOf_isPolymorphic,
    concreteOperandCount_stateOf, OpStack.exits_eq_true, length_reverse, exists_const]

theorem frameType_if : frameType k = .if_ ↔ k = .ifThen := by
  cases k <;> simp [frameType]

theorem frameType_function : frameType k = .function ↔ k = .func := by
  cases k <;> simp [frameType]

theorem enterElse_stateOf (hk : f.kind = .ifThen) :
    enterElse (blockOf f (below (f :: fs)).length) (blocks fs) (stateOf c ⟨f :: fs, σ⟩) =
      stateOf c ⟨{ f with kind := .ifElse } :: fs, .ofTypes f.ins⟩ := by
  simp [enterElse, pushValueTypes_eq, truncateTo, stateOf, blocks, blockOf, frameType, below,
    Frame.label, OpStack.ofTypes, hk]

theorem else_ok : else_ env opBegin (stateOf c ⟨f :: fs, σ⟩) = .ok st' ↔
      f.kind = .ifThen ∧ σ.exits f.outs = true ∧
        st' = stateOf c ⟨{ f with kind := .ifElse } :: fs, .ofTypes f.ins⟩ := by
  have hresult : (blockOf f (below (f :: fs)).length).result.reverse = f.outs := by simp [blockOf]
  have hkind : (blockOf f (below (f :: fs)).length).type = .if_ ↔ f.kind = .ifThen := frameType_if
  simp only [else_, stateOf_controlFlowStack, blocks, bind_ok, ensure_ok, checkResults_ok, pure_ok,
    hresult, hkind]
  constructor
  · rintro ⟨_, hk, _, hex, rfl⟩
    exact ⟨hk, hex, enterElse_stateOf hk⟩
  · rintro ⟨hk, hex, rfl⟩
    exact ⟨(), hk, (), hex, enterElse_stateOf hk⟩

theorem leaveFrame_stateOf :
    leaveFrame (blockOf f (below (f :: fs)).length) (blocks fs) (stateOf c ⟨f :: fs, σ⟩) =
      stateOf c ⟨fs, f.saved.pushAll f.outs⟩ := by
  simp [leaveFrame, pushValueTypes_eq, truncateTo, stateOf, blockOf, below]

theorem end_ok : end_ env opBegin (stateOf c ⟨f :: fs, σ⟩) = .ok r ↔
      σ.exits f.outs = true ∧ (f.kind = .ifThen → f.ins = f.outs) ∧
        if f.kind = .func then c = [] ∧ r = none
        else r = some (stateOf c ⟨fs, f.saved.pushAll f.outs⟩) := by
  have hresult : (blockOf f (below (f :: fs)).length).result.reverse = f.outs := by simp [blockOf]
  have helse : ¬ ((blockOf f (below (f :: fs)).length).type = .if_ ∧
      (blockOf f (below (f :: fs)).length).start ≠ (blockOf f (below (f :: fs)).length).result) ↔
      (f.kind = .ifThen → f.ins = f.outs) := by
    simp [blockOf, frameType_if]
  have hfunc : (blockOf f (below (f :: fs)).length).type = .function ↔ f.kind = .func :=
    frameType_function
  by_cases hk : f.kind = .func
  · simp only [end_, stateOf_controlFlowStack, blocks, bind_ok, ensure_ok, checkResults_ok, helse,
      leaveFrame_stateOf, hresult, hfunc, hk, if_true, pure_ok, stateOf_codeCurr]
    simp [eq_comm (b := r)]
  · simp only [end_, stateOf_controlFlowStack, blocks, bind_ok, ensure_ok, checkResults_ok, helse,
      leaveFrame_stateOf, hresult, hfunc, hk, if_false, pure_ok]
    simp [eq_comm (b := r), and_left_comm]

end Uwvm2.Validation.Wasm1p1
