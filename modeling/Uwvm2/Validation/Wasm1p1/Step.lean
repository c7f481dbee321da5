import Uwvm2.Validation.Wasm1p1.Branches

/-!
# One round of the wasm1p1 validator's loop

At the bytes of a token the loop takes the token machine's step.
-/

namespace Uwvm2.Validation.Wasm1p1

open StackTyping OpStack List Option
open Wasm1 (NumInstr Wasm1Code U32 sizeMax)

variable {C : Context} {f : Frame ValueType}
  {fs : List (Frame ValueType)} {σ : OpStack ValueType}

-- Constants and numeric instructions

theorem push_tracks : Tracks (within c (f :: fs))
      (pure (pushOperand t (stateOf c ⟨f :: fs, σ⟩)) : Result State) (σ.apply [] [t]) := by
  exact .pure rfl

theorem const_tracks {r : Result (Int × State)} (hr : r = .ok (z, stateOf c ⟨f :: fs, σ⟩)) :
    Tracks (within c (f :: fs)) (do
      let (_, st) ← r
      pure (pushOperand t st)) (σ.apply [] [t]) := by
  subst hr
  exact push_tracks

theorem floatConst_tracks : Tracks (within c (f :: fs))
      (floatConst env opBegin (stateOf (z ++ c) ⟨f :: fs, σ⟩) opName z.length t)
      (σ.apply [] [t]) := by
  refine Tracks.ensure (fun hno => absurd (by simp) hno) fun _ => ?_
  simp only [stateOf_codeCurr, drop_left, stateOf_withCode]
  exact push_tracks

theorem popNumeric_ok : popNumeric env opBegin opName t (stateOf c ⟨f :: fs, σ⟩) = .ok st' ↔
      OpStack.agrees [t] σ.vals = true ∧ st' = stateOf c ⟨f :: fs, σ.tail⟩ := by
  simp only [popNumeric, tryPop_stateOf, bind_ok, ensure_ok, operandTypeMatches_head, pure_ok]
  simp [eq_comm (a := st')]

theorem validateNumericUnary_tracks : Tracks (within c (f :: fs))
      (validateNumericUnary env opBegin opName t r (stateOf c ⟨f :: fs, σ⟩))
      (σ.apply [t] [r]) := by
  have hstate : (σ.drop [t].length).pushAll [r] = σ.tail.push r := by
    simp [drop_succ, pushAll_one]
  intro st'
  simp only [validateNumericUnary, bind_ok, ensureOperands_ok, popNumeric_ok, pure_ok,
    apply_eq_some, hstate]
  constructor
  · rintro ⟨_, hlen, _, ⟨hagree, rfl⟩, rfl⟩
    exact ⟨_, ⟨hlen, hagree, rfl⟩, rfl⟩
  · rintro ⟨_, ⟨hlen, hagree, rfl⟩, rfl⟩
    exact ⟨(), hlen, _, ⟨hagree, rfl⟩, rfl⟩

theorem validateNumericBinary_tracks : Tracks (within c (f :: fs))
      (validateNumericBinary env opBegin (stateOf c ⟨f :: fs, σ⟩) opName t r)
      (σ.apply [t, t] [r]) := by
  have hstate : (σ.drop [t, t].length).pushAll [r] = σ.tail.tail.push r := by
    simp [drop_succ, pushAll_one]
  have hcons : OpStack.agrees [t, t] σ.vals = true ↔ _ := agrees_cons
  intro st'
  simp only [validateNumericBinary, bind_ok, ensureOperands_ok, popNumeric_ok, pure_ok,
    apply_eq_some, hstate, hcons]
  constructor
  · rintro ⟨_, hlen, _, ⟨hright, rfl⟩, _, hsecond, rfl⟩
    obtain ⟨hleft, rfl⟩ := popNumeric_ok.mp hsecond
    exact ⟨_, ⟨hlen, ⟨hright, hleft⟩, rfl⟩, rfl⟩
  · rintro ⟨_, ⟨hlen, ⟨hright, hleft⟩, rfl⟩, rfl⟩
    exact ⟨(), hlen, _, ⟨hright, rfl⟩, _, popNumeric_ok.mpr ⟨hleft, rfl⟩, rfl⟩

-- Plain instructions

/-- A state is the view of a machine inside the function of context `C`. -/
def Views (C : Context) (st : State) (m : Machine ValueType) : Prop :=
  OpenFrames C.return_.reverse m.frames ∧ st = stateOf st.codeCurr m

theorem step_eq (op : Wasm1Code) (m : Machine ValueType) :
    step env (stateOf (op.toByte :: c) m) = runArm env (op.toByte :: c) (stateOf c m) op.arm := by
  have hop : Wasm1Code.ofByte? op.toByte = some op := Wasm1Code.ofByte?_eq_some.mpr rfl
  simp only [step, stateOf_codeCurr, hop, stateOf_withCode]

theorem step_arm {op : Wasm1Code} (hbyte : op.toByte = b) (harm : op.arm = arm)
    (m : Machine ValueType) :
    step env (stateOf (b :: c) m) = runArm env (b :: c) (stateOf c m) arm := by
  subst hbyte harm
  exact step_eq op m

theorem ofByte?_extension (h : b = 0xC0 ∨ b = 0xC1 ∨ b = 0xC2 ∨ b = 0xC3 ∨
    b = 0xC4 ∨ b = 0xFC) : Wasm1Code.ofByte? b = none := by
  rcases h with rfl | rfl | rfl | rfl | rfl | rfl <;> decide +kernel

theorem extend_step {op : ExtendOp} (m : Machine ValueType) :
    ∃ opName, step env (stateOf (op.opcode :: c) m) =
      continues (extend env (op.opcode :: c) (stateOf c m) op.opcode opName op.type) := by
  have hop : Wasm1Code.ofByte? op.opcode = none :=
    ofByte?_extension (by cases op <;> simp [ExtendOp.opcode])
  obtain ⟨opName, hsign⟩ : ∃ opName, signExtension op.opcode = some (opName, op.type) := by
    cases op <;> exact ⟨_, rfl⟩
  exact ⟨opName, by simp only [step, stateOf_codeCurr, hop, hsign, stateOf_withCode]⟩

theorem extend_tracks (hE : EnvFor env C) :
    Tracks (within c (f :: fs)) (extend env opBegin (stateOf c ⟨f :: fs, σ⟩) b opName op.type)
      (effect C ls (.extend op) σ) := by
  have hpart : C.parts.signExtension = !env.para.disableSignExtension := by rw [hE.parts]; rfl
  simp only [extend, effect, signature, hpart]
  refine Tracks.ensure (fun hno => by simp [hno]) fun h => ?_
  simp only [h, Bool.not_false, if_true, bind_some]
  exact validateNumericUnary_tracks

theorem truncSat_index (dst src : Wasm1.Width) (sx : Wasm1.Sx) :
    ∃ opName, truncSat (truncSatIndex dst src sx) =
      some (opName, .ofMvp src.float, .ofMvp dst.int) := by
  cases dst <;> cases src <;> cases sx <;> exact ⟨_, rfl⟩

theorem truncSat_step (hE : EnvFor env C) (ha : U32 a (truncSatIndex dst src sx)) :
    ∃ r, step env (stateOf (0xFC :: (a ++ c)) ⟨f :: fs, σ⟩) = continues r ∧
      Tracks (within c (f :: fs)) r (effect C ls (.truncSat dst src sx) σ) := by
  have hpart : C.parts.saturatingTruncation = !env.para.disableNontrappingFloatToInt := by
    rw [hE.parts]
    rfl
  have hread : env.leb.u32 (a ++ c) = .ok (truncSatIndex dst src sx, c) := hE.leb.u32.complete ha
  obtain ⟨opName, hop⟩ := truncSat_index dst src sx
  refine ⟨do
    ensure (env.para.disableNontrappingFloatToInt = false)
      (errorAt env (0xFC :: (a ++ c))
        (.featureRequired (truncSatIndex dst src sx) .nontrappingFloatToInt))
    validateNumericUnary env (0xFC :: (a ++ c)) opName (.ofMvp src.float) (.ofMvp dst.int)
      (stateOf c ⟨f :: fs, σ⟩), ?_, ?_⟩
  · have hfc : Wasm1Code.ofByte? 0xFC = none := ofByte?_extension (by simp)
    have hsign : signExtension 0xFC = none := rfl
    simp only [step, stateOf_codeCurr, hfc, hsign, stateOf_withCode, if_true, numericPrefix,
      readImm_eq hread, ok_bind, hop]
    simp [continues]
  · simp only [effect, signature, hpart]
    refine Tracks.ensure (fun hno => by simp [hno]) fun h => ?_
    simp only [h, Bool.not_false, if_true, bind_some]
    exact validateNumericUnary_tracks

theorem plain_step (hE : EnvFor env C) (hF : OpenFrames C.return_.reverse (f :: fs))
    (h : PlainBytes p a) :
    ∃ r, step env (stateOf (a ++ c) ⟨f :: fs, σ⟩) = continues r ∧
      Tracks (within c (f :: fs)) r (effect C ((f :: fs).map Frame.label) p σ) := by
  have hu32 : ∀ {a x} c, U32 a x → env.leb.u32 (a ++ c) = .ok (x, c) :=
    fun c h => hE.leb.u32.complete h
  cases h with
  | unreachable => exact ⟨_, step_eq .unreachable _, .pure setUnreachable_stateOf⟩
  | nop => exact ⟨_, step_eq .nop _, .pure rfl⟩
  | br ha => exact ⟨_, step_eq .br _, br_tracks (hu32 c ha)⟩
  | brIf ha => exact ⟨_, step_eq .brIf _, brIf_tracks hF (hu32 c ha)⟩
  | @brTable a b js d j ha hb hd =>
    have hlen : js.length < (b ++ (d ++ c)).length := by
      have hle := hb.length_le
      have hne : d ≠ [] := fun h => Leb128.Unsigned.ne_nil (h ▸ hd)
      have hpos := length_pos_iff.mpr hne
      simp only [length_append]
      omega
    have hmax : js.length < sizeMax := Nat.lt_of_lt_of_le ha.lt (by decide)
    rw [cons_append, append_assoc, append_assoc]
    refine ⟨_, step_eq .brTable _, ?_⟩
    exact brTable_tracks hE hF (hu32 _ ha) hlen hmax (hb.reads hE.leb) (hu32 c hd)
  | return_ => exact ⟨_, step_eq .return_ _, return_tracks hF⟩
  | i32Const ha =>
    refine ⟨_, step_eq .i32Const _, ?_⟩
    exact const_tracks (readImm_eq (hE.leb.i32.complete ha))
  | i64Const ha =>
    refine ⟨_, step_eq .i64Const _, ?_⟩
    exact const_tracks (readImm_eq (hE.leb.i64.complete ha))
  | f32Const hz =>
    refine ⟨_, step_eq .f32Const _, ?_⟩
    rw [f32Const, ← hz]
    exact floatConst_tracks
  | f64Const hz =>
    refine ⟨_, step_eq .f64Const _, ?_⟩
    rw [f64Const, ← hz]
    exact floatConst_tracks
  | @num n =>
    rw [singleton_append]
    obtain ⟨code, hbyte, hunary | hbinary⟩ := Wasm1Code.exists_numeric n
    · obtain ⟨opName, t, r, harm, htype⟩ := hunary
      refine ⟨_, step_arm hbyte harm _, ?_⟩
      simpa only [effect, signature, NumInstr.operands, NumInstr.result, htype, bind_some,
        map_cons, map_nil] using validateNumericUnary_tracks
    · obtain ⟨opName, t, r, harm, htype⟩ := hbinary
      refine ⟨_, step_arm hbyte harm _, ?_⟩
      simpa only [effect, signature, NumInstr.operands, NumInstr.result, htype, bind_some,
        map_cons, map_nil] using validateNumericBinary_tracks
  | @extend op =>
    obtain ⟨opName, hstep⟩ : ∃ opName, step env (stateOf (op.opcode :: c) ⟨f :: fs, σ⟩) =
        continues (extend env (op.opcode :: c) (stateOf c ⟨f :: fs, σ⟩) op.opcode opName op.type) :=
      extend_step _
    exact ⟨_, hstep, extend_tracks hE⟩
  | truncSat ha => exact truncSat_step hE ha

-- Tokens

theorem OpenFrames.views (h : OpenFrames C.return_.reverse m.frames) :
    m.frames ≠ [] ∧ (stateOf c m).codeCurr = c ∧ Views C (stateOf c m) m := ⟨h.ne_nil, rfl, h, rfl⟩

theorem outcome_of_tracks {α : Type} {view : α → Machine ValueType}
    {o : Option α} (hstep : step env st = continues r)
    (hr : Tracks (fun x => stateOf c (view x)) r o)
    (he : ∀ m, e = some m ↔ ∃ x, o = some x ∧ m = view x)
    (hopen : ∀ x, o = some x → OpenFrames C.return_.reverse (view x).frames) :
    Outcome (step env) State.codeCurr (Views C) st c e := by
  refine .of_tracks (g := stateOf c) ?_ fun m hm => ?_
  · rw [hstep]
    exact Tracks.reindex (f := view) hr.some he
  · obtain ⟨y, hy, rfl⟩ := (he m).mp hm
    exact (hopen y hy).views

theorem plain_outcome (hE : EnvFor env C) (hF : OpenFrames C.return_.reverse (f :: fs))
    (h : PlainBytes p a) :
    Outcome (step env) State.codeCurr (Views C) (stateOf (a ++ c) ⟨f :: fs, σ⟩) c
      ((checker C).step ⟨f :: fs, σ⟩ (.plain p)) := by
  obtain ⟨r, hstep, hr⟩ : ∃ r, step env (stateOf (a ++ c) ⟨f :: fs, σ⟩) = continues r ∧
      Tracks (within c (f :: fs)) r (effect C ((f :: fs).map Frame.label) p σ) :=
    plain_step hE hF h
  exact outcome_of_tracks hstep hr (fun m => Checker.step_plain) fun τ _ => hF

def enteredFrame (k : Kind) (f : Frame ValueType) (fs : List (Frame ValueType))
    (x : (List ValueType × List ValueType) × OpStack ValueType) : Machine ValueType :=
  ⟨⟨k.toFrame, x.1.1, x.1.2, x.2⟩ :: f :: fs, .ofTypes x.1.1⟩

def enterEffect (C : Context) (k : Kind) (b : BlockTy) (σ : OpStack ValueType) :
    Option ((List ValueType × List ValueType) × OpStack ValueType) :=
  (blockSides C b).bind fun sides =>
    (σ.popAll (if k = .ifThen then .i32 :: sides.1 else sides.1)).map (sides, ·)

theorem enter_step (hE : EnvFor env C) (h : BlockTypeBytes b a) :
    ∃ r, step env (stateOf (k.opcode :: (a ++ c)) ⟨f :: fs, σ⟩) = continues r ∧
      Tracks (fun x => stateOf c (enteredFrame k f fs x)) r (enterEffect C k b σ) := by
  have hblock : ∀ {opBegin}, Tracks (signatureOf c ⟨f :: fs, σ⟩)
      (parseBlockType env opBegin (stateOf (a ++ c) ⟨f :: fs, σ⟩)) (blockSides C b) :=
    parseBlockType_tracks hE h
  have hmap : ∀ {sides : List ValueType × List ValueType} {e : Option (OpStack ValueType)}
      {r : Result State}, Tracks (insideBlock c (f :: fs) k.toFrame sides.1 sides.2) r e →
      Tracks (fun x => stateOf c (enteredFrame k f fs x)) r (e.map (sides, ·)) := by
    intro sides e r hr st'
    rw [hr st']
    simp [enteredFrame]
  cases k with
  | block =>
    exact ⟨_, step_eq .block _, hblock.bind fun sides _ =>
      hmap (enterControlFrame_tracks .block)⟩
  | loop =>
    exact ⟨_, step_eq .loop _, hblock.bind fun sides _ =>
      hmap (enterControlFrame_tracks .loop)⟩
  | ifThen =>
    refine ⟨_, step_eq .if_ _, hblock.bind fun sides hs => hmap (if_tracks ?_)⟩
    exact (BlockTyped.fits hE (blockSides_eq_some.mp hs)).1

theorem enter_outcome (hE : EnvFor env C) (hF : OpenFrames C.return_.reverse (f :: fs))
    {a : List UInt8} (h : BlockTypeBytes b a) :
    Outcome (step env) State.codeCurr (Views C) (stateOf (k.opcode :: (a ++ c)) ⟨f :: fs, σ⟩) c
      ((checker C).step ⟨f :: fs, σ⟩ (.enter k b)) := by
  obtain ⟨r, hstep, hr⟩ : ∃ r, step env (stateOf (k.opcode :: (a ++ c)) ⟨f :: fs, σ⟩) =
      continues r ∧ Tracks (fun x => stateOf c (enteredFrame k f fs x)) r (enterEffect C k b σ) :=
    enter_step hE h
  have hmachine : ∀ m, (checker C).step ⟨f :: fs, σ⟩ (.enter k b) = some m ↔
      ∃ x, enterEffect C k b σ = some x ∧ m = enteredFrame k f fs x := by
    intro m
    rw [Checker.step_enter]
    cases k <;> simp [checker, enterEffect, enteredFrame, bind_eq_some_iff, and_assoc]
  refine outcome_of_tracks hstep hr hmachine fun x hx => ?_
  simp only [enterEffect, bind_eq_some_iff, map_eq_some_iff] at hx
  obtain ⟨⟨ins, outs⟩, hb, ρ, -, rfl⟩ := hx
  have hfits := BlockTyped.fits hE (blockSides_eq_some.mp hb)
  exact .nest (by cases k <;> simp [Kind.toFrame]) hfits.1 hfits.2 hF

theorem els_outcome (hF : OpenFrames C.return_.reverse (f :: fs)) :
    Outcome (step env) State.codeCurr (Views C) (stateOf (0x05 :: c) ⟨f :: fs, σ⟩) c
      ((checker C).step ⟨f :: fs, σ⟩ .els) := by
  have hstep : step env (stateOf (0x05 :: c) ⟨f :: fs, σ⟩) = continues _ := step_eq .else_ _
  refine .of_tracks (g := stateOf c) ?_ fun m hm => ?_
  · rw [hstep]
    refine Tracks.some fun st => ?_
    simp [else_ok, Checker.step_els, and_assoc]
  · obtain ⟨hk, -, rfl⟩ := Checker.step_els.mp hm
    cases hF with
    | func => cases hk
    | nest _ hins hus hrest => exact (OpenFrames.nest (by simp) hins hus hrest).views

theorem fin_outcome (hF : OpenFrames C.return_.reverse (f :: fs)) :
    Outcome (step env) State.codeCurr (Views C) (stateOf (0x0B :: c) ⟨f :: fs, σ⟩) c
      ((checker C).step ⟨f :: fs, σ⟩ .fin) := by
  have hstep : step env (stateOf (0x0B :: c) ⟨f :: fs, σ⟩) =
      end_ env (0x0B :: c) (stateOf c ⟨f :: fs, σ⟩) := step_eq .end_ _
  cases hF with
  | func =>
    -- the last frame closes, so the input has to end here
    cases hm : (checker C).step ⟨[⟨.func, [], C.return_.reverse, .ofTypes []⟩], σ⟩ .fin with
    | none =>
      refine error_of_not_ok fun x hx => ?_
      obtain ⟨hex, helse, -⟩ := end_ok.mp (hstep.symm.trans hx)
      cases hm.symm.trans (Checker.step_fin.mpr ⟨hex, helse, rfl⟩)
    | some m =>
      obtain ⟨hex, helse, rfl⟩ := Checker.step_fin.mp hm
      simp only [Outcome, if_true, hstep]
      refine ⟨fun hc => end_ok.mpr ⟨hex, helse, hc, rfl⟩, fun hc => error_of_not_ok fun x hx => ?_⟩
      exact hc (end_ok.mp hx).2.2.1
  | @nest k _ _ _ ρ hk hins hus hrest =>
    refine .of_tracks (g := stateOf c) (fun x => ?_) fun m hm => ?_
    · rw [hstep, end_ok]
      simp [Checker.step_fin, hk, and_assoc]
    · obtain ⟨-, -, rfl⟩ := Checker.step_fin.mp hm
      exact hrest.views

theorem step_follows (hE : EnvFor env C) :
    Follows (checker C) grammar (step env) State.codeCurr (Views C) where
  isOpen hV := hV.1.ne_nil
  missingEnd {st m} hV hb := ⟨errorAt env [] .missingEnd, by simp [step, hb]⟩
  exact {st m t a c} hV ht hb := by
    obtain ⟨hF, hst⟩ := hV
    rw [hst, hb]
    match m, hF.ne_nil with
    | ⟨f :: fs, σ⟩, _ =>
      cases ht with
      | plain hp => exact plain_outcome hE hF hp
      | enter hbt => exact enter_outcome hE hF hbt
      | els => exact els_outcome hF
      | fin => exact fin_outcome hF

end Uwvm2.Validation.Wasm1p1
