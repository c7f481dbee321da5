import Uwvm2.Validation.Wasm1.View

/-!
# The branch arms of the validator

The arms of `br`, `br_if`, `br_table` and `return` are the strict checker's
effect on these instructions.
-/

namespace Uwvm2.Validation.Wasm1

open StackTyping OpStack List

variable {env : Env} {opBegin c : List UInt8} {f : Frame ValueType}

-- Frames

/-- The open frames inside a function with results `outs`: the function's own frame
is the outermost, the others are blocks. No block takes operands or leaves more
than one. -/
inductive OpenFrames (outs : List ValueType) : List (Frame ValueType) → Prop
  | func : OpenFrames outs [⟨.func, [], outs, .ofTypes []⟩]
  | nest : k ≠ .func → us.length ≤ 1 → OpenFrames outs F →
      OpenFrames outs (⟨k, [], us, ρ⟩ :: F)

/-- Frames of this language take no operands and leave at most one. -/
def SimpleFrames (F : List (Frame ValueType)) : Prop :=
  ∀ f ∈ F, f.ins = [] ∧ f.outs.length ≤ 1

theorem OpenFrames.simple (h : OpenFrames outs fs) (houts : outs.length ≤ 1) : SimpleFrames fs := by
  induction h with
  | func => simpa [SimpleFrames] using houts
  | nest _ hlen _ ih => exact forall_mem_cons.mpr ⟨⟨rfl, hlen⟩, ih⟩

theorem OpenFrames.getLast (h : OpenFrames outs fs) :
    (blocks fs).getLast?.map Block.result = some outs.reverse := by
  induction h with
  | func => rfl
  | nest _ _ _ ih =>
    obtain ⟨b, hb, hres⟩ := Option.map_eq_some_iff.mp ih
    simp [blocks, getLast?_cons, hb, hres]

theorem labelTypes_blockOf (h : f.ins = []) : labelTypes (blockOf f base) = f.label.reverse := by
  cases hk : f.kind <;> simp [labelTypes, blockOf, frameType, Frame.label, hk, h]

section

variable {F : List (Frame ValueType)} (hF : SimpleFrames F)

include hF

theorem blocks_getElem? {l : Nat} :
    (blocks F)[l]?.map labelTypes = (F.map Frame.label)[l]?.map reverse := by
  induction F generalizing l with
  | nil => simp [blocks]
  | cons f F ih =>
    cases l with
    | zero => simp [blocks, labelTypes_blockOf (hF f (by simp)).1]
    | succ l => simpa [blocks] using ih fun g hg => hF g (by simp [hg])

theorem SimpleFrames.label_length {l : Nat} (hl : (F.map Frame.label)[l]? = some ts) :
    ts.length ≤ 1 := by
  rw [getElem?_map, Option.map_eq_some_iff] at hl
  obtain ⟨f, hf, rfl⟩ := hl
  obtain ⟨hins, houts⟩ := hF f (mem_of_getElem? hf)
  unfold Frame.label
  split <;> simp [hins, houts]

theorem checkLabel_some {l : Nat} (hl : (F.map Frame.label)[l]? = some ts) :
    ∃ b, checkLabel env opBegin (stateOf c ⟨F, σ⟩) l = .ok b ∧ labelTypes b = ts.reverse := by
  have hb := blocks_getElem? (l := l) hF
  rw [hl, Option.map_some, Option.map_eq_some_iff] at hb
  obtain ⟨b, hb, hts⟩ := hb
  exact ⟨b, by simp [checkLabel, hb], hts⟩

theorem checkLabel_none {l : Nat} (hl : (F.map Frame.label)[l]? = none) :
    ∃ e, checkLabel env opBegin (stateOf c ⟨F, σ⟩) l = .error e := by
  have hb := blocks_getElem? (l := l) hF
  rw [hl, Option.map_none, Option.map_eq_none_iff] at hb
  exact ⟨_, by simp only [checkLabel, stateOf_controlFlowStack, hb]; rfl⟩

theorem label_yields
    (hk : ∀ b, (labelTypes b).length ≤ 1 → Yields (k b) c' F (g (labelTypes b).reverse)) :
    Yields (checkLabel env opBegin (stateOf c ⟨F, σ⟩) l >>= k) c' F
      ((F.map Frame.label)[l]?.bind g) := by
  cases hl : (F.map Frame.label)[l]? with
  | none =>
    obtain ⟨e, he⟩ : ∃ e, checkLabel env opBegin (stateOf c ⟨F, σ⟩) l = .error e :=
      checkLabel_none hF hl
    rw [he]
    exact Yields.error
  | some ts =>
    obtain ⟨b, hb, hts⟩ : ∃ b, checkLabel env opBegin (stateOf c ⟨F, σ⟩) l = .ok b ∧
        labelTypes b = ts.reverse := checkLabel_some hF hl
    rw [hb]
    simpa [hts] using hk b (by simpa [hts] using hF.label_length hl)

end

variable {c' : List UInt8}

theorem br_yields (hF : SimpleFrames (f :: fs)) (h : env.leb.u32 c = .ok (l, c')) :
    Yields (br env opBegin (stateOf c ⟨f :: fs, σ⟩)) c' (f :: fs)
      (effect C true ((f :: fs).map Frame.label) (.br l) σ) := by
  simp only [br, readImm_eq h, ok_bind, effect]
  refine label_yields hF fun b _ => ?_
  rw [OpStack.escape, Option.map_eq_bind]
  exact arguments_yield (k := fun st => pure (setUnreachable st)) fun τ => by
    rw [setUnreachable_stateOf]
    exact Yields.pure

theorem return_yields (hF : OpenFrames C.return_.reverse (f :: fs)) :
    Yields (return_ env opBegin (stateOf c ⟨f :: fs, σ⟩)) c (f :: fs)
      (effect C true ((f :: fs).map Frame.label) .return_ σ) := by
  have hlast : (stateOf c ⟨f :: fs, σ⟩).controlFlowStack.getLast?.map Block.result =
      some C.return_ := by simpa using hF.getLast
  simp only [return_, hlast, Option.getD_some, effect]
  rw [OpStack.escape, Option.map_eq_bind]
  exact arguments_yield (k := fun st => pure (setUnreachable st)) fun τ => by
    rw [setUnreachable_stateOf]
    exact Yields.pure

theorem condition_yields (hlen : ts.length < sizeMax) {k : State → Result State}
    (hk : (∃ ρ, σ.popAll (.i32 :: ts.reverse) = some ρ) →
      Yields (k (stateOf c ⟨f :: fs, σ.tail⟩)) c' (f :: fs) e) :
    Yields (do
        ensureOperandsPlusOne env opBegin opName ts.length (stateOf c ⟨f :: fs, σ⟩)
        let st ← popCondition env opBegin opName (stateOf c ⟨f :: fs, σ⟩)
        checkArguments env opBegin opName ts st
        k st)
      c' (f :: fs) ((σ.popAll (.i32 :: ts.reverse)).bind fun _ => e) := by
  have hplus : plusOne ts.length = ts.length + 1 := if_neg (by omega)
  have hpop : (∃ ρ, σ.popAll (.i32 :: ts.reverse) = some ρ) ↔
      (σ.poly = true ∨ ts.length + 1 ≤ σ.vals.length) ∧ OpStack.agrees [.i32] σ.vals = true ∧
        OpStack.agrees ts.reverse σ.vals.tail = true := by
    have hcons : OpStack.agrees (.i32 :: ts.reverse) σ.vals = true ↔ _ := agrees_cons
    simp [popAll_eq_some, hcons]
  intro st'
  simp only [ensureOperandsPlusOne, popCondition, checkArguments, tryPop_stateOf, bind_ok,
    ensure_ok, not_mismatches, agrees_head, pure_ok, stateOf_isPolymorphic,
    concreteOperandCount_stateOf, hplus, Option.bind_eq_some_iff]
  constructor
  · rintro ⟨_, hl, _, ⟨_, hcond, rfl⟩, _, hargs, h⟩
    rw [checkConcreteOperands_ok] at hargs
    have hl' : σ.poly = true ∨ ts.length + 1 ≤ σ.vals.length := hl.imp_right fun h => by omega
    obtain ⟨ρ, hρ⟩ := hpop.mpr ⟨hl', hcond, hargs⟩
    obtain ⟨τ, he, rfl⟩ := (hk ⟨ρ, hρ⟩ st').mp h
    exact ⟨τ, ⟨ρ, hρ, he⟩, rfl⟩
  · rintro ⟨τ, ⟨ρ, hρ, he⟩, rfl⟩
    obtain ⟨hl, hcond, hargs⟩ := hpop.mp ⟨ρ, hρ⟩
    have hl' : σ.poly = true ∨ ¬ (ts.length = sizeMax ∨ σ.vals.length < ts.length + 1) :=
      hl.imp_right fun h => by omega
    exact ⟨(), hl', _, ⟨(), hcond, rfl⟩, (), checkConcreteOperands_ok.mpr hargs,
      (hk ⟨ρ, hρ⟩ _).mpr ⟨τ, he, rfl⟩⟩

theorem one_lt_sizeMax : 1 < sizeMax := by decide

theorem brIf_yields (hF : SimpleFrames (f :: fs)) (h : env.leb.u32 c = .ok (l, c')) :
    Yields (brIf env opBegin (stateOf c ⟨f :: fs, σ⟩)) c' (f :: fs)
      (effect C true ((f :: fs).map Frame.label) (.brIf l) σ) := by
  simp only [brIf, readImm_eq h, ok_bind, effect]
  refine label_yields hF fun b hlen => ?_
  rw [OpStack.apply, Option.map_eq_bind, popAll_bind]
  refine condition_yields (by have := one_lt_sizeMax; omega) fun hpop => ?_
  obtain ⟨ρ, hρ⟩ := hpop
  obtain ⟨-, -, hdrop⟩ := popAll_eq_some.mp hρ
  generalize labelTypes b = ts at hlen hρ hdrop
  rcases ts with _ | ⟨t, _ | ⟨_, _⟩⟩
  · exact .of_eq (OpStack.ext (by simp) rfl)
  · dsimp only
    rw [stateOf_isPolymorphic, concreteOperandCount_stateOf, popAvailable_stateOf,
      pushOperand_stateOf]
    split
    · -- the operand may be missing or unknown; the label's type takes its place
      rw [drop_min, ← drop_succ]
      exact .of_eq (OpStack.ext rfl rfl)
    · have hpop : σ.tail.popAll [t] = some ρ := (popAll_cons.mp hρ).2
      refine .of_eq ?_
      rw [← pushAll_drop_of_popAll hpop (by simp_all)]
      simp [hdrop]
  · simp at hlen

-- `br_table`

/-- A target signature determines a label type of at most one value. -/
def SigOf (s : TargetSig) (ts : List ValueType) : Prop := s.arity = ts.length ∧ s.type = ts.head?

theorem getSig_sigOf : SigOf (getSig l b) (labelTypes b) := by
  unfold getSig labelTypes
  split <;> exact ⟨rfl, rfl⟩

theorem getSig_some {F : List (Frame ValueType)} (hF : SimpleFrames F)
    (hl : (F.map Frame.label)[l]? = some ts) :
    ∃ b, checkLabel env opBegin (stateOf c ⟨F, σ⟩) l = .ok b ∧ SigOf (getSig l b) ts ∧
      ts.length ≤ 1 := by
  have hlen := hF.label_length hl
  obtain ⟨b, hb, hbl⟩ := checkLabel_some (σ := σ) hF hl
  have hrev : ts.reverse = ts := by
    match ts, hlen with
    | [], _ => rfl
    | [_], _ => rfl
  refine ⟨b, hb, ?_, hlen⟩
  rw [← hrev, ← hbl]
  exact getSig_sigOf

theorem SigOf.eq_iff (hs : SigOf s ts)
    (hs' : SigOf s' ts') (hlen : ts.length ≤ 1) (hlen' : ts'.length ≤ 1) :
    s.arity = s'.arity ∧ (s'.arity ≠ 0 → s.type = s'.type) ↔ ts = ts' := by
  obtain ⟨ha, ht⟩ := hs
  obtain ⟨ha', ht'⟩ := hs'
  rw [ha, ha', ht, ht']
  match ts, ts', hlen, hlen' with
  | [], [], _, _ => simp
  | [], [_], _, _ => simp
  | [_], [], _, _ => simp
  | [_], [_], _, _ => simp

/-- What the targets read so far have in common. -/
def Expects (expected : Option TargetSig) (E : Option (List ValueType)) : Prop :=
  match expected, E with
  | none, none => True
  | some s, some ts => SigOf s ts ∧ ts.length ≤ 1
  | _, _ => False

variable {F : List (Frame ValueType)} {expected : Option TargetSig}
  {E : Option (List ValueType)}

theorem brTableTarget_ok (hF : SimpleFrames F) (h : env.leb.u32 c = .ok (l, c'))
    (hE : Expects expected E) (hl : (F.map Frame.label)[l]? = some ts)
    (hts : ∀ us, E = some us → us = ts) :
    ∃ s, brTableTarget env opBegin expected (stateOf c ⟨F, σ⟩) = .ok (s, stateOf c' ⟨F, σ⟩) ∧
      Expects (some s) (some ts) := by
  obtain ⟨b, hb, hsig, hlen⟩ : ∃ b, checkLabel env opBegin (stateOf c' ⟨F, σ⟩) l = .ok b ∧
      SigOf (getSig l b) ts ∧ ts.length ≤ 1 := getSig_some hF hl
  simp only [brTableTarget, readImm_eq h, ok_bind, hb]
  rcases expected with _ | s <;> rcases E with _ | us
  · exact ⟨_, rfl, hsig, hlen⟩
  · exact hE.elim
  · exact hE.elim
  · obtain rfl : us = ts := hts us rfl
    refine ⟨s, ?_, hE⟩
    have hsame := (hsig.eq_iff hE.1 hlen hlen).mpr rfl
    simp only [ensure_pos hsame, ok_bind]
    rfl

theorem brTableTarget_error (hF : SimpleFrames F) (h : env.leb.u32 c = .ok (l, c'))
    (hE : Expects expected E)
    (hno : ¬ ∃ ts, (F.map Frame.label)[l]? = some ts ∧ ∀ us, E = some us → us = ts) :
    ∃ e, brTableTarget env opBegin expected (stateOf c ⟨F, σ⟩) = .error e := by
  simp only [brTableTarget, readImm_eq h, ok_bind]
  cases hl : (F.map Frame.label)[l]? with
  | none =>
    obtain ⟨e, he⟩ : ∃ e, checkLabel env opBegin (stateOf c' ⟨F, σ⟩) l = .error e :=
      checkLabel_none hF hl
    exact ⟨e, by simp [he]⟩
  | some ts =>
    obtain ⟨b, hb, hsig, hlen⟩ : ∃ b, checkLabel env opBegin (stateOf c' ⟨F, σ⟩) l = .ok b ∧
        SigOf (getSig l b) ts ∧ ts.length ≤ 1 := getSig_some hF hl
    rcases expected with _ | s <;> rcases E with _ | us
    · exact absurd ⟨ts, hl, by simp⟩ hno
    · exact hE.elim
    · exact hE.elim
    · have hne : ¬ ts = us := fun heq => hno ⟨ts, hl, by simp [heq]⟩
      have hdiff := (hsig.eq_iff hE.1 hlen hE.2).not.mpr hne
      exact ⟨_, by simp only [hb, ok_bind, ensure_neg hdiff, error_bind]; rfl⟩

/-- Label indices read one after the other. -/
def ReadsLabels (leb : LebReader) : List Nat → List UInt8 → List UInt8 → Prop
  | [], c, c' => c = c'
  | j :: js, c, c' => ∃ c₁, leb.u32 c = .ok (j, c₁) ∧ ReadsLabels leb js c₁ c'

def brTableAll (env : Env) (opBegin : List UInt8) (n : Nat) (expected : Option TargetSig)
    (st : State) : Result (TargetSig × State) := do
  let (expected, st) ← brTableTargets env opBegin n expected st
  brTableTarget env opBegin expected st

theorem brTableAll_succ : brTableAll env opBegin (n + 1) expected st = (do
      let (first, st) ← brTableTarget env opBegin expected st
      brTableAll env opBegin n (some first) st) := by
  simp [brTableAll, brTableTargets]

section

variable (hF : SimpleFrames F) (hjs : ReadsLabels env.leb js c c₁)
  (hj : env.leb.u32 c₁ = .ok (j, c')) (hE : Expects expected E)

include hF hjs hj hE

theorem brTableAll_ok (hl : ∀ l ∈ js ++ [j], (F.map Frame.label)[l]? = some ts)
    (hts : ∀ us, E = some us → us = ts) :
    ∃ s, brTableAll env opBegin js.length expected (stateOf c ⟨F, σ⟩) =
      .ok (s, stateOf c' ⟨F, σ⟩) ∧ Expects (some s) (some ts) := by
  induction js generalizing c expected E with
  | nil =>
    cases hjs
    exact brTableTarget_ok hF hj hE (hl j (by simp)) hts
  | cons l js ih =>
    obtain ⟨c₂, hread, hrest⟩ := hjs
    obtain ⟨s, hs, hsE⟩ : ∃ s, brTableTarget env opBegin expected (stateOf c ⟨F, σ⟩) =
        .ok (s, stateOf c₂ ⟨F, σ⟩) ∧ Expects (some s) (some ts) :=
      brTableTarget_ok hF hread hE (hl l (by simp)) hts
    rw [length_cons, brTableAll_succ, hs]
    exact ih hrest hsE (fun l hl' => hl l (by simp_all)) (by simp)

theorem brTableAll_error
    (hno : ¬ ∃ ts, (∀ l ∈ js ++ [j], (F.map Frame.label)[l]? = some ts) ∧ ∀ us,
      E = some us → us = ts)
    :
    ∃ e, brTableAll env opBegin js.length expected (stateOf c ⟨F, σ⟩) = .error e := by
  induction js generalizing c expected E with
  | nil =>
    cases hjs
    exact brTableTarget_error hF hj hE fun ⟨ts, hl, hts⟩ => hno ⟨ts, by simpa using hl, hts⟩
  | cons l js ih =>
    obtain ⟨c₂, hread, hrest⟩ := hjs
    rw [length_cons, brTableAll_succ]
    by_cases hfirst : ∃ ts, (F.map Frame.label)[l]? = some ts ∧ ∀ us, E = some us → us = ts
    · obtain ⟨ts, hl, hts⟩ := hfirst
      obtain ⟨s, hs, hsE⟩ : ∃ s, brTableTarget env opBegin expected (stateOf c ⟨F, σ⟩) =
          .ok (s, stateOf c₂ ⟨F, σ⟩) ∧ Expects (some s) (some ts) :=
        brTableTarget_ok hF hread hE hl hts
      rw [hs]
      refine ih hrest hsE fun ⟨us, hall, heq⟩ => hno ⟨us, ?_, ?_⟩
      · obtain rfl : ts = us := heq ts rfl
        rintro l' hl'
        rcases mem_cons.mp hl' with rfl | hl'
        · exact hl
        · exact hall l' hl'
      · obtain rfl : ts = us := heq ts rfl
        exact hts
    · obtain ⟨e, he⟩ : ∃ e, brTableTarget env opBegin expected (stateOf c ⟨F, σ⟩) = .error e :=
        brTableTarget_error hF hread hE hfirst
      exact ⟨e, by rw [he]; rfl⟩

end

theorem checkTableOperands_ok : checkTableOperands env opBegin t os = .ok u ↔ ∀ o ∈ os, o = t := by
  induction os with
  | nil => simp [checkTableOperands]
  | cons o os ih => simp [checkTableOperands, ih]

/-- The operands of a `br_table` are compared exactly, so an unknown one is refused. -/
theorem tableOperands_iff (hlen : ts.length ≤ 1) :
    (σ.poly = true ∨ ts.length + 1 ≤ σ.vals.length) ∧ OpStack.agrees [.i32] σ.vals = true ∧
        (∀ o ∈ σ.tail.vals.take (min σ.tail.vals.length ts.length), o = ts.head?) ↔
      (∃ ρ, σ.popAll (.i32 :: ts) = some ρ) ∧ ¬ unknownOperand ts σ := by
  have hcons : OpStack.agrees (.i32 :: ts) σ.vals = true ↔ _ := agrees_cons
  simp only [popAll_eq_some, hcons, unknownOperand, length_cons, tail_vals]
  rcases ts with _ | ⟨t, _ | ⟨_, _⟩⟩
  · simp
  · rcases σ.vals with _ | ⟨o, _ | ⟨_ | t', os⟩⟩
    · simp [OpStack.agrees]
    · simp [OpStack.agrees]
    · simp [OpStack.agrees]
    · simp [OpStack.agrees]
  · simp at hlen

theorem take_operandStack : (stateOf c ⟨f :: fs, σ⟩).operandStack.take (min σ.vals.length n) =
      σ.vals.take (min σ.vals.length n) :=
  take_append_of_le_length (Nat.min_le_left _ _)

theorem brTable_yields (hF : SimpleFrames (f :: fs)) (hn : env.leb.u32 c = .ok (js.length, c₁))
    (hfit : js.length < c₁.length) (hmax : js.length < sizeMax) (hjs : ReadsLabels env.leb js c₁ c₂)
    (hj : env.leb.u32 c₂ = .ok (j, c')) :
    Yields (brTable env opBegin (stateOf c ⟨f :: fs, σ⟩)) c' (f :: fs)
      (effect C true ((f :: fs).map Frame.label) (.brTable js j) σ) := by
  have hcount : ∀ e : CodeValidationError,
      ensure (¬ (js.length = sizeMax ∨ (stateOf c₁ ⟨f :: fs, σ⟩).codeCurr.length = 0 ∨
        js.length ≥ (stateOf c₁ ⟨f :: fs, σ⟩).codeCurr.length)) e = .ok () := by
    intro e
    refine ensure_pos ?_
    simp only [stateOf_codeCurr]
    omega
  have hsplit : brTable env opBegin (stateOf c ⟨f :: fs, σ⟩) = (do
      let r ← brTableAll env opBegin js.length none (stateOf c₁ ⟨f :: fs, σ⟩)
      ensureOperandsPlusOne env opBegin "br_table" r.1.arity r.2
      let st ← popCondition env opBegin "br_table" r.2
      checkTableOperands env opBegin r.1.type
        (st.operandStack.take (min (concreteOperandCount st) r.1.arity))
      return setUnreachable (popAvailableConcreteOperands r.1.arity st)) := by
    simp only [brTable, brTableAll, readImm_eq hn, ok_bind, hcount, bind_assoc]
  have hstart : Expects none none := trivial
  rw [hsplit]
  simp only [effect]
  cases hl : tableLabel ((f :: fs).map Frame.label) js j with
  | none =>
    obtain ⟨e, he⟩ : ∃ e, brTableAll env opBegin js.length none (stateOf c₁ ⟨f :: fs, σ⟩) =
        .error e := by
      refine brTableAll_error hF hjs hj hstart fun hlabels => ?_
      obtain ⟨ts, hall, _⟩ := hlabels
      rw [← tableLabel_eq_some] at hall
      cases hl.symm.trans hall
    rw [he]
    exact Yields.error
  | some ts =>
    obtain ⟨s, hs, ⟨harity, htype⟩, hlen⟩ : ∃ s, brTableAll env opBegin js.length none
        (stateOf c₁ ⟨f :: fs, σ⟩) = .ok (s, stateOf c' ⟨f :: fs, σ⟩) ∧
          Expects (some s) (some ts) :=
      brTableAll_ok hF hjs hj hstart (tableLabel_eq_some.mp hl) (by simp)
    have hplus : plusOne ts.length = ts.length + 1 :=
      if_neg (by have := one_lt_sizeMax; omega)
    have hops := tableOperands_iff (σ := σ) hlen
    intro st'
    simp only [hs, ok_bind, ensureOperandsPlusOne, popCondition, tryPop_stateOf, bind_ok,
      ensure_ok, not_mismatches, agrees_head, pure_ok, stateOf_isPolymorphic,
      concreteOperandCount_stateOf, harity, htype, hplus, checkTableOperands_ok,
      Option.bind_some, true_and]
    constructor
    · rintro ⟨_, hcount, _, ⟨_, hcond, rfl⟩, _, htable, rfl⟩
      rw [concreteOperandCount_stateOf, take_operandStack] at htable
      obtain ⟨⟨ρ, hρ⟩, hknown⟩ := hops.mp ⟨hcount.imp_right fun h => by omega, hcond, htable⟩
      exact ⟨.unreachable, by simp [hknown, OpStack.escape, hρ], by simp⟩
    · rintro ⟨τ, hτ, rfl⟩
      split at hτ
      · cases hτ
      · rename_i hknown
        obtain ⟨ρ, hρ, rfl⟩ := Option.map_eq_some_iff.mp hτ
        obtain ⟨hcount, hcond, htable⟩ := hops.mpr ⟨⟨ρ, hρ⟩, hknown⟩
        have hcount' : σ.poly = true ∨ ¬ (ts.length = sizeMax ∨ σ.vals.length < ts.length + 1) :=
          hcount.imp_right fun h => by have := one_lt_sizeMax; omega
        refine ⟨(), hcount', _, ⟨(), hcond, rfl⟩, (), ?_, by simp⟩
        rwa [concreteOperandCount_stateOf, take_operandStack]

end Uwvm2.Validation.Wasm1
