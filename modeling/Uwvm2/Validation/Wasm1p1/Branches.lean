import Uwvm2.Validation.Wasm1.Step
import Uwvm2.Validation.Wasm1p1.Blocks

/-!
# The branch arms of the wasm1p1 validator

Branches look labels up and check the operands that the label takes. The targets
of a `br_table` are compared with the first one while the selector is still on
the stack, position by position, and may differ where the operand is missing or
unknown; together with the check against the first label this accepts exactly
the labels that the operands fit.
-/

namespace Uwvm2.Validation.Wasm1p1

open StackTyping List OpStack
open Wasm1 (ReadsLabels sizeMax)

variable {env : Env} {opBegin : List UInt8} {σ : OpStack ValueType} {l : Nat}

theorem blocks_getElem? :
    (blocks F)[l]?.map Block.label = (F.map Frame.label)[l]?.map List.reverse := by
  induction F generalizing l with
  | nil => rfl
  | cons f F ih =>
    cases l with
    | zero => rfl
    | succ l => simpa [blocks] using ih

theorem checkLabel_tracks {α β : Type} {view : α → β} {k : Block → Result β}
    {g : List ValueType → Option α}
    (hk : ∀ b, b.label.reverse ∈ F.map Frame.label → Tracks view (k b) (g b.label.reverse)) :
    Tracks view (checkLabel env opBegin (stateOf c ⟨F, σ⟩) l >>= k)
      ((F.map Frame.label)[l]?.bind g) := by
  have hb := blocks_getElem? (l := l) (F := F)
  unfold checkLabel
  cases hl : (F.map Frame.label)[l]? with
  | none =>
    rw [hl, Option.map_none, Option.map_eq_none_iff] at hb
    simp only [stateOf_controlFlowStack, hb, error_bind]
    exact .error
  | some ts =>
    rw [hl, Option.map_some, Option.map_eq_some_iff] at hb
    obtain ⟨b, hb, hts⟩ := hb
    have hrev : b.label.reverse = ts := by rw [hts, reverse_reverse]
    simp only [stateOf_controlFlowStack, hb, ok_bind, Option.bind_some]
    rw [← hrev]
    exact hk b (hrev ▸ mem_of_getElem? hl)

theorem escape_tracks (ts : List ValueType) : Tracks (within c (f :: fs)) (do
        let st ← popExpectedOperands env opBegin opName ts (stateOf c ⟨f :: fs, σ⟩)
        return setUnreachable st)
      (σ.escape ts.reverse) := by
  rw [OpStack.escape, Option.map_eq_bind]
  exact (popExpectedOperands_tracks _).bind fun ρ _ => .pure setUnreachable_stateOf

theorem br_tracks (h : env.leb.u32 c = .ok (l, c')) :
    Tracks (within c' (f :: fs)) (br env opBegin (stateOf c ⟨f :: fs, σ⟩))
      (effect C ((f :: fs).map Frame.label) (.br l) σ) := by
  simp only [br, readImm_eq h, ok_bind, effect]
  refine checkLabel_tracks fun b _ => ?_
  simpa using escape_tracks b.label

theorem return_tracks (hF : OpenFrames C.return_.reverse (f :: fs)) :
    Tracks (within c (f :: fs)) (return_ env opBegin (stateOf c ⟨f :: fs, σ⟩))
      (effect C ((f :: fs).map Frame.label) .return_ σ) := by
  have hlast : (stateOf c ⟨f :: fs, σ⟩).controlFlowStack.getLast?.map Block.result =
      some C.return_ := by simpa using hF.getLast
  simp only [return_, hlast, Option.getD_some, effect]
  exact escape_tracks _

/-- What `br_if` leaves: in unreachable code the label's types replace its operands, which
may be missing or unknown. -/
theorem brIf_rest (hpop : σ.popAll ts.reverse = some ρ) :
    (if (stateOf c ⟨f :: fs, σ⟩).isPolymorphic = true ∧ ts ≠ [] then
        pure (pushValueTypes ts (popAvailableConcreteOperands
          (min (concreteOperandCount (stateOf c ⟨f :: fs, σ⟩)) ts.length)
          (stateOf c ⟨f :: fs, σ⟩)))
      else pure (stateOf c ⟨f :: fs, σ⟩) : Result State) =
      .ok (stateOf c ⟨f :: fs, ρ.pushAll ts.reverse⟩) := by
  obtain ⟨-, -, rfl⟩ := popAll_eq_some.mp hpop
  rw [concreteOperandCount_stateOf, popAvailable_stateOf, pushValueTypes_stateOf,
    drop_min, length_reverse, stateOf_isPolymorphic]
  split
  case isTrue => rfl
  case isFalse h =>
    suffices hsame : (σ.drop ts.length).pushAll ts.reverse = σ by
      rw [hsame]
      rfl
    cases hp : σ.poly with
    | false => simpa using pushAll_drop_of_popAll hpop hp
    | true =>
      obtain rfl : ts = [] := by simpa [hp] using h
      exact OpStack.ext (by simp) rfl

theorem brIf_tracks (hF : OpenFrames C.return_.reverse (f :: fs))
    (h : env.leb.u32 c = .ok (l, c')) :
    Tracks (within c' (f :: fs)) (brIf env opBegin (stateOf c ⟨f :: fs, σ⟩))
      (effect C ((f :: fs).map Frame.label) (.brIf l) σ) := by
  simp only [brIf, readImm_eq h, ok_bind, effect]
  refine checkLabel_tracks fun b hb => ?_
  rw [OpStack.apply, Option.map_eq_bind]
  refine condition_tracks length_reverse.symm (by simpa using hF.label_lt hb) fun hl => ?_
  intro st'
  simp only [checkArguments, bind_ok, checkConcreteOperands_ok, Option.bind_eq_some_iff]
  constructor
  · rintro ⟨_, hagree, h⟩
    have hρ : σ.tail.popAll b.label.reverse = some _ :=
      popAll_eq_some.mpr ⟨hl, hagree, rfl⟩
    rw [brIf_rest hρ] at h
    cases h
    exact ⟨_, ⟨_, hρ, rfl⟩, rfl⟩
  · rintro ⟨_, ⟨ρ, hρ, hτ⟩, rfl⟩
    cases hτ
    exact ⟨(), (popAll_eq_some.mp hρ).2.1, brIf_rest hρ⟩

-- `br_table`

theorem argumentIsBottom_stateOf (hcore : usesMvpValidationRules env.para = false) :
    argumentIsBottom env (stateOf c ⟨f :: fs, σ⟩) d = true ↔
      σ.poly = true ∧ σ.vals[d]?.join = none := by
  have hentry : (σ.vals.length ≤ d ∨ (σ.vals ++ below (f :: fs))[d]? = some none) ↔
      σ.vals[d]?.join = none := by
    rcases Nat.lt_or_ge d σ.vals.length with hd | hd
    · simp [hd, Nat.not_le.mpr hd, getElem?_append_left]
    · simp [hd]
  have hstack : (stateOf c ⟨f :: fs, σ⟩).operandStack = σ.vals ++ below (f :: fs) := rfl
  simp only [argumentIsBottom, hcore, concreteOperandCount_stateOf, hstack, stateOf_isPolymorphic,
    Bool.and_eq_true, Bool.or_eq_true, decide_eq_true_eq, Bool.not_false, true_and, hentry]

theorem firstMismatch_eq_none : firstMismatch env st arity i es as = none ↔
      ∀ (k : Nat) (e a : ValueType), es[k]? = some e → as[k]? = some a →
        e = a ∨ argumentIsBottom env st (arity - (i + k)) = true := by
  induction es generalizing i as with
  | nil => simp [firstMismatch]
  | cons e es ih =>
    cases as with
    | nil => simp [firstMismatch]
    | cons a as =>
      unfold firstMismatch
      split
      case isTrue h =>
        simp only [reduceCtorEq, false_iff]
        intro hall
        rcases hall 0 e a rfl rfl with heq | hbot
        · exact h.1 heq
        · simp [h.2] at hbot
      case isFalse h =>
        rw [ih]
        constructor
        · rintro hall (_ | k) x y hx hy
          · cases hx
            cases hy
            by_cases heq : e = a
            · exact .inl heq
            · exact .inr (by simpa [heq] using h)
          · have hk := hall k x y (by simpa using hx) (by simpa using hy)
            rwa [Nat.add_assoc, Nat.add_comm 1] at hk
        · intro hall k x y hx hy
          have hk := hall (k + 1) x y (by simpa using hx) (by simpa using hy)
          rwa [Nat.add_comm k, ← Nat.add_assoc] at hk

/-- Two labels can be targets of one `br_table` on these operands, as far as the
comparison with the first one goes. Labels have the top of the stack first. -/
def Comparable (σ : OpStack ValueType) (first ts : List ValueType) : Prop :=
  first.length = ts.length ∧ ∀ (k : Nat) (e a : ValueType), first[k]? = some e → ts[k]? = some a →
    e = a ∨ (σ.poly = true ∧ σ.vals[k + 1]?.join = none)

theorem getElem?_reverse_some {α : Type} {as : List α} {a : α}
    (h : as.reverse[k]? = some a) : k < as.length ∧ as[as.length - 1 - k]? = some a := by
  have hk : k < as.length := by
    obtain ⟨hk, -⟩ := List.getElem?_eq_some_iff.mp h
    simpa using hk
  rw [getElem?_reverse hk] at h
  exact ⟨hk, h⟩

theorem checkBrTableSig_ok (hcore : usesMvpValidationRules env.para = false) {x : Nat} :
    checkBrTableSig env opBegin (stateOf c ⟨f :: fs, σ⟩) x first.reverse l ts.reverse = .ok u ↔
      Comparable σ first ts := by
  simp only [checkBrTableSig, ensure_ok, length_reverse, firstMismatch_eq_none, Nat.zero_add,
    argumentIsBottom_stateOf hcore, Comparable]
  refine and_congr_right fun hlen => ?_
  -- the source counts positions from the bottom of the label
  constructor
  · intro h k e a he ha
    have hk : k < first.length := (List.getElem?_eq_some_iff.mp he).1
    have hrev : ∀ {us : List ValueType} {t}, us.length = first.length → us[k]? = some t →
        us.reverse[first.length - 1 - k]? = some t := by
      intro us t hus ht
      rw [getElem?_reverse (by omega), hus]
      rwa [show first.length - 1 - (first.length - 1 - k) = k by omega]
    have hpos := h (first.length - 1 - k) e a (hrev rfl he) (hrev hlen.symm ha)
    rwa [show first.length - (first.length - 1 - k) = k + 1 by omega] at hpos
  · intro h k e a he ha
    obtain ⟨hk, he⟩ := getElem?_reverse_some he
    obtain ⟨-, ha⟩ := getElem?_reverse_some ha
    rw [← hlen] at ha
    have hpos := h (first.length - 1 - k) e a he ha
    rwa [show first.length - 1 - k + 1 = first.length - k by omega] at hpos

theorem comparable_iff (hfirst : σ.popAll (.i32 :: first) = some ρ) : Comparable σ first ts ↔
      ts.length = first.length ∧ ∃ ρ', σ.popAll (.i32 :: ts) = some ρ' := by
  obtain ⟨hl, hagree, -⟩ := popAll_eq_some.mp hfirst
  rw [agrees_iff] at hagree
  have hpop : ∀ us : List ValueType, us.length = first.length →
      ((∃ ρ', σ.popAll (.i32 :: us) = some ρ') ↔
        ∀ (k : Nat) (v w : ValueType), us[k]? = some v → σ.vals[k + 1]? = some (some w) →
          w = v) := by
    intro us hus
    simp only [popAll_eq_some, agrees_iff, length_cons, hus]
    constructor
    · rintro ⟨_, -, h, -⟩ k v w hv hw
      exact h (k + 1) v w (by simpa using hv) hw
    · intro h
      refine ⟨_, hl, fun k v w hv hw => ?_, rfl⟩
      cases k with
      | zero => exact hagree 0 v w (by simpa using hv) hw
      | succ k => exact h k v w (by simpa using hv) hw
  have hknown := (hpop first rfl).mp ⟨ρ, hfirst⟩
  constructor
  · rintro ⟨hlen, hall⟩
    refine ⟨hlen.symm, (hpop ts hlen.symm).mpr fun k v w hv hw => ?_⟩
    have hk : k < first.length := hlen ▸ (List.getElem?_eq_some_iff.mp hv).1
    have he : first[k]? = some (first.get ⟨k, hk⟩) := by simp [hk]
    rcases hall k _ v he hv with heq | ⟨-, hnone⟩
    · rw [← heq]
      exact hknown k _ w he hw
    · simp [hw] at hnone
  · rintro ⟨hlen, hts⟩
    rw [hpop ts hlen] at hts
    refine ⟨hlen.symm, fun k e a he ha => ?_⟩
    cases hw : σ.vals[k + 1]?.join with
    | some w =>
      have hw' : σ.vals[k + 1]? = some (some w) := Option.join_eq_some_iff.mp hw
      exact .inl ((hknown k e w he hw').symm.trans (hts k a w ha hw'))
    | none =>
      refine .inr ⟨?_, rfl⟩
      by_contra hpoly
      -- without a polymorphic base every operand is there and known
      have hk : k + 1 < σ.vals.length := by
        have hlt : k < first.length := (List.getElem?_eq_some_iff.mp he).1
        simp [hpoly] at hl
        omega
      have hmem : none ∈ σ.vals := by
        obtain ⟨o, ho⟩ : ∃ o, σ.vals[k + 1]? = some o := ⟨_, getElem?_eq_getElem hk⟩
        rw [ho] at hw
        cases o with
        | none => exact mem_of_getElem? ho
        | some w => cases hw
      exact σ.known (by simpa using hpoly) hmem

section Targets

theorem brTableTarget_none (h : env.leb.u32 c = .ok (l, c')) :
    Tracks (fun ts : List ValueType => ((l, ts.reverse), stateOf c' ⟨F, σ⟩))
      (brTableTarget env opBegin none (stateOf c ⟨F, σ⟩)) (F.map Frame.label)[l]? := by
  simp only [brTableTarget, readImm_eq h, ok_bind]
  rw [← Option.bind_fun_some (F.map Frame.label)[l]?]
  refine checkLabel_tracks fun b _ => ?_
  exact .pure (by rw [reverse_reverse])

theorem exists_label {P : List ValueType → Prop} :
    (∃ b, checkLabel env opBegin (stateOf c ⟨F, σ⟩) l = .ok b ∧ P b.label) ↔
      ∃ ts, (F.map Frame.label)[l]? = some ts ∧ P ts.reverse := by
  have hb := blocks_getElem? (l := l) (F := F)
  unfold checkLabel
  rw [stateOf_controlFlowStack]
  cases hl : (F.map Frame.label)[l]? with
  | none =>
    rw [hl, Option.map_none, Option.map_eq_none_iff] at hb
    simp [hb]
  | some ts =>
    rw [hl, Option.map_some, Option.map_eq_some_iff] at hb
    obtain ⟨b, hb, hts⟩ := hb
    simp [hb, hts]

theorem brTableTarget_some (hcore : usesMvpValidationRules env.para = false)
    (h : env.leb.u32 c = .ok (l, c')) :
    brTableTarget env opBegin (some (x, first.reverse)) (stateOf c ⟨f :: fs, σ⟩) = .ok r ↔
      (∃ ts, ((f :: fs).map Frame.label)[l]? = some ts ∧ Comparable σ first ts) ∧
        r = ((x, first.reverse), stateOf c' ⟨f :: fs, σ⟩) := by
  have hlabel : (∃ b, checkLabel env opBegin (stateOf c' ⟨f :: fs, σ⟩) l = .ok b ∧
      checkBrTableSig env opBegin (stateOf c' ⟨f :: fs, σ⟩) x first.reverse l b.label = .ok ()) ↔
      ∃ ts, ((f :: fs).map Frame.label)[l]? = some ts ∧ Comparable σ first ts := by
    simp only [exists_label (P := fun ts => checkBrTableSig env opBegin
      (stateOf c' ⟨f :: fs, σ⟩) x first.reverse l ts = .ok ()), checkBrTableSig_ok hcore]
  rw [← hlabel]
  simp only [brTableTarget, readImm_eq h, ok_bind, bind_ok, pure_ok]
  constructor
  · rintro ⟨b, hb, _, hsig, rfl⟩
    exact ⟨⟨b, hb, hsig⟩, rfl⟩
  · rintro ⟨⟨b, hb, hsig⟩, rfl⟩
    exact ⟨b, hb, (), hsig, rfl⟩

/-- All targets, the default last. -/
def brTableAll (env : Env) (opBegin : List UInt8) (n : Nat)
    (first : Option (Nat × List ValueType)) (st : State) :
    Result ((Nat × List ValueType) × State) := do
  let (first, st) ← brTableTargets env opBegin n first st
  brTableTarget env opBegin first st

theorem brTableAll_succ : brTableAll env opBegin (n + 1) first st = (do
      let (first, st) ← brTableTarget env opBegin first st
      brTableAll env opBegin n (some first) st) := by
  simp [brTableAll, brTableTargets]

theorem brTableAll_some (hcore : usesMvpValidationRules env.para = false)
    (hjs : ReadsLabels env.leb js c c₁) (hj : env.leb.u32 c₁ = .ok (j, c')) :
    brTableAll env opBegin js.length (some (x, first.reverse)) (stateOf c ⟨f :: fs, σ⟩) = .ok r ↔
      (∀ l ∈ js ++ [j], ∃ ts, ((f :: fs).map Frame.label)[l]? = some ts ∧ Comparable σ first ts) ∧
        r = ((x, first.reverse), stateOf c' ⟨f :: fs, σ⟩) := by
  induction js generalizing c with
  | nil =>
    cases hjs
    rw [nil_append, forall_mem_singleton]
    exact brTableTarget_some hcore hj
  | cons l js ih =>
    obtain ⟨c₂, hread, hrest⟩ := hjs
    rw [length_cons, brTableAll_succ, bind_ok, cons_append, forall_mem_cons]
    constructor
    · rintro ⟨_, htarget, hall⟩
      obtain ⟨hl, rfl⟩ := (brTableTarget_some hcore hread).mp htarget
      obtain ⟨hls, rfl⟩ := (ih hrest).mp hall
      exact ⟨⟨hl, hls⟩, rfl⟩
    · rintro ⟨⟨hl, hls⟩, rfl⟩
      exact ⟨_, (brTableTarget_some hcore hread).mpr ⟨hl, rfl⟩, (ih hrest).mpr ⟨hls, rfl⟩⟩

theorem Comparable.self : Comparable σ ts ts := by
  refine ⟨rfl, fun k e a he ha => .inl ?_⟩
  exact Option.some.inj (he.symm.trans ha)

theorem brTableAll_none (hcore : usesMvpValidationRules env.para = false)
    (hjs : ReadsLabels env.leb js c c₁) (hj : env.leb.u32 c₁ = .ok (j, c')) :
    brTableAll env opBegin js.length none (stateOf c ⟨f :: fs, σ⟩) = .ok r ↔
      ∃ x first, (js ++ [j]).head? = some x ∧ ((f :: fs).map Frame.label)[x]? = some first ∧
        (∀ l ∈ js ++ [j], ∃ ts, ((f :: fs).map Frame.label)[l]? = some ts ∧
          Comparable σ first ts) ∧ r = ((x, first.reverse), stateOf c' ⟨f :: fs, σ⟩) := by
  cases js with
  | nil =>
    cases hjs
    rw [nil_append]
    refine (brTableTarget_none hj r).trans ⟨?_, ?_⟩
    · rintro ⟨ts, hts, rfl⟩
      exact ⟨j, ts, rfl, hts, forall_mem_singleton.mpr ⟨ts, hts, .self⟩, rfl⟩
    · rintro ⟨_, ts, hx, hts, -, rfl⟩
      cases hx
      exact ⟨ts, hts, rfl⟩
  | cons l js =>
    obtain ⟨c₂, hread, hrest⟩ := hjs
    rw [length_cons, brTableAll_succ, bind_ok]
    constructor
    · rintro ⟨_, htarget, hall⟩
      obtain ⟨first, hfirst, rfl⟩ := (brTableTarget_none hread _).mp htarget
      obtain ⟨hls, rfl⟩ := (brTableAll_some hcore hrest hj).mp hall
      refine ⟨l, first, rfl, hfirst, ?_, rfl⟩
      rw [cons_append, forall_mem_cons]
      exact ⟨⟨first, hfirst, .self⟩, hls⟩
    · rintro ⟨x, first, hx, hfirst, hls, rfl⟩
      obtain rfl : l = x := by simpa using hx
      rw [cons_append, forall_mem_cons] at hls
      exact ⟨_, (brTableTarget_none hread _).mpr ⟨first, hfirst, rfl⟩,
        (brTableAll_some hcore hrest hj).mpr ⟨hls.2, rfl⟩⟩

theorem brTableRest_tracks (hlen : first.length < sizeMax) : Tracks (within c (f :: fs)) (do
        ensureOperandsPlusOne env opBegin "br_table" first.reverse.length (stateOf c ⟨f :: fs, σ⟩)
        let st ← popI32 env opBegin (.brCondTypeNotI32 "br_table") (stateOf c ⟨f :: fs, σ⟩)
        checkArguments env opBegin "br_table" first.reverse st
        return setUnreachable (popAvailableConcreteOperands first.reverse.length st))
      (σ.escape (.i32 :: first)) := by
  rw [OpStack.escape, Option.map_eq_bind]
  refine condition_tracks length_reverse (by simpa using hlen) fun hl => ?_
  intro st'
  simp only [checkArguments, bind_ok, checkConcreteOperands_ok, reverse_reverse, pure_ok,
    popAvailable_stateOf, setUnreachable_stateOf, Option.bind_eq_some_iff]
  constructor
  · rintro ⟨_, hagree, rfl⟩
    exact ⟨_, ⟨_, popAll_eq_some.mpr ⟨hl, hagree, rfl⟩, rfl⟩, rfl⟩
  · rintro ⟨_, ⟨ρ, hρ, hτ⟩, rfl⟩
    cases hτ
    exact ⟨(), (popAll_eq_some.mp hρ).2.1, rfl⟩

theorem tableEffect_iff (hx : (js ++ [j]).head? = some x) (hfirst : ls[x]? = some first) :
    (∀ l ∈ js ++ [j], ∃ ts, ls[l]? = some ts ∧ Comparable σ first ts) ∧
        σ.escape (.i32 :: first) = some τ ↔ tableEffect ls js j σ = some τ := by
  simp only [tableEffect_eq_some, OpStack.escape, Option.map_eq_some_iff]
  constructor
  · rintro ⟨hall, ρ, hρ, rfl⟩
    refine ⟨rfl, first.length, fun l hl => ?_⟩
    obtain ⟨ts, hts, hcmp⟩ := hall l hl
    obtain ⟨hlen, hpop⟩ := (comparable_iff hρ).mp hcmp
    exact fits_eq_true.mpr ⟨ts, hts, hlen, hpop⟩
  · rintro ⟨rfl, arity, hall⟩
    obtain ⟨ts, hts, hlen, ρ, hρ⟩ := fits_eq_true.mp (hall x (mem_of_mem_head? hx))
    obtain rfl : first = ts := Option.some.inj (hfirst.symm.trans hts)
    refine ⟨fun l hl => ?_, ρ, hρ, rfl⟩
    obtain ⟨us, hus, hulen, hpop⟩ := fits_eq_true.mp (hall l hl)
    exact ⟨us, hus, (comparable_iff hρ).mpr ⟨hulen.trans hlen.symm, hpop⟩⟩

theorem brTable_tracks (hE : EnvFor env C) (hF : OpenFrames C.return_.reverse (f :: fs))
    (hn : env.leb.u32 c = .ok (js.length, c₁)) (hfit : js.length < c₁.length)
    (hmax : js.length < sizeMax) (hjs : ReadsLabels env.leb js c₁ c₂)
    (hj : env.leb.u32 c₂ = .ok (j, c')) :
    Tracks (within c' (f :: fs)) (brTable env opBegin (stateOf c ⟨f :: fs, σ⟩))
      (effect C ((f :: fs).map Frame.label) (.brTable js j) σ) := by
  have hcount : ¬ (js.length = sizeMax ∨ c₁.length = 0 ∨ js.length ≥ c₁.length) := by omega
  have hsplit : brTable env opBegin (stateOf c ⟨f :: fs, σ⟩) = (do
      let r ← brTableAll env opBegin js.length none (stateOf c₁ ⟨f :: fs, σ⟩)
      ensureOperandsPlusOne env opBegin "br_table" r.1.2.length r.2
      let st ← popI32 env opBegin (.brCondTypeNotI32 "br_table") r.2
      checkArguments env opBegin "br_table" r.1.2 st
      return setUnreachable (popAvailableConcreteOperands r.1.2.length st)) := by
    simp only [brTable, brTableAll, readImm_eq hn, ok_bind, bind_assoc, stateOf_codeCurr]
    exact ensure_bind hcount
  intro st'
  rw [hsplit, bind_ok, effect]
  constructor
  · rintro ⟨_, hall, hrest⟩
    obtain ⟨x, first, hx, hfirst, hls, rfl⟩ := (brTableAll_none hE.core2 hjs hj).mp hall
    obtain ⟨τ, hτ, rfl⟩ := (brTableRest_tracks (hF.label_lt (mem_of_getElem? hfirst)) st').mp hrest
    exact ⟨τ, (tableEffect_iff hx hfirst).mp ⟨hls, hτ⟩, rfl⟩
  · rintro ⟨τ, hτ, rfl⟩
    obtain ⟨x, hx⟩ : ∃ x, (js ++ [j]).head? = some x := by
      cases js <;> exact ⟨_, rfl⟩
    obtain ⟨-, arity, hfits⟩ := tableEffect_eq_some.mp hτ
    obtain ⟨first, hfirst, -⟩ := fits_eq_true.mp (hfits x (mem_of_mem_head? hx))
    obtain ⟨hls, hesc⟩ := (tableEffect_iff hx hfirst).mpr hτ
    exact ⟨_, (brTableAll_none hE.core2 hjs hj).mpr ⟨x, first, hx, hfirst, hls, rfl⟩,
      (brTableRest_tracks (hF.label_lt (mem_of_getElem? hfirst)) _).mpr ⟨τ, hesc, rfl⟩⟩

end Targets

end Uwvm2.Validation.Wasm1p1
