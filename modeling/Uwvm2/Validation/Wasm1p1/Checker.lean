import Uwvm2.Validation.Wasm1p1.Typing

/-!
# Algorithmic typing of multi-value control flow

The effect of each instruction on an operand stack, sound and complete for the
declarative rules. The rule of `br_table` asks for one list of operand types
that matches all labels; it exists exactly when the operands can be popped at
each label's types and all labels have one arity.
-/

namespace Uwvm2.Validation.Wasm1p1

open StackTyping

instance : Nonempty ValueType := ⟨.i32⟩

variable (C : Context)

def signature : PlainInstr → Option (List ValueType × List ValueType)
  | .nop => some ([], [])
  | .i32Const _ => some ([], [.i32])
  | .i64Const _ => some ([], [.i64])
  | .f32Const _ => some ([], [.f32])
  | .f64Const _ => some ([], [.f64])
  | .num n => some (NumInstr.operands n, [NumInstr.result n])
  | .extend op => if C.parts.signExtension then some ([op.type], [op.type]) else none
  | .truncSat dst src _ =>
    if C.parts.saturatingTruncation then some ([.ofMvp src.float], [.ofMvp dst.int]) else none
  | _ => none

/-- A `br_table` on these operands can go to the label, which takes `arity` operands. -/
def fits (ls : List (List ValueType)) (arity : Nat) (σ : OpStack ValueType) (l : Nat) : Bool :=
  match ls[l]? with
  | some ts => ts.length = arity && (σ.popAll (.i32 :: ts)).isSome
  | none => false

def tableEffect (ls : List (List ValueType)) (js : List Nat) (j : Nat) (σ : OpStack ValueType) :
    Option (OpStack ValueType) :=
  ls[j]?.bind fun ts =>
    if (js ++ [j]).all (fits ls ts.length σ) then some .unreachable else none

def effect (ls : List (List ValueType)) (p : PlainInstr) (σ : OpStack ValueType) :
    Option (OpStack ValueType) :=
  match p with
  | .unreachable => some .unreachable
  | .br l => ls[l]?.bind fun ts => σ.escape ts
  | .brIf l => ls[l]?.bind fun ts => σ.apply (.i32 :: ts) ts
  | .brTable js j => tableEffect ls js j σ
  | .return_ => σ.escape C.return_.reverse
  | p => (signature C p).bind fun (ins, outs) => σ.apply ins outs

def blockSides : BlockTy → Option (List ValueType × List ValueType)
  | .empty => some ([], [])
  | .result .v128 => if C.parts.vectors then some ([], [.v128]) else none
  | .result .funcref => if C.parts.references then some ([], [.funcref]) else none
  | .result .externref => if C.parts.references then some ([], [.externref]) else none
  | .result t => some ([], [t])
  | .index x => C.types[x]?.map fun f => (f.parameter.reverse, f.result.reverse)

def checker : Checker ValueType PlainInstr BlockTy where
  cond := .i32
  blockType := blockSides C
  plain := effect C

-- Agreement with the declarative rules

variable {C} {ls : List (List ValueType)} {σ : OpStack ValueType}

theorem blockSides_eq_some : blockSides C b = some (ins, outs) ↔ BlockTyped C b ins outs := by
  constructor
  · intro h
    match b with
    | .empty =>
      cases h
      exact .empty
    | .result t =>
      cases t <;> simp [blockSides] at h
      case v128 => obtain ⟨hp, rfl, rfl⟩ := h; exact .result hp
      case funcref => obtain ⟨hp, rfl, rfl⟩ := h; exact .result hp
      case externref => obtain ⟨hp, rfl, rfl⟩ := h; exact .result hp
      all_goals obtain ⟨rfl, rfl⟩ := h; exact .result trivial
    | .index x =>
      obtain ⟨f, hf, hsides⟩ := Option.map_eq_some_iff.mp h
      cases hsides
      exact .index hf
  · intro h
    cases h with
    | empty => rfl
    | @result t hp => cases t <;> simp_all [blockSides, Parts.HasType]
    | index hf => simp [blockSides, hf]

theorem signature_typed
    (h : signature C p = some (ins, outs)) : PlainTyped C ls p (known ins) (known outs) := by
  cases p <;> simp [signature] at h
  case nop => obtain ⟨rfl, rfl⟩ := h; exact .nop
  case i32Const => obtain ⟨rfl, rfl⟩ := h; exact .i32Const
  case i64Const => obtain ⟨rfl, rfl⟩ := h; exact .i64Const
  case f32Const => obtain ⟨rfl, rfl⟩ := h; exact .f32Const
  case f64Const => obtain ⟨rfl, rfl⟩ := h; exact .f64Const
  case num => obtain ⟨rfl, rfl⟩ := h; exact .num
  case extend => obtain ⟨hp, rfl, rfl⟩ := h; exact .extend hp
  case truncSat => obtain ⟨hp, rfl, rfl⟩ := h; exact .truncSat hp

theorem fits_eq_true : fits ls arity σ l = true ↔
      ∃ ts, ls[l]? = some ts ∧ ts.length = arity ∧ ∃ ρ, σ.popAll (.i32 :: ts) = some ρ := by
  unfold fits
  cases ls[l]? with
  | none => simp
  | some ts => simp [Option.isSome_iff_exists]

theorem tableEffect_eq_some : tableEffect ls js j σ = some τ ↔
      τ = .unreachable ∧ ∃ arity, ∀ l ∈ js ++ [j], fits ls arity σ l = true := by
  simp only [tableEffect, Option.bind_eq_some_iff, List.all_eq_true]
  constructor
  · rintro ⟨ts, -, h⟩
    split at h
    case isTrue hall =>
      cases h
      exact ⟨rfl, ts.length, hall⟩
    case isFalse => cases h
  · rintro ⟨rfl, arity, hall⟩
    obtain ⟨ts, hj, rfl, -⟩ := fits_eq_true.mp (hall j (by simp))
    exact ⟨ts, hj, if_pos hall⟩

/-- The least types of the operands match every label. -/
theorem tableEffect_sound (h : tableEffect ls js j σ = some τ) :
    ∃ ts, Holds (Matching.bottom ValueType) σ ts ∧
      Framed (Matching.bottom ValueType) (PlainTyped C ls (.brTable js j)) ts ts' := by
  obtain ⟨-, arity, hall⟩ := tableEffect_eq_some.mp h
  obtain ⟨us, -, rfl, ρ, hpop⟩ := fits_eq_true.mp (hall j (by simp))
  obtain ⟨r, hr⟩ := exists_holds (M := Matching.bottom ValueType) ρ
  refine ⟨_, least_holds hpop hr, ?_⟩
  have hlabels : ∀ l ∈ js ++ [j], ∃ ts, ls[l]? = some ts ∧
      List.Forall₂ (Matching.bottom ValueType).le (σ.tail.least us.length) (known ts) := by
    intro l hl
    obtain ⟨ts, hts, hlen, _, hpop'⟩ := fits_eq_true.mp (hall l hl)
    have hle := least_le hpop'
    rw [List.length_cons, hlen] at hle
    cases hle with
    | cons _ hle => exact ⟨ts, hts, hle⟩
  have hhead : (Matching.bottom ValueType).le σ.vals.head?.join (some .i32) := by
    cases least_le hpop with
    | cons hle _ => exact hle
  refine ⟨σ.least us.length.succ ++ r, some .i32 :: (σ.tail.least us.length ++ r), ts', [],
    by simp, ?_, .brTable hlabels, by simp⟩
  exact .cons hhead (forall₂_refl _)

theorem tableEffect_complete (hts : Holds (Matching.bottom ValueType) σ ts)
    (h : Framed (Matching.bottom ValueType) (PlainTyped C ls (.brTable js j)) ts ts') :
    ∃ τ, tableEffect ls js j σ = some τ ∧ Holds (Matching.bottom ValueType) τ ts' := by
  obtain ⟨a, a', b, r, rfl, hle, hab, rfl⟩ := h
  refine ⟨.unreachable, tableEffect_eq_some.mpr ⟨rfl, ?_⟩, holds_unreachable⟩
  cases hab with
  | @brTable _ _ _ os rest _ hlabels =>
    obtain ⟨a₁, a₂, rfl, hle₁, -⟩ := forall₂_append_right
      (b := some ValueType.i32 :: os) (c := rest) hle
    rw [List.append_assoc] at hts
    refine ⟨os.length, fun l hl => ?_⟩
    obtain ⟨us, hl, hos⟩ := hlabels l hl
    have hcons : List.Forall₂ (Matching.bottom ValueType).le (some ValueType.i32 :: os)
        ((.i32 :: us).map some) := .cons (.inr rfl) hos
    obtain ⟨ρ, hpop, -⟩ := popAll_complete (forall₂_bottom_trans hle₁ hcons) hts
    exact fits_eq_true.mpr ⟨us, hl, by simpa using hos.length_eq.symm, ρ, hpop⟩

theorem effect_sound (h : effect C ls p σ = some τ) (ht : Holds (Matching.bottom ValueType) τ ts') :
    ∃ ts, Holds (Matching.bottom ValueType) σ ts ∧
      Framed (Matching.bottom ValueType) (PlainTyped C ls p) ts ts' := by
  have hmono : ((signature C p).bind fun (ins, outs) => σ.apply ins outs) = some τ →
      ∃ ts, Holds (Matching.bottom ValueType) σ ts ∧
        Framed (Matching.bottom ValueType) (PlainTyped C ls p) ts ts' := by
    intro h
    obtain ⟨⟨ins, outs⟩, hsig, happ⟩ := Option.bind_eq_some_iff.mp h
    exact apply_sound happ ht (signature_typed hsig)
  cases p
  case unreachable =>
    obtain ⟨ts, hts⟩ := exists_holds (M := Matching.bottom ValueType) σ
    exact ⟨ts, hts, ts, ts, ts', [], by simp, forall₂_refl ts, .unreachable, by simp⟩
  case br l =>
    obtain ⟨us, hl, hesc⟩ := Option.bind_eq_some_iff.mp h
    exact escape_sound hesc fun a b => .br hl
  case brIf l =>
    obtain ⟨us, hl, happ⟩ := Option.bind_eq_some_iff.mp h
    exact apply_sound happ ht (.brIf hl)
  case brTable js j => exact tableEffect_sound h
  case return_ => exact escape_sound h fun a b => .return_
  all_goals exact hmono h

theorem PlainTyped.br_inv (h : PlainTyped C ls (.br l) a b) :
    ∃ ts r, ls[l]? = some ts ∧ a = known ts ++ r := by
  cases h with
  | br hl => exact ⟨_, _, hl, rfl⟩

theorem PlainTyped.brIf_inv (h : PlainTyped C ls (.brIf l) a b) :
    ∃ ts, ls[l]? = some ts ∧ a = known (.i32 :: ts) ∧ b = known ts := by
  cases h with
  | brIf hl => exact ⟨_, hl, rfl, rfl⟩

theorem effect_complete (hts : Holds (Matching.bottom ValueType) σ ts)
    (h : Framed (Matching.bottom ValueType) (PlainTyped C ls p) ts ts') :
    ∃ τ, effect C ls p σ = some τ ∧ Holds (Matching.bottom ValueType) τ ts' := by
  have hmono : (∀ {a b}, PlainTyped C ls p a b →
        ∃ ins outs, signature C p = some (ins, outs) ∧ a = known ins ∧ b = known outs) →
      ∃ τ, ((signature C p).bind fun (ins, outs) => σ.apply ins outs) = some τ ∧
        Holds (Matching.bottom ValueType) τ ts' := by
    intro hsig
    obtain ⟨-, a, b, -, -, -, hab, -⟩ := id h
    obtain ⟨ins, outs, hp, -, -⟩ := hsig hab
    simp only [hp, Option.bind_some]
    refine apply_complete hts h fun hab' => ?_
    obtain ⟨ins', outs', hp', rfl, rfl⟩ := hsig hab'
    obtain ⟨rfl, rfl⟩ : ins = ins' ∧ outs = outs' := by simpa [hp] using hp'
    exact ⟨rfl, rfl⟩
  cases p
  case unreachable => exact ⟨_, rfl, holds_unreachable⟩
  case br l =>
    obtain ⟨-, _, _, -, -, -, hab, -⟩ := id h
    obtain ⟨us, -, hl, -⟩ := hab.br_inv
    simp only [effect, hl, Option.bind_some]
    refine escape_complete hts h fun hab' => ?_
    obtain ⟨us', r, hl', rfl⟩ := hab'.br_inv
    obtain rfl : us = us' := Option.some.inj (hl.symm.trans hl')
    exact ⟨r, rfl⟩
  case brIf l =>
    obtain ⟨-, _, _, -, -, -, hab, -⟩ := id h
    obtain ⟨us, hl, -, -⟩ := hab.brIf_inv
    simp only [effect, hl, Option.bind_some]
    refine apply_complete hts h fun hab' => ?_
    obtain ⟨us', hl', ha, hb⟩ := hab'.brIf_inv
    obtain rfl : us = us' := Option.some.inj (hl.symm.trans hl')
    exact ⟨ha, hb⟩
  case brTable js j => exact tableEffect_complete hts h
  case return_ =>
    refine escape_complete hts h fun hab => ?_
    cases hab with
    | return_ => exact ⟨_, rfl⟩
  all_goals
    refine hmono fun hab => ?_
    cases hab
    simp [signature, *]

theorem checker_sound : (checker C).Sound (rules C) where
  cond := rfl
  blockType h := blockSides_eq_some.mp h
  plain h ht := effect_sound h ht

theorem checker_complete : (checker C).Complete (rules C) where
  cond := rfl
  blockType h := blockSides_eq_some.mpr h
  plain hts h := effect_complete hts h

end Uwvm2.Validation.Wasm1p1
