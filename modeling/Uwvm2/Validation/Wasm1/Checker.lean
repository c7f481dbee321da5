import Uwvm2.Validation.Wasm1.Typing

/-!
# Algorithmic typing of WebAssembly 1.0

The effect of each instruction on an operand stack of known and unknown types.
It comes in two variants. The lax one is sound and complete for the declarative
rules. The strict one rejects a `br_table` whose branch operand is of unknown
type, and is sound only; it is the one the validator implements.
-/

namespace Uwvm2.Validation.Wasm1

open StackTyping Option

instance : Nonempty ValueType := ⟨.i32⟩

variable (C : Context)

def signature : PlainInstr → Option (List ValueType × List ValueType)
  | .nop => some ([], [])
  | .call x => C.funcs[x]?.map fun f => (f.parameter.reverse, f.result.reverse)
  | .callIndirect x =>
    if 0 < C.tables then
      C.types[x]?.map fun f => (.i32 :: f.parameter.reverse, f.result.reverse)
    else none
  | .localGet x => C.locals[x]?.map fun t => ([], [t])
  | .localSet x => C.locals[x]?.map fun t => ([t], [])
  | .localTee x => C.locals[x]?.map fun t => ([t], [t])
  | .globalGet x => C.globals[x]?.map fun g => ([], [g.type])
  | .globalSet x => C.globals[x]?.bind fun g =>
      if g.isMutable then some ([g.type], []) else none
  | .load op align _ =>
    if 0 < C.mems ∧ 2 ^ align ≤ op.bytes then some ([.i32], [op.type]) else none
  | .store op align _ =>
    if 0 < C.mems ∧ 2 ^ align ≤ op.bytes then some ([op.type, .i32], []) else none
  | .memorySize => if 0 < C.mems then some ([], [.i32]) else none
  | .memoryGrow => if 0 < C.mems then some ([.i32], [.i32]) else none
  | .i32Const _ => some ([], [.i32])
  | .i64Const _ => some ([], [.i64])
  | .f32Const _ => some ([], [.f32])
  | .f64Const _ => some ([], [.f64])
  | .num n => some (n.type.1, [n.type.2])
  | _ => none

def tableLabel (ls : List (List ValueType)) (js : List Nat) (j : Nat) : Option (List ValueType) :=
  ls[j]?.bind fun ts => if ∀ l ∈ js, ls[l]? = some ts then some ts else none

/-- There is an operand under the selector of a `br_table` that takes one, and its
type is unknown. -/
def unknownOperand (ts : List ValueType) (σ : OpStack ValueType) : Prop :=
  ts ≠ [] ∧ σ.vals[1]? = some none

instance (ts : List ValueType) (σ : OpStack ValueType) : Decidable (unknownOperand ts σ) :=
  inferInstanceAs (Decidable (_ ∧ _))

def selectResult (t₁ t₂ : Option ValueType) (σ : OpStack ValueType) : Option (OpStack ValueType) :=
  match t₁, t₂ with
  | some a, some b => if a = b then some (σ.push a) else none
  | some a, none => some (σ.push a)
  | none, some b => some (σ.push b)
  | none, none => if h : σ.poly = true then some (σ.pushUnknown h) else none

def selectEffect (σ : OpStack ValueType) : Option (OpStack ValueType) :=
  (σ.popExpect .i32).bind fun σ₁ =>
  σ₁.popAny.bind fun (t₂, σ₂) =>
  σ₂.popAny.bind fun (t₁, σ₃) =>
  selectResult t₁ t₂ σ₃

def effect (strict : Bool) (ls : List (List ValueType)) (p : PlainInstr)
    (σ : OpStack ValueType) : Option (OpStack ValueType) :=
  match p with
  | .unreachable => some .unreachable
  | .br l => ls[l]?.bind fun ts => σ.escape ts
  | .brIf l => ls[l]?.bind fun ts => σ.apply (.i32 :: ts) ts
  | .brTable js j => (tableLabel ls js j).bind fun ts =>
      if strict = true ∧ unknownOperand ts σ then none else σ.escape (.i32 :: ts)
  | .return_ => σ.escape C.return_.reverse
  | .drop => σ.popAny.map Prod.snd
  | .select => selectEffect σ
  | p => (signature C p).bind fun (ins, outs) => σ.apply ins outs

def checker (strict : Bool) : Checker ValueType PlainInstr (Option ValueType) where
  cond := .i32
  blockType b := some ([], b.toList)
  plain := effect C strict

-- Agreement with the declarative rules

variable {C} {ls : List (List ValueType)} {σ : OpStack ValueType} {strict : Bool}

theorem signature_typed (h : signature C p = some (a, b)) : PlainTyped C ls p a b := by
  cases p <;> simp [signature, bind_eq_some_iff] at h
  case nop => obtain ⟨rfl, rfl⟩ := h; exact .nop
  case call => obtain ⟨f, hf, rfl, rfl⟩ := h; exact .call hf
  case callIndirect => obtain ⟨ht, f, hf, rfl, rfl⟩ := h; exact .callIndirect ht hf
  case localGet => obtain ⟨t, ht, rfl, rfl⟩ := h; exact .localGet ht
  case localSet => obtain ⟨t, ht, rfl, rfl⟩ := h; exact .localSet ht
  case localTee => obtain ⟨t, ht, rfl, rfl⟩ := h; exact .localTee ht
  case globalGet => obtain ⟨g, hg, rfl, rfl⟩ := h; exact .globalGet hg
  case globalSet => obtain ⟨g, hg, hm, rfl, rfl⟩ := h; exact .globalSet hg hm
  case load => obtain ⟨⟨hm, ha⟩, rfl, rfl⟩ := h; exact .load hm ha
  case store => obtain ⟨⟨hm, ha⟩, rfl, rfl⟩ := h; exact .store hm ha
  case memorySize => obtain ⟨hm, rfl, rfl⟩ := h; exact .memorySize hm
  case memoryGrow => obtain ⟨hm, rfl, rfl⟩ := h; exact .memoryGrow hm
  case i32Const => obtain ⟨rfl, rfl⟩ := h; exact .i32Const
  case i64Const => obtain ⟨rfl, rfl⟩ := h; exact .i64Const
  case f32Const => obtain ⟨rfl, rfl⟩ := h; exact .f32Const
  case f64Const => obtain ⟨rfl, rfl⟩ := h; exact .f64Const
  case num => obtain ⟨rfl, rfl⟩ := h; exact .num

theorem PlainTyped.br_inv (h : PlainTyped C ls (.br l) a b) :
    ∃ ts r, ls[l]? = some ts ∧ a = ts ++ r := by
  cases h with
  | br hl => exact ⟨_, _, hl, rfl⟩

theorem PlainTyped.brIf_inv (h : PlainTyped C ls (.brIf l) a b) :
    ∃ ts, ls[l]? = some ts ∧ a = .i32 :: ts ∧ b = ts := by
  cases h with
  | brIf hl => exact ⟨_, hl, rfl, rfl⟩

theorem PlainTyped.brTable_inv (h : PlainTyped C ls (.brTable js j) a b) :
    ∃ ts r, (∀ l ∈ js ++ [j], ls[l]? = some ts) ∧ a = .i32 :: (ts ++ r) := by
  cases h with
  | brTable hl => exact ⟨_, _, hl, rfl⟩

theorem PlainTyped.return_inv (h : PlainTyped C ls .return_ a b) :
    ∃ r, a = C.return_.reverse ++ r := by
  cases h with
  | return_ => exact ⟨_, rfl⟩

theorem tableLabel_eq_some : tableLabel ls js j = some ts ↔ ∀ l ∈ js ++ [j], ls[l]? = some ts := by
  simp only [tableLabel, bind_eq_some_iff, List.mem_append, List.mem_singleton]
  constructor
  · rintro ⟨us, hj, h⟩
    split at h
    case isTrue hall =>
      cases h
      rintro l (hl | rfl)
      · exact hall l hl
      · exact hj
    case isFalse => cases h
  · intro h
    exact ⟨ts, h j (.inr rfl), by rw [if_pos fun l hl => h l (.inl hl)]⟩

theorem selectEffect_sound (h : selectEffect σ = some τ)
    (ht : Holds (Matching.eq ValueType) τ ts') :
    ∃ t r, ts' = t :: r ∧ Holds (Matching.eq ValueType) σ (.i32 :: t :: t :: r) := by
  simp only [selectEffect, bind_eq_some_iff] at h
  obtain ⟨σ₁, h₁, ⟨t₂, σ₂⟩, h₂, ⟨t₁, σ₃⟩, h₃, h⟩ := h
  unfold selectResult at h
  -- whatever was pushed, it is the type of both popped operands
  have hpush : ∃ t r, ts' = t :: r ∧ Holds (Matching.eq ValueType) σ₃ r ∧
      (∀ v, t₁ = some v → t = v) ∧ (∀ v, t₂ = some v → t = v) := by
    match t₁, t₂ with
    | some a, some b =>
      dsimp only at h
      split at h
      case isTrue hab =>
        cases h
        obtain ⟨r, rfl, hr⟩ := holds_push.mp ht
        exact ⟨a, r, rfl, hr, by simp, by simp [hab]⟩
      case isFalse => cases h
    | some a, none =>
      cases h
      obtain ⟨r, rfl, hr⟩ := holds_push.mp ht
      exact ⟨a, r, rfl, hr, by simp, by simp⟩
    | none, some b =>
      cases h
      obtain ⟨r, rfl, hr⟩ := holds_push.mp ht
      exact ⟨b, r, rfl, hr, by simp, by simp⟩
    | none, none =>
      dsimp only at h
      split at h
      case isTrue hp =>
        cases h
        obtain ⟨t, r, rfl, hr⟩ := holds_pushUnknown.mp ht
        exact ⟨t, r, rfl, hr, by simp, by simp⟩
      case isFalse => cases h
  obtain ⟨t, r, rfl, hr, ht₁, ht₂⟩ := hpush
  have hσ₂ := (popAny_holds h₃).mpr ⟨ht₁, hr⟩
  have hσ₁ := (popAny_holds h₂).mpr ⟨ht₂, hσ₂⟩
  exact ⟨t, r, rfl, popExpect_sound h₁ hσ₁⟩

theorem selectEffect_complete (h : Holds (Matching.eq ValueType) σ (.i32 :: t :: t :: r)) :
    ∃ τ, selectEffect σ = some τ ∧ Holds (Matching.eq ValueType) τ (t :: r) := by
  obtain ⟨σ₁, h₁, hσ₁⟩ := popExpect_complete h ((Matching.eq ValueType).refl .i32)
  obtain ⟨t₂, σ₂, h₂⟩ := popAny_isSome hσ₁
  obtain ⟨ht₂, hσ₂⟩ := (popAny_holds h₂).mp hσ₁
  obtain ⟨t₁, σ₃, h₃⟩ := popAny_isSome hσ₂
  obtain ⟨ht₁, hσ₃⟩ := (popAny_holds h₃).mp hσ₂
  simp only [selectEffect, selectResult, h₁, h₂, h₃, bind_some]
  match t₁, t₂ with
  | some a, some b =>
    obtain rfl : t = a := ht₁ a rfl
    obtain rfl : t = b := ht₂ b rfl
    exact ⟨_, if_pos rfl, holds_push.mpr ⟨r, rfl, hσ₃⟩⟩
  | some a, none =>
    obtain rfl : t = a := ht₁ a rfl
    exact ⟨_, rfl, holds_push.mpr ⟨r, rfl, hσ₃⟩⟩
  | none, some b =>
    obtain rfl : t = b := ht₂ b rfl
    exact ⟨_, rfl, holds_push.mpr ⟨r, rfl, hσ₃⟩⟩
  | none, none =>
    have hp := popAny_none h₃
    exact ⟨_, dif_pos hp, holds_pushUnknown.mpr ⟨t, r, rfl, hσ₃⟩⟩

theorem effect_sound (h : effect C strict ls p σ = some τ)
    (ht : Holds (Matching.eq ValueType) τ ts') :
    ∃ ts, Holds (Matching.eq ValueType) σ ts ∧
      Framed (Matching.eq ValueType) (PlainTyped C ls p) ts ts' := by
  have hmono : ((signature C p).bind fun (ins, outs) => σ.apply ins outs) = some τ →
      ∃ ts, Holds (Matching.eq ValueType) σ ts ∧
        Framed (Matching.eq ValueType) (PlainTyped C ls p) ts ts' := by
    intro h
    obtain ⟨⟨ins, outs⟩, hsig, happ⟩ := bind_eq_some_iff.mp h
    exact apply_sound happ ht (by simpa using signature_typed hsig)
  cases p
  case unreachable =>
    obtain ⟨ts, hts⟩ := exists_holds (M := Matching.eq ValueType) σ
    exact ⟨ts, hts, ts, ts, ts', [], by simp, forall₂_refl ts, .unreachable, by simp⟩
  case br l =>
    obtain ⟨us, hl, hesc⟩ := bind_eq_some_iff.mp h
    exact escape_sound hesc fun a b => by simpa using .br hl
  case brIf l =>
    obtain ⟨us, hl, happ⟩ := bind_eq_some_iff.mp h
    exact apply_sound happ ht (by simpa using .brIf hl)
  case brTable js j =>
    obtain ⟨us, hl, h⟩ := bind_eq_some_iff.mp h
    split at h
    case isTrue => cases h
    case isFalse =>
      exact escape_sound h fun a b => by simpa using .brTable (tableLabel_eq_some.mp hl)
  case return_ => exact escape_sound h fun a b => by simpa using .return_
  case drop =>
    obtain ⟨⟨t, τ'⟩, hpop, rfl⟩ := map_eq_some_iff.mp h
    obtain ⟨v, hv⟩ : ∃ v, ∀ w, t = some w → v = w := by
      cases t with
      | none => exact ⟨.i32, by simp⟩
      | some w => exact ⟨w, by simp⟩
    exact ⟨v :: ts', (popAny_holds hpop).mpr ⟨hv, ht⟩, .of (a := [v]) (b := []) .drop⟩
  case select =>
    obtain ⟨t, r, rfl, hσ⟩ := selectEffect_sound h ht
    exact ⟨_, hσ, .of (a := [.i32, t, t]) (b := [t]) .select⟩
  all_goals exact hmono h

theorem effect_complete (hts : Holds (Matching.eq ValueType) σ ts)
    (h : Framed (Matching.eq ValueType) (PlainTyped C ls p) ts ts') :
    ∃ τ, effect C false ls p σ = some τ ∧ Holds (Matching.eq ValueType) τ ts' := by
  have hmono : (∀ {a b}, PlainTyped C ls p a b → signature C p = some (a, b)) →
      ∃ τ, ((signature C p).bind fun (ins, outs) => σ.apply ins outs) = some τ ∧
        Holds (Matching.eq ValueType) τ ts' := by
    intro hsig
    obtain ⟨-, a, b, -, -, -, hab, -⟩ := id h
    simp only [hsig hab, bind_some]
    refine apply_complete hts h fun hab' => ?_
    simpa [hsig hab, eq_comm] using hsig hab'
  cases p
  case unreachable => exact ⟨_, rfl, holds_unreachable⟩
  case br l =>
    obtain ⟨-, _, _, -, -, -, hab, -⟩ := id h
    obtain ⟨us, -, hl, -⟩ := hab.br_inv
    simp only [effect, hl, bind_some]
    refine escape_complete hts h fun hab' => ?_
    obtain ⟨us', r, hl', rfl⟩ := hab'.br_inv
    obtain rfl : us = us' := some.inj (hl.symm.trans hl')
    exact ⟨r, by simp⟩
  case brIf l =>
    obtain ⟨-, _, _, -, -, -, hab, -⟩ := id h
    obtain ⟨us, hl, -, -⟩ := hab.brIf_inv
    simp only [effect, hl, bind_some]
    refine apply_complete hts h fun hab' => ?_
    obtain ⟨us', hl', ha, hb⟩ := hab'.brIf_inv
    obtain rfl : us = us' := some.inj (hl.symm.trans hl')
    simp [ha, hb]
  case brTable js j =>
    obtain ⟨-, _, _, -, -, -, hab, -⟩ := id h
    obtain ⟨us, -, hl, -⟩ := hab.brTable_inv
    simp only [effect, tableLabel_eq_some.mpr hl, bind_some]
    refine escape_complete hts h fun hab' => ?_
    obtain ⟨us', r, hl', rfl⟩ := hab'.brTable_inv
    have hj : j ∈ js ++ [j] := by simp
    obtain rfl : us = us' := some.inj ((hl j hj).symm.trans (hl' j hj))
    exact ⟨r, by simp⟩
  case return_ =>
    refine escape_complete hts h fun hab => ?_
    obtain ⟨r, rfl⟩ := hab.return_inv
    exact ⟨r, by simp⟩
  case drop =>
    obtain ⟨a, a', b, r, rfl, hle, hab, rfl⟩ := h
    rw [Matching.eq_le, List.forall₂_eq_eq_eq] at hle
    subst hle
    cases hab
    obtain ⟨k, τ, hpop⟩ := popAny_isSome hts
    exact ⟨τ, by simp [effect, hpop], ((popAny_holds hpop).mp hts).2⟩
  case select =>
    obtain ⟨a, a', b, r, rfl, hle, hab, rfl⟩ := h
    rw [Matching.eq_le, List.forall₂_eq_eq_eq] at hle
    subst hle
    cases hab
    exact selectEffect_complete hts
  all_goals
    refine hmono fun hab => ?_
    cases hab
    simp [signature, *]

theorem checker_sound : (checker C strict).Sound (rules C) where
  cond := rfl
  blockType h := by
    cases h
    exact ⟨rfl, rfl⟩
  plain h ht := effect_sound h ht

theorem checker_complete : (checker C false).Complete (rules C) where
  cond := rfl
  blockType h := by
    obtain ⟨rfl, rfl⟩ := h
    rfl
  plain hts h := effect_complete hts h

end Uwvm2.Validation.Wasm1
