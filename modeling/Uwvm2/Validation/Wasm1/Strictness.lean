import Uwvm2.Validation.Wasm1.Checker

/-!
# What the strict checker rejects

The strict checker differs from the lax one only at a `br_table` in unreachable
code whose operand stands on the stack but has no determined type. Such an
operand comes from a `select` that took both of its operands from the
polymorphic base. `Ambiguous` describes these bodies by the typing rules alone.
-/

namespace Uwvm2.Validation.Wasm1

open StackTyping Option

/-- After `pre` there is an operand under an `i32`, and the rules leave its type open. -/
def Undetermined (C : Context) (ls : List (List ValueType)) (pre : List Instr) : Prop :=
  (∀ t, ∃ r, SeqTyped (rules C) ls pre [] (.i32 :: t :: r)) ∧
    ¬ SeqTyped (rules C) ls pre [] [.i32]

mutual

/-- Instruction `i`, standing after `pre`, is or contains a `br_table` that takes an
operand of undetermined type. -/
inductive AmbiguousAt (C : Context) : List (List ValueType) → List Instr → Instr → Prop
  | brTable : (∀ l ∈ js ++ [j], ls[l]? = some ts) → ts ≠ [] → Undetermined C ls pre →
      AmbiguousAt C ls pre (.plain (.brTable js j))
  | block : AmbiguousFrom C (b.toList :: ls) [] body → AmbiguousAt C ls pre (.block b body)
  | loop : AmbiguousFrom C ([] :: ls) [] body → AmbiguousAt C ls pre (.loop b body)
  | thn : AmbiguousFrom C (b.toList :: ls) [] thn → AmbiguousAt C ls pre (.ifElse b thn els)
  | els : AmbiguousFrom C (b.toList :: ls) [] els → AmbiguousAt C ls pre (.ifElse b thn els)

inductive AmbiguousFrom (C : Context) : List (List ValueType) → List Instr → List Instr → Prop
  | head : AmbiguousAt C ls pre i → AmbiguousFrom C ls pre (i :: is)
  | tail : AmbiguousFrom C ls (pre ++ [i]) is → AmbiguousFrom C ls pre (i :: is)

end

variable {C : Context} {ls : List (List ValueType)}

theorem holds_iff_typed (h : (checker C false).checkSeq ls pre (.ofTypes []) = some σ) :
    Holds (Matching.eq ValueType) σ ts ↔ SeqTyped (rules C) ls pre [] ts := by
  constructor
  · intro hts
    obtain ⟨ts₀, hnil, hseq⟩ := checker_sound.seq pre h hts
    obtain rfl : ts₀ = [] := by simpa using holds_ofTypes.mp hnil
    exact hseq
  · intro hseq
    have hstart : Holds (rules C).matching (.ofTypes []) [] := holds_ofTypes.mpr rfl
    obtain ⟨τ, hτ, hts⟩ := checker_complete.seq pre hstart hseq
    cases h.symm.trans hτ
    exact hts

theorem undetermined_iff (h : (checker C false).checkSeq ls pre (.ofTypes []) = some σ)
    (hne : ts ≠ []) (hpop : ∃ ρ, σ.popAll (.i32 :: ts) = some ρ) :
    Undetermined C ls pre ↔ unknownOperand ts σ := by
  simp only [Undetermined, ← holds_iff_typed h, unknownOperand, hne, ne_eq, not_false_eq_true,
    true_and]
  obtain ⟨ρ, hρ⟩ := hpop
  obtain ⟨hlen, hagree, -⟩ := OpStack.popAll_eq_some.mp hρ
  have htwo : σ.poly = true ∨ 2 ≤ σ.vals.length := hlen.imp_right fun h => by
    have := List.length_pos_iff.mpr hne
    simp only [List.length_cons] at h
    omega
  have hsel := (OpStack.agrees_cons.mp hagree).1
  unfold Holds
  generalize σ.vals = vals at hsel htwo
  generalize σ.poly = poly at htwo
  match vals, poly, htwo with
  | [], true, _ => simp [HoldsFrom]
  | [none], true, _ => simp [HoldsFrom]
  | [some t], true, _ =>
    obtain rfl : t = .i32 := by simpa [OpStack.agrees] using hsel
    simp [HoldsFrom]
  | a :: none :: vals, poly, _ =>
    obtain ⟨r, hr⟩ : ∃ r, HoldsFrom (Matching.eq ValueType) vals poly r := exists_holdsFrom _ _
    cases a with
    | none => simpa [HoldsFrom] using ⟨r, hr⟩
    | some t =>
      obtain rfl : t = .i32 := by simpa [OpStack.agrees] using hsel
      simpa [HoldsFrom] using ⟨r, hr⟩
  | a :: some t :: vals, poly, _ =>
    -- a determined type is not every type
    simp only [List.getElem?_cons_succ, List.getElem?_cons_zero, some.injEq, reduceCtorEq,
      iff_false, not_and, not_not]
    intro hall
    obtain ⟨r, hr⟩ := hall (if t = .i32 then .i64 else .i32)
    cases a <;> cases t <;> simp [HoldsFrom] at hr

theorem not_ambiguousAt_plain (h : ∀ js j, p ≠ .brTable js j) :
    ¬ AmbiguousAt C ls pre (.plain p) := by
  intro hp
  cases hp
  exact h _ _ rfl

open Classical in
/-- A `br_table` that the lax checker accepts is accepted by the strict one unless it
is ambiguous. -/
theorem effect_strict (hpre : (checker C false).checkSeq ls pre (.ofTypes []) = some σ)
    (h : effect C false ls p σ = some τ) :
    effect C true ls p σ = if AmbiguousAt C ls pre (.plain p) then none else some τ := by
  cases p
  case brTable js j =>
    obtain ⟨ts, hl, hesc⟩ := bind_eq_some_iff.mp h
    have hesc : σ.escape (.i32 :: ts) = some τ := by simpa using hesc
    have hlabels := tableLabel_eq_some.mp hl
    have hpop : ∃ ρ, σ.popAll (.i32 :: ts) = some ρ := by
      obtain ⟨ρ, hρ, -⟩ := map_eq_some_iff.mp hesc
      exact ⟨ρ, hρ⟩
    have hiff : AmbiguousAt C ls pre (.plain (.brTable js j)) ↔ unknownOperand ts σ := by
      constructor
      · rintro ⟨hlabels', hne, hund⟩
        obtain rfl := some.inj ((hlabels j (by simp)).symm.trans (hlabels' j (by simp)))
        exact (undetermined_iff hpre hne hpop).mp hund
      · intro hunk
        exact .brTable hlabels hunk.1 ((undetermined_iff hpre hunk.1 hpop).mpr hunk)
    simp only [effect, hl, bind_some, true_and, hiff, hesc]
  all_goals exact h.trans (if_neg (not_ambiguousAt_plain (by simp))).symm

theorem ambiguousAt_block :
    AmbiguousAt C ls pre (.block b body) ↔ AmbiguousFrom C (b.toList :: ls) [] body :=
  ⟨fun | .block h => h, .block⟩

theorem ambiguousAt_loop :
    AmbiguousAt C ls pre (.loop b body) ↔ AmbiguousFrom C ([] :: ls) [] body :=
  ⟨fun | .loop h => h, .loop⟩

theorem ambiguousAt_ifElse : AmbiguousAt C ls pre (.ifElse b thn els) ↔
      AmbiguousFrom C (b.toList :: ls) [] thn ∨ AmbiguousFrom C (b.toList :: ls) [] els :=
  ⟨fun | .thn h => .inl h | .els h => .inr h, fun h => h.elim .thn .els⟩

theorem ambiguousFrom_cons : AmbiguousFrom C ls pre (i :: is) ↔
      AmbiguousAt C ls pre i ∨ AmbiguousFrom C ls (pre ++ [i]) is :=
  ⟨fun | .head h => .inl h | .tail h => .inr h, fun h => h.elim .head .tail⟩

open Classical in
mutual

/-- On code that the lax checker accepts, the strict one gives the same result, or
none where the code is ambiguous. -/
theorem checkInstr_strict : ∀ (i : Instr) {ls : List (List ValueType)} {pre : List Instr}
    {σ τ : OpStack ValueType}, (checker C false).checkSeq ls pre (.ofTypes []) = some σ →
    (checker C false).checkInstr ls i σ = some τ →
    (checker C true).checkInstr ls i σ = if AmbiguousAt C ls pre i then none else some τ
  | .plain p, _, _, _, _, hpre, h => effect_strict hpre h
  | .block b body, _, _, _, _, _, h => by
    obtain ⟨_, _, ρ, τ', ⟨⟩, hpop, hbody, hex, rfl⟩ := Checker.checkInstr_block.mp h
    have hstrict := checkSeq_strict body Checker.checkSeq_nil hbody
    simp only [Checker.checkInstr, checker, bind_some, hpop, ambiguousAt_block] at hstrict ⊢
    rw [hstrict]
    split <;> simp [hex]
  | .loop b body, _, _, _, _, _, h => by
    obtain ⟨_, _, ρ, τ', ⟨⟩, hpop, hbody, hex, rfl⟩ := Checker.checkInstr_loop.mp h
    have hstrict := checkSeq_strict body Checker.checkSeq_nil hbody
    simp only [Checker.checkInstr, checker, bind_some, hpop, ambiguousAt_loop] at hstrict ⊢
    rw [hstrict]
    split <;> simp [hex]
  | .ifElse b thn els, ls, _, _, _, _, h => by
    obtain ⟨_, _, ρ, τ₁, τ₂, ⟨⟩, hpop, hthn, hels, hex₁, hex₂, rfl⟩ :=
      Checker.checkInstr_ifElse.mp h
    have hstrict₁ := checkSeq_strict thn Checker.checkSeq_nil hthn
    have hstrict₂ := checkSeq_strict els Checker.checkSeq_nil hels
    simp only [Checker.checkInstr, checker, bind_some, ambiguousAt_ifElse]
      at hpop hstrict₁ hstrict₂ ⊢
    rw [hpop, hstrict₁, hstrict₂]
    by_cases hamb₁ : AmbiguousFrom C (b.toList :: ls) [] thn
    · simp [hamb₁]
    · by_cases hamb₂ : AmbiguousFrom C (b.toList :: ls) [] els <;> simp [hamb₁, hamb₂, hex₁, hex₂]

theorem checkSeq_strict : ∀ (is : List Instr) {ls : List (List ValueType)} {pre : List Instr}
    {σ τ : OpStack ValueType}, (checker C false).checkSeq ls pre (.ofTypes []) = some σ →
    (checker C false).checkSeq ls is σ = some τ →
    (checker C true).checkSeq ls is σ = if AmbiguousFrom C ls pre is then none else some τ
  | [], _, _, _, _, _, h => h.trans (if_neg nofun).symm
  | i :: is, ls, pre, σ, τ, hpre, h => by
    obtain ⟨ρ, hi, hrest⟩ := Checker.checkSeq_cons.mp h
    have hpre' : (checker C false).checkSeq ls (pre ++ [i]) (.ofTypes []) = some ρ := by
      simp [Checker.checkSeq_append, hpre, Checker.checkSeq, hi]
    rw [Checker.checkSeq, checkInstr_strict i hpre hi]
    by_cases hat : AmbiguousAt C ls pre i
    · simp [ambiguousFrom_cons, hat]
    · simpa [ambiguousFrom_cons, hat] using checkSeq_strict is hpre' hrest

end

theorem strict_body (h : BodyTyped (rules C) outs body) :
    (∃ τ, (checker C true).checkSeq [outs] body (.ofTypes []) = some τ ∧ τ.exits outs = true) ↔
      ¬ AmbiguousFrom C [outs] [] body := by
  obtain ⟨τ, hτ, hex⟩ := checker_complete.body h
  rw [checkSeq_strict body Checker.checkSeq_nil hτ]
  split
  case isTrue hyes => simp [hyes]
  case isFalse hno => simp [hno, hex]

end Uwvm2.Validation.Wasm1
