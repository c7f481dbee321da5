import Uwvm2.Lib.StructuredCode

/-!
# Declarative typing of structured code

The typing rules of structured stack code, for any plain instructions and any
notion of operand type. A checker that is sound (complete) on plain
instructions and block types is sound (complete) on whole bodies.

Stack types are lists with the top of the stack first.
-/

namespace StackTyping

open List OpStack

variable {V O P B : Type}

/-- The part of a type system that structured code is generic in. `blockType b
ins outs` says that `b` stands for `[ins] → [outs]`; `plain ls p a b` that `p`
has type `[a] → [b]` under labels `ls`, innermost first. -/
structure Rules (V O P B : Type) where
  matching : Matching V O
  cond : V
  blockType : B → List V → List V → Prop
  plain : List (List V) → P → List O → List O → Prop

def Rules.types (R : Rules V O P B) (vs : List V) : List O := vs.map R.matching.emb

mutual

inductive InstrTyped (R : Rules V O P B) : List (List V) → Instr P B → List O → List O → Prop
  | plain : R.plain ls p a b → InstrTyped R ls (.plain p) a b
  | block : R.blockType b ins outs →
      SeqTyped R (outs :: ls) body (R.types ins) (R.types outs) →
      InstrTyped R ls (.block b body) (R.types ins) (R.types outs)
  | loop : R.blockType b ins outs →
      SeqTyped R (ins :: ls) body (R.types ins) (R.types outs) →
      InstrTyped R ls (.loop b body) (R.types ins) (R.types outs)
  | ifElse : R.blockType b ins outs →
      SeqTyped R (outs :: ls) thn (R.types ins) (R.types outs) →
      SeqTyped R (outs :: ls) els (R.types ins) (R.types outs) →
      InstrTyped R ls (.ifElse b thn els) (R.types (R.cond :: ins)) (R.types outs)

/-- Sequences grow at the end. An instruction sees the operands it needs on top
and leaves the rest `r` alone; operands may be of matching type. -/
inductive SeqTyped (R : Rules V O P B) : List (List V) → List (Instr P B) → List O → List O → Prop
  | nil : SeqTyped R ls [] ts ts
  | snoc : SeqTyped R ls is ts (a ++ r) → Forall₂ R.matching.le a a' →
      InstrTyped R ls i a' b → SeqTyped R ls (is ++ [i]) ts (b ++ r)

end

/-- A function body: no operands at its start, results at its end, which are also
what its outermost label takes. -/
def BodyTyped (R : Rules V O P B) (outs : List V) (is : List (Instr P B)) : Prop :=
  ∃ ts, SeqTyped R [outs] is [] ts ∧ Forall₂ R.matching.le ts (R.types outs)

/-- One instruction in the context of a larger stack. -/
def Framed (M : Matching V O) (Q : List O → List O → Prop) (ts ts' : List O) : Prop :=
  ∃ a a' b r, ts = a ++ r ∧ Forall₂ M.le a a' ∧ Q a' b ∧ ts' = b ++ r

theorem Framed.of {Q : List O → List O → Prop} (h : Q a b) : Framed M Q (a ++ r) (b ++ r) :=
  ⟨a, a, b, r, rfl, forall₂_refl a, h, rfl⟩

theorem Framed.mono {Q Q' : List O → List O → Prop} (hq : ∀ a b, Q a b → Q' a b) :
    Framed M Q ts ts' → Framed M Q' ts ts' := by
  rintro ⟨a, a', b, r, hts, hle, h, hts'⟩
  exact ⟨a, a', b, r, hts, hle, hq _ _ h, hts'⟩

variable {R : Rules V O P B} {ls : List (List V)}

theorem SeqTyped.snoc_iff : SeqTyped R ls (is ++ [i]) ts ts' ↔
      ∃ tm, SeqTyped R ls is ts tm ∧ Framed R.matching (InstrTyped R ls i) tm ts' := by
  constructor
  · intro h
    generalize hj : is ++ [i] = js at h
    cases h with
    | nil => simp at hj
    | @snoc _ js _ a r a' j b hseq hle hi =>
      obtain ⟨rfl, hij⟩ := append_inj' hj rfl
      cases hij
      exact ⟨_, hseq, a, a', b, r, rfl, hle, hi, rfl⟩
  · rintro ⟨_, hseq, a, a', b, r, rfl, hle, hi, rfl⟩
    exact .snoc hseq hle hi

theorem SeqTyped.nil_iff : SeqTyped R ls ([] : List (Instr P B)) ts ts' ↔ ts = ts' := by
  constructor
  · intro h
    generalize hj : ([] : List (Instr P B)) = js at h
    cases h with
    | nil => rfl
    | snoc => simp at hj
  · rintro rfl
    exact .nil

theorem SeqTyped.append_iff :
    SeqTyped R ls (is ++ js) ts ts' ↔ ∃ tm, SeqTyped R ls is ts tm ∧ SeqTyped R ls js tm ts' := by
  induction js using reverseRecOn generalizing ts' with
  | nil => simp [SeqTyped.nil_iff]
  | append_singleton js j ih =>
    rw [← append_assoc, SeqTyped.snoc_iff]
    simp only [ih, SeqTyped.snoc_iff]
    constructor
    · rintro ⟨tm, ⟨t, h₁, h₂⟩, hj⟩
      exact ⟨t, h₁, tm, h₂, hj⟩
    · rintro ⟨t, h₁, tm, h₂, hj⟩
      exact ⟨tm, ⟨t, h₁, h₂⟩, hj⟩

theorem SeqTyped.cons_iff : SeqTyped R ls (i :: is) ts ts' ↔
      ∃ tm, Framed R.matching (InstrTyped R ls i) ts tm ∧ SeqTyped R ls is tm ts' := by
  have hone : ∀ tm, SeqTyped R ls [i] ts tm ↔ Framed R.matching (InstrTyped R ls i) ts tm := by
    intro tm
    rw [← nil_append [i], SeqTyped.snoc_iff]
    simp [SeqTyped.nil_iff]
  rw [← singleton_append, SeqTyped.append_iff]
  simp only [hone]

-- Checkers and typing

theorem forall₂_append_right {M : Matching V O} (h : Forall₂ M.le a (b ++ c)) :
    ∃ a₁ a₂, a = a₁ ++ a₂ ∧ Forall₂ M.le a₁ b ∧ Forall₂ M.le a₂ c :=
  ⟨a.take b.length, a.drop b.length, (take_append_drop _ _).symm,
    forall₂_take_append _ _ _ h, forall₂_drop_append _ _ _ h⟩

variable [DecidableEq V]

/-- An instruction of type `[ins] → [outs]`, as a checker handles it. -/
def OpStack.apply (ins outs : List V) (σ : OpStack V) : Option (OpStack V) :=
  (σ.popAll ins).map fun ρ => ρ.pushAll outs

theorem OpStack.apply_one {σ : OpStack V} :
    σ.apply [v] outs = (σ.popExpect v).bind fun ρ => some (ρ.pushAll outs) := by
  cases h : σ.popExpect v <;> simp [apply, popAll, h]

theorem OpStack.apply_eq_some {σ : OpStack V} : σ.apply ins outs = some τ ↔
      (σ.poly = true ∨ ins.length ≤ σ.vals.length) ∧ agrees ins σ.vals = true ∧
        τ = (σ.drop ins.length).pushAll outs := by
  simp only [apply, Option.map_eq_some_iff, popAll_eq_some]
  constructor
  · rintro ⟨_, ⟨hlen, hagree, rfl⟩, rfl⟩
    exact ⟨hlen, hagree, rfl⟩
  · rintro ⟨hlen, hagree, rfl⟩
    exact ⟨_, ⟨hlen, hagree, rfl⟩, rfl⟩

/-- An instruction that consumes `ins` and does not fall through. -/
def OpStack.escape (ins : List V) (σ : OpStack V) : Option (OpStack V) :=
  (σ.popAll ins).map fun _ => .unreachable

section Plain

variable {M : Matching V O} {Q : List O → List O → Prop} {σ τ : OpStack V} {ins outs : List V}
  {ts ts' : List O}

theorem apply_sound (h : σ.apply ins outs = some τ) (hts : Holds M τ ts')
    (hq : Q (ins.map M.emb) (outs.map M.emb)) : ∃ ts, Holds M σ ts ∧ Framed M Q ts ts' := by
  simp only [apply, Option.map_eq_some_iff] at h
  obtain ⟨ρ, hpop, rfl⟩ := h
  obtain ⟨r, rfl, hr⟩ := holds_pushAll.mp hts
  exact ⟨_, popAll_sound hpop hr, .of hq⟩

theorem apply_complete (hts : Holds M σ ts) (h : Framed M Q ts ts')
    (hq : ∀ {a b}, Q a b → a = ins.map M.emb ∧ b = outs.map M.emb) :
    ∃ τ, σ.apply ins outs = some τ ∧ Holds M τ ts' := by
  obtain ⟨a, a', b, r, rfl, hle, hab, rfl⟩ := h
  obtain ⟨rfl, rfl⟩ := hq hab
  obtain ⟨ρ, hpop, hr⟩ := popAll_complete hle hts
  exact ⟨_, by simp [apply, hpop], holds_pushAll.mpr ⟨r, rfl, hr⟩⟩

theorem escape_sound [Nonempty O] (h : σ.escape ins = some τ)
    (hq : ∀ a b, Q (ins.map M.emb ++ a) b) : ∃ ts, Holds M σ ts ∧ Framed M Q ts ts' := by
  simp only [escape, Option.map_eq_some_iff] at h
  obtain ⟨ρ, hpop, -⟩ := h
  obtain ⟨r, hr⟩ := exists_holds (M := M) ρ
  have hframed : Framed M Q (ins.map M.emb ++ r ++ []) (ts' ++ []) := .of (hq r ts')
  exact ⟨_, popAll_sound hpop hr, by simpa using hframed⟩

theorem escape_complete (hts : Holds M σ ts) (h : Framed M Q ts ts')
    (hq : ∀ {a b}, Q a b → ∃ r, a = ins.map M.emb ++ r) :
    ∃ τ, σ.escape ins = some τ ∧ Holds M τ ts' := by
  obtain ⟨a, a', b, r, rfl, hle, hab, rfl⟩ := h
  obtain ⟨r', rfl⟩ := hq hab
  obtain ⟨a₁, a₂, rfl, hle₁, -⟩ := forall₂_append_right hle
  rw [append_assoc] at hts
  obtain ⟨ρ, hpop, -⟩ := popAll_complete hle₁ hts
  exact ⟨_, by simp [escape, hpop], holds_unreachable⟩

end Plain

/-- On plain instructions and block types the checker accepts only what the rules
type: every stack type that can result comes from one that was possible before. -/
structure Checker.Sound (K : Checker V P B) (R : Rules V O P B) : Prop where
  cond : K.cond = R.cond
  blockType : ∀ {b ins outs}, K.blockType b = some (ins, outs) → R.blockType b ins outs
  plain : ∀ {ls p σ τ ts'}, K.plain ls p σ = some τ → Holds R.matching τ ts' →
    ∃ ts, Holds R.matching σ ts ∧ Framed R.matching (R.plain ls p) ts ts'

/-- The converse: what the rules allow from a possible stack type is accepted, and
the result is again possible. -/
structure Checker.Complete (K : Checker V P B) (R : Rules V O P B) : Prop where
  cond : K.cond = R.cond
  blockType : ∀ {b ins outs}, R.blockType b ins outs → K.blockType b = some (ins, outs)
  plain : ∀ {ls p σ ts ts'}, Holds R.matching σ ts → Framed R.matching (R.plain ls p) ts ts' →
    ∃ τ, K.plain ls p σ = some τ ∧ Holds R.matching τ ts'

variable {K : Checker V P B}

private theorem seqTyped_of_exits {body : List (Instr P B)} {ins outs : List V} {τ : OpStack V}
    (hseq : ∀ {ts'}, Holds R.matching τ ts' →
      ∃ ts, Holds R.matching (.ofTypes ins) ts ∧ SeqTyped R ls body ts ts')
    (hex : τ.exits outs = true) : SeqTyped R ls body (R.types ins) (R.types outs) := by
  obtain ⟨ts, hts, h⟩ := hseq (exits_iff.mp hex)
  rw [holds_ofTypes] at hts
  subst hts
  exact h

mutual

theorem Checker.Sound.instr (hK : K.Sound R) :
    ∀ (i : Instr P B) {ls : List (List V)} {σ τ : OpStack V} {ts' : List O},
      K.checkInstr ls i σ = some τ → Holds R.matching τ ts' →
      ∃ ts, Holds R.matching σ ts ∧ Framed R.matching (InstrTyped R ls i) ts ts'
  | .plain p, ls, σ, τ, ts', h, ht => by
    obtain ⟨ts, hts, hp⟩ := hK.plain (by simpa [checkInstr] using h) ht
    exact ⟨ts, hts, hp.mono fun _ _ => .plain⟩
  | .block b body, ls, σ, τ, ts', h, ht => by
    obtain ⟨ins, outs, ρ, τ', hb, hpop, hbody, hex, rfl⟩ := checkInstr_block.mp h
    obtain ⟨r, rfl, hr⟩ := holds_pushAll.mp ht
    exact ⟨_, popAll_sound hpop hr, .of (.block (hK.blockType hb)
      (seqTyped_of_exits (hK.seq body hbody) hex))⟩
  | .loop b body, ls, σ, τ, ts', h, ht => by
    obtain ⟨ins, outs, ρ, τ', hb, hpop, hbody, hex, rfl⟩ := checkInstr_loop.mp h
    obtain ⟨r, rfl, hr⟩ := holds_pushAll.mp ht
    exact ⟨_, popAll_sound hpop hr, .of (.loop (hK.blockType hb)
      (seqTyped_of_exits (hK.seq body hbody) hex))⟩
  | .ifElse b thn els, ls, σ, τ, ts', h, ht => by
    obtain ⟨ins, outs, ρ, τ₁, τ₂, hb, hpop, hthn, hels, hex₁, hex₂, rfl⟩ := checkInstr_ifElse.mp h
    obtain ⟨r, rfl, hr⟩ := holds_pushAll.mp ht
    rw [hK.cond] at hpop
    exact ⟨_, popAll_sound hpop hr, .of (.ifElse (hK.blockType hb)
      (seqTyped_of_exits (hK.seq thn hthn) hex₁) (seqTyped_of_exits (hK.seq els hels) hex₂))⟩

theorem Checker.Sound.seq (hK : K.Sound R) :
    ∀ (is : List (Instr P B)) {ls : List (List V)} {σ τ : OpStack V}
      (_ : K.checkSeq ls is σ = some τ) {ts' : List O} (_ : Holds R.matching τ ts'),
      ∃ ts, Holds R.matching σ ts ∧ SeqTyped R ls is ts ts'
  | [], ls, σ, τ, h, ts', ht => by
    cases h
    exact ⟨ts', ht, .nil⟩
  | i :: is, ls, σ, τ, h, ts', ht => by
    obtain ⟨ρ, hi, hrest⟩ := checkSeq_cons.mp h
    obtain ⟨tm, htm, hseq⟩ := hK.seq is hrest ht
    obtain ⟨ts, hts, hframed⟩ := hK.instr i hi htm
    exact ⟨ts, hts, SeqTyped.cons_iff.mpr ⟨tm, hframed, hseq⟩⟩

end

private theorem block_complete {σ : OpStack V} {ins outs : List V} {a r : List O}
    (hle : Forall₂ R.matching.le a (R.types ins)) (hts : Holds R.matching σ (a ++ r)) :
    ∃ ρ, σ.popAll ins = some ρ ∧ Holds R.matching (ρ.pushAll outs) (R.types outs ++ r) := by
  obtain ⟨ρ, hpop, hr⟩ := popAll_complete hle hts
  exact ⟨ρ, hpop, holds_pushAll.mpr ⟨r, rfl, hr⟩⟩

mutual

theorem Checker.Complete.instr (hK : K.Complete R) :
    ∀ (i : Instr P B) {ls : List (List V)} {σ : OpStack V} {ts ts' : List O},
      Holds R.matching σ ts → Framed R.matching (InstrTyped R ls i) ts ts' →
      ∃ τ, K.checkInstr ls i σ = some τ ∧ Holds R.matching τ ts'
  | .plain p, ls, σ, ts, ts', hts, h => by
    have hp : Framed R.matching (R.plain ls p) ts ts' := h.mono fun _ _ hi => by
      cases hi with
      | plain hp => exact hp
    simpa [checkInstr] using hK.plain hts hp
  | .block b body, ls, σ, ts, ts', hts, ⟨a, a', c, r, hin, hle, hi, hout⟩ => by
    subst hin hout
    cases hi with
    | @block _ ins outs _ _ hb hbody =>
      obtain ⟨ρ, hpop, hr⟩ := block_complete hle hts
      obtain ⟨τ, hτ, hex⟩ := hK.seq body (holds_ofTypes.mpr rfl) hbody
      exact ⟨_, checkInstr_block.mpr
        ⟨ins, outs, ρ, τ, hK.blockType hb, hpop, hτ, exits_iff.mpr hex, rfl⟩, hr⟩
  | .loop b body, ls, σ, ts, ts', hts, ⟨a, a', c, r, hin, hle, hi, hout⟩ => by
    subst hin hout
    cases hi with
    | @loop _ ins outs _ _ hb hbody =>
      obtain ⟨ρ, hpop, hr⟩ := block_complete hle hts
      obtain ⟨τ, hτ, hex⟩ := hK.seq body (holds_ofTypes.mpr rfl) hbody
      exact ⟨_, checkInstr_loop.mpr
        ⟨ins, outs, ρ, τ, hK.blockType hb, hpop, hτ, exits_iff.mpr hex, rfl⟩, hr⟩
  | .ifElse b thn els, ls, σ, ts, ts', hts, ⟨a, a', c, r, hin, hle, hi, hout⟩ => by
    subst hin hout
    cases hi with
    | @ifElse _ ins outs _ _ _ hb hthn hels =>
      obtain ⟨ρ, hpop, hr⟩ := block_complete hle hts
      obtain ⟨τ₁, hτ₁, hex₁⟩ := hK.seq thn (holds_ofTypes.mpr rfl) hthn
      obtain ⟨τ₂, hτ₂, hex₂⟩ := hK.seq els (holds_ofTypes.mpr rfl) hels
      rw [← hK.cond] at hpop
      exact ⟨_, checkInstr_ifElse.mpr ⟨ins, outs, ρ, τ₁, τ₂, hK.blockType hb, hpop, hτ₁, hτ₂,
        exits_iff.mpr hex₁, exits_iff.mpr hex₂, rfl⟩, hr⟩

theorem Checker.Complete.seq (hK : K.Complete R) :
    ∀ (is : List (Instr P B)) {ls : List (List V)} {σ : OpStack V} {ts ts' : List O},
      Holds R.matching σ ts → SeqTyped R ls is ts ts' →
      ∃ τ, K.checkSeq ls is σ = some τ ∧ Holds R.matching τ ts'
  | [], ls, σ, ts, ts', hts, h => by
    rw [SeqTyped.nil_iff] at h
    subst h
    exact ⟨σ, rfl, hts⟩
  | i :: is, ls, σ, ts, ts', hts, h => by
    obtain ⟨tm, hframed, hseq⟩ := SeqTyped.cons_iff.mp h
    obtain ⟨ρ, hi, htm⟩ := hK.instr i hts hframed
    obtain ⟨τ, hrest, hτ⟩ := hK.seq is htm hseq
    exact ⟨τ, checkSeq_cons.mpr ⟨ρ, hi, hrest⟩, hτ⟩

end

theorem Checker.Sound.body (hK : K.Sound R) (h : K.checkSeq [outs] is (.ofTypes []) = some τ)
    (hex : τ.exits outs = true) : BodyTyped R outs is :=
  ⟨R.types outs, seqTyped_of_exits (hK.seq is h) hex, forall₂_refl _⟩

theorem Checker.Complete.body (hK : K.Complete R) (h : BodyTyped R outs is) :
    ∃ τ, K.checkSeq [outs] is (.ofTypes []) = some τ ∧ τ.exits outs = true := by
  obtain ⟨ts, hseq, hle⟩ := h
  have hstart : Holds R.matching (.ofTypes []) [] := holds_ofTypes.mpr rfl
  obtain ⟨τ, hτ, hts⟩ := hK.seq is hstart hseq
  exact ⟨τ, hτ, exits_of_le hle hts⟩

end StackTyping
