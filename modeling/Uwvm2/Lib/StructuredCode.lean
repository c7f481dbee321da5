import Uwvm2.Lib.OperandStack

/-!
# Structured code and its flat form

Blocks, loops and conditionals nest, but a validator meets them as a flat
sequence of tokens and keeps a stack of open frames instead. This module has
both views: a checker that recurses over the nested form, and a token machine
with frames. The machine accepts only flat forms (`Accepts.flat`), and a flat
form exactly when the checker accepts the nested code (`accepts_flat`).
-/

namespace StackTyping

open Option OpStack

variable {V P B : Type}

/-- Nested code over plain instructions `P` and block types `B`. A conditional
without alternative is one whose alternative is empty. -/
inductive Instr (P B : Type)
  | plain (p : P)
  | block (b : B) (body : List (Instr P B))
  | loop (b : B) (body : List (Instr P B))
  | ifElse (b : B) (thn els : List (Instr P B))

inductive Kind
  | block
  | loop
  | ifThen
  deriving DecidableEq, Repr

inductive Token (P B : Type)
  | plain (p : P)
  | enter (k : Kind) (b : B)
  | els
  | fin
  deriving DecidableEq, Repr

/-- The token sequences of nested code. An empty alternative may be written out
or left away. -/
inductive Flat : List (Instr P B) → List (Token P B) → Prop
  | nil : Flat [] []
  | plain : Flat is ts → Flat (.plain p :: is) (.plain p :: ts)
  | block : Flat body bs → Flat is ts →
      Flat (.block b body :: is) (.enter .block b :: (bs ++ .fin :: ts))
  | loop : Flat body bs → Flat is ts →
      Flat (.loop b body :: is) (.enter .loop b :: (bs ++ .fin :: ts))
  | ifThen : Flat thn bs → Flat is ts →
      Flat (.ifElse b thn [] :: is) (.enter .ifThen b :: (bs ++ .fin :: ts))
  | ifElse : Flat thn bs → Flat els cs → Flat is ts →
      Flat (.ifElse b thn els :: is) (.enter .ifThen b :: (bs ++ .els :: (cs ++ .fin :: ts)))

/-- What a validator supplies: the type of conditions, what a block type stands
for (operands consumed and produced, top first) and what a plain instruction
does to the operands under the given label types (innermost first). -/
structure Checker (V P B : Type) where
  cond : V
  blockType : B → Option (List V × List V)
  plain : List (List V) → P → OpStack V → Option (OpStack V)

inductive FrameKind
  | func
  | block
  | loop
  | ifThen
  | ifElse
  deriving DecidableEq, Repr

def Kind.toFrame : Kind → FrameKind
  | .block => .block
  | .loop => .loop
  | .ifThen => .ifThen

/-- An open block, with the operands of the enclosing one that it cannot see. -/
structure Frame (V : Type) where
  kind : FrameKind
  ins : List V
  outs : List V
  saved : OpStack V

def Frame.label (f : Frame V) : List V := if f.kind = .loop then f.ins else f.outs

structure Machine (V : Type) where
  frames : List (Frame V)
  cur : OpStack V

/-- The machine at the start of a body with results `outs`. -/
def Machine.start (outs : List V) : Machine V := ⟨[⟨.func, [], outs, .ofTypes []⟩], .ofTypes []⟩

def Machine.labels (m : Machine V) : List (List V) := m.frames.map Frame.label

-- The recursive checker

namespace Checker

variable [DecidableEq V] (K : Checker V P B)

mutual

def checkInstr : List (List V) → Instr P B → OpStack V → Option (OpStack V)
  | ls, .plain p, σ => K.plain ls p σ
  | ls, .block b body, σ =>
    (K.blockType b).bind fun (ins, outs) =>
    (σ.popAll ins).bind fun ρ =>
    (checkSeq (outs :: ls) body (.ofTypes ins)).bind fun τ =>
    if τ.exits outs then some (ρ.pushAll outs) else none
  | ls, .loop b body, σ =>
    (K.blockType b).bind fun (ins, outs) =>
    (σ.popAll ins).bind fun ρ =>
    (checkSeq (ins :: ls) body (.ofTypes ins)).bind fun τ =>
    if τ.exits outs then some (ρ.pushAll outs) else none
  | ls, .ifElse b thn els, σ =>
    (K.blockType b).bind fun (ins, outs) =>
    (σ.popAll (K.cond :: ins)).bind fun ρ =>
    (checkSeq (outs :: ls) thn (.ofTypes ins)).bind fun τ =>
    (checkSeq (outs :: ls) els (.ofTypes ins)).bind fun τ' =>
    if τ.exits outs && τ'.exits outs then some (ρ.pushAll outs) else none

def checkSeq : List (List V) → List (Instr P B) → OpStack V → Option (OpStack V)
  | _, [], σ => some σ
  | ls, i :: is, σ => (checkInstr ls i σ).bind fun τ => checkSeq ls is τ

end

theorem checkSeq_append :
    K.checkSeq ls (is ++ js) σ = (K.checkSeq ls is σ).bind fun τ => K.checkSeq ls js τ := by
  induction is generalizing σ with
  | nil => simp [checkSeq]
  | cons i is ih => simp [checkSeq, bind_assoc, ih]

-- The token machine

def step (m : Machine V) : Token P B → Option (Machine V)
  | .plain p =>
    match m.frames with
    | [] => none
    | _ :: _ => (K.plain m.labels p m.cur).map fun τ => { m with cur := τ }
  | .enter k b =>
    match m.frames with
    | [] => none
    | _ :: _ =>
      (K.blockType b).bind fun (ins, outs) =>
      (if k = .ifThen then m.cur.popExpect K.cond else some m.cur).bind fun σ =>
      (σ.popAll ins).map fun ρ =>
        { frames := ⟨Kind.toFrame k, ins, outs, ρ⟩ :: m.frames, cur := .ofTypes ins }
  | .els =>
    match m.frames with
    | [] => none
    | f :: fs =>
      if f.kind = .ifThen ∧ m.cur.exits f.outs = true then
        some { frames := { f with kind := .ifElse } :: fs, cur := .ofTypes f.ins }
      else none
  | .fin =>
    match m.frames with
    | [] => none
    | f :: fs =>
      -- a missing alternative passes its operands through unchanged
      if m.cur.exits f.outs = true ∧ (f.kind = .ifThen → f.ins = f.outs) then
        some { frames := fs, cur := f.saved.pushAll f.outs }
      else none

def run : List (Token P B) → Machine V → Option (Machine V)
  | [], m => some m
  | t :: ts, m => (K.step m t).bind fun m' => run ts m'

theorem run_append : K.run (ts ++ us) m = (K.run ts m).bind fun m' => K.run us m' := by
  induction ts generalizing m with
  | nil => rfl
  | cons t ts ih => simp [run, bind_assoc, ih]

/-- All tokens are consumed exactly when the outermost frame closes. -/
def Accepts (outs : List V) (ts : List (Token P B)) : Prop :=
  ∃ m, K.run ts (.start outs) = some m ∧ m.frames = []

-- The machine and the checker agree

variable {K} {ls : List (List V)} {σ τ : OpStack V}

theorem checkInstr_block : K.checkInstr ls (.block b body) σ = some τ ↔
      ∃ ins outs ρ τ', K.blockType b = some (ins, outs) ∧ σ.popAll ins = some ρ ∧
        K.checkSeq (outs :: ls) body (.ofTypes ins) = some τ' ∧ τ'.exits outs = true ∧
        τ = ρ.pushAll outs := by
  simp [checkInstr, bind_eq_some_iff, eq_comm (a := τ)]

theorem checkInstr_loop : K.checkInstr ls (.loop b body) σ = some τ ↔
      ∃ ins outs ρ τ', K.blockType b = some (ins, outs) ∧ σ.popAll ins = some ρ ∧
        K.checkSeq (ins :: ls) body (.ofTypes ins) = some τ' ∧ τ'.exits outs = true ∧
        τ = ρ.pushAll outs := by
  simp [checkInstr, bind_eq_some_iff, eq_comm (a := τ)]

theorem checkInstr_ifElse : K.checkInstr ls (.ifElse b thn els) σ = some τ ↔
      ∃ ins outs ρ τ₁ τ₂, K.blockType b = some (ins, outs) ∧
        σ.popAll (K.cond :: ins) = some ρ ∧
        K.checkSeq (outs :: ls) thn (.ofTypes ins) = some τ₁ ∧
        K.checkSeq (outs :: ls) els (.ofTypes ins) = some τ₂ ∧
        τ₁.exits outs = true ∧ τ₂.exits outs = true ∧ τ = ρ.pushAll outs := by
  simp [checkInstr, bind_eq_some_iff, eq_comm (a := τ), and_assoc]

theorem checkSeq_nil : K.checkSeq ls [] σ = some σ := rfl

theorem checkSeq_cons : K.checkSeq ls (i :: is) σ = some τ ↔
      ∃ ρ, K.checkInstr ls i σ = some ρ ∧ K.checkSeq ls is ρ = some τ := by
  simp [checkSeq, bind_eq_some_iff]

theorem exits_ofTypes {outs : List V} : (ofTypes ins).exits outs = true ↔ ins = outs := by
  rw [exits_iff (M := Matching.eq V), holds_ofTypes]
  simp [Matching.eq, eq_comm]

variable {f : Frame V} {fs : List (Frame V)}

theorem step_enter : K.step ⟨f :: fs, σ⟩ (.enter k b) = some m ↔
      ∃ ins outs ρ, K.blockType b = some (ins, outs) ∧
        σ.popAll ((if k = .ifThen then [K.cond] else []) ++ ins) = some ρ ∧
        m = ⟨⟨Kind.toFrame k, ins, outs, ρ⟩ :: f :: fs, .ofTypes ins⟩ := by
  by_cases hk : k = .ifThen
  · subst hk
    simp only [step, bind_eq_some_iff, map_eq_some_iff, if_true, List.cons_append,
      List.nil_append, popAll, Prod.exists]
    constructor
    · rintro ⟨ins, outs, hb, ρ', hc, ρ, hp, rfl⟩
      exact ⟨ins, outs, ρ, hb, ⟨ρ', hc, hp⟩, rfl⟩
    · rintro ⟨ins, outs, ρ, hb, ⟨ρ', hc, hp⟩, rfl⟩
      exact ⟨ins, outs, hb, ρ', hc, ρ, hp, rfl⟩
  · simp [step, hk, bind_eq_some_iff, eq_comm (b := m)]

theorem step_fin : K.step ⟨f :: fs, σ⟩ .fin = some m ↔
      σ.exits f.outs = true ∧ (f.kind = .ifThen → f.ins = f.outs) ∧
        m = ⟨fs, f.saved.pushAll f.outs⟩ := by
  simp [step, and_assoc, eq_comm (b := m)]

theorem step_els : K.step ⟨f :: fs, σ⟩ .els = some m ↔ f.kind = .ifThen ∧ σ.exits f.outs = true ∧
        m = ⟨{ f with kind := .ifElse } :: fs, .ofTypes f.ins⟩ := by
  simp [step, and_assoc, eq_comm (b := m)]

theorem step_plain : K.step ⟨f :: fs, σ⟩ (.plain p) = some m ↔
      ∃ τ, K.plain ((f :: fs).map Frame.label) p σ = some τ ∧ m = ⟨f :: fs, τ⟩ := by
  simp [step, Machine.labels, eq_comm (b := m)]

theorem run_cons :
    K.run (t :: ts) m = some m' ↔ ∃ m₁, K.step m t = some m₁ ∧ K.run ts m₁ = some m' := by
  simp [run, bind_eq_some_iff]

theorem run_append_cons : K.run (ts ++ t :: us) m = some m' ↔
      ∃ m₁ m₂, K.run ts m = some m₁ ∧ K.step m₁ t = some m₂ ∧ K.run us m₂ = some m' := by
  simp [run_append, run, bind_eq_some_iff]

section Tests

variable {α β : Type} {c : Prop} [Decidable c] {x : Option α} {g : α → Option β}

theorem ite_bind : (if c then x else none).bind g = if c then x.bind g else none := by
  split <;> rfl

theorem bind_ite : (x.bind fun a => if c then g a else none) = if c then x.bind g else none := by
  split
  · rfl
  · exact bind_fun_none x

theorem ite_map {g : α → β} : (if c then x else none).map g = if c then x.map g else none := by
  split <;> rfl

end Tests

/-- Running the tokens of nested code leaves the frames alone, changes the operands
as the checker says, and succeeds only where the checker does. -/
theorem run_flat (hf : Flat is ts) : K.run ts ⟨f :: fs, σ⟩ =
      (K.checkSeq ((f :: fs).map Frame.label) is σ).map fun τ => ⟨f :: fs, τ⟩ := by
  -- both sides are the same sequence of tests, the machine's with its frames around it
  induction hf generalizing f fs σ with
  | nil => rfl
  | plain _ ih =>
    simp only [run, step, Machine.labels, checkSeq, checkInstr, bind_map, Function.comp_def,
      ih, map_bind]
  | block _ _ ihbody ih | loop _ _ ihbody ih | ifThen _ _ ihbody ih =>
    simp [run, run_append, step, checkSeq, checkInstr, ihbody, ih, bind_map, map_bind,
      bind_assoc, ite_bind, ite_map, Frame.label, Kind.toFrame, popAll, exits_ofTypes]
  | ifElse _ _ _ ihthn ihels ih =>
    simp [run, run_append, step, checkSeq, checkInstr, ihthn, ihels, ih, bind_map,
      map_bind, bind_assoc, ite_bind, bind_ite, ite_map, Frame.label, Kind.toFrame,
      popAll, ite_and]

/-- A run that closes all frames first consumes the tokens of some checked code
and then a token that ends the current branch. -/
theorem run_split (h : K.run ts ⟨f :: fs, σ⟩ = some m) (hm : m.frames = []) :
    ∃ is bs t us τ m', ts = bs ++ t :: us ∧ (t = .fin ∨ t = .els) ∧ Flat is bs ∧
      K.checkSeq ((f :: fs).map Frame.label) is σ = some τ ∧
      K.step ⟨f :: fs, τ⟩ t = some m' ∧ K.run us m' = some m := by
  -- strong induction: after a nested block the argument restarts on what follows it
  induction hn : ts.length using Nat.strongRecOn generalizing ts f fs σ with
  | _ n ih =>
    subst hn
    cases ts with
    | nil =>
      cases h
      cases hm
    | cons t ts =>
      simp only [run, bind_eq_some_iff] at h
      obtain ⟨m₁, hstep, hrun⟩ := h
      cases t with
      | plain p =>
        obtain ⟨ρ, hp, rfl⟩ := step_plain.mp hstep
        obtain ⟨is, bs, t, us, τ, m', rfl, ht, hf, hc, hs, hr⟩ := ih _ (by simp) hrun rfl
        exact ⟨.plain p :: is, .plain p :: bs, t, us, τ, m', rfl, ht, .plain hf,
          checkSeq_cons.mpr ⟨ρ, hp, hc⟩, hs, hr⟩
      | fin => exact ⟨[], [], .fin, ts, σ, m₁, rfl, .inl rfl, .nil, rfl, hstep, hrun⟩
      | els => exact ⟨[], [], .els, ts, σ, m₁, rfl, .inr rfl, .nil, rfl, hstep, hrun⟩
      | enter k b =>
        obtain ⟨ins, outs, ρ, hb, hpop, rfl⟩ := step_enter.mp hstep
        obtain ⟨body, bs, t, us, τ', m₂, rfl, ht, hf, hc, hs, hr⟩ := ih _ (by simp) hrun rfl
        have hlt : us.length < (Token.enter k b :: (bs ++ t :: us)).length := by simp; omega
        rcases ht with rfl | rfl
        · -- the block ends; what follows it is checked from the saved operands
          obtain ⟨hex, himp, rfl⟩ := step_fin.mp hs
          obtain ⟨is, cs, t, vs, τ, m', rfl, ht, hf', hc', hs', hr'⟩ := ih _ hlt hr rfl
          cases k with
          | block =>
            exact ⟨.block b body :: is, .enter .block b :: (bs ++ .fin :: cs), t, vs, τ, m',
              by simp, ht, .block hf hf', checkSeq_cons.mpr
                ⟨_, checkInstr_block.mpr ⟨ins, outs, ρ, τ', hb, hpop, hc, hex, rfl⟩, hc'⟩, hs', hr'⟩
          | loop =>
            exact ⟨.loop b body :: is, .enter .loop b :: (bs ++ .fin :: cs), t, vs, τ, m',
              by simp, ht, .loop hf hf', checkSeq_cons.mpr
                ⟨_, checkInstr_loop.mpr ⟨ins, outs, ρ, τ', hb, hpop, hc, hex, rfl⟩, hc'⟩, hs', hr'⟩
          | ifThen =>
            have hels : (ofTypes ins).exits outs = true := exits_ofTypes.mpr (himp rfl)
            exact ⟨.ifElse b body [] :: is, .enter .ifThen b :: (bs ++ .fin :: cs), t, vs, τ, m',
              by simp, ht, .ifThen hf hf', checkSeq_cons.mpr
                ⟨_, checkInstr_ifElse.mpr ⟨ins, outs, ρ, τ', _, hb, hpop, hc, rfl, hex, hels, rfl⟩,
                  hc'⟩, hs', hr'⟩
        · -- the consequence ends; the alternative follows up to its own end
          obtain ⟨hk, hex, rfl⟩ := step_els.mp hs
          have hk : k = .ifThen := by cases k <;> simp_all [Kind.toFrame]
          subst hk
          obtain ⟨els, cs, t, vs, τ₂, m₃, rfl, ht, hf₂, hc₂, hs₂, hr₂⟩ := ih _ hlt hr rfl
          rcases ht with rfl | rfl
          · obtain ⟨hex₂, -, rfl⟩ := step_fin.mp hs₂
            obtain ⟨is, ds, t, ws, τ, m', rfl, ht, hf', hc', hs', hr'⟩ :=
              ih vs.length (by simp; omega) hr₂ rfl
            exact ⟨.ifElse b body els :: is,
              .enter .ifThen b :: (bs ++ .els :: (cs ++ .fin :: ds)), t, ws, τ, m',
              by simp, ht, .ifElse hf hf₂ hf', checkSeq_cons.mpr
                ⟨_, checkInstr_ifElse.mpr
                  ⟨ins, outs, ρ, τ', τ₂, hb, hpop, hc, hc₂, hex, hex₂, rfl⟩, hc'⟩, hs', hr'⟩
          · exact absurd (step_els.mp hs₂).1 (by simp)

theorem accepts_flat (hf : Flat is bs) : K.Accepts outs (bs ++ [.fin]) ↔
      ∃ τ, K.checkSeq [outs] is (.ofTypes []) = some τ ∧ τ.exits outs = true := by
  constructor
  · rintro ⟨m, h, -⟩
    obtain ⟨m₁, m₂, hin, hfin, -⟩ := run_append_cons.mp h
    obtain ⟨τ, hc, rfl⟩ := map_eq_some_iff.mp ((run_flat hf).symm.trans hin)
    exact ⟨τ, hc, (step_fin.mp hfin).1⟩
  · rintro ⟨τ, hc, hex⟩
    have hin : K.run bs (.start outs) = some ⟨_, τ⟩ :=
      (run_flat hf).trans (map_eq_some_iff.mpr ⟨τ, hc, rfl⟩)
    exact ⟨_, run_append_cons.mpr ⟨_, _, hin, step_fin.mpr ⟨hex, by simp, rfl⟩, rfl⟩, rfl⟩

theorem Accepts.flat (h : K.Accepts outs ts) : ∃ is bs, ts = bs ++ [.fin] ∧ Flat is bs := by
  obtain ⟨m, h, hm⟩ := h
  obtain ⟨is, bs, t, us, τ, m', rfl, ht, hf, hc, hs, hr⟩ := run_split h hm
  rcases ht with rfl | rfl
  · obtain ⟨-, -, rfl⟩ := step_fin.mp hs
    cases us with
    | nil => exact ⟨is, bs, rfl, hf⟩
    | cons t us => cases t <;> simp [run, step] at hr
  · exact absurd (step_els.mp hs).1 (by simp)

end Checker

end StackTyping
