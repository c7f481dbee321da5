import Mathlib

/-!
# Operand stacks of a stack-machine validator

A validator tracks the operands of the innermost block as a list of known or
unknown types over a base that may be polymorphic (after an unconditional
branch). Such a stack stands for a set of concrete stack types; `Holds` says
which. Every operation below is exact for that reading: it succeeds on a
stack precisely when some (equivalently every suitable) stack type it stands
for permits it. Stacks are written top first.
-/

namespace StackTyping

open List Option

/-- How value types (what instructions name) sit inside operand types (what a
derivation may put on the stack). With equality as matching the two coincide;
a bottom operand type matches every value type. -/
structure Matching (V O : Type) where
  emb : V → O
  le : O → O → Prop
  refl : ∀ o, le o o
  exact : ∀ {v w}, le (emb v) (emb w) → v = w

/-- Operand types are the value types and match only themselves. -/
def Matching.eq (V : Type) : Matching V V where
  emb := id
  le := Eq
  refl _ := rfl
  exact h := h

@[simp] theorem Matching.eq_emb (V : Type) : (Matching.eq V).emb = id := rfl

@[simp] theorem Matching.eq_le (V : Type) : (Matching.eq V).le = Eq := rfl

/-- Operand types are the value types and a bottom type below all of them. -/
def Matching.bottom (V : Type) : Matching V (Option V) where
  emb := some
  le a b := a = none ∨ a = b
  refl _ := .inr rfl
  exact h := by simpa using h

/-- The operands of one block, top first. `none` is an operand of unknown type;
it can only arise above a polymorphic base. -/
structure OpStack (V : Type) where
  vals : List (Option V)
  poly : Bool
  known : poly = false → none ∉ vals

namespace OpStack

variable {V : Type}

@[ext] theorem ext {σ τ : OpStack V} (hv : σ.vals = τ.vals) (hp : σ.poly = τ.poly) : σ = τ := by
  cases σ; cases τ; simp_all

/-- Exactly these types, bottom-most last, nothing beneath. -/
def ofTypes (ts : List V) : OpStack V := ⟨ts.map some, false, by simp⟩

/-- After an unconditional branch: no operands over a polymorphic base. -/
def unreachable : OpStack V := ⟨[], true, by simp⟩

def push (v : V) (σ : OpStack V) : OpStack V :=
  ⟨some v :: σ.vals, σ.poly, fun h => by simpa using σ.known h⟩

def pushUnknown (σ : OpStack V) (_ : σ.poly = true) : OpStack V :=
  ⟨none :: σ.vals, true, by simp⟩

/-- Push `vs` so that the head of the list ends up on top. -/
def pushAll (vs : List V) (σ : OpStack V) : OpStack V :=
  ⟨vs.map some ++ σ.vals, σ.poly, fun h => by simpa using σ.known h⟩

/-- The stack under the top entry; a polymorphic base supplies what is missing. -/
def tail (σ : OpStack V) : OpStack V :=
  ⟨σ.vals.tail, σ.poly, fun h hm => σ.known h (mem_of_mem_tail hm)⟩

/-- The stack without its `n` topmost entries, as far as it has them. -/
def drop (n : Nat) (σ : OpStack V) : OpStack V :=
  ⟨σ.vals.drop n, σ.poly, fun h hm => σ.known h (mem_of_mem_drop hm)⟩

def popAny (σ : OpStack V) : Option (Option V × OpStack V) :=
  match σ.vals with
  | [] => if σ.poly then some (none, σ) else none
  | o :: _ => some (o, σ.tail)

@[simp] theorem push_vals (v : V) (σ : OpStack V) : (push v σ).vals = some v :: σ.vals := rfl
@[simp] theorem push_poly (v : V) (σ : OpStack V) : (push v σ).poly = σ.poly := rfl
@[simp] theorem pushAll_vals (vs : List V) (σ : OpStack V) :
    (pushAll vs σ).vals = vs.map some ++ σ.vals := rfl
@[simp] theorem pushAll_poly (vs : List V) (σ : OpStack V) : (pushAll vs σ).poly = σ.poly := rfl
@[simp] theorem ofTypes_vals (ts : List V) : (ofTypes ts).vals = ts.map some := rfl
@[simp] theorem ofTypes_poly (ts : List V) : (ofTypes ts).poly = false := rfl
@[simp] theorem unreachable_vals : (unreachable : OpStack V).vals = [] := rfl
@[simp] theorem unreachable_poly : (unreachable : OpStack V).poly = true := rfl
@[simp] theorem tail_vals (σ : OpStack V) : σ.tail.vals = σ.vals.tail := rfl
@[simp] theorem tail_poly (σ : OpStack V) : σ.tail.poly = σ.poly := rfl
@[simp] theorem drop_vals (n : Nat) (σ : OpStack V) : (σ.drop n).vals = σ.vals.drop n := rfl
@[simp] theorem drop_poly (n : Nat) (σ : OpStack V) : (σ.drop n).poly = σ.poly := rfl

@[simp] theorem pushAll_nil (σ : OpStack V) : σ.pushAll [] = σ := rfl

@[simp] theorem pushAll_one (v : V) (σ : OpStack V) : σ.pushAll [v] = σ.push v := rfl

@[simp] theorem drop_zero (σ : OpStack V) : σ.drop 0 = σ := rfl

theorem drop_succ (n : Nat) (σ : OpStack V) : σ.drop (n + 1) = σ.tail.drop n :=
  OpStack.ext (by simp) rfl

theorem drop_min (n : Nat) (σ : OpStack V) : σ.drop (min σ.vals.length n) = σ.drop n := by
  refine OpStack.ext ?_ rfl
  rcases Nat.le_total σ.vals.length n with h | h
  · simp [Nat.min_eq_left h, drop_eq_nil_of_le h]
  · simp [Nat.min_eq_right h]

theorem tail_eq_self {σ : OpStack V} (h : σ.vals = []) : σ.tail = σ :=
  OpStack.ext (by simp [h]) rfl

theorem popAny_eq_some : popAny σ = some (k, τ) ↔
      (σ.poly = true ∨ 1 ≤ σ.vals.length) ∧ k = σ.vals.head?.join ∧ τ = σ.tail := by
  cases hs : σ.vals with
  | nil => simp [popAny, hs, tail_eq_self hs, eq_comm (a := τ), eq_comm (a := k)]
  | cons o os => simp [popAny, hs, eq_comm (a := τ), eq_comm (a := k)]

theorem poly_of_unknown {σ : OpStack V} (hlen : σ.poly = true ∨ 1 ≤ σ.vals.length)
    (h : σ.vals.head?.join = none) : σ.poly = true := by
  by_contra hpoly
  match hs : σ.vals, hlen.resolve_left hpoly with
  | o :: os, _ =>
    have ho : o = none := by simpa [hs] using h
    exact σ.known (by simpa using hpoly) (by simp [hs, ho])

variable [DecidableEq V]

def popExpect (v : V) (σ : OpStack V) : Option (OpStack V) :=
  match σ.vals with
  | [] => if σ.poly then some σ else none
  | none :: _ => some σ.tail
  | some w :: _ => if w = v then some σ.tail else none

/-- Pop operands for all of `vs`, the head of the list from the top. -/
def popAll : List V → OpStack V → Option (OpStack V)
  | [], σ => some σ
  | v :: vs, σ => (σ.popExpect v).bind (popAll vs)

/-- A block may end: its results are there, and nothing else is. -/
def exits (vs : List V) (σ : OpStack V) : Bool :=
  match popAll vs σ with
  | some τ => τ.vals.isEmpty
  | none => false

def agrees : List V → List (Option V) → Bool
  | v :: vs, o :: os => (o == none || o == some v) && agrees vs os
  | _, _ => true

@[simp] theorem agrees_nil (os : List (Option V)) : agrees [] os = true := by
  cases os <;> rfl

theorem agrees_one {v : V} : agrees [v] os = true ↔ ∀ w, os.head?.join = some w → w = v := by
  match os with
  | [] => simp [agrees]
  | none :: _ => simp [agrees]
  | some _ :: _ => simp [agrees]

theorem agrees_cons {vs : List V} :
    agrees (v :: vs) os = true ↔ agrees [v] os = true ∧ agrees vs os.tail = true := by
  cases os with
  | nil => cases vs <;> simp [agrees]
  | cons o os => simp [agrees]

theorem agrees_iff {vs : List V} : agrees vs os = true ↔
      ∀ (k : Nat) (v w : V), vs[k]? = some v → os[k]? = some (some w) → w = v := by
  induction vs generalizing os with
  | nil => simp [agrees]
  | cons v vs ih =>
    rw [agrees_cons, ih]
    constructor
    · rintro ⟨hv, hvs⟩ k x w hx hw
      cases k with
      | zero => cases os <;> simp_all [agrees]
      | succ k => exact hvs k x w (by simpa using hx) (by simpa using hw)
    · intro h
      refine ⟨?_, fun k x w hx hw => h (k + 1) x w (by simpa using hx) (by simpa using hw)⟩
      match os with
      | [] => rfl
      | none :: _ => rfl
      | some w :: _ => simpa [agrees] using h 0 v w rfl rfl

theorem eq_append_of_agrees {vs : List V} (hk : none ∉ os)
    (hlen : vs.length ≤ os.length) (h : agrees vs os = true) :
    os = vs.map some ++ os.drop vs.length := by
  induction vs generalizing os with
  | nil => simp
  | cons v vs ih =>
    cases os with
    | nil => simp at hlen
    | cons o os =>
      obtain ⟨ho, hrest⟩ := agrees_cons.mp h
      have ho' : o = some v := by
        have hne : o ≠ none := fun hn => hk (by simp [hn])
        simpa [agrees, hne] using ho
      have hrest' := ih (fun hm => hk (mem_cons_of_mem _ hm)) (by simpa using hlen) hrest
      simpa [ho'] using hrest'

theorem popExpect_eq_some {τ : OpStack V} : popExpect v σ = some τ ↔
      (σ.poly = true ∨ 1 ≤ σ.vals.length) ∧ agrees [v] σ.vals = true ∧ τ = σ.tail := by
  cases hs : σ.vals with
  | nil => simp [popExpect, hs, agrees, tail_eq_self hs, eq_comm (a := τ)]
  | cons o os =>
    cases o with
    | none => simp [popExpect, hs, agrees, eq_comm (a := τ)]
    | some w =>
      by_cases hw : w = v
      · simp [popExpect, hs, agrees, hw, eq_comm (a := τ)]
      · simp [popExpect, hs, agrees, hw]

/-- What popping a list of expected types does, in one equation: enough operands
(or a polymorphic base), each of them unknown or of the expected type. -/
theorem popAll_eq_some {σ : OpStack V} : popAll vs σ = some τ ↔
      (σ.poly = true ∨ vs.length ≤ σ.vals.length) ∧ agrees vs σ.vals = true ∧
        τ = σ.drop vs.length := by
  induction vs generalizing σ with
  | nil => simp [popAll, agrees, eq_comm (a := τ)]
  | cons v vs ih =>
    have hcons : agrees (v :: vs) σ.vals = true ↔ _ := agrees_cons
    simp only [popAll, bind_eq_some_iff, popExpect_eq_some, ih, length_cons, drop_succ,
      hcons]
    constructor
    · rintro ⟨_, ⟨hlen, hv, rfl⟩, hlen', hvs, rfl⟩
      refine ⟨hlen.elim .inl fun hlen => hlen'.imp_right fun hlen' => ?_, ⟨hv, hvs⟩, rfl⟩
      rw [tail_vals, length_tail] at hlen'
      omega
    · rintro ⟨hlen, ⟨hv, hvs⟩, rfl⟩
      refine ⟨_, ⟨hlen.imp_right fun hlen => by omega, hv, rfl⟩,
        hlen.imp_right fun hlen => ?_, hvs, rfl⟩
      rw [tail_vals, length_tail]
      omega

theorem popAll_cons {σ : OpStack V} :
    popAll (v :: vs) σ = some τ ↔ (∃ ρ, popExpect v σ = some ρ) ∧ popAll vs σ.tail = some τ := by
  simp only [popAll, bind_eq_some_iff, popExpect_eq_some]
  constructor
  · rintro ⟨_, ⟨hlen, hagree, rfl⟩, h⟩
    exact ⟨⟨_, hlen, hagree, rfl⟩, h⟩
  · rintro ⟨⟨_, hlen, hagree, rfl⟩, h⟩
    exact ⟨_, ⟨hlen, hagree, rfl⟩, h⟩

theorem popAll_bind {α : Type} (vs : List V) (σ : OpStack V) (g : OpStack V → Option α) :
    (σ.popAll vs).bind g = (σ.popAll vs).bind fun _ => g (σ.drop vs.length) := by
  cases h : σ.popAll vs with
  | none => rfl
  | some τ =>
    obtain ⟨-, -, rfl⟩ := popAll_eq_some.mp h
    rfl

theorem pushAll_drop_of_popAll {τ : OpStack V} (h : σ.popAll vs = some τ) (hp : σ.poly = false) :
    τ.pushAll vs = σ := by
  obtain ⟨hlen, hagree, rfl⟩ := popAll_eq_some.mp h
  have hlen : vs.length ≤ σ.vals.length := by simpa [hp] using hlen
  exact OpStack.ext (eq_append_of_agrees (σ.known hp) hlen hagree).symm rfl

/-- Ending a block in one equation: at most as many operands as results, exactly as
many over a fixed base, each of them unknown or of the expected type. -/
theorem exits_eq_true {σ : OpStack V} : σ.exits vs = true ↔
      (if σ.poly = true then σ.vals.length ≤ vs.length else σ.vals.length = vs.length) ∧
        agrees vs σ.vals = true := by
  have hexits : σ.exits vs = true ↔ ∃ τ, σ.popAll vs = some τ ∧ τ.vals = [] := by
    unfold exits
    cases popAll vs σ <;> simp
  simp only [hexits, popAll_eq_some]
  constructor
  · rintro ⟨_, ⟨hlen, hagree, rfl⟩, hnil⟩
    have hle : σ.vals.length ≤ vs.length := by simpa using hnil
    refine ⟨?_, hagree⟩
    split
    · exact hle
    · simp_all
      omega
  · rintro ⟨hlen, hagree⟩
    refine ⟨_, ⟨?_, hagree, rfl⟩, ?_⟩
    · split at hlen <;> simp_all
    · have hle : σ.vals.length ≤ vs.length := by split at hlen <;> omega
      simpa using hle

end OpStack

-- The stack types an operand stack stands for

section Holds

variable {V O : Type} (M : Matching V O)

/-- `ts` is one of the stack types described by entries over a base: a known
entry is exactly that type, an unknown entry any type, and a polymorphic base
any further operands. -/
def HoldsFrom : List (Option V) → Bool → List O → Prop
  | [], false, ts => ts = []
  | [], true, _ => True
  | none :: es, p, ts => ∃ o r, ts = o :: r ∧ HoldsFrom es p r
  | some v :: es, p, ts => ∃ r, ts = M.emb v :: r ∧ HoldsFrom es p r

def Holds (σ : OpStack V) (ts : List O) : Prop := HoldsFrom M σ.vals σ.poly ts

variable {M}

theorem forall₂_refl (ts : List O) : Forall₂ M.le ts ts :=
  forall₂_same.mpr fun _ _ => M.refl _

theorem holds_ofTypes : Holds M (.ofTypes vs) ts ↔ ts = vs.map M.emb := by
  induction vs generalizing ts with
  | nil => simp [Holds, HoldsFrom, OpStack.ofTypes]
  | cons v vs ih =>
    have ih' : ∀ r, HoldsFrom M (vs.map some) false r ↔ r = vs.map M.emb := fun r => ih
    simp [Holds, HoldsFrom, OpStack.ofTypes, ih']

theorem holds_nil : Holds M σ [] ↔ σ.vals.isEmpty = true := by
  unfold Holds
  match σ.vals, σ.poly with
  | [], false => simp [HoldsFrom]
  | [], true => simp [HoldsFrom]
  | none :: _, _ => simp [HoldsFrom]
  | some _ :: _, _ => simp [HoldsFrom]

theorem holds_unreachable : Holds M .unreachable ts := trivial

theorem exists_holdsFrom [Nonempty O] (es : List (Option V)) (p : Bool) :
    ∃ ts, HoldsFrom M es p ts := by
  induction es with
  | nil => exact ⟨[], by cases p <;> simp [HoldsFrom]⟩
  | cons e es ih =>
    obtain ⟨ts, hts⟩ := ih
    cases e with
    | none =>
      obtain ⟨o⟩ := ‹Nonempty O›
      exact ⟨o :: ts, o, ts, rfl, hts⟩
    | some v => exact ⟨M.emb v :: ts, ts, rfl, hts⟩

theorem exists_holds [Nonempty O] (σ : OpStack V) : ∃ ts, Holds M σ ts :=
  exists_holdsFrom σ.vals σ.poly

theorem holds_push : Holds M (σ.push v) ts ↔ ∃ r, ts = M.emb v :: r ∧ Holds M σ r := Iff.rfl

theorem holds_pushAll : Holds M (σ.pushAll vs) ts ↔ ∃ r, ts = vs.map M.emb ++ r ∧ Holds M σ r := by
  induction vs generalizing ts with
  | nil => simp [OpStack.pushAll, Holds]
  | cons v vs ih =>
    have ih' : ∀ r', HoldsFrom M (vs.map some ++ σ.vals) σ.poly r' ↔
        ∃ r, r' = vs.map M.emb ++ r ∧ Holds M σ r := fun _ => ih
    simp only [Holds, OpStack.pushAll, map_cons, cons_append, HoldsFrom, ih']
    constructor
    · rintro ⟨_, rfl, r, rfl, hr⟩
      exact ⟨r, rfl, hr⟩
    · rintro ⟨r, rfl, hr⟩
      exact ⟨_, rfl, r, rfl, hr⟩

theorem holds_pushUnknown : Holds M (σ.pushUnknown h) ts ↔ ∃ o r, ts = o :: r ∧ Holds M σ r := by
  simp [Holds, OpStack.pushUnknown, HoldsFrom, h]

theorem holds_cons : Holds M σ (o :: ts) ↔
    (σ.poly = true ∨ 1 ≤ σ.vals.length) ∧ (∀ v, σ.vals.head?.join = some v → o = M.emb v) ∧
      Holds M σ.tail ts := by
  rw [Holds, Holds, OpStack.tail_vals, OpStack.tail_poly]
  match σ.vals, σ.poly with
  | [], false => simp [HoldsFrom]
  | [], true => simp [HoldsFrom]
  | none :: _, _ => simp [HoldsFrom]
  | some _ :: _, _ => simp [HoldsFrom]

theorem popAny_holds (h : σ.popAny = some (k, τ)) :
    Holds M σ (o :: ts) ↔ (∀ v, k = some v → o = M.emb v) ∧ Holds M τ ts := by
  obtain ⟨hlen, rfl, rfl⟩ := OpStack.popAny_eq_some.mp h
  rw [holds_cons, and_iff_right hlen]

theorem popAny_none {σ : OpStack V} (h : σ.popAny = some (none, τ)) : τ.poly = true := by
  obtain ⟨hlen, hunknown, rfl⟩ := OpStack.popAny_eq_some.mp h
  exact OpStack.poly_of_unknown (σ := σ) hlen hunknown.symm

theorem popAny_isSome (h : Holds M σ (o :: ts)) : ∃ k τ, σ.popAny = some (k, τ) :=
  ⟨_, _, OpStack.popAny_eq_some.mpr ⟨(holds_cons.mp h).1, rfl, rfl⟩⟩

variable [DecidableEq V]

theorem popExpect_sound {τ : OpStack V} (h : σ.popExpect v = some τ) (ht : Holds M τ ts) :
    Holds M σ (M.emb v :: ts) := by
  obtain ⟨hlen, hagree, rfl⟩ := OpStack.popExpect_eq_some.mp h
  exact holds_cons.mpr ⟨hlen, fun w hw => by rw [OpStack.agrees_one.mp hagree w hw], ht⟩

theorem popExpect_complete {σ : OpStack V} (h : Holds M σ (o :: ts)) (hle : M.le o (M.emb v)) :
    ∃ τ, σ.popExpect v = some τ ∧ Holds M τ ts := by
  obtain ⟨hlen, hhead, htail⟩ := holds_cons.mp h
  have hagree : OpStack.agrees [v] σ.vals = true :=
    OpStack.agrees_one.mpr fun w hw => M.exact (hhead w hw ▸ hle)
  exact ⟨_, OpStack.popExpect_eq_some.mpr ⟨hlen, hagree, rfl⟩, htail⟩

theorem popAll_sound (h : σ.popAll vs = some τ) (ht : Holds M τ ts) :
    Holds M σ (vs.map M.emb ++ ts) := by
  induction vs generalizing σ with
  | nil =>
    cases h
    exact ht
  | cons v vs ih =>
    simp only [OpStack.popAll, bind_eq_some_iff] at h
    obtain ⟨ρ, hv, hrest⟩ := h
    exact popExpect_sound hv (ih hrest)

theorem popAll_complete (hle : Forall₂ M.le a (vs.map M.emb)) (h : Holds M σ (a ++ ts)) :
    ∃ τ, σ.popAll vs = some τ ∧ Holds M τ ts := by
  induction vs generalizing σ a with
  | nil =>
    cases hle
    exact ⟨σ, rfl, h⟩
  | cons v vs ih =>
    cases hle with
    | cons hv hrest =>
      obtain ⟨ρ, hp, hρ⟩ := popExpect_complete h hv
      obtain ⟨τ, hτ, hts⟩ := ih hrest hρ
      exact ⟨τ, by simp [OpStack.popAll, hp, hτ], hts⟩

theorem exits_of_le (hle : Forall₂ M.le ts (vs.map M.emb)) (h : Holds M σ ts) :
    σ.exits vs = true := by
  rw [← append_nil ts] at h
  obtain ⟨τ, hτ, hnil⟩ := popAll_complete hle h
  simpa [OpStack.exits, hτ] using holds_nil.mp hnil

theorem exits_iff : σ.exits vs = true ↔ Holds M σ (vs.map M.emb) := by
  constructor
  · intro h
    unfold OpStack.exits at h
    split at h
    case h_1 τ hτ =>
      have hsound := popAll_sound (M := M) hτ (holds_nil.mpr h)
      simpa using hsound
    case h_2 => cases h
  · exact exits_of_le (forall₂_refl _)

end Holds

-- The least operand types under a bottom type

section Least

variable {V : Type}

theorem Matching.bottom_le {V : Type} {a b : Option V} :
    (Matching.bottom V).le a b ↔ a = none ∨ a = b := Iff.rfl

theorem forall₂_bottom_trans
    (h₁ : Forall₂ (Matching.bottom V).le a b) (h₂ : Forall₂ (Matching.bottom V).le b c) :
    Forall₂ (Matching.bottom V).le a c := by
  induction h₁ generalizing c with
  | nil => exact h₂
  | cons hab _ ih =>
    cases h₂ with
    | cons hbc hrest =>
      refine .cons ?_ (ih hrest)
      rcases hab with rfl | rfl
      · exact .inl rfl
      · exact hbc

/-- The top `n` operands, where those that are missing or unknown have the bottom type. -/
def OpStack.least : Nat → OpStack V → List (Option V)
  | 0, _ => []
  | n + 1, σ => σ.vals.head?.join :: σ.tail.least n

variable [DecidableEq V] {vs : List V} {σ τ : OpStack V}

theorem least_le (h : σ.popAll vs = some τ) :
    Forall₂ (Matching.bottom V).le (σ.least vs.length) (vs.map some) := by
  induction vs generalizing σ with
  | nil => exact .nil
  | cons v vs ih =>
    obtain ⟨ρ, hv, hrest⟩ := bind_eq_some_iff.mp h
    obtain ⟨-, hagree, rfl⟩ := OpStack.popExpect_eq_some.mp hv
    refine .cons ?_ (ih hrest)
    cases hs : σ.vals with
    | nil => exact .inl rfl
    | cons o os => simpa [hs, OpStack.agrees, Matching.bottom_le] using hagree

theorem least_holds (h : σ.popAll vs = some τ) (ht : Holds (Matching.bottom V) τ ts) :
    Holds (Matching.bottom V) σ (σ.least vs.length ++ ts) := by
  induction vs generalizing σ with
  | nil =>
    cases h
    exact ht
  | cons v vs ih =>
    obtain ⟨ρ, hv, hrest⟩ := bind_eq_some_iff.mp h
    obtain ⟨hlen, -, rfl⟩ := OpStack.popExpect_eq_some.mp hv
    have hpop : σ.popAny = some (σ.vals.head?.join, σ.tail) :=
      OpStack.popAny_eq_some.mpr ⟨hlen, rfl, rfl⟩
    exact (popAny_holds hpop).mpr ⟨fun _ h => h, ih hrest⟩

end Least

end StackTyping
