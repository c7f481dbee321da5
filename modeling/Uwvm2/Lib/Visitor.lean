import Mathlib

/-!
# Visitors that may refuse

A visitor takes one element after the other into its state; once it refuses an element it gets
no further ones.
-/

/-- Whether the element is accepted, and the next state. -/
abbrev Visitor (σ α : Type) := σ → α → Bool × σ

namespace Visitor

variable {σ α : Type} {v : Visitor σ α} {p : α → Bool} {s s' : σ} {a : α} {l : List α}

/-- Whether all elements are accepted, and the state after the last one that is visited. -/
def each (v : Visitor σ α) : σ → List α → Bool × σ
  | s, [] => (true, s)
  | s, a :: l => if (v s a).1 then each v (v s a).2 l else (false, (v s a).2)

def Accepts (v : Visitor σ α) (s : σ) (l : List α) (s' : σ) : Prop := v.each s l = (true, s')

@[simp] theorem accepts_nil : v.Accepts s [] s' ↔ s' = s := by
  simp [Accepts, each, eq_comm]

theorem accepts_cons : v.Accepts s (a :: l) s' ↔ ∃ s₁, v s a = (true, s₁) ∧ v.Accepts s₁ l s' := by
  unfold Accepts
  rw [each]
  constructor
  · intro h
    split at h
    next ha => exact ⟨_, Prod.ext ha rfl, h⟩
    next => cases h
  · rintro ⟨s₁, ha, hl⟩
    rw [ha]
    exact hl

theorem accepts_append :
    v.Accepts s (l ++ l') s' ↔ ∃ s₁, v.Accepts s l s₁ ∧ v.Accepts s₁ l' s' := by
  induction l generalizing s with
  | nil => simp
  | cons a l ih =>
    simp only [List.cons_append, accepts_cons, ih]
    constructor
    · rintro ⟨s₁, ha, s₂, hl, hl'⟩
      exact ⟨s₂, ⟨s₁, ha, hl⟩, hl'⟩
    · rintro ⟨s₂, ⟨s₁, ha, hl⟩, hl'⟩
      exact ⟨s₁, ha, s₂, hl, hl'⟩

/-- An element without the property is refused and not shown to the visitor. -/
def guarded (p : α → Bool) (v : Visitor σ α) : Visitor σ α := fun s a =>
  if p a then v s a else (false, s)

theorem accepts_guarded :
    (v.guarded p).Accepts s l s' ↔ (∀ a ∈ l, p a = true) ∧ v.Accepts s l s' := by
  induction l generalizing s with
  | nil => simp
  | cons a l ih =>
    simp only [accepts_cons, ih, List.forall_mem_cons, guarded]
    constructor
    · rintro ⟨s₁, ha, hl, hv⟩
      split at ha
      next hp => exact ⟨⟨hp, hl⟩, s₁, ha, hv⟩
      next => cases ha
    · rintro ⟨⟨hp, hl⟩, s₁, ha, hv⟩
      exact ⟨s₁, by rwa [if_pos hp], hl, hv⟩

def counted (v : Visitor σ α) : Visitor (Nat × σ) α := fun s a =>
  ((v s.2 a).1, if (v s.2 a).1 then s.1 + 1 else s.1, (v s.2 a).2)

theorem accepts_counted {s s' : Nat × σ} :
    v.counted.Accepts s l s' ↔ v.Accepts s.2 l s'.2 ∧ s'.1 = s.1 + l.length := by
  induction l generalizing s with
  | nil => simp [Prod.ext_iff, and_comm]
  | cons a l ih =>
    simp only [accepts_cons, ih, List.length_cons]
    constructor
    · rintro ⟨s₁, ha, hl, hlength⟩
      simp only [counted, Prod.ext_iff] at ha
      obtain ⟨haccepted, hnumber, hstate⟩ := ha
      rw [if_pos haccepted] at hnumber
      exact ⟨⟨s₁.2, Prod.ext haccepted hstate, hl⟩, by omega⟩
    · rintro ⟨⟨s₁, ha, hl⟩, hlength⟩
      exact ⟨(s.1 + 1, s₁), by simp [counted, ha], hl, by omega⟩

theorem accepts_nested {β : Type} {w : Visitor σ β} {R : β → List α → Prop} {items : List β}
    (hw : ∀ s b s', w s b = (true, s') ↔ ∃ l, R b l ∧ v.Accepts s l s') :
    w.Accepts s items s' ↔ ∃ parts, List.Forall₂ R items parts ∧ v.Accepts s parts.flatten s' := by
  induction items generalizing s with
  | nil =>
    rw [accepts_nil]
    constructor
    · rintro rfl
      exact ⟨[], .nil, accepts_nil.mpr rfl⟩
    · rintro ⟨parts, hparts, haccepts⟩
      cases hparts
      exact accepts_nil.mp haccepts
  | cons b items ih =>
    simp only [accepts_cons, hw, ih]
    constructor
    · rintro ⟨s₁, ⟨l, hl, haccepts⟩, parts, hparts, hrest⟩
      exact ⟨l :: parts, .cons hl hparts, accepts_append.mpr ⟨s₁, haccepts, hrest⟩⟩
    · rintro ⟨parts, hparts, haccepts⟩
      cases hparts with
      | cons hl hparts =>
        obtain ⟨s₁, hfirst, hrest⟩ := accepts_append.mp haccepts
        exact ⟨s₁, ⟨_, hl, hfirst⟩, _, hparts, hrest⟩

theorem each_keeps {P : σ → Prop} (hv : ∀ s a, P s → P (v s a).2) (hs : P s) :
    P (v.each s l).2 := by
  induction l generalizing s with
  | nil => exact hs
  | cons a l ih =>
    rw [each]
    split
    · exact ih (hv s a hs)
    · exact hv s a hs

end Visitor
