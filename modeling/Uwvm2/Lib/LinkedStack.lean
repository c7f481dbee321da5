import Mathlib

/-!
# Linked stacks

Records that each hold a link to the one below; the stack is known by its top.
-/

/-- The links from the top lead through the records of the list, in this order, and end there. -/
def LinkedStack {A : Type} (below : A → Option A) : Option A → List A → Prop
  | top, [] => top = none
  | top, a :: l => top = some a ∧ LinkedStack below (below a) l

namespace LinkedStack

open List

variable {A : Type} {below : A → Option A} {top : Option A} {a : A} {l : List A}

section

variable (h : LinkedStack below top l)

include h

theorem top_eq : top = l.head? := by
  cases l with
  | nil => exact h
  | cons a l => exact h.1

theorem unique (h' : LinkedStack below top l') : l = l' := by
  induction l generalizing top l' with
  | nil =>
    cases l' with
    | nil => rfl
    | cons a' l' => cases h.symm.trans h'.1
  | cons a l ih =>
    cases l' with
    | nil => cases h'.symm.trans h.1
    | cons a' l' =>
      obtain rfl : a = a' := Option.some.inj (h.1.symm.trans h'.1)
      rw [ih h.2 h'.2]

theorem congr (hbelow : ∀ a ∈ l, below' a = below a) : LinkedStack below' top l := by
  induction l generalizing top with
  | nil => exact h
  | cons a l ih =>
    refine ⟨h.1, ?_⟩
    rw [hbelow a mem_cons_self]
    exact ih h.2 fun b hb => hbelow b (mem_cons_of_mem _ hb)

theorem of_mem (ha : a ∈ l) :
    ∃ l₁ l₂, l = l₁ ++ a :: l₂ ∧ LinkedStack below (some a) (a :: l₂) := by
  induction l generalizing top with
  | nil => cases ha
  | cons b l ih =>
    rcases mem_cons.mp ha with rfl | ha
    · exact ⟨[], l, rfl, rfl, h.2⟩
    · obtain ⟨l₁, l₂, rfl, hstack⟩ := ih h.2 ha
      exact ⟨b :: l₁, l₂, rfl, hstack⟩

theorem nodup : l.Nodup := by
  induction l generalizing top with
  | nil => exact nodup_nil
  | cons a l ih =>
    refine nodup_cons.mpr ⟨fun ha => ?_, ih h.2⟩
    obtain ⟨l₁, l₂, rfl, hstack⟩ := h.2.of_mem ha
    have hwhole : LinkedStack below (some a) (a :: (l₁ ++ a :: l₂)) := ⟨rfl, h.2⟩
    have hlength := congrArg length (hstack.unique hwhole)
    simp only [length_cons, length_append] at hlength
    omega

end

end LinkedStack
