import Mathlib

/-!
# Elementary cycles

An elementary cycle of a directed graph is a list of different vertices, each with an edge to
the next and the last with one to the first. Rotations of it are the same cycle, and over a
linear order exactly one of them begins with its least vertex.
-/

namespace ElementaryCycle

open List

variable {α β : Type} {edge : α → α → Prop}

structure Elementary (edge : α → α → Prop) (c : List α) : Prop where
  nonempty : c ≠ []
  nodup : c.Nodup
  chain : Cycle.Chain edge (c : Cycle α)

/-- The cycle with its first vertex repeated at the end. -/
def close (c : List α) : List α := c ++ c.take 1

theorem close_cons (a : α) (l : List α) : close (a :: l) = a :: (l ++ [a]) := rfl

theorem close_map (f : α → β) (c : List α) : close (c.map f) = (close c).map f := by
  simp [close]

theorem elementary_iff_isChain : Elementary edge c ↔ c ≠ [] ∧ c.Nodup ∧ (close c).IsChain edge := by
  cases c with
  | nil => exact ⟨fun h => absurd rfl h.nonempty, fun h => absurd rfl h.1⟩
  | cons a l =>
    constructor
    · exact fun h => ⟨h.nonempty, h.nodup, (Cycle.chain_coe_cons _ _ _).mp h.chain⟩
    · exact fun h => ⟨h.1, h.2.1, (Cycle.chain_coe_cons _ _ _).mpr h.2.2⟩

theorem Elementary.rotated (h : Elementary edge c) (rotated : c ~r c') : Elementary edge c' := by
  refine ⟨fun hnil => h.nonempty ?_, rotated.nodup_iff.mp h.nodup, ?_⟩
  · rw [hnil] at rotated
    exact isRotated_nil_iff.mp rotated
  · rw [← Cycle.coe_eq_coe.mpr rotated]
    exact h.chain

theorem Elementary.exists_edge (h : Elementary edge c) (ha : a ∈ c) : ∃ b, edge a b := by
  obtain ⟨before, after, rfl⟩ := append_of_mem ha
  have rotated : before ++ a :: after ~r a :: (after ++ before) := isRotated_append
  obtain ⟨-, -, chain⟩ := elementary_iff_isChain.mp (h.rotated rotated)
  rw [close_cons] at chain
  cases hl : after ++ before ++ [a] with
  | nil => simp at hl
  | cons b l =>
    rw [hl] at chain
    exact ⟨b, (isChain_cons_cons.mp chain).1⟩

theorem isChain_forall {p : α → Prop} (closed : ∀ a b, p a → edge a b → p b)
    (chain : (a :: l).IsChain edge) (pa : p a) : ∀ b ∈ a :: l, p b := by
  induction l generalizing a with
  | nil => simpa using pa
  | cons b l ih =>
    obtain ⟨hab, chain⟩ := isChain_cons_cons.mp chain
    exact forall_mem_cons.mpr ⟨pa, ih chain (closed a b pa hab)⟩

theorem Elementary.forall_mem (h : Elementary edge c) {p : α → Prop}
    (closed : ∀ a b, p a → edge a b → p b) (ha : a ∈ c) (pa : p a) : ∀ b ∈ c, p b := by
  obtain ⟨before, after, rfl⟩ := append_of_mem ha
  have rotated : before ++ a :: after ~r a :: (after ++ before) := isRotated_append
  obtain ⟨-, -, chain⟩ := elementary_iff_isChain.mp (h.rotated rotated)
  intro b hb
  exact isChain_forall closed chain pa b (mem_append_left _ (rotated.mem_iff.mp hb))

theorem elementary_map_iff {edge' : β → β → Prop} (hf : Function.Injective f)
    (hedge : ∀ a b, edge' (f a) (f b) ↔ edge a b) :
    Elementary edge' (c.map f) ↔ Elementary edge c := by
  have chain : Cycle.Chain edge' (c.map f : Cycle β) ↔ Cycle.Chain edge (c : Cycle α) := by
    rw [← Cycle.map_coe, Cycle.chain_map]
    simp only [hedge]
  constructor
  · exact fun h => ⟨by simpa using h.nonempty, h.nodup.of_map, chain.mp h.chain⟩
  · exact fun h => ⟨by simpa using h.nonempty, h.nodup.map hf, chain.mpr h.chain⟩

theorem isRotated_of_map (hf : Function.Injective f) (h : c.map f ~r c'.map f) : c ~r c' := by
  obtain ⟨k, hk⟩ := h
  rw [← map_rotate] at hk
  exact ⟨k, map_injective_iff.mpr hf hk⟩

section Least

variable [LinearOrder α]

/-- The cycle begins with its least vertex. -/
def LeastFirst (c : List α) : Prop := ∀ a ∈ c.head?, ∀ b ∈ c, a ≤ b

theorem exists_leastFirst (c : List α) : ∃ c', c' ~r c ∧ LeastFirst c' := by
  cases hc : c with
  | nil => exact ⟨[], .refl _, by simp [LeastFirst]⟩
  | cons first rest =>
    obtain ⟨m, hm, least⟩ := c.toFinset.exists_min_image id ⟨first, by simp [hc]⟩
    rw [mem_toFinset] at hm
    obtain ⟨before, after, split⟩ := append_of_mem hm
    have rotated : m :: (after ++ before) ~r c := by
      rw [split]
      exact List.IsRotated.symm isRotated_append
    refine ⟨m :: (after ++ before), hc ▸ rotated, ?_⟩
    rintro a ha b hb
    obtain rfl : m = a := by simpa using ha
    exact least b (mem_toFinset.mpr (rotated.mem_iff.mp hb))

theorem LeastFirst.eq {l₂ : List α} (h : LeastFirst l₁) (h' : LeastFirst l₂) (nodup : l₁.Nodup)
    (rotated : l₁ ~r l₂) : l₁ = l₂ := by
  obtain ⟨k, hk, rfl⟩ := isRotated_iff_mod.mp rotated
  rcases hk.eq_or_lt with rfl | hk
  · exact (rotate_length l₁).symm
  rcases Nat.eq_zero_or_pos k with rfl | hpos
  · exact (rotate_zero l₁).symm
  -- otherwise the least vertex stands at two places
  exfalso
  have hc : 0 < l₁.length := by omega
  have head : l₁.head? = some l₁[0] := head?_eq_getElem? ▸ getElem?_eq_getElem hc
  have head' : (l₁.rotate k).head? = some l₁[k] := by
    rw [rotate_eq_drop_append_take hk.le, drop_eq_getElem_cons hk]
    rfl
  have le := h _ head l₁[k] (getElem_mem hk)
  have ge := h' _ head' l₁[0] (rotated.mem_iff.mp (getElem_mem hc))
  have := (List.Nodup.getElem_inj_iff nodup).mp (le_antisymm le ge)
  omega

end Least

end ElementaryCycle
