import Mathlib

/-!
# Prefix codes

An encoding into words is a prefix code when the code of a value can be split off
a longer list of words in one way only. Such codes can be put one after the other
without separators: the combinators below keep the property.
-/

variable {W α β : Type}

def IsPrefixCode (enc : α → List W) : Prop :=
  ∀ ⦃a b : α⦄ ⦃s t : List W⦄, enc a ++ s = enc b ++ t → a = b ∧ s = t

namespace IsPrefixCode

open List Function

variable {enc : α → List W}

theorem injective (h : IsPrefixCode enc) : Injective enc := by
  intro a b hab
  have hnil : enc a ++ [] = enc b ++ [] := by rw [hab]
  exact (h hnil).1

theorem word (hf : Injective f) : IsPrefixCode fun a => [f a] := by
  intro a b s t h
  obtain ⟨hword, hrest⟩ := cons.inj h
  exact ⟨hf hword, hrest⟩

theorem comap (h : IsPrefixCode enc) (hf : Injective f) : IsPrefixCode fun b => enc (f b) := by
  intro a b s t heq
  obtain ⟨hfab, hrest⟩ := h heq
  exact ⟨hf hfab, hrest⟩

theorem prod (h : IsPrefixCode enc) (h' : IsPrefixCode enc') :
    IsPrefixCode fun p : α × β => enc p.1 ++ enc' p.2 := by
  rintro ⟨a, a'⟩ ⟨b, b'⟩ s t heq
  simp only [append_assoc] at heq
  obtain ⟨rfl, hrest⟩ := h heq
  obtain ⟨rfl, rfl⟩ := h' hrest
  exact ⟨rfl, rfl⟩

theorem flatMap (h : IsPrefixCode enc) {bs : List α} (hlen : as.length = bs.length)
    (heq : as.flatMap enc ++ s = bs.flatMap enc ++ t) : as = bs ∧ s = t := by
  induction as generalizing bs with
  | nil =>
    obtain rfl := length_eq_zero_iff.mp hlen.symm
    exact ⟨rfl, heq⟩
  | cons a as ih =>
    cases bs with
    | nil => cases hlen
    | cons b bs =>
      simp only [flatMap_cons, append_assoc] at heq
      obtain ⟨rfl, hrest⟩ := h heq
      obtain ⟨rfl, rfl⟩ := ih (Nat.succ.inj hlen) hrest
      exact ⟨rfl, rfl⟩

theorem list {enc : α → List Nat} (h : IsPrefixCode enc) :
    IsPrefixCode fun as : List α => as.length :: as.flatMap enc := by
  intro as bs s t heq
  obtain ⟨hlen, heq⟩ := cons.inj heq
  exact h.flatMap hlen heq

theorem of_read {γ : Type} (read : List W → γ) (result : α × List W → γ)
    (hresult : Injective result) (h : ∀ a s, read (enc a ++ s) = result (a, s)) :
    IsPrefixCode enc := by
  intro a b s t heq
  have hpair : (a, s) = (b, t) := by
    apply hresult
    rw [← h a s, ← h b t, heq]
  exact Prod.mk.inj hpair

theorem behind (h : IsPrefixCode enc) (words : List W) : IsPrefixCode fun a => words ++ enc a := by
  intro a b s t heq
  simp only [append_assoc] at heq
  exact h (append_cancel_left heq)

theorem sized {size : β → α} (h : IsPrefixCode enc) (hbody : Injective body)
    (hsize : ∀ a b, size a = size b → (body a).length = (body b).length) :
    IsPrefixCode fun b => enc (size b) ++ body b := by
  intro a b s t heq
  simp only [append_assoc] at heq
  obtain ⟨hab, hrest⟩ := h heq
  obtain ⟨hwords, hrest⟩ := append_inj hrest (hsize a b hab)
  exact ⟨hbody hwords, hrest⟩

end IsPrefixCode
