import Mathlib

/-!
# Counting the entries of a table

The number of entries of a finite table with some property, and how it changes when one
entry is written.
-/

variable {ι α : Type} [Fintype ι]

def tally (p : α → Bool) (f : ι → α) : Nat := ∑ i, (p (f i)).toNat

namespace Tally

open Finset

variable {p : α → Bool} {f : ι → α} {i : ι}

theorem eq_zero (h : ∀ i, p (f i) = false) : tally p f = 0 := by
  simp [tally, h]

/-- Writing an entry takes the old one out of the count and the new one in. -/
theorem update [DecidableEq ι] :
    tally p (Function.update f i v) + (p (f i)).toNat = tally p f + (p v).toNat := by
  have hmap : (fun j => (p (Function.update f i v j)).toNat) =
      Function.update (fun j => (p (f j)).toNat) i (p v).toNat := by
    funext j
    by_cases hj : j = i
    · subst hj
      simp
    · simp [hj]
  have hsplit := sum_sdiff (f := fun j => (p (f j)).toNat) (subset_univ {i})
  rw [sum_singleton] at hsplit
  simp only [tally, hmap, sum_update_of_mem (mem_univ i)]
  omega

theorem pos (h : p (f i) = true) : 0 < tally p f := by
  refine Nat.lt_of_lt_of_le ?_
    (single_le_sum (f := fun j => (p (f j)).toNat) (fun _ _ => Nat.zero_le _) (mem_univ i))
  rw [h]
  exact Nat.one_pos

theorem forall_of_eq (hpq : ∀ i, p (f i) = true → q (f i) = true)
    (h : tally p f = tally q f) (i : ι) (hi : q (f i) = true) : p (f i) = true := by
  have hle : ∀ j ∈ univ, (p (f j)).toNat ≤ (q (f j)).toNat := fun j _ => by
    cases hp : p (f j) with
    | false => exact Nat.zero_le _
    | true => rw [hpq j hp]
  have heq := (sum_eq_sum_iff_of_le hle).mp h i (mem_univ i)
  rw [hi] at heq
  cases hp : p (f i) with
  | false =>
    rw [hp] at heq
    cases heq
  | true => rfl

end Tally
