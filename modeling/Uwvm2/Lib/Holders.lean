import Mathlib

/-!
# The holders of a value

A table of handles, each of which holds a value or none, and the number of handles that hold
a given value; and a flag that is set while one handle holds it.
-/

variable {ι α : Type}

/-- The handles that hold the value. -/
def holders (f : ι → Option α) (a : α) : Set ι := {i | f i = some a}

namespace Holders

variable {f : ι → Option α} {i : ι} {a : α}

@[simp] theorem mem : i ∈ holders f a ↔ f i = some a := .rfl

theorem eq_empty_iff : holders f a = ∅ ↔ ∀ i, f i ≠ some a := Set.eq_empty_iff_forall_notMem

variable [DecidableEq ι]

theorem take (h : f i = none) :
    holders (Function.update f i (some a)) a = insert i (holders f a) := by
  ext j
  by_cases hj : j = i
  · subst hj
    simp
  · simp [hj]

theorem take_other (h : f i = none) (hb : b ≠ a) :
    holders (Function.update f i (some a)) b = holders f b := by
  ext j
  by_cases hj : j = i
  · subst hj
    simp [h, hb.symm]
  · simp [hj]

theorem encard_take (h : f i = none) :
    (holders (Function.update f i (some a)) a).encard = (holders f a).encard + 1 := by
  rw [take h, Set.encard_insert_of_notMem]
  rw [mem, h]
  nofun

theorem drop (b : α) : holders (Function.update f i none) b = holders f b \ {i} := by
  ext j
  by_cases hj : j = i
  · subst hj
    simp
  · simp [hj]

theorem encard_drop (h : f i = some a) :
    (holders (Function.update f i none) a).encard + 1 = (holders f a).encard := by
  rw [drop, Set.encard_sdiff_singleton_add_one (mem.mpr h)]

theorem drop_other (h : f i = some a) (hb : b ≠ a) :
    holders (Function.update f i none) b = holders f b := by
  rw [drop, Set.sdiff_singleton_eq_self]
  rw [mem, h]
  exact fun heq => hb (Option.some.inj heq).symm

end Holders

-- A flag with one holder

/-- A step of a handle that holds the flag or not: nothing, setting it, or clearing its own. -/
def FlagStep (holds flag holds' flag' : Bool) : Prop :=
  holds' = holds ∧ flag' = flag ∨ (holds = false ∧ flag = false ∧ holds' = true ∧ flag' = true) ∨
    holds = true ∧ holds' = false ∧ flag' = false

/-- The flag is set while a handle holds it, and no two do. -/
structure FlagTracks (holds : ι → Bool) (flag : Bool) : Prop where
  set : flag = true ↔ ∃ i, holds i = true
  one : ∀ {i j}, holds i = true → holds j = true → i = j

theorem FlagTracks.step [DecidableEq ι] {holds : ι → Bool} (h : FlagTracks holds flag)
    (hstep : FlagStep (holds i) flag b flag') : FlagTracks (Function.update holds i b) flag' := by
  obtain ⟨rfl, rfl⟩ | ⟨-, hflag, rfl, rfl⟩ | ⟨hi, rfl, rfl⟩ := hstep
  · rwa [Function.update_eq_self]
  · have honly : ∀ {j}, Function.update holds i true j = true → j = i := fun {j} hj => by
      by_contra hne
      rw [Function.update_of_ne hne] at hj
      rw [h.set.mpr ⟨j, hj⟩] at hflag
      cases hflag
    exact ⟨⟨fun _ => ⟨i, Function.update_self ..⟩, fun _ => rfl⟩,
      fun hj hk => (honly hj).trans (honly hk).symm⟩
  · have hnone : ∀ {j}, Function.update holds i false j ≠ true := fun {j} hj => by
      by_cases hne : j = i
      · subst hne
        rw [Function.update_self] at hj
        cases hj
      · rw [Function.update_of_ne hne] at hj
        exact hne (h.one hj hi)
    exact ⟨⟨nofun, fun ⟨_, hj⟩ => absurd hj hnone⟩, fun hj => absurd hj hnone⟩
