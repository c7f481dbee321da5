import Mathlib

/-!
# Chains of import aliases

An imported record is an alias of the record that it was linked to, which may be imported as
well. A cycle of aliases is looked for by two pointers that follow the chain at different
speeds. Where there is none, the walk to the end of the chain ends.
-/

namespace Uwvm2.Loader

open Function

structure ImportRecords (R : Type) where
  isImported : R → Bool
  importedPtr : R → Option R

namespace ImportRecords

variable {R : Type} (rs : ImportRecords R)

def nextImported (curr : R) : Option R :=
  if rs.isImported curr then rs.importedPtr curr else none

/-- At most `fuel` rounds; whether `on_cycle`, which does not return, is called. -/
def checkNoImportAliasCycleFloyd [DecidableEq R] : Nat → Option R → Option R → Option Bool
  | 0, _, _ => none
  | fuel + 1, slow, fast =>
    if slow = none ∨ fast = none then some false
    else
      let slow := slow.bind rs.nextImported
      let fast := (fast.bind rs.nextImported).bind rs.nextImported
      if slow = none ∨ fast = none then some false
      else if slow = fast then some true
      else checkNoImportAliasCycleFloyd fuel slow fast

/-- At most `fuel` rounds; the leaf, or null after a call of `on_null`. -/
def walkImportAliasChainLeaf : Nat → Option R → Option (Option R)
  | 0, _ => none
  | _, none => some none
  | fuel + 1, some curr =>
    if rs.isImported curr then
      match rs.nextImported curr with
      | none => some none
      | some next => walkImportAliasChainLeaf fuel (some next)
    else some (some curr)

def follow (start : R) (n : Nat) : Option R := (·.bind rs.nextImported)^[n] (some start)

variable {rs} {start leaf : R}

theorem follow_add (m n : Nat) : rs.follow start (m + n) =
    (·.bind rs.nextImported)^[m] (rs.follow start n) := iterate_add_apply _ _ _ _

theorem follow_succ (n : Nat) :
    rs.follow start (n + 1) = (rs.follow start n).bind rs.nextImported :=
  iterate_succ_apply' _ _ _

theorem follow_none (h : rs.follow start m = none) (hle : m ≤ n) : rs.follow start n = none := by
  induction n, hle using Nat.le_induction with
  | base => exact h
  | succ n _ ih => rw [follow_succ, ih, Option.bind_none]

theorem follow_two_mul (h : rs.follow start (2 * n) ≠ none) :
    rs.follow start n ≠ none := fun hnone => h (follow_none hnone (by omega))

-- The search for a cycle

/-- The pointers meet after `k` rounds where `k` steps lead round the cycle. -/
theorem meet_iff : rs.follow start k = rs.follow start (2 * k) ↔
    IsPeriodicPt (·.bind rs.nextImported) k (rs.follow start k) := by
  rw [two_mul, follow_add, eq_comm]
  rfl

theorem follow_ne_none (hk : 0 < k) (hsome : rs.follow start (2 * k) ≠ none)
    (hmeet : rs.follow start k = rs.follow start (2 * k)) (n : Nat) : rs.follow start n ≠ none := by
  intro hnone
  have hround : rs.follow start (n * k + k) = rs.follow start k := by
    rw [follow_add]
    exact (meet_iff.mp hmeet).const_mul n
  have hlater : n ≤ n * k + k := Nat.le_add_right_of_le (Nat.le_mul_of_pos_right n hk)
  exact follow_two_mul hsome (hround ▸ follow_none hnone hlater)

/-- After `k` rounds the pointers have met or the faster one is null. -/
def Stops (rs : ImportRecords R) (start : R) (k : Nat) : Prop :=
  0 < k ∧ (rs.follow start (2 * k) ≠ none →
    rs.follow start k = rs.follow start (2 * k))

theorem exists_stops [Finite R] (rs : ImportRecords R) (start : R) : ∃ k, rs.Stops start k := by
  -- two steps lead to the same pointer, and from there on the chain is periodic
  obtain ⟨i, j, hlt, heq⟩ := Set.finite_univ.exists_lt_map_eq_of_forall_mem
    (fun n => Set.mem_univ (rs.follow start n))
  have hp : 0 < j - i := Nat.sub_pos_of_lt hlt
  have hperiod : IsPeriodicPt (·.bind rs.nextImported) (j - i) (rs.follow start i) := by
    rw [IsPeriodicPt, IsFixedPt, ← follow_add, Nat.sub_add_cancel hlt.le, heq]
  obtain ⟨d, hd⟩ := Nat.exists_eq_add_of_le'
    (Nat.le_of_succ_le (Nat.le_mul_of_pos_right (i + 1) hp))
  have hmeet := (hperiod.apply_iterate d).const_mul (i + 1)
  rw [← follow_add, ← hd] at hmeet
  exact ⟨_, Nat.mul_pos i.succ_pos hp, fun _ => meet_iff.mpr hmeet⟩

theorem checkNoImportAliasCycleFloyd_eq [DecidableEq R] (hk : rs.Stops start k)
    (hfirst : ∀ m < k, ¬ rs.Stops start m) (hn : n < k) (hfuel : k ≤ fuel + n) :
    rs.checkNoImportAliasCycleFloyd fuel (rs.follow start n)
      (rs.follow start (2 * n)) = some (rs.follow start (2 * k)).isSome := by
  induction fuel generalizing n with
  | zero => omega
  | succ fuel ih =>
    have hfast : rs.follow start (2 * n) ≠ none := fun hnone => by
      rcases Nat.eq_zero_or_pos n with rfl | hpos
      · cases hnone
      · exact hfirst n hn ⟨hpos, absurd hnone⟩
    have htwo : 2 * (n + 1) = 2 * n + 1 + 1 := rfl
    simp only [checkNoImportAliasCycleFloyd, follow_two_mul hfast, hfast, or_self, if_false,
      ← follow_succ, ← htwo]
    rcases Nat.lt_or_eq_of_le (Nat.succ_le_of_lt hn) with hlt | rfl
    · obtain ⟨hsome, hne⟩ := Classical.not_imp.mp (not_and.mp (hfirst _ hlt) n.succ_pos)
      rw [if_neg (not_or.mpr ⟨follow_two_mul hsome, hsome⟩), if_neg hne]
      exact ih hlt (by omega)
    · cases hlast : rs.follow start (2 * (n + 1)) with
      | none => simp
      | some r => simp [hlast ▸ hk.2 (by simp [hlast])]

-- The walk

theorem exists_last (h : rs.follow start n = none) :
    ∃ m leaf, rs.follow start m = some leaf ∧ rs.nextImported leaf = none := by
  induction n with
  | zero => cases h
  | succ n ih =>
    cases hn : rs.follow start n with
    | none => exact ih hn
    | some leaf =>
      rw [follow_succ, hn] at h
      exact ⟨n, leaf, hn, h⟩

theorem walkImportAliasChainLeaf_eq (hleaf : rs.follow start m = some leaf)
    (hlast : rs.nextImported leaf = none) (hcurr : rs.follow start n = some curr) (hle : n ≤ m)
    (hfuel : m < fuel + n) :
    rs.walkImportAliasChainLeaf fuel (some curr) =
      some (if rs.isImported leaf then none else some leaf) := by
  induction fuel generalizing n curr with
  | zero => omega
  | succ fuel ih =>
    rw [walkImportAliasChainLeaf]
    rcases Nat.lt_or_eq_of_le hle with hlt | rfl
    · have hnext : rs.follow start (n + 1) = rs.nextImported curr := by
        rw [follow_succ, hcurr, Option.bind_some]
      cases hr : rs.nextImported curr with
      | none => cases (follow_none (hnext.trans hr) hlt).symm.trans hleaf
      | some next =>
        have himported : rs.isImported curr = true := by
          by_contra hno
          simp [nextImported, hno] at hr
        rw [if_pos himported]
        exact ih (hnext.trans hr) hlt (by omega)
    · cases hcurr.symm.trans hleaf
      simp only [hlast]
      split <;> rfl

/-- The check ends, and calls `on_cycle` exactly when following the aliases never ends. Where it
does not, the walk ends at the last record of the chain, or reports that this is an alias whose
target is null. -/
theorem checkNoImportAliasCycleFloyd_iff [Finite R] [DecidableEq R] (rs : ImportRecords R)
    (start : R) :
    ∃ called least, (∀ fuel, least ≤ fuel →
        rs.checkNoImportAliasCycleFloyd fuel (some start) (some start) = some called) ∧
      (called = true ↔ ∀ n, rs.follow start n ≠ none) ∧
      (called = false → ∃ m leaf, rs.follow start m = some leaf ∧
        rs.nextImported leaf = none ∧ ∀ fuel, m < fuel →
          rs.walkImportAliasChainLeaf fuel (some start) =
            some (if rs.isImported leaf then none else some leaf)) := by
  classical
  have hex := exists_stops rs start
  have hk := Nat.find_spec hex
  refine ⟨_, _, fun fuel hfuel =>
    checkNoImportAliasCycleFloyd_eq hk (fun m => Nat.find_min hex) hk.1 hfuel, ?_, fun hend => ?_⟩
  · rw [Option.isSome_iff_ne_none]
    exact ⟨fun hsome => follow_ne_none hk.1 hsome (hk.2 hsome), fun h => h _⟩
  · rw [Option.isSome_eq_false_iff, Option.isNone_iff_eq_none] at hend
    obtain ⟨m, leaf, hleaf, hlast⟩ := exists_last hend
    exact ⟨m, leaf, hleaf, hlast, fun fuel hfuel =>
      walkImportAliasChainLeaf_eq hleaf hlast (n := 0) rfl m.zero_le hfuel⟩

def selfAlias : ImportRecords Bool := ⟨fun _ => true, fun _ => some true⟩

theorem checkNoImportAliasCycleFloyd_selfAlias :
    selfAlias.checkNoImportAliasCycleFloyd 1 (some false) (some false) = some true ∧
      ∃ called least, (∀ fuel, least ≤ fuel →
          selfAlias.checkNoImportAliasCycleFloyd fuel (some false) (some false) = some called) ∧
        (called = true ↔ ∀ n, selfAlias.follow false n ≠ none) := by
  obtain ⟨called, least, hcheck, hiff, -⟩ := checkNoImportAliasCycleFloyd_iff selfAlias false
  exact ⟨by decide, called, least, hcheck, hiff⟩

end ImportRecords

end Uwvm2.Loader
