import Mathlib

/-!
# Free lists with back pointers

A list of free cells together with the place that each cell knows it has in the list. A
cell is appended or taken from the end; when a cell is erased in the middle, the cells
behind it move up and their places are written again.
-/

variable {free : List Nat} {pos : Nat → Option Nat} {p j : Nat}

/-- The cells of the list know their places, and no other cell has one. -/
def BackPointers (free : List Nat) (pos : Nat → Option Nat) : Prop :=
  ∀ ⦃p j⦄, free[p]? = some j ↔ pos j = some p

namespace BackPointers

theorem nodup (h : BackPointers free pos) : free.Nodup := by
  refine List.nodup_iff_getElem?_ne_getElem?.mpr fun a b hab hb heq => ?_
  have hb' := List.getElem?_eq_getElem hb
  have ha := h.mp (heq.trans hb')
  exact absurd (Option.some.inj (ha.symm.trans (h.mp hb'))) (Nat.ne_of_lt hab)

theorem push (h : BackPointers free pos) (hj : pos j = none) :
    BackPointers (free ++ [j]) (Function.update pos j (some free.length)) := by
  intro q k
  by_cases hk : k = j
  · subst hk
    rw [Function.update_self, List.getElem?_append]
    split
    case isTrue hlt =>
      rw [h, hj]
      exact iff_of_false nofun fun heq => absurd (Option.some.inj heq) (by omega)
    case isFalse hge =>
      rw [List.getElem?_singleton, Option.some.injEq]
      constructor
      · intro heq
        split at heq
        · omega
        · cases heq
      · rintro rfl
        simp
  · rw [Function.update_of_ne hk, ← h, List.getElem?_append]
    split
    case isTrue => rfl
    case isFalse hge =>
      rw [List.getElem?_eq_none (Nat.le_of_not_lt hge), List.getElem?_singleton]
      exact iff_of_false (by split <;> simp [Ne.symm hk]) nofun

theorem pop (h : BackPointers (free ++ [j]) pos) :
    BackPointers free (Function.update pos j none) := by
  have hlast : pos j = some free.length := h.mp (by simp)
  intro q k
  by_cases hk : k = j
  · subst hk
    rw [Function.update_self]
    refine iff_of_false (fun hq => ?_) nofun
    obtain ⟨hlt, -⟩ := List.getElem?_eq_some_iff.mp hq
    have hq' := h.mp ((List.getElem?_append_left hlt).trans hq)
    rw [hlast, Option.some.injEq] at hq'
    omega
  · rw [Function.update_of_ne hk, ← h, List.getElem?_append]
    split
    case isTrue => rfl
    case isFalse hge =>
      rw [List.getElem?_eq_none (Nat.le_of_not_lt hge), List.getElem?_singleton]
      exact iff_of_false nofun (by split <;> simp [Ne.symm hk])

end BackPointers

-- Erasing a cell

def writePlace (pos : Nat → Option Nat) (cell : Nat × Nat) : Nat → Option Nat :=
  Function.update pos cell.1 (some cell.2)

/-- Write the places of the cells from `start` on. -/
def refix (free : List Nat) (start : Nat) (pos : Nat → Option Nat) : Nat → Option Nat :=
  (free.zipIdx.drop start).foldl writePlace pos

theorem foldl_writePlace_of_not_mem {cells : List (Nat × Nat)} (hk : k ∉ cells.map Prod.fst) :
    cells.foldl writePlace pos k = pos k := by
  induction cells generalizing pos with
  | nil => rfl
  | cons cell cells ih =>
    simp only [List.map_cons, List.mem_cons, not_or] at hk
    rw [List.foldl_cons, ih hk.2, writePlace, Function.update_of_ne hk.1]

theorem foldl_writePlace_of_mem {cells : List (Nat × Nat)} (hnodup : (cells.map Prod.fst).Nodup)
    (hk : (k, i) ∈ cells) : cells.foldl writePlace pos k = some i := by
  induction cells generalizing pos with
  | nil => cases hk
  | cons cell cells ih =>
    rw [List.map_cons, List.nodup_cons] at hnodup
    rw [List.foldl_cons]
    rcases List.mem_cons.mp hk with rfl | hk
    · rw [foldl_writePlace_of_not_mem hnodup.1, writePlace, Function.update_self]
    · exact ih hnodup.2 hk

theorem mem_drop_zipIdx : (k, i) ∈ free.zipIdx.drop start ↔ start ≤ i ∧ free[i]? = some k := by
  rw [List.mem_iff_getElem?]
  simp only [List.getElem?_drop, List.getElem?_zipIdx, Nat.zero_add, Option.map_eq_some_iff,
    Prod.mk.injEq]
  constructor
  · rintro ⟨n, a, ha, rfl, rfl⟩
    exact ⟨Nat.le_add_right _ _, ha⟩
  · rintro ⟨hle, hk⟩
    exact ⟨i - start, k, by rwa [Nat.add_sub_cancel' hle], rfl, Nat.add_sub_cancel' hle⟩

theorem map_fst_drop_zipIdx : (free.zipIdx.drop start).map Prod.fst = free.drop start := by
  rw [List.map_drop, List.zipIdx_map_fst]

/-- A cell leaves the list from the middle: those behind it move up. -/
theorem BackPointers.erase (h : BackPointers free pos) (hp : free[p]? = some j) :
    BackPointers (free.eraseIdx p) (Function.update (refix (free.eraseIdx p) p pos) j none) := by
  have hnodup : (free.eraseIdx p).Nodup := h.nodup.sublist (List.eraseIdx_sublist _ _)
  have hcells : (((free.eraseIdx p).zipIdx.drop p).map Prod.fst).Nodup := by
    rw [map_fst_drop_zipIdx]
    exact hnodup.sublist (List.drop_sublist _ _)
  have hj := h.mp hp
  intro q k
  by_cases hk : k = j
  · -- the cell itself is nowhere in the list any more
    subst hk
    rw [Function.update_self, List.getElem?_eraseIdx]
    refine iff_of_false (fun hq => ?_) nofun
    split at hq <;>
    · have hq' := Option.some.inj (hj.symm.trans (h.mp hq))
      omega
  · rw [Function.update_of_ne hk]
    by_cases hmoved : ∃ i, p ≤ i ∧ (free.eraseIdx p)[i]? = some k
    · obtain ⟨i, hi, hget⟩ := hmoved
      have hpos : refix (free.eraseIdx p) p pos k = some i :=
        foldl_writePlace_of_mem hcells (mem_drop_zipIdx.mpr ⟨hi, hget⟩)
      rw [hpos, Option.some.injEq]
      constructor
      · intro hq
        obtain ⟨hlt, -⟩ := List.getElem?_eq_some_iff.mp hget
        exact (List.getElem?_inj hlt hnodup).mp (hget.trans hq.symm)
      · rintro rfl
        exact hget
    · have hpos : refix (free.eraseIdx p) p pos k = pos k := by
        refine foldl_writePlace_of_not_mem fun hmem => hmoved ?_
        rw [map_fst_drop_zipIdx] at hmem
        obtain ⟨n, hn⟩ := List.mem_iff_getElem?.mp hmem
        exact ⟨p + n, Nat.le_add_right _ _, by rwa [List.getElem?_drop] at hn⟩
      rw [hpos, ← h]
      constructor
      · intro hq
        have hlt : q < p := by
          by_contra hge
          exact hmoved ⟨q, Nat.le_of_not_lt hge, hq⟩
        rwa [List.getElem?_eraseIdx, if_pos hlt] at hq
      · intro hq
        rw [List.getElem?_eraseIdx]
        split
        case isTrue => exact hq
        case isFalse hge =>
          have hne : q ≠ p := fun heq => hk (Option.some.inj ((heq ▸ hq).symm.trans hp))
          refine absurd ⟨q - 1, by omega, ?_⟩ hmoved
          rw [List.getElem?_eraseIdx, if_neg (by omega), Nat.sub_add_cancel (by omega)]
          exact hq
