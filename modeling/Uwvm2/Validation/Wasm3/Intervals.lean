import Uwvm2.Lib.Forest
import Uwvm2.Validation.Wasm3.Validator

/-!
# Intervals of the forest of supertypes

The pass links every canonical type to the canonical type of its supertype, walks
over this forest and numbers it. The loops follow the walk of the forest library, so
containment of intervals is the descendant relation (`buildRecords_below`).
-/

namespace Uwvm2.Validation.Wasm3

open Forest Function List

-- Records by index

theorem modify_map_range {α : Type} {f : Nat → α} {g : α → α} :
    ((List.range n).map f).modify i g = (List.range n).map (update f i (g (f i))) := by
  refine ext_getElem? fun j => ?_
  rw [getElem?_modify, getElem?_map, getElem?_map]
  by_cases hj : j < n
  · by_cases hij : i = j
    · subst hij
      simp [hj]
    · simp [hj, hij, update_of_ne (Ne.symm hij)]
  · simp [hj]

theorem getD_map_range {α : Type} {f : Nat → α} {d : α} (hi : i < n) :
    ((List.range n).map f).getD i d = f i := by
  simp [hi]

theorem getD_set {α : Type} {l : List α} {v d : α} (hi : i < l.length) :
    (fun j => (l.set i v).getD j d) = update (fun j => l.getD j d) i v := by
  funext j
  by_cases hij : i = j
  · subst hij
    simp [hi]
  · simp [hij, update_of_ne (Ne.symm hij)]

section Records

variable (definitions : List SubType) (canonical : List Nat)

def recordAt (parents : Nat → Option Nat) (L : Labels) (i : Nat) : RecursiveTypeRecord where
  kind := (definitions.getD i default).kind
  canonical := canonical.getD i 0
  parent := parents i
  preorder := L.pre i
  subtreeEnd := L.fin i

def recordsWith (parents : Nat → Option Nat) (L : Labels) : List RecursiveTypeRecord :=
  (List.range definitions.length).map (recordAt definitions canonical parents L)

/-- The parent of a canonical type is the canonical type of its supertype. -/
def forestParent (i : Nat) : Option Nat :=
  if i < definitions.length ∧ canonical.getD i 0 = i then
    (definitions.getD i default).supertypes.head?.map (canonical.getD · 0)
  else none

variable {definitions canonical} {parents : Nat → Option Nat} {L : Labels} {i : Nat}

@[simp] theorem recordsWith_length :
    (recordsWith definitions canonical parents L).length = definitions.length := by
  simp [recordsWith]

theorem recordsWith_getD (hi : i < definitions.length) :
    (recordsWith definitions canonical parents L).getD i default =
      recordAt definitions canonical parents L i := getD_map_range hi

theorem update_recordAt {parents' : Nat → Option Nat}
    (hself : f (recordAt definitions canonical parents L i) =
      recordAt definitions canonical parents' L' i)
    (hother : ∀ j, j ≠ i → recordAt definitions canonical parents L j =
      recordAt definitions canonical parents' L' j) :
    (recordsWith definitions canonical parents L).modify i f =
      recordsWith definitions canonical parents' L' := by
  rw [recordsWith, modify_map_range, hself]
  refine congrArg (List.map · (List.range definitions.length)) (funext fun j => ?_)
  by_cases hij : j = i
  · subst hij
    simp
  · rw [update_of_ne hij, hother j hij]

theorem recordsWith_parent :
    (recordsWith definitions canonical parents L).modify i (fun r => { r with parent := v }) =
      recordsWith definitions canonical (update parents i v) L := by
  refine update_recordAt ?_ fun j hj => ?_
  · simp [recordAt]
  · simp [recordAt, update_of_ne hj]

theorem recordsWith_enter :
    (recordsWith definitions canonical parents L).modify i (fun r => { r with preorder := clock }) =
      recordsWith definitions canonical parents (L.enter i clock) := by
  refine update_recordAt ?_ fun j hj => ?_
  · simp [recordAt, Labels.enter]
  · simp [recordAt, Labels.enter, update_of_ne hj]

theorem recordsWith_leave : (recordsWith definitions canonical parents L).modify i
        (fun r => { r with subtreeEnd := clock }) =
      recordsWith definitions canonical parents (L.leave i clock) := by
  refine update_recordAt ?_ fun j hj => ?_
  · simp [recordAt, Labels.leave]
  · simp [recordAt, Labels.leave, update_of_ne hj]

theorem zipWith_eq_recordsWith (hlen : canonical.length = definitions.length) :
    List.zipWith (fun type i => ({ kind := type.kind, canonical := i } : RecursiveTypeRecord))
        definitions canonical =
      recordsWith definitions canonical (fun _ => none) ⟨fun _ => 0, fun _ => 0⟩ := by
  refine ext_getElem? fun i => ?_
  rw [getElem?_zipWith, recordsWith, getElem?_map]
  by_cases hi : i < definitions.length
  · have hi' : i < canonical.length := hlen ▸ hi
    simp [hi, hi', recordAt]
  · have hi' : ¬ i < canonical.length := hlen ▸ hi
    simp [hi, hi']

end Records

-- Links

/-- What the checks of single types and interning establish for the forest. -/
structure ForestInput (definitions : List SubType) (canonical : List Nat) : Prop where
  length : canonical.length = definitions.length
  le : ∀ i, canonical.getD i 0 ≤ i
  idem : ∀ {i}, i < definitions.length →
    canonical.getD (canonical.getD i 0) 0 = canonical.getD i 0
  supers_lt : ∀ {i s}, i < definitions.length →
    (definitions.getD i default).supertypes.head? = some s → s < i

section Links

variable {definitions : List SubType} {canonical : List Nat}

theorem forestParent_eq_some : forestParent definitions canonical i = some p ↔
    i < definitions.length ∧ canonical.getD i 0 = i ∧
      ∃ s, (definitions.getD i default).supertypes.head? = some s ∧ canonical.getD s 0 = p := by
  unfold forestParent
  split
  case isTrue h => simp only [Option.map_eq_some_iff, h.1, h.2, true_and]
  case isFalse h => exact ⟨nofun, fun ⟨hi, hc, _⟩ => absurd ⟨hi, hc⟩ h⟩

theorem ForestInput.parent_lt (hF : ForestInput definitions canonical)
    (h : forestParent definitions canonical i = some p) : p < i := by
  obtain ⟨hi, -, s, hs, rfl⟩ := forestParent_eq_some.mp h
  exact Nat.lt_of_le_of_lt (hF.le s) (hF.supers_lt hi hs)

abbrev noLabels : Labels := ⟨fun _ => 0, fun _ => 0⟩

/-- The first `k` types have been linked. -/
structure LinkedUpTo (definitions : List SubType) (canonical : List Nat) (k : Nat)
    (links : ForestLinks) : Prop where
  records : links.records = recordsWith definitions canonical
    (fun i => if i < k then forestParent definitions canonical i else none) noLabels
  firstChild : links.firstChild.length = definitions.length
  nextSibling : links.nextSibling.length = definitions.length
  linked : Linked (forestParent definitions canonical) k (links.firstChild.getD · none)
    (links.nextSibling.getD · none)

theorem LinkedUpTo.step (hF : ForestInput definitions canonical) {k : Nat}
    (h : LinkedUpTo definitions canonical k links) (hk : k < definitions.length) :
    LinkedUpTo definitions canonical (k + 1) (linkType definitions links k) := by
  have hcanonical : ∀ i < definitions.length,
      (links.records.getD i default).canonical = canonical.getD i 0 := fun i hi => by
    rw [h.records, recordsWith_getD hi, recordAt]
  have hparents : ∀ v, forestParent definitions canonical k = v →
      (fun i => if i < k + 1 then forestParent definitions canonical i else none) =
        update (fun i => if i < k then forestParent definitions canonical i else none) k v
      := by
    rintro v rfl
    funext i
    by_cases hik : i = k
    · subst hik
      simp
    · have hiff : i < k + 1 ↔ i < k := by omega
      simp only [update_of_ne hik, hiff]
  -- a type that is not canonical or has no supertype is left alone
  have hskip : forestParent definitions canonical k = none →
      LinkedUpTo definitions canonical (k + 1) links := fun hnone => by
    refine ⟨?_, h.firstChild, h.nextSibling, h.linked.skip hnone⟩
    rw [h.records, hparents none hnone, update_eq_self_iff.mpr (by simp)]
  unfold linkType
  rw [hcanonical k hk]
  split
  case isTrue hne =>
    exact hskip (if_neg fun h => hne h.2)
  case isFalse heq =>
    have heq : canonical.getD k 0 = k := Classical.not_not.mp heq
    split
    case h_1 hsupers =>
      refine hskip ?_
      rw [forestParent, if_pos ⟨hk, heq⟩, hsupers]
      rfl
    case h_2 s rest hsupers =>
      have hhead : (definitions.getD k default).supertypes.head? = some s := by rw [hsupers]; rfl
      have hs : s < definitions.length := (hF.supers_lt hk hhead).trans hk
      have hparent : forestParent definitions canonical k = some (canonical.getD s 0) :=
        forestParent_eq_some.mpr ⟨hk, heq, s, hhead, rfl⟩
      have hp : canonical.getD s 0 < definitions.length := Nat.lt_of_le_of_lt (hF.le s) hs
      simp only [hcanonical s hs]
      refine ⟨?_, by simp [h.firstChild], by simp [h.nextSibling], ?_⟩
      · rw [h.records, recordsWith_parent, hparents _ hparent]
      · rw [getD_set (h.firstChild ▸ hp), getD_set (h.nextSibling ▸ hk)]
        exact h.linked.add hparent

theorem linkForest_linked (hF : ForestInput definitions canonical) :
    LinkedUpTo definitions canonical definitions.length
      (linkForest definitions
        (recordsWith definitions canonical (fun _ => none) noLabels)) := by
  have hrun : ∀ k ≤ definitions.length, LinkedUpTo definitions canonical k
      ((List.range k).foldl (linkType definitions)
        ⟨recordsWith definitions canonical (fun _ => none) noLabels,
          .replicate definitions.length none, .replicate definitions.length none⟩) := by
    intro k
    induction k with
    | zero =>
      intro _
      refine ⟨by simp, by simp, by simp, ?_⟩
      have hnone : (fun i => (List.replicate definitions.length (none : Option Nat)).getD i none) =
          fun _ => none := by
        funext i
        simp [getElem?_replicate]
        split <;> rfl
      simp only [range_zero, foldl_nil, hnone]
      exact linked_zero
    | succ k ih =>
      intro hk
      rw [range_succ, foldl_append]
      exact (ih (Nat.le_of_succ_le hk)).step hF hk
  have hall := hrun definitions.length (Nat.le_refl _)
  simpa [linkForest] using hall

theorem siblings_eq {nextSibling : List (Option Nat)} (h : Chain (nextSibling.getD · none) start l)
    (hfuel : l.length ≤ fuel) : siblings nextSibling fuel start = l := by
  induction h generalizing fuel with
  | nil => cases fuel <;> rfl
  | cons _ ih =>
    cases fuel with
    | zero => cases hfuel
    | succ fuel => rw [siblings, ih (Nat.le_of_succ_le_succ hfuel)]

theorem LinkedUpTo.children_eq {links : ForestLinks}
    (h : LinkedUpTo definitions canonical definitions.length links) :
    links.children =
      Forest.children (forestParent definitions canonical) definitions.length := by
  funext i
  have hlen : links.records.length = definitions.length := by rw [h.records, recordsWith_length]
  rw [ForestLinks.children, hlen]
  exact siblings_eq (h.linked i) children_length

end Links

-- Visits

section Visits

variable {definitions : List SubType} {canonical : List Nat} {parents : Nat → Option Nat}

/-- The loop visits the trees on top of its stack; a tree takes two rounds for each node. -/
theorem visitLoop_walk (h : Walk ch is c L c' L') (fuel : Nat) (stack : List Visit) :
    visitLoop ch (2 * (c' - c) + fuel) (is.map (⟨·, false⟩) ++ stack)
        (c, recordsWith definitions canonical parents L) =
      visitLoop ch fuel stack (c', recordsWith definitions canonical parents L') := by
  induction h generalizing fuel stack with
  | nil => simp
  | @cons i c c₁ c₂ is L L₁ L₂ htree hrest ihtree ihrest =>
    have hfuel : 2 * (c₂ - c) + fuel =
        2 * (c₁ - (c + 1)) + (2 * (c₂ - c₁) + fuel + 1) + 1 := by
      have hle₁ := htree.le
      have hle₂ := hrest.le
      omega
    rw [hfuel, map_cons, cons_append, visitLoop, if_neg Bool.false_ne_true,
      recordsWith_enter, ihtree, visitLoop, if_pos rfl, recordsWith_leave, ihrest]

theorem visitLoop_nil : visitLoop ch fuel [] st = st := by
  cases fuel <;> rfl

abbrev forestChildren (definitions : List SubType) (canonical : List Nat) : Nat → List Nat :=
  Forest.children (forestParent definitions canonical) definitions.length

def isRoot (definitions : List SubType) (canonical : List Nat) (i : Nat) : Bool :=
  canonical.getD i 0 = i ∧ forestParent definitions canonical i = none

theorem mem_forestChildren : forestParent definitions canonical x = some i ↔
    x ∈ forestChildren definitions canonical i := by
  rw [mem_children]
  exact ⟨fun h => ⟨(forestParent_eq_some.mp h).1, h⟩, fun h => h.2⟩

theorem under_lt (his : ∀ i ∈ is, i < definitions.length)
    (h : Under (forestParent definitions canonical) is x) : x < definitions.length := by
  obtain ⟨i, hi, hx⟩ := h
  rcases below_iff_head.mp hx with rfl | ⟨p, hp, -⟩
  · exact his x hi
  · exact (forestParent_eq_some.mp hp).1

/-- The visits from the roots among `is`, each with enough fuel, make up a walk. -/
theorem foldl_visitRoot (hF : ForestInput definitions canonical) {is : List Nat}
    (his : ∀ i ∈ is, i < definitions.length)
    (h : Walk (forestChildren definitions canonical) (is.filter (isRoot definitions canonical))
      c L c' L') :
    is.foldl (visitRoot (forestChildren definitions canonical))
        (c, recordsWith definitions canonical (forestParent definitions canonical) L) =
      (c', recordsWith definitions canonical (forestParent definitions canonical) L') := by
  induction is generalizing c L with
  | nil =>
    cases h
    rfl
  | cons i is ih =>
    have hi : i < definitions.length := his i mem_cons_self
    have hrest : ∀ j ∈ is, j < definitions.length := fun j hj => his j (mem_cons_of_mem _ hj)
    rw [foldl_cons, visitRoot, recordsWith_getD hi]
    by_cases hroot : canonical.getD i 0 = i ∧ forestParent definitions canonical i = none
    · rw [filter_cons_of_pos (by simpa [isRoot] using hroot)] at h
      obtain ⟨c₁, L₁, htree, hwalk⟩ := h.head
      have hlabelled : Labelled (forestParent definitions canonical) [i] c L c₁ L₁ :=
        htree.labelled hF.parent_lt (fun _ _ => mem_forestChildren) (fun _ => children_nodup)
          (pairwise_singleton _ _)
      have hticks : c₁ - c ≤ definitions.length :=
        hlabelled.ticks_le fun x hx => under_lt (by simpa using hi) hx
      have hfuel : 2 * definitions.length =
          2 * (c₁ - c) + (2 * definitions.length - 2 * (c₁ - c)) := by omega
      have hvisit : visitLoop (forestChildren definitions canonical) (2 * definitions.length)
          [⟨i, false⟩] (c, recordsWith definitions canonical
            (forestParent definitions canonical) L) =
          (c₁, recordsWith definitions canonical (forestParent definitions canonical) L₁) := by
        rw [hfuel]
        exact (visitLoop_walk htree _ []).trans visitLoop_nil
      rw [if_neg (by simpa [recordAt] using hroot), recordsWith_length, hvisit]
      exact ih hrest hwalk
    · rw [filter_cons_of_neg (by simpa [isRoot] using hroot)] at h
      have hskip : (recordAt definitions canonical (forestParent definitions canonical)
          L i).canonical ≠
          i ∨ (recordAt definitions canonical (forestParent definitions canonical) L
            i).parent ≠ none :=
        Classical.not_and_iff_not_or_not.mp hroot
      rw [if_pos hskip]
      exact ih hrest h

abbrev forestRoots (definitions : List SubType) (canonical : List Nat) : List Nat :=
  (List.range definitions.length).filter (isRoot definitions canonical)

theorem under_roots (hF : ForestInput definitions canonical) (hi : i < definitions.length)
    (hc : canonical.getD i 0 = i) :
    Under (forestParent definitions canonical) (forestRoots definitions canonical) i := by
  induction i using Nat.strongRecOn with
  | _ i ih =>
    cases hp : forestParent definitions canonical i with
    | none =>
      refine ⟨i, mem_filter.mpr ⟨mem_range.mpr hi, ?_⟩, .refl⟩
      simpa [isRoot] using ⟨hc, hp⟩
    | some p =>
      have hlt := hF.parent_lt hp
      obtain ⟨-, -, s, hs, rfl⟩ := forestParent_eq_some.mp hp
      have hsn : s < definitions.length := (hF.supers_lt hi hs).trans hi
      exact (ih _ hlt (hlt.trans hi) (hF.idem hsn)).of_below (.single hp)

theorem canonical_of_under (h : Under (forestParent definitions canonical)
    (forestRoots definitions canonical) x) : x < definitions.length ∧ canonical.getD x 0 = x := by
  obtain ⟨i, hi, hx⟩ := h
  rcases below_iff_head.mp hx with rfl | ⟨p, hp, -⟩
  · obtain ⟨hlt, hroot⟩ := mem_filter.mp hi
    simp only [isRoot, decide_eq_true_eq] at hroot
    exact ⟨mem_range.mp hlt, hroot.1⟩
  · obtain ⟨hlt, hcx, -⟩ := forestParent_eq_some.mp hp
    exact ⟨hlt, hcx⟩

theorem under_canonical (hF : ForestInput definitions canonical) (hi : i < definitions.length) :
    Under (forestParent definitions canonical)
      (forestRoots definitions canonical) (canonical.getD i 0) :=
  under_roots hF (Nat.lt_of_le_of_lt (hF.le i) hi) (hF.idem hi)

/-- The records before they are copied to the types that are not canonical: the numbers
are those of a walk over the forest. -/
theorem assignIntervals_spec (hF : ForestInput definitions canonical) :
    ∃ (c : Nat) (L : Labels), assignIntervals (linkForest definitions
        (recordsWith definitions canonical (fun _ => none) noLabels)) =
      recordsWith definitions canonical (forestParent definitions canonical) L ∧
      Labelled (forestParent definitions canonical) (forestRoots definitions canonical)
        0 noLabels c L := by
  have hlinks := linkForest_linked hF
  have hrecords : (linkForest definitions
      (recordsWith definitions canonical (fun _ => none) noLabels)).records =
      recordsWith definitions canonical (forestParent definitions canonical) noLabels := by
    have hparents : (fun i => if i < definitions.length then forestParent definitions canonical i
        else none) = forestParent definitions canonical := by
      funext i
      split
      case isTrue => rfl
      case isFalse h => exact (if_neg fun hi => h hi.1).symm
    rw [hlinks.records, hparents]
  have hroots : ∀ i ∈ forestRoots definitions canonical, i < definitions.length := fun i hi =>
    mem_range.mp (mem_filter.mp hi).1
  have hch : ∀ i, ∀ j ∈ forestChildren definitions canonical i, i < j ∧ j < definitions.length :=
    fun i j hj => ⟨hF.parent_lt (mem_children.mp hj).2, (mem_children.mp hj).1⟩
  obtain ⟨c, L, hwalk⟩ := exists_walk hch hroots 0 noLabels
  have hsep : Separate (forestParent definitions canonical)
      (forestRoots definitions canonical) := by
    refine separate_of_same_parent hF.parent_lt (nodup_range.filter _) (p := none) ?_
    intro i hi
    have hroot := (mem_filter.mp hi).2
    simp only [isRoot, decide_eq_true_eq] at hroot
    exact hroot.2
  refine ⟨c, L, ?_, hwalk.labelled hF.parent_lt (fun _ _ => mem_forestChildren)
    (fun _ => children_nodup) hsep⟩
  rw [assignIntervals, hlinks.children_eq, hrecords, recordsWith_length,
    foldl_visitRoot hF (fun i hi => mem_range.mp hi) hwalk]

theorem copyCanonical_recordsWith (hF : ForestInput definitions canonical) :
    copyCanonical (recordsWith definitions canonical parents L) =
      recordsWith definitions canonical (fun i => parents (canonical.getD i 0))
        ⟨fun i => L.pre (canonical.getD i 0), fun i => L.fin (canonical.getD i 0)⟩ := by
  refine ext_getElem? fun i => ?_
  rw [copyCanonical, getElem?_map]
  by_cases hi : i < definitions.length
  · have hlt : canonical.getD i 0 < definitions.length := Nat.lt_of_le_of_lt (hF.le i) hi
    have hget : ∀ p L', (recordsWith definitions canonical p L')[i]? =
        some (recordAt definitions canonical p L' i) := fun p L' => by simp [recordsWith, hi]
    rw [hget, hget, Option.map_some]
    simp only [recordAt, recordsWith_getD hlt]
  · simp [recordsWith, hi]

end Visits

/-- The context that the pass builds: every type has the numbers that a walk over the
forest gives to its canonical type. -/
theorem buildContext_spec
    (hF : ForestInput typeSection.definitions (canonicalIndices typeSection.groups)) :
    ∃ (parents : Nat → Option Nat) (c : Nat) (L : Labels), (buildContext typeSection).records =
        recordsWith typeSection.definitions (canonicalIndices typeSection.groups) parents
          ⟨fun i => L.pre ((canonicalIndices typeSection.groups).getD i 0),
            fun i => L.fin ((canonicalIndices typeSection.groups).getD i 0)⟩ ∧
      Labelled (forestParent typeSection.definitions (canonicalIndices typeSection.groups))
        (forestRoots typeSection.definitions (canonicalIndices typeSection.groups)) 0
          noLabels c L := by
  obtain ⟨c, L, hrecords, hlabelled⟩ := assignIntervals_spec hF
  refine ⟨fun i => forestParent typeSection.definitions (canonicalIndices typeSection.groups)
    ((canonicalIndices typeSection.groups).getD i 0), c, L, ?_, hlabelled⟩
  simp only [buildContext, zipWith_eq_recordsWith hF.length]
  rw [hrecords, copyCanonical_recordsWith hF]

end Uwvm2.Validation.Wasm3
