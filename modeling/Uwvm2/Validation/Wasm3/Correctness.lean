import Uwvm2.Validation.Wasm3.Checks
import Uwvm2.Validation.Wasm3.Interning
import Uwvm2.Validation.Wasm3.Intervals

/-!
# Validation of type sections is correct

A consistent section is accepted exactly when it denotes valid recursive groups. The
checks of single types say that the groups are locally valid (`checkGroups_iff`); then
the context describes the closed types (`LocallyValid.describes`), and the last loop
compares composites as the standard does.
-/

namespace Uwvm2.Validation.Wasm3

open List Option

open Forest (Below)

-- Local validity

/-- What can be said of the definition `t` of type `i` without comparing it to its
supertype. -/
structure LocalDef (visible : Nat) (defs : List (TypeDef HeapRef)) (i : Nat)
    (t : TypeDef HeapRef) : Prop where
  scope : ∀ h ∈ t.composite.heaps, h.InScope visible
  supers : t.supers.length ≤ 1
  super : ∀ s ∈ t.supers, ∃ p t', s = .index p ∧ p < i ∧ defs[p]? = some t' ∧
    t'.isFinal = false ∧ t.composite.kind = t'.composite.kind

def LocallyValid (gs : List (List (TypeDef HeapRef))) : Prop :=
  ∀ ⦃before g after⦄, gs = before ++ g :: after → ∀ ⦃pos t⦄, g[pos]? = some t →
    LocalDef (before.flatten.length + g.length) gs.flatten (before.flatten.length + pos) t

theorem SubType.denote?_eq_some {type : SubType} :
    type.denote? = some t ↔ type.composite? = some t.composite ∧ type.final_ = t.isFinal ∧
      type.supertypes.map .index = t.supers := by
  obtain ⟨isFinal, supers, composite⟩ := t
  simp only [SubType.denote?, map_eq_some_iff, TypeDef.mk.injEq]
  constructor
  · rintro ⟨c, hc, hfinal, hsupers, rfl⟩
    exact ⟨hc, hfinal, hsupers⟩
  · rintro ⟨hc, hfinal, hsupers⟩
    exact ⟨composite, hc, hfinal, hsupers, rfl⟩

theorem forall₂_getElem? {α β : Type} {R : α → β → Prop} {as : List α} {bs : List β}
    (h : List.Forall₂ R as bs) {i : Nat} {b : β} (hb : bs[i]? = some b) :
    ∃ a, as[i]? = some a ∧ R a b := by
  obtain ⟨hi, rfl⟩ := List.getElem?_eq_some_iff.mp hb
  have hi' : i < as.length := h.length_eq ▸ hi
  exact ⟨as[i], getElem?_eq_getElem hi', (List.forall₂_iff_get.mp h).2 i hi' hi⟩

section Denotes

variable {definitions : List SubType} {defs : List (TypeDef HeapRef)}
  (hdefs : List.Forall₂ (fun a b => SubType.denote? a = some b) definitions defs)

include hdefs

theorem denote?_getD {i : Nat} {t : TypeDef HeapRef} (h : defs[i]? = some t) :
    (definitions.getD i default).denote? = some t := by
  obtain ⟨type, htype, ht⟩ := forall₂_getElem? hdefs h
  rwa [getD_eq_getElem?_getD, htype, getD_some]

theorem checkType_iff {type : SubType} (ht : type.denote? = some t) (hi : i ≤ defs.length) :
    checkType definitions visible i type = .ok () ↔ LocalDef visible defs i t := by
  obtain ⟨hc, -, hsupers⟩ := SubType.denote?_eq_some.mp ht
  obtain ⟨hkind, -⟩ := SubType.composite?_eq_some.mp hc
  have hlen : t.supers.length = type.supertypes.length := by rw [← hsupers, length_map]
  -- the records of earlier indices denote the definitions
  have hrecord : ∀ {p}, p < i → ∃ t', defs[p]? = some t' ∧
      (definitions.getD p default).final_ = t'.isFinal ∧
      (definitions.getD p default).kind = t'.composite.kind := by
    intro p hp
    have hget := getElem?_eq_getElem (Nat.lt_of_lt_of_le hp hi)
    obtain ⟨hc', hfinal, -⟩ := SubType.denote?_eq_some.mp (denote?_getD hdefs hget)
    exact ⟨_, hget, hfinal, (SubType.composite?_eq_some.mp hc').1⟩
  rw [checkType_ok]
  constructor
  · rintro ⟨c, hc', hscope, hle, hsuper⟩
    obtain rfl := some.inj (hc.symm.trans hc')
    refine ⟨hscope, hlen ▸ hle, fun s hs => ?_⟩
    rw [← hsupers] at hs
    obtain ⟨p, hp, rfl⟩ := mem_map.mp hs
    obtain ⟨hlt, hfinal, hk⟩ := hsuper p hp
    obtain ⟨t', hget, hfinal', hk'⟩ := hrecord hlt
    exact ⟨p, t', rfl, hlt, hget, hfinal' ▸ hfinal, hkind ▸ hk' ▸ hk⟩
  · rintro ⟨hscope, hle, hsuper⟩
    refine ⟨t.composite, hc, hscope, hlen ▸ hle, fun p hp => ?_⟩
    obtain ⟨_, t', heq, hlt, hget, hfinal, hk⟩ :=
      hsuper (.index p) (hsupers ▸ mem_map_of_mem hp)
    cases heq
    obtain ⟨t'', hget', hfinal', hk'⟩ := hrecord hlt
    obtain rfl := some.inj (hget.symm.trans hget')
    exact ⟨hlt, hfinal'.trans hfinal, hkind.trans (hk.trans hk'.symm)⟩

theorem checkGroup_iff (hg : group.denote? = some g)
    (hfits : group.firstTypeIndex + g.length ≤ defs.length) :
    checkGroup definitions group = .ok () ↔ ∀ ⦃pos t⦄, g[pos]? = some t →
      LocalDef (group.firstTypeIndex + g.length) defs (group.firstTypeIndex + pos) t := by
  have hlen := RecursiveGroup.denote?_length hg
  have htypes := List.forall₂_iff_get.mp (mapM_eq_some.mp hg)
  simp only [checkGroup, forM_ok, mapError_ok, hlen]
  constructor
  · intro h pos t ht
    obtain ⟨hpos, rfl⟩ := List.getElem?_eq_some_iff.mp ht
    have hpos' : pos < group.types.length := hlen ▸ hpos
    refine (checkType_iff hdefs (htypes.2 pos hpos' hpos) (by omega)).mp
      (h (group.types.get ⟨pos, hpos'⟩, group.firstTypeIndex + pos) ?_)
    simp [mk_mem_zipIdx_iff_le_and_getElem?_sub]
  · rintro h ⟨type, i⟩ hmem
    obtain ⟨hle, hget⟩ := mk_mem_zipIdx_iff_le_and_getElem?_sub.mp hmem
    obtain ⟨hpos, rfl⟩ := List.getElem?_eq_some_iff.mp hget
    have hpos' : i - group.firstTypeIndex < g.length := hlen ▸ hpos
    refine (checkType_iff hdefs (htypes.2 _ hpos hpos') (by omega)).mpr ?_
    have hlocal := h (getElem?_eq_getElem hpos')
    rwa [Nat.add_sub_cancel' hle] at hlocal

end Denotes

theorem forall₂_split {α β : Type} {R : α → β → Prop} {as before after : List α} {a : α}
    {bs : List β} (h : List.Forall₂ R as bs) (hsplit : as = before ++ a :: after) :
    ∃ before' b after', bs = before' ++ b :: after' ∧ List.Forall₂ R before before' ∧ R a b := by
  subst hsplit
  induction before generalizing bs with
  | nil =>
    obtain ⟨b, bs', hb, -, rfl⟩ := List.forall₂_cons_left_iff.mp h
    exact ⟨[], b, bs', rfl, .nil, hb⟩
  | cons c before ih =>
    obtain ⟨b, bs', hb, hbs, rfl⟩ := List.forall₂_cons_left_iff.mp h
    obtain ⟨before', b', after', rfl, hbefore, hb'⟩ := ih hbs
    exact ⟨b :: before', b', after', rfl, .cons hb hbefore, hb'⟩

section Groups

variable {groups : List RecursiveGroup} {gs : List (List (TypeDef HeapRef))}

theorem forall₂_definitions (h : groups.mapM RecursiveGroup.denote? = some gs) :
    List.Forall₂ (fun a b => SubType.denote? a = some b) (groups.flatMap RecursiveGroup.types)
      gs.flatten := by
  have hall := mapM_eq_some.mp h
  clear h
  induction hall with
  | nil => exact .nil
  | cons hg _ ih => exact rel_append (mapM_eq_some.mp hg) ih

theorem checkGroups_iff (hoff : Consecutive groups)
    (h : groups.mapM RecursiveGroup.denote? = some gs) :
    (∀ group ∈ groups, checkGroup (groups.flatMap RecursiveGroup.types) group = .ok ()) ↔
      LocallyValid gs := by
  have hdefs := forall₂_definitions h
  have hall := mapM_eq_some.mp h
  -- a group starts where the groups before it end
  have hfirst : ∀ {before group after before'}, groups = before ++ group :: after →
      List.Forall₂ (fun a b => RecursiveGroup.denote? a = some b) before before' →
      group.firstTypeIndex = before'.flatten.length := by
    intro before group after before' hsplit hbefore
    rw [hoff hsplit, flatMap_types_length (mapM_eq_some.mpr hbefore)]
  have hfits : ∀ {before' g after'}, gs = before' ++ g :: after' →
      before'.flatten.length + g.length ≤ gs.flatten.length := by
    rintro before' g after' rfl
    simp only [flatten_append, flatten_cons, length_append]
    omega
  constructor
  · intro hok before g after hsplit pos t ht
    obtain ⟨before', group, after', hgroups, hbefore, hg⟩ := forall₂_split hall.flip hsplit
    have hstart := hfirst hgroups hbefore.flip
    have hmem : group ∈ groups := hgroups ▸ mem_append_right _ mem_cons_self
    have hlocal := (checkGroup_iff hdefs hg (by rw [hstart]; exact hfits hsplit)).mp
      (hok group hmem) ht
    rwa [hstart] at hlocal
  · intro hlocal group hmem
    obtain ⟨before, after, hgroups⟩ := append_of_mem hmem
    obtain ⟨before', g, after', hsplit, hbefore, hg⟩ := forall₂_split hall hgroups
    have hstart := hfirst hgroups hbefore
    refine (checkGroup_iff hdefs hg (by rw [hstart]; exact hfits hsplit)).mpr fun pos t ht => ?_
    rw [hstart]
    exact hlocal hsplit ht

theorem denote?_of_checkGroups (h : ∀ group ∈ groups, checkGroup definitions group = .ok ()) :
    ∃ gs, groups.mapM RecursiveGroup.denote? = some gs := by
  simp only [mapM_eq_some]
  refine forall_exists_iff_forall₂.mp fun group hgroup => ?_
  simp only [RecursiveGroup.denote?, mapM_eq_some]
  refine forall_exists_iff_forall₂.mp fun type htype => ?_
  obtain ⟨pos, hpos⟩ := mem_iff_getElem?.mp htype
  have hcheck := h group hgroup
  simp only [checkGroup, forM_ok, mapError_ok] at hcheck
  obtain ⟨c, hc, -⟩ := checkType_ok.mp (hcheck (type, group.firstTypeIndex + pos)
    (mk_mem_zipIdx_iff_le_and_getElem?_sub.mpr
      ⟨Nat.le_add_right _ _, by rwa [Nat.add_sub_cancel_left]⟩))
  exact ⟨_, map_eq_some_iff.mpr ⟨c, hc, rfl⟩⟩

end Groups

-- The context describes the closed types

theorem Composite.kind_map {H K : Type} {f : H → K} (c : Composite H) :
    (c.map f).kind = c.kind := by cases c <;> rfl

theorem Composite.top_eq {H : Type} (c : Composite H) : c.top = c.kind.top := by cases c <;> rfl

namespace LocallyValid

variable {gs : List (List (TypeDef HeapRef))} (hlocal : LocallyValid gs)

include hlocal

theorem isScoped : Scoped gs := by
  intro before g after hsplit t ht h hh
  obtain ⟨pos, hpos⟩ := mem_iff_getElem?.mp ht
  obtain ⟨hlt, -⟩ := List.getElem?_eq_some_iff.mp hpos
  obtain ⟨hscope, -, hsuper⟩ := hlocal hsplit hpos
  rcases mem_append.mp hh with hh | hh
  · obtain ⟨p, t', rfl, hp, -⟩ := hsuper h hh
    simp only [HeapRef.InScope]
    omega
  · exact hscope h hh

theorem super_cases {t : TypeDef HeapRef} (ht : gs.flatten[i]? = some t) :
    t.supers = [] ∨ ∃ p t', t.supers = [.index p] ∧ p < i ∧ gs.flatten[p]? = some t' ∧
      t.composite.kind = t'.composite.kind := by
  obtain ⟨before, g, after, pos, hsplit, rfl, hpos⟩ := exists_split_of_getElem? ht
  obtain ⟨-, hlen, hsuper⟩ := hlocal hsplit hpos
  match hs : t.supers with
  | [] => exact .inl rfl
  | [s] =>
    obtain ⟨p, t', rfl, hp, hget, -, hkind⟩ := hsuper s (hs ▸ mem_cons_self)
    exact .inr ⟨p, t', rfl, hp, hget, hkind⟩
  | _ :: _ :: _ => simp [hs] at hlen

theorem top_closeGroups (ht : gs.flatten[i]? = some t) :
    ((closeGroups gs).getD i default).top = some t.composite.kind.top := by
  rw [DefType.top, definition_closeGroups hlocal.isScoped ht, map_some, TypeDef.map,
    Composite.top_eq, Composite.kind_map]

/-- The way up from a type of the section stays in the section and keeps the kind. -/
theorem below_closeGroups {t : TypeDef HeapRef} (ht : gs.flatten[i]? = some t)
    (h : Below DefType.super ((closeGroups gs).getD i default) e) :
    ∃ j t', gs.flatten[j]? = some t' ∧ e = (closeGroups gs).getD j default ∧
      t'.composite.kind = t.composite.kind := by
  induction h with
  | refl => exact ⟨i, t, ht, rfl, rfl⟩
  | tail _ hstep ih =>
    obtain ⟨j, t', ht', rfl, hkind⟩ := ih
    rw [super_closeGroups hlocal.isScoped ht'] at hstep
    rcases hlocal.super_cases ht' with hnil | ⟨p, t'', hp, -, hget, hkind'⟩
    · simp [hnil] at hstep
    · simp only [hp, some.injEq] at hstep
      exact ⟨p, t'', hget, hstep.symm, hkind'.symm.trans hkind⟩

theorem homogeneous : Homogeneous (closeGroups gs) := by
  intro d hd
  obtain ⟨i, hi, rfl⟩ := mem_iff_getElem.mp hd
  obtain ⟨t, ht⟩ : ∃ t, gs.flatten[i]? = some t :=
    ⟨_, getElem?_eq_getElem (closeGroups_length gs ▸ hi)⟩
  refine ⟨t.composite.kind.top, fun e he => ?_⟩
  have hget : (closeGroups gs).getD i default = (closeGroups gs)[i] := by simp [hi]
  obtain ⟨j, t', ht', rfl, hkind⟩ := hlocal.below_closeGroups ht (hget ▸ he)
  rw [hlocal.top_closeGroups ht', hkind]

variable {typeSection : RecursiveTypeSection} (hoff : Consecutive typeSection.groups)
  (hden : typeSection.denote? = some gs)

include hden

omit hlocal in
theorem definitions_length : typeSection.definitions.length = (closeGroups gs).length :=
  (forall₂_definitions hden).length_eq.trans (closeGroups_length gs).symm

theorem record_cases {i : Nat} (hi : i < typeSection.definitions.length) :
    ((closeGroups gs).getD i default).top =
        some (typeSection.definitions.getD i default).kind.top ∧
      ((typeSection.definitions.getD i default).supertypes = [] ∧
          ((closeGroups gs).getD i default).super = none ∨
        ∃ p < i, (typeSection.definitions.getD i default).supertypes = [p] ∧
          ((closeGroups gs).getD i default).super = some ((closeGroups gs).getD p default)) := by
  have hdefs := forall₂_definitions hden
  have hget := getElem?_eq_getElem (hdefs.length_eq ▸ hi)
  obtain ⟨hc, -, hsupers⟩ := SubType.denote?_eq_some.mp (denote?_getD hdefs hget)
  obtain ⟨hkind, -⟩ := SubType.composite?_eq_some.mp hc
  have hsuper := super_closeGroups hlocal.isScoped hget
  refine ⟨by rw [hlocal.top_closeGroups hget, ← hkind]; rfl, ?_⟩
  rcases hlocal.super_cases hget with hnil | ⟨p, t', hp, hlt, -⟩
  · rw [hnil] at hsupers hsuper
    exact .inl ⟨map_eq_nil_iff.mp hsupers, hsuper⟩
  · rw [hp] at hsupers hsuper
    obtain ⟨q, hq, heq⟩ := map_eq_singleton_iff.mp hsupers
    cases heq
    exact .inr ⟨p, hlt, hq, hsuper⟩

include hoff

theorem forestInput :
    ForestInput typeSection.definitions (canonicalIndices typeSection.groups) := by
  have hspec := canonicalIndices_spec hoff hden
  have hlen := definitions_length hden
  refine ⟨hspec.length.trans hlen.symm, hspec.le, fun hi => hspec.idem (hlen ▸ hi),
    fun {i s} hi hs => ?_⟩
  rcases (hlocal.record_cases hden hi).2 with ⟨hnil, -⟩ | ⟨p, hlt, hp, -⟩
  · rw [hnil] at hs
    cases hs
  · rw [hp] at hs
    cases hs
    exact hlt

theorem below_canonical_iff (hi : i < typeSection.definitions.length)
    (hj : j < typeSection.definitions.length) :
    Below DefType.super ((closeGroups gs).getD i default) ((closeGroups gs).getD j default) ↔
      Below (forestParent typeSection.definitions (canonicalIndices typeSection.groups))
        ((canonicalIndices typeSection.groups).getD i 0)
        ((canonicalIndices typeSection.groups).getD j 0) := by
  have hspec := canonicalIndices_spec hoff hden
  have hlen := definitions_length hden
  have hF := hlocal.forestInput hoff hden
  -- the canonical types are the nodes
  let nodes : Set Nat := {i | i < typeSection.definitions.length ∧
    (canonicalIndices typeSection.groups).getD i 0 = i}
  have hnode : ∀ {i}, i < typeSection.definitions.length →
      (canonicalIndices typeSection.groups).getD i 0 ∈ nodes := fun hi =>
    ⟨Nat.lt_of_le_of_lt (hF.le _) hi, hF.idem hi⟩
  rw [← hspec.types_eq (i := i) (hlen ▸ hi), ← hspec.types_eq (i := j) (hlen ▸ hj)]
  refine Forest.below_map_iff (f := ((closeGroups gs).getD · default)) ?_ ?_ ?_
    (hnode hi) (hnode hj)
  · intro a ha p hp
    obtain ⟨-, -, s, hs, rfl⟩ := forestParent_eq_some.mp hp
    exact hnode ((hF.supers_lt ha.1 hs).trans ha.1)
  · rintro a ⟨ha, hca⟩
    simp only [forestParent, ha, hca, and_self, if_true]
    rcases (hlocal.record_cases hden ha).2 with ⟨hnil, hsuper⟩ | ⟨p, hlt, hp, hsuper⟩
    · rw [hnil, hsuper]
      rfl
    · rw [hp, hsuper]
      simp only [head?_cons, map_some, hspec.types_eq (hlen ▸ hlt.trans ha)]
  · intro a ha b hb hab
    rw [← ha.2, ← hb.2]
    exact (hspec.eq_iff (hlen ▸ ha.1) (hlen ▸ hb.1)).mpr hab

theorem describes : Describes (buildContext typeSection) (closeGroups gs) := by
  have hlen := definitions_length hden
  have hF := hlocal.forestInput hoff hden
  obtain ⟨parents, c, L, hrecords, hlabelled⟩ := buildContext_spec hF
  refine ⟨by rw [hrecords, recordsWith_length, hlen], hlocal.homogeneous, fun {i} hi => ?_,
    fun {i j} hi hj => ?_⟩
  · rw [← hlen] at hi
    rw [hrecords, recordsWith_getD hi]
    exact (hlocal.record_cases hden hi).1
  · rw [← hlen] at hi hj
    rw [hlocal.below_canonical_iff hoff hden hi hj, hlabelled.below _ _ (under_canonical hF hi)
      (under_canonical hF hj), hrecords, recordsWith_getD hi, recordsWith_getD hj]
    rfl

end LocallyValid

-- Comparison with supertypes

/-- A type matches the supertypes it declares. -/
def MatchesSupers (types : List DefType) (defs : List (TypeDef HeapRef)) (t : TypeDef HeapRef) :
    Prop :=
  ∀ s ∈ t.supers, ∃ p t', s = .index p ∧ defs[p]? = some t' ∧
    CompositeMatches types (t.composite.map (HeapRef.close types))
      (t'.composite.map (HeapRef.close types))

theorem CompositeMatches.kind_eq (h : CompositeMatches types c c') :
    c.kind = c'.kind := by cases h <;> rfl

section Split

variable {gs before after : List (List (TypeDef HeapRef))} {g : List (TypeDef HeapRef)}
  (hsplit : gs = before ++ g :: after)

include hsplit

theorem flatten_getElem?_split (hp : p < before.flatten.length + g.length) :
    (before ++ [g]).flatten[p]? = gs.flatten[p]? := by
  subst hsplit
  have happend : (before ++ g :: after).flatten = (before ++ [g]).flatten ++ after.flatten := by
    simp
  rw [happend, getElem?_append_left (by simpa using hp)]

theorem validDef_iff (ht : g[pos]? = some t) :
    ValidDef (closeGroups (before ++ [g])) (before ++ [g]).flatten (before.flatten.length + pos) t ↔
      LocalDef (before.flatten.length + g.length) gs.flatten (before.flatten.length + pos) t ∧
        MatchesSupers (closeGroups (before ++ [g])) gs.flatten t := by
  obtain ⟨hpos, -⟩ := List.getElem?_eq_some_iff.mp ht
  have hlen : (closeGroups (before ++ [g])).length = before.flatten.length + g.length := by
    rw [closeGroups_length]
    simp
  constructor
  · rintro ⟨hscope, hsupers, hsuper⟩
    rw [hlen] at hscope
    refine ⟨⟨fun h hh => hscope h (mem_append_right _ hh), hsupers, fun s hs => ?_⟩,
      fun s hs => ?_⟩
    all_goals
      obtain ⟨p, t', rfl, hlt, hget, hfinal, hmatch⟩ := hsuper s hs
      rw [flatten_getElem?_split hsplit (by omega)] at hget
    · have hkind := hmatch.kind_eq
      rw [Composite.kind_map, Composite.kind_map] at hkind
      exact ⟨p, t', rfl, hlt, hget, hfinal, hkind⟩
    · exact ⟨p, t', rfl, hget, hmatch⟩
  · rintro ⟨⟨hscope, hsupers, hsuper⟩, hmatches⟩
    refine ⟨fun h hh => ?_, hsupers, fun s hs => ?_⟩
    · rw [hlen]
      rcases mem_append.mp hh with hh | hh
      · obtain ⟨p, t', rfl, hp, -⟩ := hsuper h hh
        simp only [HeapRef.InScope]
        omega
      · exact hscope h hh
    · obtain ⟨p, t', rfl, hlt, hget, hfinal, -⟩ := hsuper s hs
      obtain ⟨p', t'', heq, hget', hmatch⟩ := hmatches _ hs
      cases heq
      obtain rfl := some.inj (hget.symm.trans hget')
      rw [← flatten_getElem?_split hsplit (by omega)] at hget
      exact ⟨p, t', rfl, hlt, hget, hfinal, hmatch⟩

end Split

theorem validGroups_iff :
    ValidGroups gs ↔ ∀ ⦃before g after⦄, gs = before ++ g :: after → ∀ ⦃pos t⦄, g[pos]? = some t →
      ValidDef (closeGroups (before ++ [g])) (before ++ [g]).flatten
        (before.flatten.length + pos) t := by
  constructor
  · intro h
    induction h with
    | nil => exact fun before g after hsplit => by simp at hsplit
    | @concat gs' group _ hgroup ih =>
      intro before g after hsplit pos t ht
      rcases eq_nil_or_concat after with rfl | ⟨after', last, rfl⟩
      · obtain ⟨rfl, heq⟩ := append_inj' hsplit rfl
        cases heq
        exact hgroup pos t ht
      · rw [concat_eq_append, ← cons_append, ← append_assoc] at hsplit
        exact ih (append_inj' hsplit rfl).1 ht
  · intro h
    induction gs using List.reverseRecOn with
    | nil => exact .nil
    | append_singleton gs group ih =>
      refine .concat (ih fun before g after hsplit => ?_) fun pos t ht => h rfl ht
      have hsplit' : gs ++ [group] = before ++ g :: (after ++ [group]) := by
        rw [hsplit, append_assoc, cons_append]
      exact h hsplit'

theorem flatten_getElem?_group {after : List (List (TypeDef HeapRef))}
    (hsplit : gs = before ++ g :: after) :
    ∀ {t}, g[pos]? = some t → gs.flatten[before.flatten.length + pos]? = some t := by
  intro t ht
  obtain ⟨hpos, -⟩ := List.getElem?_eq_some_iff.mp ht
  subst hsplit
  rw [flatten_append, getElem?_append_right (Nat.le_add_right _ _),
    Nat.add_sub_cancel_left, flatten_cons, getElem?_append_left hpos, ht]

section Declared

variable {typeSection : RecursiveTypeSection} {gs : List (List (TypeDef HeapRef))}
  (hoff : Consecutive typeSection.groups) (hden : typeSection.denote? = some gs)
  (hlocal : LocallyValid gs)

include hlocal

theorem LocallyValid.scope_of_lt {after : List (List (TypeDef HeapRef))}
    (hsplit : gs = before ++ g :: after) (hp : p < before.flatten.length + g.length)
    (ht : gs.flatten[p]? = some t) :
    ∀ h ∈ t.composite.heaps, h.InScope (closeGroups (before ++ [g])).length := by
  rw [← flatten_getElem?_split hsplit hp] at ht
  obtain ⟨before', g', after', pos, heq, -, hpos⟩ := exists_split_of_getElem? ht
  have hsplit' : gs = before' ++ g' :: (after' ++ after) := by
    rw [hsplit, append_cons, heq, append_assoc, cons_append]
  have hle : before'.flatten.length + g'.length ≤ (closeGroups (before ++ [g])).length := by
    rw [closeGroups_length, heq]
    simp only [flatten_append, flatten_cons, length_append]
    omega
  exact fun h hh => ((hlocal hsplit' hpos).scope h hh).mono hle

include hoff hden

theorem checkDeclared_iff {after : List (List (TypeDef HeapRef))} {g : List (TypeDef HeapRef)}
    (hsplit : gs = before ++ g :: after) {pos : Nat} (ht : g[pos]? = some t)
    (htype : type.denote? = some t) :
    checkDeclared (buildContext typeSection) typeSection.definitions type index = .ok () ↔
      MatchesSupers (closeGroups (before ++ [g])) gs.flatten t := by
  obtain ⟨hpos, -⟩ := List.getElem?_eq_some_iff.mp ht
  have hget := flatten_getElem?_group hsplit ht
  have hprefix : closeGroups (before ++ [g]) <+: closeGroups gs := by
    have happend : gs = before ++ [g] ++ after := by rw [hsplit, append_cons]
    exact happend ▸ closeGroups_prefix _ _
  obtain ⟨hc, -, hsupers⟩ := SubType.denote?_eq_some.mp htype
  obtain ⟨hkind, -⟩ := SubType.composite?_eq_some.mp hc
  rcases hlocal.super_cases hget with hnil | ⟨p, t', hp, hlt, hget', hkinds⟩
  · rw [hnil] at hsupers
    refine iff_of_true ?_ fun s hs => by simp [hnil] at hs
    simp [checkDeclared, map_eq_nil_iff.mp hsupers]
  · rw [hp] at hsupers
    obtain ⟨_, hq, heq⟩ := map_eq_singleton_iff.mp hsupers
    cases heq
    obtain ⟨hc', -⟩ := SubType.denote?_eq_some.mp
      (denote?_getD (forall₂_definitions hden) hget')
    obtain ⟨hkind', -⟩ := SubType.composite?_eq_some.mp hc'
    have hmatch := (hlocal.describes hoff hden).subTypeMatches_iff hprefix hc hc'
      (hkind.trans (hkinds.trans hkind'.symm))
      (hlocal.scope_of_lt hsplit (Nat.add_lt_add_left hpos _) hget)
      (hlocal.scope_of_lt hsplit (by omega) hget')
    simp only [checkDeclared, hq, ensure_ok]
    refine hmatch.trans ⟨fun h s hs => ?_, fun h => ?_⟩
    · rw [hp] at hs
      exact ⟨p, t', mem_singleton.mp hs, hget', h⟩
    · obtain ⟨_, t'', heq, hget'', h⟩ := h (.index p) (hp ▸ mem_cons_self)
      cases heq
      cases hget'.symm.trans hget''
      exact h

theorem checkDeclared_all_iff :
    (∀ x ∈ typeSection.definitions.zipIdx, checkDeclared (buildContext typeSection)
        typeSection.definitions x.1 x.2 = .ok ()) ↔ ValidGroups gs := by
  have hdefs := forall₂_definitions hden
  rw [validGroups_iff]
  constructor
  · intro h before g after hsplit pos t ht
    refine (validDef_iff hsplit ht).mpr ⟨hlocal hsplit ht, ?_⟩
    obtain ⟨type, hmem, htype⟩ := forall₂_getElem? hdefs (flatten_getElem?_group hsplit ht)
    exact (checkDeclared_iff hoff hden hlocal hsplit ht htype).mp
      (h (type, _) (mk_mem_zipIdx_iff_getElem?.mpr hmem))
  · rintro h ⟨type, index⟩ hmem
    obtain ⟨t, ht, htype⟩ := forall₂_getElem? hdefs.flip (mk_mem_zipIdx_iff_getElem?.mp hmem)
    obtain ⟨before, g, after, pos, hsplit, -, hpos⟩ := exists_split_of_getElem? ht
    exact (checkDeclared_iff hoff hden hlocal hsplit hpos htype).mpr
      ((validDef_iff hsplit hpos).mp (h hsplit hpos)).2

end Declared

-- The pass

theorem ValidGroups.locallyValid (h : ValidGroups gs) :
    LocallyValid gs := fun _ _ _ hsplit _ _ ht =>
  ((validDef_iff hsplit ht).mp (validGroups_iff.mp h hsplit ht)).1

theorem checkSection_ok : checkSection typeSection = .ok ctx ↔
      (typeSection.Consistent ∧ typeSection.Valid) ∧ ctx = buildContext typeSection := by
  simp only [checkSection, bind_ok, ensure_ok, forM_ok, pure_ok]
  constructor
  · rintro ⟨total, hcount, _, ⟨htotal, hmax⟩, _, hgroups, _, hdeclared, rfl⟩
    have hcons := RecursiveTypeSection.consistent_iff.mpr ⟨total, hcount, htotal, hmax⟩
    obtain ⟨gs, hden⟩ := denote?_of_checkGroups hgroups
    have hlocal := (checkGroups_iff hcons.offsets hden).mp hgroups
    exact ⟨⟨hcons, gs, hden, (checkDeclared_all_iff hcons.offsets hden hlocal).mp hdeclared⟩, rfl⟩
  · rintro ⟨⟨hcons, gs, hden, hvalid⟩, rfl⟩
    obtain ⟨total, hcount, htotal, hmax⟩ := RecursiveTypeSection.consistent_iff.mp hcons
    have hlocal := hvalid.locallyValid
    exact ⟨total, hcount, (), ⟨htotal, hmax⟩, (),
      (checkGroups_iff hcons.offsets hden).mpr hlocal, (),
      (checkDeclared_all_iff hcons.offsets hden hlocal).mpr hvalid, rfl⟩

theorem checkType_failsWith : FailsWith (· ≠ .ok) (checkType definitions visible index type) := by
  have hvalue : ∀ value, FailsWith (· ≠ .ok) (checkValue visible value) := fun value =>
    .bind (.check nofun) fun _ => .ite (.ite (.check nofun) (.check nofun)) .pure
  have hfield : ∀ field, FailsWith (· ≠ .ok) (checkField visible field) := fun field =>
    .bind (.check nofun) fun _ => .ite (hvalue _) .pure
  have hsuper : FailsWith (· ≠ .ok) (checkSupertype definitions index type) := by
    unfold checkSupertype
    split
    · exact .pure
    · exact .bind (.check nofun) fun _ => .bind (.check nofun) fun _ => .check nofun
  exact .bind (.check nofun) fun _ => .bind (.check nofun) fun _ => .bind hsuper fun _ =>
    .bind (.forM fun v _ => hvalue v) fun _ => .bind (.forM fun v _ => hvalue v) fun _ =>
      .forM fun f _ => hfield f

theorem checkSection_failsWith : FailsWith (·.error ≠ .ok) (checkSection typeSection) := by
  have hcount : ∀ groups total, FailsWith (·.error ≠ .ok) (countTypes groups total) := by
    intro groups
    induction groups with
    | nil => exact fun _ => .pure
    | cons group groups ih => exact fun _ => .bind (.check nofun) fun _ => ih _
  have hgroup : ∀ group, FailsWith (·.error ≠ .ok) (checkGroup typeSection.definitions group) :=
    fun group => .forM fun x _ => .mapError checkType_failsWith
  have hdeclared : ∀ x : SubType × Nat, FailsWith (·.error ≠ .ok)
      (checkDeclared (buildContext typeSection) typeSection.definitions x.1 x.2) := by
    intro x
    unfold checkDeclared
    split
    · exact .pure
    · exact .check nofun
  exact .bind (hcount _ _) fun _ => .bind (.check nofun) fun _ => .bind (.forM fun g _ => hgroup g)
    fun _ => .bind (.forM fun x _ => hdeclared x) fun _ => .pure

theorem validateCore3TypeSection_cases (typeSection : RecursiveTypeSection)
    (output : RecursiveTypeContext) :
    (typeSection.Consistent ∧ typeSection.Valid) ∧
        validateCore3TypeSection typeSection output = ({}, buildContext typeSection) ∨
      ∃ result, result.error ≠ .ok ∧ ¬ (typeSection.Consistent ∧ typeSection.Valid) ∧
        validateCore3TypeSection typeSection output = (result, output) := by
  unfold validateCore3TypeSection
  cases hcheck : checkSection typeSection with
  | ok ctx =>
    obtain ⟨hvalid, rfl⟩ := checkSection_ok.mp hcheck
    exact .inl ⟨hvalid, rfl⟩
  | error result =>
    refine .inr ⟨result, checkSection_failsWith result hcheck, fun hvalid => ?_, rfl⟩
    cases hcheck.symm.trans (checkSection_ok.mpr ⟨hvalid, rfl⟩)

/-- A section is accepted exactly when its offsets are consistent and it denotes valid
recursive groups; the context is then the one built for it. A rejected section leaves
the caller's context alone. -/
theorem validateCore3TypeSection_iff (typeSection : RecursiveTypeSection)
    (output : RecursiveTypeContext) :
    ((validateCore3TypeSection typeSection output).1.error = .ok ↔
        typeSection.Consistent ∧ typeSection.Valid) ∧
      ((validateCore3TypeSection typeSection output).1.error = .ok →
        (validateCore3TypeSection typeSection output).2 = buildContext typeSection) ∧
      ((validateCore3TypeSection typeSection output).1.error ≠ .ok →
        (validateCore3TypeSection typeSection output).2 = output) := by
  rcases validateCore3TypeSection_cases typeSection output with
    ⟨hvalid, hresult⟩ | ⟨result, herror, hinvalid, hresult⟩
  · rw [hresult]
    exact ⟨iff_of_true rfl hvalid, fun _ => rfl, fun h => absurd rfl h⟩
  · rw [hresult]
    exact ⟨iff_of_false herror hinvalid, fun h => absurd h herror, fun _ => rfl⟩

/-- An immutable field: a nullable reference to a type. -/
def linkTo (index : Nat) : FieldType :=
  { storage := { value := { kind := .reference, heap := .defined index, nullable := true } } }

/-- Two equal recursive types, and a subtype of the second whose field refers to the first. -/
def equalGroups : RecursiveTypeSection :=
  ⟨3, [⟨0, 0, [{ kind := .struct_, final_ := false, fields := [linkTo 0] }]⟩,
    ⟨0, 1, [{ kind := .struct_, final_ := false, fields := [linkTo 1] }]⟩,
    ⟨0, 2, [{ kind := .struct_, supertypes := [1], fields := [linkTo 0, linkTo 2] }]⟩]⟩

theorem validateCore3TypeSection_equalGroups : equalGroups.Consistent ∧ equalGroups.Valid ∧
      (validateCore3TypeSection equalGroups {}).2 = buildContext equalGroups := by
  have hiff := validateCore3TypeSection_iff equalGroups {}
  have hok : (validateCore3TypeSection equalGroups {}).1.error = .ok := by decide +kernel
  exact ⟨(hiff.1.mp hok).1, (hiff.1.mp hok).2, hiff.2.1 hok⟩

end Uwvm2.Validation.Wasm3
