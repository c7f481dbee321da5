import Uwvm2.Validation.Wasm3.Keys

/-!
# Interning of recursive groups

A map from keys to first identifiers gives every type of a group an identifier.
Relative to the closed type that each identifier means, the map is right when an
entry's identifiers mean the types of its group and no two issued identifiers mean
the same type (`Interned`). Looking a group up and inserting it both give its types
identifiers that mean them.
-/

namespace Uwvm2.Validation.Wasm3

open List

section Rolling

variable {D E F : Type}

def OuterIn (ids : Set D) (group : List (TypeDef (RolledRef D))) : Prop :=
  ∀ t ∈ group, ∀ d, RolledRef.outer d ∈ t.heaps → d ∈ ids

/-- Replace the types outside a rolled group. -/
def mapOuter (f : D → E) (group : List (TypeDef (RolledRef D))) : List (TypeDef (RolledRef E)) :=
  group.map (.map (.map f))

theorem mapOuter_congr (hids : OuterIn ids group) (h : ∀ d ∈ ids, f d = g d) :
    mapOuter f group = mapOuter g group := by
  refine map_congr_left fun t ht => TypeDef.map_congr fun r hr => ?_
  cases r with
  | abstract_ a => rfl
  | binder pos => rfl
  | outer d => exact congrArg _ (h d (hids t ht d hr))

theorem mapOuter_mapOuter : mapOuter g (mapOuter f group) = mapOuter (g ∘ f) group := by
  have hcomp : RolledRef.map g ∘ RolledRef.map f = RolledRef.map (g ∘ f) := by
    funext r
    cases r <;> rfl
  simp [mapOuter, TypeDef.map_map, hcomp]

theorem mapOuter_id {group : List (TypeDef (RolledRef D))} : mapOuter id group = group := by
  have hid : RolledRef.map (id : D → D) = id := by
    funext r
    cases r <;> rfl
  simp [mapOuter, hid, funext TypeDef.map_id]

theorem mapOuter_injOn [Nonempty D] (hf : Set.InjOn f ids) {group' : List (TypeDef (RolledRef D))}
    (hg : OuterIn ids group) (hg' : OuterIn ids group') (h : mapOuter f group = mapOuter f group') :
    group = group' := by
  have hback : ∀ {g}, OuterIn ids g → mapOuter (Function.invFunOn f ids) (mapOuter f g) = g := by
    intro g hids
    have hleft : ∀ d ∈ ids, (Function.invFunOn f ids ∘ f) d = id d :=
      fun d hd => hf.leftInvOn_invFunOn hd
    rw [mapOuter_mapOuter, mapOuter_congr hids hleft, mapOuter_id]
  rw [← hback hg, h, hback hg']

theorem outerIn_rollGroup :
    OuterIn {d | ∃ i < first, d = outer i} (rollGroup first outer group) := by
  intro t ht d hd
  obtain ⟨t', -, rfl⟩ := mem_map.mp ht
  obtain ⟨r, -, hr⟩ := TypeDef.mem_heaps_map hd
  cases r with
  | abstract_ a => cases hr
  | index i =>
    simp only [HeapRef.roll] at hr
    split at hr
    case isTrue => cases hr
    case isFalse hlt =>
      cases hr
      exact ⟨i, Nat.lt_of_not_le hlt, rfl⟩

theorem mapOuter_rollGroup (h : ∀ i < first, f (outer i) = outer' i)
    (group : List (TypeDef HeapRef)) :
    mapOuter f (rollGroup first outer group) = rollGroup first outer' group := by
  simp only [mapOuter, rollGroup, map_map]
  refine map_congr_left fun t _ => ?_
  simp only [Function.comp_apply, TypeDef.map_map]
  refine TypeDef.map_congr fun r _ => ?_
  cases r with
  | abstract_ a => rfl
  | index i =>
    simp only [Function.comp_apply, HeapRef.roll]
    split
    case isTrue => rfl
    case isFalse hlt => exact congrArg _ (h i (Nat.lt_of_not_le hlt))

end Rolling

theorem OuterIn.mono {D : Type} {ids ids' : Set D} {group : List (TypeDef (RolledRef D))}
    (h : OuterIn ids group) (hsub : ids ⊆ ids') : OuterIn ids' group :=
  fun t ht d hd => hsub (h t ht d hd)

-- Maps of groups

def Issued (groups : GroupMap) : Set Nat :=
  {id | ∃ R first pos, (rolledGroupWords R, first) ∈ groups ∧ pos < R.length ∧ id = first + pos}

/-- The map's identifiers lie below `bound`, and they mean the types of the groups that
they were given to. -/
structure Interned (groups : GroupMap) (meaning : Nat → DefType) (bound : Nat) : Prop where
  entry : ∀ {key first}, (key, first) ∈ groups → ∃ R, key = rolledGroupWords R ∧
    first + R.length ≤ bound ∧ OuterIn (Issued groups) R ∧
    ∀ pos < R.length, meaning (first + pos) = .mk (mapOuter meaning R) pos
  injOn : Set.InjOn meaning (Issued groups)

theorem interned_nil (meaning : Nat → DefType) : Interned [] meaning 0 where
  entry := nofun
  injOn := by rintro _ ⟨_, _, _, h, -⟩; cases h

theorem Issued.mono (h : groups ⊆ groups') : Issued groups ⊆ Issued groups' := by
  rintro id ⟨R, first, pos, hmem, hpos, rfl⟩
  exact ⟨R, first, pos, h hmem, hpos, rfl⟩

namespace Interned

variable {groups : GroupMap} {meaning : Nat → DefType} {bound first : Nat} {ids : List Nat}
  {types : List DefType}

section

variable (hI : Interned groups meaning bound)

include hI

theorem entry_rolled (h : (rolledGroupWords R, v) ∈ groups) :
    v + R.length ≤ bound ∧ OuterIn (Issued groups) R ∧
      ∀ pos < R.length, meaning (v + pos) = .mk (mapOuter meaning R) pos := by
  obtain ⟨R', hkey, hentry⟩ := hI.entry h
  obtain rfl := rolledGroupWords_isPrefixCode.injective hkey
  exact hentry

theorem issued_lt {id : Nat} (h : id ∈ Issued groups) : id < bound := by
  obtain ⟨R, first, pos, hmem, hpos, rfl⟩ := h
  exact Nat.lt_of_lt_of_le (Nat.add_lt_add_left hpos first) (hI.entry_rolled hmem).1

theorem mono (h : bound ≤ bound') : Interned groups meaning bound' where
  entry hmem := by
    obtain ⟨R, hkey, hbound, hentry⟩ := hI.entry hmem
    exact ⟨R, hkey, hbound.trans h, hentry⟩
  injOn := hI.injOn

theorem congr (h : ∀ id < bound, meaning' id = meaning id) : Interned groups meaning' bound where
  entry {key v} hmem := by
    obtain ⟨R, hkey, hbound, houter, hmeans⟩ := hI.entry hmem
    refine ⟨R, hkey, hbound, houter, fun pos hpos => ?_⟩
    have hmap : mapOuter meaning' R = mapOuter meaning R :=
      mapOuter_congr houter fun d hd => h d (hI.issued_lt hd)
    rw [h _ (by omega), hmeans pos hpos, hmap]
  injOn a ha b hb hab := by
    rw [h a (hI.issued_lt ha), h b (hI.issued_lt hb)] at hab
    exact hI.injOn ha hb hab

end

/-- The identifiers of the types before a group have been issued and mean them. -/
structure Means (groups : GroupMap) (meaning : Nat → DefType) (ids : List Nat)
    (types : List DefType) (first : Nat) : Prop where
  issued : ∀ i < first, ids.getD i 0 ∈ Issued groups
  means : ∀ i < first, meaning (ids.getD i 0) = types.getD i default

theorem Means.mapOuter_roll (h : Means groups meaning ids types first) :
    mapOuter meaning (rollGroup first (ids.getD · 0) g) =
      rollGroup first (types.getD · default) g :=
  mapOuter_rollGroup h.means g

theorem Means.outerIn (h : Means groups meaning ids types first) :
    OuterIn (Issued groups) (rollGroup first (ids.getD · 0) g) := by
  refine outerIn_rollGroup.mono ?_
  rintro _ ⟨i, hi, rfl⟩
  exact h.issued i hi

theorem hit (hI : Interned groups meaning bound) (hids : Means groups meaning ids types first)
    (hmem : (rolledGroupWords (rollGroup first (ids.getD · 0) g), v) ∈ groups) :
    v + g.length ≤ bound ∧ ∀ pos < g.length, v + pos ∈ Issued groups ∧
      meaning (v + pos) = .mk (rollGroup first (types.getD · default) g) pos := by
  have hlen : (rollGroup first (ids.getD · 0) g).length = g.length := length_map _
  obtain ⟨hbound, -, hmeans⟩ := hI.entry_rolled hmem
  rw [hlen] at hbound hmeans
  rw [hids.mapOuter_roll] at hmeans
  exact ⟨hbound, fun pos hpos => ⟨⟨_, v, pos, hmem, hlen ▸ hpos, rfl⟩, hmeans pos hpos⟩⟩

/-- A group that is new to the map gets identifiers that were not used before. -/
theorem miss (hI : Interned groups meaning bound) (hids : Means groups meaning ids types first)
    (hno : ∀ v, (rolledGroupWords (rollGroup first (ids.getD · 0) g), v) ∉ groups)
    (hbase : bound ≤ base)
    (hnew : ∀ pos < g.length,
      meaning (base + pos) = .mk (rollGroup first (types.getD · default) g) pos) :
    Interned (groups ++ [(rolledGroupWords (rollGroup first (ids.getD · 0) g), base)]) meaning
      (base + g.length) := by
  have hlen : (rollGroup first (ids.getD · 0) g).length = g.length := length_map _
  have hroll : mapOuter meaning (rollGroup first (ids.getD · 0) g) = _ := hids.mapOuter_roll
  have houter : OuterIn (Issued groups) (rollGroup first (ids.getD · 0) g) := hids.outerIn
  generalize rollGroup first (ids.getD · 0) g = R at *
  generalize rollGroup first (types.getD · default) g = closed at *
  have hmono : Issued groups ⊆ Issued (groups ++ [(rolledGroupWords R, base)]) :=
    Issued.mono (subset_append_left _ _)
  have hissued : ∀ id ∈ Issued (groups ++ [(rolledGroupWords R, base)]),
      id ∈ Issued groups ∨ ∃ pos < g.length, id = base + pos := by
    rintro id ⟨R', v, pos, hmem, hpos, rfl⟩
    rcases mem_append.mp hmem with hmem | hmem
    · exact .inl ⟨R', v, pos, hmem, hpos, rfl⟩
    · obtain ⟨hkey, rfl⟩ := Prod.mk.inj (mem_singleton.mp hmem)
      obtain rfl := rolledGroupWords_isPrefixCode.injective hkey
      exact .inr ⟨pos, hlen ▸ hpos, rfl⟩
  -- a type of the new group is not a type of an old one
  have hfresh : ∀ id ∈ Issued groups, ∀ pos < g.length, meaning id ≠ meaning (base + pos) := by
    rintro _ ⟨R', v, pos', hmem, hpos', rfl⟩ pos hpos heq
    obtain ⟨-, houter', hmeans⟩ := hI.entry_rolled hmem
    rw [hmeans pos' hpos', hnew pos hpos, ← hroll, DefType.mk.injEq] at heq
    obtain rfl := mapOuter_injOn hI.injOn houter' houter heq.1
    exact hno v hmem
  constructor
  · intro key v hmem
    rcases mem_append.mp hmem with hmem | hmem
    · obtain ⟨R', hkey, hbound, houter', hmeans⟩ := hI.entry hmem
      exact ⟨R', hkey, by omega, houter'.mono hmono, hmeans⟩
    · obtain ⟨rfl, rfl⟩ := Prod.mk.inj (mem_singleton.mp hmem)
      refine ⟨R, rfl, by rw [hlen], houter.mono hmono, fun pos hpos => ?_⟩
      rw [hroll, hnew pos (hlen ▸ hpos)]
  · intro a ha b hb hab
    rcases hissued a ha with ha | ⟨pos, hpos, rfl⟩ <;> rcases hissued b
      hb with hb | ⟨pos', hpos', rfl⟩
    · exact hI.injOn ha hb hab
    · exact absurd hab (hfresh a ha pos' hpos')
    · exact absurd hab.symm (hfresh b hb pos hpos)
    · rw [hnew pos hpos, hnew pos' hpos', DefType.mk.injEq] at hab
      rw [hab.2]

theorem Means.congr (h : Means groups meaning ids types first) (hI : Interned groups meaning bound)
    (hmeaning : ∀ id < bound, meaning' id = meaning id) :
    Means groups meaning' ids types first where
  issued := h.issued
  means i hi := by rw [hmeaning _ (hI.issued_lt (h.issued i hi)), h.means i hi]

theorem Means.extend (h : Means groups meaning ids types ids.length)
    (hlen : types.length = ids.length) (hsub : groups ⊆ groups')
    (hnew : ∀ pos < g.length, v + pos ∈ Issued groups' ∧
      meaning (v + pos) = .mk (rollGroup ids.length (types.getD · default) g) pos) :
    Means groups' meaning (ids ++ (List.range g.length).map (v + ·)) (types ++ closeGroup types g)
      (ids ++ (List.range g.length).map (v + ·)).length := by
  have hlast : ∀ i, i < (ids ++ (List.range g.length).map (v + ·)).length → ¬ i < ids.length →
      i - ids.length < g.length := by
    intro i hi hge
    rw [length_append, length_map, length_range] at hi
    omega
  constructor
  · intro i hi
    rw [getD_eq_getElem?_getD, getElem?_append]
    split
    case isTrue hlt =>
      rw [← getD_eq_getElem?_getD]
      exact Issued.mono hsub (h.issued i hlt)
    case isFalse hge => simpa [hlast i hi hge] using (hnew _ (hlast i hi hge)).1
  · intro i hi
    rw [getD_eq_getElem?_getD, getD_eq_getElem?_getD, getElem?_append,
      getElem?_append, hlen]
    split
    case isTrue hlt => simpa using h.means i hlt
    case isFalse hge =>
      simpa [hlast i hi hge, closeGroup, hlen] using (hnew _ (hlast i hi hge)).2

end Interned

-- Canonical indices of a section

theorem mapM_concat {α β : Type} {f : α → Option β} {as : List α} {a : α} {bs : List β} :
    (as ++ [a]).mapM f = some bs ↔
      ∃ bs' b, as.mapM f = some bs' ∧ f a = some b ∧ bs = bs' ++ [b] := by
  simp only [mapM_append, mapM_cons, mapM_nil, Option.bind_eq_bind,
    Option.bind_eq_some_iff, Option.pure_def, Option.some.injEq]
  constructor
  · rintro ⟨bs', hbs, _, ⟨b, hb, _, rfl, rfl⟩, rfl⟩
    exact ⟨bs', b, hbs, hb, rfl⟩
  · rintro ⟨bs', b, hbs, hb, rfl⟩
    exact ⟨bs', hbs, [b], ⟨b, hb, [], rfl, rfl⟩, rfl⟩

theorem RecursiveGroup.denote?_length {group : RecursiveGroup} (h : group.denote? = some g) :
    group.types.length = g.length :=
  (mapM_eq_some.mp h).length_eq

theorem Consecutive.init (h : Consecutive (groups ++ [group])) : Consecutive groups := by
  intro before group' after heq
  have hsplit : groups ++ [group] = before ++ group' :: (after ++ [group]) := by
    rw [heq, append_assoc, cons_append]
  exact h hsplit

theorem flatMap_types_length {groups : List RecursiveGroup}
    (h : groups.mapM RecursiveGroup.denote? = some gs) :
    (groups.flatMap RecursiveGroup.types).length = gs.flatten.length := by
  have hall := mapM_eq_some.mp h
  clear h
  induction hall with
  | nil => rfl
  | cons hg _ ih =>
    simp only [flatMap_cons, flatten_cons, length_append, ih,
      RecursiveGroup.denote?_length hg]

/-- After some groups: their closed types are known by the first index with that type. -/
structure CanonicalFor (st : GroupMap × List Nat) (gs : List (List (TypeDef HeapRef))) : Prop where
  length : st.2.length = gs.flatten.length
  interned : Interned st.1 ((closeGroups gs).getD · default) st.2.length
  means : Interned.Means st.1 ((closeGroups gs).getD · default) st.2 (closeGroups gs) st.2.length
  le : ∀ i, st.2.getD i 0 ≤ i

/-- One group: its types get the indices of the first group with the same rolled form. -/
theorem CanonicalFor.internGroup {st : GroupMap × List Nat} (h : CanonicalFor st gs)
    (hfirst : group.firstTypeIndex = gs.flatten.length) (hg : group.denote? = some g) :
    CanonicalFor (internGroup st group) (gs ++ [g]) := by
  obtain ⟨groups, ids⟩ := st
  obtain ⟨hlen, hI, hM, hle⟩ := h
  simp only at hlen hI hM hle
  have hclosed : (closeGroups gs).length = ids.length := (closeGroups_length gs).trans hlen.symm
  -- earlier indices mean what they meant, the new ones the types of the new group
  have hold : ∀ i < ids.length,
      (closeGroups (gs ++ [g])).getD i default = (closeGroups gs).getD i default := by
    intro i hi
    rw [getD_eq_getElem?_getD, getD_eq_getElem?_getD,
      closeGroups_getElem?_before (hlen ▸ hi)]
  have hnew : ∀ pos < g.length, (closeGroups (gs ++ [g])).getD (ids.length + pos) default =
      .mk (rollGroup ids.length ((closeGroups gs).getD · default) g) pos := by
    intro pos hpos
    rw [getD_eq_getElem?_getD, hlen, closeGroups_getElem?_group hpos, Option.getD_some]
  have hI' := hI.congr hold
  have hM' := hM.congr hI hold
  have hkey : groupKey group ids =
      rolledGroupWords (rollGroup ids.length (ids.getD · 0) g) := by
    rw [groupKey_eq hg, hfirst, hlen]
  -- whichever identifiers the types get, they have been issued and mean them
  obtain ⟨groups', v, b, htry, hsub, hv, hinterned, hids⟩ : ∃ groups' v b,
      groups.tryEmplace (groupKey group ids) group.firstTypeIndex = (groups', v, b) ∧
      groups ⊆ groups' ∧ v ≤ ids.length ∧
      Interned groups' ((closeGroups (gs ++ [g])).getD · default) (ids.length + g.length) ∧
      ∀ pos < g.length, v + pos ∈ Issued groups' ∧
        (closeGroups (gs ++ [g])).getD (v + pos) default =
          .mk (rollGroup ids.length ((closeGroups gs).getD · default) g) pos := by
    rw [hkey, hfirst, ← hlen]
    rcases groups.tryEmplace_cases (rolledGroupWords (rollGroup ids.length (ids.getD · 0) g))
      ids.length with ⟨v, hmem, htry⟩ | ⟨hno, htry⟩
    · obtain ⟨hbound, hids⟩ := hI'.hit hM' hmem
      exact ⟨groups, v, false, htry, List.Subset.refl _, by omega, hI'.mono (by omega), hids⟩
    · refine ⟨_, ids.length, true, htry, subset_append_left _ _, Nat.le_refl _,
        hI'.miss hM' hno (Nat.le_refl _) hnew, fun pos hpos => ⟨?_, hnew pos hpos⟩⟩
      exact ⟨_, ids.length, pos, mem_append_right _ mem_cons_self,
        by simpa [rollGroup] using hpos, rfl⟩
  have hlength : (ids ++ (List.range g.length).map (v + ·)).length = ids.length + g.length := by
    simp
  simp only [Wasm3.internGroup, htry, RecursiveGroup.denote?_length hg]
  refine ⟨by simp [hlen], hlength ▸ hinterned, ?_, fun i => ?_⟩
  · rw [closeGroups_concat] at hids hM' ⊢
    exact hM'.extend hclosed hsub hids
  · rw [getD_eq_getElem?_getD, getElem?_append]
    split
    case isTrue => simpa using hle i
    case isFalse hge =>
      by_cases hpos : i - ids.length < g.length
      · rw [getElem?_map, getElem?_range hpos]
        simp only [Option.map_some, Option.getD_some]
        omega
      · simp [hpos]

theorem canonicalFor {groups : List RecursiveGroup} {gs : List (List (TypeDef HeapRef))}
    (hoff : Consecutive groups) (h : groups.mapM RecursiveGroup.denote? = some gs) :
    CanonicalFor (groups.foldl internGroup ([], [])) gs := by
  induction groups using List.reverseRecOn generalizing gs with
  | nil =>
    cases h
    exact ⟨rfl, interned_nil _, ⟨nofun, nofun⟩, fun i => Nat.zero_le i⟩
  | append_singleton groups group ih =>
    obtain ⟨gs', g, hgs, hg, rfl⟩ := mapM_concat.mp h
    rw [foldl_append]
    refine (ih hoff.init hgs).internGroup ?_ hg
    rw [hoff rfl, flatMap_types_length hgs]

structure CanonicalIndices (canonical : List Nat) (types : List DefType) : Prop where
  length : canonical.length = types.length
  le : ∀ i, canonical.getD i 0 ≤ i
  eq_iff : ∀ {i j}, i < types.length → j < types.length →
    (canonical.getD i 0 = canonical.getD j 0 ↔ types.getD i default = types.getD j default)
  types_eq : ∀ {i}, i < types.length →
    types.getD (canonical.getD i 0) default = types.getD i default

theorem canonicalIndices_spec (hoff : Consecutive groups)
    (h : groups.mapM RecursiveGroup.denote? = some gs) :
    CanonicalIndices (canonicalIndices groups) (closeGroups gs) := by
  obtain ⟨hlen, hI, hM, hle⟩ := canonicalFor hoff h
  have hlen' : (canonicalIndices groups).length = (closeGroups gs).length :=
    hlen.trans (closeGroups_length gs).symm
  refine ⟨hlen', hle, fun {i j} hi hj => ?_, fun {i} hi => hM.means i (hlen' ▸ hi)⟩
  have hmi := hM.means i (hlen' ▸ hi)
  have hmj := hM.means j (hlen' ▸ hj)
  constructor
  · intro heq
    rw [← hmi, ← hmj]
    exact congrArg ((closeGroups gs).getD · default) heq
  · intro heq
    exact hI.injOn (hM.issued i (hlen' ▸ hi)) (hM.issued j (hlen' ▸ hj))
      (hmi.trans (heq.trans hmj.symm))

theorem CanonicalIndices.idem (h : CanonicalIndices canonical types) (hi : i < types.length) :
    canonical.getD (canonical.getD i 0) 0 = canonical.getD i 0 :=
  (h.eq_iff (Nat.lt_of_le_of_lt (h.le i) hi) hi).mpr (h.types_eq hi)

end Uwvm2.Validation.Wasm3
