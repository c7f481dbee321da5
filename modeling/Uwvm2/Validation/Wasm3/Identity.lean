import Uwvm2.Validation.Wasm3.Correctness
import Uwvm2.Validation.Wasm3.Registry

/-!
# Identity of types across modules

Every identifier of a registry means one closed type, and different identifiers mean
different ones (`Sound`). Interning a group keeps what identifiers mean and gives the
group's types identifiers that mean them, so this holds after any sequence of calls
(`reached_internAll`). The registry's subtyping is the declared subtyping of the closed
types, as is that of a module's own context.
-/

namespace Uwvm2.Validation.Wasm3

open List Option

open Forest (Below)

def DefType.kind (d : DefType) : Option CompositeKind := d.definition.map (·.composite.kind)

-- Records of closed types

/-- The records agree with what their identifiers mean. -/
structure Recorded (records : List RegistryRecord) (meaning : Nat → DefType) : Prop where
  linked : LinkedRecords records
  kinds : ∀ id < records.length, (meaning id).kind = some (records.getD id default).kind
  supers : ∀ id < records.length, (meaning id).super = (parentOf records id).map meaning

/-- A type that is about to get the identifier `id`; its supertype has got one already. -/
structure NewType (ids : List Nat) (meaning : Nat → DefType) (id : Nat) (type : SubType) :
    Prop where
  kind : (meaning id).kind = some type.kind
  super : type.supertypes = [] ∧ (meaning id).super = none ∨
    ∃ s, type.supertypes = [s] ∧ ids.getD s 0 < id ∧
      (meaning id).super = some (meaning (ids.getD s 0)) ∧
      (meaning (ids.getD s 0)).kind = some type.kind

section Push

variable {records : List RegistryRecord} {meaning : Nat → DefType} {ids : List Nat}

theorem Recorded.concat (h : Recorded records meaning)
    (hlinked : LinkedRecord (records ++ [item]) records.length)
    (hkind : (meaning records.length).kind = some item.kind)
    (hsuper : (meaning records.length).super = item.parent.map meaning) :
    Recorded (records ++ [item]) meaning := by
  refine ⟨h.linked.concat hlinked, fun id hid => ?_, fun id hid => ?_⟩
  all_goals
    rw [length_append, length_singleton] at hid
    rcases Nat.lt_succ_iff_lt_or_eq.mp hid with hlt | rfl
  · rw [getD_append_of_lt hlt, h.kinds id hlt]
  · rw [getD_concat, hkind]
  · rw [parentOf, getD_append_of_lt hlt, h.supers id hlt]
  · rw [parentOf, getD_concat, hsuper]

theorem Recorded.pushType (h : Recorded records meaning)
    (hnew : NewType ids meaning records.length type) :
    Recorded (RecursiveTypeRegistry.pushType ids records (type, records.length)) meaning := by
  obtain ⟨hkind, ⟨hnil, hsuper⟩ | ⟨s, hs, hlt, hsuper, hkind'⟩⟩ := hnew
  · simp only [RecursiveTypeRegistry.pushType, hnil]
    exact h.concat linkedRecord_root hkind hsuper
  · simp only [RecursiveTypeRegistry.pushType, hs]
    generalize ids.getD s 0 = p at hlt hsuper hkind' ⊢
    have hkinds := h.kinds p hlt
    rw [hkind', some.injEq] at hkinds
    -- the pointer jumps to the ancestor whose depth has one bit less
    have hle : (depthOf records p + 1) &&& (depthOf records p + 1 - 1) ≤ depthOf records p := by
      rw [Nat.add_sub_cancel]
      exact Nat.and_le_right
    obtain ⟨hbelow, hdepth⟩ := ancestor_spec h.linked hlt hle
    refine h.concat ?_ hkind hsuper
    rw [hkinds]
    exact h.linked.child hlt hbelow hdepth

theorem Recorded.pushTypes {types : List SubType} (h : Recorded records meaning)
    (hnew : ∀ {pos type}, types[pos]? = some type →
      NewType ids meaning (records.length + pos) type) :
    Recorded ((types.zipIdx records.length).foldl (RecursiveTypeRegistry.pushType ids) records)
        meaning ∧
      records <+: (types.zipIdx records.length).foldl (RecursiveTypeRegistry.pushType ids) records ∧
      ((types.zipIdx records.length).foldl (RecursiveTypeRegistry.pushType ids) records).length =
        records.length + types.length := by
  induction types generalizing records with
  | nil => exact ⟨h, prefix_rfl, rfl⟩
  | cons type types ih =>
    have hfirst := h.pushType (@hnew 0 type rfl)
    rw [zipIdx_cons, foldl_cons]
    have hlen : (RecursiveTypeRegistry.pushType ids records (type, records.length)).length =
        records.length + 1 := by simp [RecursiveTypeRegistry.pushType]
    rw [← hlen]
    obtain ⟨hrest, hprefix, hlength⟩ := ih hfirst fun {pos type'} htype => by
      rw [hlen, Nat.add_assoc, Nat.add_comm 1]
      exact @hnew (pos + 1) type' htype
    refine ⟨hrest, .trans (prefix_append _ _) hprefix, ?_⟩
    rw [hlength, hlen, length_cons]
    omega

end Push

-- Interning a group

/-- Identifiers mean the closed types `meaning`, each type has one, and the records
agree with that. -/
structure Sound (registry : RecursiveTypeRegistry) (meaning : List DefType) : Prop where
  length : meaning.length = registry.records.length
  interned : Interned registry.groups (meaning.getD · default) registry.records.length
  issued : ∀ id < registry.records.length, id ∈ Issued registry.groups
  recorded : Recorded registry.records (meaning.getD · default)

/-- What a registry can become: identifiers are added and none is changed. -/
structure Extends (registry registry' : RecursiveTypeRegistry) (meaning meaning' : List DefType) :
    Prop where
  groups : registry.groups ⊆ registry'.groups
  records : registry.records <+: registry'.records
  meaning : meaning <+: meaning'

theorem Extends.refl {meaning : List DefType} : Extends registry registry meaning meaning :=
  ⟨List.Subset.refl _, prefix_rfl, prefix_rfl⟩

theorem Extends.trans (h : Extends registry₁ registry₂ meaning₁ meaning₂)
    (h' : Extends registry₂ registry₃ meaning₂ meaning₃) :
    Extends registry₁ registry₃ meaning₁ meaning₃ :=
  ⟨List.Subset.trans h.groups h'.groups, h.records.trans h'.records, h.meaning.trans h'.meaning⟩

structure Identified (registry : RecursiveTypeRegistry) (meaning : List DefType)
    (before : List (List (TypeDef HeapRef))) (ids : List Nat) : Prop where
  length : ids.length = before.flatten.length
  means : Interned.Means registry.groups (meaning.getD · default) ids
    (closeGroups before) ids.length

theorem getD_of_prefix {α : Type} {l l' : List α} (h : l <+: l') (hi : i < l.length)
    (d : α) : l'.getD i d = l.getD i d := by
  obtain ⟨more, rfl⟩ := h
  rw [getD_eq_getElem?_getD, getElem?_append_left hi, getD_eq_getElem?_getD]

theorem Identified.extend {registry registry' : RecursiveTypeRegistry}
    (h : Identified registry meaning before ids) (hS : Sound registry meaning)
    (hE : Extends registry registry' meaning meaning') :
    Identified registry' meaning' before ids := by
  have hsame : ∀ id < registry.records.length, meaning'.getD id default = meaning.getD id default :=
    fun id hid => getD_of_prefix hE.meaning (hS.length ▸ hid) default
  refine ⟨h.length, ?_⟩
  obtain ⟨hissued, hmeans⟩ := h.means.congr hS.interned hsame
  exact ⟨fun i hi => Issued.mono hE.groups (hissued i hi), hmeans⟩

section Group

variable {gs before after : List (List (TypeDef HeapRef))} {g : List (TypeDef HeapRef)}

/-- What the checks say about a type of a group, in terms of identifiers. -/
theorem LocallyValid.newType (hlocal : LocallyValid gs) (hsplit : gs = before ++ g :: after)
    (ht : g[pos]? = some t) (htype : type.denote? = some t)
    (hids : ∀ p < before.flatten.length + g.length,
      meaning (ids.getD p 0) = (closeGroups gs).getD p default)
    (hself : meaning (base + pos) = (closeGroups gs).getD (before.flatten.length + pos) default)
    (hlt : ∀ p < before.flatten.length + pos, ids.getD p 0 < base + pos) :
    NewType ids meaning (base + pos) type := by
  have hget := flatten_getElem?_group hsplit ht
  have hkind : ∀ {i t}, gs.flatten[i]? = some t →
      ((closeGroups gs).getD i default).kind = some t.composite.kind := by
    intro i t ht
    rw [DefType.kind, definition_closeGroups hlocal.isScoped ht, map_some, TypeDef.map,
      Composite.kind_map]
  obtain ⟨hpos, -⟩ := List.getElem?_eq_some_iff.mp ht
  obtain ⟨hc, -, hsupers⟩ := SubType.denote?_eq_some.mp htype
  obtain ⟨htkind, -⟩ := SubType.composite?_eq_some.mp hc
  have hsuper := super_closeGroups hlocal.isScoped hget
  refine ⟨by rw [hself, hkind hget, htkind], ?_⟩
  rw [hself]
  rcases hlocal.super_cases hget with hnil | ⟨p, t', hp, hplt, hget', hkinds⟩
  · rw [hnil] at hsupers hsuper
    exact .inl ⟨map_eq_nil_iff.mp hsupers, hsuper⟩
  · rw [hp] at hsupers hsuper
    obtain ⟨q, hq, heq⟩ := map_eq_singleton_iff.mp hsupers
    cases heq
    have hmeans := hids p (by omega)
    exact .inr ⟨p, hq, hlt p hplt, hmeans ▸ hsuper, by rw [hmeans, hkind hget', htkind, hkinds]⟩

theorem Recorded.congr (h : Recorded records meaning)
    (hsame : ∀ id < records.length, meaning' id = meaning id) : Recorded records meaning' := by
  refine ⟨h.linked, fun id hid => ?_, fun id hid => ?_⟩
  · rw [hsame id hid, h.kinds id hid]
  · rw [hsame id hid, h.supers id hid]
    cases hp : parentOf records id with
    | none => rfl
    | some p => simp [hsame p (((h.linked id hid).parent_lt hp).trans hid)]

section Intern

variable {groups : GroupMap} {records : List RegistryRecord} {meaning : List DefType}
  {ids : List Nat}
  {group : RecursiveGroup} (hlocal : LocallyValid gs) (hsplit : gs = before ++ g :: after)
  (hS : Sound ⟨groups, records⟩ meaning) (hI : Identified ⟨groups, records⟩ meaning before ids)
  (hg : group.denote? = some g)

include hlocal hsplit hS hI hg

theorem Identified.insert {key : List Nat} {ids' : List Nat}
    (hkey : rolledGroupWords (rollGroup ids.length (ids.getD · 0) g) = key)
    (hno : ∀ v, (key, v) ∉ groups)
    (hids : ids ++ (List.range g.length).map (records.length + ·) = ids')
    (hpush : (group.types.zipIdx records.length).foldl
      (RecursiveTypeRegistry.pushType ids') records = records') :
    ∃ meaning', meaning <+: meaning' ∧
      Sound ⟨groups ++ [(key, records.length)], records'⟩ meaning' ∧
      Identified ⟨groups ++ [(key, records.length)], records'⟩ meaning' (before ++ [g]) ids' ∧
      records <+: records' := by
  have hclosed : (closeGroups before).length = ids.length :=
    (closeGroups_length before).trans hI.length.symm
  have hmlen : meaning.length = records.length := hS.length
  have hprefix : meaning <+: meaning ++ closeGroup (closeGroups before) g := prefix_append _ _
  -- old identifiers mean what they meant, the next ones the types of the group
  have hold : ∀ id < records.length,
      (meaning ++ closeGroup (closeGroups before) g).getD id default = meaning.getD id default :=
    fun id hid => getD_of_prefix hprefix (hmlen ▸ hid) default
  have hnew : ∀ pos < g.length,
      (meaning ++ closeGroup (closeGroups before) g).getD (records.length + pos) default =
        .mk (rollGroup ids.length ((closeGroups before).getD · default) g) pos := by
    intro pos hpos
    rw [getD_eq_getElem?_getD, getElem?_append_right (by omega), hmlen,
      Nat.add_sub_cancel_left]
    simp [closeGroup, hpos, hclosed]
  have hM' := hI.means.congr hS.interned hold
  have hinterned := (hS.interned.congr hold).miss hM' (hkey ▸ hno) (Nat.le_refl _) hnew
  have hissued : ∀ pos < g.length, records.length + pos ∈
      Issued (groups ++ [(key, records.length)]) := fun pos hpos => by
    rw [← hkey]
    exact ⟨_, _, pos, mem_append_right _ mem_cons_self, by simpa [rollGroup] using hpos, rfl⟩
  have hmeans := hM'.extend hclosed (subset_append_left _ _) fun pos hpos =>
    ⟨hissued pos hpos, hnew pos hpos⟩
  rw [← closeGroups_concat, hids] at hmeans
  have hlength : ids'.length = (before ++ [g]).flatten.length := by simp [← hids, hI.length]
  have hwhole : closeGroups (before ++ [g]) <+: closeGroups gs := by
    have happend : gs = before ++ [g] ++ after := by rw [hsplit, append_cons]
    exact happend ▸ closeGroups_prefix _ _
  obtain ⟨hrecorded, hrecords, hcount⟩ := @Recorded.pushTypes records _ ids' group.types
    (hS.recorded.congr hold) <| by
    intro pos type htype
    obtain ⟨t, ht, hden⟩ := forall₂_getElem? (mapM_eq_some.mp hg).flip htype
    obtain ⟨hpos, -⟩ := List.getElem?_eq_some_iff.mp ht
    refine hlocal.newType hsplit ht hden (fun p hp => ?_) ?_ fun p hp => ?_
    · have hp' : p < (before ++ [g]).flatten.length := by simpa using hp
      rw [hmeans.means p (hlength ▸ hp'), getD_of_prefix hwhole (closeGroups_length _ ▸ hp')]
    · rw [hnew pos hpos, getD_eq_getElem?_getD, hsplit, closeGroups_getElem?_group hpos,
        getD_some, hI.length]
    · rw [← hids, getD_eq_getElem?_getD, getElem?_append]
      split
      case isTrue hlt =>
        have hid := hS.interned.issued_lt (hI.means.issued p hlt)
        rw [getD_eq_getElem?_getD] at hid
        exact Nat.lt_of_lt_of_le hid (Nat.le_add_right _ _)
      case isFalse hge =>
        have hlt : p - ids.length < g.length := by have := hI.length; omega
        have hlen := hI.length
        simp only [getElem?_map, getElem?_range hlt, map_some, getD_some]
        omega
  rw [hpush] at hrecorded hrecords hcount
  rw [RecursiveGroup.denote?_length hg] at hcount
  refine ⟨_, hprefix, ⟨?_, ?_, fun id hid => ?_, hrecorded⟩, ⟨hlength, hmeans⟩, hrecords⟩
  · rw [length_append, closeGroup_length, hmlen, hcount]
  · rw [hcount]
    exact hkey ▸ hinterned
  · have hid : id < records.length + g.length := hcount ▸ hid
    rcases Nat.lt_or_ge id records.length with hlt | hge
    · exact Issued.mono (subset_append_left _ _) (hS.issued id hlt)
    · rw [← Nat.add_sub_cancel' hge]
      exact hissued _ (by omega)

theorem Identified.internGroup (hfirst : group.firstTypeIndex = before.flatten.length)
    (hintern : RecursiveTypeRegistry.internGroup (⟨groups, records⟩, ids) group =
      (registry', ids')) :
    ∃ meaning', Sound registry' meaning' ∧
      Extends ⟨groups, records⟩ registry' meaning meaning' ∧
      Identified registry' meaning' (before ++ [g]) ids' := by
  have hkey : groupKey group ids =
      rolledGroupWords (rollGroup ids.length (ids.getD · 0) g) := by
    rw [groupKey_eq hg, hfirst, hI.length]
  have hclosed : (closeGroups before).length = ids.length :=
    (closeGroups_length before).trans hI.length.symm
  simp only [RecursiveTypeRegistry.internGroup, hkey, RecursiveGroup.denote?_length hg] at hintern
  rcases groups.tryEmplace_cases (rolledGroupWords (rollGroup ids.length (ids.getD · 0) g))
    records.length with ⟨v, hmem, htry⟩ | ⟨hno, htry⟩
  · simp only [htry, Bool.false_eq_true, if_false] at hintern
    cases hintern
    obtain ⟨-, hids⟩ := hS.interned.hit hI.means hmem
    refine ⟨meaning, hS, .refl, by simp [hI.length], ?_⟩
    rw [closeGroups_concat]
    exact hI.means.extend hclosed (List.Subset.refl _) hids
  · simp only [htry, if_true] at hintern
    cases hintern
    obtain ⟨meaning', hprefix, hsound, hids, hrecords⟩ :=
      hI.insert hlocal hsplit hS hg rfl hno rfl rfl
    exact ⟨meaning', hsound, ⟨subset_append_left _ _, hrecords, hprefix⟩, hids⟩

end Intern

end Group

-- Interning a section

theorem sound_empty : Sound {} [] where
  length := rfl
  interned := interned_nil _
  issued := nofun
  recorded := ⟨nofun, nofun, nofun⟩

theorem Sound.internGroups {gs : List (List (TypeDef HeapRef))} (hoff : Consecutive groups)
    (hden : groups.mapM RecursiveGroup.denote? = some gs) (hlocal : LocallyValid gs)
    (hS : Sound registry meaning) (hdone : groups = done ++ todo)
    (hbefore : done.mapM RecursiveGroup.denote? = some before)
    (hintern : done.foldl RecursiveTypeRegistry.internGroup (registry, []) = (registry', ids)) :
    ∃ meaning', Sound registry' meaning' ∧ Extends registry registry' meaning meaning' ∧
      Identified registry' meaning' before ids := by
  induction done using List.reverseRecOn generalizing todo before registry' ids with
  | nil =>
    cases hbefore
    cases hintern
    exact ⟨meaning, hS, .refl, rfl, nofun, nofun⟩
  | append_singleton done group ih =>
    obtain ⟨before, g, hinit, hg, rfl⟩ := mapM_concat.mp hbefore
    have hgroups : groups = done ++ group :: todo := by simpa using hdone
    obtain ⟨before', g', after', hsplit, hbefore', hg'⟩ :=
      forall₂_split (mapM_eq_some.mp hden) hgroups
    cases hinit.symm.trans (mapM_eq_some.mpr hbefore')
    cases hg.symm.trans hg'
    obtain ⟨meaning₁, hS₁, hE₁, hI₁⟩ := ih hgroups hinit rfl
    rw [foldl_append] at hintern
    obtain ⟨meaning₂, hS₂, hE₂, hI₂⟩ := hI₁.internGroup hlocal hsplit hS₁ hg
      (by rw [hoff hgroups, flatMap_types_length hinit]) hintern
    exact ⟨meaning₂, hS₂, hE₁.trans hE₂, hI₂⟩

structure Denotes (typeSection : RecursiveTypeSection) (gs : List (List (TypeDef HeapRef))) :
    Prop where
  consistent : typeSection.Consistent
  denote : typeSection.denote? = some gs
  valid : ValidGroups gs

/-- A rejected section changes nothing, an accepted one only adds identifiers. -/
theorem validateAndIntern_cases (registry : RecursiveTypeRegistry)
    (typeSection : RecursiveTypeSection) (moduleIds : List Nat) :
    (registry.validateAndIntern typeSection moduleIds).1.error ≠ .ok ∧
        (registry.validateAndIntern typeSection moduleIds).2 = (registry, moduleIds) ∨
      (∃ gs, Denotes typeSection gs) ∧ registry.validateAndIntern typeSection moduleIds =
        ({}, typeSection.groups.foldl RecursiveTypeRegistry.internGroup (registry, [])) := by
  unfold RecursiveTypeRegistry.validateAndIntern
  rcases validateCore3TypeSection_cases typeSection {} with
    ⟨⟨hcons, gs, hden, hvalid⟩, hresult⟩ | ⟨result, herror, -, hresult⟩
  · rw [hresult]
    simp only [ne_eq, not_true_eq_false, if_false]
    split
    · exact .inl ⟨nofun, rfl⟩
    · exact .inr ⟨⟨gs, hcons, hden, hvalid⟩, rfl⟩
  · rw [hresult]
    simp only [ne_eq, herror, not_false_eq_true, if_true]
    exact .inl ⟨trivial, trivial⟩

-- Sequences of calls

namespace RecursiveTypeRegistry

/-- A registry and the accepted sections with the identifiers that they got. -/
abbrev Modules := List (RecursiveTypeSection × List Nat)

def internModule : RecursiveTypeRegistry × Modules → RecursiveTypeSection →
    RecursiveTypeRegistry × Modules
  | (registry, accepted), typeSection =>
    let (result, registry, ids) := registry.validateAndIntern typeSection []
    (registry, if result.error = .ok then accepted ++ [(typeSection, ids)] else accepted)

def internAll (sections : List RecursiveTypeSection) : RecursiveTypeRegistry × Modules :=
  sections.foldl internModule ({}, [])

end RecursiveTypeRegistry

open RecursiveTypeRegistry

structure Reached (st : RecursiveTypeRegistry × Modules) (meaning : List DefType) : Prop where
  sound : Sound st.1 meaning
  modules : ∀ m ∈ st.2, ∃ gs, Denotes m.1 gs ∧ Identified st.1 meaning gs m.2

theorem Reached.internModule {meaning : List DefType}
    (h : Reached st meaning) (typeSection : RecursiveTypeSection) :
    ∃ meaning', Reached (internModule st typeSection) meaning' ∧
      Extends st.1 (internModule st typeSection).1 meaning meaning' ∧
      st.2 <+: (internModule st typeSection).2 := by
  obtain ⟨registry, accepted⟩ := st
  rcases validateAndIntern_cases registry typeSection [] with ⟨herror, hsame⟩ | ⟨⟨gs, hgs⟩, hresult⟩
  · have hst : RecursiveTypeRegistry.internModule (registry, accepted) typeSection =
        (registry, accepted) := by
      simp only [RecursiveTypeRegistry.internModule, herror, if_false, hsame]
    rw [hst]
    exact ⟨meaning, h, .refl, prefix_rfl⟩
  · simp only [RecursiveTypeRegistry.internModule, hresult, if_true]
    obtain ⟨meaning', hS, hE, hI⟩ := h.sound.internGroups hgs.consistent.offsets hgs.denote
      hgs.valid.locallyValid (append_nil _).symm hgs.denote rfl
    refine ⟨meaning', ⟨hS, fun m hm => ?_⟩, hE, prefix_append _ _⟩
    rcases mem_append.mp hm with hm | hm
    · obtain ⟨gs', hgs', hids⟩ := h.modules m hm
      exact ⟨gs', hgs', hids.extend h.sound hE⟩
    · rw [mem_singleton.mp hm]
      exact ⟨gs, hgs, hI⟩

theorem Reached.internAll {meaning : List DefType}
    (h : Reached st meaning) (sections : List RecursiveTypeSection) :
    ∃ meaning', Reached (sections.foldl RecursiveTypeRegistry.internModule st) meaning' ∧
      Extends st.1 (sections.foldl RecursiveTypeRegistry.internModule st).1 meaning meaning' ∧
      st.2 <+: (sections.foldl RecursiveTypeRegistry.internModule st).2 := by
  induction sections generalizing st meaning with
  | nil => exact ⟨meaning, h, .refl, prefix_rfl⟩
  | cons typeSection sections ih =>
    obtain ⟨meaning₁, h₁, hE₁, hlog₁⟩ := h.internModule typeSection
    obtain ⟨meaning₂, h₂, hE₂, hlog₂⟩ := ih h₁
    exact ⟨meaning₂, h₂, hE₁.trans hE₂, hlog₁.trans hlog₂⟩

theorem reached_internAll (sections : List RecursiveTypeSection) :
    ∃ meaning, Reached (RecursiveTypeRegistry.internAll sections) meaning := by
  have hstart : Reached ({}, []) [] := ⟨sound_empty, nofun⟩
  obtain ⟨meaning, h, -⟩ := hstart.internAll sections
  exact ⟨meaning, h⟩

theorem Sound.matches_iff (h : Sound registry meaning) (ha : a < registry.records.length)
    (hb : b < registry.records.length) :
    registry.matches a b = true ↔
      Below DefType.super (meaning.getD a default) (meaning.getD b default) := by
  rw [RecursiveTypeRegistry.matches_iff h.recorded.linked ha hb]
  refine (Forest.below_map_iff (f := (meaning.getD · default))
    (fun a ha p hp => ?_) (fun a ha => h.recorded.supers a ha) ?_ ha hb).symm
  · exact ((h.recorded.linked a ha).parent_lt hp).trans ha
  · intro a ha b hb hab
    exact h.interned.injOn (h.issued a ha) (h.issued b hb) hab

theorem Extends.matches_eq {registry registry' : RecursiveTypeRegistry} {meaning : List DefType}
    (hE : Extends registry registry' meaning meaning') (hS : Sound registry meaning)
    (hS' : Sound registry' meaning') (ha : a < registry.records.length)
    (hb : b < registry.records.length) : registry'.matches a b = registry.matches a b := by
  have hle := hE.records.length_le
  rw [Bool.eq_iff_iff, hS.matches_iff ha hb,
    hS'.matches_iff (Nat.lt_of_lt_of_le ha hle) (Nat.lt_of_lt_of_le hb hle),
    getD_of_prefix hE.meaning (hS.length ▸ ha), getD_of_prefix hE.meaning (hS.length ▸ hb)]

-- Main results

theorem getElem?_eq_some_getD {α : Type} {l : List α} (hi : i < l.length) (d : α) :
    l[i]? = some (l.getD i d) := by
  rw [getD_eq_getElem?_getD, getElem?_eq_getElem hi, getD_some]

/-- Sections are given to a new registry in any order, failing ones mixed in. Two types of
accepted modules have the same identifier exactly when their closed types are the same.
Later calls add modules and records, and what is known of earlier identifiers stays. A
rejected section changes neither the registry nor the caller's identifiers. -/
theorem internAll_identity (sections : List RecursiveTypeSection) :
    (∀ m ∈ (internAll sections).2, ∀ m' ∈ (internAll sections).2,
      ∃ gs gs', m.1.denote? = some gs ∧ m'.1.denote? = some gs' ∧
        m.2.length = (closeGroups gs).length ∧ m'.2.length = (closeGroups gs').length ∧
        ∀ i < m.2.length, ∀ j < m'.2.length,
          m.2[i]? = m'.2[j]? ↔ (closeGroups gs)[i]? = (closeGroups gs')[j]?) ∧
      (∀ more, (internAll sections).2 <+: (internAll (sections ++ more)).2 ∧
        (internAll sections).1.records <+: (internAll (sections ++ more)).1.records ∧
        ∀ a < (internAll sections).1.records.length, ∀ b < (internAll sections).1.records.length,
          (internAll (sections ++ more)).1.matches a b = (internAll sections).1.matches a b) ∧
      ∀ typeSection ids,
        ((internAll sections).1.validateAndIntern typeSection ids).1.error ≠ .ok →
          ((internAll sections).1.validateAndIntern typeSection ids).2 =
            ((internAll sections).1, ids) := by
  obtain ⟨meaning, hR⟩ := reached_internAll sections
  refine ⟨fun m hm m' hm' => ?_, fun more => ?_, fun typeSection ids herror => ?_⟩
  · obtain ⟨gs, hgs, hlen, hids⟩ := hR.modules m hm
    obtain ⟨gs', hgs', hlen', hids'⟩ := hR.modules m' hm'
    rw [← closeGroups_length] at hlen hlen'
    refine ⟨gs, gs', hgs.denote, hgs'.denote, hlen, hlen', fun i hi j hj => ?_⟩
    rw [getElem?_eq_some_getD hi 0, getElem?_eq_some_getD hj 0,
      getElem?_eq_some_getD (hlen ▸ hi) default, getElem?_eq_some_getD (hlen' ▸ hj) default,
      some.injEq, some.injEq, ← hids.means i hi, ← hids'.means j hj]
    exact (hR.sound.interned.injOn.eq_iff (hids.issued i hi) (hids'.issued j hj)).symm
  · obtain ⟨meaning', hR', hE, hlog⟩ := hR.internAll more
    have happend : internAll (sections ++ more) = more.foldl internModule (internAll sections) :=
      foldl_append
    rw [happend]
    exact ⟨hlog, hE.records, fun a ha b hb => hE.matches_eq hR.sound hR'.sound ha hb⟩
  · rcases validateAndIntern_cases (internAll sections).1 typeSection ids with ⟨-, hsame⟩ |
      ⟨-, hresult⟩
    · exact hsame
    · rw [hresult] at herror
      exact absurd rfl herror

/-- A module that declares the subtype of `equalGroups` again, behind a function type. -/
def laterModule : RecursiveTypeSection :=
  ⟨3, [⟨0, 0, [{ kind := .function }]⟩,
    ⟨0, 1, [{ kind := .struct_, final_ := false, fields := [linkTo 1] }]⟩,
    ⟨0, 2, [{ kind := .struct_, supertypes := [1], fields := [linkTo 1, linkTo 2] }]⟩]⟩

theorem internAll_identity_laterModule : (internAll [equalGroups, ⟨1, []⟩, laterModule]).2 =
        [(equalGroups, [0, 0, 1]), (laterModule, [2, 0, 1])] ∧
      ∃ gs gs', equalGroups.denote? = some gs ∧ laterModule.denote? = some gs' ∧
        (closeGroups gs)[2]? = (closeGroups gs')[2]? := by
  have hrun : (internAll [equalGroups, ⟨1, []⟩, laterModule]).2 =
      [(equalGroups, [0, 0, 1]), (laterModule, [2, 0, 1])] := by decide +kernel
  obtain ⟨hsame, -⟩ := internAll_identity [equalGroups, ⟨1, []⟩, laterModule]
  obtain ⟨gs, gs', hgs, hgs', -, -, hiff⟩ := hsame (equalGroups, [0, 0, 1]) (by simp [hrun])
    (laterModule, [2, 0, 1]) (by simp [hrun])
  exact ⟨hrun, gs, gs', hgs, hgs', (hiff 2 (by decide) 2 (by decide)).mp rfl⟩

/-- In any registry that a sequence of calls leads to, the subtyping of a module's
identifiers is that of the context which the module has on its own. -/
theorem internAll_matches (sections : List RecursiveTypeSection) :
    ∀ m ∈ (internAll sections).2, ∀ i < m.1.definitions.length, ∀ j < m.1.definitions.length,
      (internAll sections).1.matches (m.2.getD i 0) (m.2.getD j 0) =
        (validateCore3TypeSection m.1 {}).2.matchesHeap (.defined i) (.defined j) := by
  intro m hm i hi j hj
  obtain ⟨meaning, hR⟩ := reached_internAll sections
  obtain ⟨gs, hgs, hlen, hids⟩ := hR.modules m hm
  have hcount := LocallyValid.definitions_length hgs.denote
  rw [← closeGroups_length, ← hcount] at hlen
  -- both sides are the subtyping of the closed types
  have hctx : (validateCore3TypeSection m.1 {}).2 = buildContext m.1 := by
    rcases validateCore3TypeSection_cases m.1 {} with ⟨-, hresult⟩ | ⟨_, -, hinvalid, -⟩
    · rw [hresult]
    · exact absurd ⟨hgs.consistent, gs, hgs.denote, hgs.valid⟩ hinvalid
  have hD := hgs.valid.locallyValid.describes hgs.consistent.offsets hgs.denote
  have hlt : ∀ {k}, k < m.1.definitions.length →
      m.2.getD k 0 < (internAll sections).1.records.length :=
    fun hk => hR.sound.interned.issued_lt (hids.issued _ (hlen ▸ hk))
  rw [hctx, Bool.eq_iff_iff, hR.sound.matches_iff (hlt hi) (hlt hj), hids.means i (hlen ▸ hi),
    hids.means j (hlen ▸ hj), hD.matchesHeap_le (HeapType.denote?_defined i)
      (HeapType.denote?_defined j) (hcount ▸ hi) (hcount ▸ hj)]
  rfl

theorem internAll_matches_laterModule :
    (internAll [equalGroups, laterModule]).1.matches 1 0 = true ∧
      (validateCore3TypeSection laterModule {}).2.matchesHeap (.defined 2) (.defined 1) = true := by
  have hmatches : (internAll [equalGroups, laterModule]).1.matches 1 0 = true := by decide +kernel
  have hmem : (laterModule, [2, 0, 1]) ∈ (internAll [equalGroups, laterModule]).2 := by
    decide +kernel
  exact ⟨hmatches, (internAll_matches _ _ hmem 2 (by decide) 1 (by decide)).symm.trans hmatches⟩

/-- In any registry that a sequence of calls leads to, a record of depth `d` jumps to its one
ancestor of depth `d &&& (d - 1)`, and the walk up ends at the one ancestor of the depth that
is asked for, after at most as many hops as there are levels between. -/
theorem internAll_ancestor (sections : List RecursiveTypeSection) :
    ∀ records, (internAll sections).1.records = records → ∀ id < records.length,
      AncestorAt records id (depthOf records id &&& (depthOf records id - 1))
          (records.getD id default).jump ∧
        (depthOf records id = 0 → (records.getD id default).jump = id) ∧
        ∀ depth ≤ depthOf records id, ∀ fuel, depthOf records id ≤ fuel + depth →
          AncestorAt records id depth (ancestorLoop records depth fuel id) ∧
            ancestorLoop records depth fuel id = ancestor records id depth := by
  rintro _ rfl id hid
  obtain ⟨meaning, hR⟩ := reached_internAll sections
  have hlinked := hR.sound.recorded.linked
  have hjump := hlinked.ancestorAt ⟨(hlinked id hid).jump_below, (hlinked id hid).jump_depth⟩
  refine ⟨hjump, fun hroot => (hjump.unique id .refl (by simp [hroot])).symm,
    fun depth hle fuel hfuel => ?_⟩
  have hloop := hlinked.ancestorAt (ancestorLoop_spec hlinked hid hle hfuel)
  obtain ⟨hbelow, hdepth⟩ := ancestor_spec hlinked hid hle
  exact ⟨hloop, (hloop.unique _ hbelow hdepth).symm⟩

/-- Five types, each a subtype of the one before. -/
def subtypeChain : RecursiveTypeSection :=
  ⟨5, ⟨0, 0, [{ kind := .struct_, final_ := false }]⟩ :: [0, 1, 2, 3].map fun i =>
    ⟨0, i + 1, [{ kind := .struct_, final_ := false, supertypes := [i] }]⟩⟩

def chainRecords : List RegistryRecord := (internAll [equalGroups, subtypeChain]).1.records

/-- The last record jumps over three ancestors, and the walk to the first of these has to take
parents too. -/
theorem internAll_ancestor_subtypeChain :
    depthOf chainRecords 6 = 4 ∧ (chainRecords.getD 6 default).jump = 2 ∧
      AncestorAt chainRecords 6 0 2 ∧ ancestor chainRecords 6 1 = 3 ∧
      AncestorAt chainRecords 6 1 3 := by
  have hdepth : depthOf chainRecords 6 = 4 := by decide +kernel
  have hjump : (chainRecords.getD 6 default).jump = 2 := by decide +kernel
  have hwalk : ancestor chainRecords 6 1 = 3 := by decide +kernel
  obtain ⟨hat, -, hloop⟩ := internAll_ancestor [equalGroups, subtypeChain] chainRecords rfl 6
    (by decide +kernel)
  rw [hjump, hdepth] at hat
  obtain ⟨hone, heq⟩ := hloop 1 (by rw [hdepth]; decide) 3 (by rw [hdepth])
  rw [heq, hwalk] at hone
  exact ⟨hdepth, hjump, hat, hwalk, hone⟩

end Uwvm2.Validation.Wasm3
