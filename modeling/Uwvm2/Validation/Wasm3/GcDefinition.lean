import Uwvm2.Validation.Wasm3.Correctness

/-!
# Looking up the definition of a type

GC instructions find a definition by a binary search over the groups of the section. An
empty group starts at the same index as the next one, and the search passes over it.
-/

namespace Uwvm2.Validation.Wasm3.GcValidation

open List

structure Core3GcEnvironment where
  definitions : List (Option SubType) := []
  definitionSection : Option RecursiveTypeSection := none

def startsBy (groups : List RecursiveGroup) (index i : Nat) : Bool :=
  groups[i]?.any (·.firstTypeIndex ≤ index)

/-- The loop `while(first != last)`, in which `first` is never above `last`. -/
def searchGroups (groups : List RecursiveGroup) (index first last : Nat) : Nat :=
  if first < last then
    let middle := first + (last - first) / 2
    if startsBy groups index middle then searchGroups groups index (middle + 1) last
    else searchGroups groups index first middle
  else first
termination_by last - first

def definition (environment : Core3GcEnvironment) (context : RecursiveTypeContext) (index : Nat) :
    Option SubType :=
  if !context.contains index then none
  else
    let type := match environment.definitionSection with
      | some typeSection =>
        if typeSection.typeCount ≠ context.records.length then none
        else match searchGroups typeSection.groups index 0 typeSection.groups.length with
          | 0 => none
          | last + 1 => typeSection.groups[last]?.bind fun group =>
            group.types[index - group.firstTypeIndex]?
      | none =>
        if environment.definitions.length ≠ context.records.length then none
        else environment.definitions[index]?.join
    type.filter (·.kind = (context.records.getD index default).kind)

def offset (groups : List RecursiveGroup) (i : Nat) : Nat :=
  ((groups.take i).flatMap RecursiveGroup.types).length

section Groups

variable {groups : List RecursiveGroup} (hoff : Consecutive groups)
include hoff

theorem firstTypeIndex_eq (hi : i < groups.length) : groups[i].firstTypeIndex = offset groups i :=
  hoff (by simp : groups = groups.take i ++ groups[i] :: groups.drop (i + 1))

theorem startsBy_iff (hi : i < groups.length) :
    startsBy groups index i = true ↔ offset groups i ≤ index := by
  rw [startsBy, getElem?_eq_getElem hi, Option.any_some, decide_eq_true_iff,
    firstTypeIndex_eq hoff hi]

/-- The group of the index lies between `first - 1` and `last` all along. -/
theorem searchGroups_spec (h : first ≤ last) (hlast : last ≤ groups.length)
    (hfrom : offset groups (first - 1) ≤ index) (hto : index < offset groups last)
    (hend : searchGroups groups index first last = r) :
    offset groups (r - 1) ≤ index ∧ index < offset groups r ∧ r ≤ groups.length := by
  fun_induction searchGroups groups index first last with
  | case1 first last hlt middle hstarts ih =>
    exact ih (by omega) hlast ((startsBy_iff hoff (by omega)).mp hstarts) hto hend
  | case2 first last hlt middle hstarts ih =>
    have hbeyond := mt (startsBy_iff hoff (by omega)).mpr hstarts
    exact ih (by omega) (by omega) hfrom (not_le.mp hbeyond) hend
  | case3 first last hge =>
    obtain rfl : first = last := by omega
    subst hend
    exact ⟨hfrom, hto, hlast⟩

theorem searchGroups_group (hindex : index < (groups.flatMap RecursiveGroup.types).length) :
    ∃ last group, searchGroups groups index 0 groups.length = last + 1 ∧
      groups[last]? = some group ∧ group.types[index - group.firstTypeIndex]? =
        (groups.flatMap RecursiveGroup.types)[index]? := by
  generalize hend : searchGroups groups index 0 groups.length = r
  obtain ⟨hfrom, hto, hle⟩ := searchGroups_spec hoff (Nat.zero_le _) le_rfl (Nat.zero_le _)
    (by rwa [offset, take_length]) hend
  cases r with
  | zero => exact absurd hto (Nat.not_lt_zero _)
  | succ last =>
    refine ⟨last, groups[last], rfl, getElem?_eq_getElem hle, ?_⟩
    have hsplit : groups = groups.take last ++ groups[last] :: groups.drop (last + 1) := by simp
    conv_rhs => rw [hsplit]
    rw [offset, take_succ_eq_append_getElem hle, flatMap_append, length_append,
      flatMap_singleton] at hto
    rw [firstTypeIndex_eq hoff hle, flatMap_append, flatMap_cons]
    exact ((getElem?_append_right hfrom).trans
      (getElem?_append_left (Nat.sub_lt_left_of_lt_add hfrom hto))).symm

end Groups

theorem buildContext_kinds {typeSection : RecursiveTypeSection} (hcons : typeSection.Consistent)
    (hvalid : typeSection.Valid) :
    (buildContext typeSection).records.length = typeSection.definitions.length ∧
      ∀ i < typeSection.definitions.length,
        ((buildContext typeSection).records.getD i default).kind =
        (typeSection.definitions.getD i default).kind := by
  obtain ⟨gs, hden, hgroups⟩ := hvalid
  obtain ⟨parents, c, L, hrecords, -⟩ :=
    buildContext_spec (hgroups.locallyValid.forestInput hcons.offsets hden)
  rw [hrecords]
  exact ⟨recordsWith_length, fun i hi => congrArg _ (recordsWith_getD hi)⟩

/-- In the context of an accepted section the search through its groups finds every definition by
its index, and nothing for an index beyond them. -/
theorem definition_eq_getElem? {environment : Core3GcEnvironment}
    (henv : environment.definitionSection = some typeSection)
    (hrun : validateCore3TypeSection typeSection output = (result, context))
    (hok : result.error = .ok) (index : Nat) :
    definition environment context index = typeSection.definitions[index]? ∧
      (definition environment context index = none ↔ typeSection.typeCount ≤ index) := by
  rcases validateCore3TypeSection_cases typeSection output with
    ⟨⟨hcons, hvalid⟩, hresult⟩ | ⟨_, herror, -, hresult⟩
  case inr =>
    cases hrun.symm.trans hresult
    exact absurd hok herror
  cases hrun.symm.trans hresult
  obtain ⟨hlength, hkinds⟩ := buildContext_kinds hcons hvalid
  rw [← hcons.total]
  suffices heq : definition environment (buildContext typeSection) index =
      typeSection.definitions[index]? from ⟨heq, by rw [heq, List.getElem?_eq_none_iff]⟩
  by_cases hindex : index < typeSection.definitions.length
  · obtain ⟨last, group, hend, hgroup, htype⟩ := searchGroups_group hcons.offsets hindex
    have hkind := hkinds index hindex
    have hget : typeSection.definitions[index]? = some typeSection.definitions[index] :=
      getElem?_eq_getElem hindex
    rw [getD_eq_getElem _ _ hindex] at hkind
    simp only [definition, henv, RecursiveTypeContext.contains, hlength,
      ← hcons.total, hend, hgroup, Option.bind_some, htype.trans hget, hkind]
    simp [Option.filter, hindex]
  · rw [getElem?_eq_none (not_lt.mp hindex), definition, RecursiveTypeContext.contains, hlength,
      decide_eq_false hindex]
    rfl

def emptyGroups : RecursiveTypeSection :=
  ⟨1, [⟨0, 0, []⟩, ⟨0, 0, [{ kind := .struct_ }]⟩, ⟨0, 1, []⟩]⟩

theorem definition_emptyGroups :
    definition ⟨[], some emptyGroups⟩ (validateCore3TypeSection emptyGroups {}).2 0 =
      some { kind := .struct_ } := by
  have hrun : validateCore3TypeSection emptyGroups {} = ({}, _) := rfl
  exact (definition_eq_getElem? rfl hrun rfl 0).1

end Uwvm2.Validation.Wasm3.GcValidation
