import Uwvm2.Lib.Forest
import Uwvm2.Validation.Wasm3.Validator

/-!
# The registry of recursive types

The registry of `recursive_type_registry.h` gives the types of all modules of a linking
domain their identifiers. A record holds the supertype, the depth below a root and a
pointer that jumps to an ancestor; `matches` looks up the ancestor at the depth of the
other type. Where the records are linked to those before them, this decides the
descendant relation (`matches_iff`).
-/

namespace Uwvm2.Validation.Wasm3

open Forest (Below Levelled)

structure RegistryRecord where
  kind : CompositeKind := .function
  parent : Option Nat := none
  depth : Nat := 0
  jump : Nat := 0
  deriving DecidableEq, Repr, Inhabited

structure RecursiveTypeRegistry where
  groups : GroupMap := []
  records : List RegistryRecord := []
  deriving DecidableEq, Repr

/-- The walk up from `index` to `depth`, at most `fuel` hops of it. -/
def ancestorLoop (records : List RegistryRecord) (depth : Nat) : Nat → Nat → Nat
  | 0, index => index
  | fuel + 1, index =>
    let current := records.getD index default
    if depth < current.depth then
      ancestorLoop records depth fuel
        (if depth ≤ (records.getD current.jump default).depth then current.jump
          else current.parent.getD 0)
    else index

/-- Every hop decreases the depth, so there are no more hops than the depth of `index`. -/
def ancestor (records : List RegistryRecord) (index depth : Nat) : Nat :=
  ancestorLoop records depth (records.getD index default).depth index

namespace RecursiveTypeRegistry

def «matches» (registry : RecursiveTypeRegistry) (src dst : Nat) : Bool :=
  if registry.records.length ≤ src ∨ registry.records.length ≤ dst then false
  else if src = dst then true
  else
    let a := registry.records.getD src default
    let b := registry.records.getD dst default
    a.kind = b.kind && b.depth ≤ a.depth && ancestor registry.records src b.depth = dst

def pushType (ids : List Nat) (records : List RegistryRecord) : SubType × Nat → List RegistryRecord
  | (type, index) =>
    records ++ [match type.supertypes with
      | [] => { kind := type.kind, jump := index }
      | supertype :: _ =>
        let parent := ids.getD supertype 0
        let depth := (records.getD parent default).depth + 1
        { kind := type.kind
          parent := some parent
          depth := depth
          jump := ancestor records parent (depth &&& (depth - 1)) }]

/-- Give the types of a group their identifiers; a group with a new key gets records. -/
def internGroup : RecursiveTypeRegistry × List Nat → RecursiveGroup →
    RecursiveTypeRegistry × List Nat
  | (registry, ids), group =>
    let (groups, canonicalFirst, inserted) :=
      registry.groups.tryEmplace (groupKey group ids) registry.records.length
    let ids := ids ++ (List.range group.types.length).map (canonicalFirst + ·)
    if inserted then
      (⟨groups, (group.types.zipIdx canonicalFirst).foldl (pushType ids) registry.records⟩, ids)
    else (⟨groups, registry.records⟩, ids)

/-- `PTRDIFF_MAX / sizeof(record)`. -/
def maxRecords : Nat := (2 ^ 63 - 1) / 32

def validateAndIntern (registry : RecursiveTypeRegistry) (typeSection : RecursiveTypeSection)
    (moduleIds : List Nat) : RecursiveTypeValidationResult × RecursiveTypeRegistry × List Nat :=
  let (validation, checked) := validateCore3TypeSection typeSection {}
  if validation.error ≠ .ok then (validation, registry, moduleIds)
  else if maxRecords - registry.records.length < checked.records.length then
    (⟨.inconsistentSection, 0, typeSection.typeCount⟩, registry, moduleIds)
  else ({}, typeSection.groups.foldl internGroup (registry, []))

end RecursiveTypeRegistry

-- Records

section Records

variable {records : List RegistryRecord}

abbrev parentOf (records : List RegistryRecord) (i : Nat) : Option Nat :=
  (records.getD i default).parent

abbrev depthOf (records : List RegistryRecord) (i : Nat) : Nat := (records.getD i default).depth

structure LinkedRecord (records : List RegistryRecord) (i : Nat) : Prop where
  parent_lt : ∀ {p}, parentOf records i = some p → p < i
  kind_eq : ∀ {p}, parentOf records i = some p →
    (records.getD p default).kind = (records.getD i default).kind
  depth_eq : ∀ {p}, parentOf records i = some p → depthOf records i = depthOf records p + 1
  depth_root : parentOf records i = none → depthOf records i = 0
  jump_below : Below (parentOf records) i (records.getD i default).jump
  /-- The last bit of the depth is cleared. -/
  jump_depth : depthOf records (records.getD i default).jump =
    depthOf records i &&& (depthOf records i - 1)

def LinkedRecords (records : List RegistryRecord) : Prop :=
  ∀ i < records.length, LinkedRecord records i

theorem LinkedRecord.jump_lt (h : LinkedRecord records i) (hpos : 0 < depthOf records i) :
    depthOf records (records.getD i default).jump < depthOf records i := by
  rw [h.jump_depth]
  exact Nat.lt_of_le_of_lt Nat.and_le_right (Nat.sub_lt hpos Nat.one_pos)

theorem lt_of_parentOf (h : parentOf records i = some p) : i < records.length := by
  by_contra hge
  have hnone : records[i]? = none := List.getElem?_eq_none (Nat.le_of_not_lt hge)
  rw [parentOf, List.getD_eq_getElem?_getD, hnone] at h
  cases h

section

variable (h : LinkedRecords records)

include h

theorem LinkedRecords.levelled : Levelled (parentOf records) (depthOf records) := fun _ _ hp =>
  (h _ (lt_of_parentOf hp)).depth_eq hp

theorem LinkedRecords.below_lt (hij : Below (parentOf records) i j) (hi : i < records.length) :
    j < records.length := by
  induction hij with
  | refl => exact hi
  | tail _ hstep ih => exact ((h _ ih).parent_lt hstep).trans ih

theorem LinkedRecords.kind_below (hij : Below (parentOf records) i j) :
    (records.getD j default).kind = (records.getD i default).kind := by
  induction hij with
  | refl => rfl
  | tail _ hstep ih => rw [(h _ (lt_of_parentOf hstep)).kind_eq hstep, ih]

/-- One hop stays on the way to the ancestor: it goes up, but not too far. -/
theorem ancestorLoop_spec (hi : i < records.length) (hle : depth ≤ depthOf records i)
    (hfuel : depthOf records i ≤ fuel + depth) :
    Below (parentOf records) i (ancestorLoop records depth fuel i) ∧
      depthOf records (ancestorLoop records depth fuel i) = depth := by
  induction fuel generalizing i with
  | zero => exact ⟨.refl, by simp only [ancestorLoop]; omega⟩
  | succ fuel ih =>
    simp only [ancestorLoop]
    split
    case isTrue hlt =>
      have hlt : depth < depthOf records i := hlt
      have hrecord := h i hi
      have hpos : 0 < depthOf records i := Nat.lt_of_le_of_lt (Nat.zero_le _) hlt
      obtain ⟨next, hnext, hbelow, hdown, hup⟩ : ∃ next,
          (if depth ≤ depthOf records (records.getD i default).jump then
            (records.getD i default).jump else (parentOf records i).getD 0) = next ∧
          Below (parentOf records) i next ∧ depth ≤ depthOf records next ∧
            depthOf records next < depthOf records i := by
        split
        case isTrue hjump =>
          exact ⟨_, rfl, hrecord.jump_below, hjump, hrecord.jump_lt hpos⟩
        case isFalse =>
          cases hp : parentOf records i with
          | none =>
            have hroot := hrecord.depth_root hp
            omega
          | some p =>
            have hdepth := hrecord.depth_eq hp
            exact ⟨p, rfl, .single hp, by omega, by omega⟩
      rw [hnext]
      obtain ⟨hrest, hend⟩ := ih (h.below_lt hbelow hi) hdown (by omega)
      exact ⟨hbelow.trans hrest, hend⟩
    case isFalse hge => exact ⟨.refl, Nat.le_antisymm (Nat.le_of_not_lt hge) hle⟩

structure AncestorAt (records : List RegistryRecord) (i depth a : Nat) : Prop where
  below : Below (parentOf records) i a
  depth_eq : depthOf records a = depth
  unique : ∀ b, Below (parentOf records) i b → depthOf records b = depth → b = a

theorem LinkedRecords.ancestorAt (ha : Below (parentOf records) i a ∧ depthOf records a = depth) :
    AncestorAt records i depth a :=
  ⟨ha.1, ha.2, fun _ hb hdepth => h.levelled.eq_of_depth_eq hb ha.1 (hdepth.trans ha.2.symm)⟩

theorem ancestor_spec (hi : i < records.length) (hle : depth ≤ depthOf records i) :
    Below (parentOf records) i (ancestor records i depth) ∧
      depthOf records (ancestor records i depth) = depth :=
  ancestorLoop_spec h hi hle (Nat.le_add_right _ _)

end

theorem RecursiveTypeRegistry.matches_iff {registry : RecursiveTypeRegistry}
    (h : LinkedRecords registry.records) (hi : i < registry.records.length)
    (hj : j < registry.records.length) :
    registry.matches i j = true ↔ Below (parentOf registry.records) i j := by
  unfold RecursiveTypeRegistry.matches
  rw [if_neg (by omega)]
  split
  case isTrue heq => exact iff_of_true rfl (heq ▸ .refl)
  case isFalse =>
    simp only [Bool.and_eq_true, decide_eq_true_eq]
    constructor
    · rintro ⟨⟨-, hdepth⟩, hanc⟩
      rw [← hanc]
      exact (ancestor_spec h hi hdepth).1
    · intro hbelow
      have hdepth : depthOf registry.records j ≤ depthOf registry.records i := by
        rcases h.levelled.eq_or_lt hbelow with rfl | hlt
        · exact Nat.le_refl _
        · exact Nat.le_of_lt hlt
      obtain ⟨hanc, hat⟩ := ancestor_spec h hi hdepth
      exact ⟨⟨(h.kind_below hbelow).symm, hdepth⟩, h.levelled.eq_of_depth_eq hanc hbelow hat⟩

theorem getD_append_of_lt (hi : i < records.length) :
    (records ++ more).getD i default = records.getD i default := by
  rw [List.getD_eq_getElem?_getD, List.getElem?_append_left hi, List.getD_eq_getElem?_getD]

theorem below_append (h : Below (parentOf records) i j) :
    Below (parentOf (records ++ more)) i j := by
  refine Below.mono (fun hp => ?_) h
  rw [parentOf, getD_append_of_lt (lt_of_parentOf hp)]
  exact hp

theorem getD_concat : (records ++ [item]).getD records.length default = item := by simp

theorem linkedRecord_root :
    LinkedRecord (records ++ [{ kind := kind, jump := records.length }]) records.length := by
  constructor <;> simp only [parentOf, depthOf, getD_concat] <;> first | exact .refl | simp

theorem LinkedRecords.child (h : LinkedRecords records) (hp : p < records.length)
    (hj : Below (parentOf records) p j)
    (hdepth : depthOf records j = (depthOf records p + 1) &&& depthOf records p) :
    LinkedRecord (records ++ [⟨(records.getD p default).kind, some p, depthOf records p + 1, j⟩])
      records.length := by
  generalize hitem : RegistryRecord.mk (records.getD p default).kind (some p)
    (depthOf records p + 1) j = item
  have hparent : parentOf (records ++ [item]) records.length = some p := by
    rw [parentOf, getD_concat, ← hitem]
  constructor
  · intro q hq
    cases hparent.symm.trans hq
    exact hp
  · intro q hq
    cases hparent.symm.trans hq
    rw [getD_append_of_lt hp, getD_concat, ← hitem]
  · intro q hq
    cases hparent.symm.trans hq
    rw [depthOf, depthOf, getD_append_of_lt hp, getD_concat, ← hitem]
  · intro hnone
    cases hparent.symm.trans hnone
  · rw [getD_concat, ← hitem]
    exact .trans (.single (hitem ▸ hparent)) (below_append hj)
  · rw [depthOf, depthOf, getD_concat, ← hitem, getD_append_of_lt (h.below_lt hj hp)]
    exact hdepth

theorem LinkedRecords.concat (h : LinkedRecords records)
    (hnew : LinkedRecord (records ++ [item]) records.length) :
    LinkedRecords (records ++ [item]) := by
  intro i hi
  rcases Nat.lt_or_ge i records.length with hlt | hge
  · -- links of earlier records stay among them
    have hold := h i hlt
    have hget : (records ++ [item]).getD i default = records.getD i default := getD_append_of_lt hlt
    have hparent : ∀ {p}, parentOf (records ++ [item]) i = some p →
        parentOf records i = some p ∧ p < records.length := by
      intro p hp
      rw [parentOf, hget] at hp
      exact ⟨hp, (hold.parent_lt hp).trans hlt⟩
    constructor
    · exact fun hp => hold.parent_lt (hparent hp).1
    · intro p hp
      rw [hget, getD_append_of_lt (hparent hp).2, hold.kind_eq (hparent hp).1]
    · intro p hp
      rw [depthOf, depthOf, hget, getD_append_of_lt (hparent hp).2]
      exact hold.depth_eq (hparent hp).1
    · rw [parentOf, depthOf, hget]
      exact hold.depth_root
    · rw [hget]
      exact below_append hold.jump_below
    · rw [depthOf, depthOf, hget, getD_append_of_lt (h.below_lt hold.jump_below hlt)]
      exact hold.jump_depth
  · have hi : i = records.length := by simp at hi; omega
    exact hi ▸ hnew

end Records

end Uwvm2.Validation.Wasm3
