import Uwvm2.Lib.Check
import Uwvm2.Validation.Wasm3.Types

/-!
# Valid type sections

The matching relations of WebAssembly 3.0 on closed types, the validity of a
sequence of recursive groups, and what the decoder's records denote. A closed type
matches itself and whatever its declared supertype matches; references inside
definitions are compared through the hierarchies of abstract heap types.
-/

namespace Uwvm2.Validation.Wasm3

open List

open Forest (Below)

-- Matching

def Heap.In (types : List DefType) : Heap → Prop
  | .abstract_ _ => True
  | .defined d => d ∈ types

inductive HeapMatches (types : List DefType) : Heap → Heap → Prop
  | refl : HeapMatches types h h
  | trans : k.In types → HeapMatches types h k → HeapMatches types k l → HeapMatches types h l
  | eq_any : HeapMatches types (.abstract_ .eq) (.abstract_ .any)
  | i31_eq : HeapMatches types (.abstract_ .i31) (.abstract_ .eq)
  | struct_eq : HeapMatches types (.abstract_ .struct_) (.abstract_ .eq)
  | array_eq : HeapMatches types (.abstract_ .array) (.abstract_ .eq)
  | func : d.definition = some ⟨isFinal, supers, .func params results⟩ →
      HeapMatches types (.defined d) (.abstract_ .func)
  | struct_ : d.definition = some ⟨isFinal, supers, .struct_ fields⟩ →
      HeapMatches types (.defined d) (.abstract_ .struct_)
  | array : d.definition = some ⟨isFinal, supers, .array element⟩ →
      HeapMatches types (.defined d) (.abstract_ .array)
  -- reflexive and transitive closure of declared subtyping, up to equality of closed types
  | defined : Below DefType.super d e → HeapMatches types (.defined d) (.defined e)
  | none : HeapMatches types h (.abstract_ .any) → HeapMatches types (.abstract_ .none) h
  | nofunc : HeapMatches types h (.abstract_ .func) → HeapMatches types (.abstract_ .nofunc) h
  | noextern_ : HeapMatches types h (.abstract_ .extern_) →
      HeapMatches types (.abstract_ .noextern_) h
  | noexn : HeapMatches types h (.abstract_ .exn) → HeapMatches types (.abstract_ .noexn) h

inductive ValMatches (types : List DefType) : ValType Heap → ValType Heap → Prop
  | num : ValMatches types (.num t) (.num t)
  | ref : (nullable = true → nullable' = true) → HeapMatches types h h' →
      ValMatches types (.ref nullable h) (.ref nullable' h')

inductive StorageMatches (types : List DefType) : Storage Heap → Storage Heap → Prop
  | val : ValMatches types t t' → StorageMatches types (.val t) (.val t')
  | i8 : StorageMatches types .i8 .i8
  | i16 : StorageMatches types .i16 .i16

/-- Immutable fields are covariant, mutable ones invariant. -/
inductive FieldMatches (types : List DefType) : Field Heap → Field Heap → Prop
  | const : StorageMatches types s s' → FieldMatches types ⟨false, s⟩ ⟨false, s'⟩
  | var : StorageMatches types s s' → StorageMatches types s' s →
      FieldMatches types ⟨true, s⟩ ⟨true, s'⟩

/-- Functions are contravariant in their parameters and covariant in their results; a
structure may have more fields than its supertype. -/
inductive CompositeMatches (types : List DefType) : Composite Heap → Composite Heap → Prop
  | func : Forall₂ (ValMatches types) params' params →
      Forall₂ (ValMatches types) results results' →
      CompositeMatches types (.func params results) (.func params' results')
  | struct_ : Forall₂ (FieldMatches types) fields fields' →
      CompositeMatches types (.struct_ (fields ++ more)) (.struct_ fields')
  | array : FieldMatches types element element' →
      CompositeMatches types (.array element) (.array element')

-- Validity

/-- The definition `t` of type `i` is valid in a context with the definitions `defs`,
whose closed types are `types`. -/
structure ValidDef (types : List DefType) (defs : List (TypeDef HeapRef)) (i : Nat)
    (t : TypeDef HeapRef) : Prop where
  scope : ∀ h ∈ t.heaps, h.InScope types.length
  supers : t.supers.length ≤ 1
  super : ∀ s ∈ t.supers, ∃ p t', s = .index p ∧ p < i ∧ defs[p]? = some t' ∧
    t'.isFinal = false ∧
    CompositeMatches types (t.composite.map (HeapRef.close types))
      (t'.composite.map (HeapRef.close types))

/-- Groups are checked in turn; the types of a group see each other. -/
inductive ValidGroups : List (List (TypeDef HeapRef)) → Prop
  | nil : ValidGroups []
  | concat : ValidGroups before →
      (∀ pos t, group[pos]? = some t →
        ValidDef (closeGroups (before ++ [group])) (before ++ [group]).flatten
          (before.flatten.length + pos) t) →
      ValidGroups (before ++ [group])

-- What records denote

def HeapType.denote? (heap : HeapType) : Option HeapRef :=
  if heap.isDefined then some (.index (toU64 heap.code))
  else (AbstractHeapType.ofCode? heap.code).map .abstract_

def CoreValueType.denote? (value : CoreValueType) : Option (ValType HeapRef) :=
  match value.kind with
  | .i32 => some (.num .i32)
  | .i64 => some (.num .i64)
  | .f32 => some (.num .f32)
  | .f64 => some (.num .f64)
  | .v128 => some (.num .v128)
  | .reference => value.heap.denote?.map (.ref value.nullable)
  | .beyond _ => none

def FieldType.denote? (field : FieldType) : Option (Field HeapRef) :=
  match field.storage.packed with
  | .none => field.storage.value.denote?.map fun t => ⟨field.mutable_, .val t⟩
  | .i8 => some ⟨field.mutable_, .i8⟩
  | .i16 => some ⟨field.mutable_, .i16⟩
  | .beyond _ => none

/-- The lists that a kind does not use have to be empty. -/
def SubType.composite? (type : SubType) : Option (Composite HeapRef) :=
  match type.kind, type.parameters, type.results, type.fields with
  | .function, params, results, [] => do
    return .func (← params.mapM CoreValueType.denote?) (← results.mapM CoreValueType.denote?)
  | .struct_, [], [], fields => (fields.mapM FieldType.denote?).map .struct_
  | .array, [], [], [element] => element.denote?.map .array
  | _, _, _, _ => none

def SubType.denote? (type : SubType) : Option (TypeDef HeapRef) :=
  type.composite?.map (⟨type.final_, type.supertypes.map .index, ·⟩)

def RecursiveGroup.denote? (group : RecursiveGroup) : Option (List (TypeDef HeapRef)) :=
  group.types.mapM SubType.denote?

def RecursiveTypeSection.denote? (typeSection : RecursiveTypeSection) :
    Option (List (List (TypeDef HeapRef))) :=
  typeSection.groups.mapM RecursiveGroup.denote?

theorem SubType.composite?_eq_some {type : SubType} :
    type.composite? = some c ↔ type.kind = c.kind ∧
      Forall₂ (fun a b => CoreValueType.denote? a = some b) type.parameters c.parts.1 ∧
      Forall₂ (fun a b => CoreValueType.denote? a = some b) type.results c.parts.2.1 ∧
      Forall₂ (fun a b => FieldType.denote? a = some b) type.fields c.parts.2.2 := by
  obtain ⟨kind, final_, binaryOffset, supertypes, parameters, results, fields⟩ := type
  constructor
  · intro h
    unfold SubType.composite? at h
    split at h
    case h_1 hkind hfields =>
      simp only [Option.bind_eq_bind, Option.bind_eq_some_iff, mapM_eq_some] at h
      obtain ⟨params', hparams, results', hresults, h⟩ := h
      cases h
      simp only at hkind hfields
      exact ⟨hkind, hparams, hresults, hfields ▸ .nil⟩
    case h_2 hkind hparams hresults =>
      simp only [Option.map_eq_some_iff, mapM_eq_some] at h
      obtain ⟨fields', hfields, rfl⟩ := h
      simp only at hkind hparams hresults
      exact ⟨hkind, hparams ▸ .nil, hresults ▸ .nil, hfields⟩
    case h_3 element hkind hparams hresults hfields =>
      simp only [Option.map_eq_some_iff] at h
      obtain ⟨element', helement, rfl⟩ := h
      simp only at hkind hparams hresults hfields
      exact ⟨hkind, hparams ▸ .nil, hresults ▸ .nil, hfields ▸ .cons helement .nil⟩
    case h_4 => cases h
  · rintro ⟨hkind, hparams, hresults, hfields⟩
    simp only at hkind hparams hresults hfields
    subst hkind
    cases c with
    | func params' results' =>
      obtain rfl := forall₂_nil_right_iff.mp hfields
      have hp := mapM_eq_some.mpr hparams
      have hr := mapM_eq_some.mpr hresults
      simp only [Composite.parts] at hp hr
      simp [SubType.composite?, Composite.kind, hp, hr]
    | struct_ fields' =>
      obtain rfl := forall₂_nil_right_iff.mp hparams
      obtain rfl := forall₂_nil_right_iff.mp hresults
      have hf := mapM_eq_some.mpr hfields
      simp only [Composite.parts] at hf
      simp [SubType.composite?, Composite.kind, hf]
    | array element' =>
      obtain rfl := forall₂_nil_right_iff.mp hparams
      obtain rfl := forall₂_nil_right_iff.mp hresults
      obtain ⟨element, rest, helement, hrest, rfl⟩ := forall₂_cons_right_iff.mp hfields
      obtain rfl := forall₂_nil_right_iff.mp hrest
      simp [SubType.composite?, Composite.kind, helement]

/-- Every group starts at the number of types before it. -/
def Consecutive (groups : List RecursiveGroup) : Prop :=
  ∀ {before group after}, groups = before ++ group :: after →
    group.firstTypeIndex = (before.flatMap RecursiveGroup.types).length

namespace RecursiveTypeSection

def Valid (typeSection : RecursiveTypeSection) : Prop :=
  ∃ groups, typeSection.denote? = some groups ∧ ValidGroups groups

/-- Every group starts at the number of types before it, and there are as many types as
the section says, no more than indices. This is what the decoder establishes. -/
structure Consistent (typeSection : RecursiveTypeSection) : Prop where
  offsets : Consecutive typeSection.groups
  total : typeSection.definitions.length = typeSection.typeCount
  fits : typeSection.typeCount ≤ 2 ^ 32

end RecursiveTypeSection

end Uwvm2.Validation.Wasm3
