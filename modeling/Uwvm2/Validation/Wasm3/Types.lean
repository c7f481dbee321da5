import Uwvm2.Lib.Forest
import Uwvm2.Validation.Wasm3.TypeSection

/-!
# Types of WebAssembly 3.0

Type definitions over an arbitrary kind `H` of references to heap types. In a type
section a reference is an abstract heap type or a type index (`HeapRef`). Rolling a
recursive group replaces indices into the group by positions and earlier indices by
closed types (`RolledRef`); a closed type is a rolled group and a position in it
(`DefType`). Closed types are equal exactly when their groups and positions are.
-/

namespace Uwvm2.Validation.Wasm3

open List

-- Syntax

inductive NumType
  | i32
  | i64
  | f32
  | f64
  | v128
  deriving DecidableEq, Repr

inductive ValType (H : Type)
  | num (t : NumType)
  | ref (nullable : Bool) (heap : H)
  deriving DecidableEq, Repr

inductive Storage (H : Type)
  | val (t : ValType H)
  | i8
  | i16
  deriving DecidableEq, Repr

structure Field (H : Type) where
  isMutable : Bool
  storage : Storage H
  deriving DecidableEq, Repr

inductive Composite (H : Type)
  | func (params results : List (ValType H))
  | struct_ (fields : List (Field H))
  | array (element : Field H)
  deriving DecidableEq, Repr

structure TypeDef (H : Type) where
  isFinal : Bool
  supers : List H
  composite : Composite H
  deriving DecidableEq, Repr

def Composite.parts {H : Type} : Composite H → List (ValType H) × List (ValType H) × List (Field H)
  | .func params results => (params, results, [])
  | .struct_ fields => ([], [], fields)
  | .array element => ([], [], [element])

def Composite.kind {H : Type} : Composite H → CompositeKind
  | .func _ _ => .function
  | .struct_ _ => .struct_
  | .array _ => .array

section Map

variable {H K M : Type}

def ValType.map (f : H → K) : ValType H → ValType K
  | .num t => .num t
  | .ref nullable heap => .ref nullable (f heap)

def Storage.map (f : H → K) : Storage H → Storage K
  | .val t => .val (t.map f)
  | .i8 => .i8
  | .i16 => .i16

def Field.map (f : H → K) (field : Field H) : Field K :=
  ⟨field.isMutable, field.storage.map f⟩

def Composite.map (f : H → K) : Composite H → Composite K
  | .func params results => .func (params.map (.map f)) (results.map (.map f))
  | .struct_ fields => .struct_ (fields.map (.map f))
  | .array element => .array (element.map f)

def TypeDef.map (f : H → K) (t : TypeDef H) : TypeDef K :=
  ⟨t.isFinal, t.supers.map f, t.composite.map f⟩

def ValType.heaps : ValType H → List H
  | .num _ => []
  | .ref _ heap => [heap]

def Field.heaps (field : Field H) : List H :=
  match field.storage with
  | .val t => t.heaps
  | .i8 | .i16 => []

def Composite.heaps : Composite H → List H
  | .func params results => params.flatMap ValType.heaps ++ results.flatMap ValType.heaps
  | .struct_ fields => fields.flatMap Field.heaps
  | .array element => element.heaps

def TypeDef.heaps (t : TypeDef H) : List H := t.supers ++ t.composite.heaps

variable {f : H → K}

theorem ValType.map_map (t : ValType H) : (t.map f).map g = t.map (g ∘ f) := by
  cases t <;> rfl

theorem Field.map_map (t : Field H) : (t.map f).map g = t.map (g ∘ f) := by
  obtain ⟨isMutable, storage⟩ := t
  cases storage with
  | val t => simp [Field.map, Storage.map, ValType.map_map]
  | i8 => rfl
  | i16 => rfl

theorem Composite.map_map (t : Composite H) : (t.map f).map g = t.map (g ∘ f) := by
  cases t with
  | func params results => simp [Composite.map, ValType.map_map]
  | struct_ fields => simp [Composite.map, Field.map_map]
  | array element => simp [Composite.map, Field.map_map]

theorem TypeDef.map_map (t : TypeDef H) : (t.map f).map g = t.map (g ∘ f) := by
  simp [TypeDef.map, Composite.map_map]

theorem ValType.map_congr {t : ValType H} (h : ∀ x ∈ t.heaps, f x = f' x) : t.map f = t.map f' := by
  cases t with
  | num t => rfl
  | ref nullable heap => simp [ValType.map, h heap (by simp [ValType.heaps])]

theorem Field.map_congr {t : Field H} (h : ∀ x ∈ t.heaps, f x = f' x) : t.map f = t.map f' := by
  obtain ⟨isMutable, storage⟩ := t
  cases storage with
  | val t => simp [Field.map, Storage.map, ValType.map_congr h]
  | i8 => rfl
  | i16 => rfl

theorem Composite.map_congr {t : Composite H} (h : ∀ x ∈ t.heaps, f x = f' x) :
    t.map f = t.map f' := by
  cases t with
  | func params results =>
    have hp : ∀ v ∈ params, v.map f = v.map f' := fun v hv => ValType.map_congr fun x hx =>
      h x (mem_append_left _ (mem_flatMap.mpr ⟨v, hv, hx⟩))
    have hr : ∀ v ∈ results, v.map f = v.map f' := fun v hv => ValType.map_congr fun x hx =>
      h x (mem_append_right _ (mem_flatMap.mpr ⟨v, hv, hx⟩))
    rw [Composite.map, Composite.map, map_congr_left hp, map_congr_left hr]
  | struct_ fields =>
    have hf : ∀ v ∈ fields, v.map f = v.map f' := fun v hv => Field.map_congr fun x hx =>
      h x (mem_flatMap.mpr ⟨v, hv, hx⟩)
    rw [Composite.map, Composite.map, map_congr_left hf]
  | array element => rw [Composite.map, Composite.map, Field.map_congr h]

theorem TypeDef.map_congr {t : TypeDef H} (h : ∀ x ∈ t.heaps, f x = f' x) : t.map f = t.map f' := by
  have hs : ∀ x ∈ t.supers, f x = f' x := fun x hx => h x (mem_append_left _ hx)
  have hc : t.composite.map f = t.composite.map f' :=
    Composite.map_congr fun x hx => h x (mem_append_right _ hx)
  rw [TypeDef.map, TypeDef.map, map_congr_left hs, hc]

theorem ValType.map_id (t : ValType H) : t.map id = t := by
  cases t <;> rfl

theorem Field.map_id (t : Field H) : t.map id = t := by
  obtain ⟨isMutable, storage⟩ := t
  cases storage with
  | val t => simp [Field.map, Storage.map, ValType.map_id]
  | i8 => rfl
  | i16 => rfl

theorem Composite.map_id (t : Composite H) : t.map id = t := by
  cases t with
  | func params results => simp [Composite.map, funext ValType.map_id]
  | struct_ fields => simp [Composite.map, funext Field.map_id]
  | array element => simp [Composite.map, Field.map_id]

theorem TypeDef.map_id (t : TypeDef H) : t.map id = t := by
  simp [TypeDef.map, Composite.map_id]

theorem ValType.mem_heaps_map {t : ValType H} : k ∈ (t.map f).heaps ↔ ∃ x ∈ t.heaps, f x = k := by
  cases t <;> simp [ValType.map, ValType.heaps, eq_comm]

theorem Field.mem_heaps_map {t : Field H} : k ∈ (t.map f).heaps ↔ ∃ x ∈ t.heaps, f x = k := by
  obtain ⟨isMutable, storage⟩ := t
  cases storage with
  | val t => exact ValType.mem_heaps_map
  | i8 => simp [Field.map, Storage.map, Field.heaps]
  | i16 => simp [Field.map, Storage.map, Field.heaps]

theorem Composite.mem_heaps_map {t : Composite H} (h : k ∈ (t.map f).heaps) :
    ∃ x ∈ t.heaps, f x = k := by
  cases t with
  | func params results =>
    simp only [Composite.map, Composite.heaps, mem_append, mem_flatMap, mem_map]
      at h ⊢
    rcases h with ⟨_, ⟨v, hv, rfl⟩, h⟩ | ⟨_, ⟨v, hv, rfl⟩, h⟩
    · obtain ⟨x, hx, rfl⟩ := ValType.mem_heaps_map.mp h
      exact ⟨x, .inl ⟨v, hv, hx⟩, rfl⟩
    · obtain ⟨x, hx, rfl⟩ := ValType.mem_heaps_map.mp h
      exact ⟨x, .inr ⟨v, hv, hx⟩, rfl⟩
  | struct_ fields =>
    simp only [Composite.map, Composite.heaps, mem_flatMap, mem_map] at h ⊢
    obtain ⟨_, ⟨v, hv, rfl⟩, h⟩ := h
    obtain ⟨x, hx, rfl⟩ := Field.mem_heaps_map.mp h
    exact ⟨x, ⟨v, hv, hx⟩, rfl⟩
  | array element => exact Field.mem_heaps_map.mp h

theorem TypeDef.mem_heaps_map {t : TypeDef H} (h : k ∈ (t.map f).heaps) :
    ∃ x ∈ t.heaps, f x = k := by
  rcases mem_append.mp h with h | h
  · obtain ⟨x, hx, rfl⟩ := mem_map.mp h
    exact ⟨x, mem_append_left _ hx, rfl⟩
  · obtain ⟨x, hx, rfl⟩ := Composite.mem_heaps_map h
    exact ⟨x, mem_append_right _ hx, rfl⟩

end Map

-- Closed types

inductive HeapRef
  | abstract_ (a : AbstractHeapType)
  | index (i : Nat)
  deriving DecidableEq, Repr

/-- A reference in a rolled group, where `D` stands for the types outside. -/
inductive RolledRef (D : Type)
  | abstract_ (a : AbstractHeapType)
  | binder (pos : Nat)
  | outer (d : D)
  deriving DecidableEq, Repr

/-- The type at a position of a closed recursive group. -/
inductive DefType
  | mk (group : List (TypeDef (RolledRef DefType))) (pos : Nat)

instance : Inhabited DefType := ⟨.mk [] 0⟩

def RolledRef.map {D E : Type} (f : D → E) : RolledRef D → RolledRef E
  | .abstract_ a => .abstract_ a
  | .binder pos => .binder pos
  | .outer d => .outer (f d)

def HeapRef.roll {D : Type} (first : Nat) (outer : Nat → D) : HeapRef → RolledRef D
  | .abstract_ a => .abstract_ a
  | .index i => if first ≤ i then .binder (i - first) else .outer (outer i)

def rollGroup {D : Type} (first : Nat) (outer : Nat → D) (group : List (TypeDef HeapRef)) :
    List (TypeDef (RolledRef D)) :=
  group.map (.map (HeapRef.roll first outer))

/-- The closed types of a group, given those before it. -/
def closeGroup (before : List DefType) (group : List (TypeDef HeapRef)) : List DefType :=
  (List.range group.length).map (.mk (rollGroup before.length (before.getD · default) group))

/-- The closed types of all groups, by type index. -/
def closeGroups (groups : List (List (TypeDef HeapRef))) : List DefType :=
  groups.foldl (fun before group => before ++ closeGroup before group) []

inductive Heap
  | abstract_ (a : AbstractHeapType)
  | defined (d : DefType)

namespace DefType

/-- Positions in a group stand for the types of the group. -/
def unroll (group : List (TypeDef (RolledRef DefType))) : RolledRef DefType → Heap
  | .abstract_ a => .abstract_ a
  | .binder pos => .defined (.mk group pos)
  | .outer d => .defined d

/-- The definition of a closed type. -/
def definition : DefType → Option (TypeDef Heap)
  | .mk group pos => group[pos]?.map (.map (unroll group))

/-- The supertype that a closed type declares. -/
def super (d : DefType) : Option DefType :=
  match d.definition.map TypeDef.supers with
  | some (.defined e :: _) => some e
  | _ => none

end DefType

/-- References of a section with closed types `types`. -/
def HeapRef.close (types : List DefType) : HeapRef → Heap
  | .abstract_ a => .abstract_ a
  | .index i => .defined (types.getD i default)

/-- The reference can be resolved among the first `n` types. -/
def HeapRef.InScope (n : Nat) : HeapRef → Prop
  | .abstract_ _ => True
  | .index i => i < n

-- Closing type by type

theorem exists_split_of_getElem? {α : Type} {groups : List (List α)} {t : α}
    (h : groups.flatten[i]? = some t) :
    ∃ before group after pos, groups = before ++ group :: after ∧
      i = before.flatten.length + pos ∧ group[pos]? = some t := by
  induction groups generalizing i with
  | nil => simp at h
  | cons group groups ih =>
    rw [flatten_cons, getElem?_append] at h
    split at h
    case isTrue => exact ⟨[], group, groups, i, rfl, by simp, h⟩
    case isFalse hge =>
      obtain ⟨before, group', after, pos, rfl, hi, ht⟩ := ih h
      refine ⟨group :: before, group', after, pos, rfl, ?_, ht⟩
      simp only [flatten_cons, length_append]
      omega

theorem closeGroups_concat (groups : List (List (TypeDef HeapRef)))
    (group : List (TypeDef HeapRef)) :
    closeGroups (groups ++ [group]) =
      closeGroups groups ++ closeGroup (closeGroups groups) group := by
  simp [closeGroups]

theorem closeGroup_length (before : List DefType) (group : List (TypeDef HeapRef)) :
    (closeGroup before group).length = group.length := by
  simp [closeGroup]

theorem closeGroups_length (groups : List (List (TypeDef HeapRef))) :
    (closeGroups groups).length = groups.flatten.length := by
  induction groups using List.reverseRecOn with
  | nil => rfl
  | append_singleton groups group ih =>
    rw [closeGroups_concat, length_append, closeGroup_length, ih]
    simp

theorem closeGroups_prefix (groups after : List (List (TypeDef HeapRef))) :
    closeGroups groups <+: closeGroups (groups ++ after) := by
  induction after using List.reverseRecOn with
  | nil => simp
  | append_singleton after group ih =>
    rw [← append_assoc, closeGroups_concat]
    exact ih.trans (prefix_append _ _)

theorem closeGroups_getElem?_before {after : List (List (TypeDef HeapRef))}
    (hi : i < before.flatten.length) :
    (closeGroups (before ++ after))[i]? = (closeGroups before)[i]? := by
  obtain ⟨rest, hrest⟩ := closeGroups_prefix before after
  rw [← hrest, getElem?_append_left (by rwa [closeGroups_length])]

/-- The rolled form of a group behind the groups `before`. -/
abbrev rolled (before : List (List (TypeDef HeapRef))) (group : List (TypeDef HeapRef)) :
    List (TypeDef (RolledRef DefType)) :=
  rollGroup before.flatten.length ((closeGroups before).getD · default) group

theorem closeGroups_getElem?_group {after : List (List (TypeDef HeapRef))}
    (hpos : pos < group.length) :
    (closeGroups (before ++ group :: after))[before.flatten.length + pos]? =
      some (.mk (rolled before group) pos) := by
  have hsplit : before ++ group :: after = (before ++ [group]) ++ after := by simp
  have hlt : before.flatten.length + pos < (before ++ [group]).flatten.length := by simpa using hpos
  rw [hsplit, closeGroups_getElem?_before hlt, closeGroups_concat,
    getElem?_append_right (by rw [closeGroups_length]; exact Nat.le_add_right _ _),
    closeGroups_length, Nat.add_sub_cancel_left, closeGroup, getElem?_map,
    getElem?_range hpos, Option.map_some, closeGroups_length]

theorem unroll_roll {after : List (List (TypeDef HeapRef))} {h : HeapRef}
    (hscope : h.InScope (before.flatten.length + group.length)) :
    DefType.unroll (rolled before group)
        (h.roll before.flatten.length ((closeGroups before).getD · default)) =
      h.close (closeGroups (before ++ group :: after)) := by
  cases h with
  | abstract_ a => rfl
  | index i =>
    simp only [HeapRef.InScope] at hscope
    simp only [HeapRef.roll, HeapRef.close, getD_eq_getElem?_getD]
    split
    case isTrue hle =>
      have hget : (closeGroups (before ++ group :: after))[i]? =
          some (.mk (rolled before group) (i - before.flatten.length)) := by
        rw [← closeGroups_getElem?_group (by omega), Nat.add_sub_cancel' hle]
      rw [hget]
      rfl
    case isFalse hlt =>
      rw [closeGroups_getElem?_before (by omega)]
      rfl

/-- References reach no further than their own group. -/
def Scoped (groups : List (List (TypeDef HeapRef))) : Prop :=
  ∀ {before group after}, groups = before ++ group :: after →
    ∀ t ∈ group, ∀ h ∈ t.heaps, h.InScope (before.flatten.length + group.length)

section

variable {groups : List (List (TypeDef HeapRef))} {i : Nat} {t : TypeDef HeapRef}
  (hscoped : Scoped groups) (ht : groups.flatten[i]? = some t)

include hscoped ht

theorem definition_closeGroups : ((closeGroups groups).getD i default).definition =
      some (t.map (HeapRef.close (closeGroups groups))) := by
  obtain ⟨before, group, after, pos, rfl, rfl, hget⟩ := exists_split_of_getElem? ht
  obtain ⟨hpos, -⟩ := List.getElem?_eq_some_iff.mp hget
  have hscope := hscoped rfl t (mem_of_getElem? hget)
  rw [getD_eq_getElem?_getD, closeGroups_getElem?_group hpos, Option.getD_some]
  simp only [DefType.definition, rollGroup, getElem?_map, hget, Option.map_some,
    TypeDef.map_map]
  exact congrArg some (TypeDef.map_congr fun h hh => unroll_roll (hscope h hh))

theorem super_closeGroups : ((closeGroups groups).getD i default).super = match t.supers with
      | .index p :: _ => some ((closeGroups groups).getD p default)
      | _ => none := by
  rw [DefType.super, definition_closeGroups hscoped ht, Option.map_some]
  obtain ⟨isFinal, supers, composite⟩ := t
  cases supers with
  | nil => rfl
  | cons s rest => cases s <;> rfl

end

end Uwvm2.Validation.Wasm3
