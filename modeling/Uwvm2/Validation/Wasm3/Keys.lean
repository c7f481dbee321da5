import Uwvm2.Lib.PrefixCode
import Uwvm2.Validation.Wasm3.Matching
import Uwvm2.Validation.Wasm3.Validator

/-!
# Keys of recursive groups

The key of a group is the code of the rolled group over canonical indices
(`groupKey_eq`), and this code is a prefix code (`rolledGroupWords_isPrefixCode`). So
two groups have the same key exactly when they are equal once rolled.
-/

namespace Uwvm2.Validation.Wasm3

open List

-- The code of a rolled group

def RolledRef.words : RolledRef Nat → List Nat
  | .abstract_ a => [0, toU64 a.code]
  | .binder pos => [1, pos]
  | .outer id => [2, id]

def NumType.toNat : NumType → Nat
  | .i32 => 0
  | .i64 => 1
  | .f32 => 2
  | .f64 => 3
  | .v128 => 4

def ValType.words : ValType (RolledRef Nat) → List Nat
  | .num t => [t.toNat]
  | .ref nullable heap => 5 :: nullable.toNat :: heap.words

def Field.words (field : Field (RolledRef Nat)) : List Nat :=
  field.isMutable.toNat ::
    match field.storage with
    | .val t => 0 :: t.words
    | .i8 => [1]
    | .i16 => [2]

def TypeDef.words (t : TypeDef (RolledRef Nat)) : List Nat :=
  [t.isFinal.toNat] ++ (t.supers.length :: t.supers.flatMap RolledRef.words ++
    ([t.composite.kind.toNat] ++ (
      t.composite.parts.1.length :: t.composite.parts.1.flatMap ValType.words ++ (
        t.composite.parts.2.1.length :: t.composite.parts.2.1.flatMap ValType.words ++
          t.composite.parts.2.2.length :: t.composite.parts.2.2.flatMap Field.words))))

def rolledGroupWords (group : List (TypeDef (RolledRef Nat))) : List Nat :=
  group.length :: group.flatMap TypeDef.words

theorem toU64_abstract_injective {b : AbstractHeapType} (h : toU64 a.code = toU64 b.code) :
    a = b := by
  revert h
  cases a <;> cases b <;> decide

theorem RolledRef.words_isPrefixCode : IsPrefixCode RolledRef.words := by
  intro a b s t h
  cases a <;> cases b <;> simp [RolledRef.words] at h ⊢
  · exact ⟨toU64_abstract_injective h.1, h.2⟩
  · exact h
  · exact h

theorem Bool.toNat_injective {b : Bool} (h : a.toNat = b.toNat) : a = b := by
  cases a <;> cases b <;> simp_all

theorem ValType.words_isPrefixCode : IsPrefixCode ValType.words := by
  have hnum : ∀ t : NumType, t.toNat ≠ 5 := by intro t; cases t <;> decide
  intro a b s t h
  cases a with
  | num t =>
    cases b with
    | num t' =>
      obtain ⟨hnat, rfl⟩ := cons.inj h
      refine ⟨congrArg _ ?_, rfl⟩
      revert hnat
      cases t <;> cases t' <;> decide
    | ref => exact absurd (cons.inj h).1 (hnum t)
  | ref nullable heap =>
    cases b with
    | num t => exact absurd (cons.inj h).1.symm (hnum t)
    | ref nullable' heap' =>
      obtain ⟨hnull, hrest⟩ := cons.inj (cons.inj h).2
      obtain ⟨rfl, rfl⟩ := RolledRef.words_isPrefixCode hrest
      exact ⟨by rw [Bool.toNat_injective hnull], rfl⟩

theorem Field.words_isPrefixCode : IsPrefixCode Field.words := by
  rintro ⟨isMutable, storage⟩ ⟨isMutable', storage'⟩ s t h
  obtain ⟨hmut, hrest⟩ := cons.inj h
  obtain rfl := Bool.toNat_injective hmut
  cases storage <;> cases storage' <;> simp at hrest ⊢
  · exact ValType.words_isPrefixCode hrest
  · exact hrest
  · exact hrest

theorem Composite.eq_of_parts {H : Type} {a b : Composite H} (hkind : a.kind.toNat = b.kind.toNat)
    (hparts : a.parts = b.parts) : a = b := by
  cases a <;> cases b <;>
    simp_all [Composite.parts, Composite.kind, CompositeKind.toNat]

/-- The parts of a definition in the order in which they are written. -/
def TypeDef.parts {H : Type} (t : TypeDef H) :
    Bool × List H × Nat × List (ValType H) × List (ValType H) × List (Field H) :=
  (t.isFinal, t.supers, t.composite.kind.toNat, t.composite.parts)

theorem TypeDef.parts_injective {H : Type} : Function.Injective (TypeDef.parts (H := H)) := by
  rintro ⟨isFinal, supers, composite⟩ ⟨isFinal', supers', composite'⟩ h
  simp only [TypeDef.parts, Prod.mk.injEq] at h
  obtain ⟨rfl, rfl, hkind, hparts⟩ := h
  rw [Composite.eq_of_parts hkind hparts]

theorem TypeDef.words_isPrefixCode : IsPrefixCode TypeDef.words := by
  have hbool : Function.Injective Bool.toNat := fun _ _ => Bool.toNat_injective
  have hvals := ValType.words_isPrefixCode.list
  have hkind : IsPrefixCode fun n : Nat => [n] := .word Function.injective_id
  have hcomposite := hkind.prod (hvals.prod (hvals.prod Field.words_isPrefixCode.list))
  have hcode := (IsPrefixCode.word hbool).prod (RolledRef.words_isPrefixCode.list.prod hcomposite)
  exact hcode.comap TypeDef.parts_injective

theorem rolledGroupWords_isPrefixCode : IsPrefixCode rolledGroupWords :=
  TypeDef.words_isPrefixCode.list

-- Keys are codes

theorem AbstractHeapType.code_of_ofCode? {code : Int} (h : ofCode? code = some a) :
    a.code = code := by
  simpa using find?_some h

@[simp] theorem HeapType.isDefined_defined (i : Nat) : (HeapType.defined i).isDefined = true := by
  simp [HeapType.isDefined, HeapType.defined]

@[simp] theorem toU64_defined (i : Nat) : toU64 (HeapType.defined i).code = i := by
  simp [HeapType.defined, toU64]

theorem HeapType.denote?_defined (i : Nat) : (HeapType.defined i).denote? = some (.index i) := by
  simp [HeapType.denote?]

theorem flatMap_eq_of_forall₂ {α β γ : Type} {f : α → Option β} {g : α → List γ}
    {g' : β → List γ} {as : List α} {bs : List β} (hfg : ∀ {a b}, f a = some b → g a = g' b)
    (h : Forall₂ (fun a b => f a = some b) as bs) : as.flatMap g = bs.flatMap g' := by
  induction h with
  | nil => rfl
  | cons hab _ ih => rw [flatMap_cons, flatMap_cons, hfg hab, ih]

section Words

variable {first : Nat} {canonical : List Nat}

/-- Roll a reference over canonical indices. -/
abbrev rollRef (first : Nat) (canonical : List Nat) : HeapRef → RolledRef Nat :=
  HeapRef.roll first (canonical.getD · 0)

theorem heapWords_eq {heap : HeapType} (h : heap.denote? = some r) :
    heapWords first canonical heap = (rollRef first canonical r).words := by
  cases hdef : heap.isDefined with
  | true =>
    simp only [HeapType.denote?, hdef, if_true, Option.some.injEq] at h
    subst h
    simp only [heapWords, hdef, Bool.not_true, Bool.false_eq_true, if_false, HeapRef.roll]
    split <;> rfl
  | false =>
    simp only [HeapType.denote?, hdef, Bool.false_eq_true, if_false, Option.map_eq_some_iff] at h
    obtain ⟨a, ha, rfl⟩ := h
    simp [heapWords, hdef, HeapRef.roll, RolledRef.words, AbstractHeapType.code_of_ofCode? ha]

theorem valueWords_eq (h : value.denote? = some t) :
    valueWords first canonical value = (t.map (rollRef first canonical)).words := by
  obtain ⟨kind, heap, nullable⟩ := value
  cases kind with
  | reference =>
    simp only [CoreValueType.denote?, Option.map_eq_some_iff] at h
    obtain ⟨r, hr, rfl⟩ := h
    simp [valueWords, ValueKind.toNat, ValType.map, ValType.words, heapWords_eq hr]
  | beyond n => cases h
  | _ =>
    cases h
    rfl

theorem fieldWords_eq (h : field.denote? = some t) :
    fieldWords first canonical field = (t.map (rollRef first canonical)).words := by
  obtain ⟨⟨value, packed⟩, mutable_⟩ := field
  cases packed with
  | none =>
    simp only [FieldType.denote?, Option.map_eq_some_iff] at h
    obtain ⟨v, hv, rfl⟩ := h
    simp [fieldWords, PackedKind.toNat, Field.map, Storage.map, Field.words, valueWords_eq hv]
  | beyond n => cases h
  | _ =>
    cases h
    rfl

theorem subTypeWords_eq {type : SubType} {t : TypeDef HeapRef} (h : type.denote? = some t) :
    subTypeWords first canonical type = (t.map (rollRef first canonical)).words := by
  obtain ⟨c, hc, rfl⟩ := Option.map_eq_some_iff.mp h
  obtain ⟨hkind, hparams, hresults, hfields⟩ := SubType.composite?_eq_some.mp hc
  have hmap : (c.map (rollRef first canonical)).parts =
      (c.parts.1.map (.map (rollRef first canonical)),
        c.parts.2.1.map (.map (rollRef first canonical)),
        c.parts.2.2.map (.map (rollRef first canonical))) := by
    cases c <;> rfl
  have hkindMap : (c.map (rollRef first canonical)).kind = c.kind := by cases c <;> rfl
  have hheaps : (type.supertypes.flatMap fun parent =>
      heapWords first canonical (.defined parent)) =
      ((type.supertypes.map HeapRef.index).map (rollRef first canonical)).flatMap
        RolledRef.words := by
    rw [map_map, flatMap_map]
    exact flatMap_congr fun p _ => heapWords_eq (HeapType.denote?_defined p)
  have hvals : ∀ {as bs}, Forall₂ (fun a b => CoreValueType.denote? a = some b) as bs →
      as.flatMap (valueWords first canonical) =
        (bs.map (.map (rollRef first canonical))).flatMap ValType.words := fun h => by
    rw [flatMap_map]
    exact flatMap_eq_of_forall₂ valueWords_eq h
  have hfieldWords : type.fields.flatMap (fieldWords first canonical) =
      (c.parts.2.2.map (.map (rollRef first canonical))).flatMap Field.words := by
    rw [flatMap_map]
    exact flatMap_eq_of_forall₂ fieldWords_eq hfields
  simp only [subTypeWords, TypeDef.words, TypeDef.map, hmap, hkindMap, hheaps, hvals hparams,
    hvals hresults, hfieldWords, hkind, hparams.length_eq, hresults.length_eq,
    hfields.length_eq, length_map]
  simp

theorem groupKey_eq {group : RecursiveGroup} {g : List (TypeDef HeapRef)}
    (h : group.denote? = some g) :
    groupKey group canonical =
      rolledGroupWords (rollGroup group.firstTypeIndex (canonical.getD · 0) g) := by
  have hall := mapM_eq_some.mp h
  rw [groupKey, rolledGroupWords, rollGroup, length_map, hall.length_eq, flatMap_map]
  exact congrArg _ (flatMap_eq_of_forall₂ subTypeWords_eq hall)

end Words

-- The map of groups

theorem wordsLess_irrefl (a : List Nat) : wordsLess a a = false := by
  induction a with
  | nil => rfl
  | cons x a ih => simp [wordsLess, ih]

theorem eq_of_not_wordsLess (hab : wordsLess a b = false) (hba : wordsLess b a = false) :
    a = b := by
  induction a generalizing b with
  | nil =>
    cases b with
    | nil => rfl
    | cons y b => simp [wordsLess] at hab
  | cons x a ih =>
    cases b with
    | nil => simp [wordsLess] at hba
    | cons y b =>
      by_cases hxy : x = y
      · subst hxy
        simp only [wordsLess, ne_eq, not_true_eq_false, if_false] at hab hba
        rw [ih hab hba]
      · have hyx : ¬ y = x := fun h => hxy h.symm
        simp only [wordsLess, ne_eq, hxy, hyx, not_false_eq_true, if_true, decide_eq_false_iff_not,
          Nat.not_lt] at hab hba
        exact absurd (Nat.le_antisymm hba hab) hxy

theorem wordsLess_equiv : (!wordsLess a b && !wordsLess b a) = true ↔ a = b := by
  constructor
  · intro h
    simp only [Bool.and_eq_true, Bool.not_eq_true'] at h
    exact eq_of_not_wordsLess h.1 h.2
  · rintro rfl
    simp [wordsLess_irrefl]

theorem GroupMap.tryEmplace_cases (groups : GroupMap) (key : List Nat) (value : Nat) :
    (∃ v, (key, v) ∈ groups ∧ groups.tryEmplace key value = (groups, v, false)) ∨
      ((∀ v, (key, v) ∉ groups) ∧
        groups.tryEmplace key value = (groups ++ [(key, value)], value, true)) := by
  unfold GroupMap.tryEmplace
  split
  case h_1 entry hfind =>
    have hfound := find?_some hfind
    have hkey : entry.1 = key := wordsLess_equiv.mp hfound
    refine .inl ⟨entry.2, ?_, rfl⟩
    rw [← hkey]
    exact mem_of_find?_eq_some hfind
  case h_2 hfind =>
    refine .inr ⟨fun v hv => ?_, rfl⟩
    exact find?_eq_none.mp hfind (key, v) hv (wordsLess_equiv.mpr rfl)

end Uwvm2.Validation.Wasm3
