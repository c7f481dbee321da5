import Uwvm2.Validation.Wasm3.Keys
import Uwvm2.Validation.Wasm3.Subtyping

/-!
# The checks of single types

What the first loops of the pass establish: the counts are those of a consistent
section, and each record denotes a definition whose references are in scope and whose
supertype is an earlier, open type of the same kind.
-/

namespace Uwvm2.Validation.Wasm3

open List

-- Counts

theorem countTypes_ok (htotal : total ≤ 2 ^ 32) : countTypes groups total = .ok n ↔
      (∀ {before group after}, groups = before ++ group :: after →
        group.firstTypeIndex = total + (before.flatMap RecursiveGroup.types).length) ∧
      n = total + (groups.flatMap RecursiveGroup.types).length ∧ n ≤ 2 ^ 32 := by
  induction groups generalizing total with
  | nil =>
    simp only [countTypes, Except.ok.injEq, flatMap_nil, length_nil, Nat.add_zero]
    constructor
    · rintro rfl
      exact ⟨fun h => by simp at h, rfl, htotal⟩
    · exact fun h => h.2.1.symm
  | cons group groups ih =>
    simp only [countTypes, bind_ok, ensure_ok, flatMap_cons, length_append]
    constructor
    · rintro ⟨_, ⟨hfirst, hlen⟩, hrest⟩
      obtain ⟨hoff, hn, hle⟩ := (ih (by omega)).mp hrest
      refine ⟨fun {before g after} h => ?_, by omega, hle⟩
      cases before with
      | nil =>
        cases h
        simpa using hfirst
      | cons b before =>
        cases h
        rw [hoff rfl, flatMap_cons, length_append, Nat.add_assoc]
    · rintro ⟨hoff, hn, hle⟩
      have hfirst : group.firstTypeIndex = total := by
        simpa using @hoff [] group groups rfl
      refine ⟨(), ⟨hfirst, by omega⟩,
        (ih (by omega)).mpr ⟨fun {before g after} h => ?_, by omega, hle⟩⟩
      rw [@hoff (group :: before) g after (by rw [h]; rfl), flatMap_cons, length_append,
        Nat.add_assoc]

theorem RecursiveTypeSection.consistent_iff {typeSection : RecursiveTypeSection} :
    typeSection.Consistent ↔ ∃ total, countTypes typeSection.groups 0 = .ok total ∧
      total = typeSection.typeCount ∧ total ≤ maxContextRecords := by
  have hmax : 2 ^ 32 ≤ maxContextRecords := by decide
  constructor
  · rintro ⟨hoff, htotal, hfits⟩
    refine ⟨typeSection.typeCount,
      (countTypes_ok (Nat.zero_le _)).mpr ⟨fun h => ?_, ?_, hfits⟩, rfl, hfits.trans hmax⟩
    · rw [hoff h, Nat.zero_add]
    · rw [← htotal, Nat.zero_add]
      rfl
  · rintro ⟨total, hcount, rfl, -⟩
    obtain ⟨hoff, hn, hle⟩ := (countTypes_ok (Nat.zero_le _)).mp hcount
    refine ⟨fun h => ?_, ?_, hle⟩
    · rw [hoff h, Nat.zero_add]
    · rw [hn, Nat.zero_add]
      rfl

-- Single types

theorem forall_exists_iff_forall₂ {α β : Type} {R : α → β → Prop} {as : List α} :
    (∀ a ∈ as, ∃ b, R a b) ↔ ∃ bs, Forall₂ R as bs := by
  induction as with
  | nil => simp
  | cons a as ih =>
    rw [forall_mem_cons, ih]
    constructor
    · rintro ⟨⟨b, hb⟩, bs, hbs⟩
      exact ⟨b :: bs, .cons hb hbs⟩
    · rintro ⟨_, h⟩
      obtain ⟨b, bs, hb, hbs, -⟩ := forall₂_cons_left_iff.mp h
      exact ⟨⟨b, hb⟩, bs, hbs⟩

theorem ofCode?_isSome :
    (∃ a, AbstractHeapType.ofCode? code = some a) ↔ abstractValid ⟨code⟩ = true := by
  constructor
  · rintro ⟨a, ha⟩
    rw [← AbstractHeapType.code_of_ofCode? ha]
    exact abstractValid_code a
  · intro h
    simp only [abstractValid, Bool.and_eq_true, decide_eq_true_eq] at h
    have hcodes : code = -12 ∨ code = -13 ∨ code = -14 ∨ code = -15 ∨ code = -16 ∨ code = -17 ∨
        code = -18 ∨ code = -19 ∨ code = -20 ∨ code = -21 ∨ code = -22 ∨ code = -23 := by omega
    rcases hcodes with rfl | rfl | rfl | rfl | rfl | rfl | rfl | rfl | rfl | rfl | rfl | rfl <;>
      exact ⟨_, rfl⟩

theorem checkHeap_iff {heap : HeapType} :
    (if heap.isDefined then ensure (toU64 heap.code < visible) .unknownType
      else ensure (abstractValid heap = true) .invalidValue :
      Except RecursiveTypeValidationError Unit) = .ok () ↔
      ∃ r, heap.denote? = some r ∧ r.InScope visible := by
  cases hdef : heap.isDefined with
  | true => simp [HeapType.denote?, hdef, HeapRef.InScope]
  | false =>
    simp only [Bool.false_eq_true, if_false, ensure_ok, HeapType.denote?, hdef,
      Option.map_eq_some_iff]
    rw [show heap = ⟨heap.code⟩ from rfl, ← ofCode?_isSome]
    constructor
    · rintro ⟨a, ha⟩
      exact ⟨_, ⟨a, ha, rfl⟩, trivial⟩
    · rintro ⟨_, ⟨a, ha, rfl⟩, -⟩
      exact ⟨a, ha⟩

theorem checkValue_ok {value : CoreValueType} : checkValue visible value = .ok () ↔
      ∃ v, value.denote? = some v ∧ ∀ r ∈ v.heaps, r.InScope visible := by
  obtain ⟨kind, heap, nullable⟩ := value
  cases kind with
  | reference =>
    simp only [checkValue, Nat.le_refl, ensure_pos, ok_bind, if_true, checkHeap_iff,
      CoreValueType.denote?, Option.map_eq_some_iff]
    constructor
    · rintro ⟨r, hr, hscope⟩
      exact ⟨_, ⟨r, hr, rfl⟩, by simpa [ValType.heaps] using hscope⟩
    · rintro ⟨_, ⟨r, hr, rfl⟩, hscope⟩
      exact ⟨r, hr, hscope r (by simp [ValType.heaps])⟩
  | beyond n =>
    have hno : ¬ (ValueKind.beyond n).toNat ≤ ValueKind.reference.toNat := by
      simp only [ValueKind.toNat]
      omega
    simp [checkValue, CoreValueType.denote?, hno, ensure_neg]
  | _ => simp [checkValue, CoreValueType.denote?, ValueKind.toNat, ValType.heaps, ensure]

theorem checkField_ok : checkField visible field = .ok () ↔
      ∃ f, field.denote? = some f ∧ ∀ r ∈ f.heaps, r.InScope visible := by
  obtain ⟨⟨value, packed⟩, mutable_⟩ := field
  cases packed with
  | none =>
    simp only [checkField, PackedKind.toNat, Nat.zero_le, ensure_pos, ok_bind, if_true,
      checkValue_ok, FieldType.denote?, Option.map_eq_some_iff]
    constructor
    · rintro ⟨v, hv, hscope⟩
      exact ⟨_, ⟨v, hv, rfl⟩, hscope⟩
    · rintro ⟨_, ⟨v, hv, rfl⟩, hscope⟩
      exact ⟨v, hv, hscope⟩
  | beyond n =>
    have hno : ¬ (PackedKind.beyond n).toNat ≤ PackedKind.i16.toNat := by
      simp only [PackedKind.toNat]
      omega
    simp [checkField, FieldType.denote?, hno, ensure_neg]
  | _ => simp [checkField, FieldType.denote?, PackedKind.toNat, Field.heaps, ensure]

theorem forall₂_and_iff {α β : Type} {R : α → β → Prop} {P : β → Prop} {as : List α} {bs : List β} :
    Forall₂ (fun a b => R a b ∧ P b) as bs ↔ Forall₂ R as bs ∧ ∀ b ∈ bs, P b := by
  induction as generalizing bs with
  | nil => cases bs <;> simp
  | cons a as ih =>
    cases bs with
    | nil => simp
    | cons b bs => simp [ih, and_and_and_comm]

theorem forM_ok_iff {α β : Type} {check : α → Except RecursiveTypeValidationError Unit}
    {denote? : α → Option β} {P : β → Prop} {as : List α}
    (h : ∀ {a}, check a = .ok () ↔ ∃ b, denote? a = some b ∧ P b) :
    as.forM check = .ok () ↔
      ∃ bs, Forall₂ (fun a b => denote? a = some b) as bs ∧ ∀ b ∈ bs, P b := by
  simp only [forM_ok, h, forall_exists_iff_forall₂, forall₂_and_iff]

theorem wellShaped_iff {type : SubType} : type.wellShaped = true ↔
    (type.kind = .function ∧ type.fields = []) ∨
      (type.kind = .struct_ ∧ type.parameters = [] ∧ type.results = []) ∨
      (type.kind = .array ∧ type.parameters = [] ∧ type.results = [] ∧ type.fields.length = 1) := by
  obtain ⟨kind, final_, binaryOffset, supertypes, parameters, results, fields⟩ := type
  cases kind with
  | function => simp [SubType.wellShaped, CompositeKind.toNat]
  | struct_ => simp [SubType.wellShaped, CompositeKind.toNat]
  | array => simp [SubType.wellShaped, CompositeKind.toNat, and_assoc]
  | beyond n =>
    have hno : ¬ 3 + n ≤ 2 := by omega
    simp [SubType.wellShaped, CompositeKind.toNat, hno]

theorem Composite.forall_mem_heaps {H : Type} {P : H → Prop} {c : Composite H} :
    (∀ r ∈ c.heaps, P r) ↔ (∀ v ∈ c.parts.1, ∀ r ∈ v.heaps, P r) ∧
      (∀ v ∈ c.parts.2.1, ∀ r ∈ v.heaps, P r) ∧ ∀ f ∈ c.parts.2.2, ∀ r ∈ f.heaps, P r := by
  cases c with
  | func => simp [Composite.heaps, Composite.parts, or_imp, forall_and]; grind
  | struct_ => simp [Composite.heaps, Composite.parts]; grind
  | array => simp [Composite.heaps, Composite.parts]

/-- The checks of one type: it denotes a definition in scope, and its supertype is an
earlier, open type of the same kind. -/
theorem checkType_ok {definitions : List SubType} {visible index : Nat} :
    checkType definitions visible index type = .ok () ↔
      ∃ c, type.composite? = some c ∧ (∀ r ∈ c.heaps, r.InScope visible) ∧
        type.supertypes.length ≤ 1 ∧ ∀ p ∈ type.supertypes, p < index ∧
          (definitions.getD p default).final_ = false ∧
          type.kind = (definitions.getD p default).kind := by
  have hsuper : type.supertypes.length ≤ 1 → (checkSupertype definitions index type = .ok () ↔
      ∀ p ∈ type.supertypes, p < index ∧ (definitions.getD p default).final_ = false ∧
        type.kind = (definitions.getD p default).kind) := by
    intro hlen
    unfold checkSupertype
    split
    case h_1 hnil => simp [hnil]
    case h_2 p rest hcons =>
      have hrest : rest = [] := by
        rw [hcons] at hlen
        exact length_eq_zero_iff.mp (by simpa using hlen)
      simp [hcons, hrest]
  simp only [checkType, bind_ok, ensure_ok, forM_ok_iff checkValue_ok, forM_ok_iff checkField_ok]
  constructor
  · rintro ⟨_, hlen, _, hshape, _, hsup, _, ⟨params, hparams, hps⟩, _, ⟨results, hresults, hrs⟩,
      fields, hfields, hfs⟩
    have hsupers := (hsuper hlen).mp hsup
    -- the kind says which lists are empty
    obtain ⟨c, hkind, rfl, rfl, rfl⟩ : ∃ c : Composite HeapRef, type.kind = c.kind ∧
        params = c.parts.1 ∧ results = c.parts.2.1 ∧ fields = c.parts.2.2 := by
      rcases wellShaped_iff.mp hshape with ⟨hkind, hnil⟩ | ⟨hkind, hnil, hnil'⟩ |
        ⟨hkind, hnil, hnil', hone⟩
      · rw [hnil, forall₂_nil_left_iff] at hfields
        exact ⟨.func params results, hkind, rfl, rfl, hfields⟩
      · rw [hnil, forall₂_nil_left_iff] at hparams
        rw [hnil', forall₂_nil_left_iff] at hresults
        exact ⟨.struct_ fields, hkind, hparams, hresults, rfl⟩
      · rw [hnil, forall₂_nil_left_iff] at hparams
        rw [hnil', forall₂_nil_left_iff] at hresults
        obtain ⟨f, rfl⟩ := length_eq_one_iff.mp (hfields.length_eq.symm.trans hone)
        exact ⟨.array f, hkind, hparams, hresults, rfl⟩
    exact ⟨c, SubType.composite?_eq_some.mpr ⟨hkind, hparams, hresults, hfields⟩,
      Composite.forall_mem_heaps.mpr ⟨hps, hrs, hfs⟩, hlen, hsupers⟩
  · rintro ⟨c, hc, hscope, hlen, hsupers⟩
    obtain ⟨hkind, hparams, hresults, hfields⟩ := SubType.composite?_eq_some.mp hc
    obtain ⟨hps, hrs, hfs⟩ := Composite.forall_mem_heaps.mp hscope
    refine ⟨(), hlen, (), wellShaped_iff.mpr ?_, (), (hsuper hlen).mpr hsupers, (),
      ⟨_, hparams, hps⟩, (), ⟨_, hresults, hrs⟩, _, hfields, hfs⟩
    cases c with
    | func => exact .inl ⟨hkind, forall₂_nil_right_iff.mp hfields⟩
    | struct_ =>
      exact .inr (.inl ⟨hkind, forall₂_nil_right_iff.mp hparams,
        forall₂_nil_right_iff.mp hresults⟩)
    | array =>
      exact .inr (.inr ⟨hkind, forall₂_nil_right_iff.mp hparams,
        forall₂_nil_right_iff.mp hresults, hfields.length_eq⟩)

end Uwvm2.Validation.Wasm3
