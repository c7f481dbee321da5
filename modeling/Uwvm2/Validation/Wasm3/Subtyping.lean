import Uwvm2.Validation.Wasm3.Matching
import Uwvm2.Validation.Wasm3.Validator

/-!
# Matching decides subtyping

In a context that describes closed types, the matching functions of the pass decide
the matching relations. Transitivity is eliminated from the relation on heap types
first: what is left is a table over the abstract types and the descendants of closed
types (`heapMatches_iff`).
-/

namespace Uwvm2.Validation.Wasm3

open List RecursiveTypeContext

open Forest (Below)

-- Heap types without transitivity

/-- The abstract type right above the types of a kind. -/
def Composite.top {H : Type} : Composite H → AbstractHeapType
  | .func _ _ => .func
  | .struct_ _ => .struct_
  | .array _ => .array

def DefType.top (d : DefType) : Option AbstractHeapType := d.definition.map (·.composite.top)

/-- The abstract type below all types of a kind. -/
def AbstractHeapType.bottom : AbstractHeapType → AbstractHeapType
  | .func => .nofunc
  | _ => .none

def AbstractHeapType.le (a b : AbstractHeapType) : Prop := a = b ∨ a.proper b = true

def Heap.le : Heap → Heap → Prop
  | .abstract_ a, .abstract_ b => a.le b
  | .defined d, .defined e => Below DefType.super d e
  | .defined d, .abstract_ b => ∃ a, d.top = some a ∧ a.le b
  | .abstract_ a, .defined e => ∃ b, e.top = some b ∧ a = b.bottom

/-- Types have definitions, of the same kind as those of their supertypes. -/
def Homogeneous (types : List DefType) : Prop :=
  ∀ d ∈ types, ∃ a, ∀ e, Below DefType.super d e → e.top = some a

theorem top_cases {d : DefType} (h : d.top = some a) : a = .func ∨ a = .struct_ ∨ a = .array := by
  obtain ⟨t, -, rfl⟩ := Option.map_eq_some_iff.mp h
  cases t.composite <;> simp [Composite.top]

theorem AbstractHeapType.proper_trans {a : AbstractHeapType} (hab : a.proper b = true)
    (hbc : b.proper c = true) : a.proper c = true := by
  cases a <;> cases b <;> simp [proper] at hab <;> cases c <;> simp [proper] at hbc ⊢

theorem AbstractHeapType.le_trans {a : AbstractHeapType} (hab : a.le b) (hbc : b.le c) :
    a.le c := by
  rcases hab with rfl | hab
  · exact hbc
  · rcases hbc with rfl | hbc
    · exact .inr hab
    · exact .inr (proper_trans hab hbc)

section

variable {types : List DefType}

theorem Homogeneous.top_eq (hH : Homogeneous types) (hd : d ∈ types) (h : Below DefType.super d e) :
    e.top = d.top := by
  obtain ⟨a, ha⟩ := hH d hd
  rw [ha e h, ha d .refl]

theorem Heap.le_refl (h : Heap) : h.le h := by
  cases h with
  | abstract_ a => exact .inl rfl
  | defined d => exact Below.refl

theorem Heap.le_trans (hH : Homogeneous types) {h : Heap} (hh : h.In types) (hk : k.In types)
    (hhk : h.le k) (hkl : k.le l) : h.le l := by
  cases h with
  | abstract_ a =>
    cases k with
    | abstract_ b =>
      cases l with
      | abstract_ c => exact AbstractHeapType.le_trans hhk hkl
      | defined f =>
        -- nothing is below the bottom of a hierarchy
        obtain ⟨c, hc, rfl⟩ := hkl
        refine ⟨c, hc, ?_⟩
        rcases hhk with rfl | hproper
        · rfl
        · rcases top_cases hc with rfl | rfl | rfl <;>
            cases a <;> simp [AbstractHeapType.proper, AbstractHeapType.bottom] at hproper
    | defined e =>
      obtain ⟨b, hb, rfl⟩ := hhk
      cases l with
      | abstract_ c =>
        obtain ⟨b', hb', hle⟩ := hkl
        cases hb.symm.trans hb'
        refine AbstractHeapType.le_trans (.inr ?_) hle
        rcases top_cases hb with rfl | rfl | rfl <;> rfl
      | defined f => exact ⟨b, (hH.top_eq hk hkl).trans hb, rfl⟩
  | defined d =>
    cases k with
    | abstract_ b =>
      obtain ⟨a, ha, hle⟩ := hhk
      cases l with
      | abstract_ c => exact ⟨a, ha, AbstractHeapType.le_trans hle hkl⟩
      | defined f =>
        obtain ⟨c, hc, rfl⟩ := hkl
        rcases top_cases ha with rfl | rfl | rfl <;> rcases top_cases hc with rfl | rfl | rfl <;>
          simp [AbstractHeapType.le, AbstractHeapType.proper, AbstractHeapType.bottom] at hle
    | defined e =>
      cases l with
      | abstract_ c =>
        obtain ⟨b, hb, hle⟩ := hkl
        exact ⟨b, (hH.top_eq hh hhk).symm.trans hb, hle⟩
      | defined f => exact Below.trans hhk hkl

theorem Heap.bottom_le {b : AbstractHeapType} (hbt : (b, t) ∈ [(AbstractHeapType.none,
    AbstractHeapType.any), (.nofunc, .func), (.noextern_, .extern_), (.noexn, .exn)])
    (hle : h.le (.abstract_ t)) : (Heap.abstract_ b).le h := by
  simp only [mem_cons, Prod.mk.injEq, not_mem_nil, or_false] at hbt
  cases h with
  | abstract_ a =>
    rcases hbt with ⟨rfl, rfl⟩ | ⟨rfl, rfl⟩ | ⟨rfl, rfl⟩ | ⟨rfl, rfl⟩ <;>
      cases a <;> simp [Heap.le, AbstractHeapType.le, AbstractHeapType.proper] at hle ⊢
  | defined d =>
    obtain ⟨a, ha, hle⟩ := hle
    refine ⟨a, ha, ?_⟩
    rcases top_cases ha with rfl | rfl | rfl <;>
      rcases hbt with ⟨rfl, rfl⟩ | ⟨rfl, rfl⟩ | ⟨rfl, rfl⟩ | ⟨rfl, rfl⟩ <;>
      simp [AbstractHeapType.le, AbstractHeapType.proper, AbstractHeapType.bottom] at hle ⊢

/-- The rules derive nothing else than the table. -/
theorem HeapMatches.le (hH : Homogeneous types) {h : Heap} (hm : HeapMatches types h k)
    (hh : h.In types) (hk : k.In types) : h.le k := by
  induction hm with
  | refl => exact Heap.le_refl _
  | trans hmid _ _ ih₁ ih₂ => exact Heap.le_trans hH hh hmid (ih₁ hh hmid) (ih₂ hmid hk)
  | eq_any => exact .inr rfl
  | i31_eq => exact .inr rfl
  | struct_eq => exact .inr rfl
  | array_eq => exact .inr rfl
  | func hd => exact ⟨.func, by rw [DefType.top, hd]; rfl, .inl rfl⟩
  | struct_ hd => exact ⟨.struct_, by rw [DefType.top, hd]; rfl, .inl rfl⟩
  | array hd => exact ⟨.array, by rw [DefType.top, hd]; rfl, .inl rfl⟩
  | defined hde => exact hde
  | none _ ih => exact Heap.bottom_le (by simp) (ih hk trivial)
  | nofunc _ ih => exact Heap.bottom_le (by simp) (ih hk trivial)
  | noextern_ _ ih => exact Heap.bottom_le (by simp) (ih hk trivial)
  | noexn _ ih => exact Heap.bottom_le (by simp) (ih hk trivial)

theorem HeapMatches.through (hha : HeapMatches types h (.abstract_ a))
    (hal : HeapMatches types (.abstract_ a) l) :
    HeapMatches types h l := .trans (k := .abstract_ a) trivial hha hal

theorem heapMatches_of_proper (h : a.proper b = true) :
    HeapMatches types (.abstract_ a) (.abstract_ b) := by
  have hany : ∀ {c}, HeapMatches types (.abstract_ c) (.abstract_ .eq) →
      HeapMatches types (.abstract_ c) (.abstract_ .any) := fun hc => hc.through .eq_any
  cases a <;> cases b <;> simp [AbstractHeapType.proper] at h
  case noexn.exn => exact .noexn .refl
  case nofunc.func => exact .nofunc .refl
  case noextern_.extern_ => exact .noextern_ .refl
  case none.any => exact .none .refl
  case none.eq => exact .none .eq_any
  case none.i31 => exact .none (hany .i31_eq)
  case none.struct_ => exact .none (hany .struct_eq)
  case none.array => exact .none (hany .array_eq)
  case eq.any => exact .eq_any
  case i31.any => exact hany .i31_eq
  case i31.eq => exact .i31_eq
  case struct_.any => exact hany .struct_eq
  case struct_.eq => exact .struct_eq
  case array.any => exact hany .array_eq
  case array.eq => exact .array_eq

theorem heapMatches_top (h : d.top = some a) : HeapMatches types (.defined d) (.abstract_ a) := by
  obtain ⟨⟨isFinal, supers, composite⟩, hd, rfl⟩ := Option.map_eq_some_iff.mp h
  cases composite with
  | func params results => exact .func hd
  | struct_ fields => exact .struct_ hd
  | array element => exact .array hd

theorem heapMatches_of_le (h : a.le b) : HeapMatches types (.abstract_ a) (.abstract_ b) := by
  rcases h with rfl | h
  · exact .refl
  · exact heapMatches_of_proper h

theorem Heap.le.matches {h : Heap} (hle : h.le k) : HeapMatches types h k := by
  cases h with
  | abstract_ a =>
    cases k with
    | abstract_ b => exact heapMatches_of_le hle
    | defined e =>
      obtain ⟨b, hb, rfl⟩ := hle
      have htop : HeapMatches types (.defined e) (.abstract_ b) := heapMatches_top hb
      rcases top_cases hb with rfl | rfl | rfl
      · exact .nofunc htop
      · exact .none (htop.through (heapMatches_of_proper rfl))
      · exact .none (htop.through (heapMatches_of_proper rfl))
  | defined d =>
    cases k with
    | abstract_ b =>
      obtain ⟨a, ha, hle⟩ := hle
      exact (heapMatches_top ha).through (heapMatches_of_le hle)
    | defined e => exact .defined hle

theorem heapMatches_iff (hH : Homogeneous types) (hh : h.In types) (hk : k.In types) :
    HeapMatches types h k ↔ h.le k :=
  ⟨fun hm => hm.le hH hh hk, Heap.le.matches⟩

end

-- Heap types in a context

theorem AbstractHeapType.ofCode?_code (a : AbstractHeapType) : ofCode? a.code = some a := by
  cases a <;> rfl

theorem abstractValid_code (a : AbstractHeapType) : abstractValid ⟨a.code⟩ = true := by
  cases a <;> rfl

theorem AbstractHeapType.code_injective {b : AbstractHeapType} (h : a.code = b.code) : a = b := by
  have hsome : some a = some b := by rw [← ofCode?_code, ← ofCode?_code, h]
  exact Option.some.inj hsome

theorem abstractMatches_code {a b : AbstractHeapType} :
    abstractMatches ⟨a.code⟩ ⟨b.code⟩ = true ↔ a.le b := by
  simp only [abstractMatches, abstractValid_code, Bool.not_true, Bool.or_self, Bool.false_eq_true,
    if_false, HeapType.mk.injEq, AbstractHeapType.ofCode?_code]
  by_cases hab : a.code = b.code
  · obtain rfl := AbstractHeapType.code_injective hab
    simp [AbstractHeapType.le]
  · have hne : a ≠ b := fun h => hab (congrArg _ h)
    simp [hab, hne, AbstractHeapType.le]

theorem HeapType.denote?_eq_index {heap : HeapType} (h : heap.denote? = some (.index i)) :
    heap.isDefined = true ∧ toU64 heap.code = i := by
  cases hdef : heap.isDefined with
  | true =>
    simp only [denote?, hdef, if_true, Option.some.injEq, HeapRef.index.injEq] at h
    exact ⟨rfl, h⟩
  | false => simp [denote?, hdef] at h

theorem HeapType.denote?_eq_abstract {heap : HeapType} (h : heap.denote? = some (.abstract_ a)) :
    heap.isDefined = false ∧ heap = ⟨a.code⟩ := by
  cases hdef : heap.isDefined with
  | true => simp [denote?, hdef] at h
  | false =>
    simp only [denote?, hdef, Bool.false_eq_true, if_false, Option.map_eq_some_iff,
      HeapRef.abstract_.injEq, exists_eq_right] at h
    have hcode : a.code = heap.code := by simpa using find?_some h
    exact ⟨rfl, by rw [hcode]⟩

theorem HeapType.denote?_ne_bottom {heap : HeapType} (h : heap.denote? = some r) :
    heap.code ≠ HeapType.bottomCode := by
  cases r with
  | abstract_ a =>
    obtain ⟨-, rfl⟩ := denote?_eq_abstract h
    cases a <;> decide
  | index i =>
    obtain ⟨hdef, -⟩ := denote?_eq_index h
    intro hbottom
    simp [isDefined, hbottom, bottomCode] at hdef

/-- The abstract type that the pass takes for a kind. -/
def CompositeKind.top : CompositeKind → AbstractHeapType
  | .function => .func
  | .struct_ => .struct_
  | _ => .array

/-- The context describes the closed types `types`: kinds are right and intervals are
contained in each other along declared subtyping. -/
structure Describes (ctx : RecursiveTypeContext) (types : List DefType) : Prop where
  length : ctx.records.length = types.length
  homogeneous : Homogeneous types
  top : ∀ {i}, i < types.length →
    (types.getD i default).top = some (ctx.records.getD i default).kind.top
  below : ∀ {i j}, i < types.length → j < types.length →
    (Below DefType.super (types.getD i default) (types.getD j default) ↔
      (ctx.records.getD j default).preorder ≤ (ctx.records.getD i default).preorder ∧
        (ctx.records.getD i default).preorder < (ctx.records.getD j default).subtreeEnd)

theorem CompositeKind.bottom_top (kind : CompositeKind) :
    kind.top.bottom = if kind = .function then .nofunc else .none := by
  cases kind <;> rfl

section Context

variable {ctx : RecursiveTypeContext} {types : List DefType}

theorem Describes.matchesHeap_le (hD : Describes ctx types) {src dst : HeapType}
    (hr : src.denote? = some r) (hr' : dst.denote? = some r') (hs : r.InScope types.length)
    (hs' : r'.InScope types.length) :
    ctx.matchesHeap src dst = true ↔ (r.close types).le (r'.close types) := by
  have hbot := HeapType.denote?_ne_bottom hr
  have hbot' := HeapType.denote?_ne_bottom hr'
  cases r with
  | abstract_ a =>
    obtain ⟨hdef, rfl⟩ := HeapType.denote?_eq_abstract hr
    cases r' with
    | abstract_ b =>
      obtain ⟨hdef', rfl⟩ := HeapType.denote?_eq_abstract hr'
      simp only [matchesHeap, hdef, hdef', hbot, hbot', Bool.false_and,
        Bool.false_eq_true, if_false]
      exact abstractMatches_code
    | index j =>
      obtain ⟨hdef', hj⟩ := HeapType.denote?_eq_index hr'
      have hlt : j < ctx.records.length := hD.length ▸ hs'
      simp only [RecursiveTypeContext.matchesHeap, RecursiveTypeContext.contains,
        recordOf, hdef, hdef', hbot, hbot', hj, hlt, decide_true,
        Bool.not_true, Bool.and_false, Bool.false_and, Bool.false_eq_true, if_false, if_true,
        decide_eq_true_eq, ← CompositeKind.bottom_top]
      simp only [HeapRef.close, Heap.le, hD.top hs', Option.some.injEq, exists_eq_left']
      exact ⟨AbstractHeapType.code_injective, congrArg _⟩
  | index i =>
    obtain ⟨hdef, hi⟩ := HeapType.denote?_eq_index hr
    have hlt : i < ctx.records.length := hD.length ▸ hs
    cases r' with
    | abstract_ b =>
      obtain ⟨hdef', rfl⟩ := HeapType.denote?_eq_abstract hr'
      simp only [RecursiveTypeContext.matchesHeap, RecursiveTypeContext.contains,
        recordOf, hdef, hdef', hbot, hbot', hi, hlt, decide_true,
        Bool.not_true, Bool.and_false, Bool.false_and, Bool.false_eq_true, if_false, if_true]
      simp only [HeapRef.close, Heap.le, hD.top hs, Option.some.injEq, exists_eq_left']
      exact abstractMatches_code
    | index j =>
      obtain ⟨hdef', hj⟩ := HeapType.denote?_eq_index hr'
      have hlt' : j < ctx.records.length := hD.length ▸ hs'
      simp only [RecursiveTypeContext.matchesHeap, RecursiveTypeContext.contains,
        recordOf, hdef, hdef', hbot, hbot', hi, hj, hlt, hlt', decide_true,
        Bool.not_true, Bool.and_false, Bool.and_self, Bool.false_eq_true, if_false, if_true,
        Bool.and_eq_true, decide_eq_true_eq]
      exact (hD.below hs hs').symm

theorem HeapRef.close_eq_of_prefix (hp : types' <+: types) {r : HeapRef}
    (hr : r.InScope types'.length) : r.close types' = r.close types := by
  obtain ⟨rest, rfl⟩ := hp
  cases r with
  | abstract_ a => rfl
  | index i =>
    have hi : i < types'.length := hr
    simp [HeapRef.close, getElem?_append_left hi]

theorem HeapRef.InScope.mono {r : HeapRef} (h : r.InScope m) (hle : m ≤ n) : r.InScope n := by
  cases r with
  | abstract_ a => trivial
  | index i => exact Nat.lt_of_lt_of_le h hle

theorem HeapRef.close_in {r : HeapRef} (hr : r.InScope types.length) :
    (r.close types).In types := by
  cases r with
  | abstract_ a => trivial
  | index i =>
    have hi : i < types.length := hr
    simp [HeapRef.close, Heap.In, hi]

variable (hD : Describes ctx types) (hp : types' <+: types)

include hD hp

theorem Describes.matchesHeap_iff {dst : HeapType} {r : HeapRef} (hr : src.denote? = some r)
    (hr' : dst.denote? = some r') (hs : r.InScope types'.length) (hs' : r'.InScope types'.length) :
    ctx.matchesHeap src dst = true ↔
      HeapMatches types' (r.close types') (r'.close types') := by
  have hH : Homogeneous types' := fun d hd => hD.homogeneous d (hp.subset hd)
  rw [hD.matchesHeap_le hr hr' (hs.mono hp.length_le) (hs'.mono hp.length_le),
    heapMatches_iff hH (HeapRef.close_in hs) (HeapRef.close_in hs'),
    HeapRef.close_eq_of_prefix hp hs, HeapRef.close_eq_of_prefix hp hs']

end Context

-- Values, fields and composites

def NumType.kind : NumType → ValueKind
  | .i32 => .i32
  | .i64 => .i64
  | .f32 => .f32
  | .f64 => .f64
  | .v128 => .v128

theorem CoreValueType.denote?_num {value : CoreValueType} (h : value.denote? = some (.num t)) :
    value.kind = t.kind := by
  obtain ⟨kind, heap, nullable⟩ := value
  cases kind <;> simp [denote?] at h ⊢ <;> subst h <;> rfl

theorem CoreValueType.denote?_ref {value : CoreValueType} {nullable : Bool}
    (h : value.denote? = some (.ref nullable r)) :
    value.kind = .reference ∧ value.nullable = nullable ∧ value.heap.denote? = some r := by
  obtain ⟨kind, heap, nullable'⟩ := value
  cases kind <;> simp [denote?] at h ⊢
  exact ⟨h.2, h.1⟩

theorem NumType.kind_injective {t' : NumType} (h : t.kind = t'.kind) : t = t' := by
  cases t <;> cases t' <;> first | rfl | cases h

theorem NumType.kind_le (t : NumType) :
    t.kind ≠ .reference ∧ t.kind.toNat ≤ ValueKind.v128.toNat := by
  cases t <;> decide

/-- The record of a field's storage denotes `s`. -/
def StorageType.Denotes (a : StorageType) : Storage HeapRef → Prop
  | .val v => a.packed = .none ∧ a.value.denote? = some v
  | .i8 => a.packed = .i8
  | .i16 => a.packed = .i16

theorem FieldType.denotes_of_denote? {field : FieldType} (h : field.denote? = some f) :
    field.mutable_ = f.isMutable ∧ field.storage.Denotes f.storage := by
  obtain ⟨⟨value, packed⟩, mutable_⟩ := field
  cases packed with
  | none =>
    obtain ⟨v, hv, rfl⟩ := Option.map_eq_some_iff.mp h
    exact ⟨rfl, rfl, hv⟩
  | i8 =>
    cases h
    exact ⟨rfl, rfl⟩
  | i16 =>
    cases h
    exact ⟨rfl, rfl⟩
  | beyond n => cases h

theorem forall₂_iff_of_denotes {α γ δ : Type} {denote : α → Option γ} {close : γ → δ}
    {P : γ → Prop} {R : α → α → Prop} {S : δ → δ → Prop} {as bs : List α} {cs ds : List γ}
    (h : ∀ {a b c d}, denote a = some c → denote b = some d → P c → P d →
      (R a b ↔ S (close c) (close d)))
    (hac : List.Forall₂ (fun a c => denote a = some c) as cs)
    (hbd : List.Forall₂ (fun b d => denote b = some d) bs ds) (hc : ∀ c ∈ cs, P c)
    (hd : ∀ d ∈ ds, P d) :
    List.Forall₂ R as bs ↔ List.Forall₂ S (cs.map close) (ds.map close) := by
  induction hac generalizing bs ds with
  | nil =>
    cases hbd with
    | nil => exact iff_of_true .nil .nil
    | cons => exact iff_of_false nofun nofun
  | cons hhead _ ih =>
    cases hbd with
    | nil => exact iff_of_false nofun nofun
    | cons hhead' htail' =>
      obtain ⟨hc₁, hc⟩ := forall_mem_cons.mp hc
      obtain ⟨hd₁, hd⟩ := forall_mem_cons.mp hd
      rw [map_cons, map_cons, List.forall₂_cons, List.forall₂_cons, h hhead hhead' hc₁ hd₁,
        ih htail' hc hd]

theorem all_zip_iff {α β : Type} {f : α → β → Bool} {as : List α} {bs : List β} :
    as.length = bs.length ∧ ((as.zip bs).all fun p => f p.1 p.2) = true ↔
      List.Forall₂ (fun a b => f a b = true) as bs := by
  rw [List.forall₂_iff_zip, all_eq_true]
  exact ⟨fun h => ⟨h.1, fun {a b} hmem => h.2 (a, b) hmem⟩, fun h => ⟨h.1, fun p hp => h.2 hp⟩⟩

theorem all_zip_take_iff {α β : Type} {f : α → β → Bool} {as : List α} {bs : List β} :
    bs.length ≤ as.length ∧ ((as.zip bs).all fun p => f p.1 p.2) = true ↔
      List.Forall₂ (fun a b => f a b = true) (as.take bs.length) bs := by
  have hzip : as.zip bs = (as.take bs.length).zip bs := by
    induction bs generalizing as with
    | nil => simp
    | cons b bs ih =>
      cases as with
      | nil => simp
      | cons a as => simp [← ih]
  rw [hzip, ← all_zip_iff, length_take]
  refine and_congr_left fun _ => ?_
  omega

theorem compositeMatches_struct_iff : CompositeMatches types (.struct_ fields) (.struct_ fields') ↔
      List.Forall₂ (FieldMatches types) (fields.take fields'.length) fields' := by
  constructor
  · intro h
    cases h with
    | @struct_ front _ more hfields =>
      rwa [← hfields.length_eq, take_left]
  · intro h
    have hmatches : CompositeMatches types
        (.struct_ (fields.take fields'.length ++ fields.drop fields'.length)) (.struct_ fields') :=
      .struct_ h
    rwa [take_append_drop] at hmatches

section Values

variable {ctx : RecursiveTypeContext} {types : List DefType} (hD : Describes ctx types)
  (hp : types' <+: types)

include hD hp

theorem Describes.matchesValue_iff (ha : a.denote? = some v) (hb : b.denote? = some w)
    (hv : ∀ h ∈ v.heaps, h.InScope types'.length) (hw : ∀ h ∈ w.heaps, h.InScope types'.length) :
    ctx.matchesValue a b = true ↔
      ValMatches types' (v.map (HeapRef.close types')) (w.map (HeapRef.close types')) := by
  cases v with
  | num t =>
    have hkind := CoreValueType.denote?_num ha
    obtain ⟨hne, hle⟩ := t.kind_le
    cases w with
    | num t' =>
      have hkind' := CoreValueType.denote?_num hb
      simp only [matchesValue, hkind, hkind', hne, hle, if_false, decide_true,
        Bool.and_true, decide_eq_true_eq]
      constructor
      · intro h
        obtain rfl := NumType.kind_injective h
        exact .num
      · intro h
        cases h
        rfl
    | ref n r =>
      obtain ⟨hkind', -⟩ := CoreValueType.denote?_ref hb
      simp only [matchesValue, hkind, hkind', hne, decide_false,
        Bool.false_and, Bool.false_eq_true, false_iff]
      exact nofun
  | ref n r =>
    obtain ⟨hkind, hnull, hr⟩ := CoreValueType.denote?_ref ha
    cases w with
    | num t =>
      have hkind' := CoreValueType.denote?_num hb
      have hne := t.kind_le.1.symm
      simp only [matchesValue, hkind, hkind', hne, decide_false,
        Bool.false_and, Bool.false_eq_true, false_iff]
      exact nofun
    | ref n' r' =>
      obtain ⟨hkind', hnull', hr'⟩ := CoreValueType.denote?_ref hb
      have hheap := hD.matchesHeap_iff hp hr hr' (hv r (by simp [ValType.heaps]))
        (hw r' (by simp [ValType.heaps]))
      simp only [matchesValue, hkind, hkind', hnull, hnull', decide_true,
        Bool.true_and, if_true, Bool.and_eq_true, hheap]
      constructor
      · rintro ⟨hnull, hheap⟩
        exact .ref (by cases n <;> simp_all) hheap
      · intro h
        cases h with
        | ref hnull hheap => exact ⟨by cases n <;> simp_all, hheap⟩

theorem Describes.storageMatches_iff (ha : a.Denotes v) (hb : b.Denotes w)
    (hv : ∀ h ∈ (Field.mk m v).heaps, h.InScope types'.length)
    (hw : ∀ h ∈ (Field.mk n w).heaps, h.InScope types'.length) :
    ctx.storageMatches a b = true ↔
      StorageMatches types' (v.map (HeapRef.close types')) (w.map (HeapRef.close types')) := by
  cases v with
  | val v =>
    obtain ⟨hpacked, ha⟩ := ha
    cases w with
    | val w =>
      obtain ⟨hpacked', hb⟩ := hb
      have hvalue := hD.matchesValue_iff hp ha hb hv hw
      simp only [storageMatches, hpacked, hpacked', decide_true, ne_eq,
        not_true_eq_false, decide_false, Bool.false_or, Bool.true_and, hvalue]
      constructor
      · exact .val
      · intro h
        cases h with
        | val h => exact h
    | i8 | i16 =>
      exact iff_of_false (by simp_all [storageMatches, StorageType.Denotes]) nofun
  | i8 =>
    cases w with
    | val w | i16 =>
      exact iff_of_false (by simp_all [storageMatches, StorageType.Denotes]) nofun
    | i8 =>
      exact iff_of_true (by simp_all [storageMatches, StorageType.Denotes]) .i8
  | i16 =>
    cases w with
    | val w | i8 =>
      exact iff_of_false (by simp_all [storageMatches, StorageType.Denotes]) nofun
    | i16 =>
      exact iff_of_true (by simp_all [storageMatches, StorageType.Denotes]) .i16

theorem Describes.fieldMatches_iff (ha : a.denote? = some v) (hb : b.denote? = some w)
    (hv : ∀ h ∈ v.heaps, h.InScope types'.length) (hw : ∀ h ∈ w.heaps, h.InScope types'.length) :
    ctx.fieldMatches a b = true ↔
      FieldMatches types' (v.map (HeapRef.close types')) (w.map (HeapRef.close types')) := by
  obtain ⟨m, s⟩ := v
  obtain ⟨n, t⟩ := w
  obtain ⟨hmut, hs⟩ := FieldType.denotes_of_denote? ha
  obtain ⟨hmut', ht⟩ := FieldType.denotes_of_denote? hb
  have hst := hD.storageMatches_iff hp hs ht hv hw
  have hts := hD.storageMatches_iff hp ht hs hw hv
  simp only [fieldMatches, hmut, hmut', Bool.and_eq_true, Bool.or_eq_true,
    hst, hts, Field.map]
  cases m <;> cases n
  · refine ⟨fun h => .const h.1.2, fun h => ?_⟩
    cases h with
    | const h => exact ⟨⟨rfl, h⟩, .inl rfl⟩
  · exact iff_of_false (by simp) fun h => by cases h
  · exact iff_of_false (by simp) fun h => by cases h
  · refine ⟨fun h => .var h.1.2 (by simpa using h.2), fun h => ?_⟩
    cases h with
    | var h h' => exact ⟨⟨rfl, h⟩, .inr h'⟩

theorem Describes.subTypeMatches_iff (h : type.composite? = some c)
    (h' : parent.composite? = some c') (hkind : type.kind = parent.kind)
    (hc : ∀ r ∈ c.heaps, r.InScope types'.length) (hc' : ∀ r ∈ c'.heaps, r.InScope types'.length) :
    ctx.subTypeMatches type parent = true ↔
      CompositeMatches types' (c.map (HeapRef.close types')) (c'.map (HeapRef.close types')) := by
  obtain ⟨hk, hparams, hresults, hfields⟩ := SubType.composite?_eq_some.mp h
  obtain ⟨hk', hparams', hresults', hfields'⟩ := SubType.composite?_eq_some.mp h'
  cases c with
  | func params results =>
    cases c' with
    | func params' results' =>
      have hp₁ := forall₂_iff_of_denotes (hD.matchesValue_iff hp) hparams' hparams
        (fun v hv r hr => hc' r (mem_append_left _ (mem_flatMap.mpr ⟨v, hv, hr⟩)))
        (fun v hv r hr => hc r (mem_append_left _ (mem_flatMap.mpr ⟨v, hv, hr⟩)))
      have hr₁ := forall₂_iff_of_denotes (hD.matchesValue_iff hp) hresults hresults'
        (fun v hv r hr => hc r (mem_append_right _ (mem_flatMap.mpr ⟨v, hv, hr⟩)))
        (fun v hv r hr => hc' r (mem_append_right _ (mem_flatMap.mpr ⟨v, hv, hr⟩)))
      rw [← all_zip_iff] at hp₁ hr₁
      have hfunction : type.kind = .function := hk
      simp only [subTypeMatches, hfunction, if_true, Bool.and_eq_true,
        decide_eq_true_eq]
      constructor
      · rintro ⟨⟨⟨hlp, hlr⟩, hap⟩, har⟩
        exact .func (hp₁.mp ⟨hlp.symm, hap⟩) (hr₁.mp ⟨hlr, har⟩)
      · intro h
        cases h with
        | func hps hrs =>
          obtain ⟨hlp, hap⟩ := hp₁.mpr hps
          obtain ⟨hlr, har⟩ := hr₁.mpr hrs
          exact ⟨⟨⟨hlp.symm, hlr⟩, hap⟩, har⟩
    | struct_ => cases hk.symm.trans (hkind.trans hk')
    | array => cases hk.symm.trans (hkind.trans hk')
  | struct_ fields =>
    cases c' with
    | func => cases hk.symm.trans (hkind.trans hk')
    | struct_ fields' =>
      have hlen : parent.fields.length = fields'.length := hfields'.length_eq
      have hf := forall₂_iff_of_denotes (hD.fieldMatches_iff hp)
        (List.forall₂_take parent.fields.length hfields) hfields'
        (fun v hv r hr => hc r (mem_flatMap.mpr ⟨v, mem_of_mem_take hv, hr⟩))
        (fun v hv r hr => hc' r (mem_flatMap.mpr ⟨v, hv, hr⟩))
      rw [← all_zip_take_iff] at hf
      have hstruct : type.kind = .struct_ := hk
      simp only [subTypeMatches, hstruct, reduceCtorEq, if_false,
        Bool.and_eq_true, decide_eq_true_eq, Composite.map, compositeMatches_struct_iff]
      rw [hf, hlen, length_map, map_take]
      rfl
    | array => cases hk.symm.trans (hkind.trans hk')
  | array element =>
    cases c' with
    | func => cases hk.symm.trans (hkind.trans hk')
    | struct_ => cases hk.symm.trans (hkind.trans hk')
    | array element' =>
      obtain ⟨a, rest, ha, hrest, hafields⟩ := List.forall₂_cons_right_iff.mp hfields
      obtain ⟨b, rest', hb, hrest', hbfields⟩ := List.forall₂_cons_right_iff.mp hfields'
      obtain rfl := List.forall₂_nil_right_iff.mp hrest
      obtain rfl := List.forall₂_nil_right_iff.mp hrest'
      have hf := hD.fieldMatches_iff hp ha hb hc hc'
      have harray : type.kind = .array := hk
      simp only [subTypeMatches, harray, reduceCtorEq, if_false, hafields,
        hbfields, length_singleton, Nat.le_refl, decide_true, zip_cons_cons,
        zip_nil_left, all_cons, all_nil, Bool.and_true, Bool.true_and, hf,
        Composite.map]
      constructor
      · exact .array
      · intro h
        cases h with
        | array h => exact h

end Values

end Uwvm2.Validation.Wasm3
