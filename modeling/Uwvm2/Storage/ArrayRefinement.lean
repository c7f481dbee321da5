import Uwvm2.Storage.ArrayBuilds

/-!
# The operations refine operations on lists of elements

Each operation of a build and the same operation on lists of elements go the same way: they fail
with the same status or return the same, and the arrays afterwards hold the same elements. So
the results of a sequence of calls do not depend on the build.
-/

namespace Uwvm2.Storage.GcArray

open List Region Platform

open Validation.Wasm3 (StorageType FieldType CoreValueType)
open GcObjectValue Effect

variable {p : Platform} {S L T : Type} {P : Payload p T} (R : Refinement P) (env : Env p S L)

def storageOf (head : Head p S) : StorageType :=
  (env.checkedType head.owner head.typeIndex).elim {} (·.storage)

def abstractObject (obj : ArrayObject p S T) : ArrayObject p S (List (List UInt8)) :=
  ⟨obj.head, R.view (storageOf env obj.head) obj.head.length obj.payload⟩

def abstract (w : World p S L T) : World p S L (List (List UInt8)) :=
  ⟨w.objects.map (abstractObject R env), w.rest⟩

def WellFormed (w : World p S L T) : Prop :=
  ∀ obj ∈ w.objects, R.shaped (storageOf env obj.head) obj.head.length obj.payload

/-- `a` holds the elements of `w`, whose arrays are those of `heads`. -/
structure Stands (heads : List (Head p S)) (w : World p S L T)
    (a : World p S L (List (List UInt8))) : Prop where
  heads_eq : w.heads = heads
  wellFormed : WellFormed R env w
  eq : a = abstract R env w

/-- The same without fixed arrays. -/
def Refines (w : World p S L T) (a : World p S L (List (List UInt8))) : Prop :=
  WellFormed R env w ∧ a = abstract R env w

/-- Equal results with a property. -/
def Agree {α : Type} (φ : α → Prop) (a b : α) : Prop := a = b ∧ φ a

/-- The computation goes the same way on arrays of the build and on lists of elements, where
the arrays are those of `heads`. -/
abbrev Same (heads : List (Head p S)) {α : Type} (Q : α → α → Prop)
    (F : {T : Type} → Payload p T → Op p S L T α) : Prop :=
  Simulates (Stands R env heads) (Stands R env heads) Q (F P) (F (typedElements p R.width))

section Primitives

variable {R env} {heads : List (Head p S)} {w : World p S L T} {a : World p S L (List (List UInt8))}

theorem storageOf_eq {head : Head p S}
    (h : env.checkedType head.owner head.typeIndex = some field) :
    storageOf env head = field.storage := by
  rw [storageOf, h]
  rfl

theorem heads_abstract (w : World p S L T) : (abstract R env w).heads = w.heads := by
  rw [World.heads, World.heads, abstract, map_map]
  rfl

section

variable (h : Stands R env heads w a)

include h

theorem Stands.heads_eq' : a.heads = heads := by
  rw [h.eq, heads_abstract, h.heads_eq]

theorem Stands.rest_eq : a.rest = w.rest := by
  rw [h.eq]
  rfl

theorem Stands.refines : Refines R env w a := ⟨h.wellFormed, h.eq⟩

theorem Stands.setRest (rest : L) : Stands R env heads { w with rest } { a with rest } :=
  ⟨h.heads_eq, h.wellFormed, by rw [h.eq]; rfl⟩

theorem Stands.object {place : Nat} {head : Head p S} (hplace : heads[place]? = some head) :
    ∃ t, w.objects[place]? = some ⟨head, t⟩ ∧ R.shaped (storageOf env head) head.length t ∧
      a.objects[place]? = some ⟨head, R.view (storageOf env head) head.length t⟩ := by
  rw [← h.heads_eq, World.heads, getElem?_map, Option.map_eq_some_iff] at hplace
  obtain ⟨⟨_, t⟩, hobj, rfl⟩ := hplace
  refine ⟨t, hobj, h.wellFormed _ (mem_of_getElem? hobj), ?_⟩
  rw [h.eq, abstract, getElem?_map, hobj]
  rfl

end

theorem Same.bind {α β γ : Type} {φ : α → Prop} {Q : β → γ → Prop}
    {F : {T : Type} → Payload p T → Op p S L T α}
    {f : α → Op p S L T β} {f' : α → Op p S L (List (List UInt8)) γ}
    (h : Same R env heads (Agree φ) F)
    (hf : ∀ a, φ a → Simulates (Stands R env heads) (Stands R env heads) Q (f a) (f' a)) :
    Simulates (Stands R env heads) (Stands R env heads) Q (F P >>= f)
      (F (typedElements p R.width) >>= f') :=
  h.seq fun a _ hab => hab.1 ▸ hf a hab.2

theorem checkedObject_sim (this : S) (reference : GcReference p) :
    Same R env heads (Agree fun found => ∀ place head, found = some (place, head) →
      heads[place]? = some head)
      fun _ => checkedObject env this reference := by
  intro w a h
  refine ⟨_, _, _, _, rfl, rfl, ?_, ?_, ?_⟩
  · rw [h.heads_eq, h.heads_eq', h.rest_eq]
    exact h.setRest _
  · rw [h.heads_eq, h.heads_eq', h.rest_eq]
  · rw [h.heads_eq]
    intro place head hfound
    obtain ⟨place', -, hhead⟩ := Option.bind_eq_some_iff.1 hfound
    obtain ⟨head', hplace, heq⟩ := Option.map_eq_some_iff.1 hhead
    cases heq
    exact hplace

theorem objectOr_sim (e : GcObjectStatus)
    (hfound : ∀ place head, found = some (place, head) → heads[place]? = some head) :
    Same R env heads (Agree fun found : Nat × Head p S => heads[found.1]? = some found.2)
      fun _ => objectOr e found := by
  cases found with
  | none => exact .throw e fun _ _ h => h
  | some found => exact .pure (fun _ _ h => h) ⟨rfl, hfound _ _ rfl⟩

theorem arrayOf_sim (this : S) (reference : GcReference p) :
    Same R env heads (Agree fun found : Nat × Head p S => heads[found.1]? = some found.2)
      fun _ => arrayOf env this reference :=
  (checkedObject_sim this reference).bind fun _ hfound => objectOr_sim _ hfound

theorem checkedType_sim (owner : S) (typeIndex : Nat) :
    Same R env heads (Agree fun field => env.checkedType owner typeIndex = some field)
      fun _ => checkedType env owner typeIndex := by
  unfold checkedType
  cases htype : env.checkedType owner typeIndex with
  | none => exact .throw _ fun _ _ h => h
  | some field => exact .pure (fun _ _ h => h) ⟨rfl, rfl⟩

theorem referenceMatches_sim (this : S) (reference : GcReference p) (expected : CoreValueType)
    (owner : S) :
    Same R env heads (Agree fun _ => True) fun _ =>
      referenceMatches env this reference expected owner := by
  intro w a h
  refine ⟨_, _, _, _, rfl, rfl, ?_, ?_, trivial⟩
  · rw [h.heads_eq, h.heads_eq', h.rest_eq]
    exact h.setRest _
  · rw [h.heads_eq, h.heads_eq', h.rest_eq]

theorem valueMatches_sim (this : S) (value : GcObjectValue) (storage : StorageType) (owner : S) :
    Same R env heads (Agree fun _ => True) fun _ => valueMatches env this value storage owner := by
  unfold valueMatches
  split
  · exact .pure (fun _ _ h => h) ⟨rfl, trivial⟩
  · exact referenceMatches_sim _ _ _ _

theorem retainEmbeddedReference_sim (this : S) (destination : Option Nat) (value : GcObjectValue)
    (storage : StorageType) :
    Same R env heads (fun _ _ => True) fun _ =>
      retainEmbeddedReference env this destination value storage := by
  unfold retainEmbeddedReference
  split
  · exact .pure (fun _ _ h => h) trivial
  · intro w a h
    have hens := Simulates.require (R := Stands R env heads)
      (p := (env.retain this heads w.rest destination (value.asReference p)).1 = .ok)
      (env.retain this heads w.rest destination (value.asReference p)).1
    obtain ⟨r, w', r', a', hm, hm', hst, hr⟩ := hens.mono (fun _ _ _ => trivial) _ _
      (h.setRest (env.retain this heads w.rest destination (value.asReference p)).2)
    refine ⟨r, w', r', a', ?_, ?_, hst, hr⟩
    · rw [exec_bind_ok exec_get, exec_bind_ok (exec_set _), h.heads_eq]
      exact hm
    · rw [exec_bind_ok exec_get, exec_bind_ok (exec_set _), h.heads_eq', h.rest_eq]
      exact hm'

variable {place : Nat} {head : Head p S} {field : FieldType}

section

variable (hplace : heads[place]? = some head)
  (hfield : env.checkedType head.owner head.typeIndex = some field)

include hplace hfield

theorem payloadAt_sim : Simulates (Stands R env heads) (Stands R env heads)
      (fun t e => R.shaped field.storage head.length t ∧ e = R.view field.storage head.length t)
      (payloadAt place) (payloadAt place) := by
  rw [← storageOf_eq hfield]
  intro w a h
  obtain ⟨t, hobj, hshaped, habstract⟩ := h.object hplace
  refine ⟨.ok t, w, .ok _, a, ?_, ?_, h, hshaped, rfl⟩
  · rw [payloadAt, exec_bind_ok exec_get, hobj]
    rfl
  · rw [payloadAt, exec_bind_ok exec_get, habstract]
    rfl

theorem setPayload_sim {t : T} {x : Option T} (hx : x = some t)
    (hshaped : R.shaped field.storage head.length t)
    (hy : y = some (R.view field.storage head.length t)) :
    Simulates (Stands R env heads) (Stands R env heads) (fun _ _ => True)
      (do setPayload place (← demand x)) (do setPayload place (← demand y)) := by
  refine .demand_bind hx hy ?_
  rw [← storageOf_eq hfield] at hshaped ⊢
  intro w a h
  obtain ⟨t', hobj, -, habstract⟩ := h.object hplace
  refine ⟨.ok (), { w with objects := w.objects.set place ⟨head, t⟩ }, .ok (),
    { a with objects := a.objects.set place ⟨head, R.view (storageOf env head) head.length t⟩ }, ?_,
      ?_, ?_, trivial⟩
  · rw [setPayload, exec_bind_ok exec_get, hobj, exec_bind_ok (exec_demand _)]
    rfl
  · rw [setPayload, exec_bind_ok exec_get, habstract, exec_bind_ok (exec_demand _)]
    rfl
  · refine ⟨?_, fun obj hmem => ?_, ?_⟩
    · rw [← h.heads_eq, World.heads, World.heads, map_set]
      rw [← h.heads_eq, World.heads] at hplace
      obtain ⟨hlt, hhead⟩ := List.getElem?_eq_some_iff.1 hplace
      exact hhead ▸ set_getElem_self hlt
    · rcases mem_or_eq_of_mem_set hmem with hmem | rfl
      · exact h.wellFormed obj hmem
      · exact hshaped
    · rw [h.eq, abstract, abstract, map_set]
      rfl

theorem storeElement_sim (hindex : index.toNat < head.length.toNat) (value : GcObjectValue) :
    Same R env heads (fun _ _ => True) fun P => storeElement P place index value field.storage := by
  unfold storeElement
  refine (payloadAt_sim hplace hfield).seq ?_
  rintro t _ ⟨hshaped, rfl⟩
  obtain ⟨t', hstore, hshaped', hwrite⟩ := R.store hshaped hindex value
  exact setPayload_sim hplace hfield hstore hshaped' hwrite

end

end Primitives

-- Access

section Access

variable {R env} {heads : List (Head p S)} (this : S)

theorem index_lt {length : SizeT p} (h : ¬ index ≥ length) : index.toNat < length.toNat :=
  BitVec.lt_def.1 (BitVec.not_le.1 h)

theorem window_lt {count length : SizeT p} (h : ¬ (offset > length ∨ count > length - offset))
    (hi : i < count.toNat) : (offset + p.size i).toNat < length.toNat := by
  have hwindow := window_iff.1 h
  have hlength := length.isLt
  rw [toNat_add_size (by omega)]
  omega

theorem arrayFill_sim (reference : GcReference p) (offset : SizeT p) (value : GcObjectValue)
    (count : SizeT p) :
    Same R env heads (fun _ _ => True) fun P =>
      arrayFill P env this reference offset value count := by
  unfold arrayFill
  refine (arrayOf_sim this reference).bind fun ⟨place, obj⟩ hplace => ?_
  refine .check fun hwindow => ?_
  refine (checkedType_sim _ _).bind fun field hfield => ?_
  refine .check fun _ => ?_
  refine (valueMatches_sim this _ _ _).bind fun _ _ => ?_
  refine .check fun _ => ?_
  refine (Simulates.onlyIf (fun _ => retainEmbeddedReference_sim this _ _ _) fun _ => trivial).seq
    fun _ _ _ => ?_
  exact .times (fun _ _ _ => True) trivial fun i _ _ hi _ =>
    storeElement_sim hplace hfield (window_lt hwindow hi) _

theorem sameStorage_width (ha : ValidStorage a) (hb : ValidStorage b) (h : sameStorage a b) :
    numericArrayStorageWidth a = numericArrayStorageWidth b := by
  obtain ⟨hpacked, hvalue⟩ := h
  unfold numericArrayStorageWidth
  rw [← hpacked]
  by_cases hnone : a.packed = .none
  · rw [(hvalue.resolve_left fun hne => hne hnone).1]
  · rw [ha hnone, hb (hpacked ▸ hnone)]

theorem copy_width (ha : ValidStorage a) (hb : ValidStorage b)
    (h : (fieldIsReference a && fieldIsReference b) = true ∨ sameStorage a b) :
    numericArrayStorageWidth b = numericArrayStorageWidth a := by
  rcases h with h | h
  · obtain ⟨ha, hb⟩ := (Bool.and_eq_true _ _).mp h
    rw [width_of_reference ha, width_of_reference hb]
  · exact (sameStorage_width ha hb h).symm

theorem carrier_agree (hreference : fieldIsReference storage = true)
    (hshaped : R.shaped storage n t) (hindex : index.toNat < n.toNat) :
    ∃ v, P.carrier t index = some v ∧ (typedElements p R.width).carrier (R.view storage n t) index =
      some v := by
  obtain ⟨v, hcarrier, hview⟩ := R.carrier hshaped (width_of_reference hreference) hindex
  refine ⟨v, hcarrier, ?_⟩
  show Option.map _ _ = _
  rw [hview, Option.map_some, ofBytes_bits]

theorem arrayCopy_sim (destination : GcReference p) (dstOffset : SizeT p) (source : GcReference p)
    (srcOffset count : SizeT p) :
    Same R env heads (fun _ _ => True)
      fun P => arrayCopy P env this destination dstOffset source srcOffset count := by
  unfold arrayCopy
  refine (checkedObject_sim this destination).bind fun dst? hdst => ?_
  refine (checkedObject_sim this source).bind fun src? hsrc => ?_
  refine (objectOr_sim _ hdst).bind fun ⟨dstPlace, dst⟩ hdstPlace => ?_
  refine (objectOr_sim _ hsrc).bind fun ⟨srcPlace, src⟩ hsrcPlace => ?_
  refine .check fun hdstWindow => ?_
  refine .check fun hsrcWindow => ?_
  refine (checkedType_sim _ _).bind fun dstField hdstField => ?_
  refine (checkedType_sim _ _).bind fun srcField hsrcField => ?_
  refine .check fun _ => ?_
  refine .check fun hcopy => ?_
  refine .onlyIf (fun _ => ?_) fun _ => trivial
  refine (Simulates.onlyIf (Q := fun _ _ => True) (fun href => ?_) fun _ => trivial).seq
    fun _ _ _ => ?_
  · -- every reference is checked and retained
    refine .times (fun _ _ _ => True) trivial fun i _ _ hi _ => ?_
    refine (payloadAt_sim hsrcPlace hsrcField).seq ?_
    rintro t _ ⟨hshaped, rfl⟩
    obtain ⟨v, hcarrier, habstract⟩ :=
      carrier_agree ((Bool.and_eq_true _ _).mp href).2 hshaped (window_lt hsrcWindow hi)
    refine .demand_bind hcarrier habstract ?_
    refine (referenceMatches_sim this _ _ _).bind fun _ _ => ?_
    exact .check fun _ => retainEmbeddedReference_sim this _ _ _
  · refine (payloadAt_sim hdstPlace hdstField).seq ?_
    rintro t _ ⟨hshaped, rfl⟩
    refine (payloadAt_sim hsrcPlace hsrcField).seq ?_
    rintro t' _ ⟨hshaped', rfl⟩
    obtain ⟨hshaped', hview⟩ :=
      R.congr (copy_width (env.valid hdstField) (env.valid hsrcField) hcopy) hshaped'
    obtain ⟨t'', data, hcopied, hshaped'', hread, hwrite⟩ :=
      R.copy hshaped hshaped' (window_iff.1 hdstWindow) (window_iff.1 hsrcWindow)
    rw [hview] at hread
    exact setPayload_sim hdstPlace hdstField hcopied hshaped''
      ((congrArg (Option.bind · _) hread).trans hwrite)

theorem pointer_some {α : Type} {source : Option (Nat → α)} {length : SizeT p}
    (h : ¬ (length ≠ 0 ∧ source = none)) (hi : i < length.toNat) :
    ∃ a, source.map (· i) = some a := by
  cases source with
  | some f => exact ⟨f i, rfl⟩
  | none =>
    refine absurd ⟨?_, rfl⟩ h
    rintro rfl
    rw [toNat_zero] at hi
    omega

/-- A window of a data segment that was checked. -/
structure DataWindow (source : Bytes p) (sourceOffset length : SizeT p) (width : Nat) : Prop where
  width_ne : width ≠ 0
  width_le : width ≤ 16
  bytes : length.toNat * width < 2 ^ p.sizeBits
  fits : sourceOffset.toNat + length.toNat * width ≤ source.size.toNat
  present : 0 < length.toNat → ∃ data, source.data = some data

theorem DataWindow.of_checks {length : SizeT p}
    (hsize : ¬ (width = 0 ∨ width > 16 ∨ length > BitVec.allOnes _ / p.size width))
    (hbounds : ¬ (sourceOffset > source.size ∨ length * p.size width > source.size - sourceOffset))
    (hpresent : ¬ (length * p.size width ≠ 0 ∧ source.data = none)) :
    DataWindow source sourceOffset length width := by
  rw [not_or, not_or, gt_iff_lt, gt_iff_lt, Nat.not_lt, BitVec.not_lt, BitVec.le_def,
    BitVec.toNat_udiv, BitVec.toNat_allOnes] at hsize
  obtain ⟨hne, hle, hlength⟩ := hsize
  rw [toNat_size (small (by omega)), Nat.le_div_iff_mul_le (Nat.pos_of_ne_zero hne)] at hlength
  have hpos : 0 < 2 ^ p.sizeBits := Nat.two_pow_pos _
  have hbytes : (length * p.size width).toNat = length.toNat * width :=
    toNat_mul_size (by omega) (by omega)
  refine ⟨hne, hle, by omega, hbytes ▸ window_iff.1 hbounds, fun hlength => ?_⟩
  refine Option.ne_none_iff_exists'.1 fun hnone => hpresent ⟨fun hzero => ?_, hnone⟩
  rw [hzero, toNat_zero] at hbytes
  have := Nat.mul_pos hlength (Nat.pos_of_ne_zero hne)
  omega

theorem checkData_sim (source : Bytes p) (sourceOffset length : SizeT p) (width : Nat)
    (otherBounds : Prop) [Decidable otherBounds] :
    Same R env heads (fun _ _ => otherBounds ∧ DataWindow source sourceOffset length width)
      fun _ => checkData source sourceOffset length width otherBounds := by
  unfold checkData
  refine .check fun hsize => ?_
  refine .check fun hbounds => ?_
  exact (Simulates.require _).mono fun _ _ hpresent =>
    ⟨hbounds.1, .of_checks hsize hbounds.2 hpresent⟩

theorem fieldStorageSize_cases (h : storage.value.kind ≠ .reference) :
    fieldStorageSize p storage = 0 ∨ fieldStorageSize p storage = 1 ∨
      fieldStorageSize p storage = 2 ∨
      fieldStorageSize p storage = 4 ∨ fieldStorageSize p storage = 8 ∨
        fieldStorageSize p storage = 16 := by
  unfold fieldStorageSize
  split
  · simp
  · split
    · simp
    · cases hkind : storage.value.kind <;> simp_all [wasmValueSize]

theorem dataElementValue_ok (h : storage.value.kind ≠ .reference)
    (hne : fieldStorageSize p storage ≠ 0)
    (hfits : offset + fieldStorageSize p storage ≤ data.length) :
    ∃ v, dataElementValue p data offset storage = some v := by
  have hread := read_ok hfits
  unfold dataElementValue
  rcases fieldStorageSize_cases (p := p) h with hw | hw | hw | hw | hw | hw
  · exact absurd hw hne
  all_goals
    rw [hw] at hread
    simp only [hw, hread]
    exact ⟨_, rfl⟩

theorem dataValue_ok {length : SizeT p}
    (hwindow : DataWindow source sourceOffset length (fieldStorageSize p storage))
    (hkind : storage.value.kind ≠ .reference) (hi : i < length.toNat) :
    ∃ data v, source.data = some data ∧
      dataElementValue p data (sourceOffset.toNat + i * fieldStorageSize p storage)
        storage = some v ∧
      dataValue source sourceOffset storage i = some (pack p v storage.packed) := by
  obtain ⟨data, hdata⟩ := hwindow.present (by omega)
  have hlength := source.complete data hdata
  have hmul := Nat.mul_le_mul_right (fieldStorageSize p storage) (Nat.succ_le_of_lt hi)
  rw [Nat.succ_mul] at hmul
  have hfits := hwindow.fits
  have hbytes := hwindow.bytes
  have hle := hwindow.width_le
  have hsize : (p.size i).toNat = i := toNat_size (by have := length.isLt; omega)
  have hoffset : (p.size i * p.size (fieldStorageSize p storage)).toNat =
      i * fieldStorageSize p storage := by
    rw [toNat_mul_size (by omega) (by rw [hsize]; omega), hsize]
  obtain ⟨v, hv⟩ := dataElementValue_ok hkind hwindow.width_ne
    (show (sourceOffset.toNat + i * fieldStorageSize p storage) + fieldStorageSize p storage ≤
      data.length by omega)
  refine ⟨data, v, hdata, hv, ?_⟩
  unfold dataValue
  simp only [hdata, hoffset]
  exact congrArg (Option.bind · _) hv

theorem arrayInitData_sim (typeIndex : Nat) (reference : GcReference p)
    (destinationOffset : SizeT p) (source : Bytes p) (sourceOffset length : SizeT p) :
    Same R env heads (fun _ _ => True)
      fun P => arrayInitData P env this typeIndex reference destinationOffset source
        sourceOffset length := by
  unfold arrayInitData
  refine (arrayOf_sim this reference).bind fun ⟨place, obj⟩ hplace => ?_
  refine (checkedType_sim _ _).bind fun _ _ => ?_
  refine (checkedType_sim _ _).bind fun actual hactual => ?_
  refine .check fun _ => ?_
  refine .check fun hkind => ?_
  refine (checkData_sim _ _ _ _ _).seq fun _ _ hchecked => ?_
  refine .times (fun _ _ _ => True) trivial fun i _ _ hi _ => ?_
  obtain ⟨-, v, -, -, hv⟩ := dataValue_ok hchecked.2 (fun h => hkind (.inl h)) hi
  refine .demand_bind hv hv ?_
  exact storeElement_sim hplace hactual (window_lt hchecked.1 hi) _

theorem reference_of_kind (h : ValidStorage storage) (hkind : storage.value.kind = .reference) :
    fieldIsReference storage = true := by
  refine decide_eq_true ⟨?_, hkind⟩
  by_contra hpacked
  rw [h hpacked] at hkind
  cases hkind

theorem arrayInitElements_sim (typeIndex : Nat) (reference : GcReference p)
    (destinationOffset : SizeT p) (source : Option (Nat → GcReference p)) (length : SizeT p) :
    Same R env heads (fun _ _ => True)
      fun P => arrayInitElements P env this typeIndex reference destinationOffset
        source length := by
  unfold arrayInitElements
  refine (arrayOf_sim this reference).bind fun ⟨place, obj⟩ hplace => ?_
  refine (checkedType_sim _ _).bind fun _ _ => ?_
  refine (checkedType_sim _ _).bind fun actual hactual => ?_
  refine .check fun _ => ?_
  refine .check fun hkind => ?_
  refine .check fun hwindow => ?_
  refine .check fun hpresent => ?_
  have hreference : fieldIsReference actual.storage = true :=
    reference_of_kind (env.valid hactual) (not_not.1 fun h => hkind (.inl h))
  refine (Simulates.times (fun _ _ _ => True) trivial fun i _ _ hi _ => ?_).seq fun _ _ _ => ?_
  · obtain ⟨element, helement⟩ := pointer_some hpresent hi
    refine .demand_bind helement helement ?_
    refine (referenceMatches_sim this _ _ _).bind fun _ _ => ?_
    exact .check fun _ => retainEmbeddedReference_sim this _ _ _
  · refine .times (fun _ _ _ => True) trivial fun i _ _ hi _ => ?_
    obtain ⟨element, helement⟩ := pointer_some hpresent hi
    refine .demand_bind helement helement ?_
    refine (payloadAt_sim hplace hactual).seq ?_
    rintro t _ ⟨hshaped, rfl⟩
    obtain ⟨t', hset, hshaped', hwrite⟩ :=
      R.setCarrier hshaped (width_of_reference hreference) (window_lt hwindow hi)
        (.reference element)
    exact setPayload_sim hplace hactual hset hshaped' hwrite

end Access

-- Creation

section Creation

variable {R env} {heads : List (Head p S)} (this : S) {storage : StorageType} {n : SizeT p}

section Create

variable {α : Type}
  {Q : GcReference p → GcReference p → Prop}

end Create

/-- The first `i` elements of a fresh array are those of the list. -/
structure Filling (R : Refinement P) (storage : StorageType) (n : SizeT p) (i : Nat) (t : T)
    (e : List (List UInt8)) : Prop where
  shaped : R.shaped storage n t
  length : e.length = n.toNat
  take : e.take i = (R.view storage n t).take i

theorem Filling.start (h : R.fresh storage n t) (he : e.length = n.toNat) :
    Filling R storage n 0 t e :=
  ⟨R.fresh_shaped h, he, rfl⟩

theorem Filling.eq (h : Filling R storage n n.toNat t e) : e = R.view storage n t := by
  have htake := h.take
  rwa [take_of_length_le (Nat.le_of_eq h.length),
    take_of_length_le (Nat.le_of_eq (R.length_view storage n t))] at htake

theorem Filling.write (h : Filling R storage n i t e) (hi : i < n.toNat)
    (hshaped : R.shaped storage n t')
    (hwrite : Region.write (R.view storage n t) i [element] = some (R.view storage n t')) :
    ∃ e', Region.write e i [element] = some e' ∧ Filling R storage n (i + 1) t' e' := by
  have hroom : i + [element].length ≤ e.length := by
    rw [h.length]
    exact hi
  refine ⟨_, write_ok hroom, hshaped, (write_length (write_ok hroom)).trans h.length, ?_⟩
  exact (take_write (write_ok hroom)).trans
    ((congrArg (· ++ [element]) h.take).trans (take_write hwrite).symm)

variable {field : FieldType}

end Creation

-- Sequences

section Sequences

variable {R env}

end Sequences

-- The size checks

section Widths

variable {env} {width width' : Bool → StorageType → Nat} {n : SizeT p} {c : Creation p}

end Widths

def platform64 : Platform where
  sizeBits := 64
  endian := .little
  objectValueOffset := 64
  referenceSize := 16
  wide := Nat.le_add_right 16 48
  objectValueOffset_le := by decide
  referenceSize_le := by decide

/-- The reference with a number as its first byte. -/
def numberedReference (n : UInt8) : GcReference platform64 := ⟨n :: List.replicate 15 0, rfl⟩

def byteStorage : StorageType := ⟨⟨.i32, {}, false⟩, .i8⟩

/-- Type 0 are byte arrays; the first byte of a reference is the place of its array. -/
def byteEnv (null : GcReference p) : Env p Unit Unit where
  checkedType _ index := if index = 0 then some ⟨byteStorage, true⟩ else none
  checkedObject _ _ _ reference := ((reference.bytes.head?).map (·.toNat), ())
  isNull _ := false
  nullReference := null
  referenceMatches _ _ _ _ _ _ := (true, ())
  canonicalSubtype _ _ _ _ := true
  retain _ _ _ _ _ := (.ok, ())
  destroyed _ := ()
  valid {s i field} h := by
    split at h
    · cases h
      exact fun _ => rfl
    · cases h

def byteArrays : Env platform64 Unit Unit := byteEnv (numberedReference 255)

end Uwvm2.Storage.GcArray
