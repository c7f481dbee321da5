import Uwvm2.Storage.ArrayRefinement

/-!
# Windows of arrays

`array_fill`, `array_copy`, `array_init_data` and `array_init_elements` return an error and leave
every element of every array as it is, or replace exactly the elements of one window. This is
shown on lists of elements and carries over to both builds.
-/

namespace Uwvm2.Storage.GcArray

open List Region

open Validation.Wasm3 (StorageType FieldType)
open GcObjectValue Effect

abbrev Elements (p : Platform) (S L : Type) := World p S L (List (List UInt8))

variable {p : Platform} {S L : Type}

/-- The elements of one array from `offset` on are replaced, all others are the same. -/
structure Replaced (a a' : Elements p S L) (place offset : Nat) (values : List (List UInt8)) :
    Prop where
  others : ∀ i, i ≠ place → a'.objects[i]? = a.objects[i]?
  window : ∃ head before after, a.objects[place]? = some ⟨head, before⟩ ∧
    write before offset values = some after ∧ a'.objects[place]? = some ⟨head, after⟩

/-- What a call may do whose success is to write elements with property `Spec`. -/
inductive Outcome (a a' : Elements p S L) (offset : Nat) (Spec : Nat → List (List UInt8) → Prop) :
    Except GcObjectStatus Unit → Prop
  | refused {status : GcObjectStatus} : status ≠ .ok → a'.objects = a.objects →
    Outcome a a' offset Spec (.error status)
  | done {place : Nat} {values : List (List UInt8)} :
    Spec place values → Replaced a a' place offset values → Outcome a a' offset Spec (.ok ())

/-- The array of a reference, and the type of its elements. -/
def Addressed (env : Env p S L) (this : S) (a : Elements p S L) (reference : GcReference p)
    (place : Nat) (storage : StorageType) : Prop :=
  (env.checkedObject this a.heads a.rest reference).1 = some place ∧
    ∃ head field, a.heads[place]? = some head ∧ env.checkedType head.owner head.typeIndex =
      some field ∧ field.storage = storage

variable (env : Env p S L) (this : S) (a : Elements p S L)

/-- The value, packed, in all places. -/
def FillSpec (reference : GcReference p) (value : GcObjectValue) (count : SizeT p) (place : Nat)
    (values : List (List UInt8)) : Prop :=
  ∃ storage, Addressed env this a reference place storage ∧
    values = List.replicate count.toNat (encode p storage (pack p value storage.packed))

/-- The elements of the source window before the call. -/
def CopySpec (destination source : GcReference p) (srcOffset count : SizeT p) (place : Nat)
    (values : List (List UInt8)) : Prop :=
  (env.checkedObject this a.heads a.rest destination).1 = some place ∧
    ∃ srcPlace obj,
      (env.checkedObject this a.heads (env.checkedObject this a.heads a.rest destination).2
        source).1 = some srcPlace ∧
      a.objects[srcPlace]? = some obj ∧ read obj.payload srcOffset.toNat count.toNat = some values

/-- The elements of the data segment from a byte offset on, packed. -/
def DataSpec (reference : GcReference p) (source : Bytes p) (sourceOffset length : SizeT p)
    (place : Nat) (values : List (List UInt8)) : Prop :=
  ∃ storage, Addressed env this a reference place storage ∧ values.length = length.toNat ∧
    ∀ i < length.toNat, ∃ data value, source.data = some data ∧
      dataElementValue p data (sourceOffset.toNat + i * fieldStorageSize p storage) storage =
        some value ∧
      values[i]? = some (encode p storage (pack p value storage.packed))

def ElementsSpec (reference : GcReference p) (source : Option (Nat → GcReference p))
    (length : SizeT p) (place : Nat) (values : List (List UInt8)) : Prop :=
  (∃ storage, Addressed env this a reference place storage) ∧ values.length = length.toNat ∧
    ∀ i < length.toNat, ∃ references, source = some references ∧
      values[i]? = some (GcObjectValue.reference (references i)).bits

-- Steps that change no array

section Steps

variable {env this a} {a₁ : Elements p S L}

def Refused (a : Elements p S L) (status : GcObjectStatus) (a' : Elements p S L) : Prop :=
  status ≠ .ok ∧ a'.objects = a.objects

/-- From any world with these arrays a computation ends as `Q` says, or is refused. -/
def Runs {α : Type} (a : Elements p S L) (m : Op p S L (List (List UInt8)) α)
    (Q : α → Elements p S L → Prop) : Prop :=
  ∀ a₁ : Elements p S L, a₁.objects = a.objects → Triple m a₁ Q (Refused a)

/-- The computation leaves the arrays as they are, and its result satisfies `P`. -/
def Keeps {α : Type} (a : Elements p S L) (m : Op p S L (List (List UInt8)) α)
    (P : α → Prop) : Prop :=
  Runs a m fun x a' => P x ∧ a'.objects = a.objects

section Rules

variable {α β : Type} {m : Op p S L (List (List UInt8)) α}
  {P : α → Prop} {Q Q' : β → Elements p S L → Prop} {c : Prop} [Decidable c]

theorem Keeps.bind (hm : Keeps a m P) (hk : ∀ x, P x → Runs a (k x) Q) : Runs a (m >>= k) Q :=
  fun a₁ h => (hm a₁ h).bind fun x a₂ hx => hk x hx.1 a₂ hx.2

theorem Runs.mono {m : Op p S L (List (List UInt8)) β} (h : Runs a m Q)
    (hQ : ∀ x a', Q x a' → Q' x a') : Runs a m Q' :=
  fun a₁ h₁ => (h a₁ h₁).mono hQ fun _ _ h => h

theorem Runs.check {k : Unit → Op p S L (List (List UInt8)) β} (hk : c → Runs a (k ()) Q)
    (hstatus : status ≠ .ok := by decide) :
    Runs a (require c status >>= k) Q := fun a₁ h =>
  (Triple.require (Q := fun _ a' => c ∧ a' = a₁) (fun hc => ⟨hc, rfl⟩) fun _ =>
    ⟨hstatus, h⟩).bind (by
    rintro _ _ ⟨hc, rfl⟩
    exact hk hc _ h)

theorem Runs.onlyIf {m : Op p S L (List (List UInt8)) Unit} {Q : Unit → Elements p S L → Prop}
    (hm : c → Runs a m Q) (hn : ¬ c → ∀ a', a'.objects = a.objects → Q () a') :
    Runs a (onlyIf c m) Q := fun a₁ h =>
  .onlyIf (fun hc => hm hc a₁ h) fun hc => hn hc a₁ h

theorem Keeps.onlyIf {m : Op p S L (List (List UInt8)) Unit} (hm : c → Keeps a m fun _ => True) :
    Keeps a (onlyIf c m) fun _ => True :=
  Runs.onlyIf hm fun _ _ h => ⟨trivial, h⟩

theorem Keeps.times (h : ∀ i < n, Keeps a (body i ()) fun _ => True) :
    Keeps a (times n body ()) fun _ => True :=
  fun _ h₁ => .times (fun _ _ (a' : Elements p S L) => True ∧ a'.objects = a.objects) ⟨trivial, h₁⟩
    fun i _ a₂ hi h₂ => h i hi a₂ h₂.2

end Rules

theorem heads_congr (h : a₁.objects = a.objects) : a₁.heads = a.heads := by
  rw [World.heads, World.heads, h]

theorem checkedObject_triple (reference : GcReference p) (h : a₁.objects = a.objects) :
    Triple (checkedObject env this reference) a₁
      (fun found a' => a'.objects = a.objects ∧
        a'.rest = (env.checkedObject this a.heads a₁.rest reference).2 ∧
        ∀ place head, found = some (place, head) →
          (env.checkedObject this a.heads a₁.rest reference).1 = some place ∧
            a.heads[place]? = some head)
      (Refused a) := by
  refine .of_ok rfl ⟨h, by rw [heads_congr h], fun place head hfound => ?_⟩
  rw [heads_congr h] at hfound
  obtain ⟨place', hplace, hhead⟩ := Option.bind_eq_some_iff.1 hfound
  obtain ⟨head', hhead, heq⟩ := Option.map_eq_some_iff.1 hhead
  cases heq
  exact ⟨hplace, hhead⟩

theorem referenceError_ne (reference : GcReference p) : referenceError env reference ≠ .ok := by
  unfold referenceError
  split <;> nofun

theorem objectOr_keeps (reference : GcReference p) (found : Option (Nat × Head p S)) :
    Keeps a (objectOr (referenceError env reference) found) fun object => found = some object := by
  intro a₁ h
  cases found with
  | none => exact .throw ⟨referenceError_ne reference, h⟩
  | some object => exact .pure ⟨rfl, h⟩

theorem arrayOf_triple {α : Type} {reference : GcReference p}
    {k : Nat × Head p S → Op p S L (List (List UInt8)) α} {Q : α → Elements p S L → Prop}
    (hk : ∀ place head, (env.checkedObject this a.heads a.rest reference).1 = some place →
      a.heads[place]? = some head → Runs a (k (place, head)) Q) :
    Triple (arrayOf env this reference >>= k) a Q (Refused a) := by
  rw [arrayOf, bind_assoc]
  refine (checkedObject_triple reference rfl).bind ?_
  rintro found a₁ ⟨h, -, hfound⟩
  refine (objectOr_keeps reference found).bind ?_ a₁ h
  rintro ⟨place, head⟩ rfl
  obtain ⟨hreference, hplace⟩ := hfound place head rfl
  exact hk place head hreference hplace

theorem checkedType_keeps (owner : S) (typeIndex : Nat) :
    Keeps a (checkedType env owner typeIndex) fun field =>
      env.checkedType owner typeIndex = some field := by
  intro a₁ h
  unfold checkedType
  cases htype : env.checkedType owner typeIndex with
  | none => exact .throw ⟨nofun, h⟩
  | some field => exact .pure ⟨rfl, h⟩

theorem referenceMatches_keeps (reference : GcReference p)
    (expected : Validation.Wasm3.CoreValueType)
    (owner : S) : Keeps a (referenceMatches env this reference expected owner) fun _ => True :=
  fun _ h => .of_ok rfl ⟨trivial, h⟩

theorem valueMatches_keeps (value : GcObjectValue) (storage : StorageType) (owner : S) :
    Keeps a (valueMatches env this value storage owner) fun _ => True := by
  intro a₁ h
  unfold valueMatches
  split
  · exact .pure ⟨trivial, h⟩
  · exact referenceMatches_keeps _ _ _ a₁ h

theorem retainEmbeddedReference_keeps (destination : Option Nat) (value : GcObjectValue)
    (storage : StorageType) :
    Keeps a (retainEmbeddedReference env this destination value storage) fun _ => True := by
  intro a₁ h
  unfold retainEmbeddedReference
  split
  · exact .pure ⟨trivial, h⟩
  · have hrequire : Triple
        (require ((env.retain this a₁.heads a₁.rest destination (value.asReference p)).1 = .ok)
        (env.retain this a₁.heads a₁.rest destination (value.asReference p)).1)
        { a₁ with rest := (env.retain this a₁.heads a₁.rest destination (value.asReference p)).2 }
        (fun _ a' => True ∧ a'.objects = a.objects) (Refused a) :=
      .require (fun _ => ⟨trivial, h⟩) fun hne => ⟨hne, h⟩
    exact hrequire

theorem demand_keeps {α : Type} {x : Option α} {v : α} (hx : x = some v) :
    Keeps a (demand x) fun t => v = t := by
  subst hx
  exact fun _ h => .of_ok (exec_demand v) ⟨rfl, h⟩

end Steps

-- Writes

section Writes

variable {env this a} {a₁ : Elements p S L} {place : Nat} {head : Head p S}
  {before : List (List UInt8)}

theorem Replaced.of_set {after : List (List UInt8)} (hobj : a.objects[place]? = some ⟨head, before⟩)
    (hwrite : write before offset values = some after)
    (h : a'.objects = a.objects.set place ⟨head, after⟩) : Replaced a a' place offset values := by
  refine ⟨fun i hi => ?_, head, before, after, hobj, hwrite, ?_⟩
  · rw [h, getElem?_set_ne (Ne.symm hi)]
  · rw [h, List.getElem?_set_self (List.getElem?_eq_some_iff.1 hobj).1]

theorem objects_eq_set (hobj : a.objects[place]? = some ⟨head, before⟩)
    (h : a₁.objects = a.objects) :
    a₁.objects = a.objects.set place ⟨head, before⟩ := by
  obtain ⟨hlt, hself⟩ := List.getElem?_eq_some_iff.1 hobj
  rw [h, ← hself, set_getElem_self]

theorem setPayload_triple (hplace : place < a.objects.length)
    (h : a₁.objects = a.objects.set place ⟨head, e⟩) (e' : List (List UInt8)) :
    Triple (setPayload place e') a₁ (fun _ a' => a'.objects = a.objects.set place ⟨head, e'⟩)
      (Refused a) := by
  have hobj : a₁.objects[place]? = some ⟨head, e⟩ := by rw [h, getElem?_set_self hplace]
  have hwritten : a₁.objects.set place ⟨head, e'⟩ = a.objects.set place ⟨head, e'⟩ := by
    rw [h, set_set]
  refine ⟨.ok (), { a₁ with objects := a₁.objects.set place ⟨head, e'⟩ }, ?_, hwritten⟩
  rw [setPayload, exec_bind_ok exec_get, hobj, exec_bind_ok (exec_demand _)]
  rfl

section

variable (hplace : place < a.objects.length)
  (h : a₁.objects = a.objects.set place ⟨head, e⟩)

include hplace h

theorem update_triple {f : List (List UInt8) → Option (List (List UInt8))} (hf : f e = some e') :
    Triple (do setPayload place (← demand (f (← payloadAt place)))) a₁
      (fun _ a' => a'.objects = a.objects.set place ⟨head, e'⟩) (Refused a) := by
  have hobj : a₁.objects[place]? = some ⟨head, e⟩ := by rw [h, getElem?_set_self hplace]
  have hget : exec (payloadAt place : Op p S L _ _) a₁ = some (.ok e, a₁) := by
    rw [payloadAt, exec_bind_ok exec_get, hobj]
    rfl
  obtain ⟨r, a', hset, hr⟩ := setPayload_triple hplace h e'
  refine ⟨r, a', ?_, hr⟩
  rw [exec_bind_ok hget, hf, exec_bind_ok (exec_demand _)]
  exact hset

theorem demand_update_triple {α : Type} {x : Option α} {v : α} (hx : x = some v)
    {f : α → List (List UInt8) → Option (List (List UInt8))} (hf : f v e = some e') :
    Triple (do
        let v ← demand x
        setPayload place (← demand (f v (← payloadAt place)))) a₁
      (fun _ a' => a'.objects = a.objects.set place ⟨head, e'⟩) (Refused a) := by
  subst hx
  obtain ⟨r, a', hexec, hr⟩ := update_triple hplace h hf
  exact ⟨r, a', (exec_bind_ok (exec_demand v)).trans hexec, hr⟩

end

theorem window_loop (element : Nat → List UInt8) (hplace : a.objects[place]? = some ⟨head, before⟩)
    (hfits : offset + n ≤ before.length)
    (hbody : ∀ i a₂ e e', i < n → a₂.objects = a.objects.set place ⟨head, e⟩ →
      write e (offset + i) [element i] = some e' →
      Triple (body i ()) a₂ (fun _ a' => a'.objects = a.objects.set place ⟨head, e'⟩) (Refused a)) :
    Runs a (times n body ()) fun _ a' =>
      Replaced a a' place offset ((List.range n).map element) := by
  intro a₁ h
  have hloop : Triple (times n body ()) a₁
      (fun _ a' => ∃ e, write before offset ((List.range n).map element) = some e ∧
        a'.objects = a.objects.set place ⟨head, e⟩) (Refused a) := by
    refine .times (fun i _ (a' : Elements p S L) =>
      ∃ e, write before offset ((List.range i).map element) = some e ∧
      a'.objects = a.objects.set place ⟨head, e⟩) 
      ⟨before, write_nil (by omega), objects_eq_set hplace h⟩ ?_
    rintro i _ a₂ hi ⟨e, hwritten, h₂⟩
    have hlength : ((List.range i).map element).length = i := by rw [length_map, length_range]
    have hroom : offset + ((List.range i).map element).length + [element i].length ≤
        before.length := by
      rw [hlength, length_singleton]
      omega
    obtain ⟨e', hwrite, hwritten'⟩ := write_append hwritten hroom
    rw [hlength] at hwrite
    refine (hbody i a₂ e e' hi h₂ hwrite).mono (fun _ a' h' => ⟨e', ?_, h'⟩) fun _ _ h => h
    rw [range_succ, map_append]
    exact hwritten'
  refine hloop.mono ?_ fun _ _ h => h
  rintro _ a' ⟨e, hwritten, h'⟩
  exact .of_set hplace hwritten h'

end Writes

-- Calls on lists of elements

/-- Arrays have as many elements as their length says. -/
def Sized (a : Elements p S L) : Prop :=
  ∀ obj ∈ a.objects, obj.payload.length = obj.head.length.toNat

section Calls

variable {env this a}

theorem Sized.object (h : Sized a) {place : Nat} {head : Head p S}
    (hplace : a.heads[place]? = some head) :
    ∃ before, a.objects[place]? = some ⟨head, before⟩ ∧ before.length = head.length.toNat := by
  rw [World.heads, getElem?_map, Option.map_eq_some_iff] at hplace
  obtain ⟨⟨_, before⟩, hobj, rfl⟩ := hplace
  exact ⟨before, hobj, h _ (mem_of_getElem? hobj)⟩

theorem toNat_window {count length : SizeT p} (h : offset.toNat + count.toNat ≤ length.toNat)
    (hi : i < count.toNat) : (offset + p.size i).toNat = offset.toNat + i :=
  toNat_add_size (by have := length.isLt; omega)

theorem arrayFill_triple (h : Sized a) (reference : GcReference p) (offset : SizeT p)
    (value : GcObjectValue) (count : SizeT p) :
    Triple (arrayFill (typedElements p width) env this reference offset value count) a
      (fun _ a' => ∃ place values, FillSpec env this a reference value count place values ∧
        Replaced a a' place offset.toNat values) (Refused a) := by
  refine arrayOf_triple fun place obj hreference hplace => ?_
  refine .check fun hwindow => ?_
  refine (checkedType_keeps _ _).bind fun field hfield => ?_
  refine .check fun _ => ?_
  refine (valueMatches_keeps _ _ _).bind fun _ _ => ?_
  refine .check fun _ => ?_
  refine Keeps.bind (.onlyIf fun _ => retainEmbeddedReference_keeps _ _ _) fun _ _ => ?_
  obtain ⟨before, hobj, hlength⟩ := h.object hplace
  have hbounds := window_iff.1 hwindow
  refine (window_loop (fun _ => encode p field.storage (pack p value field.storage.packed)) hobj
    (hlength ▸ hbounds) fun i a₈ e e' hi h₈ hwrite => ?_).mono fun _ a' hreplaced => ?_
  · refine update_triple (List.getElem?_eq_some_iff.1 hobj).1 h₈ ?_
    show write e (offset + p.size i).toNat _ = some e'
    rw [toNat_window hbounds hi]
    exact hwrite
  · refine ⟨place, _, ⟨field.storage, ⟨hreference, obj, field, hplace, hfield, rfl⟩, ?_⟩, hreplaced⟩
    rw [map_const', length_range]

theorem payloadAt_keeps {head : Head p S} (hobj : a.objects[place]? = some ⟨head, before⟩) :
    Keeps a (payloadAt place) fun t => before = t := by
  intro a₁ h
  refine .of_ok (a := before) ?_ ⟨rfl, h⟩
  rw [payloadAt, exec_bind_ok exec_get, h, hobj]
  rfl

theorem arrayCopy_triple (h : Sized a) (destination : GcReference p) (dstOffset : SizeT p)
    (source : GcReference p) (srcOffset count : SizeT p) :
    Triple (arrayCopy (typedElements p width) env this destination dstOffset source
      srcOffset count) a
      (fun _ a' => ∃ place values, CopySpec env this a destination source srcOffset
        count place values ∧ Replaced a a' place dstOffset.toNat values) (Refused a) := by
  unfold arrayCopy
  refine (checkedObject_triple destination rfl).bind ?_
  rintro dst? a₁ ⟨h₁, hrest, hdst⟩
  refine (checkedObject_triple source h₁).bind ?_
  rintro src? a₂ ⟨h₂, -, hsrc⟩
  refine (objectOr_keeps destination dst?).bind ?_ a₂ h₂
  rintro ⟨dstPlace, dst⟩ rfl
  refine (objectOr_keeps source src?).bind ?_
  rintro ⟨srcPlace, src⟩ rfl
  obtain ⟨hdst, hdstPlace⟩ := hdst _ _ rfl
  obtain ⟨hsrc, hsrcPlace⟩ := hsrc _ _ rfl
  rw [hrest] at hsrc
  refine .check fun hdstWindow => ?_
  refine .check fun hsrcWindow => ?_
  refine (checkedType_keeps _ _).bind fun dstField _ => ?_
  refine (checkedType_keeps _ _).bind fun srcField _ => ?_
  refine .check fun _ => ?_
  refine .check fun _ => ?_
  have hdstBounds := window_iff.1 hdstWindow
  have hsrcBounds := window_iff.1 hsrcWindow
  obtain ⟨before, hobj, hlength⟩ := h.object hdstPlace
  obtain ⟨sourceValues, hsource, hsourceLength⟩ := h.object hsrcPlace
  have hread := read_ok (hsourceLength ▸ hsrcBounds)
  have hspec : CopySpec env this a destination source srcOffset count dstPlace _ :=
    ⟨hdst, srcPlace, _, hsrc, hsource, hread⟩
  refine .onlyIf (fun _ => ?_) fun hzero a' h' => ?_
  · refine Keeps.bind (.onlyIf fun _ => .times fun i hi => ?_) fun _ _ => ?_
    · -- the references are read from the source and retained
      refine (payloadAt_keeps hsource).bind ?_
      rintro _ rfl
      have hindex : (srcOffset + p.size i).toNat < sourceValues.length := by
        rw [toNat_window hsrcBounds hi]
        omega
      have hcarrier : (typedElements p width).carrier sourceValues (srcOffset + p.size i) =
          some (ofBytes (sourceValues[(srcOffset + p.size i).toNat])) := by
        show Option.map _ _ = _
        rw [getElem?_eq_getElem hindex]
        rfl
      refine (demand_keeps hcarrier).bind ?_
      rintro _ rfl
      refine (referenceMatches_keeps _ _ _).bind fun _ _ => ?_
      refine .check fun _ => ?_
      exact retainEmbeddedReference_keeps _ _ _
    · refine (payloadAt_keeps hobj).bind ?_
      rintro _ rfl
      refine (payloadAt_keeps hsource).bind ?_
      rintro _ rfl
      have hroom : dstOffset.toNat + ((sourceValues.drop srcOffset.toNat).take count.toNat).length ≤
          before.length := by
        rw [length_of_read hread, hlength]
        exact hdstBounds
      have hwrite := write_ok hroom
      have hcopy := (congrArg (Option.bind · (write before dstOffset.toNat)) hread).trans hwrite
      refine (demand_keeps hcopy).bind ?_
      rintro _ rfl a₁₂ h₁₂
      refine (setPayload_triple (List.getElem?_eq_some_iff.1 hobj).1
        (objects_eq_set hobj h₁₂) _).mono
        (fun _ a' h' => ⟨dstPlace, _, hspec, .of_set hobj hwrite h'⟩) fun _ _ h => h
  · refine ⟨dstPlace, _, hspec, .of_set hobj ?_ (objects_eq_set hobj h')⟩
    rw [not_not.1 hzero, toNat_zero, take_zero]
    exact write_nil (by omega)

theorem checkData_keeps {source : Bytes p} {length : SizeT p} {otherBounds : Prop}
    [Decidable otherBounds] :
    Keeps a (checkData source sourceOffset length width otherBounds) fun _ =>
      otherBounds ∧ DataWindow source sourceOffset length width := by
  refine Runs.check fun hsize => .check fun hbounds a₁ h => ?_
  exact .require (fun hpresent => ⟨⟨hbounds.1, .of_checks hsize hbounds.2 hpresent⟩, h⟩)
    fun _ => ⟨by decide, h⟩

theorem arrayInitData_triple (h : Sized a) (typeIndex : Nat) (reference : GcReference p)
    (destinationOffset : SizeT p) (source : Bytes p) (sourceOffset length : SizeT p) :
    Triple (arrayInitData (typedElements p width) env this typeIndex reference destinationOffset
      source sourceOffset length) a
      (fun _ a' => ∃ place values, DataSpec env this a reference source sourceOffset
        length place values ∧ Replaced a a' place destinationOffset.toNat values) (Refused a) := by
  refine arrayOf_triple fun place obj hreference hplace => ?_
  refine (checkedType_keeps _ _).bind fun _ _ => ?_
  refine (checkedType_keeps _ _).bind fun actual hactual => ?_
  refine .check fun _ => ?_
  refine .check fun hkind => ?_
  refine checkData_keeps.bind fun _ ⟨hwindow, hdata⟩ => ?_
  obtain ⟨before, hobj, hlength⟩ := h.object hplace
  have hbounds := window_iff.1 hwindow
  have hvalue (i : Nat) (hi : i < length.toNat) := dataValue_ok hdata (fun h => hkind (.inl h)) hi
  refine (window_loop (fun i => ((dataValue source sourceOffset actual.storage i).map
    (encode p actual.storage)).getD []) hobj (hlength ▸ hbounds)
      fun i a₇ e e' hi h₇ hwrite => ?_).mono
    fun _ a' hreplaced => ?_
  · obtain ⟨-, v, -, -, hv⟩ := hvalue i hi
    simp only [hv, Option.map_some, Option.getD_some] at hwrite
    rw [← toNat_window hbounds hi] at hwrite
    exact demand_update_triple (List.getElem?_eq_some_iff.1 hobj).1 h₇ hv hwrite
  · refine ⟨place, _, ⟨actual.storage, ⟨hreference, obj, actual, hplace, hactual, rfl⟩, ?_,
      fun i hi => ?_⟩, hreplaced⟩
    · rw [length_map, length_range]
    · obtain ⟨data, v, hsource, helement, hv⟩ := hvalue i hi
      refine ⟨data, v, hsource, helement, ?_⟩
      rw [getElem?_map, getElem?_range hi, Option.map_some, hv]
      rfl

theorem arrayInitElements_triple (h : Sized a) (typeIndex : Nat) (reference : GcReference p)
    (destinationOffset : SizeT p) (source : Option (Nat → GcReference p)) (length : SizeT p) :
    Triple (arrayInitElements (typedElements p width) env this typeIndex reference destinationOffset
      source length) a
      (fun _ a' => ∃ place values, ElementsSpec env this a reference source length place values ∧
        Replaced a a' place destinationOffset.toNat values) (Refused a) := by
  refine arrayOf_triple fun place obj hreference hplace => ?_
  refine (checkedType_keeps _ _).bind fun _ _ => ?_
  refine (checkedType_keeps _ _).bind fun actual hactual => ?_
  refine .check fun _ => ?_
  refine .check fun _ => ?_
  refine .check fun hwindow => ?_
  refine .check fun hpresent => ?_
  obtain ⟨before, hobj, hlength⟩ := h.object hplace
  have hbounds := window_iff.1 hwindow
  refine Keeps.bind (.times fun i hi => ?_) fun _ _ => ?_
  · -- every reference is checked and retained before the first is written
    obtain ⟨element, helement⟩ := pointer_some hpresent hi
    refine (demand_keeps helement).bind ?_
    rintro _ rfl
    refine (referenceMatches_keeps _ _ _).bind fun _ _ => ?_
    refine .check fun _ => ?_
    exact retainEmbeddedReference_keeps _ _ _
  · refine (window_loop
      (fun i => ((source.map (· i)).map fun r => (GcObjectValue.reference r).bits).getD [])
      hobj (hlength ▸ hbounds) fun i a₉ e e' hi h₉ hwrite => ?_).mono fun _ a' hreplaced => ?_
    · obtain ⟨element, helement⟩ := pointer_some hpresent hi
      simp only [helement, Option.map_some, Option.getD_some] at hwrite
      rw [← toNat_window hbounds hi] at hwrite
      exact demand_update_triple (List.getElem?_eq_some_iff.1 hobj).1 h₉ helement hwrite
    · refine ⟨place, _, ⟨⟨_, hreference, obj, actual, hplace, hactual, rfl⟩, ?_, fun i hi => ?_⟩,
        hreplaced⟩
      · rw [length_map, length_range]
      · obtain ⟨element, helement⟩ := pointer_some hpresent hi
        obtain ⟨references, rfl, rfl⟩ := Option.map_eq_some_iff.1 helement
        refine ⟨references, rfl, ?_⟩
        rw [getElem?_map, getElem?_range hi]
        rfl

end Calls

-- The builds

section Builds

variable {T : Type} {P : Payload p T} {env}

theorem sized_abstract (w : World p S L T) : Sized (abstract R env w) := by
  intro obj hobj
  obtain ⟨obj', -, rfl⟩ := mem_map.1 hobj
  exact R.length_view _ _ _

theorem outcome_of_triple {Spec : Nat → List (List UInt8) → Prop} (hw : WellFormed R env w)
    (hsim : ∀ heads, Simulates (Stands R env heads) (Stands R env heads) (fun _ _ => True) m m')
    (htriple : Triple m' (abstract R env w)
      (fun _ a' => ∃ place values, Spec place values ∧
        Replaced (abstract R env w) a' place offset values)
      (Refused (abstract R env w))) :
    ∃ r w', exec m w = some (r, w') ∧ WellFormed R env w' ∧
      Outcome (abstract R env w) (abstract R env w') offset Spec r := by
  obtain ⟨r, w', r', a', hexec, hexec', hst, hr⟩ := hsim w.heads w _ ⟨rfl, hw, rfl⟩
  obtain ⟨r'', a'', hexec'', hpost⟩ := htriple
  obtain ⟨rfl, rfl⟩ := Prod.mk.inj (Option.some.inj (hexec'.symm.trans hexec''))
  obtain rfl := hst.eq
  refine ⟨r, w', hexec, hst.wellFormed, ?_⟩
  cases r <;> cases r'
  · obtain rfl : _ = _ := hr
    exact .refused hpost.1 hpost.2
  · exact hr.elim
  · exact hr.elim
  · obtain ⟨place, values, hspec, hreplaced⟩ := hpost
    exact .done hspec hreplaced

end Builds

/-- Fills, copies and initializations write exactly the elements of one window, or fail and write
none. -/
theorem array_windows (build : Build) (env : Env p S L) (this : S) (w : World p S L build.Values)
    (hw : WellFormed (build.refinement p) env w) :
    (∀ reference offset value count,
      ∃ r w', exec (arrayFill (build.payload p) env this reference offset value count) w =
        some (r, w') ∧ WellFormed (build.refinement p) env w' ∧
        Outcome (abstract (build.refinement p) env w) (abstract (build.refinement p) env w')
          offset.toNat
          (FillSpec env this (abstract (build.refinement p) env w) reference value count) r) ∧
    (∀ destination dstOffset source srcOffset count,
      ∃ r w', exec (arrayCopy (build.payload p) env this destination dstOffset source
          srcOffset count) w = some (r, w') ∧
        WellFormed (build.refinement p) env w' ∧
        Outcome (abstract (build.refinement p) env w) (abstract (build.refinement p) env w')
          dstOffset.toNat
          (CopySpec env this (abstract (build.refinement p) env w) destination source
            srcOffset count) r) ∧
    (∀ typeIndex reference destinationOffset source sourceOffset length,
      ∃ r w', exec (arrayInitData (build.payload p) env this typeIndex reference
          destinationOffset source sourceOffset length) w = some (r, w') ∧
        WellFormed (build.refinement p) env w' ∧
        Outcome (abstract (build.refinement p) env w) (abstract (build.refinement p) env w')
          destinationOffset.toNat
          (DataSpec env this (abstract (build.refinement p) env w) reference source
            sourceOffset length) r) ∧
    (∀ typeIndex reference destinationOffset source length,
      ∃ r w', exec (arrayInitElements (build.payload p) env this typeIndex reference
          destinationOffset source length) w = some (r, w') ∧
        WellFormed (build.refinement p) env w' ∧
        Outcome (abstract (build.refinement p) env w) (abstract (build.refinement p) env w')
          destinationOffset.toNat
          (ElementsSpec env this (abstract (build.refinement p) env w) reference source
            length) r) := by
  have hsized : Sized (abstract (build.refinement p) env w) := sized_abstract w
  refine ⟨fun reference offset value count => ?_,
    fun destination dstOffset source srcOffset count => ?_,
    fun typeIndex reference destinationOffset source sourceOffset length => ?_,
    fun typeIndex reference destinationOffset source length => ?_⟩
  · exact outcome_of_triple hw (fun _ => arrayFill_sim this _ _ _ _)
      (arrayFill_triple hsized _ _ _ _)
  · exact outcome_of_triple hw (fun _ => arrayCopy_sim this _ _ _ _ _)
      (arrayCopy_triple hsized _ _ _ _ _)
  · exact outcome_of_triple hw (fun _ => arrayInitData_sim this _ _ _ _ _ _)
      (arrayInitData_triple hsized _ _ _ _ _ _)
  · exact outcome_of_triple hw (fun _ => arrayInitElements_sim this _ _ _ _ _)
      (arrayInitElements_triple hsized _ _ _ _ _)

def threeBytes : World platform64 Unit Unit ArrayValues := ⟨[⟨⟨(), 0, 3⟩, ⟨true, [1, 2, 3]⟩⟩], ()⟩

theorem threeBytes_wellFormed : WellFormed (packedRefinement platform64) byteArrays threeBytes := by
  intro obj hobj
  obtain rfl := mem_singleton.1 hobj
  exact ⟨by decide, by decide, fun _ => by decide⟩

/-- The first two bytes are copied to the last two. -/
theorem array_windows_overlap :
    ∃ w', exec (arrayCopy (packed platform64) byteArrays () (numberedReference 0) 1
        (numberedReference 0) 0 2) threeBytes = some (.ok (), w') ∧
      w'.objects.map (·.payload.tail) = [[1, 1, 2]] ∧
      WellFormed (packedRefinement platform64) byteArrays w' ∧
      Outcome (abstract (packedRefinement platform64) byteArrays threeBytes)
        (abstract (packedRefinement platform64) byteArrays w') (1 : SizeT platform64).toNat
        (CopySpec byteArrays () (abstract (packedRefinement platform64) byteArrays threeBytes)
          (numberedReference 0) (numberedReference 0) 0 2) (.ok ()) := by
  have hcopy : (exec (arrayCopy (packed platform64) byteArrays () (numberedReference 0) 1
      (numberedReference 0) 0 2) threeBytes).map (fun x =>
        (x.1, x.2.objects.map (·.payload.tail))) = some (.ok (), [[1, 1, 2]]) := by
    decide +kernel
  obtain ⟨⟨_, w'⟩, hexec, hvalues⟩ := Option.map_eq_some_iff.mp hcopy
  obtain ⟨rfl, htail⟩ := Prod.mk.inj hvalues
  obtain ⟨_, _, hexec', hw', hout⟩ :=
    (array_windows .packed byteArrays () threeBytes threeBytes_wellFormed).2.1
      (numberedReference 0) 1 (numberedReference 0) 0 2
  obtain ⟨rfl, rfl⟩ := Prod.mk.inj (Option.some.inj (hexec.symm.trans hexec'))
  exact ⟨w', hexec, htail, hw', hout⟩

end Uwvm2.Storage.GcArray
