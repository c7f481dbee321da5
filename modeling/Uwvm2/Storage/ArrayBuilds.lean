import Uwvm2.Storage.ArrayOperations

/-!
# Both builds keep lists of elements

`Refinement` says how a payload stands for a list of elements and that what the build option
decides does to the elements what `typedElements` does. It holds for the build with carriers and
for the one with packed arrays.
-/

namespace Uwvm2.Storage.GcArray

open List Region Platform

open Validation.Wasm3 (StorageType)
open GcObjectValue

variable {p : Platform} {storage : StorageType} {T : Type}

structure Refinement (P : Payload p T) where
  /-- The payload of an array of that type and length. -/
  shaped : StorageType → SizeT p → T → Prop
  /-- Payload that was just allocated. -/
  fresh : StorageType → SizeT p → T → Prop
  view : StorageType → SizeT p → T → List (List UInt8)
  length_view (storage : StorageType) (n : SizeT p) (t : T) : (view storage n t).length = n.toNat
  /-- Only the width of the element type matters. -/
  congr {storage storage' : StorageType} {n : SizeT p} {t : T}
    (hw : numericArrayStorageWidth storage = numericArrayStorageWidth storage')
    (h : shaped storage n t) :
    shaped storage' n t ∧ view storage' n t = view storage n t
  /-- The bytes of an element of a fresh array. -/
  width : Bool → StorageType → Nat
  allocate {legacy : Bool} (memory : Nat → UInt8) {storage : StorageType} {n : SizeT p}
    (h : Allocatable p n (width legacy storage)) :
    ∃ t, P.allocate legacy memory storage n = some t ∧ fresh storage n t
  refuse {legacy : Bool} (memory : Nat → UInt8) {storage : StorageType} {n : SizeT p}
    (h : ¬ Allocatable p n (width legacy storage)) : P.allocate legacy memory storage n = none
  fresh_shaped {storage : StorageType} {n : SizeT p} {t : T} (h : fresh storage n t) :
    shaped storage n t
  load {storage : StorageType} {n index : SizeT p} {t : T} (h : shaped storage n t)
    (hi : index.toNat < n.toNat) :
    ∃ v, P.load t index storage = some v ∧ (view storage n t)[index.toNat]? =
      some (encode p storage v)
  store {storage : StorageType} {n index : SizeT p} {t : T} (h : shaped storage n t)
    (hi : index.toNat < n.toNat) (v : GcObjectValue) :
    ∃ t', P.store t index v storage = some t' ∧ shaped storage n t' ∧
      write (view storage n t) index.toNat [encode p storage v] = some (view storage n t')
  carrier {storage : StorageType} {n index : SizeT p} {t : T} (h : shaped storage n t)
    (hw : numericArrayStorageWidth storage = 0) (hi : index.toNat < n.toNat) :
    ∃ v, P.carrier t index = some v ∧ (view storage n t)[index.toNat]? = some v.bits
  setCarrier {storage : StorageType} {n index : SizeT p} {t : T} (h : shaped storage n t)
    (hw : numericArrayStorageWidth storage = 0) (hi : index.toNat < n.toNat) (v : GcObjectValue) :
    ∃ t', P.setCarrier t index v = some t' ∧ shaped storage n t' ∧
      write (view storage n t) index.toNat [v.bits] = some (view storage n t')
  fillNew {storage : StorageType} {n : SizeT p} {t : T} (h : shaped storage n t)
    (v : GcObjectValue) :
    ∃ t', P.fillNew t n v storage = some t' ∧ shaped storage n t' ∧
      view storage n t' = List.replicate n.toNat (encode p storage v)
  fillDefault {storage : StorageType} {n : SizeT p} {t : T} (h : fresh storage n t)
    (null : GcReference p) :
    ∃ t', P.fillDefault t n null storage = some t' ∧ shaped storage n t' ∧
      view storage n t' = List.replicate n.toNat (encode p storage (defaultValue null storage))
  copy {storage : StorageType} {n m dstOffset srcOffset count : SizeT p} {t source : T}
    (h : shaped storage n t) (hs : shaped storage m source)
    (hdst : dstOffset.toNat + count.toNat ≤ n.toNat)
    (hsrc : srcOffset.toNat + count.toNat ≤ m.toNat) :
    ∃ t' data, P.copy t dstOffset source srcOffset count storage = some t' ∧ shaped storage n t' ∧
      read (view storage m source) srcOffset.toNat count.toNat = some data ∧
      write (view storage n t) dstOffset.toNat data = some (view storage n t')

-- Elements as lists

section

variable {n m : Nat} {obj obj' source : ArrayValues}

section

variable {storage' : StorageType}
  (hw : numericArrayStorageWidth storage = numericArrayStorageWidth storage')

include hw

theorem encode_congr : encode p storage value = encode p storage' value := by
  unfold encode
  rw [hw]

theorem Shaped.congr (h : Shaped p storage n obj) :
    Shaped p storage' n obj ∧ elements p storage' n obj = elements p storage n obj := by
  have hstride : stride storage' obj.numericArray = stride storage obj.numericArray := by
    unfold stride
    rw [hw]
  refine ⟨⟨hstride ▸ h.size, hstride ▸ h.bound, fun hn => hw ▸ h.numeric hn⟩, ?_⟩
  refine map_congr_left fun i _ => ?_
  rw [elementAt, elementAt, hstride, slotElement, slotElement, encode_congr hw]

end

theorem length_elements : (elements p storage n obj).length = n := by
  rw [elements, length_map, length_range]

theorem getElem?_elements (hi : i < n) :
    (elements p storage n obj)[i]? = some (elementAt p storage obj i) := by
  rw [elements, getElem?_map, getElem?_range hi]
  rfl

theorem Becomes.write_set {element : List UInt8} (hi : i < n)
    (h : Becomes p storage n obj obj' fun j =>
      if j = i then element else elementAt p storage obj j) :
    write (elements p storage n obj) i [element] = some (elements p storage n obj') := by
  refine write_map_range hi fun j hj => ?_
  rw [h.element j hj, length_singleton]
  by_cases hij : j = i
  · rw [if_pos hij, if_pos (by omega), hij, Nat.sub_self]
    rfl
  · rw [if_neg hij, if_neg (by omega)]

theorem Becomes.write_copied {count : Nat} (hk : k + count ≤ n) (hk' : k' + count ≤ m)
    (h : Becomes p storage n obj obj' (copied p storage obj source k k' count)) :
    ∃ data, read (elements p storage m source) k' count = some data ∧
      write (elements p storage n obj) k data = some (elements p storage n obj') := by
  refine ⟨_, read_map_range hk', ?_⟩
  have hlength : ((List.range count).map fun i => elementAt p storage source (k' + i)).length =
      count := by
    rw [length_map, length_range]
  refine write_map_range (by rw [hlength]; exact hk) fun j hj => ?_
  rw [h.element j hj, hlength, copied]
  by_cases hin : k ≤ j ∧ j < k + count
  · rw [if_pos hin, if_pos hin, getElem?_map, getElem?_range (by omega)]
    rfl
  · rw [if_neg hin, if_neg hin]

theorem elements_eq_replicate (h : ∀ j < n, elementAt p storage obj j = element) :
    elements p storage n obj = List.replicate n element := by
  refine eq_replicate_iff.2 ⟨length_elements, fun e he => ?_⟩
  obtain ⟨j, hj, rfl⟩ := mem_map.1 he
  exact h j (mem_range.1 hj)

end

-- Fresh arrays

section

variable (hpos : 0 < width) (hle : width ≤ 16)

include hpos hle

theorem tailBytes_room {n : SizeT p} :
    n > (p.size p.ptrdiffMax - p.size p.objectValueOffset) / p.size width ↔
      ¬ Allocatable p n width := by
  have hmax : (p.size p.ptrdiffMax).toNat = p.ptrdiffMax :=
    toNat_size (lt_of_le_ptrdiffMax (Nat.le_refl _))
  have hle : p.objectValueOffset ≤ p.ptrdiffMax := p.objectValueOffset_le
  have hoffset : (p.size p.objectValueOffset).toNat = p.objectValueOffset :=
    toNat_size (lt_of_le_ptrdiffMax hle)
  have hwidth : (p.size width).toNat = width := toNat_size (small (by omega))
  have hsub : p.size p.objectValueOffset ≤ p.size p.ptrdiffMax := by
    rw [BitVec.le_def, hmax, hoffset]
    exact hle
  rw [gt_iff_lt, BitVec.lt_def, BitVec.toNat_udiv, BitVec.toNat_sub_of_le hsub, hmax, hoffset,
    hwidth, Nat.div_lt_iff_lt_mul hpos]
  omega

theorem tailBytes_ok (h : Allocatable p n width) : tailBytes n width = some (n.toNat * width) := by
  have hoffset : (p.size p.objectValueOffset).toNat = p.objectValueOffset :=
    toNat_size (lt_of_le_ptrdiffMax p.objectValueOffset_le)
  have hbytes : (n * p.size width).toNat = n.toNat * width :=
    toNat_mul_size (by omega) (lt_of_le_ptrdiffMax (by omega))
  have hfits := not_not.2 h
  rw [← tailBytes_room hpos hle] at hfits
  rw [tailBytes, if_neg hfits, BitVec.toNat_add, hoffset, hbytes,
    Nat.mod_eq_of_lt (lt_of_le_ptrdiffMax h), Nat.add_sub_cancel_left]

theorem tailBytes_none (h : ¬ Allocatable p n width) : tailBytes n width = none :=
  if_pos ((tailBytes_room hpos hle).2 h)

end

theorem shaped_zero (h : Allocatable p n 16) :
    Shaped p storage n.toNat ⟨false, List.replicate (n.toNat * 16) 0⟩ :=
  ⟨length_replicate, (Nat.le_add_left _ _).trans h, nofun⟩

theorem shaped_fresh (memory : Nat → UInt8) (h : Allocatable p n (numericArrayStorageWidth storage))
    (hw : numericArrayStorageWidth storage ≠ 0) :
    Shaped p storage n.toNat
      ⟨true, (List.range (n.toNat * numericArrayStorageWidth storage)).map memory⟩ := by
  refine ⟨?_, (Nat.le_add_left _ _).trans h, fun _ => hw⟩
  rw [length_map, length_range]
  rfl

theorem block_replicate {α : Type} {a : α} {size : Nat} (h : (i + 1) * w ≤ size) :
    block w (List.replicate size a) i = List.replicate w a := by
  rw [Nat.succ_mul] at h
  rw [block, drop_replicate, take_replicate, Nat.min_eq_left (by omega)]

theorem ofBytes_zero (size : Nat) : ofBytes (List.replicate size 0) = ofBytes [] := by
  apply GcObjectValue.ext
  show (List.replicate size (0 : UInt8) ++ List.replicate 16 0).take 16 =
    (List.replicate 16 0).take 16
  rw [replicate_append_replicate, take_replicate, take_replicate, Nat.min_eq_left (by omega),
    Nat.min_self]

theorem Endian.encode_zero (e : Endian) (size : Nat) : e.encode size 0 = List.replicate size 0 := by
  have hbytes : ByteWord.bytes size 0 = List.replicate size 0 := by
    induction size with
    | zero => rfl
    | succ size ih => rw [ByteWord.bytes, Nat.zero_div, ih, replicate_succ]; rfl
  cases e with
  | little => exact hbytes
  | big => rw [Endian.encode, hbytes, reverse_replicate]

theorem defaultValue_eq_zero (h : fieldIsReference storage = false) :
    defaultValue null storage = ofBytes [] := by
  unfold defaultValue
  split
  · rw [i32, Endian.encode_zero, ofBytes_zero]
  · next hpacked =>
    rw [if_neg]
    intro hkind
    simp only [fieldIsReference, not_not.1 hpacked, hkind, and_self, decide_true] at h
    cases h

theorem encode_zero (h : numericArrayStorageWidth storage ≠ 0) :
    encode p storage (ofBytes []) = List.replicate (numericArrayStorageWidth storage) 0 := by
  have hu32 : (ofBytes []).asU32 p = 0 := by
    have hi32 := asU32_i32 (p := p) 0
    rwa [i32, Endian.encode_zero, ofBytes_zero] at hi32
  rcases width_cases storage with hw | hw | hw | hw | hw | hw
  · exact absurd hw h
  · rw [encode_byte hw, hu32, hw]
    rfl
  · rw [encode_short hw, hu32, Nat.zero_mod, Endian.encode_zero, hw]
  all_goals
    rw [encode_wide hw (by decide), hw]
    rfl

theorem width_of_reference (h : fieldIsReference storage = true) :
    numericArrayStorageWidth storage = 0 := by
  obtain ⟨hpacked, hkind⟩ := of_decide_eq_true h
  simp only [numericArrayStorageWidth, hpacked, hkind]

theorem not_reference_of_width (h : numericArrayStorageWidth storage ≠ 0) :
    fieldIsReference storage = false :=
  Bool.eq_false_iff.2 fun href => h (width_of_reference href)

theorem Shaped.cleared {n : SizeT p} {tail : List UInt8}
    (h : Shaped p storage n.toNat ⟨true, tail⟩) :
    write tail 0 (List.replicate (n * p.size (numericArrayStorageWidth storage)).toNat 0) =
        some (List.replicate (n.toNat * numericArrayStorageWidth storage) 0) ∧
      Shaped p storage n.toNat
        ⟨true, List.replicate (n.toNat * numericArrayStorageWidth storage) 0⟩ ∧
      ∀ j < n.toNat, elementAt p storage
        ⟨true, List.replicate (n.toNat * numericArrayStorageWidth storage) 0⟩ j =
        encode p storage (ofBytes []) := by
  have hsize : tail.length = n.toNat * numericArrayStorageWidth storage := h.size
  have hbytes := h.toNat_mul_width rfl (Nat.le_refl n.toNat)
  refine ⟨?_, ⟨length_replicate, h.bound, h.numeric⟩, fun j hj => ?_⟩
  · rw [hbytes, write_ok (by rw [length_replicate]; omega), length_replicate, Nat.zero_add,
      ← hsize, drop_length, append_nil]
    rfl
  · rw [encode_zero (h.numeric rfl)]
    exact block_replicate (Nat.mul_le_mul_right _ (Nat.succ_le_of_lt hj))

theorem fillNull_ok {n : SizeT p} (null : GcReference p)
    (hshaped : Shaped p storage n.toNat ⟨false, List.replicate (n.toNat * 16) 0⟩) :
    ∃ tail, fillNull (List.replicate (n.toNat * 16) 0) n null storage = some tail ∧
      Shaped p storage n.toNat ⟨false, tail⟩ ∧
      ∀ j < n.toNat, elementAt p storage ⟨false, tail⟩ j =
        encode p storage (defaultValue null storage) := by
  have hzero (hdefault : defaultValue null storage = ofBytes []) (j : Nat) (hj : j < n.toNat) :
      elementAt p storage ⟨false, List.replicate (n.toNat * 16) 0⟩ j =
        encode p storage (defaultValue null storage) := by
    show encode p storage (ofBytes (block 16 _ j)) = _
    rw [block_replicate (Nat.mul_le_mul_right 16 (Nat.succ_le_of_lt hj)), ofBytes_zero, hdefault]
  unfold fillNull
  cases href : fieldIsReference storage with
  | false => exact ⟨_, rfl, hshaped, hzero (defaultValue_eq_zero href)⟩
  | true =>
    simp only [↓reduceIte]
    split
    · next hfill =>
      have hfits : (0 + n.toNat) * 16 ≤ (List.replicate (n.toNat * 16) (0 : UInt8)).length := by
        rw [Nat.zero_add, length_replicate]
      obtain ⟨tail, hfilled, htail⟩ :=
        fillCarriers_ok (defaultValue null storage) (toNat_pos hfill.1) hfits
        (lt_of_le_ptrdiffMax hshaped.bound)
      have hbecomes := hshaped.filled htail
      refine ⟨tail, hfilled, hbecomes.shaped, fun j hj => ?_⟩
      rw [hbecomes.element j hj, if_pos (by omega)]
    · next hskip =>
      refine ⟨_, rfl, hshaped, fun j hj => hzero ?_ j hj⟩
      by_contra hdefault
      refine hskip ⟨?_, hdefault⟩
      rintro rfl
      rw [toNat_zero] at hj
      omega

-- The builds

def carriersRefinement (p : Platform) : Refinement (carriers p) where
  shaped storage n tail := Shaped p storage n.toNat ⟨false, tail⟩
  fresh storage n tail :=
    Shaped p storage n.toNat ⟨false, tail⟩ ∧ tail = List.replicate (n.toNat * 16) 0
  view storage n tail := elements p storage n.toNat ⟨false, tail⟩
  length_view _ _ _ := length_elements
  congr hw h := h.congr hw
  width _ _ := 16
  allocate _ _ _ h :=
    ⟨_, congrArg (Option.bind · _) (tailBytes_ok (by decide) (by decide) h), shaped_zero h, rfl⟩
  refuse _ _ _ h := congrArg (Option.bind · _) (tailBytes_none (by decide) (by decide) h)
  fresh_shaped h := h.1
  load h hi := by
    obtain ⟨v, hload, hv⟩ := loadArrayValue_ok h hi
    exact ⟨v, hload, by rw [getElem?_elements hi, hv]⟩
  store h hi v := by
    obtain ⟨tail, hset, htail⟩ := setCarrier_ok h hi v
    exact ⟨tail, hset, htail.shaped, htail.write_set hi⟩
  carrier h hw hi := by
    obtain ⟨v, hload, hv⟩ := loadArrayValue_ok h hi
    exact ⟨v, hload, by rw [getElem?_elements hi, ← hv, encode_carrier hw]⟩
  setCarrier h hw hi v := by
    obtain ⟨tail, hset, htail⟩ := setCarrier_ok h hi v
    refine ⟨tail, hset, htail.shaped, ?_⟩
    rw [← encode_carrier hw]
    exact htail.write_set hi
  fillNew {storage n tail} h v := by
    obtain ⟨tail', hloop, hshaped, htail⟩ := Loop.foldlM_range
      (fun i tail' => Shaped p storage n.toNat ⟨false, tail'⟩ ∧
        ∀ j < i, elementAt p storage ⟨false, tail'⟩ j = encode p storage v)
      ⟨h, nofun⟩ fun i tail₁ hi ⟨hshaped, hdone⟩ => by
        obtain ⟨tail₂, hset, htail₂⟩ := setCarrier_ok hshaped hi v
        refine ⟨tail₂, hset, htail₂.shaped, fun j hj => ?_⟩
        rw [htail₂.element j (by omega)]
        by_cases hij : j = i
        · rw [if_pos hij]
        · rw [if_neg hij, hdone j (by omega)]
    exact ⟨tail', hloop, hshaped, elements_eq_replicate htail⟩
  fillDefault := by
    rintro storage n tail ⟨h, rfl⟩ null
    obtain ⟨tail, hfill, hshaped, htail⟩ := fillNull_ok null h
    exact ⟨tail, hfill, hshaped, elements_eq_replicate htail⟩
  copy h hs hdst hsrc := by
    obtain ⟨tail, hmove, htail⟩ := moveCarriers_ok h hs hdst hsrc
    obtain ⟨data, hread, hwrite⟩ := htail.write_copied hdst hsrc
    exact ⟨tail, data, hmove, htail.shaped, hread, hwrite⟩

def packedWidth (legacy : Bool) (storage : StorageType) : Nat :=
  if legacy ∨ numericArrayStorageWidth storage = 0 then 16 else numericArrayStorageWidth storage

theorem width_le (storage : StorageType) : numericArrayStorageWidth storage ≤ 16 :=
  stride_le storage true

section

variable {legacy : Bool} (memory : Nat → UInt8) {n : SizeT p}

theorem allocate_packed_carriers (h : legacy = true ∨ numericArrayStorageWidth storage = 0) :
    (packed p).allocate legacy memory storage n =
      (tailBytes n 16).bind fun size => some ⟨false, List.replicate size 0⟩ := by
  show (if (if legacy then 0 else numericArrayStorageWidth storage) ≠ 0 then _ else _) = _
  rw [if_neg (not_not.2 ?_)]
  · rfl
  · rcases h with rfl | hw
    · rfl
    · rw [hw, ite_self]

theorem allocate_packed_numeric (h : ¬ (legacy = true ∨ numericArrayStorageWidth storage = 0)) :
    (packed p).allocate legacy memory storage n =
      (tailBytes n (numericArrayStorageWidth storage)).bind fun size =>
        some ⟨true, (List.range size).map memory⟩ := by
  rw [not_or] at h
  show (if (if legacy then 0 else numericArrayStorageWidth storage) ≠ 0 then _ else _) = _
  rw [if_neg h.1, if_pos h.2]
  rfl

theorem allocate_packed (h : Allocatable p n (packedWidth legacy storage)) :
    ∃ obj, (packed p).allocate legacy memory storage n = some obj ∧ Shaped p storage n.toNat obj ∧
      (obj.numericArray = false → obj.tail = List.replicate (n.toNat * 16) 0) := by
  unfold packedWidth at h
  split at h
  · next hcarriers =>
    refine ⟨_, ?_, shaped_zero h, fun _ => rfl⟩
    rw [allocate_packed_carriers memory hcarriers, tailBytes_ok (by decide) (by decide) h]
    rfl
  · next hnumeric =>
    have hw := (not_or.1 hnumeric).2
    refine ⟨_, ?_, shaped_fresh memory h hw, nofun⟩
    rw [allocate_packed_numeric memory hnumeric,
      tailBytes_ok (Nat.pos_of_ne_zero hw) (width_le storage) h]
    rfl

theorem refuse_packed (h : ¬ Allocatable p n (packedWidth legacy storage)) :
    (packed p).allocate legacy memory storage n = none := by
  unfold packedWidth at h
  split at h
  · next hcarriers =>
    rw [allocate_packed_carriers memory hcarriers, tailBytes_none (by decide) (by decide) h]
    rfl
  · next hnumeric =>
    have hw := (not_or.1 hnumeric).2
    rw [allocate_packed_numeric memory hnumeric,
      tailBytes_none (Nat.pos_of_ne_zero hw) (width_le storage) h]
    rfl

end

def packedRefinement (p : Platform) : Refinement (packed p) where
  shaped storage n obj := Shaped p storage n.toNat obj
  fresh storage n obj := Shaped p storage n.toNat obj ∧
    (obj.numericArray = false → obj.tail = List.replicate (n.toNat * 16) 0)
  view storage n obj := elements p storage n.toNat obj
  length_view _ _ _ := length_elements
  congr hw h := h.congr hw
  width := packedWidth
  allocate memory _ _ h := allocate_packed memory h
  refuse memory _ _ h := refuse_packed memory h
  fresh_shaped h := h.1
  load h hi := by
    obtain ⟨v, hload, hv⟩ := loadArrayValue_ok h hi
    exact ⟨v, hload, by rw [getElem?_elements hi, hv]⟩
  store h hi v := by
    obtain ⟨obj, hset, hobj⟩ := storeArrayValue_ok h hi v
    exact ⟨obj, hset, hobj.shaped, hobj.write_set hi⟩
  carrier {storage n index obj} h hw hi := by
    obtain ⟨v, hload, hv⟩ := loadArrayValue_ok h hi
    refine ⟨v, ?_, by rw [getElem?_elements hi, ← hv, encode_carrier hw]⟩
    have hnumeric := h.not_numeric hw
    rw [loadArrayValue, hnumeric] at hload
    show (if obj.numericArray then none else _) = _
    rw [hnumeric]
    exact hload
  setCarrier {storage n index obj} h hw hi v := by
    obtain ⟨numeric, tail⟩ := obj
    obtain rfl : numeric = false := h.not_numeric hw
    obtain ⟨tail', hset, htail⟩ := setCarrier_ok h hi v
    refine ⟨⟨false, tail'⟩, congrArg (Option.bind · _) hset, htail.shaped, ?_⟩
    rw [← encode_carrier hw]
    exact htail.write_set hi
  fillNew {storage n obj} h v := by
    have hwindow : (0 : SizeT p).toNat + n.toNat ≤ n.toNat := by rw [toNat_zero, Nat.zero_add]
    obtain ⟨obj', hfill, hobj'⟩ := fillArrayValues_ok h hwindow v
    refine ⟨obj', hfill, hobj'.shaped, elements_eq_replicate fun j hj => ?_⟩
    rw [hobj'.element j hj, toNat_zero, Nat.zero_add, if_pos ⟨Nat.zero_le j, hj⟩]
  fillDefault := by
    rintro storage n ⟨numeric, tail⟩ ⟨hshaped, hzero⟩ null
    cases numeric with
    | false =>
      obtain rfl := hzero rfl
      obtain ⟨tail, hfill, hshaped, htail⟩ := fillNull_ok null hshaped
      exact ⟨⟨false, tail⟩, congrArg (Option.bind · _) hfill, hshaped, elements_eq_replicate htail⟩
    | true =>
      have hdefault : defaultValue null storage = ofBytes [] :=
        defaultValue_eq_zero (not_reference_of_width (hshaped.numeric rfl))
      rw [hdefault]
      by_cases hn : n = 0
      · refine ⟨⟨true, tail⟩, if_neg (not_not.2 hn), hshaped, elements_eq_replicate fun j hj => ?_⟩
        rw [hn, toNat_zero] at hj
        exact absurd hj (Nat.not_lt_zero j)
      · obtain ⟨hwrite, hshaped', hzero⟩ := hshaped.cleared
        refine ⟨_, ?_, hshaped', elements_eq_replicate hzero⟩
        show (if n ≠ 0 then _ else _) = _
        rw [if_pos hn, hwrite]
        rfl
  copy h hs hdst hsrc := by
    obtain ⟨obj, hmove, hobj⟩ := copyArrayValues_ok h hs hdst hsrc
    obtain ⟨data, hread, hwrite⟩ := hobj.write_copied hdst hsrc
    exact ⟨obj, data, hmove, hobj.shaped, hread, hwrite⟩

inductive Build
  | carriers
  | packed
  deriving DecidableEq, Repr

def Build.Values : Build → Type
  | .carriers => List UInt8
  | .packed => ArrayValues

def Build.payload (p : Platform) : (build : Build) → Payload p build.Values
  | .carriers => GcArray.carriers p
  | .packed => GcArray.packed p

def Build.refinement (p : Platform) : (build : Build) → Refinement (build.payload p)
  | .carriers => carriersRefinement p
  | .packed => packedRefinement p

end Uwvm2.Storage.GcArray
