import Uwvm2.Lib.Loop
import Uwvm2.Storage.ArrayPayload

/-!
# The elements of arrays

An element is the list of bytes that its type has, in native order; a value that is not numeric
is its whole carrier. `elements` reads them from either representation. Every operation on the
payload is described by what it does to them, and no size that it computes wraps.
-/

namespace Uwvm2.Storage.GcArray

open Region Platform
open BitVec (toNat_add not_lt le_def toNat_sub_of_le lt_def)

open Validation.Wasm3 (StorageType PackedKind ValueKind)
open GcObjectValue

variable {p : Platform} {storage : StorageType} {value : GcObjectValue}

/-- Storage types of validated modules: only `i32` values are packed. -/
def ValidStorage (storage : StorageType) : Prop :=
  storage.packed ≠ .none → storage.value.kind = .i32

/-- The bytes of a value that an element keeps. -/
def encode (p : Platform) (storage : StorageType) (value : GcObjectValue) : List UInt8 :=
  match numericArrayStorageWidth storage with
  | 0 => value.bits
  | 1 => [UInt8.ofNat (value.asU32 p)]
  | 2 => p.endian.encode 2 (value.asU32 p % 2 ^ 16)
  | width => value.bits.take width

def decode (p : Platform) (storage : StorageType) (element : List UInt8) : GcObjectValue :=
  match numericArrayStorageWidth storage with
  | 1 => i32 p (ByteWord.value element)
  | 2 => i32 p (p.endian.decode element)
  | _ => ofBytes element

def typedValue (p : Platform) (storage : StorageType) (value : GcObjectValue) : List UInt8 :=
  value.bits.take (wasmValueSize p (if storage.packed = .none then storage.value.kind else .i32))

-- Sizes

theorem Platform.toNat_size (h : n < 2 ^ p.sizeBits) : (p.size n).toNat = n := by
  rw [size, BitVec.toNat_ofNat, Nat.mod_eq_of_lt h]

theorem Platform.small (h : n < 65536) : n < 2 ^ p.sizeBits := by
  have hwide : 2 ^ 16 ≤ 2 ^ p.sizeBits := Nat.pow_le_pow_right Nat.two_pos p.wide
  omega

theorem Platform.lt_of_le_ptrdiffMax (h : n ≤ p.ptrdiffMax) : n < 2 ^ p.sizeBits := by
  have hhalf : 2 ^ (p.sizeBits - 1) ≤ 2 ^ p.sizeBits :=
    Nat.pow_le_pow_right (by decide) (Nat.sub_le _ _)
  have hpos : 0 < 2 ^ p.sizeBits := Nat.two_pow_pos _
  unfold ptrdiffMax at h
  omega

theorem toNat_mul_size (hn : n < 65536) (h : a.toNat * n < 2 ^ p.sizeBits) :
    (a * p.size n).toNat = a.toNat * n := by
  rw [BitVec.toNat_mul, toNat_size (small hn), Nat.mod_eq_of_lt h]

theorem toNat_add_size (h : a.toNat + n < 2 ^ p.sizeBits) : (a + p.size n).toNat = a.toNat + n := by
  rw [toNat_add, toNat_size (by omega), Nat.mod_eq_of_lt h]

theorem toNat_zero : (0 : SizeT p).toNat = 0 := by simp

theorem toNat_pos {a : SizeT p} (h : a ≠ 0) : 0 < a.toNat :=
  Nat.pos_of_ne_zero fun h0 => h (BitVec.eq_of_toNat_eq (h0.trans toNat_zero.symm))

theorem window_iff {length : SizeT p} :
    ¬ (offset > length ∨ count > length - offset) ↔ offset.toNat + count.toNat ≤ length.toNat := by
  rw [not_or, gt_iff_lt, gt_iff_lt, not_lt, not_lt, le_def, le_def]
  constructor
  · rintro ⟨hoffset, hcount⟩
    rw [toNat_sub_of_le (le_def.2 hoffset)] at hcount
    omega
  · intro h
    have hoffset : offset.toNat ≤ length.toNat := by omega
    refine ⟨hoffset, ?_⟩
    rw [toNat_sub_of_le (le_def.2 hoffset)]
    omega

-- Values

theorem width_cases (storage : StorageType) :
    numericArrayStorageWidth storage = 0 ∨ numericArrayStorageWidth storage = 1 ∨
      numericArrayStorageWidth storage = 2 ∨ numericArrayStorageWidth storage = 4 ∨
      numericArrayStorageWidth storage = 8 ∨ numericArrayStorageWidth storage = 16 := by
  unfold numericArrayStorageWidth
  split
  · split <;> simp
  · split <;> simp
  · simp
  · split <;> simp

@[simp] theorem Endian.length_encode (e : Endian) (size n : Nat) :
    (e.encode size n).length = size := by
  cases e <;> simp [Endian.encode]

theorem Endian.decode_encode (e : Endian) (size n : Nat) :
    e.decode (e.encode size n) = n % 256 ^ size := by
  cases e <;> simp only [Endian.decode, Endian.encode, List.reverse_reverse, ByteWord.value_bytes]

theorem Endian.encode_decode (e : Endian) (bytes : List UInt8) :
    e.encode bytes.length (e.decode bytes) = bytes := by
  cases e with
  | little => exact ByteWord.bytes_value bytes
  | big =>
    have h := ByteWord.bytes_value bytes.reverse
    rw [List.length_reverse] at h
    rw [Endian.decode, Endian.encode, h, List.reverse_reverse]

theorem take_ofBytes (h : bytes.length = n) (hn : n ≤ 16) :
    (ofBytes bytes).bits.take n = bytes := by
  rw [ofBytes, List.take_take, Nat.min_eq_left hn, List.take_append_of_le_length (by omega), ← h,
    List.take_length]

theorem ofBytes_bits (value : GcObjectValue) : ofBytes value.bits = value :=
  GcObjectValue.ext (by
    have h := take_ofBytes value.size (Nat.le_refl 16)
    rwa [List.take_of_length_le (Nat.le_of_eq (ofBytes value.bits).size)] at h)

theorem bits_ofBytes (h : bytes.length = 16) : (ofBytes bytes).bits = bytes := by
  have htake := take_ofBytes h (Nat.le_refl 16)
  rwa [List.take_of_length_le (Nat.le_of_eq (ofBytes bytes).size)] at htake

theorem asU32_i32 (n : Nat) : (i32 p n).asU32 p = n % 2 ^ 32 := by
  show _ = n % 256 ^ 4
  rw [asU32, i32, take_ofBytes (Endian.length_encode ..) (by decide), Endian.decode_encode]

theorem encode_carrier (h : numericArrayStorageWidth storage = 0) :
    encode p storage value = value.bits := by
  unfold encode
  rw [h]
  rfl

theorem encode_byte (h : numericArrayStorageWidth storage = 1) :
    encode p storage value = [UInt8.ofNat (value.asU32 p)] := by
  unfold encode
  rw [h]
  rfl

theorem encode_short (h : numericArrayStorageWidth storage = 2) :
    encode p storage value = p.endian.encode 2 (value.asU32 p % 2 ^ 16) := by
  unfold encode
  rw [h]
  rfl

theorem encode_wide (h : numericArrayStorageWidth storage = width) (hwide : 2 < width) :
    encode p storage value = value.bits.take width := by
  unfold encode
  rcases width_cases storage with hw | hw | hw | hw | hw | hw <;> rw [hw] at h ⊢ <;> subst h
  · exact absurd hwide (by decide)
  · exact absurd hwide (by decide)
  · exact absurd hwide (by decide)
  all_goals rfl

theorem length_encode (h : numericArrayStorageWidth storage ≠ 0) :
    (encode p storage value).length = numericArrayStorageWidth storage := by
  unfold encode
  rcases width_cases storage with hw | hw | hw | hw | hw | hw <;> rw [hw]
  · exact absurd hw h
  · rfl
  · exact Endian.length_encode ..
  all_goals
    simp only
    rw [List.length_take, value.size]
    rfl

theorem encode_decode
    (h : element.length = if numericArrayStorageWidth storage =
      0 then 16 else numericArrayStorageWidth storage) :
    encode p storage (decode p storage element) = element := by
  unfold encode decode
  rcases width_cases storage with hw | hw | hw | hw | hw | hw <;> rw [hw] at h ⊢ <;> simp only
  · exact bits_ofBytes h
  · obtain ⟨b, rfl⟩ := List.length_eq_one_iff.1 (show element.length = 1 from h)
    have hb : b.toNat < 256 := b.toNat_lt
    rw [asU32_i32, ByteWord.value, ByteWord.value, Nat.mul_zero, Nat.add_zero,
      Nat.mod_eq_of_lt (by omega), UInt8.ofNat_toNat]
  · have hlt : p.endian.decode element < 2 ^ 16 := by
      have hround := Endian.decode_encode p.endian element.length (p.endian.decode element)
      rw [Endian.encode_decode, show element.length = 2 from h] at hround
      rw [hround]
      exact Nat.mod_lt _ (by decide)
    rw [asU32_i32, Nat.mod_mod_of_dvd _ (show 2 ^ 16 ∣ 2 ^ 32 by decide), Nat.mod_eq_of_lt hlt,
      ← show element.length = 2 from h, Endian.encode_decode]
  · exact take_ofBytes h (by decide)
  · exact take_ofBytes h (by decide)
  · exact take_ofBytes h (by decide)

/-- The bytes from one element to the next. -/
def stride (storage : StorageType) (numeric : Bool) : Nat :=
  if numeric then numericArrayStorageWidth storage else 16

def slotElement (p : Platform) (storage : StorageType) (numeric : Bool) (slot : List UInt8) :
    List UInt8 :=
  if numeric then slot else encode p storage (ofBytes slot)

def slotBytes (p : Platform) (storage : StorageType) (numeric : Bool) (value : GcObjectValue) :
    List UInt8 :=
  if numeric then encode p storage value else value.bits

def elementAt (p : Platform) (storage : StorageType) (obj : ArrayValues) (i : Nat) : List UInt8 :=
  slotElement p storage obj.numericArray (Region.block (stride storage obj.numericArray) obj.tail i)

def elements (p : Platform) (storage : StorageType) (n : Nat) (obj : ArrayValues) :
    List (List UInt8) :=
  (List.range n).map (elementAt p storage obj)

/-- The payload of an array with `n` elements. -/
structure Shaped (p : Platform) (storage : StorageType) (n : Nat) (obj : ArrayValues) : Prop where
  size : obj.tail.length = n * stride storage obj.numericArray
  bound : n * stride storage obj.numericArray ≤ p.ptrdiffMax
  numeric : obj.numericArray = true → numericArrayStorageWidth storage ≠ 0

/-- The elements of `obj` are replaced by those of `f`. -/
structure Becomes (p : Platform) (storage : StorageType) (n : Nat) (obj obj' : ArrayValues)
    (f : Nat → List UInt8) : Prop where
  shaped : Shaped p storage n obj'
  same : obj'.numericArray = obj.numericArray
  element : ∀ j < n, elementAt p storage obj' j = f j

variable {n : Nat} {obj source : ArrayValues}

theorem slotElement_slotBytes (numeric : Bool) :
    slotElement p storage numeric (slotBytes p storage numeric value) = encode p storage value := by
  cases numeric with
  | false => exact congrArg (encode p storage) (ofBytes_bits value)
  | true => rfl

theorem Shaped.length_slotBytes (h : Shaped p storage n obj) :
    (slotBytes p storage obj.numericArray value).length = stride storage obj.numericArray := by
  unfold slotBytes stride
  split
  · next hn => exact length_encode (h.numeric hn)
  · exact value.size

theorem Shaped.stride_pos (h : Shaped p storage n obj) : 0 < stride storage obj.numericArray := by
  unfold stride
  split
  · next hn => exact Nat.pos_of_ne_zero (h.numeric hn)
  · decide

theorem Shaped.not_numeric (h : Shaped p storage n obj)
    (hw : numericArrayStorageWidth storage = 0) :
    obj.numericArray = false :=
  Bool.eq_false_iff.2 fun hnumeric => h.numeric hnumeric hw

theorem stride_le (storage : StorageType) (numeric : Bool) : stride storage numeric ≤ 16 := by
  unfold stride
  split
  · rcases width_cases storage with hw | hw | hw | hw | hw | hw <;> rw [hw] <;> decide
  · exact Nat.le_refl 16

theorem Shaped.toNat_mul (h : Shaped p storage n obj) (ha : a.toNat ≤ n) :
    (a * p.size (stride storage obj.numericArray)).toNat =
      a.toNat * stride storage obj.numericArray := by
  have hstride := stride_le storage obj.numericArray
  have hmul := Nat.mul_le_mul_right (stride storage obj.numericArray) ha
  exact toNat_mul_size (by omega) (lt_of_le_ptrdiffMax (hmul.trans h.bound))

theorem Shaped.toNat_mul_width (h : Shaped p storage n obj) (hnumeric : obj.numericArray = true)
    (ha : a.toNat ≤ n) :
    (a * p.size (numericArrayStorageWidth storage)).toNat =
      a.toNat * numericArrayStorageWidth storage := by
  have hmul := h.toNat_mul ha
  rwa [stride, if_pos hnumeric] at hmul

theorem Shaped.becomes (h : Shaped p storage n obj) (hlength : tail.length = obj.tail.length)
    (hslots : ∀ j < n, slotElement p storage obj.numericArray
      (Region.block (stride storage obj.numericArray) tail j) = f j) :
    Becomes p storage n obj { obj with tail } f :=
  ⟨⟨hlength.trans h.size, h.bound, h.numeric⟩, rfl, hslots⟩

theorem Shaped.fits (h : Shaped p storage n obj) (hi : i ≤ n) :
    i * stride storage obj.numericArray ≤ obj.tail.length := by
  rw [h.size]
  exact Nat.mul_le_mul_right _ hi

-- Single elements

theorem carrierAt_ok (h : (i + 1) * 16 ≤ tail.length) :
    carrierAt tail i = some (ofBytes (Region.block 16 tail i)) := by
  rw [carrierAt, read_block h]
  rfl

theorem loadArrayValue_ok (h : Shaped p storage n obj) {index : SizeT p} (hi : index.toNat < n) :
    ∃ v, loadArrayValue obj index storage = some v ∧ encode p storage v =
      elementAt p storage obj index.toNat := by
  have hfits := h.fits (Nat.succ_le_of_lt hi)
  cases hnumeric : obj.numericArray with
  | false =>
    rw [hnumeric] at hfits
    refine ⟨ofBytes (Region.block 16 obj.tail index.toNat), ?_, ?_⟩
    · rw [loadArrayValue, hnumeric]
      exact carrierAt_ok hfits
    · rw [elementAt, hnumeric]
      rfl
  | true =>
    have hread := read_block hfits
    have hlength := length_block hfits
    refine ⟨decode p storage (elementAt p storage obj index.toNat), ?_, ?_⟩
    · rw [loadArrayValue, hnumeric]
      simp only [Bool.not_true, Bool.false_eq_true, ↓reduceIte]
      rw [h.toNat_mul_width hnumeric (Nat.le_of_lt hi)]
      rw [elementAt, hnumeric, slotElement, if_pos rfl, stride, if_pos rfl]
      rw [hnumeric, stride, if_pos rfl] at hread
      unfold decode
      rcases width_cases storage with hw | hw | hw | hw | hw | hw
      · exact absurd hw (h.numeric hnumeric)
      all_goals
        rw [hw] at hread ⊢
        simp only [hread]
        rfl
    · apply encode_decode
      rw [elementAt, slotElement, hnumeric, if_pos rfl, if_neg (h.numeric hnumeric)]
      rw [hnumeric] at hlength
      exact hlength

theorem storeArrayValue_eq (h : Shaped p storage n obj) {index : SizeT p} (hi : index.toNat < n) :
    storeArrayValue obj index value storage =
      (Region.write obj.tail (index.toNat * stride storage obj.numericArray)
        (slotBytes p storage obj.numericArray value)).map fun tail => { obj with tail } := by
  cases hnumeric : obj.numericArray with
  | false =>
    rw [storeArrayValue, hnumeric]
    exact bind_pure_comp ..
  | true =>
    rw [storeArrayValue, hnumeric]
    simp only [Bool.not_true, Bool.false_eq_true, ↓reduceIte]
    rw [h.toNat_mul_width hnumeric (Nat.le_of_lt hi), stride, slotBytes, if_pos rfl, if_pos rfl]
    unfold encode
    rcases width_cases storage with hw | hw | hw | hw | hw | hw
    · exact absurd hw (h.numeric hnumeric)
    all_goals
      rw [hw]
      exact bind_pure_comp ..

theorem Shaped.write_slot (h : Shaped p storage n obj) (hi : i < n) (value : GcObjectValue) :
    ∃ tail, Region.write obj.tail (i * stride storage obj.numericArray)
        (slotBytes p storage obj.numericArray value) = some tail ∧
      Becomes p storage n obj { obj with tail }
        fun j => if j = i then encode p storage value else elementAt p storage obj j := by
  have hfits := h.fits (Nat.succ_le_of_lt hi)
  have hroom : i * stride storage obj.numericArray +
      (slotBytes p storage obj.numericArray value).length ≤ obj.tail.length := by
    rw [h.length_slotBytes, ← Nat.succ_mul]
    exact hfits
  have hwrite := write_ok hroom
  refine ⟨_, hwrite, h.becomes (write_length hwrite) fun j _ => ?_⟩
  rw [block_of_write_one hwrite h.length_slotBytes]
  split
  · exact slotElement_slotBytes _
  · rfl

theorem setCarrier_ok (h : Shaped p storage n ⟨false, tail⟩) (hi : i < n) (value : GcObjectValue) :
    ∃ tail', setCarrier tail i value = some tail' ∧
      Becomes p storage n ⟨false, tail⟩ ⟨false, tail'⟩
        fun j => if j = i then encode p storage value else elementAt p storage ⟨false, tail⟩ j :=
  h.write_slot hi value

theorem storeArrayValue_ok (h : Shaped p storage n obj) {index : SizeT p} (hi : index.toNat < n)
    (value : GcObjectValue) :
    ∃ obj', storeArrayValue obj index value storage = some obj' ∧
      Becomes p storage n obj obj'
        fun j => if j = index.toNat then encode p storage value else elementAt p storage obj j := by
  obtain ⟨tail, hwrite, htail⟩ := h.write_slot hi value
  exact ⟨_, by rw [storeArrayValue_eq h hi, hwrite]; rfl, htail⟩

-- Fills

theorem doubleCarriers_ok (hfits : (begin + count.toNat) * 16 ≤ tail₀.length)
    (hbound : count.toNat * 16 < 2 ^ p.sizeBits) (fuel : Nat) (initialized : SizeT p)
    (tail : List UInt8) (hpos : 0 < initialized.toNat) (hle : initialized.toNat ≤ count.toNat)
    (hfuel : count.toNat < fuel + initialized.toNat)
    (hfilled : Region.Filled 16 pattern tail₀ tail begin initialized.toNat) :
    ∃ tail', doubleCarriers begin count fuel initialized tail = some tail' ∧
      Region.Filled 16 pattern tail₀ tail' begin count.toNat := by
  induction fuel generalizing initialized tail with
  | zero => omega
  | succ fuel ih =>
    unfold doubleCarriers
    by_cases hlt : initialized < count
    · have hremaining : (count - initialized).toNat = count.toNat - initialized.toNat :=
        toNat_sub_of_le (BitVec.le_of_lt hlt)
      simp only [hlt, ↓reduceIte]
      rw [lt_def] at hlt
      -- as many carriers as there are, or as are missing
      generalize hcopy : (if initialized < count - initialized then initialized else count -
        initialized) = copy
      have hcopyNat : copy.toNat = min initialized.toNat (count.toNat - initialized.toNat) := by
        rw [← hcopy]
        split
        · next h => rw [lt_def, hremaining] at h; omega
        · next h => rw [lt_def, hremaining] at h; rw [hremaining]; omega
      have hmul : (copy * p.size 16).toNat = copy.toNat * 16 :=
        toNat_mul_size (by decide) (by omega)
      have hadd : (initialized + copy).toNat = initialized.toNat + copy.toNat := by
        have := count.isLt
        rw [toNat_add, Nat.mod_eq_of_lt (by omega)]
      obtain ⟨tail', hcopied, hfilled'⟩ := hfilled.copy (m := copy.toNat) (by omega) (by omega)
      rw [hmul, hcopied]
      exact ih (initialized + copy) tail' (by omega) (by omega) (by omega) (hadd ▸ hfilled')
    · rw [if_neg hlt]
      rw [not_lt, le_def] at hlt
      exact ⟨tail, rfl, by rwa [Nat.le_antisymm hle hlt] at hfilled⟩

theorem fillCarriers_ok (value : GcObjectValue) {count : SizeT p}
    (hpos : 0 < count.toNat) (hfits : (begin + count.toNat) * 16 ≤ tail.length)
    (hbound : count.toNat * 16 < 2 ^ p.sizeBits) :
    ∃ tail', fillCarriers tail begin count value = some tail' ∧
      Region.Filled 16 value.bits tail tail' begin count.toNat := by
  obtain ⟨tail₁, hfirst, hfilled⟩ :=
    (Region.Filled.none 16 value.bits tail begin).write value.size (by omega)
  have hone : (p.size 1).toNat = 1 := toNat_size (small (by decide))
  rw [fillCarriers, setCarrier, show Region.write tail (begin * 16) value.bits =
    some tail₁ from hfirst]
  exact doubleCarriers_ok hfits hbound _ _ _ (by omega) (by omega) (by omega)
    (by rw [hone]; exact hfilled)

theorem doubleBytes_ok (hw : 0 < w) (hbytes : bytes.toNat = total * w)
    (hfits : (begin + total) * w ≤ tail₀.length) (fuel : Nat) (filled : SizeT p) (done : Nat)
    (tail : List UInt8) (hfilled : filled.toNat = done * w) (hpos : 0 < done) (hle : done ≤ total)
    (hfuel : total < fuel + done) (hpattern : Region.Filled w pattern tail₀ tail begin done) :
    ∃ tail', doubleBytes (begin * w) bytes fuel filled tail = some tail' ∧
      Region.Filled w pattern tail₀ tail' begin total := by
  induction fuel generalizing filled done tail with
  | zero => omega
  | succ fuel ih =>
    unfold doubleBytes
    by_cases heq : filled = bytes
    · have hdone : done = total := by
        apply Nat.eq_of_mul_eq_mul_right hw
        rw [← hfilled, ← hbytes, heq]
      rw [if_neg (not_not.2 heq)]
      exact ⟨tail, rfl, hdone ▸ hpattern⟩
    · rw [if_pos heq]
      simp only
      have hlt : done < total := by
        refine Nat.lt_of_le_of_ne hle fun h => heq (BitVec.eq_of_toNat_eq ?_)
        rw [hfilled, hbytes, h]
      have hless := Nat.mul_le_mul_right w (Nat.succ_le_of_lt hlt)
      have hremaining : (bytes - filled).toNat = (total - done) * w := by
        rw [toNat_sub_of_le (by rw [le_def, hfilled, hbytes]; exact Nat.mul_le_mul_right w hle),
          hbytes, hfilled, Nat.sub_mul]
      generalize hcopy : (if filled < bytes - filled then filled else bytes - filled) = copy
      have hcopyNat : copy.toNat = min done (total - done) * w := by
        rw [← hcopy]
        split
        · next h =>
          rw [lt_def, hremaining, hfilled] at h
          rw [hfilled, Nat.min_eq_left (Nat.le_of_lt (Nat.lt_of_mul_lt_mul_right h))]
        · next h =>
          rw [lt_def, hremaining, hfilled] at h
          rw [hremaining, Nat.min_eq_right (Nat.le_of_mul_le_mul_right (Nat.le_of_not_lt h) hw)]
      have hadd : (filled + copy).toNat = (done + min done (total - done)) * w := by
        have hsum : done + min done (total - done) ≤ total := by omega
        have := Nat.mul_le_mul_right w hsum
        have := bytes.isLt
        rw [Nat.add_mul] at *
        rw [toNat_add, hfilled, hcopyNat, Nat.mod_eq_of_lt (by omega)]
      have hroom : (begin + done + min done (total - done)) * w ≤ tail₀.length :=
        (Nat.mul_le_mul_right w (by omega)).trans hfits
      obtain ⟨tail', hcopied, hpattern'⟩ :=
        hpattern.copy (Nat.min_le_left done (total - done)) hroom
      rw [hfilled, hcopyNat, ← Nat.add_mul, hcopied]
      exact ih (filled + copy) _ tail' hadd (by omega) (by omega) (by omega) hpattern'

theorem fillNumericPattern_ok (tail : List UInt8) (begin : Nat) {count : SizeT p}
    (hw : pattern.length = 2 ∨ pattern.length = 4 ∨ pattern.length = 8 ∨ pattern.length = 16)
    (hpos : 0 < count.toNat) (hfits : (begin + count.toNat) * pattern.length ≤ tail.length)
    (hbound : count.toNat * pattern.length < 2 ^ p.sizeBits) :
    ∃ tail', fillNumericPattern tail (begin * pattern.length) count pattern = some tail' ∧
      Region.Filled pattern.length pattern tail tail' begin count.toNat := by
  have hsmall : pattern.length < 65536 := by omega
  have hbytes : (count * p.size pattern.length).toNat = count.toNat * pattern.length :=
    toNat_mul_size hsmall hbound
  have hlength : (p.size pattern.length).toNat = pattern.length := toNat_size (small hsmall)
  unfold fillNumericPattern
  simp only
  generalize hseed : (if p.size 2048 ≤ count * p.size pattern.length then
    p.size 512 / p.size pattern.length
    else count) = seedCount
  -- the seed is not empty and fits
  have hseedCount : 0 < seedCount.toNat ∧ seedCount.toNat ≤ count.toNat := by
    rw [← hseed]
    split
    · next h =>
      rw [le_def, hbytes, toNat_size (small (by decide))] at h
      rw [BitVec.toNat_udiv, hlength, toNat_size (small (by decide))]
      rcases hw with hw | hw | hw | hw <;> rw [hw] at h ⊢ <;> omega
    · exact ⟨hpos, Nat.le_refl _⟩
  obtain ⟨tail₁, hloop, hfilled⟩ : ∃ tail₁, (List.range seedCount.toNat).foldlM
      (fun tail index => Region.write tail (begin * pattern.length + index * pattern.length)
        pattern) tail =
        some tail₁ ∧ Region.Filled pattern.length pattern tail tail₁ begin seedCount.toNat := by
    refine Loop.foldlM_range (fun i t => Region.Filled pattern.length pattern tail t begin i)
      (Region.Filled.none pattern.length pattern tail begin) fun i t hi ht => ?_
    have hroom : (begin + i + 1) * pattern.length ≤ tail.length :=
      (Nat.mul_le_mul_right _ (by omega)).trans hfits
    obtain ⟨t', hwrite, ht'⟩ := ht.write rfl hroom
    exact ⟨t', by rw [← Nat.add_mul]; exact hwrite, ht'⟩
  rw [hloop]
  refine doubleBytes_ok (by omega) hbytes hfits _ _ seedCount.toNat _ ?_ hseedCount.1
    hseedCount.2 ?_ hfilled
  · refine toNat_mul_size hsmall (Nat.lt_of_le_of_lt (Nat.mul_le_mul_right _ hseedCount.2) hbound)
  · have := Nat.le_mul_of_pos_right count.toNat (show 0 < pattern.length by omega)
    omega

theorem Shaped.filled (h : Shaped p storage n obj)
    (hfilled : Region.Filled (stride storage obj.numericArray)
      (slotBytes p storage obj.numericArray value) obj.tail tail k c) :
    Becomes p storage n obj { obj with tail }
      fun j => if k ≤ j ∧ j < k + c then encode p storage value else elementAt p storage obj j := by
  refine h.becomes hfilled.length fun j _ => ?_
  rw [hfilled.blocks]
  split
  · exact slotElement_slotBytes _
  · rfl

theorem fillArrayValues_ok (h : Shaped p storage n obj) {count : SizeT p}
    (hwindow : offset.toNat + count.toNat ≤ n) (value : GcObjectValue) :
    ∃ obj', fillArrayValues obj offset count value storage = some obj' ∧
      Becomes p storage n obj obj' fun j =>
        if offset.toNat ≤ j ∧ j < offset.toNat + count.toNat then encode p storage value
        else elementAt p storage obj j := by
  -- it is enough to fill the tail
  suffices ∃ tail, fillArrayValues obj offset count value storage = some { obj with tail } ∧
      Region.Filled (stride storage obj.numericArray) (slotBytes p storage obj.numericArray value)
        obj.tail tail offset.toNat count.toNat by
    obtain ⟨tail, hfill, htail⟩ := this
    exact ⟨_, hfill, h.filled htail⟩
  unfold fillArrayValues
  by_cases hzero : count = 0
  · rw [if_pos hzero, hzero, toNat_zero]
    exact ⟨obj.tail, rfl, .none ..⟩
  have hpos : 0 < count.toNat := toNat_pos hzero
  have hfits := h.fits hwindow
  have hbound : count.toNat * stride storage obj.numericArray < 2 ^ p.sizeBits :=
    lt_of_le_ptrdiffMax ((Nat.mul_le_mul_right _ (by omega)).trans h.bound)
  rw [if_neg hzero]
  cases hnumeric : obj.numericArray with
  | false =>
    rw [hnumeric] at hfits hbound
    obtain ⟨tail, hfill, htail⟩ := fillCarriers_ok value hpos hfits hbound
    simp only [Bool.false_eq_true, ↓reduceIte, hfill]
    exact ⟨tail, rfl, htail⟩
  | true =>
    have hlength : (encode p storage value).length = numericArrayStorageWidth storage :=
      length_encode (h.numeric hnumeric)
    rw [hnumeric, stride, if_pos rfl] at hfits hbound
    simp only [↓reduceIte, h.toNat_mul_width hnumeric (show offset.toNat ≤ n by omega),
      stride, slotBytes]
    have hpattern (hw : numericArrayStorageWidth storage = 2 ∨
        numericArrayStorageWidth storage = 4 ∨
        numericArrayStorageWidth storage = 8 ∨ numericArrayStorageWidth storage = 16) :=
      fillNumericPattern_ok obj.tail offset.toNat (hlength ▸ hw) hpos
    rw [hlength] at hpattern
    rcases width_cases storage with hw | hw | hw | hw | hw | hw
    · exact absurd hw (h.numeric hnumeric)
    · rw [hw] at hfits ⊢
      rw [encode_byte hw]
      obtain ⟨tail, hwrite, htail⟩ := write_replicate (a := UInt8.ofNat (value.asU32 p)) hfits
      exact ⟨tail, by simp only [hwrite]; rfl, htail⟩
    · obtain ⟨tail, hfill, htail⟩ := hpattern (by omega) hfits hbound
      rw [encode_short hw, hw] at hfill
      rw [hw]
      exact ⟨tail, by simp only [hfill]; rfl, hw ▸ htail⟩
    all_goals
      obtain ⟨tail, hfill, htail⟩ := hpattern (by omega) hfits hbound
      rw [encode_wide hw (by decide), hw] at hfill
      rw [hw]
      exact ⟨tail, by simp only [hfill]; rfl, hw ▸ htail⟩

-- Copies

/-- The elements of a copy: those of the source from `k'` on are put at `k`. -/
def copied (p : Platform) (storage : StorageType) (obj source : ArrayValues)
    (k k' count : Nat) (j : Nat) :
    List UInt8 :=
  if k ≤ j ∧ j < k + count then elementAt p storage source (k' + (j - k))
    else elementAt p storage obj j

theorem Shaped.moved (h : Shaped p storage n obj) (hs : Shaped p storage m source)
    (hsame : source.numericArray = obj.numericArray) (hk : k + count ≤ n) (hk' : k' + count ≤ m) :
    ∃ data tail, Region.read source.tail (k' * stride storage obj.numericArray)
        (count * stride storage obj.numericArray) = some data ∧
      Region.write obj.tail (k * stride storage obj.numericArray) data = some tail ∧
      Becomes p storage n obj { obj with tail } (copied p storage obj source k k' count) := by
  have hfrom : k' * stride storage obj.numericArray + count * stride storage obj.numericArray ≤
      source.tail.length := by
    rw [← Nat.add_mul, ← hsame]
    exact hs.fits hk'
  have hread := read_ok hfrom
  have hlength := length_of_read hread
  have hroom : k * stride storage obj.numericArray +
      ((source.tail.drop (k' * stride storage obj.numericArray)).take
        (count * stride storage obj.numericArray)).length ≤ obj.tail.length := by
    rw [hlength, ← Nat.add_mul]
    exact h.fits hk
  have hwrite := write_ok hroom
  refine ⟨_, _, hread, hwrite, h.becomes (write_length hwrite) fun j hj => ?_⟩
  rw [block_of_write hwrite hlength, copied]
  split
  · rw [block_of_read hread (by omega), elementAt, hsame]
  · rfl

theorem moveCarriers_ok {source : List UInt8} (h : Shaped p storage n ⟨false, tail⟩)
    (hs : Shaped p storage m ⟨false, source⟩) {count : SizeT p}
    (hdst : dstOffset.toNat + count.toNat ≤ n) (hsrc : srcOffset.toNat + count.toNat ≤ m) :
    ∃ tail', moveCarriers tail dstOffset source srcOffset count = some tail' ∧
      Becomes p storage n ⟨false, tail⟩ ⟨false, tail'⟩
        (copied p storage ⟨false, tail⟩ ⟨false, source⟩ dstOffset.toNat srcOffset.toNat
          count.toNat) := by
  have hcount : (count * p.size 16).toNat = count.toNat * 16 := h.toNat_mul (by omega)
  obtain ⟨data, tail', hread, hwrite, hbecomes⟩ := h.moved hs rfl hdst hsrc
  refine ⟨tail', ?_, hbecomes⟩
  rw [moveCarriers, hcount]
  exact (congrArg (Option.bind · _) hread).trans hwrite

theorem Shaped.converted (h : Shaped p storage n obj) (hs : Shaped p storage m source)
    (hdst : dstOffset.toNat + count ≤ n) (hsrc : srcOffset.toNat + count ≤ m)
    (hn : n < 2 ^ p.sizeBits) (hm : m < 2 ^ p.sizeBits) :
    ∃ obj', (List.range count).foldlM (fun destination index => do
        let value ← loadArrayValue source (srcOffset + p.size index) storage
        storeArrayValue destination (dstOffset + p.size index) value storage) obj = some obj' ∧
      Becomes p storage n obj obj'
        (copied p storage obj source dstOffset.toNat srcOffset.toNat count) := by
  refine Loop.foldlM_range
    (fun i obj' => Becomes p storage n obj obj'
      (copied p storage obj source dstOffset.toNat srcOffset.toNat i))
    ⟨h, rfl, fun j _ => (if_neg (by omega)).symm⟩ fun i obj₁ hi hobj₁ => ?_
  have hto : (dstOffset + p.size i).toNat = dstOffset.toNat + i := toNat_add_size (by omega)
  have hfrom : (srcOffset + p.size i).toNat = srcOffset.toNat + i := toNat_add_size (by omega)
  obtain ⟨v, hload, hv⟩ := loadArrayValue_ok hs (show (srcOffset + p.size i).toNat < m by omega)
  obtain ⟨obj₂, hstore, hobj₂⟩ :=
    storeArrayValue_ok hobj₁.shaped (show (dstOffset + p.size i).toNat < n by omega) v
  refine ⟨obj₂, by rw [hload]; exact hstore, hobj₂.shaped, hobj₂.same.trans hobj₁.same,
    fun j hj => ?_⟩
  rw [hobj₂.element j hj, hto, hv, hfrom, hobj₁.element j hj, copied, copied]
  by_cases hij : j = dstOffset.toNat + i
  · rw [if_pos hij, if_pos (by omega)]
    congr 2
    omega
  · rw [if_neg hij]
    by_cases hin : dstOffset.toNat ≤ j ∧ j < dstOffset.toNat + i
    · rw [if_pos hin, if_pos (by omega)]
    · rw [if_neg hin, if_neg (by omega)]

theorem Shaped.lt (h : Shaped p storage n obj) : n < 2 ^ p.sizeBits :=
  lt_of_le_ptrdiffMax ((Nat.le_mul_of_pos_right n h.stride_pos).trans h.bound)

theorem copyArrayValues_ok (h : Shaped p storage n obj) (hs : Shaped p storage m source)
    {srcOffset : SizeT p} (hdst : dstOffset.toNat + count.toNat ≤ n)
    (hsrc : srcOffset.toNat + count.toNat ≤ m) :
    ∃ obj', copyArrayValues obj dstOffset source srcOffset count storage = some obj' ∧
      Becomes p storage n obj obj'
        (copied p storage obj source dstOffset.toNat srcOffset.toNat count.toNat) := by
  unfold copyArrayValues
  by_cases hzero : count = 0
  · rw [if_pos hzero]
    refine ⟨obj, rfl, h, rfl, fun j _ => (if_neg ?_).symm⟩
    rw [hzero, toNat_zero]
    omega
  rw [if_neg hzero]
  by_cases hsame : source.numericArray = obj.numericArray
  · obtain ⟨numeric, tail⟩ := obj
    obtain ⟨numeric', source⟩ := source
    obtain rfl : numeric' = numeric := hsame
    cases numeric' with
    | true =>
      obtain ⟨data, tail', hread, hwrite, hbecomes⟩ := h.moved hs rfl hdst hsrc
      rw [stride, if_pos rfl] at hread hwrite
      refine ⟨_, ?_, hbecomes⟩
      simp only [Bool.and_self, ↓reduceIte,
        h.toNat_mul_width rfl (show dstOffset.toNat ≤ n by omega),
        hs.toNat_mul_width rfl (show srcOffset.toNat ≤ m by omega),
        h.toNat_mul_width rfl (show count.toNat ≤ n by omega), hread]
      exact (congrArg (Option.bind · _) hwrite)
    | false =>
      obtain ⟨tail', hmove, hbecomes⟩ := moveCarriers_ok h hs hdst hsrc
      exact ⟨_, congrArg (Option.bind · _) hmove, hbecomes⟩
  · have hpacked : (obj.numericArray && source.numericArray) = false := by
      revert hsame
      cases obj.numericArray <;> cases source.numericArray <;> decide
    have hcarriers : (!obj.numericArray && !source.numericArray) = false := by
      revert hsame
      cases obj.numericArray <;> cases source.numericArray <;> decide
    rw [hpacked, hcarriers]
    exact h.converted hs hdst hsrc h.lt hs.lt

end Uwvm2.Storage.GcArray
