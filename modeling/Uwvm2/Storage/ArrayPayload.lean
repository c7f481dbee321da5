import Uwvm2.Lib.ByteWord
import Uwvm2.Lib.Region
import Uwvm2.Validation.Wasm3.TypeSection

/-!
# The payload of arrays

An array keeps one carrier of 16 bytes for each element, or, if its elements are numbers and the
build packs them, as many bytes as the element type has. This is `gc_object_value`, the helpers
of `gc_object.h` that convert values, and `numeric_array_payload.h`.

Sizes are machine words that wrap. An access outside of an allocation and `std::terminate` are
`none`.
-/

namespace Uwvm2.Storage.GcArray

open Validation.Wasm3 (StorageType PackedKind ValueKind)

inductive Endian
  | little
  | big
  deriving DecidableEq, Repr

def Endian.encode (e : Endian) (size n : Nat) : List UInt8 :=
  match e with
  | .little => ByteWord.bytes size n
  | .big => (ByteWord.bytes size n).reverse

def Endian.decode (e : Endian) (bytes : List UInt8) : Nat :=
  match e with
  | .little => ByteWord.value bytes
  | .big => ByteWord.value bytes.reverse

structure Platform where
  /-- Bits of `std::size_t`. -/
  sizeBits : Nat
  endian : Endian
  objectValueOffset : Nat
  /-- `sizeof(gc_reference)`. -/
  referenceSize : Nat
  wide : 16 ≤ sizeBits
  objectValueOffset_le : objectValueOffset ≤ 2 ^ (sizeBits - 1) - 1
  referenceSize_le : referenceSize ≤ 16

abbrev SizeT (p : Platform) := BitVec p.sizeBits

def Platform.size (p : Platform) (n : Nat) : SizeT p := BitVec.ofNat p.sizeBits n

def Platform.ptrdiffMax (p : Platform) : Nat := 2 ^ (p.sizeBits - 1) - 1

-- Values

@[ext] structure GcObjectValue where
  bits : List UInt8
  size : bits.length = 16
  deriving DecidableEq

/-- The native bytes of a `gc_reference`. -/
@[ext] structure GcReference (p : Platform) where
  bytes : List UInt8
  size : bytes.length = p.referenceSize
  deriving DecidableEq

namespace GcObjectValue

/-- `from`: the other bytes are zero. -/
def ofBytes (bytes : List UInt8) : GcObjectValue where
  bits := (bytes ++ List.replicate 16 0).take 16
  size := by simp

def wasmValueSize (p : Platform) : ValueKind → Nat
  | .i32 | .f32 => 4
  | .i64 | .f64 => 8
  | .v128 => 16
  | .reference => p.referenceSize
  | .beyond _ => 0

def fieldStorageSize (p : Platform) (storage : StorageType) : Nat :=
  if storage.packed = .i8 then 1
  else if storage.packed = .i16 then 2
  else wasmValueSize p storage.value.kind

def i32 (p : Platform) (value : Nat) : GcObjectValue := ofBytes (p.endian.encode 4 value)

def i64 (p : Platform) (value : Nat) : GcObjectValue := ofBytes (p.endian.encode 8 value)

def reference {p : Platform} (value : GcReference p) : GcObjectValue := ofBytes value.bytes

def asU32 (p : Platform) (value : GcObjectValue) : Nat := p.endian.decode (value.bits.take 4)

def asReference (p : Platform) (value : GcObjectValue) : GcReference p where
  bytes := value.bits.take p.referenceSize
  size := by rw [List.length_take, value.size, Nat.min_eq_left p.referenceSize_le]

end GcObjectValue

open GcObjectValue

def pack (p : Platform) (value : GcObjectValue) (packed : PackedKind) : GcObjectValue :=
  if packed = .i8 then i32 p (value.asU32 p &&& 0xff)
  else if packed = .i16 then i32 p (value.asU32 p &&& 0xffff)
  else value

/-- Conversion of a signed integer of `bits` bits to `std::uint32_t`. -/
def signExtend (bits n : Nat) : Nat := if n < 2 ^ (bits - 1) then n else n + (2 ^ 32 - 2 ^ bits)

def unpack (p : Platform) (value : GcObjectValue) (packed : PackedKind) (sign_extend : Bool) :
    GcObjectValue :=
  if packed = .i8 then
    let bits := value.asU32 p % 2 ^ 8
    i32 p (if sign_extend then signExtend 8 bits else bits)
  else if packed = .i16 then
    let bits := value.asU32 p % 2 ^ 16
    i32 p (if sign_extend then signExtend 16 bits else bits)
  else value

def fieldIsReference (storage : StorageType) : Bool :=
  storage.packed = .none ∧ storage.value.kind = .reference

def defaultValue {p : Platform} (null : GcReference p) (storage : StorageType) : GcObjectValue :=
  if storage.packed ≠ .none then i32 p 0
  else if storage.value.kind = .reference then reference null
  else ofBytes []

/-- The element at an offset of a data segment, where integers are little-endian. -/
def dataElementValue (p : Platform) (source : List UInt8) (offset : Nat) (storage : StorageType) :
    Option GcObjectValue :=
  let width := fieldStorageSize p storage
  if width = 16 then (Region.read source offset 16).map ofBytes
  else if width ≠ 1 ∧ width ≠ 2 ∧ width ≠ 4 ∧ width ≠ 8 then none
  else do
    let bits := ByteWord.value (← Region.read source offset width)
    if width ≤ 4 then some (i32 p bits) else some (i64 p bits)

-- Carriers

def carrierAt (tail : List UInt8) (index : Nat) : Option GcObjectValue :=
  (Region.read tail (index * 16) 16).map ofBytes

def setCarrier (tail : List UInt8) (index : Nat) (value : GcObjectValue) : Option (List UInt8) :=
  Region.write tail (index * 16) value.bits

/-- The loop that copies the carriers which are initialized behind themselves. -/
def doubleCarriers {p : Platform} (begin : Nat) (count : SizeT p) :
    Nat → SizeT p → List UInt8 → Option (List UInt8)
  | 0, _, _ => none
  | fuel + 1, initialized, tail =>
    if initialized < count then do
      let remaining := count - initialized
      let copy := if initialized < remaining then initialized else remaining
      let tail ← Region.copy tail ((begin + initialized.toNat) * 16) (begin * 16)
        (copy * p.size 16).toNat
      doubleCarriers begin count fuel (initialized + copy) tail
    else some tail

/-- One value in all carriers from `begin` on, of which there is at least one. -/
def fillCarriers {p : Platform} (tail : List UInt8) (begin : Nat) (count : SizeT p)
    (value : GcObjectValue) :
    Option (List UInt8) := do
  doubleCarriers begin count (count.toNat + 1) (p.size 1) (← setCarrier tail begin value)

def moveCarriers {p : Platform} (destination : List UInt8) (dstOffset : SizeT p)
    (source : List UInt8) (srcOffset count : SizeT p) : Option (List UInt8) := do
  Region.write destination (dstOffset.toNat * 16)
    (← Region.read source (srcOffset.toNat * 16) (count * p.size 16).toNat)

-- Numeric arrays

def numericArrayStorageWidth (storage : StorageType) : Nat :=
  match storage.packed with
  | .i8 => if storage.value.kind = .i32 then 1 else 0
  | .i16 => if storage.value.kind = .i32 then 2 else 0
  | .beyond _ => 0
  | .none =>
    match storage.value.kind with
    | .i32 | .f32 => 4
    | .i64 | .f64 => 8
    | .v128 => 16
    | _ => 0

/-- `numeric_array_` of an object and the memory behind its header. -/
structure ArrayValues where
  numericArray : Bool
  tail : List UInt8
  deriving DecidableEq

variable {p : Platform}

def loadArrayValue (obj : ArrayValues) (index : SizeT p) (storage : StorageType) :
    Option GcObjectValue :=
  if !obj.numericArray then carrierAt obj.tail index.toNat
  else
    let width := numericArrayStorageWidth storage
    let source := (index * p.size width).toNat
    match width with
    | 1 => do return i32 p (ByteWord.value (← Region.read obj.tail source 1))
    | 2 => do return i32 p (p.endian.decode (← Region.read obj.tail source 2))
    | 4 => do return ofBytes (← Region.read obj.tail source 4)
    | 8 => do return ofBytes (← Region.read obj.tail source 8)
    | 16 => do return ofBytes (← Region.read obj.tail source 16)
    | _ => none

def storeArrayValue (obj : ArrayValues) (index : SizeT p) (value : GcObjectValue)
    (storage : StorageType) :
    Option ArrayValues :=
  if !obj.numericArray then do return { obj with tail := ← setCarrier obj.tail index.toNat value }
  else
    let width := numericArrayStorageWidth storage
    let destination := (index * p.size width).toNat
    match width with
    | 1 => do
      return { obj with tail := ← Region.write obj.tail destination [UInt8.ofNat (value.asU32 p)] }
    | 2 => do
      let bits := value.asU32 p % 2 ^ 16
      return { obj with tail := ← Region.write obj.tail destination (p.endian.encode 2 bits) }
    | 4 => do return { obj with tail := ← Region.write obj.tail destination (value.bits.take 4) }
    | 8 => do return { obj with tail := ← Region.write obj.tail destination (value.bits.take 8) }
    | 16 => do return { obj with tail := ← Region.write obj.tail destination (value.bits.take 16) }
    | _ => none

/-- The loop that copies the bytes which are filled behind themselves. -/
def doubleBytes (begin : Nat) (bytes : SizeT p) : Nat → SizeT p → List UInt8 → Option (List UInt8)
  | 0, _, _ => none
  | fuel + 1, filled, tail =>
    if filled ≠ bytes then do
      let remaining := bytes - filled
      let copy := if filled < remaining then filled else remaining
      let tail ← Region.copy tail (begin + filled.toNat) begin copy.toNat
      doubleBytes begin bytes fuel (filled + copy) tail
    else some tail

def fillNumericPattern (tail : List UInt8) (destination : Nat) (count : SizeT p)
    (pattern : List UInt8) :
    Option (List UInt8) := do
  let bytes := count * p.size pattern.length
  let seedCount := if p.size 2048 ≤ bytes then p.size 512 / p.size pattern.length else count
  let tail ← (List.range seedCount.toNat).foldlM
    (fun tail index => Region.write tail (destination + index * pattern.length) pattern) tail
  doubleBytes destination bytes (bytes.toNat + 1) (seedCount * p.size pattern.length) tail

def fillArrayValues (obj : ArrayValues) (offset count : SizeT p) (value : GcObjectValue)
    (storage : StorageType) : Option ArrayValues :=
  if count = 0 then some obj
  else if obj.numericArray then
    let width := numericArrayStorageWidth storage
    let destination := (offset * p.size width).toNat
    match width with
    | 1 => do
      let byte := UInt8.ofNat (value.asU32 p)
      return { obj with
        tail := ← Region.write obj.tail destination (List.replicate count.toNat byte) }
    | 2 => do
      let bits := value.asU32 p % 2 ^ 16
      return { obj with
        tail := ← fillNumericPattern obj.tail destination count (p.endian.encode 2 bits) }
    | 4 => do
      return { obj with
        tail := ← fillNumericPattern obj.tail destination count (value.bits.take 4) }
    | 8 => do
      return { obj with
        tail := ← fillNumericPattern obj.tail destination count (value.bits.take 8) }
    | 16 => do
      return { obj with
        tail := ← fillNumericPattern obj.tail destination count (value.bits.take 16) }
    | _ => none
  else do return { obj with tail := ← fillCarriers obj.tail offset.toNat count value }

def copyArrayValues (destination : ArrayValues) (dstOffset : SizeT p) (source : ArrayValues)
    (srcOffset count : SizeT p) (storage : StorageType) : Option ArrayValues :=
  if count = 0 then some destination
  else if destination.numericArray && source.numericArray then do
    let width := p.size (numericArrayStorageWidth storage)
    let data ← Region.read source.tail (srcOffset * width).toNat (count * width).toNat
    return { destination with
      tail := ← Region.write destination.tail (dstOffset * width).toNat data }
  else if !destination.numericArray && !source.numericArray then do
    return { destination with
      tail := ← moveCarriers destination.tail dstOffset source.tail srcOffset count }
  else
    (List.range count.toNat).foldlM (fun destination index => do
      let value ← loadArrayValue source (srcOffset + p.size index) storage
      storeArrayValue destination (dstOffset + p.size index) value storage) destination

end Uwvm2.Storage.GcArray
