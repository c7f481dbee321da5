import Uwvm2.Lib.Effect
import Uwvm2.Storage.ArrayElements

/-!
# Operations on arrays

The array operations of `gc_object_store`. Where the build option for packed numeric arrays
selects one of two pieces of code, the operations use a `Payload`: `carriers` is the build
without the option, `packed` the one with it. `typedElements` is not a build; it keeps the
elements themselves and says what the operations are for.

All operations hold the locks of the arrays that they access. The other state of the stores is
`rest`; the functions that use it are those of an `Env`.
-/

namespace Uwvm2.Storage.GcArray

open Validation.Wasm3 (StorageType FieldType CoreValueType)
open GcObjectValue Effect Region List

inductive GcObjectStatus
  | ok
  | invalidStore
  | invalidType
  | nullReference
  | invalidReference
  | invalidValue
  | outOfBounds
  | immutableField
  | sizeOverflow
  | outOfMemory
  deriving DecidableEq, Repr

/-- What the build option decides about the payload `T` of arrays. -/
structure Payload (p : Platform) (T : Type) where
  /-- Fresh payload, none if it is too large. An array of the build with packed arrays may come
  from a legacy allocation. Fresh memory holds arbitrary bytes. -/
  allocate (legacy : Bool) (memory : Nat → UInt8) (storage : StorageType)
    (length : SizeT p) : Option T
  load (values : T) (index : SizeT p) (storage : StorageType) : Option GcObjectValue
  store (values : T) (index : SizeT p) (value : GcObjectValue) (storage : StorageType) : Option T
  /-- Access to `values[index]` as a carrier. -/
  carrier (values : T) (index : SizeT p) : Option GcObjectValue
  setCarrier (values : T) (index : SizeT p) (value : GcObjectValue) : Option T
  fillNew (values : T) (length : SizeT p) (value : GcObjectValue) (storage : StorageType) : Option T
  fillDefault (values : T) (length : SizeT p) (null : GcReference p)
    (storage : StorageType) : Option T
  copy (destination : T) (dstOffset : SizeT p) (source : T) (srcOffset count : SizeT p)
    (storage : StorageType) : Option T
  /-- Whether `array_new_default` leaves byte arrays to `array_new`. -/
  bytesByNew : Bool

/-- The bytes behind the header of an allocation, if it is not too large. -/
def tailBytes {p : Platform} (length : SizeT p) (elementBytes : Nat) : Option Nat :=
  if length > (p.size p.ptrdiffMax - p.size p.objectValueOffset) / p.size elementBytes then none
  else some ((p.size p.objectValueOffset + length * p.size elementBytes).toNat -
    p.objectValueOffset)

/-- Null references in all carriers, unless they are zero anyway. -/
def fillNull {p : Platform} (tail : List UInt8) (length : SizeT p) (null : GcReference p)
    (storage : StorageType) : Option (List UInt8) :=
  if fieldIsReference storage then
    if length ≠ 0 ∧ defaultValue null storage ≠ ofBytes [] then
      fillCarriers tail 0 length (defaultValue null storage)
    else some tail
  else some tail

def carriers (p : Platform) : Payload p (List UInt8) where
  allocate _ _ _ length := do return replicate (← tailBytes length 16) 0
  load tail index _ := carrierAt tail index.toNat
  store tail index value _ := GcArray.setCarrier tail index.toNat value
  carrier tail index := carrierAt tail index.toNat
  setCarrier tail index value := GcArray.setCarrier tail index.toNat value
  fillNew tail length value _ :=
    (range length.toNat).foldlM (fun tail i => GcArray.setCarrier tail i value) tail
  fillDefault := fillNull
  copy destination dstOffset source srcOffset count _ :=
    moveCarriers destination dstOffset source srcOffset count
  bytesByNew := false

def packed (p : Platform) : Payload p ArrayValues where
  allocate legacy memory storage length := do
    let rawWidth := if legacy then 0 else numericArrayStorageWidth storage
    if rawWidth ≠ 0 then
      return ⟨true, (range (← tailBytes length rawWidth)).map memory⟩
    else return ⟨false, replicate (← tailBytes length 16) 0⟩
  load := loadArrayValue
  store := storeArrayValue
  carrier obj index := if obj.numericArray then none else carrierAt obj.tail index.toNat
  setCarrier obj index value :=
    if obj.numericArray then none
    else do return { obj with tail := ← GcArray.setCarrier obj.tail index.toNat value }
  fillNew obj length value storage := fillArrayValues obj 0 length value storage
  fillDefault obj length null storage :=
    if obj.numericArray then
      if length ≠ 0 then do
        let zeros := replicate (length * p.size (numericArrayStorageWidth storage)).toNat 0
        return { obj with tail := ← write obj.tail 0 zeros }
      else some obj
    else do return { obj with tail := ← fillNull obj.tail length null storage }
  copy := copyArrayValues
  bytesByNew := true

/-- An array of that length fits into memory with elements of `width` bytes. -/
abbrev Allocatable (p : Platform) (length : SizeT p) (width : Nat) : Prop :=
  p.objectValueOffset + length.toNat * width ≤ p.ptrdiffMax

/-- Arrays as lists of elements, which take `width` bytes in the size check. -/
def typedElements (p : Platform) (width : Bool → StorageType → Nat) :
    Payload p (List (List UInt8)) where
  allocate legacy _ storage length :=
    if Allocatable p length (width legacy storage) then some (replicate length.toNat [])
    else none
  load values index storage := values[index.toNat]?.map (decode p storage)
  store values index value storage := write values index.toNat [encode p storage value]
  carrier values index := values[index.toNat]?.map ofBytes
  setCarrier values index value := write values index.toNat [value.bits]
  fillNew _ length value storage := some (replicate length.toNat (encode p storage value))
  fillDefault _ length null storage :=
    some (replicate length.toNat (encode p storage (defaultValue null storage)))
  copy destination dstOffset source srcOffset count _ := do
    write destination dstOffset.toNat (← read source srcOffset.toNat count.toNat)
  bytesByNew := false

-- Stores

/-- What an array keeps for its lifetime. -/
structure Head (p : Platform) (S : Type) where
  owner : S
  typeIndex : Nat
  length : SizeT p
  deriving DecidableEq

structure ArrayObject (p : Platform) (S T : Type) where
  head : Head p S
  payload : T
  deriving DecidableEq

/-- The arrays of all stores, at their places, and the other state. -/
structure World (p : Platform) (S L T : Type) where
  objects : List (ArrayObject p S T)
  rest : L

def World.heads {p : Platform} {S L T : Type} (w : World p S L T) : List (Head p S) :=
  w.objects.map (·.head)

/-- The functions of stores `S` that the array operations use. Those that look up references may
take leases, which is a change of the other state. -/
structure Env (p : Platform) (S L : Type) where
  checkedType : S → Nat → Option FieldType
  checkedObject : S → List (Head p S) → L → GcReference p → Option Nat × L
  isNull : GcReference p → Bool
  nullReference : GcReference p
  referenceMatches : S → List (Head p S) → L → GcReference p → CoreValueType → S → Bool × L
  canonicalSubtype : S → Nat → S → Nat → Bool
  /-- Lease of a reference for the array at a place, or for one that is not published. -/
  retain : S → List (Head p S) → L → Option Nat → GcReference p → GcObjectStatus × L
  destroyed : L → L
  valid : ∀ {s i field}, checkedType s i = some field → ValidStorage field.storage

abbrev Op (p : Platform) (S L T : Type) := Effect (World p S L T) GcObjectStatus

variable {p : Platform} {S L T : Type} (P : Payload p T) (env : Env p S L) (this : S)

/-- An array of the store, or of another one that it may access. -/
def checkedObject (reference : GcReference p) : Op p S L T (Option (Nat × Head p S)) := do
  let w ← get
  let found := env.checkedObject this w.heads w.rest reference
  set { w with rest := found.2 }
  return found.1.bind fun place => w.heads[place]?.map fun head => (place, head)

def referenceError (reference : GcReference p) : GcObjectStatus :=
  if env.isNull reference then .nullReference else .invalidReference

def objectOr (e : GcObjectStatus) : Option (Nat × Head p S) → Op p S L T (Nat × Head p S)
  | some found => pure found
  | none => throw e

def arrayOf (reference : GcReference p) : Op p S L T (Nat × Head p S) := do
  objectOr (referenceError env reference) (← checkedObject env this reference)

def checkedType (owner : S) (typeIndex : Nat) : Op p S L T FieldType :=
  match env.checkedType owner typeIndex with
  | some field => pure field
  | none => throw .invalidType

def referenceMatches (reference : GcReference p) (expected : CoreValueType) (owner : S) :
    Op p S L T Bool := do
  let w ← get
  let result := env.referenceMatches this w.heads w.rest reference expected owner
  set { w with rest := result.2 }
  return result.1

def valueMatches (value : GcObjectValue) (storage : StorageType) (owner : S) : Op p S L T Bool :=
  if storage.packed ≠ .none ∨ storage.value.kind ≠ .reference then pure true
  else referenceMatches env this (value.asReference p) storage.value owner

def retainEmbeddedReference (destination : Option Nat) (value : GcObjectValue)
    (storage : StorageType) :
    Op p S L T Unit :=
  if storage.packed ≠ .none ∨ storage.value.kind ≠ .reference then pure ()
  else do
    let w ← get
    let result := env.retain this w.heads w.rest destination (value.asReference p)
    set { w with rest := result.2 }
    require (result.1 = .ok) result.1

def payloadAt (place : Nat) : Op p S L T T := do
  let w ← get
  return (← demand w.objects[place]?).payload

def setPayload (place : Nat) (payload : T) : Op p S L T Unit := do
  let w ← get
  let obj ← demand w.objects[place]?
  set { w with objects := w.objects.set place { obj with payload } }

def storeElement (place : Nat) (index : SizeT p) (value : GcObjectValue) (storage : StorageType) :
    Op p S L T Unit := do
  setPayload place (← demand (P.store (← payloadAt place) index value storage))

-- Access

structure Bytes (p : Platform) where
  data : Option (List UInt8)
  size : SizeT p
  complete : ∀ bytes, data = some bytes → bytes.length = size.toNat

/-- Whether two storage types are equal; the value type of a packed one does not matter. -/
def sameStorage (a b : StorageType) : Prop :=
  a.packed = b.packed ∧ (a.packed ≠ .none ∨ a.value.kind = b.value.kind ∧
    (a.value.kind ≠ .reference ∨ a.value.heap = b.value.heap ∧ a.value.nullable = b.value.nullable))

instance (a b : StorageType) : Decidable (sameStorage a b) := by
  unfold sameStorage
  infer_instance

def arrayGet (reference : GcReference p) (index : SizeT p) (sign_extend : Bool) :
    Op p S L T (List UInt8) := do
  let (place, obj) ← arrayOf env this reference
  require (¬ index ≥ obj.length) .outOfBounds
  let field ← checkedType env obj.owner obj.typeIndex
  let value ← demand (P.load (← payloadAt place) index field.storage)
  return typedValue p field.storage (unpack p value field.storage.packed sign_extend)

def arraySet (reference : GcReference p) (index : SizeT p) (value : GcObjectValue) :
    Op p S L T Unit := do
  let (place, obj) ← arrayOf env this reference
  require (¬ index ≥ obj.length) .outOfBounds
  let field ← checkedType env obj.owner obj.typeIndex
  require field.mutable_ .immutableField
  require (← valueMatches env this value field.storage obj.owner) .invalidValue
  retainEmbeddedReference env this (some place) value field.storage
  storeElement P place index (pack p value field.storage.packed) field.storage

def arrayFill (reference : GcReference p) (offset : SizeT p) (value : GcObjectValue)
    (count : SizeT p) :
    Op p S L T Unit := do
  let (place, obj) ← arrayOf env this reference
  require (¬ (offset > obj.length ∨ count > obj.length - offset)) .outOfBounds
  let field ← checkedType env obj.owner obj.typeIndex
  require field.mutable_ .immutableField
  require (← valueMatches env this value field.storage obj.owner) .invalidValue
  onlyIf (count ≠ 0) (retainEmbeddedReference env this (some place) value field.storage)
  let packed := pack p value field.storage.packed
  times count.toNat (fun i _ => storeElement P place (offset + p.size i) packed field.storage) ()

def arrayCopy (destination : GcReference p) (dstOffset : SizeT p) (source : GcReference p)
    (srcOffset count : SizeT p) : Op p S L T Unit := do
  let dst ← checkedObject env this destination
  let src ← checkedObject env this source
  let (dstPlace, dst) ← objectOr (referenceError env destination) dst
  let (srcPlace, src) ← objectOr (referenceError env source) src
  require (¬ (dstOffset > dst.length ∨ count > dst.length - dstOffset)) .outOfBounds
  require (¬ (srcOffset > src.length ∨ count > src.length - srcOffset)) .outOfBounds
  let dstField ← checkedType env dst.owner dst.typeIndex
  let srcField ← checkedType env src.owner src.typeIndex
  require dstField.mutable_ .immutableField
  let referenceCopy := fieldIsReference dstField.storage && fieldIsReference srcField.storage
  require (referenceCopy ∨ sameStorage dstField.storage srcField.storage) .invalidValue
  onlyIf (count ≠ 0) do
    onlyIf referenceCopy (times count.toNat (fun i _ => do
      let value ← demand (P.carrier (← payloadAt srcPlace) (srcOffset + p.size i))
      require (← referenceMatches env this (value.asReference p) dstField.storage.value dst.owner)
        .invalidValue
      retainEmbeddedReference env this (some dstPlace) value dstField.storage) ())
    let values ← payloadAt dstPlace
    let sourceValues ← payloadAt srcPlace
    setPayload dstPlace (← demand
      (P.copy values dstOffset sourceValues srcOffset count dstField.storage))

def checkData (source : Bytes p) (sourceOffset length : SizeT p) (width : Nat)
    (otherBounds : Prop) [Decidable otherBounds] : Op p S L T Unit := do
  require (¬ (width = 0 ∨ width > 16 ∨ length > BitVec.allOnes _ / p.size width)) .sizeOverflow
  let bytes := length * p.size width
  require (otherBounds ∧ ¬ (sourceOffset > source.size ∨ bytes > source.size - sourceOffset))
    .outOfBounds
  require (¬ (bytes ≠ 0 ∧ source.data = none)) .invalidValue

def dataValue (source : Bytes p) (sourceOffset : SizeT p) (storage : StorageType) (i : Nat) :
    Option GcObjectValue := do
  let width := p.size (fieldStorageSize p storage)
  let value ← dataElementValue p (← source.data)
    (sourceOffset.toNat + (p.size i * width).toNat) storage
  return pack p value storage.packed

def arrayInitData (typeIndex : Nat) (reference : GcReference p) (destinationOffset : SizeT p)
    (source : Bytes p) (sourceOffset length : SizeT p) : Op p S L T Unit := do
  let (place, obj) ← arrayOf env this reference
  let _ ← checkedType env this typeIndex
  let actual ← checkedType env obj.owner obj.typeIndex
  require (env.canonicalSubtype obj.owner obj.typeIndex this typeIndex) .invalidType
  let storage := actual.storage
  require (¬ (storage.value.kind = .reference ∨ ¬ actual.mutable_)) .invalidType
  checkData source sourceOffset length (fieldStorageSize p storage)
    (¬ (destinationOffset > obj.length ∨ length > obj.length - destinationOffset))
  times length.toNat (fun i _ => do
    let value ← demand (dataValue source sourceOffset storage i)
    storeElement P place (destinationOffset + p.size i) value storage) ()

def arrayInitElements (typeIndex : Nat) (reference : GcReference p) (destinationOffset : SizeT p)
    (source : Option (Nat → GcReference p)) (length : SizeT p) : Op p S L T Unit := do
  let (place, obj) ← arrayOf env this reference
  let _ ← checkedType env this typeIndex
  let actual ← checkedType env obj.owner obj.typeIndex
  require (env.canonicalSubtype obj.owner obj.typeIndex this typeIndex) .invalidType
  let storage := actual.storage
  require (¬ (storage.value.kind ≠ .reference ∨ ¬ actual.mutable_)) .invalidType
  require (¬ (destinationOffset > obj.length ∨ length > obj.length - destinationOffset))
    .outOfBounds
  require (¬ (length ≠ 0 ∧ source = none)) .invalidValue
  times length.toNat (fun i _ => do
    let element ← demand (source.map (· i))
    require (← referenceMatches env this element storage.value obj.owner) .invalidValue
    retainEmbeddedReference env this (some place) (.reference element) storage) ()
  times length.toNat (fun i _ => do
    let element ← demand (source.map (· i))
    setPayload place (← demand (P.setCarrier (← payloadAt place) (destinationOffset + p.size i)
      (.reference element)))) ()

-- Creation

/-- What memory, slots and tokens give to one creation. -/
structure Creation (p : Platform) where
  legacy : Bool
  memory : Nat → UInt8
  reservation : GcObjectStatus
  publication : Except GcObjectStatus (GcReference p)

def allocate (c : Creation p) (storage : StorageType) (length : SizeT p) : Op p S L T T :=
  match P.allocate c.legacy c.memory storage length with
  | none => throw .sizeOverflow
  | some payload => do
    require (c.reservation = .ok) c.reservation
    return payload

def orDestroy {α : Type} (m : Op p S L T α) : Op p S L T α :=
  onError m fun w => { w with rest := env.destroyed w.rest }

def publish (c : Creation p) (head : Head p S) (payload : T) : Op p S L T (GcReference p) :=
  match c.publication with
  | .error e => orDestroy env (throw e)
  | .ok reference => do
    let w ← get
    set { w with objects := w.objects ++ [ArrayObject.mk head payload] }
    return reference

def arrayNew (typeIndex : Nat) (value : GcObjectValue) (length : SizeT p) (c : Creation p) :
    Op p S L T (GcReference p) := do
  let field ← checkedType env this typeIndex
  require (← valueMatches env this value field.storage this) .invalidValue
  let fresh ← allocate P c field.storage length
  onlyIf (length ≠ 0) (orDestroy env (retainEmbeddedReference env this none value field.storage))
  let fresh ← demand (P.fillNew fresh length (pack p value field.storage.packed) field.storage)
  publish env c ⟨this, typeIndex, length⟩ fresh

def initializeDefaultArrayPayload (typeIndex : Nat) (length : SizeT p) (storage : StorageType)
    (c : Creation p) : Op p S L T (GcReference p) := do
  let fresh ← allocate P c storage length
  let fresh ← demand (P.fillDefault fresh length env.nullReference storage)
  publish env c ⟨this, typeIndex, length⟩ fresh

def arrayNewDefault (typeIndex : Nat) (length : SizeT p) (c : Creation p) :
    Op p S L T (GcReference p) := do
  let field ← checkedType env this typeIndex
  let storage := field.storage
  require (¬ (storage.packed = .none ∧ storage.value.kind = .reference ∧ ¬ storage.value.nullable))
    .invalidValue
  if P.bytesByNew ∧ storage.packed = .i8 then
    arrayNew P env this typeIndex (defaultValue env.nullReference storage) length c
  else
    initializeDefaultArrayPayload P env this typeIndex length storage c

def arrayNewFixed (typeIndex : Nat) (inputs : Option (Nat → GcObjectValue)) (length : SizeT p)
    (c : Creation p) : Op p S L T (GcReference p) := do
  let field ← checkedType env this typeIndex
  require (¬ (length ≠ 0 ∧ inputs = none)) .invalidValue
  times length.toNat (fun i _ => do
    let value ← demand (inputs.map (· i))
    require (← valueMatches env this value field.storage this) .invalidValue) ()
  let fresh ← allocate P c field.storage length
  let fresh ← times length.toNat (fun i fresh => do
    let value ← demand (inputs.map (· i))
    orDestroy env (retainEmbeddedReference env this none value field.storage)
    demand (P.store fresh (p.size i) (pack p value field.storage.packed) field.storage)) fresh
  publish env c ⟨this, typeIndex, length⟩ fresh

def stackValue (stack : Bytes p) (width i : Nat) : Option GcObjectValue := do
  return ofBytes (← read (← stack.data) (p.size i * p.size width).toNat width)

def arrayNewFixedFromStack (typeIndex : Nat) (stack : Bytes p) (length : SizeT p) (c : Creation p) :
    Op p S L T (GcReference p) := do
  let field ← checkedType env this typeIndex
  let storage := field.storage
  let width := wasmValueSize p (if storage.packed = .none then storage.value.kind else .i32)
  require (¬ (width = 0 ∨ length > stack.size / p.size width ∨ length * p.size width ≠ stack.size ∨
    stack.size ≠ 0 ∧ stack.data = none)) .invalidValue
  let fresh ← allocate P c storage length
  let fresh ← times length.toNat (fun i fresh => do
    let value ← demand (stackValue stack width i)
    orDestroy env (do
      require (← valueMatches env this value storage this) .invalidValue
      retainEmbeddedReference env this none value storage)
    demand (P.store fresh (p.size i) (pack p value storage.packed) storage)) fresh
  publish env c ⟨this, typeIndex, length⟩ fresh

def arrayNewData (typeIndex : Nat) (source : Bytes p) (sourceOffset length : SizeT p)
    (c : Creation p) :
    Op p S L T (GcReference p) := do
  let field ← checkedType env this typeIndex
  let storage := field.storage
  require (storage.value.kind ≠ .reference) .invalidType
  checkData source sourceOffset length (fieldStorageSize p storage) True
  let fresh ← allocate P c storage length
  let fresh ← times length.toNat (fun i fresh => do
    let value ← demand (dataValue source sourceOffset storage i)
    demand (P.store fresh (p.size i) value storage)) fresh
  publish env c ⟨this, typeIndex, length⟩ fresh

def arrayNewElements (typeIndex : Nat) (source : Option (Nat → GcReference p)) (length : SizeT p)
    (c : Creation p) : Op p S L T (GcReference p) := do
  let field ← checkedType env this typeIndex
  let storage := field.storage
  require (storage.value.kind = .reference) .invalidType
  require (¬ (length ≠ 0 ∧ source = none)) .invalidValue
  times length.toNat (fun i _ => do
    let element ← demand (source.map (· i))
    require (← referenceMatches env this element storage.value this) .invalidValue) ()
  let fresh ← allocate P c storage length
  let fresh ← times length.toNat (fun i fresh => do
    let element ← demand (source.map (· i))
    orDestroy env (retainEmbeddedReference env this none (.reference element) storage)
    demand (P.setCarrier fresh (p.size i) (.reference element))) fresh
  publish env c ⟨this, typeIndex, length⟩ fresh

-- Sequences

inductive Call (p : Platform) (S : Type)
  | new (this : S) (typeIndex : Nat) (value : GcObjectValue) (length : SizeT p) (c : Creation p)
  | newDefault (this : S) (typeIndex : Nat) (length : SizeT p) (c : Creation p)
  | newFixed (this : S) (typeIndex : Nat) (inputs : Option (Nat → GcObjectValue)) (length : SizeT p)
    (c : Creation p)
  | newFixedFromStack (this : S) (typeIndex : Nat) (stack : Bytes p) (length : SizeT p)
    (c : Creation p)
  | newData (this : S) (typeIndex : Nat) (source : Bytes p) (sourceOffset length : SizeT p)
    (c : Creation p)
  | newElements (this : S) (typeIndex : Nat) (source : Option (Nat → GcReference p))
    (length : SizeT p)
    (c : Creation p)
  | get (this : S) (reference : GcReference p) (index : SizeT p) (sign_extend : Bool)
  | set (this : S) (reference : GcReference p) (index : SizeT p) (value : GcObjectValue)
  | fill (this : S) (reference : GcReference p) (offset : SizeT p) (value : GcObjectValue)
    (count : SizeT p)
  | copy (this : S) (destination : GcReference p) (dstOffset : SizeT p) (source : GcReference p)
    (srcOffset count : SizeT p)
  | initData (this : S) (typeIndex : Nat) (reference : GcReference p) (destinationOffset : SizeT p)
    (source : Bytes p) (sourceOffset length : SizeT p)
  | initElements (this : S) (typeIndex : Nat) (reference : GcReference p)
    (destinationOffset : SizeT p)
    (source : Option (Nat → GcReference p)) (length : SizeT p)

/-- A call and the bytes of what it returns. -/
def perform (call : Call p S) : Op p S L T (List UInt8) :=
  match call with
  | .new this typeIndex value length c =>
    do return (← arrayNew P env this typeIndex value length c).bytes
  | .newDefault this typeIndex length c =>
    do return (← arrayNewDefault P env this typeIndex length c).bytes
  | .newFixed this typeIndex inputs length c => do
    return (← arrayNewFixed P env this typeIndex inputs length c).bytes
  | .newFixedFromStack this typeIndex stack length c => do
    return (← arrayNewFixedFromStack P env this typeIndex stack length c).bytes
  | .newData this typeIndex source sourceOffset length c => do
    return (← arrayNewData P env this typeIndex source sourceOffset length c).bytes
  | .newElements this typeIndex source length c => do
    return (← arrayNewElements P env this typeIndex source length c).bytes
  | .get this reference index sign_extend => arrayGet P env this reference index sign_extend
  | .set this reference index value => do arraySet P env this reference index value; return []
  | .fill this reference offset value count =>
    do arrayFill P env this reference offset value count; return []
  | .copy this destination dstOffset source srcOffset count => do
    arrayCopy P env this destination dstOffset source srcOffset count
    return []
  | .initData this typeIndex reference destinationOffset source sourceOffset length => do
    arrayInitData P env this typeIndex reference destinationOffset source sourceOffset length
    return []
  | .initElements this typeIndex reference destinationOffset source length => do
    arrayInitElements P env this typeIndex reference destinationOffset source length
    return []

def run : List (Call p S) → World p S L T →
    Option (List (Except GcObjectStatus (List UInt8)) × World p S L T)
  | [], w => some ([], w)
  | call :: calls, w => do
    let (result, w) ← exec (perform P env call) w
    let (results, w) ← run calls w
    return (result :: results, w)

end Uwvm2.Storage.GcArray
