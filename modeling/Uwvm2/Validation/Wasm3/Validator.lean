import Uwvm2.Lib.Check
import Uwvm2.Validation.Wasm3.TypeSection

/-!
# Validation of type sections

The pass of `recursive_type_validation.h`: it checks the counts and each type on
its own, gives equal recursive groups equal canonical indices, numbers the forest of
declared supertypes so that subtyping is containment of intervals, and last
compares every type with its supertype. `none` stands for the source's `no_index`.
-/

namespace Uwvm2.Validation.Wasm3

-- Results

inductive RecursiveTypeValidationError
  | ok
  | inconsistentSection
  | invalidComposite
  | invalidValue
  | unknownType
  | multipleSupertypes
  | forwardSupertype
  | finalSupertype
  | incompatibleSupertype
  deriving DecidableEq, Repr

structure RecursiveTypeValidationResult where
  error : RecursiveTypeValidationError := .ok
  binaryOffset : Nat := 0
  typeIndex : Nat := 0
  deriving DecidableEq, Repr

-- Abstract heap types

def abstractValid (heap : HeapType) : Bool := -23 ≤ heap.code && heap.code ≤ -12

/-- The cases of the source's `switch`. -/
def AbstractHeapType.proper : AbstractHeapType → AbstractHeapType → Bool
  | .none, b => b = .i31 || b = .struct_ || b = .array || b = .eq || b = .any
  | .i31, b | .struct_, b | .array, b => b = .eq || b = .any
  | .eq, b => b = .any
  | .nofunc, b => b = .func
  | .noextern_, b => b = .extern_
  | .noexn, b => b = .exn
  | _, _ => false

def abstractMatches (src dst : HeapType) : Bool :=
  if !abstractValid src || !abstractValid dst then false
  else if src = dst then true
  else
    match AbstractHeapType.ofCode? src.code, AbstractHeapType.ofCode? dst.code with
    | some a, some b => a.proper b
    | _, _ => false

-- Keys of recursive groups

def wordsLess : List Nat → List Nat → Bool
  | [], b => 0 < b.length
  | _ :: _, [] => false
  | x :: a, y :: b => if x ≠ y then x < y else wordsLess a b

section Key

variable (first : Nat) (canonical : List Nat)

def heapWords (value : HeapType) : List Nat :=
  if !value.isDefined then [0, toU64 value.code]
  else if first ≤ toU64 value.code then [1, toU64 value.code - first]
  else [2, canonical.getD (toU64 value.code) 0]

def valueWords (val : CoreValueType) : List Nat :=
  val.kind.toNat ::
    if val.kind = .reference then val.nullable.toNat :: heapWords first canonical val.heap else []

def fieldWords (field : FieldType) : List Nat :=
  field.mutable_.toNat :: field.storage.packed.toNat ::
    if field.storage.packed = .none then valueWords first canonical field.storage.value else []

def subTypeWords (type : SubType) : List Nat :=
  [type.final_.toNat, type.supertypes.length] ++
    (type.supertypes.flatMap fun parent => heapWords first canonical (.defined parent)) ++
    [type.kind.toNat] ++
    type.parameters.length :: type.parameters.flatMap (valueWords first canonical) ++
    type.results.length :: type.results.flatMap (valueWords first canonical) ++
    type.fields.length :: type.fields.flatMap (fieldWords first canonical)

end Key

/-- The words that identify a group, given the canonical indices of the types before it. -/
def groupKey (group : RecursiveGroup) (canonical : List Nat) : List Nat :=
  group.types.length :: group.types.flatMap (subTypeWords group.firstTypeIndex canonical)

abbrev GroupMap := List (List Nat × Nat)

/-- The value at `key`, which is inserted if the map has none yet. -/
def GroupMap.tryEmplace (groups : GroupMap) (key : List Nat) (value : Nat) :
    GroupMap × Nat × Bool :=
  match groups.find? fun entry => !wordsLess entry.1 key && !wordsLess key entry.1 with
  | some entry => (groups, entry.2, false)
  | none => (groups ++ [(key, value)], value, true)

-- Contexts

structure RecursiveTypeRecord where
  kind : CompositeKind := .function
  canonical : Nat := 0
  parent : Option Nat := none
  preorder : Nat := 0
  subtreeEnd : Nat := 0
  deriving DecidableEq, Repr, Inhabited

structure RecursiveTypeContext where
  records : List RecursiveTypeRecord := []
  deriving DecidableEq, Repr

namespace RecursiveTypeContext

variable (ctx : RecursiveTypeContext)

def contains (index : Nat) : Bool := index < ctx.records.length

def recordOf (heap : HeapType) : RecursiveTypeRecord := ctx.records.getD (toU64 heap.code) default

def matchesHeap (src dst : HeapType) : Bool :=
  if src.isDefined && !ctx.contains (toU64 src.code) then false
  else if dst.isDefined && !ctx.contains (toU64 dst.code) then false
  else if src.code = HeapType.bottomCode then
    dst.isDefined || dst.code = HeapType.bottomCode || abstractValid dst
  else if dst.code = HeapType.bottomCode then false
  else if src.isDefined && dst.isDefined then
    (ctx.recordOf dst).preorder ≤ (ctx.recordOf src).preorder &&
      (ctx.recordOf src).preorder < (ctx.recordOf dst).subtreeEnd
  else if src.isDefined then
    let abstract_ : AbstractHeapType :=
      match (ctx.recordOf src).kind with
      | .function => .func
      | .struct_ => .struct_
      | _ => .array
    abstractMatches ⟨abstract_.code⟩ dst
  else if dst.isDefined then
    -- a bottom heap type matches the defined types of its own hierarchy
    let bottom : AbstractHeapType := if (ctx.recordOf dst).kind = .function then .nofunc else .none
    src.code = bottom.code
  else abstractMatches src dst

def matchesValue (src dst : CoreValueType) : Bool :=
  src.kind = dst.kind &&
    if src.kind = .reference then (!src.nullable || dst.nullable) && ctx.matchesHeap
      src.heap dst.heap
    else src.kind.toNat ≤ ValueKind.v128.toNat

def storageMatches (a b : StorageType) : Bool :=
  a.packed = b.packed && (a.packed ≠ .none || ctx.matchesValue a.value b.value)

def fieldMatches (a b : FieldType) : Bool :=
  a.mutable_ = b.mutable_ && ctx.storageMatches a.storage b.storage &&
    (!a.mutable_ || ctx.storageMatches b.storage a.storage)

def subTypeMatches (type parent : SubType) : Bool :=
  if type.kind = .function then
    type.parameters.length = parent.parameters.length &&
      type.results.length = parent.results.length &&
      (parent.parameters.zip type.parameters).all (fun (p, t) => ctx.matchesValue p t) &&
      (type.results.zip parent.results).all fun (t, p) => ctx.matchesValue t p
  else
    parent.fields.length ≤ type.fields.length &&
      (type.fields.zip parent.fields).all fun (t, p) => ctx.fieldMatches t p

end RecursiveTypeContext

-- Counts and single types

/-- `PTRDIFF_MAX / sizeof(recursive_type_record)`. -/
def maxContextRecords : Nat := (2 ^ 63 - 1) / 40

/-- The number of types; each group has to start where the previous one ended. -/
def countTypes : List RecursiveGroup → Nat → Except RecursiveTypeValidationResult Nat
  | [], total => .ok total
  | group :: groups, total => do
    ensure (group.firstTypeIndex = total ∧ group.types.length ≤ 2 ^ 32 - total)
      ⟨.inconsistentSection, group.binaryOffset, total⟩
    countTypes groups (total + group.types.length)

def checkValue (visible : Nat) (value : CoreValueType) :
    Except RecursiveTypeValidationError Unit := do
  ensure (value.kind.toNat ≤ ValueKind.reference.toNat) .invalidValue
  if value.kind = .reference then
    if value.heap.isDefined then ensure (toU64 value.heap.code < visible) .unknownType
    else ensure (abstractValid value.heap = true) .invalidValue

def checkField (visible : Nat) (field : FieldType) : Except RecursiveTypeValidationError Unit := do
  ensure (field.storage.packed.toNat ≤ PackedKind.i16.toNat) .invalidValue
  if field.storage.packed = .none then checkValue visible field.storage.value

/-- The lists of a type that its kind does not use are empty. -/
def SubType.wellShaped (type : SubType) : Bool :=
  type.kind.toNat ≤ CompositeKind.array.toNat &&
    !(type.kind = .function && !type.fields.isEmpty) &&
    !(type.kind ≠ .function && (!type.parameters.isEmpty || !type.results.isEmpty)) &&
    !(type.kind = .array && type.fields.length ≠ 1)

def checkSupertype (definitions : List SubType) (index : Nat) (type : SubType) :
    Except RecursiveTypeValidationError Unit :=
  match type.supertypes with
  | [] => pure ()
  | parent :: _ => do
    ensure (parent < index) .forwardSupertype
    ensure ((definitions.getD parent default).final_ = false) .finalSupertype
    ensure (type.kind = (definitions.getD parent default).kind) .incompatibleSupertype

/-- The checks of one type; types up to `visible` can be referred to. -/
def checkType (definitions : List SubType) (visible index : Nat) (type : SubType) :
    Except RecursiveTypeValidationError Unit := do
  ensure (type.supertypes.length ≤ 1) .multipleSupertypes
  ensure (type.wellShaped = true) .invalidComposite
  checkSupertype definitions index type
  type.parameters.forM (checkValue visible)
  type.results.forM (checkValue visible)
  type.fields.forM (checkField visible)

def checkGroup (definitions : List SubType) (group : RecursiveGroup) :
    Except RecursiveTypeValidationResult Unit :=
  (group.types.zipIdx group.firstTypeIndex).forM fun (type, index) =>
    (checkType definitions (group.firstTypeIndex + group.types.length) index type).mapError
      fun error => ⟨error, type.binaryOffset, index⟩

-- Canonical indices

/-- Give a group the indices of the first group with its key. Groups follow each other, so
the indices of their types are filled in from the front. -/
def internGroup : GroupMap × List Nat → RecursiveGroup → GroupMap × List Nat
  | (groups, canonical), group =>
    let (groups, canonicalFirst, _) :=
      groups.tryEmplace (groupKey group canonical) group.firstTypeIndex
    (groups, canonical ++ (List.range group.types.length).map (canonicalFirst + ·))

def canonicalIndices (groups : List RecursiveGroup) : List Nat :=
  (groups.foldl internGroup ([], [])).2

-- The forest of supertypes

structure ForestLinks where
  records : List RecursiveTypeRecord
  firstChild : List (Option Nat)
  nextSibling : List (Option Nat)

def linkType (definitions : List SubType) (links : ForestLinks) (i : Nat) : ForestLinks :=
  if (links.records.getD i default).canonical ≠ i then links
  else
    match (definitions.getD i default).supertypes with
    | [] => links
    | supertype :: _ =>
      let parent := (links.records.getD supertype default).canonical
      { records := links.records.modify i fun record => { record with parent := some parent }
        firstChild := links.firstChild.set parent (some i)
        nextSibling := links.nextSibling.set i (links.firstChild.getD parent none) }

def linkForest (definitions : List SubType) (records : List RecursiveTypeRecord) : ForestLinks :=
  (List.range records.length).foldl (linkType definitions)
    ⟨records, .replicate records.length none, .replicate records.length none⟩

structure Visit where
  index : Nat
  leave : Bool
  deriving DecidableEq, Repr

/-- The nodes from `child` on along `nextSibling`, at most `fuel` of them. -/
def siblings (nextSibling : List (Option Nat)) : Nat → Option Nat → List Nat
  | 0, _ => []
  | _ + 1, none => []
  | fuel + 1, some child => child :: siblings nextSibling fuel (nextSibling.getD child none)

def ForestLinks.children (links : ForestLinks) (i : Nat) : List Nat :=
  siblings links.nextSibling links.records.length (links.firstChild.getD i none)

/-- Run the stack of visits, whose top is the head of the list, for at most `fuel` rounds. -/
def visitLoop (children : Nat → List Nat) : Nat → List Visit → Nat × List RecursiveTypeRecord →
    Nat × List RecursiveTypeRecord
  | 0, _, st => st
  | _ + 1, [], st => st
  | fuel + 1, current :: stack, (clock, records) =>
    if current.leave then
      visitLoop children fuel stack
        (clock, records.modify current.index fun record => { record with subtreeEnd := clock })
    else
      visitLoop children fuel
        ((children current.index).reverse.map (⟨·, false⟩) ++ ⟨current.index, true⟩ :: stack)
        (clock + 1, records.modify current.index fun record => { record with preorder := clock })

/-- Visit the tree at `root` if it is one. Every node is entered and left once. -/
def visitRoot (children : Nat → List Nat) (st : Nat × List RecursiveTypeRecord) (root : Nat) :
    Nat × List RecursiveTypeRecord :=
  let record := st.2.getD root default
  if record.canonical ≠ root ∨ record.parent ≠ none then st
  else visitLoop children (2 * st.2.length) [⟨root, false⟩] st

def assignIntervals (links : ForestLinks) : List RecursiveTypeRecord :=
  ((List.range links.records.length).foldl (visitRoot links.children) (0, links.records)).2

/-- Give every type the interval and the parent of its canonical type. Canonical types
are their own, so it does not matter that the source does this in place. -/
def copyCanonical (records : List RecursiveTypeRecord) : List RecursiveTypeRecord :=
  records.map fun record =>
    let canonical := records.getD record.canonical default
    { record with
      preorder := canonical.preorder
      subtreeEnd := canonical.subtreeEnd
      parent := canonical.parent }

/-- The context of a section whose types have passed `checkType`. -/
def buildContext (typeSection : RecursiveTypeSection) : RecursiveTypeContext :=
  let records := List.zipWith (fun type i => { kind := type.kind, canonical := i })
    typeSection.definitions (canonicalIndices typeSection.groups)
  ⟨copyCanonical (assignIntervals (linkForest typeSection.definitions records))⟩

-- The pass

def checkDeclared (ctx : RecursiveTypeContext) (definitions : List SubType) (type : SubType)
    (index : Nat) : Except RecursiveTypeValidationResult Unit :=
  match type.supertypes with
  | [] => pure ()
  | parent :: _ =>
    ensure (ctx.subTypeMatches type (definitions.getD parent default) = true)
      ⟨.incompatibleSupertype, type.binaryOffset, index⟩

def checkSection (typeSection : RecursiveTypeSection) :
    Except RecursiveTypeValidationResult RecursiveTypeContext := do
  let total ← countTypes typeSection.groups 0
  ensure (total = typeSection.typeCount ∧ total ≤ maxContextRecords)
    ⟨.inconsistentSection, 0, total⟩
  typeSection.groups.forM (checkGroup typeSection.definitions)
  let ctx := buildContext typeSection
  typeSection.definitions.zipIdx.forM fun (type, index) =>
    checkDeclared ctx typeSection.definitions type index
  return ctx

/-- The result of the pass and the caller's context after it, which is replaced only at
the very end. -/
def validateCore3TypeSection (typeSection : RecursiveTypeSection) (output : RecursiveTypeContext) :
    RecursiveTypeValidationResult × RecursiveTypeContext :=
  match checkSection typeSection with
  | .ok ctx => ({}, ctx)
  | .error result => (result, output)

end Uwvm2.Validation.Wasm3
