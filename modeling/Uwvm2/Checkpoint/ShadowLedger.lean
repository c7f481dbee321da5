import Uwvm2.Validation.Wasm3.TypeSection

/-!
# The shadow ledger

The ledger of `shadow_ledger.h` follows the activations of one thread: frames are entered
and left, and a frame is materialized at the sites of its function's plan. The three
vectors that the source indexes by depth (frames, observer storage, reuse marks) grow
together; here they are one list of slots. Addresses are numbers, and a shared owner is
known by its address and its control block.
-/

namespace Uwvm2.Checkpoint

open Validation.Wasm3 (CoreValueType AbstractHeapType)

-- Plans

inductive Status
  | ok
  | invalidProfile
  | invalidPlan
  | invalidActivation
  | invalidLayout
  | invalidReference
  | quotaExceeded
  | unmaterialized
  | unavailableResume
  | nonReplayableImport
  | staleGeneration
  | allocationFailed
  deriving DecidableEq, Repr

inductive CompilationPurpose
  | observeValues
  | resumable
  deriving DecidableEq, Repr

structure CompilationProfile where
  /-- The number of frames, or 0 for no limit. -/
  frames : Nat := 4096
  purpose : CompilationPurpose := .resumable
  deriving DecidableEq, Repr

structure Owner (α : Type) where
  address : Nat
  controlBlock : Nat
  value : α
  deriving DecidableEq, Repr

/-- The same pointer and neither `owner_before` the other. -/
def sameOwner {α : Type} (a b : Option (Owner α)) : Bool :=
  a.map (fun o => (o.address, o.controlBlock)) = b.map fun o => (o.address, o.controlBlock)

inductive FramePhase
  | beforeOpcode
  | awaitingCallReturn
  | exceptionContinuation
  deriving DecidableEq, Repr

structure TypedSlot where
  type : CoreValueType := {}
  initialized : Bool := true
  deriving DecidableEq, Repr

structure SafepointLayout where
  localCount : Nat
  phase : FramePhase
  slots : List TypedSlot
  deriving DecidableEq, Repr

structure FunctionPlan where
  profile : Option (Owner CompilationProfile)
  sites : List SafepointLayout
  producerAvailability : Status := .ok
  deriving DecidableEq, Repr

/-- `observerRetentionBytes` is the size of the plan in memory if it is small, else 0. -/
structure SealedFunctionPlan where
  plan : FunctionPlan
  observerRetentionBytes : Nat
  deriving DecidableEq, Repr

inductive RefKind
  | null
  | func
  | funcImported
  | funcDefined
  | extern_
  | struct_
  | array
  | exn
  | i31
  deriving DecidableEq, Repr

def RefKind.ofTag? : Nat → Option RefKind
  | 0 => some .null
  | 1 => some .func
  | 2 => some .funcImported
  | 3 => some .funcDefined
  | 4 => some .extern_
  | 5 => some .struct_
  | 6 => some .array
  | 7 => some .exn
  | 8 => some .i31
  | _ => none

/-- The kinds of references that may stand in a slot of the type, by heap type. -/
def acceptedKinds (type : CoreValueType) : List RefKind :=
  (if type.heap.isDefined then [.funcImported, .funcDefined, .struct_, .array]
    else
      match AbstractHeapType.ofCode? type.heap.code with
      | some .any => [.struct_, .array, .i31, .extern_]
      | some .eq => [.struct_, .array, .i31]
      | some .i31 => [.i31]
      | some .struct_ => [.struct_]
      | some .array => [.array]
      | some .func => [.funcImported, .funcDefined]
      | some .extern_ => [.extern_]
      | some .exn => [.exn]
      | _ => []) ++
    if type.nullable then [.null] else []

def SafepointLayout.referenceSlots (site : SafepointLayout) : List Nat :=
  (List.range site.slots.length).filter fun i =>
    (site.slots.getD i {}).type.kind = .reference

def SafepointLayout.allLocalsRequired (site : SafepointLayout) : Bool :=
  (site.slots.take site.localCount).all (·.initialized)

def sameType (a b : CoreValueType) : Bool :=
  a.kind = b.kind && (a.kind ≠ .reference || (a.heap = b.heap && a.nullable = b.nullable))

def FunctionPlan.invariantLocalTypes (plan : FunctionPlan) : Bool :=
  match plan.sites with
  | [] => true
  | first :: _ =>
    plan.sites.all fun site =>
      site.localCount = first.localCount &&
        (List.range site.localCount).all fun i =>
          sameType (site.slots.getD i {}).type (first.slots.getD i {}).type

-- Frames

structure ActivationIdentity where
  incarnation : Nat := 0
  parent : Nat := 0
  continuation : Nat := 0
  runtimeEpoch : Nat := 0
  deriving DecidableEq, Repr

abbrev Bytes := List UInt8

structure NativeValue where
  declaration : TypedSlot
  bits : Bytes
  deriving DecidableEq, Repr

structure ValueVector where
  cells : List NativeValue
  capacity : Nat
  fits : cells.length ≤ capacity

def ValueVector.empty : ValueVector := ⟨[], 0, Nat.le_refl _⟩

/-- The vector after `reserve` and writing exactly these cells. -/
def ValueVector.refill (values : ValueVector) (cells : List NativeValue) : ValueVector :=
  ⟨cells, max values.capacity cells.length, Nat.le_max_right _ _⟩

def ValueVector.clear (values : ValueVector) : ValueVector := ⟨[], values.capacity, Nat.zero_le _⟩

structure LogicalFrame where
  identity : ActivationIdentity := {}
  plan : Option (Owner SealedFunctionPlan) := none
  site : Nat := 0
  values : ValueVector := .empty
  materialized : Bool := false
  numericPacket : Bytes := []
  numericPacketPending : Bool := false

/-- A frame with its observer storage, which is empty when none is bound. The bytes are
those that the activation has written. -/
structure Slot where
  frame : LogicalFrame := {}
  storage : Bytes := []
  metadataReuse : Bool := false

structure ShadowLedger where
  profile : Option (Owner CompilationProfile)
  slots : List Slot := []
  activeFrameCount : Nat := 0
  retainedMetadataCount : Nat := 0
  recycledValues : List ValueVector := List.replicate 32 .empty
  recycledCount : Nat := 0
  failure : Status := .ok
  pendingTailContinuation : Nat := 0
  pendingTailParent : Nat := 0

def nativeSlotBytes : Nat := 16
def observerSiteBytes : Nat := 8
def observerLocalMetadataBytes : Nat := 10
def retainedMetadataLimit : Nat := 32
/-- `8 * native_slot_bytes`. -/
def numericPacketBytes : Nat := 128
/-- `16384 / sizeof(native_value)`. -/
def recycleCapacity : Nat := 16384 / 48
def ptrdiffMax : Nat := 2 ^ 63 - 1

def littleEndian (bytes : Bytes) : Nat := bytes.foldr (fun b n => b.toNat + 256 * n) 0

def refTag (bytes : Bytes) : Nat := littleEndian ((bytes.drop 8).take 4)

def slotBytes (payload : Bytes) (i : Nat) : Bytes :=
  (payload.drop (i * nativeSlotBytes)).take nativeSlotBytes

def sitesOf (plan : Option (Owner SealedFunctionPlan)) : List SafepointLayout :=
  match plan with
  | some owner => owner.value.plan.sites
  | none => []

-- Packets

def observerWorkspaceFits (locals slots : Nat) : Bool :=
  let limit := ptrdiffMax - observerSiteBytes
  locals ≤ slots && locals ≤ limit / observerLocalMetadataBytes &&
    slots ≤ (limit - locals * observerLocalMetadataBytes) / nativeSlotBytes

def checkReferenceSlot (site : SafepointLayout) (payload : Bytes) (flags : Bytes)
    (i : Nat) : Status :=
  let slot := site.slots.getD i {}
  let initialized := if i < site.localCount then flags.getD i 0 ≠ 0 else slot.initialized
  let bytes := slotBytes payload i
  if !initialized then
    if site.localCount ≤ i ∨ slot.type.kind ≠ .reference ∨ slot.type.nullable then .invalidLayout
    else if bytes.all (· = 0) then .ok
    else .invalidLayout
  else
    match RefKind.ofTag? (refTag bytes) with
    | some kind => if kind ∈ acceptedKinds slot.type then .ok else .invalidReference
    | none => .invalidReference

def firstFailure (checks : List Status) : Status := (checks.find? (· ≠ .ok)).getD .ok

def validateCompilerPacket (plan : Option (Owner SealedFunctionPlan)) (site : Nat)
    (payload flags : Bytes) : Status :=
  match (sitesOf plan)[site - 1]? with
  | none => .invalidPlan
  | some declaration =>
    if site = 0 then .invalidPlan
    else if ptrdiffMax / nativeSlotBytes < declaration.slots.length ∨
        payload.length ≠ declaration.slots.length * nativeSlotBytes ∨
        flags.length ≠ declaration.localCount then .invalidLayout
    else if declaration.allLocalsRequired ∧ ¬ flags.all (· = 1) then .invalidLayout
    else if ¬ declaration.allLocalsRequired ∧ ¬ (List.range flags.length).all (fun i =>
        flags.getD i 0 ≤ 1 &&
          !((declaration.slots.getD i {}).initialized && flags.getD i 0 = 0)) then
      .invalidLayout
    else firstFailure (declaration.referenceSlots.map
      (checkReferenceSlot declaration payload flags))

/-- The cells of a packet; an activation's own cells keep the types of its locals. -/
def packetCells (declaration : SafepointLayout) (payload flags : Bytes)
    (previous : List NativeValue) (retainLocalTypes : Bool) : List NativeValue :=
  declaration.slots.mapIdx fun i slot =>
    let declared :=
      if retainLocalTypes ∧ i < declaration.localCount then
        (previous[i]?.map NativeValue.declaration).getD slot
      else slot
    { declaration :=
        if i < declaration.localCount then { declared with initialized := flags.getD i 0 ≠ 0 }
        else declared
      bits := slotBytes payload i }

def observerSite (slot : Slot) : Status × Nat :=
  if slot.storage = [] then (.ok, 0)
  else
    let siteId := littleEndian (slot.storage.take observerSiteBytes)
    if siteId = 0 then (.ok, 0)
    else
      match (sitesOf slot.frame.plan)[siteId - 1]? with
      | none => (.invalidLayout, siteId)
      | some site =>
        let workspace := slot.storage.drop observerSiteBytes
        if !observerWorkspaceFits site.localCount site.slots.length ∨
            workspace.length / observerLocalMetadataBytes < site.localCount then
          (.invalidLayout, siteId)
        else
          let pre := site.localCount * observerLocalMetadataBytes
          if (workspace.length - pre) / nativeSlotBytes < site.slots.length then
            (.invalidLayout, siteId)
          else
            (validateCompilerPacket slot.frame.plan siteId
              ((workspace.drop pre).take (site.slots.length * nativeSlotBytes))
              ((workspace.drop site.localCount).take site.localCount), siteId)

namespace ShadowLedger

variable (ledger : ShadowLedger)

/-- A ledger without a profile has failed from the start. -/
def new (profile : Option (Owner CompilationProfile)) : ShadowLedger :=
  { profile := profile, failure := if profile.isSome then .ok else .invalidProfile }

def fail (result : Status) : ShadowLedger :=
  if ledger.failure = .ok then { ledger with failure := result } else ledger

def failWith (result : Status) : Status × ShadowLedger :=
  ((ledger.fail result).failure, ledger.fail result)

def activeSlot : Slot := ledger.slots.getD (ledger.activeFrameCount - 1) {}

def modifyActive (f : LogicalFrame → LogicalFrame) : ShadowLedger :=
  { ledger with
    slots := ledger.slots.modify (ledger.activeFrameCount - 1) fun slot =>
      { slot with frame := f slot.frame } }

def limitFrames : Nat := (ledger.profile.map (·.value.frames)).getD 0

def observes : Bool := ledger.profile.map (·.value.purpose) = some .observeValues

-- Entry

/-- The site at which a frame waits, from its storage or else from its last packet. -/
def currentSite (slot : Slot) : Nat :=
  let site := (observerSite slot).2
  if site = 0 then if slot.frame.materialized then slot.frame.site else 0 else site

def checkCaller : Status :=
  let caller := ledger.activeSlot
  if (observerSite caller).1 ≠ .ok then (observerSite caller).1
  else if currentSite caller = 0 ∨
      ((sitesOf caller.frame.plan)[currentSite caller - 1]?.map SafepointLayout.phase) ≠
        some .awaitingCallReturn then .unmaterialized
  else .ok

def callerIncarnation : Nat :=
  if ledger.activeFrameCount = 0 then 0 else ledger.activeSlot.frame.identity.incarnation

def grown : List Slot :=
  if ledger.activeFrameCount = ledger.slots.length then ledger.slots ++ [({} : Slot)]
    else ledger.slots

/-- The slot of an admitted activation, made of a retired one. -/
def admittedSlot (slot : Slot) (actual : ActivationIdentity) (plan : Owner SealedFunctionPlan)
    (compilerReuse : Bool) : Slot :=
  { slot with
    metadataReuse := compilerReuse && ledger.observes && plan.value.observerRetentionBytes ≠ 0
    frame :=
      { slot.frame with
        identity := actual
        plan := if compilerReuse && sameOwner slot.frame.plan (some plan) then slot.frame.plan
          else some plan
        values := if ledger.recycledCount ≠ 0 then
            ledger.recycledValues.getD (ledger.recycledCount - 1) .empty
          else slot.frame.values } }

def push (actual : ActivationIdentity) (plan : Owner SealedFunctionPlan) (compilerReuse : Bool) :
    ShadowLedger :=
  let slot : Slot := ledger.grown.getD ledger.activeFrameCount {}
  { ledger with
    slots := ledger.grown.set ledger.activeFrameCount
      (ledger.admittedSlot slot actual plan compilerReuse)
    activeFrameCount := ledger.activeFrameCount + 1
    retainedMetadataCount :=
      if slot.frame.plan.isSome then ledger.retainedMetadataCount - 1
      else ledger.retainedMetadataCount
    recycledValues := if ledger.recycledCount ≠ 0 then
        ledger.recycledValues.set (ledger.recycledCount - 1) slot.frame.values
      else ledger.recycledValues
    recycledCount := ledger.recycledCount - 1 }

def enterImpl (actual : ActivationIdentity) (plan : Option (Owner SealedFunctionPlan))
    (compilerReuse : Bool) : Status × ShadowLedger :=
  if ledger.failure ≠ .ok then (ledger.failure, ledger)
  else
    match plan with
    | none => ledger.failWith .invalidPlan
    | some plan =>
      if !sameOwner plan.value.plan.profile ledger.profile then ledger.failWith .invalidPlan
      else if plan.value.plan.producerAvailability ≠ .ok then
        ledger.failWith plan.value.plan.producerAvailability
      else if actual.incarnation = 0 ∨ actual.continuation = 0 ∨ actual.runtimeEpoch = 0 ∨
          actual.parent ≠ ledger.callerIncarnation ∨
          (ledger.activeFrameCount ≠ 0 ∧
            actual.runtimeEpoch ≠ ledger.activeSlot.frame.identity.runtimeEpoch) then
        ledger.failWith .invalidActivation
      else if ledger.limitFrames ≠ 0 ∧ ledger.limitFrames ≤ ledger.activeFrameCount then
        ledger.failWith .quotaExceeded
      else if ledger.pendingTailContinuation ≠ 0 then
        if actual.continuation ≠ ledger.pendingTailContinuation ∨
            actual.parent ≠ ledger.pendingTailParent then ledger.failWith .invalidActivation
        else
          (.ok, push { ledger with pendingTailContinuation := 0, pendingTailParent := 0 }
            actual plan compilerReuse)
      else if ledger.activeFrameCount ≠ 0 ∧ ledger.checkCaller ≠ .ok then
        ledger.failWith ledger.checkCaller
      else (.ok, ledger.push actual plan compilerReuse)

def enter (actual : ActivationIdentity) (plan : Option (Owner SealedFunctionPlan)) :
    Status × ShadowLedger := ledger.enterImpl actual plan false

def compilerEnterObserver (actual : ActivationIdentity) (plan : Option (Owner SealedFunctionPlan)) :
    Status × ShadowLedger :=
  if ledger.failure ≠ .ok then (ledger.failure, ledger)
  else if !ledger.observes then ledger.failWith .invalidProfile
  else ledger.enterImpl actual plan true

-- Observer storage

def bindObserverStorage (actual : ActivationIdentity) (storage : Bytes) : Status × ShadowLedger :=
  if ledger.failure ≠ .ok then (ledger.failure, ledger)
  else if ledger.activeFrameCount = 0 ∨ ledger.activeSlot.frame.identity ≠ actual ∨
      !ledger.observes ∨ ledger.activeSlot.storage ≠ [] then ledger.failWith .invalidActivation
  else
    let locals := ((sitesOf ledger.activeSlot.frame.plan).head?.map
      SafepointLayout.localCount).getD 0
    if storage.length < observerSiteBytes ∨
        (storage.length - observerSiteBytes) / (observerLocalMetadataBytes + nativeSlotBytes) <
          locals then
      ledger.failWith .invalidLayout
    else if littleEndian (storage.take observerSiteBytes) ≠ 0 then ledger.failWith .invalidLayout
    else
      (.ok, { ledger with
        slots := ledger.slots.modify (ledger.activeFrameCount - 1)
          ({ · with storage := storage }) })

/-- The running activation writes its own storage. While a tail call is pending, no
activation runs. -/
def observerStore (bytes : Bytes) : ShadowLedger :=
  if ledger.activeFrameCount = 0 ∨ ledger.pendingTailContinuation ≠ 0 ∨
      bytes.length ≠ ledger.activeSlot.storage.length then ledger
  else
    { ledger with
      slots := ledger.slots.modify (ledger.activeFrameCount - 1) ({ · with storage := bytes }) }

-- Materialization

def retainNumericPacket (site : Nat) (payload : Bytes) (frame : LogicalFrame) : LogicalFrame :=
  { frame with
    numericPacket := payload ++ frame.numericPacket.drop payload.length
    values := if frame.numericPacketPending then frame.values else frame.values.clear
    materialized := true
    numericPacketPending := true
    site := site }

def commit (site : Nat) (cells : List NativeValue) (frame : LogicalFrame) : LogicalFrame :=
  { frame with
    values := frame.values.refill cells
    site := site
    materialized := true
    numericPacketPending := false }

/-- The activation is the one on top and no tail call is pending. -/
def isActive (actual : ActivationIdentity) : Bool :=
  ledger.activeFrameCount ≠ 0 && ledger.activeSlot.frame.identity = actual &&
    ledger.pendingTailContinuation = 0

def checkFixedSlot (payload : Bytes) (i : Nat) (declaration : TypedSlot) : Status :=
  let bytes := slotBytes payload i
  if !declaration.initialized then
    if bytes.all (· = 0) then .ok else .invalidLayout
  else if declaration.type.kind = .reference then
    match RefKind.ofTag? (refTag bytes) with
    -- a parser's function index is not a live reference
    | some .func | none => .invalidReference
    | some .null => if declaration.type.nullable then .ok else .invalidReference
    | some _ => .ok
  else .ok

def materialize (actual : ActivationIdentity) (siteId : Nat) (slots : Bytes)
    (deferNumericExpansion : Bool) : Status × ShadowLedger :=
  if ledger.failure ≠ .ok then (ledger.failure, ledger)
  else if !ledger.isActive actual then ledger.failWith .invalidActivation
  else
    match (sitesOf ledger.activeSlot.frame.plan)[siteId - 1]? with
    | none => ledger.failWith .invalidLayout
    | some site =>
      if siteId = 0 then ledger.failWith .invalidLayout
      else if ptrdiffMax / nativeSlotBytes < site.slots.length ∨
          slots.length ≠ site.slots.length * nativeSlotBytes then ledger.failWith .invalidLayout
      else if deferNumericExpansion ∧ ledger.observes ∧ slots.length ≤ numericPacketBytes ∧
          site.referenceSlots = [] then
        (.ok, ledger.modifyActive (retainNumericPacket siteId slots))
      else if firstFailure (site.slots.mapIdx (checkFixedSlot slots)) ≠ .ok then
        ledger.failWith (firstFailure (site.slots.mapIdx (checkFixedSlot slots)))
      else
        (.ok, ledger.modifyActive (commit siteId
          (site.slots.mapIdx fun i declaration => ⟨declaration, slotBytes slots i⟩)))

def checkValidatedValue (site : SafepointLayout) (values : List NativeValue) (i : Nat)
    (expected : TypedSlot) : Status :=
  let value := values.getD i ⟨{}, []⟩
  if !sameType value.declaration.type expected.type ∨
      (expected.initialized ∧ !value.declaration.initialized) then .invalidLayout
  else if !value.declaration.initialized then
    if site.localCount ≤ i ∨ expected.type.kind ≠ .reference ∨
      expected.type.nullable then .invalidLayout
    else if value.bits.all (· = 0) then .ok
    else .invalidLayout
  else if expected.type.kind = .reference then
    match RefKind.ofTag? (refTag value.bits) with
    | some kind => if kind ∈ acceptedKinds expected.type then .ok else .invalidReference
    | none => .invalidReference
  else .ok

def materializeValidatedNativeData (actual : ActivationIdentity)
    (actualPlan : Option (Owner SealedFunctionPlan)) (siteId : Nat) (values : List NativeValue) :
    Status × ShadowLedger :=
  if ledger.failure ≠ .ok then (ledger.failure, ledger)
  else if !ledger.isActive actual then ledger.failWith .invalidActivation
  else
    match (sitesOf ledger.activeSlot.frame.plan)[siteId - 1]? with
    | none => ledger.failWith .invalidPlan
    | some site =>
      if !actualPlan.isSome ∨ !sameOwner ledger.activeSlot.frame.plan actualPlan ∨ siteId = 0 then
        ledger.failWith .invalidPlan
      else if values.length ≠ site.slots.length then ledger.failWith .invalidLayout
      else if firstFailure (site.slots.mapIdx (checkValidatedValue site values)) ≠ .ok then
        ledger.failWith (firstFailure (site.slots.mapIdx (checkValidatedValue site values)))
      else
        -- the values are copied to a vector of their own
        (.ok, ledger.modifyActive fun frame =>
          commit siteId values { frame with values := .empty })

def materializeCompilerNativeData (actual : ActivationIdentity)
    (actualPlan : Option (Owner SealedFunctionPlan)) (siteId : Nat) (payload flags : Bytes)
    (deferNumericExpansion : Bool) : Status × ShadowLedger :=
  if ledger.failure ≠ .ok then (ledger.failure, ledger)
  else if !ledger.isActive actual then ledger.failWith .invalidActivation
  else if !actualPlan.isSome ∨ !sameOwner ledger.activeSlot.frame.plan actualPlan then
    ledger.failWith .invalidPlan
  else
    let site := if siteId = 0 then none else (sitesOf actualPlan)[siteId - 1]?
    match site.filter fun site => deferNumericExpansion && ledger.observes &&
        site.slots.length ≤ numericPacketBytes / nativeSlotBytes && site.referenceSlots.isEmpty &&
        site.allLocalsRequired with
    | some site =>
      if payload.length ≠ site.slots.length * nativeSlotBytes ∨ flags.length ≠ site.localCount ∨
          ¬ flags.all (· = 1) then ledger.failWith .invalidLayout
      else (.ok, ledger.modifyActive (retainNumericPacket siteId payload))
    | none =>
      let frame := ledger.activeSlot.frame
      let retainLocalTypes := frame.materialized &&
        (actualPlan.map (·.value.plan.invariantLocalTypes)).getD false &&
        (site.map fun site => decide (site.localCount ≤ frame.values.cells.length)).getD false
      match validateCompilerPacket actualPlan siteId payload flags, site with
      | .ok, some site =>
        (.ok, ledger.modifyActive fun frame => commit siteId
          (packetCells site payload flags frame.values.cells retainLocalTypes) frame)
      | .ok, none => ledger.failWith .invalidPlan
      | checked, _ => ledger.failWith checked

-- Leaving

/-- Put the storage of values aside: the vector for the frame, and the cache with its count. -/
def recycleValues (values : ValueVector) : ValueVector × List ValueVector × Nat :=
  if values.capacity ≠ 0 ∧ values.capacity ≤ recycleCapacity ∧
      ledger.recycledCount ≠ ledger.recycledValues.length then
    (ledger.recycledValues.getD ledger.recycledCount .empty,
      ledger.recycledValues.set ledger.recycledCount values.clear, ledger.recycledCount + 1)
  else (values, ledger.recycledValues, ledger.recycledCount)

def retainsPlan : Bool :=
  ledger.activeSlot.metadataReuse && ledger.retainedMetadataCount < retainedMetadataLimit

def retiredSlot (slot : Slot) (values : ValueVector) (retain : Bool) : Slot :=
  { frame :=
      { identity := {}
        plan := if retain then slot.frame.plan else none
        site := 0
        values := if values.capacity ≠ 0 then .empty else values
        materialized := false
        numericPacket := slot.frame.numericPacket
        numericPacketPending := false }
    storage := []
    metadataReuse := false }

def retire : ShadowLedger :=
  let recycled := ledger.recycleValues ledger.activeSlot.frame.values
  { ledger with
    slots := ledger.slots.set (ledger.activeFrameCount - 1)
      (retiredSlot ledger.activeSlot recycled.1 ledger.retainsPlan)
    recycledValues := recycled.2.1
    recycledCount := recycled.2.2
    retainedMetadataCount :=
      if ledger.retainsPlan then ledger.retainedMetadataCount + 1 else ledger.retainedMetadataCount
    activeFrameCount := ledger.activeFrameCount - 1 }

def leave (actual : ActivationIdentity) (typedTail : Bool) : Status × ShadowLedger :=
  if ledger.failure ≠ .ok then (ledger.failure, ledger)
  else if !ledger.isActive actual then ledger.failWith .invalidActivation
  else if typedTail then
    (.ok, retire { ledger with
      pendingTailContinuation := actual.continuation
      pendingTailParent := actual.parent })
  else (.ok, ledger.retire)

-- Failures

def poison (reason : Status) : ShadowLedger :=
  ledger.fail (if reason = .ok then .invalidActivation else reason)

def hostImportAdmission (hasAdapter : Bool) : Status × ShadowLedger :=
  if ledger.failure ≠ .ok then (ledger.failure, ledger)
  else if !hasAdapter then ledger.failWith .nonReplayableImport
  else (.ok, ledger)

/-- The cache of value storage is kept. -/
def discardFailedRecording : Bool × ShadowLedger :=
  if ledger.failure = .ok then (false, ledger)
  else
    (true, { ledger with
      slots := []
      activeFrameCount := 0
      retainedMetadataCount := 0
      pendingTailContinuation := 0
      pendingTailParent := 0 })

-- Runs

inductive Op
  | enter (actual : ActivationIdentity) (plan : Option (Owner SealedFunctionPlan))
  | compilerEnterObserver (actual : ActivationIdentity) (plan : Option (Owner SealedFunctionPlan))
  | bindObserverStorage (actual : ActivationIdentity) (storage : Bytes)
  | observerStore (bytes : Bytes)
  | materialize (actual : ActivationIdentity) (siteId : Nat) (slots : Bytes) (defer : Bool)
  | materializeValidatedNativeData (actual : ActivationIdentity)
      (actualPlan : Option (Owner SealedFunctionPlan)) (siteId : Nat) (values : List NativeValue)
  | materializeCompilerNativeData (actual : ActivationIdentity)
      (actualPlan : Option (Owner SealedFunctionPlan)) (siteId : Nat) (payload flags : Bytes)
      (defer : Bool)
  | leave (actual : ActivationIdentity) (typedTail : Bool)
  | poison (reason : Status)
  | hostImportAdmission (hasAdapter : Bool)
  | discardFailedRecording

def step : Op → ShadowLedger
  | .enter actual plan => (ledger.enter actual plan).2
  | .compilerEnterObserver actual plan => (ledger.compilerEnterObserver actual plan).2
  | .bindObserverStorage actual storage => (ledger.bindObserverStorage actual storage).2
  | .observerStore bytes => ledger.observerStore bytes
  | .materialize actual siteId slots defer => (ledger.materialize actual siteId slots defer).2
  | .materializeValidatedNativeData actual actualPlan siteId values =>
    (ledger.materializeValidatedNativeData actual actualPlan siteId values).2
  | .materializeCompilerNativeData actual actualPlan siteId payload flags defer =>
    (ledger.materializeCompilerNativeData actual actualPlan siteId payload flags defer).2
  | .leave actual typedTail => (ledger.leave actual typedTail).2
  | .poison reason => ledger.poison reason
  | .hostImportAdmission hasAdapter => (ledger.hostImportAdmission hasAdapter).2
  | .discardFailedRecording => ledger.discardFailedRecording.2

def run (ops : List Op) : ShadowLedger := ops.foldl step ledger

end ShadowLedger

end Uwvm2.Checkpoint
