import Uwvm2.Lib.RelyGuarantee

/-!
# Compact numeric descriptors

The slots of compact numeric ranges: publication of a range, append, stopped mark
and sweep, two-step retirement, and readers, as atomic steps of any number of
threads. A step makes at most one access to shared atomic data; plain data that a
lock protects is accessed together with it, and data that only the running thread
can see moves with the step before it.
-/

namespace Uwvm2.Storage.CompactNumeric

inductive Status
  | ok
  | invalidStore
  | invalidReference
  | foreignReference
  | outOfBounds
  | sizeOverflow
  | notPublished
  | retiring
  | busy
  | invariantError
  deriving DecidableEq, Repr

inductive Phase
  | prepared
  | published
  | closing
  | retired
  deriving DecidableEq, Repr

-- Geometry

def firstObjectToken : Nat := 0x10000

def reservedWidth : Nat := 1024

def bitmapWords : Nat := reservedWidth / 64

/-- The number of bits of `std::uintptr_t` and `std::size_t`. -/
class Target where
  bits : Nat
  wide : 32 ≤ bits

section Target

variable [Target]

def uintptrMax : Nat := 2 ^ Target.bits - 1

def sizeMax : Nat := 2 ^ Target.bits - 1

def validRange (first capacity : Nat) : Bool :=
  capacity ≠ 0 && capacity ≤ reservedWidth && firstObjectToken ≤ first &&
    first ≤ uintptrMax - reservedWidth

def slot? (first capacity token : Nat) : Option Nat :=
  if validRange first capacity && first ≤ token && token - first < capacity then
    some (token - first)
  else none

end Target

-- State

/-- A descriptor, with the thread that holds its publication lock. -/
structure Descriptor (T : Type) where
  capacity : Nat
  payload : List UInt32
  tokenBegin : Nat := 0
  phase : Phase := .prepared
  initializedFrontier : Nat := 0
  live : Nat → BitVec 64 := fun _ => 0
  marks : Nat → BitVec 64 := fun _ => 0
  readers : Nat := 0
  publishLock : Option T := none
  pendingNode : Bool := true
  registeredNode : Bool := false

def Descriptor.isLive {T : Type} (x : Descriptor T) (slot : Nat) : Bool :=
  (x.live (slot / 64)).getLsbD (slot % 64)

/-- A shared lease of the entry admission, by what owns it: an outer execution, a call
in progress, or an acquired reader. -/
inductive Lease (T : Type)
  | outer (t : T)
  | call (t : T)
  | reader (id : Nat)
  deriving DecidableEq

def Lease.isOuter {T : Type} : Lease T → Bool
  | .outer _ => true
  | _ => false

structure Reader (D : Type) where
  id : Nat
  descriptor : D
  slot : Nat
  token : Nat
  deriving DecidableEq

inductive Event (T D : Type)
  /-- The issuer gives a block of tokens to a publication, or to ordinary objects. -/
  | reserved (publisher : Option T) (first : Nat)
  | published (d : D) (first : Nat)
  | appended (d : D) (slot token : Nat) (bits : UInt32)
  | acquired (id : Nat) (d : D) (slot token : Nat)
  | read (id : Nat) (bits : Option UInt32)
  | reset (id : Nat)
  | swept (d : D) (slot : Nat)
  | retireBegan (d : D)
  | released (d : D)
  deriving DecidableEq

/-- The shared state. The admission word is its exclusive bit, with the thread that set
it, and the shared leases it counts. -/
structure Shared (T D : Type) where
  descriptor : D → Descriptor T
  registry : List D := []
  registryLock : Option T := none
  exclusive : Option T := none
  leases : List (Lease T) := []
  nextObjectTokenId : Nat := firstObjectToken
  held : List (Reader D) := []
  nextReader : Nat := 0
  trace : List (Event T D) := []

inductive Call (T D : Type)
  | publishRangeFromStore (d : D)
  | appendRaw32 (d : D) (bits : UInt32)
  | beginMarks (d : D)
  | markToken (d : D) (token : Nat)
  | sweepUnmarked (d : D)
  | beginRetire (d : D)
  | finishRetire (d : D)
  | acquire (token : Nat)
  | rawBits32 (id : Nat)
  | reset (id : Nat)
  | enterOuter
  | leaveOuter
  | tryExclusive (presented : List (Lease T))
  | leaveExclusive
  | reserveObjectBlock

/-- Where a thread stands: outside all calls, before a step of one, or on the way out,
with the locks and the lease it still has to give back. -/
inductive Position (D : Type)
  | outside (last : Status)
  | leaving (registry : Bool) (page : Option D) (lease : Bool) (status : Status)
  | publishStart (d : D)
  | publishAdmitted (d : D)
  | publishLocked (d : D)
  | publishIssuer (d : D)
  | publishReserve (d : D) (first : Nat)
  | publishReserved (d : D) (first : Nat)
  | publishScan (d : D) (first : Nat)
  | publishLinked (d : D)
  | appendStart (d : D) (bits : UInt32)
  | appendAdmitted (d : D) (bits : UInt32)
  | appendLocked (d : D) (bits : UInt32)
  | appendFrontier (d : D) (bits : UInt32)
  | appendStore (d : D) (bits : UInt32) (index : Nat)
  | appendLoadLive (d : D) (bits : UInt32) (index : Nat)
  | appendStoreLive (d : D) (bits : UInt32) (index : Nat) (old : BitVec 64)
  | appendPublish (d : D) (bits : UInt32) (index : Nat)
  | marksPhase (d : D)
  | marksReaders (d : D)
  | marksClear (d : D)
  | markReaders (d : D) (token : Nat)
  | markPhase (d : D) (token : Nat)
  | markFrontier (d : D) (token : Nat)
  | markLive (d : D) (slot : Nat)
  | markSet (d : D) (slot : Nat)
  | sweepPhase (d : D)
  | sweepReaders (d : D)
  | sweepLoad (d : D) (word count : Nat)
  | sweepStore (d : D) (word count : Nat) (old : BitVec 64)
  | retireStart (d : D)
  | retireLocked (d : D)
  | retirePhase (d : D)
  | retirePrepared (d : D)
  | retireUnlink (d : D)
  | retireClose (d : D)
  | finishStart (d : D)
  | finishPhase (d : D)
  | finishReaders (d : D)
  | finishRelease (d : D)
  | finishRetired (d : D)
  | acquireStart (token : Nat)
  | acquireAdmitted (token : Nat)
  | acquireScan (token : Nat)
  | acquireFound (token : Nat) (found : Option D)
  | acquireStore (token : Nat) (d : D)
  | acquireRelock (token : Nat) (d : D)
  | acquireCheck (token : Nat) (d : D)
  | acquireFrontier (token : Nat) (d : D)
  | acquireLive (token : Nat) (d : D) (slot : Nat)
  | acquireReaders (token : Nat) (d : D) (slot : Nat)
  | acquireCount (token : Nat) (d : D) (slot : Nat)
  | leaveReader (id : Nat)
  deriving DecidableEq

/-- What a thread does in its turn. `fail` takes the branch of a step in which a weak
pointer has expired, a handle is foreign or a weak exchange fails. -/
inductive Turn (T D : Type)
  | call (op : Call T D)
  | proceed
  | fail

-- Locks and admission

variable {T D : Type} [DecidableEq T] [DecidableEq D]

def Shared.modify (s : Shared T D) (d : D) (f : Descriptor T → Descriptor T) : Shared T D :=
  { s with descriptor := Function.update s.descriptor d (f (s.descriptor d)) }

def Shared.log (s : Shared T D) (e : Event T D) : Shared T D := { s with trace := e :: s.trace }

def lockPage (t : T) (d : D) (s : Shared T D) : Option (Shared T D) :=
  if (s.descriptor d).publishLock = none then
    some (s.modify d fun x => { x with publishLock := some t })
  else none

def lockRegistry (t : T) (s : Shared T D) : Option (Shared T D) :=
  if s.registryLock = none then some { s with registryLock := some t } else none

def enterAdmission (lease : Lease T) (s : Shared T D) : Option (Shared T D) :=
  if s.exclusive = none then some { s with leases := lease :: s.leases } else none

/-- Every lease that is presented is the lease of an outer execution, and no other lease
is counted. -/
def tryExclusive (t : T) (presented : List (Lease T)) (s : Shared T D) : Option (Shared T D) :=
  if s.exclusive = none ∧ (∀ l ∈ presented, l.isOuter) ∧ presented.Subperm s.leases ∧
      s.leases.length = presented.length then
    some { s with exclusive := some t }
  else none

/-- Store the word of a slot with the slot's bit set, given the word's old value. -/
def setBit (bitmap : Nat → BitVec 64) (slot : Nat) (old : BitVec 64) : Nat → BitVec 64 :=
  Function.update bitmap (slot / 64) (old ||| 1#64 <<< (slot % 64))

def slotsOf (word : Nat) (bits : BitVec 64) : List Nat :=
  ((List.range 64).filter bits.getLsbD).map (64 * word + ·)

-- Calls

variable [Target]

def start (t : T) (s : Shared T D) : Call T D → Option (Position D × Shared T D)
  | .publishRangeFromStore d => some (.publishStart d, s)
  | .appendRaw32 d bits => some (.appendStart d bits, s)
  | .beginMarks d => if s.exclusive = some t then some (.marksPhase d, s) else none
  | .markToken d token => if s.exclusive = some t then some (.markReaders d token, s) else none
  | .sweepUnmarked d => if s.exclusive = some t then some (.sweepPhase d, s) else none
  | .beginRetire d => some (.retireStart d, s)
  | .finishRetire d => some (.finishStart d, s)
  | .acquire token => some (.acquireStart token, s)
  | .rawBits32 id =>
    match s.held.find? (·.id = id) with
    | some r =>
      some (.outside .ok, s.log (.read id (s.descriptor r.descriptor).payload[r.slot]?))
    | none => none
  | .reset id =>
    match s.held.find? (·.id = id) with
    | some r =>
      if (s.descriptor r.descriptor).readers = 0 then none
      else some (.leaveReader id,
        { s.modify r.descriptor fun x => { x with readers := x.readers - 1 } with
          held := s.held.erase r, trace := .reset id :: s.trace })
    | none => none
  | .enterOuter => (enterAdmission (.outer t) s).map (.outside .ok, ·)
  | .leaveOuter =>
    if s.exclusive = none ∧ .outer t ∈ s.leases then
      some (.outside .ok, { s with leases := s.leases.erase (.outer t) })
    else none
  | .tryExclusive presented => (tryExclusive t presented s).map (.outside .ok, ·)
  | .leaveExclusive =>
    if s.exclusive = some t then some (.outside .ok, { s with exclusive := none }) else none
  | .reserveObjectBlock =>
    let first := s.nextObjectTokenId
    if uintptrMax - reservedWidth < first then none
    else some (.outside .ok, { s with nextObjectTokenId := first + reservedWidth }.log
      (.reserved none first))

def overlaps (first : Nat) (x : Descriptor T) : Bool :=
  first < x.tokenBegin + reservedWidth && x.tokenBegin < first + reservedWidth

def advance (t : T) (fail : Bool) (s : Shared T D) : Position D → Option (Position D × Shared T D)
  | .outside _ => none
  | .leaving true page lease status =>
    some (.leaving false page lease status, { s with registryLock := none })
  | .leaving false (some d) lease status =>
    some (.leaving false none lease status, s.modify d fun x => { x with publishLock := none })
  | .leaving false none true status =>
    some (.outside status, { s with leases := s.leases.erase (.call t) })
  | .leaving false none false status => some (.outside status, s)
  | .publishStart d =>
    if fail then some (.outside .invalidStore, s)
    else (enterAdmission (.call t) s).map (.publishAdmitted d, ·)
  | .publishAdmitted d => (lockPage t d s).map (.publishLocked d, ·)
  | .publishLocked d =>
    if fail || !(s.descriptor d).pendingNode then
      some (.leaving false (some d) true .invalidStore, s)
    else if (s.descriptor d).phase ≠ .prepared then
      some (.leaving false (some d) true .invariantError, s)
    else some (.publishIssuer d, s)
  | .publishIssuer d => some (.publishReserve d s.nextObjectTokenId, s)
  | .publishReserve d first =>
    if first < firstObjectToken ∨ uintptrMax - reservedWidth < first then
      some (.leaving false (some d) true .sizeOverflow, s)
    else if fail || s.nextObjectTokenId ≠ first then
      some (.publishReserve d s.nextObjectTokenId, s)
    else some (.publishReserved d first, { s with nextObjectTokenId := first + reservedWidth }.log
      (.reserved (some t) first))
  | .publishReserved d first => (lockRegistry t s).map (.publishScan d first, ·)
  | .publishScan d first =>
    if s.registry.any fun other => overlaps first (s.descriptor other) then
      some (.leaving true (some d) true .invariantError, s)
    else some (.publishLinked d,
      { s.modify d fun x =>
          { x with tokenBegin := first, pendingNode := false, registeredNode := true } with
        registry := d :: s.registry, trace := .published d first :: s.trace })
  | .publishLinked d =>
    some (.leaving true (some d) true .ok, s.modify d fun x => { x with phase := .published })
  | .appendStart d bits =>
    if fail then some (.outside .invalidStore, s)
    else (enterAdmission (.call t) s).map (.appendAdmitted d bits, ·)
  | .appendAdmitted d bits => (lockPage t d s).map (.appendLocked d bits, ·)
  | .appendLocked d bits =>
    if (s.descriptor d).phase ≠ .published then some (.leaving false (some d) true .notPublished, s)
    else some (.appendFrontier d bits, s)
  | .appendFrontier d bits =>
    let index := (s.descriptor d).initializedFrontier
    if (s.descriptor d).capacity ≤ index then some (.leaving false (some d) true .outOfBounds, s)
    else some (.appendStore d bits index, s)
  | .appendStore d bits index =>
    if (s.descriptor d).payload.length ≤ index then
      some (.leaving false (some d) true .outOfBounds, s)
    else some (.appendLoadLive d bits index,
      s.modify d fun x => { x with payload := x.payload.set index bits })
  | .appendLoadLive d bits index =>
    some (.appendStoreLive d bits index ((s.descriptor d).live (index / 64)), s)
  | .appendStoreLive d bits index old =>
    some (.appendPublish d bits index, s.modify d fun x =>
      { x with live := setBit x.live index old })
  | .appendPublish d bits index =>
    some (.leaving false (some d) true .ok,
      (s.modify d fun x => { x with initializedFrontier := index + 1 }).log
        (.appended d index ((s.descriptor d).tokenBegin + index) bits))
  | .marksPhase d =>
    if (s.descriptor d).phase ≠ .published then some (.outside .notPublished, s)
    else some (.marksReaders d, s)
  | .marksReaders d =>
    if (s.descriptor d).readers ≠ 0 then some (.outside .busy, s) else some (.marksClear d, s)
  | .marksClear d => some (.outside .ok, s.modify d fun x => { x with marks := fun _ => 0 })
  | .markReaders d token =>
    if (s.descriptor d).readers ≠ 0 then some (.outside .busy, s) else some (.markPhase d token, s)
  | .markPhase d token =>
    if (s.descriptor d).phase ≠ .published then some (.outside .notPublished, s)
    else some (.markFrontier d token, s)
  | .markFrontier d token =>
    match slot? (s.descriptor d).tokenBegin (s.descriptor d).capacity token with
    | none => some (.outside .invalidReference, s)
    | some slot =>
      if (s.descriptor d).initializedFrontier ≤ slot then some (.outside .invalidReference, s)
      else some (.markLive d slot, s)
  | .markLive d slot =>
    if (s.descriptor d).isLive slot then some (.markSet d slot, s)
    else some (.outside .invalidReference, s)
  | .markSet d slot =>
    if (s.descriptor d).capacity ≤ slot ∨ reservedWidth ≤ slot ∨ bitmapWords ≤ slot / 64 then
      some (.outside .invalidReference, s)
    else some (.outside .ok, s.modify d fun x =>
      { x with marks := setBit x.marks slot (x.marks (slot / 64)) })
  | .sweepPhase d =>
    if (s.descriptor d).phase ≠ .published then some (.outside .notPublished, s)
    else some (.sweepReaders d, s)
  | .sweepReaders d =>
    if (s.descriptor d).readers ≠ 0 then some (.outside .busy, s) else some (.sweepLoad d 0 0, s)
  | .sweepLoad d word count =>
    if word = bitmapWords then some (.outside .ok, s)
    else some (.sweepStore d word count ((s.descriptor d).live word), s)
  | .sweepStore d word count old =>
    let dead := slotsOf word (old &&& ~~~(s.descriptor d).marks word)
    some (.sweepLoad d (word + 1) (count + dead.length),
      { s.modify d fun x => { x with
        live := Function.update x.live word (old &&& x.marks word) } with
        trace := dead.map (.swept d) ++ s.trace })
  | .retireStart d =>
    if fail then some (.outside .invalidStore, s) else (lockPage t d s).map (.retireLocked d, ·)
  | .retireLocked d => (lockRegistry t s).map (.retirePhase d, ·)
  | .retirePhase d =>
    match (s.descriptor d).phase with
    | .retired => some (.leaving true (some d) false .ok, s)
    | .closing => some (.leaving true (some d) false .ok, s)
    | .prepared => some (.retirePrepared d, s)
    | .published => some (.retireUnlink d, s)
  | .retirePrepared d =>
    some (.leaving true (some d) false .ok,
      (s.modify d fun x => { x with phase := .closing }).log (.retireBegan d))
  | .retireUnlink d =>
    if d ∈ s.registry then
      some (.retireClose d,
        { s.modify d fun x => { x with registeredNode := false } with
          registry := s.registry.erase d, trace := .retireBegan d :: s.trace })
    else some (.leaving true (some d) false .invariantError, s)
  | .retireClose d =>
    some (.leaving true (some d) false .ok, s.modify d fun x => { x with phase := .closing })
  | .finishStart d =>
    if fail then some (.outside .invalidStore, s) else (lockPage t d s).map (.finishPhase d, ·)
  | .finishPhase d =>
    match (s.descriptor d).phase with
    | .retired => some (.leaving false (some d) false .ok, s)
    | .closing => some (.finishReaders d, s)
    | _ => some (.leaving false (some d) false .invariantError, s)
  | .finishReaders d =>
    if (s.descriptor d).readers ≠ 0 then some (.leaving false (some d) false .busy, s)
    else some (.finishRelease d, s)
  | .finishRelease d =>
    some (.finishRetired d, (s.modify d fun x => { x with payload := [] }).log (.released d))
  | .finishRetired d =>
    some (.leaving false (some d) false .ok, s.modify d fun x => { x with phase := .retired })
  | .acquireStart token =>
    if fail then some (.outside .invalidReference, s)
    else (enterAdmission (.call t) s).map (.acquireAdmitted token, ·)
  | .acquireAdmitted token => (lockRegistry t s).map (.acquireScan token, ·)
  | .acquireScan token =>
    some (.acquireFound token (s.registry.find? fun d =>
      (slot? (s.descriptor d).tokenBegin (s.descriptor d).capacity token).isSome), s)
  | .acquireFound token found =>
    some (match found with
      | none => .leaving false none true .invalidReference
      | some d => .acquireStore token d, { s with registryLock := none })
  | .acquireStore token d =>
    if fail then some (.leaving false none true .foreignReference, s)
    else some (.acquireRelock token d, s)
  | .acquireRelock token d => (lockRegistry t s).map (.acquireCheck token d, ·)
  | .acquireCheck token d =>
    if !(s.descriptor d).registeredNode || (s.descriptor d).phase ≠ .published then
      some (.leaving true none true .retiring, s)
    else some (.acquireFrontier token d, s)
  | .acquireFrontier token d =>
    match slot? (s.descriptor d).tokenBegin (s.descriptor d).capacity token with
    | none => some (.leaving true none true .invalidReference, s)
    | some slot =>
      if (s.descriptor d).initializedFrontier ≤ slot then
        some (.leaving true none true .invalidReference, s)
      else some (.acquireLive token d slot, s)
  | .acquireLive token d slot =>
    if (s.descriptor d).isLive slot then some (.acquireReaders token d slot, s)
    else some (.leaving true none true .invalidReference, s)
  | .acquireReaders token d slot =>
    if (s.descriptor d).readers = sizeMax then some (.leaving true none true .sizeOverflow, s)
    else some (.acquireCount token d slot, s)
  | .acquireCount token d slot =>
    -- the lease of the call and the pins move into the reader
    some (.leaving true none false .ok,
      { s.modify d fun x => { x with readers := (x.readers + 1) % 2 ^ Target.bits } with
        leases := .reader s.nextReader :: s.leases.erase (.call t)
        held := ⟨s.nextReader, d, slot, token⟩ :: s.held
        nextReader := s.nextReader + 1
        trace := .acquired s.nextReader d slot token :: s.trace })
  | .leaveReader id => some (.outside .ok, { s with leases := s.leases.erase (.reader id) })

def act : RelyGuarantee.Action T (Position D) (Shared T D) (Turn T D) := fun t turn p s =>
  match p, turn with
  | .outside _, .call op => start t s op
  | _, .call _ => none
  | p, .proceed => advance t false s p
  | p, .fail => advance t true s p

def prepared (capacity : Nat) : Descriptor T where
  capacity := capacity
  payload := List.replicate capacity 0

/-- Any number of threads outside all calls, and any set of prepared descriptors. -/
def initial (capacity : D → Nat) : RelyGuarantee.Config T (Position D) (Shared T D) :=
  ⟨fun _ => .outside .ok, { descriptor := fun d => prepared (capacity d) }⟩

end Uwvm2.Storage.CompactNumeric
