import Uwvm2.Lib.RelyGuarantee

/-!
# Stopping the participants of a collection

Threads enroll as participants and park with their roots published; a thread with the
current ticket runs a callback while all participants are parked. Whatever a thread does
while it holds the mutex is one step, except that the callback runs between two steps
and the mutex is held all the time. Misuse ends the process.

A participant's roots change only while it runs: not inside a call, not in a blocking
scope and not while it is the initiator of a pause.
-/

namespace Uwvm2.Thread.CollectionPauseDomain

open Function

inductive CollectionPauseResult
  | paused
  | timeout
  | staleTicket
  | closed
  deriving DecidableEq

/-- A place for a participant; the identifier 0 is that of a free place. -/
structure Slot (T C : Type) where
  id : BitVec 64 := 0#64
  nativeOwner : Option T := none
  rootContext : Option C := none
  parked : Bool := false
  blocking : Bool := false

structure PauseTicket (T : Type) where
  serial : Nat
  nativeOwner : T

/-- The domain and the objects that refer to it: participants, blocking scopes and tickets. The
last two fields are no part of the source: the root context that the participant of a slot
has at the moment, and that the process has ended. -/
structure Domain (T O C : Type) (n : Nat) where
  mutex : Option T := none
  requested : Bool := false
  slots : Fin n → Slot T C := fun _ => {}
  active : Nat := 0
  parked : Nat := 0
  admissionWaiters : Nat := 0
  tickets : Nat := 0
  initiatorIndex : Option (Fin n) := none
  serial : Nat := 0
  nextParticipant : BitVec 64 := 1#64
  initiatorId : BitVec 64 := 0#64
  closed : Bool := false
  participants : O → Option (Fin n) := fun _ => none
  blockingScopes : O → Option (Fin n × BitVec 64) := fun _ => none
  pauseTickets : O → Option (PauseTicket T) := fun _ => none
  context : Fin n → Option C := fun _ => none
  terminated : Bool := false

inductive Call (O : Type)
  | enter (participant : O)
  | leave (participant : O)
  | poll (participant : O)
  | parkForBlocking (participant scope : O)
  | finishBlock (scope : O)
  | requestPause (initiator : Option O) (ticket : O)
  | waitUntilPaused (ticket : O)
  | whileStopped (ticket : O)
  | reset (ticket : O)
  | close
  | drain
  | moveParticipant (source target : O)
  | moveScope (source target : O)
  | moveTicket (source target : O)

inductive Position (O : Type) (n : Nat)
  | outside
  | entering (participant : O)
  | pollLock (index : Fin n)
  | pollWait (index : Fin n)
  | finishWait (index : Fin n)
  | waiting (ticket : O)
  | committing (ticket : O)
  | draining

/-- What a thread does in its turn. `run` is what a participant does to its roots between two
calls, `timeout` ends a wait at its deadline. -/
inductive Turn (O C : Type) (n : Nat)
  | call (op : Call O)
  | run (index : Fin n) (context : Option C)
  | proceed
  | timeout

variable {T O C : Type} {n : Nat} [DecidableEq T] [DecidableEq O]

-- Critical sections

def Domain.terminate (s : Domain T O C n) : Domain T O C n := { s with terminated := true }

def Domain.setSlot (s : Domain T O C n) (index : Fin n) (entry : Slot T C) : Domain T O C n :=
  { s with slots := update s.slots index entry }

/-- The participants that may go on: those of a closed domain, or without a request. -/
def Domain.released (s : Domain T O C n) : Bool := s.closed || !s.requested

def cancelLocked (s : Domain T O C n) : Domain T O C n :=
  if s.initiatorId = 0#64 then { s with requested := false }
  else match s.initiatorIndex with
    | none => s.terminate
    | some index =>
      let entry := s.slots index
      if entry.id ≠ s.initiatorId ∨ ¬ entry.parked ∨ entry.blocking then s.terminate
      else { s.setSlot index { entry with parked := false, rootContext := none } with
        parked := s.parked - 1
        initiatorId := 0#64
        requested := false }

def releaseTicket (s : Domain T O C n) (serial : Nat) : Domain T O C n :=
  if s.tickets = 0 then s.terminate
  else
    let s' := if serial = s.serial ∧ s.requested then cancelLocked s else s
    { s' with tickets := s'.tickets - 1 }

def leave (t : T) (s : Domain T O C n) (index : Fin n) : Domain T O C n :=
  let entry := s.slots index
  if entry.id = 0#64 ∨ entry.nativeOwner ≠ some t ∨ entry.blocking ∨ entry.id = s.initiatorId then
    s.terminate
  else { s.setSlot index {} with
    parked := if entry.parked then s.parked - 1 else s.parked
    active := s.active - 1 }

def poll (t : T) (s : Domain T O C n) (index : Fin n) : Position O n × Domain T O C n :=
  let entry := s.slots index
  if s.released then (.outside, s)
  else if entry.parked ∨ entry.blocking ∨ entry.id = 0#64 ∨ entry.nativeOwner ≠ some t then
    (.outside, s.terminate)
  else (.pollWait index, { s.setSlot index
    { entry with rootContext := s.context index, parked := true } with parked := s.parked + 1 })

def unpark (s : Domain T O C n) (index : Fin n) (blocking : Bool) : Domain T O C n :=
  { s.setSlot index { s.slots index with blocking, parked := false, rootContext := none } with
    parked := s.parked - 1 }

def finishBlock (t : T) (s : Domain T O C n) (index : Fin n) (id : BitVec 64) :
    Position O n × Domain T O C n :=
  let entry := s.slots index
  if entry.id ≠ id ∨ ¬ entry.parked ∨ ¬ entry.blocking ∨ entry.nativeOwner ≠ some t then
    (.outside, s.terminate)
  else (.finishWait index, s)

def current (t : T) (s : Domain T O C n) (ticket : O) : Bool :=
  match s.pauseTickets ticket with
  | some k => k.nativeOwner = t ∧ k.serial = s.serial ∧ s.requested
  | none => false

def park (t : T) (s : Domain T O C n) (index : Fin n) (scope : O) : Domain T O C n :=
  let entry := s.slots index
  if s.closed ∨ entry.parked ∨ entry.blocking ∨ entry.id = 0#64 ∨ entry.nativeOwner ≠ some t then s
  else { s.setSlot index
      { entry with rootContext := s.context index, parked := true, blocking := true } with
    parked := s.parked + 1
    blockingScopes := update s.blockingScopes scope (some (index, entry.id)) }

def grant (t : T) (s : Domain T O C n) (ticket : O) : Domain T O C n :=
  { s with
    serial := s.serial + 1
    tickets := s.tickets + 1
    requested := true
    pauseTickets := update s.pauseTickets ticket (some ⟨s.serial + 1, t⟩) }

def begin (t : T) (s : Domain T O C n) (initiator : Option O) (ticket : O) : Domain T O C n :=
  if s.closed ∨ s.requested ∨ s.serial = 2 ^ 64 - 1 then s
  else match initiator with
    | none => grant t s ticket
    | some participant =>
      match s.participants participant with
      | none => s
      | some index =>
        let entry := s.slots index
        if entry.id = 0#64 ∨ entry.parked ∨ entry.blocking ∨ entry.nativeOwner ≠ some t then s
        else grant t { s.setSlot index
            { entry with rootContext := s.context index, parked := true } with
          initiatorIndex := some index
          initiatorId := entry.id
          parked := s.parked + 1 } ticket

def enter (t : T) (s : Domain T O C n) (participant : O) : Domain T O C n :=
  let s' := { s with admissionWaiters := s.admissionWaiters - 1 }
  if s.closed ∨ s.active = n ∨ s.nextParticipant = 0#64 then s'
  else match (List.finRange n).find? fun index => (s.slots index).id = 0#64 with
    | none => s'
    | some index => { s'.setSlot index
        { s.slots index with id := s.nextParticipant, nativeOwner := some t } with
      nextParticipant := s.nextParticipant + 1#64
      active := s.active + 1
      participants := update s.participants participant (some index) }

def waitUntilPaused (t : T) (s : Domain T O C n) (ticket : O) (timeout : Bool) :
    Option CollectionPauseResult :=
  if s.closed ∨ ¬ current t s ticket ∨ s.parked = s.active then
    some (if s.closed then .closed else if ¬ current t s ticket then .staleTicket else .paused)
  else if timeout then some .timeout
  else none

def whileStopped (t : T) (s : Domain T O C n) (ticket : O) : CollectionPauseResult :=
  if s.closed then .closed
  else if ¬ current t s ticket then .staleTicket
  else if s.parked ≠ s.active then .timeout
  else .paused

def close (s : Domain T O C n) : Domain T O C n := cancelLocked { s with closed := true }

-- Steps

def moveObject {α : Type} (objects : O → Option α) (source target : O) : O → Option α :=
  update (update objects source none) target (objects source)

/-- The first step of a call, which for most calls is the only one. A new object is made where
none is. -/
def start (t : T) (s : Domain T O C n) : Call O → Option (Position O n × Domain T O C n)
  | .enter participant =>
    if s.mutex = none ∧ s.participants participant = none then
      some (.entering participant, { s with admissionWaiters := s.admissionWaiters + 1 })
    else none
  | .leave participant =>
    match s.participants participant with
    | none => some (.outside, s)
    | some index =>
      if s.mutex = none then
        some (.outside, leave t { s with
          participants := update s.participants participant none } index)
      else none
  | .poll participant =>
    match s.participants participant with
    | none => some (.outside, s)
    | some index => some (if s.requested then .pollLock index else .outside, s)
  | .parkForBlocking participant scope =>
    match s.participants participant with
    | none => some (.outside, s)
    | some index =>
      if s.mutex = none ∧ s.blockingScopes scope = none then some (.outside, park t s index scope)
      else none
  | .finishBlock scope =>
    match s.blockingScopes scope with
    | none => some (.outside, s)
    | some (index, id) =>
      if s.mutex = none then
        some (finishBlock t { s with
          blockingScopes := update s.blockingScopes scope none } index id)
      else none
  | .requestPause initiator ticket =>
    if s.mutex = none ∧ (s.pauseTickets ticket).isNone then
      some (.outside, begin t s initiator ticket)
    else none
  | .waitUntilPaused ticket => some (.waiting ticket, s)
  | .whileStopped ticket =>
    if s.mutex = none then
      if whileStopped t s ticket =
        .paused then some (.committing ticket, { s with mutex := some t })
      else some (.outside, s)
    else none
  | .reset ticket =>
    match s.pauseTickets ticket with
    | none => some (.outside, s)
    | some k =>
      if k.nativeOwner ≠ t then some (.outside, s.terminate)
      else if s.mutex = none then
        some (.outside, releaseTicket { s with
          pauseTickets := update s.pauseTickets ticket none } k.serial)
      else none
  | .close => if s.mutex = none then some (.outside, close s) else none
  | .drain => some (.draining, s)
  | .moveParticipant source target =>
    if s.participants target = none then
      some (.outside, { s with participants := moveObject s.participants source target })
    else none
  | .moveScope source target =>
    if s.blockingScopes target = none then
      some (.outside, { s with blockingScopes := moveObject s.blockingScopes source target })
    else none
  | .moveTicket source target =>
    match s.pauseTickets source, s.pauseTickets target with
    | none, _ => some (.outside, s)
    | some _, some _ => none
    | some k, none =>
      if k.nativeOwner ≠ t then some (.outside, s.terminate)
      else some (.outside, { s with pauseTickets := moveObject s.pauseTickets source target })

def mayRun (t : T) (s : Domain T O C n) (index : Fin n) : Bool :=
  (s.slots index).nativeOwner = some t ∧ (s.slots index).id ≠ 0#64 ∧ ¬ (s.slots index).blocking ∧
    (s.slots index).id ≠ s.initiatorId

def advance (t : T) (s : Domain T O C n) (timeout : Bool) :
    Position O n → Option (Position O n × Domain T O C n)
  | .outside => none
  | .entering participant =>
    if s.mutex = none ∧ s.released then some (.outside, enter t s participant) else none
  | .pollLock index => if s.mutex = none then some (poll t s index) else none
  | .pollWait index =>
    if s.mutex = none ∧ s.released then
      some (.outside, unpark s index (s.slots index).blocking)
    else none
  | .finishWait index =>
    if s.mutex = none ∧ s.released then some (.outside, unpark s index false) else none
  | .waiting ticket =>
    if s.mutex = none then (waitUntilPaused t s ticket timeout).map fun _ => (.outside, s) else none
  | .committing _ => some (.outside, { s with mutex := none })
  | .draining =>
    if s.mutex = none ∧ s.active = 0 ∧ s.tickets = 0 ∧ s.admissionWaiters =
      0 then some (.outside, s)
    else none

def act : RelyGuarantee.Action T (Position O n) (Domain T O C n) (Turn O C n) := fun t turn p s =>
  if s.terminated then none
  else match p, turn with
    | .outside, .call op => start t s op
    | .outside, .run index context =>
      if mayRun t s index then
        some (.outside, { s with context := update s.context index context })
      else none
    | _, .call _ => none
    | _, .run _ _ => none
    | p, .proceed => advance t s false p
    | p, .timeout => advance t s true p

def initial : RelyGuarantee.Config T (Position O n) (Domain T O C n) := ⟨fun _ => .outside, {}⟩

-- The stopped world

structure StoppedParticipant (C : Type) where
  id : BitVec 64
  rootContext : Option C
  blocking : Bool
  collecting : Bool

def stoppedView (s : Domain T O C n) : List (StoppedParticipant C) :=
  (List.finRange n).filterMap fun index =>
    let entry := s.slots index
    if entry.id ≠ 0#64 then
      some ⟨entry.id, entry.rootContext, entry.blocking, entry.id = s.initiatorId⟩
    else none

/-- All participants are parked with their present roots published, and `ticket` is the current
ticket and the only one. -/
structure Stopped (t : T) (ticket : O) (s : Domain T O C n) : Prop where
  parked : ∀ index, (s.slots index).id ≠ 0#64 →
    (s.slots index).parked = true ∧ (s.slots index).rootContext = s.context index
  current : current t s ticket = true
  single : ∀ ticket' k, s.pauseTickets ticket' = some k → k.serial = s.serial → ticket' = ticket

/-- No participant is added, removed or unparked, and none changes its roots. -/
structure SameParticipants (s s' : Domain T O C n) : Prop where
  slots : s'.slots = s.slots
  context : ∀ index, (s.slots index).id ≠ 0#64 → s'.context index = s.context index

end Uwvm2.Thread.CollectionPauseDomain
