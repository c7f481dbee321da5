import Uwvm2.Gc.FrameRoots
import Uwvm2.Thread.CollectionPauseDomain

/-!
# The collection transaction

A participant of the pause domain requests a pause, and while all participants are stopped it
counts their roots and the static ones, copies them and calls the collector of the heap. A step
of a transaction is one of its calls of the domain, one of its two passes or the call of the
collector. The participants are visited in one step, since they do not change while the
callback runs; the static roots may change at any time.

`visit_static` shows all static roots or returns false. The collector is a parameter.
-/

namespace Uwvm2.Gc.CollectionTransaction

open Thread

inductive RootPopulation
  | unavailable
  | preciseNative
  deriving DecidableEq

structure NativeSpan (S : Type) where
  data : Option S := none
  size : Nat := 0

/-- The context of a participant, with the memory that its frames and its native roots lie in. -/
structure CollectionRootContext (F S : Type) where
  population : RootPopulation := .unavailable
  frames : Option F := none
  nativeRoots : NativeSpan S := {}
  memory : NativeMemory F S

def prepareCollectionRootContext {F S : Type} (thread : NativeThread F S)
    (nativeRoots : NativeSpan S) :
    CollectionRootContext F S :=
  { population := .preciseNative, frames := thread.head, nativeRoots
    memory := thread.toNativeMemory }

inductive CollectionTransactionStatus
  | collected
  | concurrentRequest
  | timeout
  | closed
  | invalidTicket
  | unavailablePopulation
  | invalidPopulation
  | staticRootsRejected
  | sizeOverflow
  | outOfMemory
  | heapRejected
  deriving DecidableEq

inductive GcObjectStatus
  | ok
  | invalidStore
  | invalidType
  | nullReference
  | invalidReference
  | invalidValue
  | outOfBounds
  | immutableField
  | sizeOverflow
  | outOfMemory
  deriving DecidableEq

structure CollectionTransactionResult where
  status : CollectionTransactionStatus := .invalidTicket
  heapStatus : GcObjectStatus := .invalidStore
  participants : Nat := 0
  roots : Nat := 0
  reclaimed : Nat := 0
  deriving DecidableEq

def maxRoots : Nat := ptrdiffMax / rootReferenceSize

def maxFrames : Nat := 32768

-- The passes

/-- What a pass works on: the result so far, and the part of the array that is filled. -/
structure Census where
  result : CollectionTransactionResult
  copied : List RootReference := []

def Census.fail (c : Census) (status : CollectionTransactionStatus) : Census :=
  { c with result := { c.result with status } }

/-- An overflow is reported as such. -/
def Census.failUnlessOverflow (c : Census) (status : CollectionTransactionStatus) : Census :=
  if c.result.status ≠ .sizeOverflow then c.fail status else c

def count : Visitor Census RootReference := fun c _ =>
  if c.result.roots = maxRoots then (false, c.fail .sizeOverflow)
  else (true, { c with result := { c.result with roots := c.result.roots + 1 } })

def copy : Visitor Census RootReference := fun c reference =>
  if c.copied.length = c.result.roots then (false, c)
  else (true, { c with copied := c.copied ++ [reference] })

section Passes

variable {F S : Type} (visitor : Visitor Census RootReference)

def visitContext (c : Census) (context : CollectionRootContext F S) : Bool × Census :=
  if context.population ≠ .preciseNative then (false, c.fail .unavailablePopulation)
  else if context.nativeRoots.size > maxRoots ∨
      (context.nativeRoots.size ≠ 0 ∧ context.nativeRoots.data = none) then
    (false, c.fail .invalidPopulation)
  else
    let frames := visitQuiescentFrameRoots context.memory context.frames visitor c maxFrames
    if frames.1.status ≠ .ok then (false, frames.2.failUnlessOverflow .invalidPopulation)
    else
      let native := (visitor.guarded runtimeKind).each frames.2
        (readCarriers context.memory.carriers context.nativeRoots.data context.nativeRoots.size)
      if native.1 then native else (false, native.2.failUnlessOverflow .invalidPopulation)

def visitParticipant : Visitor Census (CollectionPauseDomain.StoppedParticipant
    (CollectionRootContext F S)) := fun c participant =>
  match participant.rootContext with
  | none => (false, c.fail .unavailablePopulation)
  | some context => visitContext visitor c context

def visitPopulation (c : Census)
    (participants : List (CollectionPauseDomain.StoppedParticipant (CollectionRootContext F S))) :
    Bool × Census :=
  (visitParticipant visitor).each c participants

/-- All static roots are shown, or the ones of `part` and then it fails. -/
def visitStatic (c : Census) (static : List RootReference) (part : Option (List RootReference)) :
    Bool × Census :=
  match part with
  | none => visitor.each c static
  | some shown => (false, (visitor.each c shown).2)

end Passes

section Callback

variable {F S : Type}
  (participants : List (CollectionPauseDomain.StoppedParticipant (CollectionRootContext F S)))
  (static : List RootReference) (part : Option (List RootReference))

def countRoots (active : Nat) (allocated : Bool) :
    Except CollectionTransactionResult CollectionTransactionResult :=
  let population := visitPopulation count { result := { participants := active } } participants
  if ¬ population.1 then .error population.2.result
  else
    let statics := visitStatic count population.2 static part
    if ¬ statics.1 then .error (statics.2.failUnlessOverflow .staticRootsRejected).result
    else if statics.2.result.roots ≠ 0 ∧ ¬ allocated then
      .error { statics.2.result with status := .outOfMemory }
    else .ok statics.2.result

def copyRoots (result : CollectionTransactionResult) :
    Except CollectionTransactionResult (List RootReference) :=
  let population := visitPopulation copy { result } participants
  if ¬ population.1 then .error population.2.result
  else
    let statics := visitStatic copy population.2 static part
    if ¬ statics.1 ∨ statics.2.copied.length ≠ result.roots then
      .error (statics.2.failUnlessOverflow .staticRootsRejected).result
    else .ok statics.2.copied

end Callback

-- Steps

/-- How far a transaction is. `invoked` is what the collector was called with, and `static` are
the static roots that were copied. -/
inductive Stage (O : Type)
  | idle
  | requesting (initiator ticket : O)
  | requested (initiator ticket : O)
  | conceding (initiator : O)
  | polling
  | waiting (ticket : O)
  | stopped (ticket : O)
  | counting (ticket : O)
  | copying (ticket : O) (result : CollectionTransactionResult)
  | collecting (ticket : O) (result : CollectionTransactionResult)
    (static roots : List RootReference)
  | committed (ticket : O) (result : CollectionTransactionResult)
    (invoked : Option (List RootReference))
  | resetting (ticket : O) (result : CollectionTransactionResult)
    (invoked : Option (List RootReference))
  | done (result : CollectionTransactionResult) (invoked : Option (List RootReference))

structure Position (O : Type) (n : Nat) where
  control : CollectionPauseDomain.Position O n
  stage : Stage O

structure State (T O F S H : Type) (n : Nat) where
  domain : CollectionPauseDomain.Domain T O (CollectionRootContext F S) n
  static : List RootReference
  heap : H

/-- What a thread does in its turn. A thread outside a transaction does anything with the domain
(`control`); `mutate` changes the static roots. `part` is what a static visit shows before it
fails. -/
inductive Turn (O F S : Type) (n : Nat)
  | control (turn : CollectionPauseDomain.Turn O (CollectionRootContext F S) n)
  | mutate (static : List RootReference)
  | collect (initiator ticket : O)
  | proceed
  | timeout
  | count (part : Option (List RootReference)) (allocated : Bool)
  | copy (part : Option (List RootReference))

def CollectionTransactionResult.ofWait (result : CollectionPauseDomain.CollectionPauseResult) :
    CollectionTransactionResult :=
  { status := match result with
      | .timeout => .timeout
      | .closed => .closed
      | _ => .invalidTicket }

def CollectionTransactionResult.ofCommit (result : CollectionPauseDomain.CollectionPauseResult) :
    CollectionTransactionResult :=
  { status := match result with
      | .closed => .closed
      | _ => .invalidTicket }

variable {T O F S H : Type} {n : Nat} [DecidableEq T] [DecidableEq O]

def onDomain (t : T) (p : Position O n) (s : State T O F S H n)
    (turn : CollectionPauseDomain.Turn O (CollectionRootContext F S) n) (stage : Stage O) :
    Option (Position O n × State T O F S H n) :=
  (CollectionPauseDomain.act t turn p.control s.domain).map fun r =>
    (⟨r.1, stage⟩, { s with domain := r.2 })

def waitStep (t : T) (p : Position O n) (s : State T O F S H n) (ticket : O) (timeout : Bool) :
    Option (Position O n × State T O F S H n) :=
  match CollectionPauseDomain.waitUntilPaused t s.domain ticket timeout with
  | none => none
  | some .paused => onDomain t p s (if timeout then .timeout else .proceed) (.stopped ticket)
  | some result => onDomain t p s (if timeout then .timeout else .proceed)
      (.resetting ticket (.ofWait result) none)

def act (collectHeap : List RootReference → H → GcObjectStatus × Nat × H) :
    RelyGuarantee.Action T (Position O n) (State T O F S H n) (Turn O F S n) := fun t turn p s =>
  if s.domain.terminated then none
  else match p.stage, turn with
    | .idle, .control turn => onDomain t p s turn .idle
    | .idle, .mutate static => some (p, { s with static })
    | .idle, .collect initiator ticket =>
      match p.control with
      | .outside =>
        some (⟨.outside, if s.domain.participants initiator = none then .done {} none
          else .requesting initiator ticket⟩, s)
      | _ => none
    | .requesting initiator ticket, .proceed =>
      onDomain t p s (.call (.requestPause (some initiator) ticket)) (.requested initiator ticket)
    | .requested initiator ticket, .proceed =>
      if (s.domain.pauseTickets ticket).isSome then
        onDomain t p s (.call (.waitUntilPaused ticket)) (.waiting ticket)
      else
        some ({ p with
          stage := if s.domain.requested then .conceding initiator else .done {} none }, s)
    | .conceding initiator, .proceed => onDomain t p s (.call (.poll initiator)) .polling
    | .polling, .proceed =>
      match p.control with
      | .outside => some ({ p with stage := .done { status := .concurrentRequest } none }, s)
      | _ => onDomain t p s .proceed .polling
    | .waiting ticket, .proceed => waitStep t p s ticket false
    | .waiting ticket, .timeout => waitStep t p s ticket true
    | .stopped ticket, .proceed =>
      onDomain t p s (.call (.whileStopped ticket))
        (match CollectionPauseDomain.whileStopped t s.domain ticket with
        | .paused => .counting ticket
        | result => .resetting ticket (.ofCommit result) none)
    | .counting ticket, .count part allocated =>
      some ({ p with
        stage := match countRoots (CollectionPauseDomain.stoppedView s.domain) s.static part
            s.domain.active allocated with
          | .error result => .committed ticket result none
          | .ok result => .copying ticket result }, s)
    | .copying ticket result, .copy part =>
      some ({ p with
        stage := match copyRoots (CollectionPauseDomain.stoppedView s.domain) s.static
          part result with
          | .error result => .committed ticket result none
          | .ok roots => .collecting ticket result s.static roots }, s)
    | .collecting ticket result _ roots, .proceed =>
      let (heapStatus, reclaimed, heap) := collectHeap roots s.heap
      some ({ p with
        stage := .committed ticket { result with
          heapStatus, reclaimed, status := if heapStatus = .ok then .collected else .heapRejected }
          (some roots) }, { s with heap })
    | .committed ticket result invoked, .proceed =>
      onDomain t p s .proceed (.resetting ticket result invoked)
    | .resetting ticket result invoked, .proceed =>
      onDomain t p s (.call (.reset ticket)) (.done result invoked)
    | .done _ _, .proceed => some ({ p with stage := .idle }, s)
    | _, _ => none

def initial (static : List RootReference) (heap : H) :
    RelyGuarantee.Config T (Position O n) (State T O F S H n) :=
  ⟨fun _ => ⟨.outside, .idle⟩, ⟨{}, static, heap⟩⟩

end Uwvm2.Gc.CollectionTransaction
