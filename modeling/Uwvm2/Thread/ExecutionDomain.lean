import Uwvm2.Lib.RelyGuarantee

/-!
# Generations of executions

A domain admits executions to its current generation, and replaces that by a fresh one after
all of them have left. Whatever an actor does while it holds the admission mutex, or the mutex
of a lifetime, is one step, except that the callbacks that run under the admission mutex are
between two steps and the mutex is held all the time.

Generations are numbered in the order in which their lifetimes are made. Move-only objects are
named once for all their moves; only the address of a maintenance transition matters.
-/

namespace Uwvm2.Thread.ExecutionDomain

open Function

structure ExecutionLifetime where
  stopping : Bool := false
  active : Nat := 0

namespace ExecutionLifetime

/-- The lifetime with one more lease; none if it is refused. -/
def tryEnter (capacity : Nat) (l : ExecutionLifetime) : Option ExecutionLifetime :=
  if l.stopping ∨ l.active = capacity then none else some { l with active := l.active + 1 }

def leave (l : ExecutionLifetime) : ExecutionLifetime := { l with active := l.active - 1 }

/-- `request_stop`, and `mark_stopping_without_callbacks`: what the callbacks do is no part of the
lifetime. -/
def requestStop (l : ExecutionLifetime) : ExecutionLifetime := { l with stopping := true }

def quiescentConfigurationReady (l : ExecutionLifetime) : Bool := l.active = 0 ∧ ¬ l.stopping

end ExecutionLifetime

inductive Phase
  | empty
  | prepared
  | publishedClosed
  | opened
  deriving DecidableEq

structure PreparedGeneration where
  observed : Option Nat := none
  replacement : Option Nat := none
  phase : Phase := .empty

/-- The receipt of a drain: the address of the transition and the generation. -/
structure DrainedGeneration (O : Type) where
  transition : O
  actual : Nat

inductive Event
  | published (old new : Nat)
  | reset (old new : Nat)
  | opened (generation : Nat)
  deriving DecidableEq

def Event.old : Event → Option Nat
  | .published old _ | .reset old _ => some old
  | .opened _ => none

/-- The domain with its lifetimes and the objects that it has given out. The last field is no
part of the source. -/
structure Domain (T O : Type) where
  capacity : Nat
  admission : Option T := none
  maintenance : Option T := none
  transition : Option O := none
  current : Nat := 0
  accepting : Bool := true
  lifetimes : Nat → ExecutionLifetime := fun _ => {}
  generations : Nat := 1
  leases : O → Option Nat := fun _ => none
  preparedGenerations : O → PreparedGeneration := fun _ => {}
  drainedGenerations : O → Option (DrainedGeneration O) := fun _ => none
  history : List Event := []

/-- The calls that drain the current generation and then run a callback. -/
inductive Maintenance
  | stopAndDrain
  | reset
  | resetOwnedTransition
  deriving DecidableEq

inductive Stage
  | locked
  | closed (generation : Nat)
  | stopping (generation : Nat)
  | callback (generation : Nat)
  | returned (generation : Nat)

inductive Position (O : Type)
  | idle
  | requestStop (generation : Nat)
  | drainOwnedTransition (generation : Nat)
  | configure
  | configuring
  | maintain (call : Maintenance) (stage : Stage)
  | drainPrepared (transition drained : O) (generation : Nat)
  | drainRecheck (transition drained : O) (generation : Nat)
  | publishing (prepared : O)
  | opening (prepared : O)

/-- The calls. The last object of a call that returns one is what it returns into. -/
inductive Call (O : Type)
  | tryEnter (lease : O)
  | tryEnterOwnedPublishedStartupGeneration (prepared lease : O)
  | resetLease (lease : O)
  | requestStop
  | withQuiescentConfiguration
  | stopAndDrain
  | reset
  | tryMaintenanceTransition (transition : O)
  | moveTransition (source target : O)
  | dropTransition (transition : O)
  | drainOwnedTransitionUntil (transition : O)
  | requestStopWithoutCallbacksOwnedTransition (transition : O)
  | resetOwnedTransition (transition : O)
  | prepareReplacementGeneration (transition prepared : O)
  | drainPreparedGenerationUntil (transition prepared drained : O)
  | publishPreparedDrainedReset (transition prepared drained : O)
  | openPublishedStartupGeneration (transition prepared : O)

/-- What an actor does in its turn: it starts a call, or goes on with one. `success` is whether an
allocation succeeds, a callback returns without an exception and accepts, and a wait does not
time out. -/
inductive Turn (O : Type)
  | call (call : Call O)
  | proceed (success : Bool)

variable {T O : Type} [DecidableEq T] [DecidableEq O]

def Domain.setLifetime (s : Domain T O) (generation : Nat) (l : ExecutionLifetime) : Domain T O :=
  { s with lifetimes := update s.lifetimes generation l }

-- Sections

def enterCurrent (s : Domain T O) (lease : O) : Domain T O :=
  match (s.lifetimes s.current).tryEnter s.capacity with
  | none => s
  | some l => { s.setLifetime s.current l with
    leases := update s.leases lease (some s.current) }

def tryEnter (s : Domain T O) (lease : O) : Domain T O :=
  if ¬ s.accepting then s else enterCurrent s lease

def tryEnterOwnedPublishedStartupGeneration (s : Domain T O) (prepared lease : O) : Domain T O :=
  let p := s.preparedGenerations prepared
  if s.accepting ∨ p.phase ≠ .publishedClosed ∨ p.replacement ≠ none ∨ p.observed ≠ some s.current ∨
      (s.lifetimes s.current).stopping then s
  else enterCurrent s lease

def resetLease (s : Domain T O) (lease : O) : Domain T O :=
  match s.leases lease with
  | none => s
  | some generation => { s.setLifetime generation (s.lifetimes generation).leave with
    leases := update s.leases lease none }

def closeAdmission (s : Domain T O) : Domain T O := { s with accepting := false }

def requestStop (s : Domain T O) (generation : Nat) : Domain T O :=
  s.setLifetime generation (s.lifetimes generation).requestStop

def prepareReplacementGeneration (s : Domain T O) (prepared : O) : Domain T O :=
  { s with
    generations := s.generations + 1
    preparedGenerations := update s.preparedGenerations prepared
      { observed := some s.current, replacement := some s.generations, phase := .prepared } }

/-- The generation that a drain is for; none if the owner is invalid. -/
def preparedObserved (s : Domain T O) (prepared : O) : Option Nat :=
  let p := s.preparedGenerations prepared
  if p.phase ≠ .prepared ∨ p.replacement = none ∨ p.observed = p.replacement then none
    else p.observed

def mayPublish (s : Domain T O) (transition prepared drained : O) : Bool :=
  let p := s.preparedGenerations prepared
  match p.observed, p.replacement, s.drainedGenerations drained with
  | some observed, some replacement, some actual =>
    p.phase = .prepared ∧ actual.transition = transition ∧ actual.actual = observed ∧
      ¬ s.accepting ∧ s.current = actual.actual ∧ (s.lifetimes s.current).stopping ∧
      (s.lifetimes replacement).quiescentConfigurationReady
  | _, _, _ => false

def publish (s : Domain T O) (prepared : O) : Domain T O :=
  match (s.preparedGenerations prepared).replacement with
  | none => s
  | some replacement => { s with
    current := replacement
    preparedGenerations := update s.preparedGenerations prepared
      { observed := some replacement, replacement := none, phase := .publishedClosed }
    history := .published s.current replacement :: s.history }

def mayOpen (s : Domain T O) (prepared : O) : Bool :=
  let p := s.preparedGenerations prepared
  p.phase = .publishedClosed ∧ p.replacement = none ∧ ¬ s.accepting ∧ p.observed = some s.current ∧
    ¬ (s.lifetimes s.current).stopping

def openGeneration (s : Domain T O) (prepared : O) : Domain T O :=
  { s with
    preparedGenerations := update s.preparedGenerations prepared
      { s.preparedGenerations prepared with phase := .opened }
    accepting := true
    history := .opened s.current :: s.history }

def installNext (s : Domain T O) : Domain T O :=
  { s with
    current := s.generations
    generations := s.generations + 1
    accepting := true
    history := .reset s.current s.generations :: s.history }

/-- The end of a call that drains: the mutex is unlocked unless a transition owns it. -/
def finish (call : Maintenance) (s : Domain T O) : Domain T O :=
  if call = .resetOwnedTransition then s else { s with maintenance := none }

-- Steps

/-- A call with a transition: refused if it does not own the maintenance mutex. The thread that has
locked a mutex also unlocks it, so that a transition stays with its thread. -/
def withTransition (t : T) (s : Domain T O) (transition : O)
    (r : Option (Position O × Domain T O)) : Option (Position O × Domain T O) :=
  if s.transition ≠ some transition then some (.idle, s)
  else if s.maintenance ≠ some t then none
  else r

def start (t : T) (s : Domain T O) : Call O → Option (Position O × Domain T O)
  | .tryEnter lease =>
    if s.admission ≠ none ∨ s.leases lease ≠ none then none else some (.idle, tryEnter s lease)
  | .tryEnterOwnedPublishedStartupGeneration prepared lease =>
    if s.admission ≠ none ∨ s.leases lease ≠ none then none
    else some (.idle, tryEnterOwnedPublishedStartupGeneration s prepared lease)
  | .resetLease lease => some (.idle, resetLease s lease)
  | .requestStop =>
    if s.admission ≠ none then none else some (.requestStop s.current, closeAdmission s)
  | .withQuiescentConfiguration =>
    if s.maintenance ≠ none then some (.idle, s)
    else some (.configure, { s with maintenance := some t })
  | .stopAndDrain =>
    if s.maintenance ≠ none then none
    else some (.maintain .stopAndDrain .locked, { s with maintenance := some t })
  | .reset =>
    if s.maintenance ≠ none then none
    else some (.maintain .reset .locked, { s with maintenance := some t })
  | .tryMaintenanceTransition transition =>
    if s.maintenance ≠ none then some (.idle, s)
    else some (.idle, { s with maintenance := some t, transition := some transition })
  | .moveTransition source target =>
    withTransition t s source (some (.idle, { s with transition := some target }))
  | .dropTransition transition =>
    withTransition t s transition (some (.idle, { s with maintenance := none, transition := none }))
  | .drainOwnedTransitionUntil transition => withTransition t s transition
    (if s.admission ≠ none then none
    else if s.accepting ∨ ¬ (s.lifetimes s.current).stopping then some (.idle, s)
    else some (.drainOwnedTransition s.current, s))
  | .requestStopWithoutCallbacksOwnedTransition transition => withTransition t s transition
    (if s.admission ≠ none then none else some (.requestStop s.current, closeAdmission s))
  | .resetOwnedTransition transition =>
    withTransition t s transition (some (.maintain .resetOwnedTransition .locked, s))
  | .prepareReplacementGeneration transition prepared => withTransition t s transition
    (if s.admission ≠ none ∨ (s.preparedGenerations prepared).phase ≠ .empty then none
    else some (.idle, prepareReplacementGeneration s prepared))
  | .drainPreparedGenerationUntil transition prepared drained => withTransition t s transition
    (match preparedObserved s prepared with
    | none => some (.idle, s)
    | some generation =>
      if s.admission ≠ none ∨ (s.drainedGenerations drained).isSome then none
      else if s.current ≠ generation then some (.idle, s)
      else some (.drainPrepared transition drained generation,
        requestStop (closeAdmission s) generation))
  | .publishPreparedDrainedReset transition prepared drained => withTransition t s transition
    (if s.admission ≠ none then none
    else if mayPublish s transition prepared drained then
      some (.publishing prepared, { s with admission := some t })
    else some (.idle, s))
  | .openPublishedStartupGeneration transition prepared => withTransition t s transition
    (if s.admission ≠ none then none
    else if mayOpen s prepared then some (.opening prepared, { s with admission := some t })
    else some (.idle, s))

def maintain (s : Domain T O) (success : Bool) (call : Maintenance) :
    Stage → Option (Position O × Domain T O)
  | .locked =>
    if s.admission ≠ none then none
    else some (.maintain call (.closed s.current), closeAdmission s)
  | .closed generation =>
    some (.maintain call (.stopping generation), requestStop s generation)
  | .stopping generation =>
    if (s.lifetimes generation).active = 0 then some (.maintain call (.callback generation), s)
    else none
  | .callback generation =>
    -- an exception leaves the admission closed
    if success ∧ call ≠ .stopAndDrain then some (.maintain call (.returned generation), s)
    else some (.idle, finish call s)
  | .returned _ =>
    if ¬ success then some (.idle, finish call s)
    else if s.admission ≠ none then none
    else some (.idle, finish call (installNext s))

def advance (t : T) (s : Domain T O) (success : Bool) :
    Position O → Option (Position O × Domain T O)
  | .idle => none
  | .requestStop generation => some (.idle, requestStop s generation)
  | .drainOwnedTransition generation =>
    if (s.lifetimes generation).active = 0 ∨ ¬ success then some (.idle, s) else none
  | .configure =>
    if s.admission ≠ none then none
    else if ¬ s.accepting ∨ ¬ (s.lifetimes s.current).quiescentConfigurationReady then
      some (.idle, { s with maintenance := none })
    else some (.configuring, { s with admission := some t })
  | .configuring => some (.idle, { s with admission := none, maintenance := none })
  | .maintain call stage => maintain s success call stage
  | .drainPrepared transition drained generation =>
    if (s.lifetimes generation).active =
      0 then some (.drainRecheck transition drained generation, s)
    else if ¬ success then some (.idle, s)
    else none
  | .drainRecheck transition drained generation =>
    if s.admission ≠ none then none
    else if s.accepting ∨ s.current ≠ generation ∨ ¬ (s.lifetimes generation).stopping then
      some (.idle, s)
    else some (.idle, { s with
      drainedGenerations := update s.drainedGenerations drained
        (some ⟨transition, generation⟩) })
  | .publishing prepared =>
    some (.idle, { (if success then publish s prepared else s) with admission := none })
  | .opening prepared =>
    some (.idle, { (if success then openGeneration s prepared else s) with admission := none })

def act : RelyGuarantee.Action T (Position O) (Domain T O) (Turn O)
  | t, .call call, .idle, s => start t s call
  | t, .proceed success, p, s => advance t s success p
  | _, .call _, _, _ => none

def initial (capacity : Nat) : RelyGuarantee.Config T (Position O) (Domain T O) :=
  ⟨fun _ => .idle, { capacity }⟩

end Uwvm2.Thread.ExecutionDomain
