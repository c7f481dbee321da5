import Uwvm2.Control.Protocol

/-!
# Launch authorities and control sessions

Authorities issue permits, a session attaches with a permit, receives requests as tickets and
completes them. Every call holds the lock of its authority, so calls happen one after the
other. The owner pointers of permits, sessions and tickets name authorities.
-/

namespace Uwvm2.Control

open ByteWord

inductive Backend
  | interpreter
  | llvm
  deriving DecidableEq, Repr

inductive CompileMode
  | full
  | lazy
  | lazyVerified
  | tiered
  deriving DecidableEq, Repr

inductive ExecutionState
  | running
  | stopped
  deriving DecidableEq, Repr

inductive SessionState
  | unauthorized
  | ready
  | pending
  | closed
  deriving DecidableEq, Repr

inductive LaunchOrigin
  | console
  | launcherChannel
  deriving DecidableEq, Repr

structure LaunchConfig where
  debugEnabled : Bool := false
  replacementEnabled : Bool := false
  compiler : Backend := .interpreter
  mode : CompileMode := .full
  instanceId : List UInt8 := List.replicate 16 0
  generation : Nat := 1
  vmProcess : Nat := 0
  launcherProcess : Nat := 0
  channelBinding : Nat := 0
  origin : LaunchOrigin := .launcherChannel
  initialExecution : ExecutionState := .running
  deriving DecidableEq, Repr

def qualify (config : LaunchConfig) : Error :=
  if !config.debugEnabled && !config.replacementEnabled then .disabled
  else if config.compiler ≠ .llvm then .unsupportedBackend
  else if config.mode ≠ .full then .unsupportedMode
  else if config.instanceId.all (· = 0) ∨ config.generation = 0 ∨ config.vmProcess = 0 then
    .invalidLaunch
  else if config.origin = .launcherChannel ∧ (config.launcherProcess = 0 ∨
      config.launcherProcess = config.vmProcess ∨ config.channelBinding = 0) then .invalidLaunch
  else .none

structure AuthenticatedLaunchPeer where
  process : Nat := 0
  channelBinding : Nat := 0
  deriving DecidableEq, Repr

structure Authority where
  config : LaunchConfig
  alive : Bool := true
  epoch : Nat := 1
  issued : Nat := 0
  activeSession : Nat := 0
  lastRequest : Nat := 0
  execution : ExecutionState

inductive Command
  | status
  | pause
  | resume
  | step (thread : Nat)
  | readMemory (module memory offset length : Nat)
  | replaceFunction (module function expectedGeneration : Nat) (body : List UInt8)
  | detach
  | breakpointSet (module function offset : Nat)
  | breakpointClear (identifier : Nat)
  | breakpointList
  | backtrace (thread : Nat)
  | locals (thread : Nat)
  deriving DecidableEq, Repr

inductive HostCompletion
  | rejected
  | inspected
  | paused
  | resumed
  | stepped
  | replaced
  | detached
  | configured
  deriving DecidableEq, Repr

variable {A S : Type}

/-- A permit; one that was moved from or failed to be issued has no owner. -/
structure Permit (A : Type) where
  owner : Option A := none
  epoch : Nat := 0
  serial : Nat := 0

structure Ticket (A : Type) where
  owner : Option A
  session : Nat
  id : Nat
  value : Command

structure Session (A : Type) where
  owner : Option A := none
  serial : Nat := 0
  pendingId : Nat := 0
  pendingOperation : Operation := .status
  state : SessionState := .unauthorized
  decoder : FrameDecoder := {}

inductive Event (A S : Type)
  | accepted (a : A) (s : S) (serial id : Nat)
  | completed (a : A) (s : S) (id : Nat)
  | revoked (a : A)
  deriving DecidableEq

/-- All authorities, sessions, permits and tickets of a process. `trace` is no part of the
source: the events so far, latest first. -/
structure World (A S : Type) where
  authority : A → Authority
  session : S → Session A := fun _ => {}
  permits : List (Permit A) := []
  tickets : List (Ticket A) := []
  trace : List (Event A S) := []

variable [DecidableEq A] [DecidableEq S]

def World.setAuthority (w : World A S) (a : A) (value : Authority) : World A S :=
  { w with authority := Function.update w.authority a value }

def World.setSession (w : World A S) (s : S) (value : Session A) : World A S :=
  { w with session := Function.update w.session s value }

-- Authorities

/-- An authority without an owner, for a configuration that does not qualify, issues empty
permits. -/
def issuePermit (a : A) (w : World A S) : World A S :=
  let owner := w.authority a
  if qualify owner.config ≠ .none ∨ ¬ owner.alive ∨ owner.issued = uint64Max then
    { w with permits := w.permits ++ [{}] }
  else { w.setAuthority a { owner with issued := owner.issued + 1 } with
    permits := w.permits ++ [⟨some a, owner.epoch, owner.issued + 1⟩] }

def revoke (a : A) (w : World A S) : World A S :=
  if qualify (w.authority a).config ≠ .none then w
  else { w.setAuthority a { w.authority a with alive := false, activeSession := 0 } with
    trace := .revoked a :: w.trace }

-- Sessions

def liveLocked (owner : Authority) (session : Session A) : Error :=
  if ¬ owner.alive then .revoked
  else if owner.activeSession ≠ session.serial ∨ session.state = .closed then .closed
  else .none

def closeLocked (a : A) (s : S) (w : World A S) : World A S :=
  let owner := w.authority a
  (if owner.activeSession = (w.session s).serial then
    w.setAuthority a { owner with activeSession := 0 }
  else w).setSession s { w.session s with state := .closed, pendingId := 0, decoder := {} }

/-- `attach` with the permit at a place of the table, which is empty afterwards. -/
def attach (s : S) (place : Nat) (origin : LaunchOrigin) (peer : AuthenticatedLaunchPeer)
    (w : World A S) : Error × World A S :=
  let permit := w.permits.getD place {}
  let w := { w with permits := w.permits.set place { permit with owner := none } }
  if (w.session s).owner.isSome ∨ (w.session s).state ≠ .unauthorized then (.busy, w)
  else match permit.owner with
    | none => (.unauthorized, w)
    | some a =>
      let candidate := w.authority a
      if ¬ candidate.alive ∨ permit.epoch ≠ candidate.epoch then (.revoked, w)
      else if candidate.config.origin ≠ origin then (.unauthorized, w)
      else if origin = .launcherChannel ∧ peer.process = candidate.config.vmProcess then
        (.sameProcess, w)
      else if origin = .launcherChannel ∧ (peer.process ≠ candidate.config.launcherProcess ∨
          peer.channelBinding ≠ candidate.config.channelBinding) then (.wrongPeer, w)
      else if candidate.activeSession ≠ 0 then (.busy, w)
      else (.none, (w.setAuthority a { candidate with activeSession := permit.serial }).setSession s
        { w.session s with serial := permit.serial, owner := some a, state := .ready })

def Operation.needsStopped : Operation → Bool
  | .resume | .step | .readMemory | .replaceFunction | .locals => true
  | _ => false

def parseCommand (owner : Authority) (command : Operation) (bytes : List UInt8) :
    Except Error Command :=
  if command = .replaceFunction ∧ ¬ owner.config.replacementEnabled then
    .error .unavailableCapability
  else if command ≠ .replaceFunction ∧ command ≠ .status ∧ command ≠ .detach ∧
      ¬ owner.config.debugEnabled then .error .unavailableCapability
  else if command = .pause ∧ owner.execution ≠ .running ∨
      command.needsStopped ∧ owner.execution ≠ .stopped then .error .invalidState
  else match command with
    | .breakpointSet =>
      if bytes.length ≠ 24 then .error .malformed
      else .ok (.breakpointSet (at_ bytes 0 8) (at_ bytes 8 8)
        (at_ bytes 16 8))
    | .breakpointClear => (identifier bytes).map .breakpointClear
    | .backtrace => (identifier bytes).map .backtrace
    | .locals => (identifier bytes).map .locals
    | .step =>
      if bytes.length ≠ 8 then .error .malformed else .ok (.step (at_ bytes 0 8))
    | .readMemory =>
      let offset := at_ bytes 16 8
      let length := at_ bytes 24 4
      if bytes.length ≠ 32 then .error .malformed
      else if at_ bytes 12 4 ≠ 0 ∨ at_ bytes 28 4 ≠ 0 then .error .malformed
      else if maxMemoryReadBytes < length then .error .oversized
      else if uint64Max - length < offset then .error .malformed
      else .ok (.readMemory (at_ bytes 0 8) (at_ bytes 8 4) offset length)
    | .replaceFunction =>
      let bodySize := at_ bytes 24 4
      let expectedGeneration := at_ bytes 16 8
      if bytes.length < 32 then .error .malformed
      else if at_ bytes 28 4 ≠ 0 then .error .malformed
      else if maxFunctionBodyBytes < bodySize then .error .oversized
      else if bodySize = 0 ∨ bodySize ≠ (bytes.drop 32).length ∨ expectedGeneration = 0 then
        .error .malformed
      else .ok (.replaceFunction (at_ bytes 0 8) (at_ bytes 8 8)
        expectedGeneration (bytes.drop 32))
    | .status => empty bytes .status
    | .breakpointList => empty bytes .breakpointList
    | .pause => empty bytes .pause
    | .resume => empty bytes .resume
    | .detach => empty bytes .detach
where
  /-- A payload of one identifier that is not zero. -/
  identifier (bytes : List UInt8) : Except Error Nat :=
    if bytes.length ≠ 8 then .error .malformed
    else if at_ bytes 0 8 = 0 then .error .malformed
    else .ok (at_ bytes 0 8)
  empty (bytes : List UInt8) (command : Command) : Except Error Command :=
    if bytes.length ≠ 0 then .error .malformed else .ok command

def admitRequest (owner : Authority) (decoder : FrameDecoder) : Except Error Command :=
  let header := decoder.decoded
  if header.instanceId ≠ owner.config.instanceId then .error .wrongInstance
  else if header.generation ≠ owner.config.generation then .error .staleGeneration
  else if owner.lastRequest = uint64Max then .error .exhausted
  else if header.requestId ≠ owner.lastRequest + 1 then .error .replay
  else parseCommand owner header.command decoder.payload

structure ReceiveResult (A : Type) where
  status : Error
  consumed : Nat
  request : Option (Ticket A)

def receive (s : S) (bytes : List UInt8) (w : World A S) : ReceiveResult A × World A S :=
  match (w.session s).owner with
  | none => (⟨.unauthorized, 0, none⟩, w)
  | some a =>
    let live := liveLocked (w.authority a) (w.session s)
    if live ≠ .none then (⟨live, 0, none⟩, w)
    else if (w.session s).state = .pending then (⟨.busy, 0, none⟩, w)
    else
      let (part, decoder) := (w.session s).decoder.feed bytes
      let w := w.setSession s { w.session s with decoder }
      if part.status ≠ .none then (⟨part.status, part.consumed, none⟩, closeLocked a s w)
      else if ¬ part.complete then (⟨.none, part.consumed, none⟩, w)
      else match admitRequest (w.authority a) decoder with
        | .error failure => (⟨failure, part.consumed, none⟩, closeLocked a s w)
        | .ok parsed =>
          let header := decoder.decoded
          let serial := (w.session s).serial
          let accepted : Ticket A := ⟨some a, serial, header.requestId, parsed⟩
          (⟨.none, part.consumed, some accepted⟩,
            { (w.setAuthority a { w.authority a with lastRequest := header.requestId }).setSession s
              { w.session s with
                pendingId := header.requestId
                pendingOperation := header.command
                state := .pending
                decoder := {} } with
              tickets := w.tickets ++ [accepted]
              trace := .accepted a s serial header.requestId :: w.trace })

/-- The completions of an operation other than `rejected`. -/
def Operation.completion : Operation → HostCompletion → Bool
  | .status, .inspected | .breakpointList, .inspected | .backtrace, .inspected
  | .locals, .inspected => true
  | .breakpointSet, .configured | .breakpointClear, .configured => true
  | .pause, .paused => true
  | .resume, .resumed => true
  | .step, .stepped | .step, .paused => true
  | .readMemory, .inspected => true
  | .replaceFunction, .replaced => true
  | .detach, .detached => true
  | _, _ => false

def HostCompletion.execution : HostCompletion → ExecutionState → ExecutionState
  | .paused, _ => .stopped
  | .resumed, _ => .running
  | _, execution => execution

def complete (s : S) (ticket : Ticket A) (result : HostCompletion) (w : World A S) :
    Error × World A S :=
  match (w.session s).owner with
  | none => (.unauthorized, w)
  | some a =>
    let session := w.session s
    let live := liveLocked (w.authority a) session
    if live ≠ .none then (live, w)
    else if session.state ≠ .pending ∨ ticket.owner ≠ some a ∨ ticket.session ≠ session.serial ∨
        ticket.id ≠ session.pendingId then (.wrongCompletion, w)
    else if ¬ (result = .rejected ∨ session.pendingOperation.completion result) then
      (.wrongCompletion, w)
    else
      let execution := result.execution (w.authority a).execution
      let w := { w.setAuthority a { w.authority a with execution } with
        trace := .completed a s ticket.id :: w.trace }
      if result = .detached then (.none, closeLocked a s w)
      else (.none, w.setSession s { session with pendingId := 0, state := .ready })

def confirmExecutionState (s : S) (value : ExecutionState) (w : World A S) : Error × World A S :=
  match (w.session s).owner with
  | none => (.unauthorized, w)
  | some a =>
    let live := liveLocked (w.authority a) (w.session s)
    if live ≠ .none then (live, w)
    else if (w.session s).state ≠ .ready then (.busy, w)
    else (.none, w.setAuthority a { w.authority a with execution := value })

def finishStream (s : S) (w : World A S) : Error × World A S :=
  match (w.session s).owner with
  | none => (.unauthorized, w)
  | some a =>
    let live := liveLocked (w.authority a) (w.session s)
    if live ≠ .none then (live, w)
    else ((w.session s).decoder.finishStream.1, closeLocked a s w)

def disconnect (s : S) (w : World A S) : World A S :=
  match (w.session s).owner with
  | none => w.setSession s { w.session s with state := .closed }
  | some a => closeLocked a s w

-- Calls

/-- The calls of hosts. Permits and tickets are named by their places in the tables; the
destructor of an authority is `revoke`, that of a session `disconnect`. -/
inductive Call (A S : Type)
  | issuePermit (a : A)
  | movePermit (place : Nat)
  | revoke (a : A)
  | attachLauncher (s : S) (permit : Nat) (peer : AuthenticatedLaunchPeer)
  | attachConsole (s : S) (permit : Nat)
  | receive (s : S) (bytes : List UInt8)
  | complete (s : S) (ticket : Nat) (result : HostCompletion)
  | moveTicket (place : Nat)
  | confirmExecutionState (s : S) (value : ExecutionState)
  | finishStream (s : S)
  | disconnect (s : S)

def World.call (w : World A S) : Call A S → World A S
  | .issuePermit a => issuePermit a w
  | .movePermit place =>
    match w.permits[place]? with
    | none => w
    | some permit =>
      { w with permits := w.permits.set place { permit with owner := none } ++ [permit] }
  | .revoke a => revoke a w
  | .attachLauncher s permit peer => (attach s permit .launcherChannel peer w).2
  | .attachConsole s permit => (attach s permit .console {} w).2
  | .receive s bytes => (receive s bytes w).2
  | .complete s place result =>
    match w.tickets[place]? with
    | none => w
    | some ticket => (complete s ticket result w).2
  | .moveTicket place =>
    match w.tickets[place]? with
    | none => w
    | some ticket =>
      { w with tickets := w.tickets.set place { ticket with owner := none } ++ [ticket] }
  | .confirmExecutionState s value => (confirmExecutionState s value w).2
  | .finishStream s => (finishStream s w).2
  | .disconnect s => disconnect s w

def World.run (w : World A S) (calls : List (Call A S)) : World A S := calls.foldl World.call w

def World.initial (config : A → LaunchConfig) : World A S where
  authority a := { config := config a, execution := (config a).initialExecution }

end Uwvm2.Control
