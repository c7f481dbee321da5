import Uwvm2.Lib.LinkedQueue
import Uwvm2.Lib.RelyGuarantee

/-!
# Waiting for keyed notifications

A thread that waits links a node on its stack into the queue of its key's shard, which
waiters of other keys share. Whatever a thread does while it holds the mutex of a shard is
one step; it reads the flags that no mutex protects at one moment of the step. A sleeping
thread wakes when its event is notified, and at any other time as well.
-/

namespace Uwvm2.Thread.KeyedWaitSet

open LinkedQueue Function

structure WaitKey where
  resource : BitVec 64
  position : BitVec 64
  deriving DecidableEq

inductive KeyedWaitResult
  | notified
  | notEqual
  | timedOut
  | cancelled
  | closed
  | tooManyWaiters
  deriving DecidableEq

structure SuspensionResult where
  outcome : KeyedWaitResult
  abortedBySuspension : Bool := false
  deriving DecidableEq

structure WaitCall where
  key : WaitKey
  timeoutNs : Int := -1
  maxWaitersPerKey : Nat := 2 ^ 64 - 1
  suspendable : Bool := false

/-- The node of a thread. `asleep` says that the thread sleeps on the event; `arrival` is no
part of the source and numbers the nodes in the order of linking. -/
structure Waiter where
  key : WaitKey := ⟨0#64, 0#64⟩
  notified : Bool := false
  asleep : Bool := false
  arrival : Nat := 0
  deriving DecidableEq

structure Shard (T : Type) where
  ends : Ends T := {}
  activeCalls : Nat := 0

/-- The wait set and the nodes. The last four fields are no part of the source: the threads
with a linked node in the order of linking, the number of nodes linked so far, the
arrivals that each notify counted, and the results of the waits, with the arrival of the
node if one was linked. -/
structure WaitSet (T : Type) where
  shards : BitVec 6 → Shard T := fun _ => {}
  closing : Bool := false
  links : Links T := {}
  nodes : T → Waiter := fun _ => {}
  waiting : List T := []
  arrivals : Nat := 0
  notifies : List (List Nat) := []
  results : List (Option Nat × SuspensionResult) := []

def select (key : WaitKey) : BitVec 6 :=
  ((key.resource >>> 4) ^^^ (key.resource >>> 13) ^^^ key.position ^^^
    (key.position >>> 17)).setWidth 6

inductive Position
  | outside
  | register (call : WaitCall)
  | listen (call : WaitCall)
  | enter (call : WaitCall)
  | blocked (call : WaitCall)
  | suspended (call : WaitCall)
  | unregister (key : WaitKey)
  | close (drain : Bool) (shard : Nat)
  | drain (shard : Nat)

/-- What a waiter reads in a critical section: that its cancellation is requested, that its
deadline has passed, that a suspension is requested. -/
structure Reads where
  stopRequested : Bool := false
  expired : Bool := false
  requested : Bool := false

/-- What a thread does in its turn. `signal` is the callback that wakes the waiter `u` on a stop
or suspension request. -/
inductive Turn (T : Type)
  | wait (call : WaitCall)
  | notify (key : WaitKey) (limit : Nat)
  | close (drain : Bool)
  | signal (u : T)
  | proceed
  | listen (accepted : Bool)
  | enter (matched : Bool) (reads : Reads)
  | wake (spurious : Bool) (reads : Reads)
  | resume (keepWaiting : Bool) (reads : Reads)

variable {T : Type} [DecidableEq T]

-- Waiting

def WaitSet.setActiveCalls (s : WaitSet T) (shard : BitVec 6) (n : Nat) : WaitSet T :=
  { s with shards := update s.shards shard { s.shards shard with activeCalls := n } }

def register (t : T) (s : WaitSet T) (key : WaitKey) : WaitSet T :=
  { s.setActiveCalls (select key) ((s.shards (select key)).activeCalls + 1) with
    links :=
      { previous := update s.links.previous t none
        next := update s.links.next t none }
    nodes := update s.nodes t { key } }

def setAsleep (nodes : T → Waiter) (t : T) (asleep : Bool) : T → Waiter :=
  update nodes t { nodes t with asleep }

def notifyOne (nodes : T → Waiter) (t : T) : T → Waiter := setAsleep nodes t false

def link (t : T) (s : WaitSet T) : WaitSet T :=
  let shard := select (s.nodes t).key
  let r := LinkedQueue.link s.links (s.shards shard).ends t
  { s with
    links := r.1
    shards := update s.shards shard { s.shards shard with ends := r.2 }
    nodes := update s.nodes t { s.nodes t with arrival := s.arrivals }
    waiting := s.waiting ++ [t]
    arrivals := s.arrivals + 1 }

def unlink (t : T) (s : WaitSet T) : WaitSet T :=
  let shard := select (s.nodes t).key
  let r := LinkedQueue.unlink s.links (s.shards shard).ends t
  { s with
    links := r.1
    shards := update s.shards shard { s.shards shard with ends := r.2 }
    waiting := s.waiting.filter (· ≠ t) }

def leave (s : WaitSet T) (call : WaitCall) (outcome : KeyedWaitResult) (aborted : Bool) :
    Position × WaitSet T :=
  (.unregister call.key, { s with results := (none, ⟨outcome, aborted⟩) :: s.results })

def finish (t : T) (s : WaitSet T) (call : WaitCall) (outcome : KeyedWaitResult)
    (aborted : Bool) : Position × WaitSet T :=
  (.unregister call.key, { unlink t s with
    results := (some (s.nodes t).arrival, ⟨outcome, aborted⟩) :: s.results })

def arbitrate (t : T) (s : WaitSet T) (call : WaitCall) (reads : Reads) : Option KeyedWaitResult :=
  if (s.nodes t).notified then some .notified
  else if reads.stopRequested then some .cancelled
  else if s.closing then some .closed
  else if call.timeoutNs ≥ 0 ∧ reads.expired then some .timedOut
  else none

def attend (t : T) (s : WaitSet T) (call : WaitCall) (reads : Reads) : Position × WaitSet T :=
  match arbitrate t s call reads with
  | some outcome => finish t s call outcome false
  | none =>
    if call.suspendable ∧ reads.requested then (.suspended call, s)
    else (.blocked call, { s with nodes := setAsleep s.nodes t true })

/-- More waiters of the key are linked than the call admits. The loop runs for at most as many
rounds as nodes are linked; none if they do not suffice. -/
def tooManyWaiters (s : WaitSet T) (call : WaitCall) : Option Bool :=
  let bucket := s.shards (select call.key)
  if bucket.activeCalls > call.maxWaitersPerKey then
    (walk s.links (fun _ => true)
      (fun (matching : Nat) a =>
        if (s.nodes a).key = call.key ∧ ¬ (s.nodes a).notified then matching + 1 else matching)
      s.waiting.length bucket.ends.first 0).map fun matching => matching ≥ call.maxWaitersPerKey
  else some false

def enter (t : T) (s : WaitSet T) (call : WaitCall) (matched : Bool) (reads : Reads) :
    Option (Position × WaitSet T) :=
  if s.closing then some (leave s call .closed false)
  else if reads.stopRequested then some (leave s call .cancelled false)
  else if ¬ matched then some (leave s call .notEqual false)
  else if call.timeoutNs = 0 then some (leave s call .timedOut false)
  else (tooManyWaiters s call).map fun tooMany =>
    if tooMany then leave s call .tooManyWaiters false
    else attend t (link t s) call reads

def resume (t : T) (s : WaitSet T) (call : WaitCall) (keepWaiting : Bool) (reads : Reads) :
    Position × WaitSet T :=
  match arbitrate t s call reads with
  | some outcome => finish t s call outcome false
  | none => if ¬ keepWaiting then finish t s call .cancelled true else attend t s call reads

-- Notifying

/-- The loop of `notify`: the nodes, the number of those notified so far and, what is no part
of the source, their arrivals. -/
structure Notifying (T : Type) where
  nodes : T → Waiter
  count : Nat := 0
  counted : List Nat := []

def notifyNode (key : WaitKey) (r : Notifying T) (a : T) : Notifying T :=
  if (r.nodes a).key = key ∧ ¬ (r.nodes a).notified then
    { nodes := notifyOne (update r.nodes a { r.nodes a with notified := true }) a
      count := r.count + 1
      counted := (r.nodes a).arrival :: r.counted }
  else r

/-- The number of waiters notified. The loop runs for at most as many rounds as nodes are linked;
none if they do not suffice. -/
def notify (s : WaitSet T) (key : WaitKey) (limit : Nat) : Option (Nat × WaitSet T) :=
  if limit = 0 then some (0, s)
  else if s.closing then some (0, s)
  else
    (walk s.links (fun r => r.count ≠ limit) (notifyNode key) s.waiting.length
      (s.shards (select key)).ends.first { nodes := s.nodes }).map fun r =>
    (r.count, { s with nodes := r.nodes, notifies := r.counted :: s.notifies })

def closeShard (s : WaitSet T) (shard : BitVec 6) : Option (WaitSet T) :=
  (walk s.links (fun _ => true) notifyOne s.waiting.length (s.shards shard).ends.first s.nodes).map
    fun nodes => { s with nodes }

-- Steps

def act : RelyGuarantee.Action T Position (WaitSet T) (Turn T) := fun t turn p s =>
  match p, turn with
  | .outside, .wait call => some (.register call, s)
  | .outside, .notify key limit => (notify s key limit).map fun r => (.outside, r.2)
  | .outside, .close drain => some (.close drain 0, { s with closing := true })
  | .outside, .signal u => some (.outside, { s with nodes := notifyOne s.nodes u })
  | .register call, .proceed =>
    some (if call.suspendable then .listen call else .enter call, register t s call.key)
  | .listen call, .listen accepted =>
    some (if accepted then (.enter call, s) else leave s call .cancelled true)
  | .enter call, .enter matched reads => enter t s call matched reads
  | .blocked call, .wake spurious reads =>
    if (s.nodes t).asleep ∧ ¬ spurious then none
    else some (attend t { s with nodes := setAsleep s.nodes t false } call reads)
  | .suspended call, .resume keepWaiting reads => some (resume t s call keepWaiting reads)
  | .unregister key, .proceed =>
    some (.outside, s.setActiveCalls (select key) ((s.shards (select key)).activeCalls - 1))
  | .close drain shard, .proceed =>
    if shard < 64 then
      (closeShard s (BitVec.ofNat 6 shard)).map fun s' => (.close drain (shard + 1), s')
    else some (if drain then .drain 0 else .outside, s)
  | .drain shard, .proceed =>
    if shard = 64 then some (.outside, s)
    else if (s.shards (BitVec.ofNat 6 shard)).activeCalls = 0 then some (.drain (shard + 1), s)
    else none
  | _, _ => none

def initial : RelyGuarantee.Config T Position (WaitSet T) := ⟨fun _ => .outside, {}⟩

-- Accounting

/-- The linked waiters of a key that are not notified yet, in the order of linking. -/
def pending (s : WaitSet T) (key : WaitKey) : List T :=
  s.waiting.filter fun t => (s.nodes t).key = key ∧ ¬ (s.nodes t).notified

/-- The nodes of the threads in the list are notified and awake, all others as they were. -/
def mark (nodes : T → Waiter) (l : List T) : T → Waiter := fun t =>
  if t ∈ l then { nodes t with notified := true, asleep := false } else nodes t

def WaitSet.timesCounted (s : WaitSet T) (arrival : Nat) : Nat := s.notifies.flatten.count arrival

def WaitSet.queue (s : WaitSet T) (shard : BitVec 6) : List T :=
  s.waiting.filter fun t => select (s.nodes t).key = shard

def WaitSet.quota (s : WaitSet T) (limit : Nat) : Nat := if s.closing then 0 else limit

structure Accounted (cfg : RelyGuarantee.Config T Position (WaitSet T)) : Prop where
  queues : ∀ shard, IsQueue cfg.shared.links (cfg.shared.shards shard).ends (cfg.shared.queue shard)
  sorted : cfg.shared.waiting.Pairwise fun t u =>
    (cfg.shared.nodes t).arrival < (cfg.shared.nodes u).arrival
  /-- A notify marks the first pending waiters of its key and returns their number. -/
  notify : ∀ key limit, ∃ s',
    notify cfg.shared key limit =
      some (min (cfg.shared.quota limit) (pending cfg.shared key).length, s') ∧
    s'.nodes = mark cfg.shared.nodes ((pending cfg.shared key).take (cfg.shared.quota limit)) ∧
    s'.waiting = cfg.shared.waiting ∧ s'.results = cfg.shared.results
  /-- A marked waiter is awake or suspended, and its next critical section returns `notified`. -/
  enabled : ∀ t ∈ cfg.shared.waiting, (cfg.shared.nodes t).notified → ∀ reads,
    (act t (.wake false reads) (cfg.position t) cfg.shared).isSome ∨
    ∀ keepWaiting, (act t (.resume keepWaiting reads) (cfg.position t) cfg.shared).isSome
  returns : ∀ t ∈ cfg.shared.waiting, (cfg.shared.nodes t).notified → ∀ turn p' s',
    act t turn (cfg.position t) cfg.shared = some (p', s') →
    s'.results = (some (cfg.shared.nodes t).arrival, ⟨.notified, false⟩) :: cfg.shared.results
  /-- Whoever was counted is still linked and marked, or has returned `notified`. -/
  counted : ∀ n ∈ cfg.shared.notifies.flatten,
    (∃ t ∈ cfg.shared.waiting, (cfg.shared.nodes t).arrival = n ∧ (cfg.shared.nodes t).notified) ∨
    ∃ r ∈ cfg.shared.results, r.1 = some n ∧ r.2.outcome = .notified
  /-- Whoever returned `notified` was counted by exactly one notify. -/
  returned : ∀ r ∈ cfg.shared.results, r.2.outcome = .notified →
    ∃ n, r.1 = some n ∧ cfg.shared.timesCounted n = 1

end Uwvm2.Thread.KeyedWaitSet
