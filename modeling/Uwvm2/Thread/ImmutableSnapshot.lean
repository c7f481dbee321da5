import Uwvm2.Lib.RelyGuarantee

/-!
# Hazard-protected snapshots

Writers publish versions under a mutex and free the retired ones that no hazard
names; readers name a version in their hazard and then look again whether it is
current. A step makes at most one access to an atomic; what the mutex protects is
accessed together with it. The address of a freed node may be used again.

An actor is a reader object, or a thread that writes. A thread with several reader
objects is several actors.
-/

namespace Uwvm2.Thread.ImmutableSnapshot

open Function

/-- A node, with a number of its own that no later node at the same address has. -/
structure Node (P : Type) where
  id : Nat
  value : P

/-- What a writer publishes: an edit of the current version (none if it throws), a value, or
nothing. -/
inductive Publication (P : Type)
  | update (edit : P → Option P)
  | replace (value : P)
  | clear

def publish {P : Type} [Inhabited P] (contents : Option P) : Publication P → Option (Option P)
  | .update edit => (edit (contents.getD default)).map some
  | .replace value => some (some value)
  | .clear => some none

def replay {P : Type} [Inhabited P] : List (Publication P) → Option (Option P)
  | [] => some none
  | e :: earlier => (replay earlier).bind (publish · e)

/-- The snapshot, the heap and the slots of the readers. The last seven fields are no part of
the source: the writer a node is private to, the next node's number, the node a
reader has acquired, the nodes that the latest collect found named with the reader
that named them, the publications and the version they give, and that a node was read
that is not there. -/
structure Snapshot (T A P : Type) where
  writers : Option T := none
  current : Option A := none
  retired : List A := []
  readers : List T := []
  hazard : T → Option A := fun _ => none
  heap : A → Option (Node P) := fun _ => none
  owner : A → Option T := fun _ => none
  nextId : Nat := 0
  borrow : T → Option A := fun _ => none
  found : List (A × T) := []
  history : List (Publication P) := []
  contents : Option P := none
  faulted : Bool := false

inductive Call (P : Type)
  | register
  | unregister
  | acquire
  | release
  | update (edit : P → Option P)
  | replace (value : P)
  | clear
  | collect

inductive Position (T A P : Type)
  | outside
  | reader (borrowed : Option (A × Nat))
  | registerLock
  | registerLink
  | registerUnlock
  | acquireLoad (borrowed : Option (A × Nat))
  | acquireStore (borrowed : Option (A × Nat)) (observed : Option A)
  | acquireCheck (observed : Option A)
  | unregisterStore (borrowed : Option (A × Nat))
  | unregisterLock
  | unregisterUnlink
  | unregisterUnlock
  | updateLock (edit : P → Option P)
  | updateLoad (edit : P → Option P)
  | updateCopy (edit : P → Option P) (previous : Option A)
  | updateEdit (edit : P → Option P) (replacement : A)
  | replaceAllocate (value : P)
  | replaceLock (value : P) (replacement : A)
  | clearLock
  | exchange (job : Publication P) (replacement : Option A)
  | collectLock
  | collectStart
  | collect (all kept rest : List A)
  | scan (all kept : List A) (candidate : A) (rest : List A) (readers : List T)
  | collected (all : List A)
  | unlock

/-- What an actor does in its turn. `allocate` gives the address of a new node, `fail` is an
allocation or copy that throws. -/
inductive Turn (A P : Type)
  | call (op : Call P)
  | proceed
  | allocate (a : A)
  | fail

variable {T A P : Type} [DecidableEq T] [DecidableEq A] [Inhabited P]

def start : Position T A P → Call P → Option (Position T A P)
  | .outside, .register => some .registerLock
  | .outside, .update edit => some (.updateLock edit)
  | .outside, .replace value => some (.replaceAllocate value)
  | .outside, .clear => some .clearLock
  | .outside, .collect => some .collectLock
  | .reader borrowed, .acquire => some (.acquireLoad borrowed)
  | .reader borrowed, .unregister => some (.unregisterStore borrowed)
  | _, _ => none

def lock (t : T) (s : Snapshot T A P) : Option (Snapshot T A P) :=
  if s.writers = none then some { s with writers := some t } else none

def storeHazard (t : T) (s : Snapshot T A P) (a : Option A) : Snapshot T A P :=
  { s with hazard := update s.hazard t a, borrow := update s.borrow t none }

def allocate (t : T) (s : Snapshot T A P) (a : A) (value : P) : Snapshot T A P :=
  { s with
    heap := update s.heap a (some ⟨s.nextId, value⟩)
    owner := update s.owner a (some t)
    nextId := s.nextId + 1 }

def publishLocked (s : Snapshot T A P) (job : Publication P) (replacement : Option A) :
    Snapshot T A P :=
  { s with
    current := replacement
    retired := s.current.toList ++ s.retired
    owner := match replacement with
      | some a => update s.owner a none
      | none => s.owner
    history := job :: s.history
    contents := (publish s.contents job).getD s.contents }

def advance (t : T) (turn : Turn A P) (s : Snapshot T A P) :
    Position T A P → Option (Position T A P × Snapshot T A P)
  | .outside | .reader _ => none
  | .registerLock => (lock t s).map (.registerLink, ·)
  | .registerLink => some (.registerUnlock, { s with readers := t :: s.readers })
  | .registerUnlock => some (.reader none, { s with writers := none })
  | .acquireLoad borrowed => some (.acquireStore borrowed s.current, s)
  | .acquireStore _ observed => some (.acquireCheck observed, storeHazard t s observed)
  | .acquireCheck observed =>
    if observed = s.current then
      some (.reader (observed.bind fun a => (s.heap a).map fun n => (a, n.id)),
        { s with borrow := update s.borrow t observed })
    else some (.acquireLoad none, s)
  | .unregisterStore _ => some (.unregisterLock, storeHazard t s none)
  | .unregisterLock => (lock t s).map (.unregisterUnlink, ·)
  | .unregisterUnlink => some (.unregisterUnlock, { s with readers := s.readers.erase t })
  | .unregisterUnlock => some (.outside, { s with writers := none })
  | .updateLock edit => (lock t s).map (.updateLoad edit, ·)
  | .updateLoad edit => some (.updateCopy edit s.current, s)
  | .updateCopy edit previous =>
    match turn with
    | .allocate a =>
      if s.heap a ≠ none then none
      else match previous with
        | none => some (.updateEdit edit a, allocate t s a default)
        | some b => match s.heap b with
          | some n => some (.updateEdit edit a, allocate t s a n.value)
          | none => some (.unlock, { s with faulted := true })
    | .fail => some (.unlock, s)
    | _ => none
  | .updateEdit edit a =>
    match (s.heap a).bind fun n => (edit n.value).map fun value =>
      ({ n with value := value } : Node P) with
    | some n => some (.exchange (.update edit) (some a),
        { s with heap := update s.heap a (some n) })
    | none => some (.unlock,
        { s with heap := update s.heap a none, owner := update s.owner a none })
  | .replaceAllocate value =>
    match turn with
    | .allocate a =>
      if s.heap a ≠ none then none else some (.replaceLock value a, allocate t s a value)
    | .fail => some (.outside, s)
    | _ => none
  | .replaceLock value a => (lock t s).map (.exchange (.replace value) (some a), ·)
  | .clearLock => (lock t s).map (.exchange .clear none, ·)
  | .exchange job replacement => some (.collectStart, publishLocked s job replacement)
  | .collectLock => (lock t s).map (.collectStart, ·)
  | .collectStart => some (.collect s.retired [] s.retired, { s with found := [] })
  | .collect all _ [] => some (.collected all, s)
  | .collect all kept (candidate :: rest) => some (.scan all kept candidate rest s.readers, s)
  | .scan all kept candidate rest [] =>
    some (.collect all kept rest,
      { s with retired := kept ++ rest, heap := update s.heap candidate none })
  | .scan all kept candidate rest (r :: readers) =>
    if s.hazard r = some candidate then
      some (.collect all (kept ++ [candidate]) rest, { s with found := (candidate, r) :: s.found })
    else some (.scan all kept candidate rest readers, s)
  | .collected _ => some (.outside, { s with writers := none })
  | .unlock => some (.outside, { s with writers := none })

/-- One atomic step of actor `t`. A release is one store. -/
def act : RelyGuarantee.Action T (Position T A P) (Snapshot T A P) (Turn A P) := fun t turn p s =>
  match p, turn with
  | .reader _, .call .release => some (.reader none, storeHazard t s none)
  | p, .call op => (start p op).map (·, s)
  | p, turn => advance t turn s p

def initial : RelyGuarantee.Config T (Position T A P) (Snapshot T A P) := ⟨fun _ => .outside, {}⟩

end Uwvm2.Thread.ImmutableSnapshot
