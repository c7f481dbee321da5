import Uwvm2.Lib.RelyGuarantee

/-!
# Managed entry admission

One word counts the shared leases and holds the bit of the exclusive lease. A step
makes one access to the word; a lease object is written in the step that grants its
lease, and emptied in a step of its own before the word is. The leases that count
are told apart by the objects they are in.
-/

namespace Uwvm2.Gc.EntryAdmission

open Function

def exclusiveBit : BitVec 64 := 1#64 <<< 63

def countMask : BitVec 64 := exclusiveBit - 1#64

def ptrdiffMax : Nat := 2 ^ 63 - 1

def pointerSize : Nat := 8

-- State

/-- Where a shared lease object lies. It holds a pointer, so no two lie at the same
multiple of eight. -/
abbrev LeaseObject := Fin (2 ^ 61)

/-- A shared lease object: without an owner, with one, or emptied by a thread that has
not yet given the lease back. -/
inductive SharedLease (T : Type)
  | empty
  | held
  | leaving (t : T)
  deriving DecidableEq

inductive ExclusiveLease (T : Type)
  | empty
  | held (count : BitVec 64)
  | leaving (t : T) (count : BitVec 64)
  deriving DecidableEq

/-- The word and the lease objects. The last four fields are no part of the source: the
leases presented to calls in progress, for each caller that these were not given up or
moved since the call began, that no lease was given up under exclusion, and that the
process has terminated. -/
structure Admission (T E : Type) where
  state : BitVec 64 := 0#64
  shared : LeaseObject → SharedLease T := fun _ => .empty
  exclusive : E → ExclusiveLease T := fun _ => .empty
  borrowed : T → List LeaseObject := fun _ => []
  retained : T → Prop := fun _ => True
  kept : Prop := True
  terminated : Bool := false

/-- Calls on the admission, on shared leases and on exclusive leases. A move assignment is
a reset of its target and then a move. -/
inductive Call (E : Type)
  | enter
  | tryEnter
  | tryExclusiveOwned (actualLeases : List (Option LeaseObject))
  | tryExclusive (requiredCount : BitVec 64)
  | reset (l : LeaseObject)
  | move (source target : LeaseObject)
  | resetExclusive (e : E)
  | moveExclusive (source target : E)

inductive Position (E : Type)
  | outside
  | enterLoad
  | enterLoop (state : BitVec 64)
  | tryEnterLoad
  | tryEnterLoop (state : BitVec 64)
  | ownedCheck (actualLeases : List (Option LeaseObject)) (i : Nat)
  | ownedExchange (actualLeases : List (Option LeaseObject))
  | exclusiveExchange (requiredCount : BitVec 64)
  | leaveShared (l : LeaseObject)
  | leaveExclusive (e : E) (count : BitVec 64)

/-- What a thread does in its turn. A turn that grants a lease says where the lease object
lies; `fail` is a weak exchange that fails without reason. -/
inductive Turn (E : Type)
  | call (op : Call E)
  | proceed
  | fail
  | grant (l : LeaseObject)
  | grantExclusive (e : E)

-- Steps

variable {T E : Type} [DecidableEq T] [DecidableEq E]

def start (t : T) (s : Admission T E) : Call E → Option (Position E × Admission T E)
  | .enter => some (.enterLoad, s)
  | .tryEnter => some (.tryEnterLoad, s)
  | .tryExclusiveOwned actualLeases =>
    if actualLeases.isEmpty ∨ countMask.toNat < actualLeases.length ∨
        ptrdiffMax / pointerSize < actualLeases.length then
      some (.outside, s)
    else some (.ownedCheck actualLeases 0, { s with
      borrowed := update s.borrowed t actualLeases.reduceOption
      retained := update s.retained t True })
  | .tryExclusive requiredCount =>
    if 1#64 < requiredCount then some (.outside, s)
    else some (.exclusiveExchange requiredCount, s)
  | .reset l =>
    if s.shared l = .held then
      some (.leaveShared l, { s with
        shared := update s.shared l (.leaving t)
        retained := fun u => s.retained u ∧ l ∉ s.borrowed u })
    else some (.outside, s)
  | .move source target =>
    if s.shared target ≠ .empty then none
    else if s.shared source = .held then
      some (.outside, { s with
        shared := update (update s.shared source .empty) target .held
        retained := fun u => s.retained u ∧ source ∉ s.borrowed u })
    else some (.outside, s)
  | .resetExclusive e =>
    match s.exclusive e with
    | .held count => some (.leaveExclusive e count,
        { s with exclusive := update s.exclusive e (.leaving t count) })
    | _ => some (.outside, s)
  | .moveExclusive source target =>
    if s.exclusive target ≠ .empty then none
    else match s.exclusive source with
      | .held count => some (.outside, { s with
          exclusive := update (update s.exclusive source .empty) target
            (.held count) })
      | _ => some (.outside, s)

/-- The exchange `state` for `state + 1` of `enter` and `try_enter`, in a loop at position
`retry`. -/
def exchangeShared (s : Admission T E) (state : BitVec 64) (retry : BitVec 64 → Position E) :
    Turn E → Option (Position E × Admission T E)
  | .call _ | .grantExclusive _ => none
  | .grant l =>
    if s.state = state ∧ s.shared l = .empty then
      some (.outside, { s with
        state := state + 1#64, shared := update s.shared l .held })
    else none
  | .proceed => if s.state ≠ state then some (retry s.state, s) else none
  | .fail => some (retry s.state, s)

/-- The exchange `count` for the exclusive bit and `count`. -/
def exchangeExclusive (s : Admission T E) (count : BitVec 64) :
    Turn E → Option (Position E × Admission T E)
  | .call _ | .grant _ | .fail => none
  | .grantExclusive e =>
    if s.state = count ∧ s.exclusive e = .empty then
      some (.outside, { s with
        state := exclusiveBit ||| count
        exclusive := update s.exclusive e (.held count) })
    else none
  | .proceed => if s.state ≠ count then some (.outside, s) else none

def Admission.returns (s : Admission T E) (t : T) : Admission T E :=
  { s with borrowed := update s.borrowed t [] }

def advance (t : T) (turn : Turn E) (s : Admission T E) :
    Position E → Option (Position E × Admission T E)
  | .outside => none
  | .enterLoad => some (.enterLoop s.state, s)
  | .enterLoop state =>
    if state &&& exclusiveBit ≠ 0#64 then
      -- the wait returns when the word has changed
      if s.state ≠ state then some (.enterLoad, s) else none
    else if state = countMask then some (.outside, { s with terminated := true })
    else exchangeShared s state .enterLoop turn
  | .tryEnterLoad => some (.tryEnterLoop s.state, s)
  | .tryEnterLoop state =>
    if state &&& exclusiveBit ≠ 0#64 ∨ state = countMask then some (.outside, s)
    else exchangeShared s state .tryEnterLoop turn
  | .ownedCheck actualLeases i =>
    if i = actualLeases.length then some (.ownedExchange actualLeases, s)
    else match actualLeases[i]? with
      | some (some actual) =>
        if s.shared actual = .held ∧ some actual ∉ actualLeases.take i then
          some (.ownedCheck actualLeases (i + 1), s)
        else some (.outside, s.returns t)
      | _ => some (.outside, s.returns t)
  | .ownedExchange actualLeases =>
    (exchangeExclusive s (BitVec.ofNat 64 actualLeases.length) turn).map fun r =>
      (r.1, r.2.returns t)
  | .exclusiveExchange requiredCount => exchangeExclusive s requiredCount turn
  | .leaveShared l =>
    let previous := s.state
    some (.outside, { s with
      state := previous - 1#64
      shared := update s.shared l .empty
      kept := s.kept ∧ ∀ e, s.exclusive e = .empty
      terminated := previous &&& exclusiveBit ≠ 0#64 ∨ previous &&& countMask = 0#64 })
  | .leaveExclusive e count =>
    if s.state = exclusiveBit ||| count then
      some (.outside, { s with
        state := count, exclusive := update s.exclusive e .empty })
    else some (.outside, { s with terminated := true })

def act : RelyGuarantee.Action T (Position E) (Admission T E) (Turn E) := fun t turn p s =>
  if s.terminated then none
  else match p, turn with
    | .outside, .call op => start t s op
    | _, .call _ => none
    | p, turn => advance t turn s p

def initial : RelyGuarantee.Config T (Position E) (Admission T E) := ⟨fun _ => .outside, {}⟩

def protectsShared (s : Admission T E) (e : E) (l : LeaseObject) : Bool :=
  s.exclusive e = .held 1#64 ∧ s.shared l = .held ∧ s.state = exclusiveBit ||| 1#64

-- Leases

def live (s : Admission T E) : Finset LeaseObject := Finset.univ.filter (s.shared · ≠ .empty)

def Excluded (s : Admission T E) : Prop := ∃ e, s.exclusive e ≠ .empty

/-- The word counts the live shared leases, and at most one exclusive lease is live, which
the word says. -/
structure Accounted (s : Admission T E) : Prop where
  count : (s.state &&& countMask).toNat = (live s).card
  exclusive : s.state &&& exclusiveBit ≠ 0#64 ↔ Excluded s
  unique : ∀ e e', s.exclusive e ≠ .empty → s.exclusive e' ≠ .empty → e = e'

/-- Thread `t` may exclude at position `p`: there are as many live leases as required or
presented, and just the presented ones if these were retained. -/
def MayExclude (t : T) (p : Position E) (s : Admission T E) : Prop :=
  (∃ n, p = .exclusiveExchange n ∧ (live s).card = n.toNat) ∨
  ∃ actualLeases, p = .ownedExchange actualLeases ∧ actualLeases.Nodup ∧
    (live s).card = actualLeases.length ∧
    (s.retained t → ∀ o, o ∈ actualLeases ↔ ∃ l ∈ live s, o = some l)

/-- When a step of `t` from position `p` may grant a lease. -/
structure Grants (t : T) (p : Position E) (s s' : Admission T E) : Prop where
  shared : (live s).card < (live s').card → ¬ Excluded s
  exclusive : ¬ Excluded s → Excluded s' → MayExclude t p s

end Uwvm2.Gc.EntryAdmission
