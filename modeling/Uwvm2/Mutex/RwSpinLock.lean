import Uwvm2.Lib.RelyGuarantee

/-!
# The reader/writer spin lock

Five pairs of guards on one state word, with every atomic access a step of its own. A thread
of the model is one guard object, from its constructor to its destructor; the pauses between
two attempts and the counter that chooses them have no effect on the word.
-/

namespace Uwvm2.Mutex

/-- The word `bits` of a lock: three flags, and the number of readers above them. -/
abbrev Word := BitVec 32

def writerMask : Word := 1#32

def pendingMask : Word := 2#32

def writerWaitingMask : Word := 4#32

def readerMask : Word := 8#32

def readerCountMask : Word := ~~~(readerMask - 1#32)

inductive SharedGuard
  | rwShared
  | writerPref
  | writerPrefNoStarvation
  | fair
  | fairWriterPref
  deriving DecidableEq, Repr

inductive UniqueGuard
  | rwUnique
  | writerPref
  | writerPrefNoStarvation
  | fair
  | fairWriterPref
  deriving DecidableEq, Repr

def SharedGuard.blocking : SharedGuard → Word
  | .rwShared => writerMask
  | .writerPref => writerMask ||| writerWaitingMask
  | .writerPrefNoStarvation => writerMask ||| pendingMask
  | .fair => writerMask ||| pendingMask
  | .fairWriterPref => writerMask ||| pendingMask ||| writerWaitingMask

/-- Whether the constructor sets WRITER_WAITING whenever it finds it clear. -/
def UniqueGuard.announces : UniqueGuard → Bool
  | .writerPref | .fairWriterPref => true
  | .rwUnique | .writerPrefNoStarvation | .fair => false

def UniqueGuard.tickets : UniqueGuard → Bool
  | .writerPrefNoStarvation | .fair | .fairWriterPref => true
  | .rwUnique | .writerPref => false

def UniqueGuard.released : UniqueGuard → Word
  | .rwUnique => writerMask
  | .writerPref => writerMask ||| writerWaitingMask
  | .writerPrefNoStarvation => writerMask ||| pendingMask
  | .fair => writerMask ||| pendingMask
  | .fairWriterPref => writerMask ||| pendingMask ||| writerWaitingMask

inductive Position
  | idle
  /-- `rw_shared_guard_t`: the increment, before WRITER is known. -/
  | add
  /-- `rw_shared_guard_t`: WRITER was set, the increment is taken back. -/
  | rollBack
  | loadShared (guard : SharedGuard)
  /-- No blocking flag in `old`: the exchange that counts the reader. -/
  | enterShared (guard : SharedGuard) (old : Word)
  | reading (guard : SharedGuard)
  | enterZero
  | loadUnique (guard : UniqueGuard) (ticket : Bool)
  | announce (guard : UniqueGuard) (ticket : Bool) (old : Word)
  | takeTicket (guard : UniqueGuard) (old : Word)
  | enterUnique (guard : UniqueGuard) (ticket : Bool) (old : Word)
  | writing (guard : UniqueGuard)
  deriving DecidableEq, Repr

/-- What the scheduler chooses. `fail` is a spurious failure of `compare_exchange_weak`. -/
inductive Turn
  | shared (guard : SharedGuard)
  | unique (guard : UniqueGuard)
  | go
  | fail
  deriving DecidableEq, Repr

def SharedGuard.start : SharedGuard → Position
  | .rwShared => .add
  | guard => .loadShared guard

def UniqueGuard.start : UniqueGuard → Position
  | .rwUnique => .enterZero
  | guard => .loadUnique guard false

def UniqueGuard.dispatch (guard : UniqueGuard) (ticket : Bool) (old : Word) : Position :=
  if guard.announces ∧ old &&& writerWaitingMask = 0#32 then
    .announce guard ticket old
  else if guard.tickets ∧ ¬ ticket then
    -- Another writer that holds the ticket is waited for.
    if old &&& pendingMask ≠ 0#32 then .loadUnique guard ticket
    else .takeTicket guard old
  else if old &&& writerMask = 0#32 ∧ old &&& readerCountMask = 0#32 then
    .enterUnique guard ticket old
  else .loadUnique guard ticket

/-- `compare_exchange_weak` on the word, and where the guard goes in both cases. -/
def compareExchangeWeak (turn : Turn) (old desired : Word) (success failure : Position)
    (bits : Word) : Option (Position × Word) :=
  match turn with
  | .go => if bits = old then some (success, desired) else some (failure, bits)
  | .fail => some (failure, bits)
  | _ => none

def advance (turn : Turn) (position : Position) (bits : Word) : Option (Position × Word) :=
  match position with
  | .idle =>
    match turn with
    | .shared guard => some (guard.start, bits)
    | .unique guard => some (guard.start, bits)
    | _ => none
  | .enterShared guard old =>
    compareExchangeWeak turn old (old + readerMask) (.reading guard) (.loadShared guard) bits
  | .enterZero => compareExchangeWeak turn 0#32 writerMask (.writing .rwUnique) .enterZero bits
  | .announce guard ticket old =>
    compareExchangeWeak turn old (old ||| writerWaitingMask) (.loadUnique guard ticket)
      (.loadUnique guard ticket) bits
  | .takeTicket guard old =>
    compareExchangeWeak turn old (old ||| pendingMask) (.loadUnique guard true)
      (.loadUnique guard false) bits
  | .enterUnique guard ticket old =>
    compareExchangeWeak turn old (old ||| writerMask) (.writing guard)
      (.loadUnique guard ticket) bits
  | position =>
    if turn = .go then some (plain position bits) else none
where
  plain (position : Position) (bits : Word) : Position × Word :=
    match position with
    | .add =>
      (if bits &&& writerMask = 0#32 then .reading .rwShared else .rollBack, bits + readerMask)
    | .rollBack => (.add, bits - readerMask)
    | .loadShared guard =>
      (if bits &&& guard.blocking ≠ 0#32 then .loadShared guard else .enterShared guard bits, bits)
    | .reading _ => (.idle, bits - readerMask)
    | .loadUnique guard ticket => (guard.dispatch ticket bits, bits)
    | .writing guard => (.idle, bits &&& ~~~guard.released)
    | position => (position, bits)

def act {T : Type} : RelyGuarantee.Action T Position Word Turn :=
  fun _ turn position bits => advance turn position bits

def initial {T : Type} : RelyGuarantee.Config T Position Word := ⟨fun _ => .idle, 0#32⟩

end Uwvm2.Mutex
