import Uwvm2.Storage.CompactNumeric

/-!
# Object tokens

Threads take tokens for objects from blocks of their own, and reserve the blocks from the
counter from which compact descriptors reserve their ranges. The calls on descriptors are
those of `CompactNumeric`, on the same counter and interleaved with the token issue in any
order.
-/

namespace Uwvm2.Storage.ObjectTokens

open CompactNumeric (Target uintptrMax)

def objectTokenFirst : Nat := 0x10000

def objectTokenBlockSize : Nat := 1024

/-- The rest of a thread's block, `[next, limit)`. -/
structure Block where
  next : Nat := 0
  limit : Nat := 0
  deriving DecidableEq, Repr

/-- Where a thread stands: in a call on descriptors or outside, or in `issue_object_token`
before the load of the counter or before the exchange. -/
inductive Position (D : Type)
  | compact (position : CompactNumeric.Position D)
  | issueLoad
  | issueExchange (first : Nat)
  deriving DecidableEq

/-- The state of the descriptors with the counter, and the thread-local blocks. `issued` is no
part of the source: the tokens given out so far, latest first. -/
structure Shared (T D : Type) where
  compact : CompactNumeric.Shared T D
  objectTokens : T → Block := fun _ => {}
  issued : List Nat := []

/-- `fail` is a weak exchange that fails without reason. -/
inductive Turn (T D : Type)
  | compact (turn : CompactNumeric.Turn T D)
  | issueObjectToken
  | proceed
  | fail

variable {T D : Type} [DecidableEq T] [DecidableEq D]

def give (t : T) (block : Block) (s : Shared T D) : Position D × Shared T D :=
  (.compact (.outside .ok), { s with
    objectTokens := Function.update s.objectTokens t { block with next := block.next + 1 }
    issued := block.next :: s.issued })

variable [Target]

def exchange (t : T) (fail : Bool) (first : Nat) (s : Shared T D) : Position D × Shared T D :=
  -- A block that would not fit below the last address is refused with a null token.
  if uintptrMax - objectTokenBlockSize < first then (.compact (.outside .ok), s)
  else if fail || s.compact.nextObjectTokenId ≠ first then
    (.issueExchange s.compact.nextObjectTokenId, s)
  else give t ⟨first, first + objectTokenBlockSize⟩ { s with
    compact := { s.compact with nextObjectTokenId := first + objectTokenBlockSize }.log
      (.reserved none first) }

def act : RelyGuarantee.Action T (Position D) (Shared T D) (Turn T D) := fun t turn p s =>
  match p, turn with
  -- Blocks for objects are reserved by `exchange` only.
  | .compact _, .compact (.call .reserveObjectBlock) => none
  | .compact position, .compact turn =>
    (CompactNumeric.act t turn position s.compact).map fun r =>
      (.compact r.1, { s with compact := r.2 })
  | .compact (.outside _), .issueObjectToken =>
    if (s.objectTokens t).next = (s.objectTokens t).limit then some (.issueLoad, s)
    else some (give t (s.objectTokens t) s)
  | .issueLoad, .proceed => some (.issueExchange s.compact.nextObjectTokenId, s)
  | .issueExchange first, .proceed => some (exchange t false first s)
  | .issueExchange first, .fail => some (exchange t true first s)
  | _, _ => none

def initial (capacity : D → Nat) : RelyGuarantee.Config T (Position D) (Shared T D) :=
  ⟨fun _ => .compact (.outside .ok),
    { compact := (CompactNumeric.initial (T := T) capacity).shared }⟩

end Uwvm2.Storage.ObjectTokens
