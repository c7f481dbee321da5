import Uwvm2.Checkpoint.ShadowLedger
import Uwvm2.Lib.LinkedStack
import Uwvm2.Lib.Visitor

/-!
# Root frames

The frames of a native thread hold the references that live on its stack. They are entered
and left in the order of the calls, and a collector visits them from the innermost to the
outermost while the thread does not run. Records and slots are known by their addresses.
-/

namespace Uwvm2.Gc

open Checkpoint (RefKind)

/-- A reference with its kind, as it lies in memory. -/
structure RootReference where
  storage : BitVec 64
  kind : BitVec 32
  deriving DecidableEq

inductive FrameRootStatus
  | ok
  | invalidFrame
  | invalidReference
  | rejectedReference
  | sizeOverflow
  deriving DecidableEq

structure FrameRootResult where
  status : FrameRootStatus := .ok
  frames : Nat := 0
  visited : Nat := 0

structure RootFrame (F S : Type) where
  previous : Option F := none
  slots : Option S := none
  capacityAndActive : BitVec 64 := 0#64
  liveCount : BitVec 64 := 0#64

def activeBit : BitVec 64 := 1#64 <<< 63

def capacityMask : BitVec 64 := activeBit - 1#64

def ptrdiffMax : Nat := 2 ^ 63 - 1

def sizeMax : Nat := 2 ^ 64 - 1

def rootReferenceSize : Nat := 16

def maxCapacity : Nat := ptrdiffMax / rootReferenceSize

/-- `wasm_func` is an index of the parser. -/
def runtimeKind (reference : RootReference) : Bool :=
  match RefKind.ofTag? reference.kind.toNat with
  | some .func | none => false
  | some _ => true

structure NativeMemory (F S : Type) where
  frames : F → RootFrame F S
  carriers : S → Nat → RootReference

structure NativeThread (F S : Type) extends NativeMemory F S where
  head : Option F := none

variable {F S σ : Type}

def RootFrame.active (frame : RootFrame F S) : Bool := frame.capacityAndActive &&& activeBit ≠ 0#64

def RootFrame.capacity (frame : RootFrame F S) : BitVec 64 :=
  frame.capacityAndActive &&& capacityMask

def readCarriers (carriers : S → Nat → RootReference) (slots : Option S) (count : Nat) :
    List RootReference :=
  match slots with
  | none => []
  | some slots => (List.range count).map (carriers slots)

def RootFrame.roots (carriers : S → Nat → RootReference) (frame : RootFrame F S) :
    List RootReference :=
  readCarriers carriers frame.slots frame.liveCount.toNat

-- The frames of the calling thread

section Calling

variable [DecidableEq F]

def NativeThread.setFrame (s : NativeThread F S) (f : F) (frame : RootFrame F S) :
    NativeThread F S :=
  { s with frames := Function.update s.frames f frame }

/-- The thread with one more frame; none if it is refused. -/
def enterRootFrame (s : NativeThread F S) (f : F) (slots : Option S) (capacity : BitVec 64) :
    Option (NativeThread F S) :=
  if (s.frames f).active ∨ capacity.toNat > maxCapacity ∨ (capacity ≠ 0#64 ∧ slots = none) then none
  else some { s.setFrame f
    { previous := s.head, slots, capacityAndActive := capacity ||| activeBit
      liveCount := 0#64 } with
    head := some f }

def publishRootFrame (s : NativeThread F S) (f : F) (count : BitVec 64) :
    Option (NativeThread F S) :=
  if s.head ≠ some f ∨ ¬ (s.frames f).active ∨ count > (s.frames f).capacity then none
  else some (s.setFrame f { s.frames f with liveCount := count })

def leaveRootFrame (s : NativeThread F S) (f : F) : Option (NativeThread F S) :=
  if s.head ≠ some f ∨ ¬ (s.frames f).active then none
  else some { s.setFrame f {} with head := (s.frames f).previous }

end Calling

-- Visiting the frames of a thread that does not run

def RootFrame.valid (frame : RootFrame F S) : Bool :=
  frame.active ∧ frame.capacity.toNat ≤ maxCapacity ∧ frame.liveCount ≤ frame.capacity ∧
    (frame.capacity ≠ 0#64 → frame.slots ≠ none)

/-- The first loop, with the number of frames that are still admitted. -/
def preflight (m : NativeMemory F S) : Nat → Nat → FrameRootResult → Option F → FrameRootResult
  | _, _, result, none => result
  | 0, _, result, some _ => { result with status := .invalidFrame }
  | left + 1, total, result, some f =>
    let frame := m.frames f
    if ¬ frame.valid then { result with status := .invalidFrame }
    else if frame.liveCount.toNat > sizeMax - total then { result with status := .sizeOverflow }
    else if ¬ (frame.roots m.carriers).all runtimeKind then
      { result with status := .invalidReference }
    else preflight m left (total + frame.liveCount.toNat)
      { result with frames := result.frames + 1 } frame.previous

/-- The second loop. It has as many rounds as the first. -/
def deliver (m : NativeMemory F S) (visitor : Visitor σ RootReference) :
    Nat → FrameRootResult → σ → Option F → FrameRootResult × σ
  | _, result, s, none => (result, s)
  | 0, result, s, some _ => (result, s)
  | left + 1, result, s, some f =>
    match visitor.counted.each (result.visited, s) ((m.frames f).roots m.carriers) with
    | (true, visited, s) => deliver m visitor left { result with visited } s (m.frames f).previous
    | (false, visited, s) => ({ result with status := .rejectedReference, visited }, s)

def visitQuiescentFrameRoots (m : NativeMemory F S) (head : Option F)
    (visitor : Visitor σ RootReference) (s : σ) (maxFrames : Nat) : FrameRootResult × σ :=
  let result := preflight m maxFrames 0 {} head
  if result.status ≠ .ok then (result, s) else deliver m visitor result.frames result s head

end Uwvm2.Gc
