import Uwvm2.Lib.RelyGuarantee

/-!
# Linear memory in a relocatable buffer

A growth takes the growing flag, waits until no operation is active, and moves the
contents to a larger buffer. An operation counts itself active and looks at the flag
again before it touches the buffer. Each step makes one access to shared data: the
flag, the counter, a field of the memory, one byte, or one call of the allocator.
-/

namespace Uwvm2.Object.AllocatorMemory

open Function

def sizeMax : Nat := 2 ^ 64 - 1

/-- What an allocator offers to enlarge a buffer: it can clear the new part, it can keep it as
it comes, or a new buffer has to be allocated. -/
inductive Reallocation
  | alignedZero
  | aligned
  | unsupported
  deriving DecidableEq

structure Params where
  customPageSizeLog2 : Nat
  sequentiallyConsistentSize : Bool
  allocator : Reallocation
  strictAllocator : Reallocation
  log2_lt : customPageSizeLog2 < 64

structure Growth where
  pageGrowSize : Nat
  maxLimitMemoryLength : Nat
  strict : Bool
  pages_lt : pageGrowSize < 2 ^ 64
  limit_lt : maxLimitMemoryLength < 2 ^ 64

/-- Threads, told apart by where the guard they use lies. It holds two pointers, so no two
lie at the same multiple of sixteen. -/
abbrev Thread := Fin (2 ^ 60)

-- The abstract memory

inductive Event
  | wrote (offset : Nat) (value : UInt8)
  | read (offset : Nat) (value : Option UInt8)
  | pageSize (pages : Nat)
  | grew (pages limit oldPages : Nat)
  | failed (pages : Nat)
  deriving DecidableEq

/-- The contents of an atomic memory after an event; none if the event cannot happen. -/
def apply (log2 : Nat) (contents : List UInt8) : Event → Option (List UInt8)
  | .wrote offset value =>
    if offset < contents.length then some (contents.set offset value) else none
  | .read offset value => if contents[offset]? = value ∧ value.isSome then some contents else none
  | .pageSize pages => if pages = contents.length >>> log2 then some contents else none
  | .grew pages limit oldPages =>
    if oldPages = contents.length >>> log2 ∧ contents.length + pages * 2 ^ log2 ≤ limit then
      some (contents ++ List.replicate (pages * 2 ^ log2) 0)
    else none
  | .failed _ => some contents

def replay (log2 : Nat) (start : List UInt8) : List Event → Option (List UInt8)
  | [] => some start
  | e :: earlier => (replay log2 start earlier).bind (apply log2 · e)

-- State

/-- The memory and the buffers of the heap. The growing flag carries the thread that set it.
The last six fields are no part of the source: the threads the counter counts, that a
growth has seen the counter at zero, the history and the contents it gives, that a
buffer was accessed that is not there, and that the process has terminated. -/
structure Memory where
  heap : Nat → Option (List UInt8)
  memoryBegin : Nat
  memoryLength : Nat
  orderedMemoryLength : Nat
  growingFlag : Option Thread := none
  activeOps : Nat := 0
  active : Finset Thread := ∅
  stopped : Bool := false
  trace : List Event := []
  contents : List UInt8
  faulted : Bool := false
  terminated : Bool := false

inductive Call
  | operation
  | getPageSize
  | grow (g : Growth)

/-- What a guarded region is for. -/
inductive Purpose
  | operation
  | pageSize
  deriving DecidableEq

inductive Position
  | outside
  | sizeOrdered
  | enterTest (k : Purpose)
  | enterAdd (k : Purpose)
  | enterCheck (k : Purpose)
  | enterUndo (k : Purpose)
  | insideBegin
  | insideLength (base : Nat)
  | insideAccess (base length : Nat)
  | insidePageSize
  | exit
  | growTestAndSet (g : Growth)
  | growWait (g : Growth)
  | growCheck (g : Growth)
  | growAllocate (g : Growth) (curr : Nat)
  | growCopy (g : Growth) (curr temp i : Nat)
  | growClear (g : Growth) (curr temp i : Nat)
  | growDeallocate (g : Growth) (curr temp : Nat)
  | growSetBegin (g : Growth) (curr temp : Nat)
  | growSetLength (g : Growth) (curr : Nat)
  | growSetOrdered (g : Growth) (curr : Nat)
  | growLeave

/-- What a thread does in its turn. `allocate` is a successful call of the allocator, with the
buffer it returns and what lies in the part that is not cleared; `fail` is a failed one. -/
inductive Turn
  | call (op : Call)
  | proceed
  | write (offset : Nat) (value : UInt8)
  | read (offset : Nat)
  | allocate (temp : Nat) (rest : List UInt8)
  | fail

-- Steps

def Memory.load? (s : Memory) (buffer i : Nat) : Option UInt8 :=
  (s.heap buffer).bind fun bytes => bytes[i]?

def Memory.store (s : Memory) (buffer i : Nat) (value : UInt8) : Memory :=
  match s.heap buffer with
  | some bytes =>
    if i < bytes.length then
      { s with heap := update s.heap buffer (some (bytes.set i value)) }
    else { s with faulted := true }
  | none => { s with faulted := true }

def Memory.log (p : Params) (s : Memory) (e : Event) : Memory :=
  { s with
    trace := e :: s.trace
    contents := (apply p.customPageSizeLog2 s.contents e).getD s.contents }

def Memory.reallocate (s : Memory) (temp : Nat) (rest : List UInt8) : Memory :=
  let bytes := (s.heap s.memoryBegin).map (· ++ rest)
  { s with heap := update (update s.heap s.memoryBegin none) temp bytes }

def Params.growSize (p : Params) (g : Growth) : Nat :=
  (g.pageGrowSize <<< p.customPageSizeLog2) % 2 ^ 64

def Params.newLength (p : Params) (g : Growth) (curr : Nat) : Nat := (curr + p.growSize g) % 2 ^ 64

def Params.reallocation (p : Params) (g : Growth) : Reallocation :=
  if g.strict then p.strictAllocator else p.allocator

def Params.currLength (p : Params) (s : Memory) : Nat :=
  if p.sequentiallyConsistentSize then s.orderedMemoryLength else s.memoryLength

def start (p : Params) (s : Memory) : Call → Position × Memory
  | .operation => (.enterTest .operation, s)
  | .getPageSize =>
    if p.sequentiallyConsistentSize then (.sizeOrdered, s) else (.enterTest .pageSize, s)
  | .grow g =>
    if g.pageGrowSize = 0 then
      if p.sequentiallyConsistentSize then (.sizeOrdered, s) else (.enterTest .pageSize, s)
    else (.growTestAndSet g, s)

def fetchAdd (t : Thread) (s : Memory) : Memory :=
  { s with activeOps := (s.activeOps + 1) % 2 ^ 64, active := insert t s.active }

def fetchSub (t : Thread) (s : Memory) : Memory :=
  { s with
    activeOps := if s.activeOps = 0 then sizeMax else s.activeOps - 1
    active := s.active.erase t }

def allocate (p : Params) (g : Growth) (curr : Nat) (s : Memory) : Turn → Option (Position × Memory)
  | .fail =>
    if g.strict then some (.growLeave, s.log p (.failed g.pageGrowSize))
    -- the process ends in the call
    else some (.growAllocate g curr, { s with terminated := true })
  | .allocate temp rest =>
    match p.reallocation g with
    | .alignedZero =>
      if temp = s.memoryBegin ∨ s.heap temp = none then
        some (.growSetBegin g curr temp, s.reallocate temp (List.replicate (p.growSize g) 0))
      else none
    | .aligned =>
      if (temp = s.memoryBegin ∨ s.heap temp = none) ∧ rest.length = p.growSize g then
        some (.growClear g curr temp curr, s.reallocate temp rest)
      else none
    | .unsupported =>
      if s.heap temp = none then
        some (.growCopy g curr temp 0, { s with
          heap := update s.heap temp (some (List.replicate (p.newLength g curr) 0)) })
      else none
  | _ => none

def advance (p : Params) (t : Thread) (turn : Turn) (s : Memory) :
    Position → Option (Position × Memory)
  | .outside => none
  | .sizeOrdered =>
    some (.outside, s.log p (.pageSize (s.orderedMemoryLength >>> p.customPageSizeLog2)))
  | .enterTest k => if s.growingFlag.isSome then some (.enterTest k, s) else some (.enterAdd k, s)
  | .enterAdd k => some (.enterCheck k, fetchAdd t s)
  | .enterCheck k =>
    if s.growingFlag.isSome then some (.enterUndo k, s)
    else match k with
      | .operation => some (.insideBegin, s)
      | .pageSize => some (.insidePageSize, s)
  | .enterUndo k => some (.enterTest k, fetchSub t s)
  | .insideBegin => some (.insideLength s.memoryBegin, s)
  | .insideLength base => some (.insideAccess base s.memoryLength, s)
  | .insideAccess base length =>
    match turn with
    | .write offset value =>
      if offset < length then
        some (.insideAccess base length, (s.store base offset value).log p (.wrote offset value))
      else none
    | .read offset =>
      if offset < length then
        some (.insideAccess base length, s.log p (.read offset (s.load? base offset)))
      else none
    | .proceed => some (.exit, s)
    | _ => none
  | .insidePageSize => some (.exit, s.log p (.pageSize (s.memoryLength >>> p.customPageSizeLog2)))
  | .exit => some (.outside, fetchSub t s)
  | .growTestAndSet g =>
    if s.growingFlag.isSome then some (.growTestAndSet g, s)
    else some (.growWait g, { s with growingFlag := some t })
  | .growWait g =>
    if s.activeOps ≠ 0 then some (.growWait g, s)
      else some (.growCheck g, { s with stopped := true })
  | .growCheck g =>
    let curr := p.currLength s
    if sizeMax >>> p.customPageSizeLog2 < g.pageGrowSize ∨ g.maxLimitMemoryLength < curr ∨
        g.maxLimitMemoryLength - curr < p.growSize g then
      some (.growLeave, s.log p (.failed g.pageGrowSize))
    else some (.growAllocate g curr, s)
  | .growAllocate g curr => allocate p g curr s turn
  | .growCopy g curr temp i =>
    if i = curr then some (.growDeallocate g curr temp, s)
    else match s.load? s.memoryBegin i with
      | some value => some (.growCopy g curr temp (i + 1), s.store temp i value)
      | none => some (.outside, { s with faulted := true })
  | .growClear g curr temp i =>
    if i = p.newLength g curr then some (.growSetBegin g curr temp, s)
    else some (.growClear g curr temp (i + 1), s.store temp i 0)
  | .growDeallocate g curr temp =>
    some (.growSetBegin g curr temp, { s with heap := update s.heap s.memoryBegin none })
  | .growSetBegin g curr temp => some (.growSetLength g curr, { s with memoryBegin := temp })
  | .growSetLength g curr =>
    let s' := { s with memoryLength := p.newLength g curr }
    if p.sequentiallyConsistentSize then some (.growSetOrdered g curr, s')
    else some (.growLeave, s'.log p
      (.grew g.pageGrowSize g.maxLimitMemoryLength (curr >>> p.customPageSizeLog2)))
  | .growSetOrdered g curr =>
    let s' := { s with orderedMemoryLength := p.newLength g curr }
    some (.growLeave, s'.log p
      (.grew g.pageGrowSize g.maxLimitMemoryLength (curr >>> p.customPageSizeLog2)))
  | .growLeave => some (.outside, { s with growingFlag := none, stopped := false })

def act (p : Params) : RelyGuarantee.Action Thread Position Memory Turn := fun t turn pos s =>
  if s.terminated then none
  else match pos, turn with
    | .outside, .call op => some (start p s op)
    | _, .call _ => none
    | pos, turn => advance p t turn s pos

/-- A memory as `init_by_page_count` leaves it, in a heap of its own. -/
def initial (p : Params) (initPageCount : Nat) : RelyGuarantee.Config Thread Position Memory :=
  let bytes := List.replicate (initPageCount <<< p.customPageSizeLog2) 0
  ⟨fun _ => .outside, {
    heap := update (fun _ => none) 64 (some bytes)
    memoryBegin := 64
    memoryLength := bytes.length
    orderedMemoryLength := if p.sequentiallyConsistentSize then bytes.length else 0
    contents := bytes }⟩

end Uwvm2.Object.AllocatorMemory
