import Uwvm2.Lib.Loop

/-!
# Cycles of the dependency graph

`detect_cycles` of `detect_cycle.h`: the module names become numbers, an iterative form of
Tarjan's algorithm finds the components, and in each component a search from every vertex
reports the cycles in which that vertex is the least. Vectors indexed by vertices are
functions, and a stack is a list whose head is its back. The hash `xxh3_64bits` over the
numbers of a cycle is a parameter.
-/

namespace Uwvm2.Loader

open Loop Function

def signedSizeMax : Nat := 2 ^ 63 - 1

/-- A map from the names of modules to the names they import, in the order of iteration. Its
size is that of a container in memory. -/
structure AdjacencyList (Name : Type) where
  entries : List (Name × List Name)
  nodup : (entries.map Prod.fst).Nodup
  size_le : entries.length ≤ signedSizeMax

inductive Warning
  | dependencyCount (count limit : Nat)
  | graphSize (size : Nat)
  | recursionDepth (limit v : Nat)
  | dfsRecursionDepth (limit v : Nat)
  deriving DecidableEq, Repr

structure Report (Name : Type) where
  cycles : List (List Name) := []
  warnings : List Warning := []

/-- `--wasm-depend-recursion-limit`, where 0 is no limit, and `depend_warning_fatal`. -/
structure Options where
  recursionDepthLimit : Nat
  warningFatal : Bool

def Options.exceeded (options : Options) (depth : Nat) : Bool :=
  options.recursionDepthLimit < depth && options.recursionDepthLimit ≠ 0

def Options.warn {Name : Type} (options : Options) (warning : Warning) (report : Report Name) :
    ExceptT Warning Option (Report Name) :=
  if options.warningFatal then throw warning
  else pure { report with warnings := report.warnings ++ [warning] }

-- The graph

namespace AdjacencyList

variable {Name : Type} [DecidableEq Name] (adjacency : AdjacencyList Name)

abbrev size : Nat := adjacency.entries.length

def idToName (id : Fin adjacency.size) : Name := (adjacency.entries.get id).1

def nameToId (name : Name) : Option (Fin adjacency.size) :=
  (List.finRange adjacency.size).find? fun id => adjacency.idToName id = name

/-- The imports of a module that are modules of the map. -/
def graph (id : Fin adjacency.size) : List (Fin adjacency.size) :=
  (adjacency.entries.get id).2.filterMap adjacency.nameToId

end AdjacencyList

section Vertices

variable {n : Nat} (graph : Fin n → List (Fin n)) (options : Options)

-- Tarjan's algorithm

structure StackFrame (n : Nat) where
  v : Fin n
  neighborIdx : Nat := 0
  isInitialCall : Bool := true
  depth : Nat

structure Tarjan (n : Nat) where
  index : Fin n → Int := fun _ => -1
  low : Fin n → Int := fun _ => 0
  onStack : Fin n → Bool := fun _ => false
  st : List (Fin n) := []
  dfsIdx : Nat := 0
  sccs : List (List (Fin n)) := []
  callStack : List (StackFrame n) := []

namespace Tarjan

variable (s : Tarjan n)

def discover (v : Fin n) : Tarjan n :=
  { s with
    index := update s.index v s.dfsIdx
    low := update s.low v s.dfsIdx
    dfsIdx := s.dfsIdx + 1
    st := v :: s.st
    onStack := update s.onStack v true }

def lower (v : Fin n) (bound : Int) : Tarjan n :=
  { s with low := update s.low v (min (s.low v) bound) }

/-- Pop the stack down to the vertex: what is popped, in this order, and what stays. -/
def popUntil (v : Fin n) : List (Fin n) → List (Fin n) × List (Fin n)
  | [] => ([], [])
  | w :: st => if w = v then ([w], st) else (w :: (popUntil v st).1, (popUntil v st).2)

def popComponent (v : Fin n) : Tarjan n :=
  { s with
    st := (popUntil v s.st).2
    onStack := fun w => s.onStack w && w ∉ (popUntil v s.st).1
    sccs := s.sccs ++ [(popUntil v s.st).1] }

def visitNeighbor (frame : StackFrame n) (rest : List (StackFrame n)) (w : Fin n) : Tarjan n :=
  let frame := { frame with neighborIdx := frame.neighborIdx + 1 }
  if s.index w = -1 then
    { s with callStack := { v := w, depth := frame.depth + 1 } :: frame :: rest }
  else if s.onStack w then { s.lower frame.v (s.index w) with callStack := frame :: rest }
  else { s with callStack := frame :: rest }

def finish (frame : StackFrame n) (rest : List (StackFrame n)) : Tarjan n :=
  let s := if s.low frame.v = s.index frame.v then s.popComponent frame.v else s
  let s := match rest with
    | [] => s
    | parentFrame :: _ => s.lower parentFrame.v (s.low frame.v)
  { s with callStack := rest }

def setUp : Tarjan n :=
  match s.callStack with
  | [] => s
  | frame :: rest =>
    if frame.isInitialCall then
      { s.discover frame.v with callStack := { frame with isInitialCall := false } :: rest }
    else s

def processNeighbors : Tarjan n :=
  match s.callStack with
  | [] => s
  | frame :: rest =>
    match (graph frame.v)[frame.neighborIdx]? with
    | some w => s.visitNeighbor frame rest w
    | none => s.finish frame rest

/-- One round; the vertex is the one at which the depth limit is exceeded. -/
def body : Except (Fin n) (Tarjan n) :=
  match s.callStack with
  | [] => .ok s
  | frame :: _ =>
    if options.exceeded frame.depth then .error frame.v else .ok (s.setUp.processNeighbors graph)

def running : Bool := !s.callStack.isEmpty

/-- The walk from a vertex that has not been visited. -/
def walk (fuel : Nat) (s : Tarjan n) (v : Fin n) : ExceptT (Fin n) Option (Tarjan n) :=
  if s.index v ≠ -1 then pure s
  else whileDo running (body graph options) fuel { s with callStack := [{ v := v, depth := 0 }] }

def run (fuel : Nat) : ExceptT (Fin n) Option (Tarjan n) :=
  (List.finRange n).foldlM (walk graph options fuel) {}

end Tarjan

-- The search for cycles

structure DfsStackFrame (n : Nat) where
  v : Fin n
  startId : Fin n
  neighborIdx : Nat := 0
  depth : Nat
  isInitialCall : Bool := true

structure Search (n : Nat) (Name : Type) where
  report : Report Name := {}
  seenSignatures : List UInt64 := []
  inScc : Fin n → Bool := fun _ => false
  onPath : Fin n → Bool := fun _ => false
  path : List (Fin n) := []
  dfsStack : List (DfsStackFrame n) := []

namespace Search

variable {Name : Type} (idToName : Fin n → Name) (signature : List Nat → UInt64) (s : Search n Name)

/-- A cycle goes to the result unless its signature has been seen. -/
def found (ids : List (Fin n)) : Search n Name :=
  let sig := signature (ids.map Fin.val)
  if sig ∈ s.seenSignatures then s
  else
    { s with
      seenSignatures := sig :: s.seenSignatures
      report := { s.report with cycles := s.report.cycles ++ [ids.map idToName] } }

def visitNeighbor (frame : DfsStackFrame n) (rest : List (DfsStackFrame n)) (w : Fin n) :
    Search n Name :=
  let frame := { frame with neighborIdx := frame.neighborIdx + 1 }
  let s := { s with dfsStack := frame :: rest }
  if !s.inScc w then s
  else if w < frame.startId then s
  else if w = frame.startId then s.found idToName signature (s.path ++ [frame.startId])
  else if !s.onPath w then
    { s with dfsStack :=
        { v := w, startId := frame.startId, depth := frame.depth + 1 } :: frame :: rest }
  else s

def finish (frame : DfsStackFrame n) (rest : List (DfsStackFrame n)) : Search n Name :=
  { s with
    path := s.path.dropLast
    onPath := update s.onPath frame.v false
    dfsStack := rest }

def setUp : Search n Name :=
  match s.dfsStack with
  | [] => s
  | frame :: rest =>
    if frame.isInitialCall then
      { s with
        onPath := update s.onPath frame.v true
        path := s.path ++ [frame.v]
        dfsStack := { frame with isInitialCall := false } :: rest }
    else s

def processNeighbors : Search n Name :=
  match s.dfsStack with
  | [] => s
  | frame :: rest =>
    match (graph frame.v)[frame.neighborIdx]? with
    | some w => s.visitNeighbor idToName signature frame rest w
    | none => s.finish frame rest

/-- One round; the vertex is the one at which the depth limit is exceeded. -/
def body : Except (Fin n × Search n Name) (Search n Name) :=
  match s.dfsStack with
  | [] => .ok s
  | frame :: _ =>
    if options.exceeded frame.depth then .error (frame.v, s)
    else .ok (s.setUp.processNeighbors graph idToName signature)

def running : Bool := !s.dfsStack.isEmpty

def start (comp : List (Fin n)) (startId : Fin n) : Search n Name :=
  { s with
    onPath := fun v => s.onPath v && v ∉ comp
    path := []
    dfsStack := [{ v := startId, startId := startId, depth := 0 }] }

def abort (v : Fin n) : ExceptT Warning Option (Search n Name) := do
  let report ← options.warn (.dfsRecursionDepth options.recursionDepthLimit v) s.report
  pure { s with
    report := report, onPath := fun v => s.onPath v && v ∉ s.path, path := [], dfsStack := [] }

def searchFrom (comp : List (Fin n)) (fuel : Nat) :
    List (Fin n) → Search n Name → ExceptT Warning Option (Search n Name)
  | [], s => pure s
  | startId :: rest, s => do
    match ← (whileDo running (body graph options idToName signature) fuel
      (s.start comp startId)).run with
    | .ok s => searchFrom comp fuel rest s
    | .error (v, s) => s.abort options v

def component (fuel : Nat) (s : Search n Name) (comp : List (Fin n)) :
    ExceptT Warning Option (Search n Name) :=
  match comp with
  | [u] => if u ∈ graph u then pure (s.found idToName signature [u, u]) else pure s
  | comp => do
    let s ← searchFrom graph options idToName signature comp fuel comp
      { s with inScc := fun v => s.inScc v || v ∈ comp }
    pure { s with inScc := fun v => s.inScc v && v ∉ comp }

end Search

end Vertices

/-- `detect_cycles`, with at most `fuel` rounds for each of its loops. -/
def detectCycles {Name : Type} [DecidableEq Name] (options : Options)
    (signature : List Nat → UInt64)
    (adjacency : AdjacencyList Name) (fuel : Nat) : ExceptT Warning Option (Report Name) := do
  if adjacency.entries.isEmpty then pure {}
  else if options.exceeded adjacency.size then
    options.warn (.dependencyCount adjacency.size options.recursionDepthLimit) {}
  else if signedSizeMax < adjacency.size then options.warn (.graphSize adjacency.size) {}
  else
    match ← (Tarjan.run adjacency.graph options fuel).run with
    | .error v => options.warn (.recursionDepth options.recursionDepthLimit v) {}
    | .ok tarjan =>
      let s ← tarjan.sccs.foldlM
        (Search.component adjacency.graph options adjacency.idToName signature fuel) {}
      pure s.report

end Uwvm2.Loader
