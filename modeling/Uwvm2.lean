import Uwvm2.Validation.Wasm1.Correctness
import Uwvm2.Validation.Wasm1p1.Correctness
import Uwvm2.Validation.Wasm3.Contexts
import Uwvm2.Validation.Wasm3.LocalDeclarations
import Uwvm2.Validation.Wasm3.GcDefinition
import Uwvm2.Validation.Wasm3.Identity
import Uwvm2.Wasi.FdTableRefinement
import Uwvm2.Checkpoint.ActivationChain
import Uwvm2.Loader.Cycles
import Uwvm2.Loader.ImportAliases
import Uwvm2.Parser.CustomSections
import Uwvm2.Storage.CompactCalls
import Uwvm2.Gc.AdmissionOutline
import Uwvm2.Object.MemoryGrowth
import Uwvm2.Thread.SnapshotHazards
import Uwvm2.Thread.WaitAccounting
import Uwvm2.Thread.ExecutionGenerations
import Uwvm2.Gc.CollectionSafety
import Uwvm2.Mutex.RwFlags
import Uwvm2.Storage.TokenIssue
import Uwvm2.Control.Frames
import Uwvm2.Control.SessionSafety
import Uwvm2.Storage.ArrayWindows
import Uwvm2.JitCache.StoreLaws
import Uwvm2.Compiler.LoopUnwind
