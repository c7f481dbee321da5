import Uwvm2.Lib.Check
import Uwvm2.Lib.Leb128
import Uwvm2.Parser.Utf8

/-!
# The section loop of the module parser

`wasm_binfmt_ver1_handle_func` with the section order of WebAssembly 1.1. A pointer
into the module is the rest of the module from there. The handlers of the standard
sections are a parameter: they are given the bytes of their section and what
earlier sections left, and see neither the custom sections nor the running order.
-/

namespace Uwvm2.Parser

/-- The ordering state shared by standard sections and recognised custom names. -/
structure MaxSectionIdMapSecId where
  maxSectionId : Nat := 0
  /-- The id of the section that set the maximum, for error messages. -/
  maxSectionIdMapSecId : UInt8 := 0
  deriving DecidableEq, Repr

structure CustomSection where
  secSpan : List UInt8
  customName : List UInt8
  customBegin : List UInt8
  deriving DecidableEq, Repr

structure ModuleStorage (σ : Type) where
  sections : σ
  customs : List CustomSection
  deriving DecidableEq, Repr

inductive WasmParseErrorCode (ε η : Type)
  | illegalWasmFileFormat
  | invalidSectionCanonicalOrder (secId maxSecId : UInt8)
  | invalidSectionLength (code : ε)
  | illegalSectionLength (secLen : Nat)
  | illegalSectionId (secId : UInt8)
  | invalidCustomNameLength (code : ε)
  | illegalCustomNameLength (nameLen : Nat)
  | invalidCharSequence (code : UtfErrorCode)
  | illegalCustomSectionOrder (customName : List UInt8) (customOrder wasmOrder : Nat)
      (wasmSec : UInt8)
  | standardSection (error : η)
  deriving DecidableEq, Repr

structure WasmParseError (ε η : Type) where
  errCurr : List UInt8
  errCode : WasmParseErrorCode ε η
  deriving DecidableEq, Repr

/-- The parts the section loop is compiled with: the third-party LEB128 scanner,
which is correct for the 32-bit encodings, the hash of custom names, and the
storage, handlers and final check of the standard sections. -/
structure Features (σ ε η : Type) where
  leb128Get : List UInt8 → Except ε (Nat × List UInt8)
  leb128Get_reads : Leb128.Reads (Leb128.Unsigned 32) leb128Get
  xxh3 : List UInt8 → Nat
  sections : σ
  handleSection : UInt8 → σ → List UInt8 → Except η σ
  finalCheck : σ → Except η Unit

-- Section order

/-- Indexed by section id; custom sections are free-positioned, the data count
section stands before code and the tag section before global. -/
def sectionIdSequentialMappingTable : List Nat := [0, 1, 2, 3, 4, 5, 7, 8, 9, 10, 12, 13, 11, 6]

def currOrderSecId (secId : UInt8) : Nat :=
  (sectionIdSequentialMappingTable[secId.toNat]?).getD 0

/-- An entry of the table of recognised custom names, empty by default. -/
structure HtEntry where
  name : List UInt8 := []
  order : Nat := 0
  deriving DecidableEq, Repr

def customNameOrder : Nat := 13 + 1

def nameName : List UInt8 := [0x6E, 0x61, 0x6D, 0x65]

def customSectionSequentialMappingTableEntries : List HtEntry := [⟨nameName, customNameOrder⟩]

def hashTableSize : Nat := 2 ^ 4

def generateCustomSectionSequentialMappingTable (xxh3 : List UInt8 → Nat)
    (entries : List HtEntry) : List HtEntry :=
  entries.foldl (fun ht entry => ht.set (xxh3 entry.name % hashTableSize) entry)
    (List.replicate hashTableSize {})

def findFromCustomSectionSequentialMappingTable (xxh3 : List UInt8 → Nat) (table : List HtEntry)
    (name : List UInt8) : Nat :=
  let htval := (table[xxh3 name % hashTableSize]?).getD {}
  if name = htval.name then htval.order else 0

variable {σ ε η : Type}

def customSectionOrder (f : Features σ ε η) (name : List UInt8) : Nat :=
  findFromCustomSectionSequentialMappingTable f.xxh3
    (generateCustomSectionSequentialMappingTable f.xxh3 customSectionSequentialMappingTableEntries)
    name

-- Handlers

def handleCustomSection (f : Features σ ε η) (storage : ModuleStorage σ) (span : List UInt8)
    (order : MaxSectionIdMapSecId) :
    Except (WasmParseError ε η) (ModuleStorage σ × MaxSectionIdMapSecId) := do
  let (nameLen, curr) ← (f.leb128Get span).mapError fun e => ⟨span, .invalidCustomNameLength e⟩
  ensure (nameLen ≤ curr.length) ⟨curr, .illegalCustomNameLength nameLen⟩
  let customName := curr.take nameLen
  let (utf8pos, utf8err) := checkLegalUtf8Unchecked .utf8Rfc3629 customName
  ensure (utf8err = .success) ⟨utf8pos ++ curr.drop nameLen, .invalidCharSequence utf8err⟩
  let currSectionOrder := customSectionOrder f customName
  let storage' :=
    { storage with customs := storage.customs ++ [⟨span, customName, curr.drop nameLen⟩] }
  if currSectionOrder ≠ 0 then
    ensure (order.maxSectionId ≤ currSectionOrder) ⟨curr, .illegalCustomSectionOrder customName
      currSectionOrder order.maxSectionId order.maxSectionIdMapSecId⟩
    return (storage', ⟨currSectionOrder, 0⟩)
  else return (storage', order)

/-- The handler of a section id. The feature set has one section for each id of the
order table, the custom section among them. -/
def handleAllBinfmtVer1ExtensibleSection (f : Features σ ε η) (storage : ModuleStorage σ)
    (secId : UInt8) (span : List UInt8) (order : MaxSectionIdMapSecId)
    (secIdModulePtr : List UInt8) :
    Except (WasmParseError ε η) (ModuleStorage σ × MaxSectionIdMapSecId) :=
  if secId = 0 then handleCustomSection f storage span order
  else if secId.toNat < sectionIdSequentialMappingTable.length then do
    let sections ← (f.handleSection secId storage.sections span).mapError
      fun e => ⟨secIdModulePtr, .standardSection e⟩
    return ({ storage with sections := sections }, order)
  else .error ⟨secIdModulePtr, .illegalSectionId secId⟩

def checkCanonicalOrder (order : MaxSectionIdMapSecId) (secId : UInt8) (curr : List UInt8) :
    Except (WasmParseError ε η) MaxSectionIdMapSecId :=
  if currOrderSecId secId ≠ 0 then do
    ensure (order.maxSectionId ≤ currOrderSecId secId)
      ⟨curr, .invalidSectionCanonicalOrder secId order.maxSectionIdMapSecId⟩
    return ⟨currOrderSecId secId, secId⟩
  else return order

theorem Features.leb128Get_length (f : Features σ ε η) (h : f.leb128Get bs = .ok (n, rest)) :
    rest.length < bs.length := by
  obtain ⟨a, rfl, ha⟩ := f.leb128Get_reads.sound h
  cases a with
  | nil => exact absurd ha Leb128.Unsigned.ne_nil
  | cons b a =>
    simp only [List.cons_append, List.length_cons, List.length_append]
    omega

def sectionLoop (f : Features σ ε η) (storage : ModuleStorage σ) (order : MaxSectionIdMapSecId)
    (moduleCurr : List UInt8) : Except (WasmParseError ε η) (ModuleStorage σ) :=
  match moduleCurr with
  | [] => .ok storage
  | secId :: curr => do
    let order ← checkCanonicalOrder order secId (secId :: curr)
    match h : f.leb128Get curr with
    | .error e => .error ⟨curr, .invalidSectionLength e⟩
    | .ok (secLen, sec) =>
      if sec.length < secLen then .error ⟨sec, .illegalSectionLength secLen⟩
      else
        have : sec.length < curr.length := f.leb128Get_length h
        let (storage, order) ← handleAllBinfmtVer1ExtensibleSection f storage secId
          (sec.take secLen) order (secId :: curr)
        sectionLoop f storage order (sec.drop secLen)
termination_by moduleCurr.length
decreasing_by
  simp only [List.length_drop, List.length_cons]
  omega

def wasmMagic : List UInt8 := [0x00, 0x61, 0x73, 0x6D]

def wasmBinfmtVer1HandleFunc (f : Features σ ε η) (module : List UInt8) :
    Except (WasmParseError ε η) (ModuleStorage σ) := do
  -- the version, the second half of the preamble, is looked at by the caller
  ensure (8 ≤ module.length ∧ module.take 4 = wasmMagic) ⟨module, .illegalWasmFileFormat⟩
  let storage ← sectionLoop f ⟨f.sections, []⟩ {} (module.drop 8)
  (f.finalCheck storage.sections).mapError fun e => ⟨[], .standardSection e⟩
  return storage

end Uwvm2.Parser
