import Uwvm2.Validation.Wasm1.Step
import Uwvm2.Validation.Wasm1.Strictness

/-!
# Validation of WebAssembly 1.0 function bodies

The validator accepts a body only if its bytes decode to well-typed code. It
accepts well-typed code unless a `br_table` in unreachable code takes an operand
of undetermined type.
-/

namespace Uwvm2.Validation.Wasm1

open StackTyping List

-- The environment of a parsed module

theorem toU32_of_lt (h : n < 2 ^ 32) : toU32 n = n := Nat.mod_eq_of_lt h

theorem toU32_add (h : a + b < 2 ^ 32) : toU32 (toU32 a + toU32 b) = a + b := by
  rw [toU32_of_lt (by omega : a < 2 ^ 32), toU32_of_lt (by omega : b < 2 ^ 32), toU32_of_lt h]

theorem getElem?_of_lt {α : Type} {as : List α} (h : x < as.length) (d : α) :
    as[x]? = some (as.getD x d) := by
  simp [h]

theorem getElem?_append_getD {α : Type} (as bs : List α) (d : α) (x : Nat) :
    (as ++ bs)[x]? = if x < as.length + bs.length then
      some (if x < as.length then as.getD x d else bs.getD (x - as.length) d) else none := by
  rw [getElem?_append]
  by_cases hx : x < as.length
  · simp [hx, Nat.lt_add_right]
  · by_cases hx' : x < as.length + bs.length
    · have hlt : x - as.length < bs.length := by omega
      simp [hx, hx', hlt]
    · have hle : bs.length ≤ x - as.length := by omega
      simp [hx, hx', hle]

theorem declared_length (parts : List LocalEntry) :
    (declared parts).length = (parts.map LocalEntry.count).sum := by
  simp [declared, length_flatMap]

theorem findLocal_eq (parts : List LocalEntry) (i : Nat) :
    findLocal parts i = (declared parts)[i]? := by
  induction parts generalizing i with
  | nil => rfl
  | cons part rest ih =>
    rw [findLocal, declared, flatMap_cons, getElem?_append, length_replicate]
    split
    case isTrue hi => simp [hi]
    case isFalse => exact ih _

theorem foldl_toU32 {parts : List LocalEntry} (h : n + (parts.map LocalEntry.count).sum < 2 ^ 32) :
    parts.foldl (fun n part => toU32 (n + part.count)) n =
      n + (parts.map LocalEntry.count).sum := by
  induction parts generalizing n with
  | nil => simp
  | cons part rest ih =>
    simp only [map_cons, sum_cons] at h ⊢
    rw [foldl_cons, toU32_of_lt (by omega), ih (by omega)]
    omega

theorem localType_ok {env : Env}
    (hfit : env.currFuncType.parameter.length + (env.currCodeLocals.map LocalEntry.count).sum <
      2 ^ 32) :
    localType env opBegin x = .ok t ↔
      (env.currFuncType.parameter ++ declared env.currCodeLocals)[x]? = some t := by
  have hparam : env.funcParameterCount = env.currFuncType.parameter.length :=
    toU32_of_lt (by omega)
  have hall : env.allLocalCount = env.currFuncType.parameter.length +
      (declared env.currCodeLocals).length := by
    rw [Env.allLocalCount, hparam, declared_length]
    exact foldl_toU32 hfit
  simp only [localType, bind_ok, ensure_ok, hall, hparam, findLocal_eq, getElem?_append]
  by_cases hx : x < env.currFuncType.parameter.length
  · simp [hx, Nat.lt_add_right]
  · simp only [hx, if_false]
    cases hd : (declared env.currCodeLocals)[x - env.currFuncType.parameter.length]? with
    | none => simp
    | some t' =>
      have hlt := (List.getElem?_eq_some_iff.mp hd).1
      have hlt' : x < env.currFuncType.parameter.length +
          (declared env.currCodeLocals).length := by omega
      simp [hlt']

theorem ParsedModule.envFor (m : ParsedModule) (hm : m.SingleResult) {leb : LebReader}
    (hleb : leb.Correct) (hi : i < m.funcs.length) (n : Nat) :
    EnvFor (.ofFunction leb m.toModuleStorage i n) (m.context i) := by
  have hfunc : m.funcs[i]? = some (m.funcs.getD i 0) := getElem?_of_lt hi 0
  have hlt : m.funcs.getD i 0 < m.types.length := m.funcs_lt _ (mem_of_getElem? hfunc)
  have htype := getElem?_of_lt hlt default
  constructor
  case leb => exact hleb
  case types => rfl
  case funcs =>
    intro x
    refine (getElem?_append_getD m.importedFunctions
      (m.funcs.map fun j => m.types.getD j default) default x).trans ?_
    rw [length_map]
    refine ite_congr rfl (fun hx => congrArg some ?_) fun _ => rfl
    refine ite_congr rfl (fun _ => rfl) fun hlocal => ?_
    have hx : x < m.importedFunctions.length + m.funcs.length := hx
    have hlocal : ¬ x < m.importedFunctions.length := hlocal
    have hidx : x - m.importedFunctions.length < m.funcs.length := by omega
    simp [hidx, Env.localFuncType, Env.ofFunction, Env.importFuncCount]
  case tables =>
    have hcount : Env.allTableCount (.ofFunction leb m.toModuleStorage i n) =
        m.importedTableCount + m.tableCount := toU32_add m.tables_fit
    rw [hcount]
    rfl
  case mems =>
    have hcount : Env.allMemoryCount (.ofFunction leb m.toModuleStorage i n) =
        m.importedMemoryCount + m.memoryCount := toU32_add m.memories_fit
    rw [hcount, Nat.ne_zero_iff_zero_lt]
    rfl
  case globals =>
    intro x
    have himported : Env.importedGlobalCount (.ofFunction leb m.toModuleStorage i n) =
        m.importedGlobals.length :=
      toU32_of_lt (Nat.lt_of_le_of_lt (Nat.le_add_right _ _) m.globals_fit)
    have hall : Env.allGlobalCount (.ofFunction leb m.toModuleStorage i n) =
        m.importedGlobals.length + m.localGlobals.length := toU32_add m.globals_fit
    simp only [globalAt, himported, hall]
    exact getElem?_append_getD m.importedGlobals m.localGlobals ⟨.i32, false⟩ x
  case locals =>
    intro opBegin x t
    have hcodes := getElem?_of_lt (m.codes_length ▸ hi : i < m.codes.length) []
    exact localType_ok (m.locals_fit _ _ _ _ hfunc htype hcodes)
  case result => exact hm _ (mem_append_left _ (mem_of_getElem? htype))
  case parameters =>
    intro t ht
    exact Nat.lt_of_lt_of_le (m.parameters_fit t (mem_append_left _ ht)) (by decide)

-- Soundness and completeness

theorem initialState_views (C : Context) (funcType : FunctionType) (h : funcType.result = C.return_)
    (code : List UInt8) : Views C (initialState funcType code) (.start C.return_.reverse) := by
  refine ⟨.func, ?_⟩
  simp [initialState, stateOf, Machine.start, blocks, blockOf, below, frameType, h]

section

variable {leb : LebReader} {i functionIndex : Nat} {code : List UInt8}

theorem validateCode_local (h : validateCode leb m functionIndex code = .ok ()) :
    ∃ i < m.funcs.length, functionIndex = m.importedFunctions.length + i := by
  simp only [validateCode, bind_ok, ensure_ok] at h
  obtain ⟨_, himported, _, hlocal, -⟩ := h
  exact ⟨_, hlocal, by omega⟩

theorem validateCode_eq (hi : i < m.funcs.length) :
    validateCode leb m (m.importedFunctions.length + i) code =
      StackTyping.loop (step (.ofFunction leb m i code.length))
        (errorAt (.ofFunction leb m i code.length) [] .missingEnd) (code.length + 1)
        (initialState (m.types.getD (m.funcs.getD i 0) default) code) := by
  simp only [validateCode, Nat.le_add_right, ensure_pos, ok_bind, Nat.add_sub_cancel_left, hi]
  rfl

variable (hleb : leb.Correct) (m : ParsedModule) (hm : m.SingleResult) (hi : i < m.funcs.length)

include hleb hm hi

theorem validateCode_returns :
    validateCode leb m.toModuleStorage (m.importedFunctions.length + i) code = .ok () ↔
      Returns (step (.ofFunction leb m.toModuleStorage i code.length))
        (initialState (m.types.getD (m.funcs.getD i 0) default) code) := by
  rw [validateCode_eq hi]
  exact (step_implements (m.envFor hm hleb hi code.length)).loop_ok_iff
    (initialState_views (m.context i) _ rfl code) (Nat.lt_succ_self _)

theorem validateCode_decodes
    (h : validateCode leb m.toModuleStorage (m.importedFunctions.length + i) code = .ok ()) :
    ∃ body, Decodes code body :=
  (step_implements (m.envFor hm hleb hi code.length)).returns_decodes
    (initialState_views (m.context i) _ rfl code) ((validateCode_returns hleb m hm hi).mp h)

theorem validateCode_checks (hbody : Decodes code body) :
    validateCode leb m.toModuleStorage (m.importedFunctions.length + i) code = .ok () ↔
      ∃ τ, (checker (m.context i) true).checkSeq [(m.context i).return_.reverse] body
          (.ofTypes []) = some τ ∧ τ.exits (m.context i).return_.reverse = true := by
  rw [validateCode_returns hleb m hm hi]
  exact (step_implements (m.envFor hm hleb hi code.length)).returns_iff_checked
    (initialState_views (m.context i) _ rfl code) hbody

end

/-- Accepted bytes are well-typed code of the function's declared type. -/
theorem validateCode_sound {leb : LebReader} (hleb : leb.Correct) (m : ParsedModule)
    (hm : m.SingleResult) {functionIndex : Nat} {code : List UInt8}
    (h : validateCode leb m.toModuleStorage functionIndex code = .ok ()) :
    ∃ body, Decodes code body ∧
      WellTyped m.toModuleStorage (functionIndex - m.importedFunctions.length) body := by
  obtain ⟨i, hi, rfl⟩ := validateCode_local h
  obtain ⟨body, hbody⟩ := validateCode_decodes hleb m hm hi h
  obtain ⟨τ, hτ, hex⟩ := (validateCode_checks hleb m hm hi hbody).mp h
  rw [Nat.add_sub_cancel_left]
  exact ⟨body, hbody, checker_sound.body hτ hex⟩

/-- A module with one function of type `[] → [i32]`. -/
def oneFunction : ParsedModule where
  importedFunctions := []
  importedTableCount := 0
  importedMemoryCount := 0
  importedGlobals := []
  types := [⟨[], [.i32]⟩]
  funcs := [0]
  tableCount := 0
  memoryCount := 0
  localGlobals := []
  codes := [[]]
  funcs_lt := by simp
  codes_length := rfl
  parameters_fit := by simp
  locals_fit i j locals t hi hj hl := by
    have ht := mem_of_getElem? hj
    have hlocals := mem_of_getElem? hl
    simp_all
  globals_fit := by decide
  tables_fit := by decide
  memories_fit := by decide

theorem oneFunction_singleResult : oneFunction.SingleResult := by
  simp [ModuleStorage.SingleResult, oneFunction]

/-- A loop in a block, left by a `br_table` with an operand for the block. The `drop` behind it
cannot be reached. -/
def nestedBody : List Instr :=
  [.block (some .i32)
    [.loop none [.plain (.i32Const 0), .plain (.i32Const 1), .plain (.brTable [1] 1), .plain .drop],
      .plain (.i32Const 2)]]

def nestedCode : List UInt8 :=
  [0x02, 0x7F, 0x03, 0x40, 0x41, 0x00, 0x41, 0x01, 0x0E, 0x01, 0x01, 0x01, 0x1A, 0x0B, 0x41, 0x02,
    0x0B, 0x0B]

theorem nestedCode_accepted :
    validateCode .reference oneFunction.toModuleStorage 0 nestedCode = .ok () := rfl

theorem validateCode_sound_nested :
    ∃ body, Decodes nestedCode body ∧ WellTyped oneFunction.toModuleStorage 0 body :=
  validateCode_sound LebReader.reference_correct oneFunction oneFunction_singleResult
    nestedCode_accepted

/-- Of the well-typed bodies of a defined function exactly those are accepted that have
no `br_table` whose operand is of undetermined type. -/
theorem validateCode_complete_iff {leb : LebReader} (hleb : leb.Correct) (m : ParsedModule)
    (hm : m.SingleResult) {i : Nat} (hi : i < m.funcs.length) {code : List UInt8}
    {body : List Instr} (hbody : Decodes code body) (ht : WellTyped m.toModuleStorage i body) :
    validateCode leb m.toModuleStorage (m.importedFunctions.length + i) code = .ok () ↔
      ¬ AmbiguousFrom (m.context i) [(m.context i).return_.reverse] [] body := by
  rw [validateCode_checks hleb m hm hi hbody]
  exact strict_body ht

/-- The operand of the `br_table` is an `i32`. -/
theorem validateCode_complete_nested :
    Decodes nestedCode nestedBody ∧ WellTyped oneFunction.toModuleStorage 0 nestedBody ∧
      ¬ AmbiguousFrom (oneFunction.context 0) [[.i32]] [] nestedBody := by
  have hconst (b : UInt8) (hb : b.toNat < 64) : PlainBytes (.i32Const b.toNat) [0x41, b] :=
    .i32Const (.nonneg hb (Nat.lt_trans hb (by decide)))
  have hone : U32 [0x01] 1 := .last (by decide) (by decide)
  have htable : PlainBytes (.brTable [1] 1) [0x0E, 0x01, 0x01, 0x01] :=
    .brTable hone (.cons hone .nil) hone
  have hloop := StackTyping.SeqBytes.plain (G := grammar) (hconst 0 (by decide))
    (.plain (hconst 1 (by decide)) (.plain htable (.plain .drop .nil)))
  have hbody : Decodes nestedCode nestedBody :=
    ⟨_, .block .i32 (.loop .empty hloop (.plain (hconst 2 (by decide)) .nil)) .nil, rfl⟩
  have hlax : (checker (oneFunction.context 0) false).Sound (rules (oneFunction.context 0)) :=
    checker_sound
  have htyped : WellTyped oneFunction.toModuleStorage 0 nestedBody := hlax.body rfl rfl
  exact ⟨hbody, htyped, (validateCode_complete_iff LebReader.reference_correct oneFunction
    oneFunction_singleResult (by decide) hbody htyped).mp nestedCode_accepted⟩

/-- `unreachable; select; i32.const 0; br_table 0` is well typed for `[] → [i32]`, and
the validator refuses the operand that `select` left. -/
theorem brTable_rejected : ∃ body, Decodes [0x00, 0x1B, 0x41, 0x00, 0x0E, 0x00, 0x00, 0x0B] body ∧
      WellTyped oneFunction.toModuleStorage 0 body ∧
      validateCode .reference oneFunction.toModuleStorage 0
          [0x00, 0x1B, 0x41, 0x00, 0x0E, 0x00, 0x00, 0x0B] =
        .error ⟨4, .brValueTypeMismatch "br_table" (some .i32) none, .invalid⟩ := by
  refine ⟨[.plain .unreachable, .plain .select, .plain (.i32Const 0), .plain (.brTable [] 0)],
    ?_, ?_, rfl⟩
  · have hzero : U32 [0x00] 0 := .last (by decide) (by decide)
    have hconst : PlainBytes (.i32Const 0) [0x41, 0x00] :=
      .i32Const (.nonneg (by decide) (by decide))
    have htable : PlainBytes (.brTable [] 0) [0x0E, 0x00, 0x00] := .brTable hzero .nil hzero
    exact ⟨_, .plain .unreachable (.plain .select (.plain hconst (.plain htable .nil))), rfl⟩
  · have hlax : (checker (oneFunction.context 0) false).Sound (rules (oneFunction.context 0)) :=
      checker_sound
    exact hlax.body rfl rfl

end Uwvm2.Validation.Wasm1
