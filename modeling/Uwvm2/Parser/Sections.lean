import Uwvm2.Parser.Handler

/-!
# What the section loop accepts

A module is a preamble and a sequence of framed sections. The loop accepts it
exactly when every section is legal, the sections that have an order stand in that
order, and the standard sections decode one after the other.
-/

namespace Uwvm2.Parser

open List

variable {σ ε η : Type}

/-- A section as it stands in a module: its id, its size and its contents. -/
structure RawSection where
  id : UInt8
  size : List UInt8
  payload : List UInt8
  size_encodes : Leb128.Unsigned 32 size payload.length

def RawSection.bytes (s : RawSection) : List UInt8 := s.id :: (s.size ++ s.payload)

/-- The contents of a custom section: the size of its name, the name, then anything. -/
inductive CustomPayload (name : List UInt8) : List UInt8 → Prop
  | intro (size data : List UInt8) : Leb128.Unsigned 32 size name.length → Utf8.Valid name →
      CustomPayload name (size ++ (name ++ data))

def Features.splitCustom (f : Features σ ε η) (payload : List UInt8) : List UInt8 × List UInt8 :=
  match f.leb128Get payload with
  | .ok (nameLen, curr) => (curr.take nameLen, curr.drop nameLen)
  | .error _ => ([], [])

theorem CustomPayload.leb128Get (f : Features σ ε η) (h : CustomPayload name payload) :
    ∃ data, f.leb128Get payload = .ok (name.length, name ++ data) := by
  obtain ⟨_, _, hsize, _⟩ := h
  exact ⟨_, f.leb128Get_reads.complete hsize⟩

theorem CustomPayload.splitCustom (f : Features σ ε η) (h : CustomPayload name payload) :
    (f.splitCustom payload).1 = name := by
  obtain ⟨data, hdata⟩ := h.leb128Get f
  simp [Features.splitCustom, hdata]

-- Orders

theorem customSectionOrder_eq (f : Features σ ε η) (name : List UInt8) :
    customSectionOrder f name = if name = nameName then customNameOrder else 0 := by
  have hlt (name : List UInt8) : f.xxh3 name % hashTableSize < hashTableSize :=
    Nat.mod_lt _ (by decide)
  simp only [customSectionOrder, findFromCustomSectionSequentialMappingTable,
    generateCustomSectionSequentialMappingTable, customSectionSequentialMappingTableEntries,
    foldl_cons, foldl_nil, getElem?_set, length_replicate]
  by_cases hname : name = nameName
  · subst hname
    simp [hlt]
  · split
    · simp [hname, hlt]
    · simp [hlt]

/-- The place of a section in the canonical order; zero for a section that may stand
anywhere. -/
def RawSection.order (f : Features σ ε η) (s : RawSection) : Nat :=
  if s.id = 0 then customSectionOrder f (f.splitCustom s.payload).1 else currOrderSecId s.id

def InOrder (f : Features σ ε η) (s t : RawSection) : Prop :=
  s.order f ≠ 0 → t.order f ≠ 0 → s.order f ≤ t.order f

theorem currOrderSecId_lt (secId : UInt8) : currOrderSecId secId < customNameOrder := by
  have hall : ∀ o ∈ sectionIdSequentialMappingTable, o < customNameOrder := by decide
  unfold currOrderSecId
  cases h : sectionIdSequentialMappingTable[secId.toNat]? with
  | none => decide
  | some o => exact hall o (mem_of_getElem? h)

theorem currOrderSecId_ne_zero (h : secId ≠ 0)
    (hlt : secId.toNat < sectionIdSequentialMappingTable.length) : currOrderSecId secId ≠ 0 := by
  have hall : ∀ i : Fin 14, i ≠ 0 → (sectionIdSequentialMappingTable[i.val]?).getD 0 ≠ 0 := by
    decide
  refine hall ⟨secId.toNat, hlt⟩ fun h0 => h (UInt8.toNat_inj.mp ?_)
  exact (congrArg Fin.val h0 : secId.toNat = 0)

-- One section

/-- The id is known, and a custom section holds a name. -/
def RawSection.Legal (s : RawSection) : Prop :=
  s.id.toNat < sectionIdSequentialMappingTable.length ∧
    (s.id = 0 → ∃ name, CustomPayload name s.payload)

/-- Decode a standard section; custom sections decode to nothing. -/
def Features.decode (f : Features σ ε η) (sections : σ) (s : RawSection) : Except η σ :=
  if s.id = 0 then .ok sections else f.handleSection s.id sections s.payload

def Features.customs (f : Features σ ε η) (s : RawSection) : List CustomSection :=
  if s.id = 0 then
    [⟨s.payload, (f.splitCustom s.payload).1, (f.splitCustom s.payload).2⟩]
  else []

def RawSection.nextOrder (f : Features σ ε η) (s : RawSection) (order : MaxSectionIdMapSecId) :
    MaxSectionIdMapSecId :=
  if s.order f = 0 then order else ⟨s.order f, s.id⟩

/-- What one section has to be after the sections that gave `storage` and `order`. -/
@[mk_iff]
structure Passes (f : Features σ ε η) (s : RawSection) (storage : ModuleStorage σ)
    (order : MaxSectionIdMapSecId) (storage' : ModuleStorage σ)
    (order' : MaxSectionIdMapSecId) : Prop where
  legal : s.Legal
  ordered : s.order f ≠ 0 → order.maxSectionId ≤ s.order f
  decoded : f.decode storage.sections s = .ok storage'.sections
  customs : storage'.customs = storage.customs ++ f.customs s
  order : order' = s.nextOrder f order

theorem exists_customPayload_iff (f : Features σ ε η)
    (h : f.leb128Get payload = .ok (nameLen, curr)) :
    (∃ name, CustomPayload name payload) ↔
      nameLen ≤ curr.length ∧
        (checkLegalUtf8Unchecked .utf8Rfc3629 (curr.take nameLen)).2 = .success := by
  rw [checkLegalUtf8Unchecked_success]
  constructor
  · rintro ⟨name, ⟨_, _, hsize, hvalid⟩⟩
    rw [f.leb128Get_reads.complete hsize] at h
    cases h
    simpa using hvalid
  · rintro ⟨hle, hvalid⟩
    obtain ⟨size, rfl, hsize⟩ := f.leb128Get_reads.sound h
    refine ⟨curr.take nameLen, ?_⟩
    have hlen : (curr.take nameLen).length = nameLen := length_take_of_le hle
    have := CustomPayload.intro size (curr.drop nameLen) (hlen.symm ▸ hsize) hvalid
    rwa [take_append_drop] at this

theorem handleCustomSection_ok (f : Features σ ε η) (hs : s.id = 0) :
    handleCustomSection f storage s.payload order = .ok (storage', order') ↔
      Passes f s storage order storage' order' := by
  unfold handleCustomSection
  cases h : f.leb128Get s.payload with
  | error e =>
    simp only [Except.mapError, error_bind]
    refine iff_of_false (by simp) fun hp => ?_
    obtain ⟨name, hname⟩ := hp.legal.2 hs
    obtain ⟨data, hdata⟩ := hname.leb128Get f
    cases h.symm.trans hdata
  | ok r =>
    obtain ⟨nameLen, curr⟩ := r
    have horder : s.order f = customSectionOrder f (curr.take nameLen) := by
      simp [RawSection.order, hs, Features.splitCustom, h]
    have hcustoms : f.customs s = [⟨s.payload, curr.take nameLen, curr.drop nameLen⟩] := by
      simp [Features.customs, hs, Features.splitCustom, h]
    have hlegal : s.Legal ↔ nameLen ≤ curr.length ∧
        (checkLegalUtf8Unchecked .utf8Rfc3629 (curr.take nameLen)).2 = .success := by
      simp [RawSection.Legal, hs, exists_customPayload_iff f h, sectionIdSequentialMappingTable]
    have hdecode : f.decode storage.sections s = .ok storage.sections := if_pos hs
    obtain ⟨sections', customs'⟩ := storage'
    rw [passes_iff, hlegal, horder, hcustoms, hdecode, RawSection.nextOrder, horder, hs]
    simp only [Except.mapError, ok_bind, bind_ok, ensure_ok]
    by_cases h0 : customSectionOrder f (curr.take nameLen) = 0
    · simp only [h0, ne_eq, not_true_eq_false, if_false, if_true, pure_ok, Prod.mk.injEq,
        ModuleStorage.mk.injEq, exists_const]
      constructor
      · rintro ⟨hle, hutf8, ⟨rfl, rfl⟩, rfl⟩
        exact ⟨⟨hle, hutf8⟩, False.elim, rfl, rfl, rfl⟩
      · rintro ⟨⟨hle, hutf8⟩, _, hsections, rfl, rfl⟩
        exact ⟨hle, hutf8, ⟨Except.ok.inj hsections, rfl⟩, rfl⟩
    · simp only [h0, ne_eq, not_false_eq_true, if_false, if_true, bind_ok, ensure_ok, pure_ok,
        Prod.mk.injEq, ModuleStorage.mk.injEq, exists_const, forall_const]
      constructor
      · rintro ⟨hle, hutf8, hmax, ⟨rfl, rfl⟩, rfl⟩
        exact ⟨⟨hle, hutf8⟩, hmax, rfl, rfl, rfl⟩
      · rintro ⟨⟨hle, hutf8⟩, hmax, hsections, rfl, rfl⟩
        exact ⟨hle, hutf8, hmax, ⟨Except.ok.inj hsections, rfl⟩, rfl⟩

def handleOne (f : Features σ ε η) (s : RawSection) (storage : ModuleStorage σ)
    (order : MaxSectionIdMapSecId) (ptr : List UInt8) :
    Except (WasmParseError ε η) (ModuleStorage σ × MaxSectionIdMapSecId) := do
  let order ← checkCanonicalOrder order s.id ptr
  handleAllBinfmtVer1ExtensibleSection f storage s.id s.payload order ptr

theorem handleOne_ok (f : Features σ ε η) :
    handleOne f s storage order ptr = .ok (storage', order') ↔
      Passes f s storage order storage' order' := by
  unfold handleOne checkCanonicalOrder handleAllBinfmtVer1ExtensibleSection
  by_cases hs : s.id = 0
  · have h0 : currOrderSecId s.id = 0 := by rw [hs]; rfl
    rw [if_neg (not_not.mpr h0), pure_bind, if_pos hs]
    exact handleCustomSection_ok f hs
  · have horder : s.order f = currOrderSecId s.id := if_neg hs
    have hcustoms : f.customs s = [] := if_neg hs
    have hdecode : f.decode storage.sections s =
      f.handleSection s.id storage.sections s.payload := if_neg hs
    rw [passes_iff, horder, hcustoms, hdecode, RawSection.nextOrder, horder, append_nil]
    simp only [hs, if_false]
    by_cases hlt : s.id.toNat < sectionIdSequentialMappingTable.length
    · have h0 : currOrderSecId s.id ≠ 0 := currOrderSecId_ne_zero hs hlt
      have hlegal : s.Legal := ⟨hlt, fun h => absurd h hs⟩
      obtain ⟨sections', customs'⟩ := storage'
      simp only [h0, ne_eq, not_false_eq_true, if_true, if_false, hlt, bind_ok, ensure_ok, pure_ok,
        mapError_ok, Prod.mk.injEq, ModuleStorage.mk.injEq, hlegal, true_and, forall_const]
      constructor
      · rintro ⟨_, ⟨_, hmax, rfl⟩, sections, hsections, ⟨rfl, rfl⟩, rfl⟩
        exact ⟨hmax, hsections, rfl, rfl⟩
      · rintro ⟨hmax, hsections, rfl, rfl⟩
        exact ⟨_, ⟨(), hmax, rfl⟩, sections', hsections, ⟨rfl, rfl⟩, rfl⟩
    · refine iff_of_false ?_ fun h => hlt h.1.1
      simp [hlt]

theorem sectionLoop_section (f : Features σ ε η) (s : RawSection) (rest : List UInt8)
    (storage : ModuleStorage σ) (order : MaxSectionIdMapSecId) :
    sectionLoop f storage order (s.bytes ++ rest) =
      handleOne f s storage order (s.bytes ++ rest) >>= fun r => sectionLoop f r.1 r.2 rest := by
  have hget : f.leb128Get (s.size ++ (s.payload ++ rest)) =
    .ok (s.payload.length, s.payload ++ rest) := f.leb128Get_reads.complete s.size_encodes
  have hbytes : s.bytes ++ rest = s.id :: (s.size ++ (s.payload ++ rest)) := by
    simp [RawSection.bytes]
  rw [hbytes, sectionLoop, handleOne, bind_assoc]
  refine bind_congr fun order => ?_
  split
  case h_1 e he => cases he.symm.trans hget
  case h_2 secLen sec hsec =>
    cases hsec.symm.trans hget
    simp

-- Whole modules

structure Accepts (f : Features σ ε η) (secs : List RawSection) (storage : ModuleStorage σ)
    (max : Nat) (storage' : ModuleStorage σ) : Prop where
  legal : ∀ s ∈ secs, s.Legal
  bounded : ∀ s ∈ secs, s.order f ≠ 0 → max ≤ s.order f
  ordered : secs.Pairwise (InOrder f)
  decoded : secs.foldlM f.decode storage.sections = .ok storage'.sections
  customs : storage'.customs = storage.customs ++ secs.flatMap f.customs

theorem Accepts.nil {max : Nat} : Accepts f [] storage max storage' ↔ storage = storage' := by
  constructor
  · intro h
    obtain ⟨sections, customs⟩ := storage
    obtain ⟨sections', customs'⟩ := storage'
    cases Except.ok.inj h.decoded
    have := h.customs
    simp_all
  · rintro rfl
    exact ⟨nofun, nofun, .nil, rfl, by simp⟩

/-- The maximum that a section leaves bounds the sections after it exactly when they
may stand after it and after everything before. -/
theorem nextOrder_le_iff (hs : s.order f ≠ 0 → order.maxSectionId ≤ s.order f) :
    (t.order f ≠ 0 → (s.nextOrder f order).maxSectionId ≤ t.order f) ↔
      (t.order f ≠ 0 → order.maxSectionId ≤ t.order f) ∧ InOrder f s t := by
  unfold RawSection.nextOrder InOrder
  split
  · next h0 => simp [h0]
  · next h0 =>
    have := hs h0
    constructor
    · exact fun h => ⟨fun ht => this.trans (h ht), fun _ => h⟩
    · exact fun h => h.2 h0

theorem Accepts.cons : Accepts f (s :: secs) storage order.maxSectionId storage' ↔
      ∃ storage₁ order₁, Passes f s storage order storage₁ order₁ ∧
        Accepts f secs storage₁ order₁.maxSectionId storage' := by
  constructor
  · intro h
    have hdecoded := h.decoded
    rw [foldlM_cons, bind_ok] at hdecoded
    obtain ⟨sections, hs, hsecs⟩ := hdecoded
    have hordered := pairwise_cons.mp h.ordered
    have hbound := h.bounded s mem_cons_self
    refine ⟨⟨sections, storage.customs ++ f.customs s⟩, s.nextOrder f order,
      ⟨h.legal s mem_cons_self, hbound, hs, rfl, rfl⟩, ?_, ?_, hordered.2, hsecs, ?_⟩
    · exact fun t ht => h.legal t (mem_cons_of_mem _ ht)
    · exact fun t ht => (nextOrder_le_iff hbound).mpr
        ⟨h.bounded t (mem_cons_of_mem _ ht), hordered.1 t ht⟩
    · rw [h.customs, flatMap_cons, append_assoc]
  · rintro ⟨storage₁, _, hs, h⟩
    obtain rfl := hs.order
    have hnext (t : RawSection) (ht : t ∈ secs) := (nextOrder_le_iff hs.ordered).mp (h.bounded t ht)
    refine ⟨forall_mem_cons.mpr ⟨hs.legal, h.legal⟩, ?_, ?_, ?_, ?_⟩
    · exact forall_mem_cons.mpr ⟨hs.ordered, fun t ht => (hnext t ht).1⟩
    · exact pairwise_cons.mpr ⟨fun t ht => (hnext t ht).2, h.ordered⟩
    · rw [foldlM_cons, hs.decoded]
      exact h.decoded
    · rw [h.customs, hs.customs, flatMap_cons, append_assoc]

theorem sectionLoop_ok (f : Features σ ε η) {order : MaxSectionIdMapSecId} :
    sectionLoop f storage order (secs.flatMap RawSection.bytes) = .ok storage' ↔
      Accepts f secs storage order.maxSectionId storage' := by
  induction secs generalizing storage order with
  | nil =>
    rw [flatMap_nil, sectionLoop, Accepts.nil]
    simp
  | cons s secs ih =>
    rw [flatMap_cons, sectionLoop_section, bind_ok, Accepts.cons]
    simp only [Prod.exists, ih, handleOne_ok]

theorem exists_sections (f : Features σ ε η) (h : sectionLoop f storage order curr = .ok storage') :
    ∃ secs : List RawSection, curr = secs.flatMap RawSection.bytes := by
  induction hn : curr.length using Nat.strong_induction_on generalizing curr storage order with
  | _ n ih =>
    cases curr with
    | nil => exact ⟨[], rfl⟩
    | cons secId curr =>
      rw [sectionLoop, bind_ok] at h
      obtain ⟨order₁, _, h⟩ := h
      split at h
      case h_1 => cases h
      case h_2 secLen sec hsec =>
        split at h
        case isTrue => cases h
        case isFalse hle =>
          obtain ⟨⟨storage₂, order₂⟩, _, hrest⟩ := bind_ok.mp h
          have hlen := f.leb128Get_length hsec
          obtain ⟨size, rfl, hsize⟩ := f.leb128Get_reads.sound hsec
          obtain ⟨secs, hsecs⟩ := ih _ (by
            rw [← hn, length_drop, length_cons]
            omega) hrest rfl
          have htake : (sec.take secLen).length = secLen := length_take_of_le (by omega)
          refine ⟨⟨secId, size, sec.take secLen, htake.symm ▸ hsize⟩ :: secs, ?_⟩
          rw [flatMap_cons, ← hsecs]
          simp [RawSection.bytes]

def moduleBytes (preamble : List UInt8) (secs : List RawSection) : List UInt8 :=
  preamble ++ secs.flatMap RawSection.bytes

theorem wasmBinfmtVer1HandleFunc_ok (f : Features σ ε η) (hlen : preamble.length = 8) :
    wasmBinfmtVer1HandleFunc f (moduleBytes preamble secs) = .ok storage ↔
      preamble.take 4 = wasmMagic ∧ Accepts f secs ⟨f.sections, []⟩ 0 storage ∧
        f.finalCheck storage.sections = .ok () := by
  have hdrop : (moduleBytes preamble secs).drop 8 = secs.flatMap RawSection.bytes := by
    rw [moduleBytes, ← hlen, drop_left]
  have htake : (moduleBytes preamble secs).take 4 = preamble.take 4 := by
    rw [moduleBytes, take_append_of_le_length (by omega)]
  have hle : 8 ≤ (moduleBytes preamble secs).length := by
    rw [moduleBytes, length_append]
    omega
  simp only [wasmBinfmtVer1HandleFunc, bind_ok, ensure_ok, mapError_ok, pure_ok, hdrop, htake, hle,
    true_and, sectionLoop_ok f]
  constructor
  · rintro ⟨_, hmagic, _, haccepts, _, hfinal, rfl⟩
    exact ⟨hmagic, haccepts, hfinal⟩
  · rintro ⟨hmagic, haccepts, hfinal⟩
    exact ⟨(), hmagic, storage, haccepts, (), hfinal, rfl⟩

theorem exists_moduleBytes (f : Features σ ε η)
    (h : wasmBinfmtVer1HandleFunc f module = .ok storage) :
    ∃ preamble secs, preamble.length = 8 ∧ module = moduleBytes preamble secs := by
  simp only [wasmBinfmtVer1HandleFunc, bind_ok, ensure_ok] at h
  obtain ⟨_, ⟨hlen, _⟩, _, hloop, _⟩ := h
  obtain ⟨secs, hsecs⟩ := exists_sections f hloop
  refine ⟨module.take 8, secs, length_take_of_le hlen, ?_⟩
  rw [moduleBytes, ← hsecs, take_append_drop]

end Uwvm2.Parser
