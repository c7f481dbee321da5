import Uwvm2.Parser.Sections

/-!
# Custom sections do not change a module

Custom sections can be removed from a module, and put into it, without changing
what the standard sections decode to. The one exception is the place of sections
named `name`, which have an order after all standard sections.
-/

namespace Uwvm2.Parser

open List

variable {σ ε η : Type}

/-- `l'` is `l` with elements that satisfy `P` put in anywhere. -/
inductive Inserts {α : Type} (P : α → Prop) : List α → List α → Prop
  | nil : Inserts P [] []
  | keep : Inserts P l l' → Inserts P (a :: l) (a :: l')
  | insert : P a → Inserts P l l' → Inserts P l (a :: l')

section

variable {α : Type} {P : α → Prop} {l l' : List α} (h : Inserts P l l')

include h

theorem Inserts.sublist : l.Sublist l' := by
  induction h with
  | nil => exact .slnil
  | keep _ ih => exact ih.cons_cons _
  | insert _ _ ih => exact ih.cons _

theorem Inserts.mem_or : ∀ a ∈ l', a ∈ l ∨ P a := by
  induction h with
  | nil => simp
  | keep _ ih => exact forall_mem_cons.mpr ⟨.inl mem_cons_self, fun b hb =>
      (ih b hb).imp_left (mem_cons_of_mem _)⟩
  | insert ha _ ih => exact forall_mem_cons.mpr ⟨.inr ha, ih⟩

theorem Inserts.filter_eq (hq : ∀ a, P a → q a = false) : l'.filter q = l.filter q := by
  induction h with
  | nil => rfl
  | keep _ ih => rw [filter_cons, filter_cons, ih]
  | insert ha _ ih => rw [filter_cons, hq _ ha, if_neg Bool.false_ne_true, ih]

end

def RawSection.Custom (s : RawSection) : Prop := s.id = 0 ∧ ∃ name, CustomPayload name s.payload

def RawSection.Name (s : RawSection) : Prop := s.id = 0 ∧ CustomPayload nameName s.payload

/-- Only custom sections stand after a section named `name`. -/
def NamesLast (secs : List RawSection) : Prop := secs.Pairwise fun s t => s.Name → t.id = 0

theorem RawSection.Custom.legal {s : RawSection} (h : s.Custom) : s.Legal :=
  ⟨by rw [h.1]; decide, fun _ => h.2⟩

theorem RawSection.Name.order {s : RawSection} (f : Features σ ε η) (h : s.Name) :
    s.order f = customNameOrder := by
  rw [RawSection.order, if_pos h.1, h.2.splitCustom, customSectionOrder_eq, if_pos rfl]

theorem RawSection.order_custom {s : RawSection} (f : Features σ ε η) (hs : s.id = 0)
    (hl : s.Legal) (h0 : s.order f ≠ 0) : s.Name := by
  obtain ⟨name, hname⟩ := hl.2 hs
  rw [RawSection.order, if_pos hs, hname.splitCustom, customSectionOrder_eq] at h0
  split at h0
  · next heq => exact ⟨hs, heq ▸ hname⟩
  · exact absurd rfl h0

theorem RawSection.order_standard {s : RawSection} (f : Features σ ε η) (hs : s.id ≠ 0) :
    s.order f < customNameOrder := by
  rw [RawSection.order, if_neg hs]
  exact currOrderSecId_lt s.id

theorem RawSection.order_standard_ne_zero {s : RawSection} (f : Features σ ε η) (hs : s.id ≠ 0)
    (hl : s.Legal) : s.order f ≠ 0 := by
  rw [RawSection.order, if_neg hs]
  exact currOrderSecId_ne_zero hs hl.1

def RawSection.isStandard (s : RawSection) : Bool := s.id ≠ 0

theorem foldlM_decode (f : Features σ ε η) (secs : List RawSection) (sections : σ) :
    secs.foldlM f.decode sections = (secs.filter RawSection.isStandard).foldlM
      f.decode sections := by
  induction secs generalizing sections with
  | nil => rfl
  | cons s secs ih =>
    by_cases hs : s.id = 0
    · have hstd : s.isStandard = false := by simp [RawSection.isStandard, hs]
      rw [foldlM_cons, filter_cons, hstd, Features.decode, if_pos hs, ok_bind, ih,
        if_neg Bool.false_ne_true]
    · have hstd : s.isStandard = true := by simp [RawSection.isStandard, hs]
      rw [filter_cons, hstd, if_pos rfl, foldlM_cons, foldlM_cons]
      exact bind_congr ih

/-- Legal sections stand in order exactly when the standard ones do and none of them
stands after a section named `name`. -/
theorem pairwise_inOrder_iff (f : Features σ ε η) {secs : List RawSection}
    (hl : ∀ s ∈ secs, s.Legal) :
    secs.Pairwise (InOrder f) ↔
      (secs.filter RawSection.isStandard).Pairwise (InOrder f) ∧ NamesLast secs := by
  rw [pairwise_filter, NamesLast, ← pairwise_and_iff]
  refine List.Pairwise.iff_of_mem fun {s t} hs ht => ?_
  simp only [RawSection.isStandard, ne_eq, decide_not, Bool.not_eq_eq_eq_not, Bool.not_true,
    decide_eq_false_iff_not]
  constructor
  · intro h
    refine ⟨fun _ _ => h, fun hname => ?_⟩
    by_contra htid
    have hle := h (by rw [hname.order]; decide) (t.order_standard_ne_zero f htid (hl t ht))
    rw [hname.order] at hle
    exact absurd (t.order_standard f htid) (by omega)
  · rintro ⟨hstd, hlast⟩ hs0 ht0
    by_cases hsid : s.id = 0
    · have hname := s.order_custom f hsid (hl s hs) hs0
      have htname := t.order_custom f (hlast hname) (hl t ht) ht0
      rw [hname.order, htname.order]
    · by_cases htid : t.id = 0
      · rw [(t.order_custom f htid (hl t ht) ht0).order]
        exact Nat.le_of_lt (s.order_standard f hsid)
      · exact hstd hsid htid hs0 ht0

theorem exists_accepted_iff (f : Features σ ε η) (hlen : preamble.length = 8) {sections : σ} :
    (∃ storage, wasmBinfmtVer1HandleFunc f (moduleBytes preamble secs) = .ok storage ∧
        storage.sections = sections) ↔
      preamble.take 4 = wasmMagic ∧ (∀ s ∈ secs, s.Legal) ∧ secs.Pairwise (InOrder f) ∧
        (secs.filter RawSection.isStandard).foldlM f.decode f.sections = .ok sections ∧
        f.finalCheck sections = .ok () := by
  simp only [wasmBinfmtVer1HandleFunc_ok f hlen, ← foldlM_decode]
  constructor
  · rintro ⟨storage, ⟨hmagic, h, hfinal⟩, rfl⟩
    exact ⟨hmagic, h.legal, h.ordered, h.decoded, hfinal⟩
  · rintro ⟨hmagic, hlegal, hordered, hdecoded, hfinal⟩
    exact ⟨⟨sections, secs.flatMap f.customs⟩,
      ⟨hmagic, ⟨hlegal, fun _ _ _ => Nat.zero_le _, hordered, hdecoded, rfl⟩, hfinal⟩, rfl⟩

/-- Custom sections put into a module keep it accepted exactly when no section named
`name` comes to stand before a standard section; removing custom sections always
keeps it accepted. The standard sections decode to the same contents. -/
theorem wasmBinfmtVer1HandleFunc_customSections (f : Features σ ε η) {module : List UInt8}
    {storage : ModuleStorage σ} (h : wasmBinfmtVer1HandleFunc f module = .ok storage) :
    (∃ preamble secs, preamble.length = 8 ∧ module = moduleBytes preamble secs) ∧
      ∀ preamble secs, preamble.length = 8 → module = moduleBytes preamble secs →
        (∀ secs', Inserts RawSection.Custom secs secs' →
          ((∃ storage', wasmBinfmtVer1HandleFunc f (moduleBytes preamble secs') = .ok storage' ∧
            storage'.sections = storage.sections) ↔ NamesLast secs')) ∧
        ∀ secs', Inserts (fun s => s.id = 0) secs' secs →
          ∃ storage', wasmBinfmtVer1HandleFunc f (moduleBytes preamble secs') = .ok storage' ∧
            storage'.sections = storage.sections := by
  refine ⟨exists_moduleBytes f h, fun preamble secs hlen hmodule => ?_⟩
  subst hmodule
  obtain ⟨hmagic, hlegal, hordered, hdecoded, hfinal⟩ :=
    (exists_accepted_iff f hlen).mp ⟨storage, h, rfl⟩
  refine ⟨fun secs' hins => ?_, fun secs' hins => ?_⟩
  · have hfilter : secs'.filter RawSection.isStandard = secs.filter RawSection.isStandard :=
      hins.filter_eq fun s hs => by simp [RawSection.isStandard, hs.1]
    have hlegal' : ∀ s ∈ secs', s.Legal := fun s hs =>
      (hins.mem_or s hs).elim (hlegal s) RawSection.Custom.legal
    have hstandard := ((pairwise_inOrder_iff f hlegal).mp hordered).1
    rw [exists_accepted_iff f hlen, pairwise_inOrder_iff f hlegal', hfilter]
    exact ⟨fun h' => h'.2.2.1.2, fun hlast =>
      ⟨hmagic, hlegal', ⟨hstandard, hlast⟩, hdecoded, hfinal⟩⟩
  · have hfilter : secs.filter RawSection.isStandard = secs'.filter RawSection.isStandard :=
      hins.filter_eq fun s hs => by simp [RawSection.isStandard, hs]
    rw [exists_accepted_iff f hlen, ← hfilter]
    exact ⟨hmagic, fun s hs => hlegal s (hins.sublist.subset hs), hordered.sublist hins.sublist,
      hdecoded, hfinal⟩

-- A module with an empty type section

/-- Storage that only knows the number of types, and sections without entries. -/
def emptyTypes : Features (Option Nat) Leb128.Failure Unit where
  leb128Get := Leb128.readUnsigned 32
  leb128Get_reads := Leb128.readUnsigned_reads 32
  xxh3 := fun name => name.length
  sections := none
  handleSection := fun secId types span =>
    if secId = 1 ∧ types = none ∧ span = [0] then .ok (some 0) else .error ()
  finalCheck := fun _ => .ok ()

def wasmPreamble : List UInt8 := wasmMagic ++ [1, 0, 0, 0]

def typeSection : RawSection where
  id := 1
  size := [1]
  payload := [0]
  size_encodes := .last (b := 1) (by decide) (by decide)

def nameSection : RawSection where
  id := 0
  size := [5]
  payload := 4 :: nameName
  size_encodes := .last (b := 5) (by decide) (by decide)

theorem nameSection_name : nameSection.Name :=
  ⟨rfl, .intro [4] [] (.last (b := 4) (by decide) (by decide))
    ⟨['n', 'a', 'm', 'e'], by decide⟩⟩

theorem emptyTypes_accepts :
    wasmBinfmtVer1HandleFunc emptyTypes (moduleBytes wasmPreamble [typeSection]) =
      .ok ⟨some 0, []⟩ := by
  rw [wasmBinfmtVer1HandleFunc_ok emptyTypes rfl]
  refine ⟨rfl, ⟨?_, fun _ _ _ => Nat.zero_le _, pairwise_singleton _ _, rfl, rfl⟩, rfl⟩
  exact forall_mem_singleton.mpr ⟨by decide, nofun⟩

/-- A section named `name` in front of a type section makes the parser reject a module
that it accepts without. -/
theorem nameSection_before_typeSection :
    wasmBinfmtVer1HandleFunc emptyTypes (moduleBytes wasmPreamble [typeSection]) =
        .ok ⟨some 0, []⟩ ∧
      Inserts RawSection.Custom [typeSection] [nameSection, typeSection] ∧
      ∀ storage, wasmBinfmtVer1HandleFunc emptyTypes
        (moduleBytes wasmPreamble [nameSection, typeSection]) ≠ .ok storage := by
  refine ⟨emptyTypes_accepts, .insert ⟨rfl, _, nameSection_name.2⟩ (.keep .nil),
    fun storage h => ?_⟩
  obtain ⟨_, hlegal, hordered, _⟩ := (exists_accepted_iff emptyTypes rfl).mp ⟨storage, h, rfl⟩
  have hlast := ((pairwise_inOrder_iff emptyTypes hlegal).mp hordered).2
  have hid := (pairwise_cons.mp hlast).1 typeSection mem_cons_self nameSection_name
  exact absurd hid (by decide)

theorem wasmBinfmtVer1HandleFunc_customSections_name :
    wasmBinfmtVer1HandleFunc emptyTypes (moduleBytes wasmPreamble [typeSection]) =
        .ok ⟨some 0, []⟩ ∧
      ∃ storage', wasmBinfmtVer1HandleFunc emptyTypes
        (moduleBytes wasmPreamble [typeSection, nameSection]) = .ok storage' ∧
        storage'.sections = some 0 := by
  refine ⟨emptyTypes_accepts, ?_⟩
  have h := (wasmBinfmtVer1HandleFunc_customSections emptyTypes emptyTypes_accepts).2
    wasmPreamble [typeSection] rfl rfl
  refine (h.1 [typeSection, nameSection] ?_).mpr ?_
  · exact .keep (.insert ⟨rfl, _, nameSection_name.2⟩ .nil)
  · refine pairwise_cons.mpr ⟨fun t ht _ => ?_, pairwise_singleton _ _⟩
    rw [mem_singleton.mp ht]
    rfl

end Uwvm2.Parser
