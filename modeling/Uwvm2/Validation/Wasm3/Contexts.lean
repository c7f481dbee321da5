import Uwvm2.Validation.Wasm3.Correctness

/-!
# The contexts of accepted sections

What the constant-time tests of `recursive_type_context` are good for once a section has
been accepted. Intervals decide the way up along declared supertypes; matching is a
preorder that falls into one hierarchy below each `heap_top`; and a type that matches
another can be used in its place, however many declarations lie between them.
-/

namespace Uwvm2.Validation.Wasm3

open List RecursiveTypeContext HeapType

open Forest (Below)

theorem exists_of_accepted {typeSection : RecursiveTypeSection}
    (h : (validateCore3TypeSection typeSection output).1.error = .ok) :
    ∃ gs, Consecutive typeSection.groups ∧ typeSection.denote? = some gs ∧ ValidGroups gs ∧
      (validateCore3TypeSection typeSection output).2 = buildContext typeSection := by
  rcases validateCore3TypeSection_cases typeSection output with
    ⟨⟨hcons, gs, hden, hvalid⟩, hresult⟩ | ⟨result, herror, -, hresult⟩
  · exact ⟨gs, hcons.offsets, hden, hvalid, by rw [hresult]⟩
  · rw [hresult] at h
    exact absurd h herror

-- Intervals

namespace RecursiveTypeContext

variable (ctx : RecursiveTypeContext)

def canonical (i : Nat) : Nat := (ctx.records.getD i default).canonical

/-- One step up: to the canonical representative of the declared supertype. -/
def StepsUp (typeSection : RecursiveTypeSection) (x y : Nat) : Prop :=
  ∃ s ∈ (typeSection.definitions.getD x default).supertypes, ctx.canonical s = y

def interval (i : Nat) : Finset Nat :=
  Finset.Ico (ctx.records.getD i default).preorder (ctx.records.getD i default).subtreeEnd

/-- The intervals of a context of `n` types are exact. -/
structure Exact (typeSection : RecursiveTypeSection) (n : Nat) : Prop where
  matches_iff : ∀ i j, ctx.matchesHeap (.defined i) (.defined j) = true ↔
    i < n ∧ j < n ∧ Relation.ReflTransGen (ctx.StepsUp typeSection) (ctx.canonical i)
      (ctx.canonical j)
  numbered : ∃ count, (∀ i < n, ctx.canonical i = i →
      (ctx.records.getD i default).preorder < (ctx.records.getD i default).subtreeEnd ∧
        (ctx.records.getD i default).subtreeEnd ≤ count) ∧
    ∀ k < count, ∃! i, i < n ∧ ctx.canonical i = i ∧ (ctx.records.getD i default).preorder = k
  laminar : ∀ i < n, ∀ j < n, ctx.interval i ⊆ ctx.interval j ∨ ctx.interval j ⊆ ctx.interval i ∨
    Disjoint (ctx.interval i) (ctx.interval j)

theorem matchesHeap_defined : ctx.matchesHeap (.defined i) (.defined j) = true ↔
      (i < ctx.records.length ∧ j < ctx.records.length) ∧
        (ctx.records.getD j default).preorder ≤ (ctx.records.getD i default).preorder ∧
        (ctx.records.getD i default).preorder < (ctx.records.getD j default).subtreeEnd := by
  have hdef (i : Nat) : (defined i).isDefined = true := by simp [isDefined, defined]
  have hcode (i : Nat) : toU64 (defined i).code = i := by simp [toU64, defined]
  have hbot (i : Nat) : (defined i).code ≠ bottomCode := by
    simp only [defined, bottomCode]
    omega
  by_cases hi : i < ctx.records.length <;> by_cases hj : j < ctx.records.length <;>
    simp [matchesHeap, contains, recordOf, hdef, hcode, hbot, hi, hj]

end RecursiveTypeContext

section Intervals

variable {typeSection : RecursiveTypeSection}
  (hoff : Consecutive typeSection.groups) (hden : typeSection.denote? = some gs)
  (hlocal : LocallyValid gs)

include hoff hden hlocal

theorem stepsUp_iff_below {ctx : RecursiveTypeContext}
    (hcanonical : ∀ i < typeSection.definitions.length,
      ctx.canonical i = (canonicalIndices typeSection.groups).getD i 0)
    (hx : x < typeSection.definitions.length)
    (hcx : (canonicalIndices typeSection.groups).getD x 0 = x) :
    Relation.ReflTransGen (ctx.StepsUp typeSection) x y ↔
      Below (forestParent typeSection.definitions (canonicalIndices typeSection.groups)) x y := by
  have hF := hlocal.forestInput hoff hden
  have hstep {x y : Nat} (hx : x < typeSection.definitions.length)
      (hcx : (canonicalIndices typeSection.groups).getD x 0 = x) : ctx.StepsUp typeSection x y ↔
        forestParent typeSection.definitions (canonicalIndices typeSection.groups) x = some y := by
    rw [forestParent_eq_some, RecursiveTypeContext.StepsUp]
    rcases (hlocal.record_cases hden hx).2 with ⟨hs, -⟩ | ⟨s, hlt, hs, -⟩
    · simp only [hs, head?_nil, not_mem_nil, false_and, exists_false, and_false, reduceCtorEq]
    · simp only [hs, hx, hcx, hcanonical s (hlt.trans hx), mem_singleton, exists_eq_left, true_and,
        head?_cons, Option.some.injEq, exists_eq_left']
  -- the canonical types are closed under going up
  have hparent {x p : Nat}
      (h : forestParent typeSection.definitions (canonicalIndices typeSection.groups) x = some p) :
      p < typeSection.definitions.length ∧ (canonicalIndices typeSection.groups).getD p 0 = p := by
    obtain ⟨hx, -, s, hs, rfl⟩ := forestParent_eq_some.mp h
    have hlt := (hF.supers_lt hx hs).trans hx
    exact ⟨Nat.lt_of_le_of_lt (hF.le s) hlt, hF.idem hlt⟩
  constructor
  · intro h
    induction h using Relation.ReflTransGen.head_induction_on with
    | refl => exact .refl
    | head hup _ ih =>
      have hp := (hstep hx hcx).mp hup
      exact .trans (.single hp) (ih (hparent hp).1 (hparent hp).2)
  · intro h
    induction h using Relation.ReflTransGen.head_induction_on with
    | refl => exact .refl
    | head hp _ ih => exact .head ((hstep hx hcx).mpr hp) (ih (hparent hp).1 (hparent hp).2)

theorem buildContext_exact :
    (buildContext typeSection).Exact typeSection typeSection.definitions.length := by
  have hF := hlocal.forestInput hoff hden
  obtain ⟨parents, c, L, hrecords, hlabelled⟩ := buildContext_spec hF
  have hlen : (buildContext typeSection).records.length = typeSection.definitions.length := by
    rw [hrecords, recordsWith_length]
  have hrecord {i : Nat} (hi : i < typeSection.definitions.length) :
      (buildContext typeSection).records.getD i default = recordAt typeSection.definitions
        (canonicalIndices typeSection.groups) parents
        ⟨fun i => L.pre ((canonicalIndices typeSection.groups).getD i 0),
          fun i => L.fin ((canonicalIndices typeSection.groups).getD i 0)⟩ i := by
    rw [hrecords, recordsWith_getD hi]
  have hcanonical (i : Nat) (hi : i < typeSection.definitions.length) :
      (buildContext typeSection).canonical i = (canonicalIndices typeSection.groups).getD i 0 := by
    rw [RecursiveTypeContext.canonical, hrecord hi, recordAt]
  have hnode {i : Nat} (hi : i < typeSection.definitions.length) :=
    And.intro (Nat.lt_of_le_of_lt (hF.le i) hi) (hF.idem hi)
  constructor
  case matches_iff =>
    intro i j
    rw [matchesHeap_defined, hlen, and_assoc]
    refine and_congr_right fun hi => and_congr_right fun hj => ?_
    rw [hcanonical i hi, hcanonical j hj, stepsUp_iff_below hoff hden hlocal hcanonical (hnode hi).1
      (hnode hi).2, hlabelled.below _ _ (under_canonical hF hi) (under_canonical hF hj), hrecord hi,
      hrecord hj]
    rfl
  case numbered =>
    refine ⟨c, fun i hi _ => ?_, fun k hk => ?_⟩
    · rw [hrecord hi]
      exact (hlabelled.range _ (under_canonical hF hi)).2
    · obtain ⟨x, hx, rfl⟩ := hlabelled.onto k (Nat.zero_le k) hk
      obtain ⟨hlt, hcx⟩ := canonical_of_under hx
      refine ⟨x, ⟨hlt, (hcanonical x hlt).trans hcx, ?_⟩, fun y h => ?_⟩
      · rw [hrecord hlt]
        exact congrArg L.pre hcx
      · obtain ⟨hy, hcy, hpre⟩ := h
        rw [hcanonical y hy] at hcy
        rw [hrecord hy] at hpre
        have hunder := under_canonical hF hy
        rw [← hcy]
        exact hlabelled.pre_inj hF.parent_lt hunder hx hpre
  case laminar =>
    intro i hi j hj
    rw [RecursiveTypeContext.interval, RecursiveTypeContext.interval, hrecord hi, hrecord hj]
    exact hlabelled.laminar hF.parent_lt (under_canonical hF hi) (under_canonical hF hj)

end Intervals

/-- In the context of an accepted section the interval test is exact: it decides the way up
along declared supertypes between canonical representatives, every canonical type has a
number of its own, and intervals are nested or disjoint. -/
theorem accepted_intervals_exact (typeSection : RecursiveTypeSection)
    (output : RecursiveTypeContext)
    (h : (validateCore3TypeSection typeSection output).1.error = .ok) :
    (validateCore3TypeSection typeSection output).2.Exact typeSection
      typeSection.definitions.length := by
  obtain ⟨gs, hoff, hden, hvalid, hctx⟩ := exists_of_accepted h
  rw [hctx]
  exact buildContext_exact hoff hden hvalid.locallyValid

theorem accepted_intervals_exact_equalGroups :
    (validateCore3TypeSection equalGroups {}).2.matchesHeap (.defined 2) (.defined 0) = true ∧
      (validateCore3TypeSection equalGroups {}).2.Exact equalGroups 3 :=
  ⟨by decide +kernel, accepted_intervals_exact equalGroups {} (by decide +kernel)⟩

-- Hierarchies

/-- `heap_top`: the validator's bottom type has none. -/
def heapTop (heap : HeapType) (ctx : RecursiveTypeContext) : Option HeapType :=
  if heap.isDefined then
    if !ctx.contains (toU64 heap.code) then none
    else some ⟨if (ctx.recordOf heap).kind = .function then -16 else -18⟩
  else
    match heap.code with
    | -12 | -23 => some ⟨-23⟩
    | -13 | -16 => some ⟨-16⟩
    | -14 | -17 => some ⟨-17⟩
    | -15 | -18 | -19 | -20 | -21 | -22 => some ⟨-18⟩
    | _ => none

/-- The abstract type on top of a hierarchy. -/
def AbstractHeapType.hierarchy : AbstractHeapType → AbstractHeapType
  | .noexn | .exn => .exn
  | .nofunc | .func => .func
  | .noextern_ | .extern_ => .extern_
  | .none | .any | .eq | .i31 | .struct_ | .array => .any

def Heap.hierarchy : Heap → Option AbstractHeapType
  | .abstract_ a => some a.hierarchy
  | .defined d => d.top.map AbstractHeapType.hierarchy

namespace AbstractHeapType

theorem le_hierarchy (a : AbstractHeapType) : a.le a.hierarchy := by
  cases a <;> simp [le, proper, hierarchy]

theorem hierarchy_eq_of_le {a : AbstractHeapType} (h : a.le b) : a.hierarchy = b.hierarchy := by
  rcases h with rfl | h
  · rfl
  · cases a <;> cases b <;> simp [proper, hierarchy] at h ⊢

theorem eq_of_hierarchy_le {a : AbstractHeapType} (h : a.hierarchy.le b) : b = a.hierarchy := by
  rcases h with rfl | h
  · rfl
  · cases a <;> simp [proper, hierarchy] at h

end AbstractHeapType

namespace Heap

theorem hierarchy_eq_of_le (hH : Homogeneous types) {h : Heap} (hh : h.In types) (hle : h.le k) :
    h.hierarchy = k.hierarchy := by
  cases h with
  | abstract_ a =>
    cases k with
    | abstract_ b => exact congrArg some (AbstractHeapType.hierarchy_eq_of_le hle)
    | defined e =>
      obtain ⟨b, hb, rfl⟩ := hle
      rcases top_cases hb with rfl | rfl | rfl <;> simp [hierarchy, hb] <;> rfl
  | defined d =>
    cases k with
    | abstract_ b =>
      obtain ⟨a, ha, hle⟩ := hle
      simp [hierarchy, ha, AbstractHeapType.hierarchy_eq_of_le hle]
    | defined e => simp [hierarchy, hH.top_eq hh hle]

theorem le_of_hierarchy {h : Heap} (ht : h.hierarchy = some t) : h.le (.abstract_ t) := by
  cases h with
  | abstract_ a =>
    cases ht
    exact a.le_hierarchy
  | defined d =>
    obtain ⟨a, ha, rfl⟩ := Option.map_eq_some_iff.mp ht
    exact ⟨a, ha, a.le_hierarchy⟩

theorem eq_of_hierarchy_le {a : AbstractHeapType} (h : (abstract_ a.hierarchy).le k) :
    k = .abstract_ a.hierarchy := by
  cases k with
  | abstract_ b => exact congrArg abstract_ (AbstractHeapType.eq_of_hierarchy_le h)
  | defined e =>
    obtain ⟨b, hb, heq⟩ := h
    rcases top_cases hb with rfl | rfl | rfl <;> cases a <;> cases heq

end Heap

namespace RecursiveTypeContext

variable (ctx : RecursiveTypeContext)

/-- The heap type is an abstract one or a type of the context. -/
def Names (heap : HeapType) : Prop :=
  abstractValid heap = true ∨ heap.isDefined = true ∧ ctx.contains (toU64 heap.code) = true

def ValidHeap (heap : HeapType) : Prop := heap.code = bottomCode ∨ ctx.Names heap

def ValidValue (value : CoreValueType) : Prop :=
  value.kind.toNat ≤ ValueKind.v128.toNat ∨ value.kind = .reference ∧ ctx.ValidHeap value.heap

/-- Matching is a preorder, and what it relates has one top. -/
structure Hierarchical : Prop where
  heap_refl : ∀ h, ctx.ValidHeap h → ctx.matchesHeap h h = true
  heap_trans : ∀ h k l, ctx.ValidHeap h → ctx.ValidHeap k → ctx.ValidHeap l →
    ctx.matchesHeap h k = true → ctx.matchesHeap k l = true → ctx.matchesHeap h l = true
  value_refl : ∀ v, ctx.ValidValue v → ctx.matchesValue v v = true
  value_trans : ∀ v w x, ctx.ValidValue v → ctx.ValidValue w → ctx.ValidValue x →
    ctx.matchesValue v w = true → ctx.matchesValue w x = true → ctx.matchesValue v x = true
  top_of_above : ∀ h k c, ctx.Names h → ctx.Names k → ctx.ValidHeap c →
    ctx.matchesHeap h c = true → ctx.matchesHeap k c = true → heapTop h ctx = heapTop k ctx
  top_of_below : ∀ h k c, ctx.ValidHeap h → ctx.ValidHeap k → ctx.Names c →
    ctx.matchesHeap c h = true → ctx.matchesHeap c k = true → heapTop h ctx = heapTop k ctx
  matches_top : ∀ h, ctx.Names h → ∃ t, heapTop h ctx = some t ∧ ctx.matchesHeap h t = true
  maximal_iff : ∀ h m, ctx.Names h → ctx.ValidHeap m → (heapTop h ctx = some m ↔
    ctx.matchesHeap h m = true ∧
      ∀ x, ctx.ValidHeap x → ctx.matchesHeap m x = true → ctx.matchesHeap x m = true)

variable {ctx}

theorem isDefined_of_bottom {heap : HeapType} (h : heap.code = bottomCode) :
    heap.isDefined = false := by
  simp [isDefined, h, bottomCode]

theorem isDefined_of_abstractValid {heap : HeapType} (h : abstractValid heap = true) :
    heap.isDefined = false := by
  simp only [abstractValid, Bool.and_eq_true, decide_eq_true_eq] at h
  simp only [isDefined, decide_eq_false_iff_not]
  omega

theorem matchesHeap_bottom (hsrc : src.code = bottomCode)
    (hdst : ctx.ValidHeap dst) : ctx.matchesHeap src dst = true := by
  rcases hdst with hdst | hdst | ⟨hdst, hcontains⟩
  · simp [matchesHeap, isDefined_of_bottom hsrc, isDefined_of_bottom hdst, hsrc, hdst]
  · simp [matchesHeap, isDefined_of_bottom hsrc, isDefined_of_abstractValid hdst, hsrc, hdst]
  · simp [matchesHeap, isDefined_of_bottom hsrc, hdst, hsrc, hcontains]

theorem eq_bottom_of_matches (hdst : dst.code = bottomCode)
    (h : ctx.matchesHeap src dst = true) : src.code = bottomCode := by
  by_contra hsrc
  simp [matchesHeap, hsrc, hdst] at h

theorem Names.ne_bottom {heap : HeapType} (h : ctx.Names heap) : heap.code ≠ bottomCode := by
  rcases h with h | ⟨h, -⟩
  · simp only [abstractValid, Bool.and_eq_true, decide_eq_true_eq] at h
    simp only [bottomCode]
    omega
  · simp only [isDefined, decide_eq_true_eq] at h
    simp only [bottomCode]
    omega

theorem ValidValue.heap {value : CoreValueType} (h : ctx.ValidValue value)
    (href : value.kind = .reference) : ctx.ValidHeap value.heap := by
  rcases h with h | ⟨-, h⟩
  · simp [href, ValueKind.toNat] at h
  · exact h

theorem names_code (a : AbstractHeapType) : ctx.Names ⟨a.code⟩ := .inl (abstractValid_code a)

theorem Names.of_matches (hsrc : ctx.Names src) (hdst : ctx.ValidHeap dst)
    (h : ctx.matchesHeap src dst = true) : ctx.Names dst :=
  hdst.resolve_left fun hbot => hsrc.ne_bottom (eq_bottom_of_matches hbot h)

end RecursiveTypeContext

section Order

variable {ctx : RecursiveTypeContext} (hD : Describes ctx types)

include hD

theorem Describes.denote_of_names {heap : HeapType} (h : ctx.Names heap) :
    ∃ r, heap.denote? = some r ∧ r.InScope types.length := by
  refine checkHeap_iff.mp ?_
  rcases h with h | ⟨hdef, hcontains⟩
  · simp [isDefined_of_abstractValid h, h, ensure]
  · rw [RecursiveTypeContext.contains, decide_eq_true_eq, hD.length] at hcontains
    simp [hdef, hcontains, ensure]

omit hD in
theorem HeapType.denote?_code (a : AbstractHeapType) :
    (⟨a.code⟩ : HeapType).denote? = some (.abstract_ a) := by
  cases a <;> rfl

theorem Describes.heapTop_eq {heap : HeapType} (hr : heap.denote? = some r)
    (hs : r.InScope types.length) :
    heapTop heap ctx = (r.close types).hierarchy.map fun t => ⟨t.code⟩ := by
  cases r with
  | abstract_ a =>
    obtain ⟨-, rfl⟩ := denote?_eq_abstract hr
    cases a <;> rfl
  | index i =>
    obtain ⟨hdef, hi⟩ := denote?_eq_index hr
    have hlt : i < ctx.records.length := hD.length ▸ hs
    simp only [heapTop, hdef, RecursiveTypeContext.contains, RecursiveTypeContext.recordOf, hi, hlt,
      decide_true, Bool.not_true, Bool.false_eq_true, if_false, if_true,
        HeapRef.close, Heap.hierarchy,
      hD.top hs, Option.map_some]
    cases (ctx.records.getD i default).kind <;> rfl

theorem Describes.matchesHeap_trans (hh : ctx.Names h) (hk : ctx.Names k)
    (hl : ctx.Names l) (hhk : ctx.matchesHeap h k = true) (hkl : ctx.matchesHeap k l = true) :
    ctx.matchesHeap h l = true := by
  obtain ⟨r, hr, hs⟩ := hD.denote_of_names hh
  obtain ⟨r', hr', hs'⟩ := hD.denote_of_names hk
  obtain ⟨r'', hr'', hs''⟩ := hD.denote_of_names hl
  rw [hD.matchesHeap_le hr hr' hs hs'] at hhk
  rw [hD.matchesHeap_le hr' hr'' hs' hs''] at hkl
  rw [hD.matchesHeap_le hr hr'' hs hs'']
  exact Heap.le_trans hD.homogeneous (HeapRef.close_in hs) (HeapRef.close_in hs') hhk hkl

theorem Describes.heapTop_eq_of_matches {h : HeapType} (hh : ctx.Names h) (hk : ctx.Names k)
    (hhk : ctx.matchesHeap h k = true) : heapTop h ctx = heapTop k ctx := by
  obtain ⟨r, hr, hs⟩ := hD.denote_of_names hh
  obtain ⟨r', hr', hs'⟩ := hD.denote_of_names hk
  rw [hD.matchesHeap_le hr hr' hs hs'] at hhk
  rw [hD.heapTop_eq hr hs, hD.heapTop_eq hr' hs',
    Heap.hierarchy_eq_of_le hD.homogeneous (HeapRef.close_in hs) hhk]

theorem Describes.matchesHeap_refl (hh : ctx.ValidHeap h) : ctx.matchesHeap h h = true := by
  rcases hh with hbot | hh
  · exact matchesHeap_bottom hbot (.inl hbot)
  · obtain ⟨r, hr, hs⟩ := hD.denote_of_names hh
    rw [hD.matchesHeap_le hr hr hs hs]
    exact Heap.le_refl _

theorem Describes.validHeap_trans (hh : ctx.ValidHeap h) (hk : ctx.ValidHeap k)
    (hl : ctx.ValidHeap l) (hhk : ctx.matchesHeap h k = true) (hkl : ctx.matchesHeap k l = true) :
    ctx.matchesHeap h l = true := by
  rcases hh with hbot | hh
  · exact matchesHeap_bottom hbot hl
  · have hk' := hh.of_matches hk hhk
    exact hD.matchesHeap_trans hh hk' (hk'.of_matches hl hkl) hhk hkl

theorem Describes.exists_heapTop (hh : ctx.Names h) :
    ∃ a : AbstractHeapType, heapTop h ctx = some ⟨a.hierarchy.code⟩ ∧
      ctx.matchesHeap h ⟨a.hierarchy.code⟩ = true := by
  obtain ⟨r, hr, hs⟩ := hD.denote_of_names hh
  have htop : ∃ a : AbstractHeapType, (r.close types).hierarchy = some a.hierarchy := by
    cases r with
    | abstract_ a => exact ⟨a, rfl⟩
    | index i => exact ⟨_, by rw [HeapRef.close, Heap.hierarchy, hD.top hs, Option.map_some]⟩
  obtain ⟨a, ha⟩ := htop
  refine ⟨a, by rw [hD.heapTop_eq hr hs, ha, Option.map_some], ?_⟩
  rw [hD.matchesHeap_le hr (denote?_code a.hierarchy) hs trivial]
  exact Heap.le_of_hierarchy ha

theorem Describes.eq_of_top_matches {a : AbstractHeapType} (hx : ctx.ValidHeap x)
    (h : ctx.matchesHeap ⟨a.hierarchy.code⟩ x = true) : x = ⟨a.hierarchy.code⟩ := by
  have hx' := (names_code a.hierarchy).of_matches hx h
  obtain ⟨r, hr, hs⟩ := hD.denote_of_names hx'
  rw [hD.matchesHeap_le (denote?_code _) hr trivial hs] at h
  have heq := Heap.eq_of_hierarchy_le h
  cases r with
  | abstract_ b =>
    cases heq
    exact (denote?_eq_abstract hr).2
  | index i => cases heq

theorem Describes.heapTop_iff_maximal (hh : ctx.Names h) (hm : ctx.ValidHeap m) :
    heapTop h ctx = some m ↔ ctx.matchesHeap h m = true ∧
      ∀ x, ctx.ValidHeap x → ctx.matchesHeap m x = true → ctx.matchesHeap x m = true := by
  constructor
  · intro htop
    obtain ⟨a, ha, hle⟩ := hD.exists_heapTop hh
    obtain rfl := Option.some.inj (ha.symm.trans htop)
    refine ⟨hle, fun x hx hmx => ?_⟩
    rw [hD.eq_of_top_matches hx hmx]
    exact hD.matchesHeap_refl hm
  · rintro ⟨hle, hmax⟩
    have hm' := hh.of_matches hm hle
    obtain ⟨a, ha, hma⟩ := hD.exists_heapTop hm'
    have ham := hmax _ (.inr (names_code _)) hma
    rw [hD.heapTop_eq_of_matches hh hm' hle, ha, hD.eq_of_top_matches hm ham]

theorem Describes.hierarchical : ctx.Hierarchical := by
  constructor
  case heap_refl => exact fun h hh => hD.matchesHeap_refl hh
  case heap_trans => exact fun h k l hh hk hl => hD.validHeap_trans hh hk hl
  case value_refl =>
    rintro v (hv | ⟨hv, hheap⟩)
    · have hne : v.kind ≠ .reference := fun h => by simp [h, ValueKind.toNat] at hv
      simp [RecursiveTypeContext.matchesValue, hne, hv]
    · simp [RecursiveTypeContext.matchesValue, hv, hD.matchesHeap_refl hheap]
  case value_trans =>
    intro v w x hv hw hx hvw hwx
    simp only [RecursiveTypeContext.matchesValue, Bool.and_eq_true, decide_eq_true_eq] at hvw hwx ⊢
    refine ⟨hvw.1.trans hwx.1, ?_⟩
    by_cases href : v.kind = .reference
    · have hrefw := hvw.1.symm.trans href
      have hrefx := hwx.1.symm.trans hrefw
      simp only [href, hrefw, if_true, Bool.and_eq_true] at hvw hwx ⊢
      refine ⟨?_, hD.validHeap_trans (hv.heap href) (hw.heap hrefw) (hx.heap hrefx) hvw.2.2 hwx.2.2⟩
      cases hn : v.nullable
      · rfl
      · have hnw : w.nullable = true := by simpa [hn] using hvw.2.1
        simpa [hnw] using hwx.2.1
    · simpa [href] using hvw.2
  case top_of_above =>
    intro h k c hh hk hc hhc hkc
    have hc' := hh.of_matches hc hhc
    rw [hD.heapTop_eq_of_matches hh hc' hhc, hD.heapTop_eq_of_matches hk hc' hkc]
  case top_of_below =>
    intro h k c hh hk hc hch hck
    rw [← hD.heapTop_eq_of_matches hc (hc.of_matches hh hch) hch,
      ← hD.heapTop_eq_of_matches hc (hc.of_matches hk hck) hck]
  case matches_top =>
    intro h hh
    obtain ⟨a, htop, hle⟩ := hD.exists_heapTop hh
    exact ⟨_, htop, hle⟩
  case maximal_iff => exact fun h m hh hm => hD.heapTop_iff_maximal hh hm

end Order

/-- The bottom type is below every top and has none itself. -/
theorem heapTop_bottom_differs : let ctx := (validateCore3TypeSection ⟨0, []⟩ {}).2
    let bottom : HeapType := ⟨bottomCode⟩
    let func : HeapType := ⟨AbstractHeapType.func.code⟩
    (validateCore3TypeSection ⟨0, []⟩ {}).1.error = .ok ∧ ctx.ValidHeap bottom ∧
      ctx.ValidHeap func ∧ ctx.matchesHeap bottom func = true ∧ ctx.matchesHeap func func = true ∧
      heapTop bottom ctx = none ∧ heapTop func ctx = some func :=
  ⟨rfl, .inl rfl, .inr (.inl rfl), rfl, rfl, rfl, rfl⟩

/-- Matching in the context of an accepted section is a preorder of valid types, split into
the hierarchies below the abstract types that `heap_top` names. -/
theorem accepted_hierarchical (typeSection : RecursiveTypeSection) (output : RecursiveTypeContext)
    (h : (validateCore3TypeSection typeSection output).1.error = .ok) :
    (validateCore3TypeSection typeSection output).2.Hierarchical := by
  obtain ⟨gs, hoff, hden, hvalid, hctx⟩ := exists_of_accepted h
  rw [hctx]
  exact (hvalid.locallyValid.describes hoff hden).hierarchical

theorem accepted_hierarchical_equalGroups :
    heapTop (.defined 2) (validateCore3TypeSection equalGroups {}).2 =
        some ⟨AbstractHeapType.any.code⟩ ∧
      (validateCore3TypeSection equalGroups {}).2.Hierarchical :=
  ⟨by decide +kernel, accepted_hierarchical equalGroups {} (by decide +kernel)⟩

-- Use of a type in place of another

namespace RecursiveTypeContext

variable (ctx : RecursiveTypeContext)

structure FieldUsable (f g : FieldType) : Prop where
  mutability : f.mutable_ = g.mutable_
  packing : f.storage.packed = g.storage.packed
  covariant : f.storage.packed = .none → ctx.matchesValue f.storage.value g.storage.value = true
  invariant : f.mutable_ = true → f.storage.packed = .none →
    ctx.matchesValue g.storage.value f.storage.value = true

structure Usable (a b : SubType) : Prop where
  kind : a.kind = b.kind
  function : a.kind = .function →
    a.parameters.length = b.parameters.length ∧ a.results.length = b.results.length ∧
    (∀ (k : Nat) v w, a.parameters[k]? = some v → b.parameters[k]? = some w →
      ctx.matchesValue w v = true) ∧
    ∀ (k : Nat) v w, a.results[k]? = some v → b.results[k]? = some w → ctx.matchesValue v w = true
  data : a.kind ≠ .function → b.fields.length ≤ a.fields.length ∧
    ∀ (k : Nat) f g, a.fields[k]? = some f → b.fields[k]? = some g → ctx.FieldUsable f g

structure ValidParts (a : SubType) : Prop where
  parameters : ∀ v ∈ a.parameters, ctx.ValidValue v
  results : ∀ v ∈ a.results, ctx.ValidValue v
  fields : ∀ f ∈ a.fields, f.storage.packed = .none → ctx.ValidValue f.storage.value

variable {ctx}

theorem fieldMatches_iff_usable : ctx.fieldMatches f g = true ↔ ctx.FieldUsable f g := by
  simp only [fieldMatches, storageMatches, Bool.and_eq_true, Bool.or_eq_true, decide_eq_true_eq]
  constructor
  · rintro ⟨⟨hmut, hpack, hco⟩, hin⟩
    exact ⟨hmut, hpack, fun hnone => hco.resolve_left (not_not_intro hnone), fun htrue hnone =>
      (hin.resolve_left (by simp [htrue])).2.resolve_left (not_not_intro (hpack ▸ hnone))⟩
  · rintro ⟨hmut, hpack, hco, hin⟩
    refine ⟨⟨hmut, hpack, Decidable.or_iff_not_imp_left.mpr fun h => hco (not_not.mp h)⟩, ?_⟩
    by_cases htrue : f.mutable_ = true
    · exact .inr ⟨hpack.symm,
        Decidable.or_iff_not_imp_left.mpr fun h => hin htrue (hpack.trans (not_not.mp h))⟩
    · exact .inl (by simp [htrue])

theorem all_zip_iff_getElem? {f : α → β → Bool} {as : List α} :
    ((as.zip bs).all fun p => f p.1 p.2) = true ↔
      ∀ (k : Nat) a b, as[k]? = some a → bs[k]? = some b → f a b = true := by
  simp only [all_eq_true, mem_iff_getElem?, getElem?_zip_eq_some]
  exact ⟨fun h k a b ha hb => h (a, b) ⟨k, ha, hb⟩, fun h p ⟨k, ha, hb⟩ => h k _ _ ha hb⟩

theorem subTypeMatches_iff_usable {a b : SubType} (hkind : a.kind = b.kind) :
    ctx.subTypeMatches a b = true ↔ ctx.Usable a b := by
  by_cases hfunction : a.kind = .function
  · simp only [subTypeMatches, hfunction, if_true, Bool.and_eq_true, decide_eq_true_eq,
      all_zip_iff_getElem?]
    constructor
    · rintro ⟨⟨⟨hp, hr⟩, hps⟩, hrs⟩
      exact ⟨hkind, fun _ => ⟨hp, hr, fun k v w hv hw => hps k w v hw hv, hrs⟩, absurd hfunction⟩
    · intro h
      obtain ⟨hp, hr, hps, hrs⟩ := h.function hfunction
      exact ⟨⟨⟨hp, hr⟩, fun k w v hw hv => hps k v w hv hw⟩, hrs⟩
  · simp only [subTypeMatches, hfunction, if_false, Bool.and_eq_true, decide_eq_true_eq,
      all_zip_iff_getElem?, fieldMatches_iff_usable]
    exact ⟨fun h => ⟨hkind, fun hf => absurd hf hfunction, fun _ => h⟩, fun h => h.data hfunction⟩

namespace Hierarchical

variable (hctx : ctx.Hierarchical)

include hctx

theorem fieldUsable_trans (hf : f.storage.packed = .none → ctx.ValidValue f.storage.value)
    (hg : g.storage.packed = .none → ctx.ValidValue g.storage.value)
    (hh : h.storage.packed = .none → ctx.ValidValue h.storage.value)
    (hfg : ctx.FieldUsable f g) (hgh : ctx.FieldUsable g h) : ctx.FieldUsable f h := by
  constructor
  case mutability => exact hfg.mutability.trans hgh.mutability
  case packing => exact hfg.packing.trans hgh.packing
  case covariant =>
    intro hnone
    have hnone' := hfg.packing.symm.trans hnone
    exact hctx.value_trans _ _ _ (hf hnone) (hg hnone') (hh (hgh.packing.symm.trans hnone'))
      (hfg.covariant hnone) (hgh.covariant hnone')
  case invariant =>
    intro htrue hnone
    have hnone' := hfg.packing.symm.trans hnone
    exact hctx.value_trans _ _ _ (hh (hgh.packing.symm.trans hnone')) (hg hnone') (hf hnone)
      (hgh.invariant (hfg.mutability.symm.trans htrue) hnone') (hfg.invariant htrue hnone)

theorem usable_refl (ha : ctx.ValidParts a) : ctx.Usable a a := by
  have hself {l : List CoreValueType} (hl : ∀ v ∈ l, ctx.ValidValue v) (k : Nat)
      (v w : CoreValueType)
      (hv : l[k]? = some v) (hw : l[k]? = some w) : ctx.matchesValue v w = true := by
    cases hv.symm.trans hw
    exact hctx.value_refl v (hl v (mem_of_getElem? hv))
  refine ⟨rfl, fun _ => ⟨rfl, rfl, fun k v w hv hw => hself ha.parameters k w v hw hv,
    hself ha.results⟩, fun _ => ⟨Nat.le_refl _, fun k f g hf hg => ?_⟩⟩
  cases hf.symm.trans hg
  have hvalid := ha.fields f (mem_of_getElem? hf)
  exact ⟨rfl, rfl, fun hnone => hctx.value_refl _ (hvalid hnone),
    fun _ hnone => hctx.value_refl _ (hvalid hnone)⟩

theorem usable_trans (ha : ctx.ValidParts a) (hb : ctx.ValidParts b)
    (hc : ctx.ValidParts c) (hab : ctx.Usable a b) (hbc : ctx.Usable b c) : ctx.Usable a c := by
  refine ⟨hab.kind.trans hbc.kind, fun hfunction => ?_, fun hfunction => ?_⟩
  · obtain ⟨hp, hr, hps, hrs⟩ := hab.function hfunction
    obtain ⟨hp', hr', hps', hrs'⟩ := hbc.function (hab.kind ▸ hfunction)
    refine ⟨hp.trans hp', hr.trans hr', fun k v x hv hx => ?_, fun k v x hv hx => ?_⟩
    · obtain ⟨w, hw⟩ : ∃ w, b.parameters[k]? = some w :=
        ⟨_, List.getElem?_eq_getElem (hp' ▸ (List.getElem?_eq_some_iff.mp hx).1)⟩
      exact hctx.value_trans x w v (hc.parameters x (mem_of_getElem? hx))
        (hb.parameters w (mem_of_getElem? hw)) (ha.parameters v (mem_of_getElem? hv))
        (hps' k w x hw hx) (hps k v w hv hw)
    · obtain ⟨w, hw⟩ : ∃ w, b.results[k]? = some w :=
        ⟨_, List.getElem?_eq_getElem (hr' ▸ (List.getElem?_eq_some_iff.mp hx).1)⟩
      exact hctx.value_trans v w x (ha.results v (mem_of_getElem? hv))
        (hb.results w (mem_of_getElem? hw)) (hc.results x (mem_of_getElem? hx))
        (hrs k v w hv hw) (hrs' k w x hw hx)
  · obtain ⟨hlen, hfs⟩ := hab.data hfunction
    obtain ⟨hlen', hfs'⟩ := hbc.data (hab.kind ▸ hfunction)
    refine ⟨hlen'.trans hlen, fun k f h hf hh => ?_⟩
    obtain ⟨g, hg⟩ : ∃ g, b.fields[k]? = some g :=
      ⟨_, List.getElem?_eq_getElem (Nat.lt_of_lt_of_le (List.getElem?_eq_some_iff.mp hh).1 hlen')⟩
    exact hctx.fieldUsable_trans (ha.fields f (mem_of_getElem? hf))
      (hb.fields g (mem_of_getElem? hg)) (hc.fields h (mem_of_getElem? hh))
      (hfs k f g hf hg) (hfs' k g h hg hh)

end Hierarchical

end RecursiveTypeContext

theorem validValue_of_check {ctx : RecursiveTypeContext}
    (h : checkValue ctx.records.length value = .ok ()) : ctx.ValidValue value := by
  simp only [checkValue, bind_ok, ensure_ok] at h
  obtain ⟨_, hle, h⟩ := h
  by_cases href : value.kind = .reference
  · refine .inr ⟨href, .inr ?_⟩
    rw [if_pos href] at h
    cases hdef : value.heap.isDefined with
    | true => exact .inr ⟨hdef, by simpa [hdef, RecursiveTypeContext.contains] using h⟩
    | false => exact .inl (by simpa [hdef] using h)
  · refine .inl ?_
    cases hkind : value.kind with
    | reference => exact absurd hkind href
    | beyond n =>
      rw [hkind] at hle
      simp only [ValueKind.toNat] at hle
      omega
    | _ => decide

section Usable

variable {typeSection : RecursiveTypeSection}
  (hoff : Consecutive typeSection.groups) (hden : typeSection.denote? = some gs)
  (hvalid : ValidGroups gs)

theorem LocallyValid.localDef (hlocal : LocallyValid gs)
    (ht : gs.flatten[i]? = some t) : LocalDef (closeGroups gs).length gs.flatten i t := by
  obtain ⟨before, g, after, pos, hsplit, rfl, hpos⟩ := exists_split_of_getElem? ht
  obtain ⟨hscope, hsupers, hsuper⟩ := hlocal hsplit hpos
  refine ⟨fun h hh => (hscope h hh).mono ?_, hsupers, hsuper⟩
  rw [closeGroups_length, hsplit]
  simp only [flatten_append, flatten_cons, length_append]
  omega

include hoff hden hvalid

section

variable (hi : i < typeSection.definitions.length)

include hi

theorem checkType_getD :
    checkType typeSection.definitions (buildContext typeSection).records.length i
      (typeSection.definitions.getD i default) = .ok () := by
  have hlocal := hvalid.locallyValid
  have hdefs := forall₂_definitions hden
  have hget := getElem?_eq_getElem (hdefs.length_eq ▸ hi)
  rw [(hlocal.describes hoff hden).length]
  exact (checkType_iff hdefs (denote?_getD hdefs hget) (hdefs.length_eq ▸ hi.le)).mpr
    (hlocal.localDef hget)

theorem validParts_getD :
    (buildContext typeSection).ValidParts (typeSection.definitions.getD i default) := by
  have hcheck := checkType_getD hoff hden hvalid hi
  simp only [checkType, bind_ok, forM_ok] at hcheck
  obtain ⟨_, -, _, -, _, -, _, hparams, _, hresults, hfields⟩ := hcheck
  refine ⟨fun v hv => validValue_of_check (hparams v hv),
    fun v hv => validValue_of_check (hresults v hv), fun f hf hnone => ?_⟩
  have hfield := hfields f hf
  simp only [checkField, bind_ok, hnone, if_true] at hfield
  obtain ⟨_, -, hfield⟩ := hfield
  exact validValue_of_check hfield

theorem usable_of_eq (hj : j < typeSection.definitions.length)
    (heq : (closeGroups gs).getD i default = (closeGroups gs).getD j default) :
    (buildContext typeSection).Usable (typeSection.definitions.getD i default)
      (typeSection.definitions.getD j default) := by
  have hlocal := hvalid.locallyValid
  have hD := hlocal.describes hoff hden
  have hrecord {i : Nat} (hi : i < typeSection.definitions.length) :
      ∃ t, gs.flatten[i]? = some t ∧
        (typeSection.definitions.getD i default).composite? = some t.composite := by
    have hdefs := forall₂_definitions hden
    have hget := getElem?_eq_getElem (hdefs.length_eq ▸ hi)
    exact ⟨_, hget, (SubType.denote?_eq_some.mp (denote?_getD hdefs hget)).1⟩
  obtain ⟨t, hget, hc⟩ := hrecord hi
  obtain ⟨t', hget', hc'⟩ := hrecord hj
  have hclosed := congrArg DefType.definition heq
  rw [definition_closeGroups hlocal.isScoped hget,
    definition_closeGroups hlocal.isScoped hget'] at hclosed
  have hcomposite := congrArg TypeDef.composite (Option.some.inj hclosed)
  have hkinds := congrArg Composite.kind hcomposite
  simp only [TypeDef.map, Composite.kind_map] at hcomposite hkinds
  rw [← (SubType.composite?_eq_some.mp hc).1, ← (SubType.composite?_eq_some.mp hc').1] at hkinds
  have hscope := (hlocal.localDef hget).scope
  have hself := (subTypeMatches_iff_usable rfl).mpr
    (hD.hierarchical.usable_refl (validParts_getD hoff hden hvalid hi))
  rw [hD.subTypeMatches_iff (prefix_refl _) hc hc rfl hscope hscope] at hself
  rw [← subTypeMatches_iff_usable hkinds, hD.subTypeMatches_iff
    (prefix_refl _) hc hc' hkinds hscope (hlocal.localDef hget').scope, ← hcomposite]
  exact hself

theorem usable_supertype (hp : (typeSection.definitions.getD i default).supertypes = [p]) :
    (buildContext typeSection).Usable (typeSection.definitions.getD i default)
      (typeSection.definitions.getD p default) := by
  have hcheck := checkType_getD hoff hden hvalid hi
  simp only [checkType, checkSupertype, hp, bind_ok, ensure_ok] at hcheck
  obtain ⟨_, -, _, -, _, ⟨_, -, _, -, hkind⟩, -⟩ := hcheck
  have hmem : (typeSection.definitions.getD i default, i) ∈ typeSection.definitions.zipIdx := by
    rw [mk_mem_zipIdx_iff_getElem?, getD_eq_getElem?_getD, getElem?_eq_getElem hi,
      Option.getD_some]
  have hdeclared := (checkDeclared_all_iff hoff hden hvalid.locallyValid).mpr hvalid _ hmem
  simp only [checkDeclared, hp, ensure_ok] at hdeclared
  exact (subTypeMatches_iff_usable hkind).mp hdeclared

theorem usable_of_below (h : Below DefType.super ((closeGroups gs).getD i default) e) :
    ∃ k < typeSection.definitions.length, e = (closeGroups gs).getD k default ∧
      (buildContext typeSection).Usable (typeSection.definitions.getD i default)
        (typeSection.definitions.getD k default) := by
  have hlocal := hvalid.locallyValid
  have hctx := (hlocal.describes hoff hden).hierarchical
  have hparts {i : Nat} (hi : i < typeSection.definitions.length) :=
    validParts_getD hoff hden hvalid hi
  induction h with
  | refl => exact ⟨i, hi, rfl, hctx.usable_refl (hparts hi)⟩
  | tail _ hstep ih =>
    obtain ⟨k, hk, rfl, husable⟩ := ih
    rcases (hlocal.record_cases hden hk).2 with ⟨-, hnone⟩ | ⟨p, hlt, hp, hsome⟩
    · rw [hnone] at hstep
      cases hstep
    · rw [hsome, Option.some.injEq] at hstep
      have hplt := hlt.trans hk
      exact ⟨p, hplt, hstep.symm, hctx.usable_trans (hparts hi) (hparts hk) (hparts hplt) husable
        (usable_supertype hoff hden hvalid hk hp)⟩

end

end Usable

/-- Matching is sound: in the context of an accepted section a type that matches another can
be used wherever the other is expected. -/
theorem accepted_matches_usable (typeSection : RecursiveTypeSection) (output : RecursiveTypeContext)
    (h : (validateCore3TypeSection typeSection output).1.error = .ok) (i j : Nat)
    (hmatches : (validateCore3TypeSection typeSection output).2.matchesHeap
      (.defined i) (.defined j) = true) :
    ∃ a b, typeSection.definitions[i]? = some a ∧ typeSection.definitions[j]? = some b ∧
      (validateCore3TypeSection typeSection output).2.Usable a b := by
  obtain ⟨gs, hoff, hden, hvalid, hctx⟩ := exists_of_accepted h
  rw [hctx] at hmatches ⊢
  have hlocal := hvalid.locallyValid
  have hD := hlocal.describes hoff hden
  have hlen : (buildContext typeSection).records.length = typeSection.definitions.length := by
    rw [hD.length, LocallyValid.definitions_length hden]
  obtain ⟨⟨hi, hj⟩, hinterval⟩ := matchesHeap_defined _ |>.mp hmatches
  rw [← hD.below (hD.length ▸ hi) (hD.length ▸ hj)] at hinterval
  rw [hlen] at hi hj
  obtain ⟨k, hk, heq, husable⟩ := usable_of_below hoff hden hvalid hi hinterval
  have hparts {i : Nat} (hi : i < typeSection.definitions.length) :=
    validParts_getD hoff hden hvalid hi
  have hfinal := hD.hierarchical.usable_trans (hparts hi) (hparts hk) (hparts hj) husable
    (usable_of_eq hoff hden hvalid hk hj heq.symm)
  simp only [getD_eq_getElem?_getD, getElem?_eq_getElem hi, getElem?_eq_getElem hj,
    Option.getD_some] at hfinal
  exact ⟨_, _, getElem?_eq_getElem hi, getElem?_eq_getElem hj, hfinal⟩

theorem accepted_matches_usable_equalGroups :
    (validateCore3TypeSection equalGroups {}).2.matchesHeap (.defined 2) (.defined 0) = true ∧
      ∃ a b, equalGroups.definitions[2]? = some a ∧ equalGroups.definitions[0]? = some b ∧
        (validateCore3TypeSection equalGroups {}).2.Usable a b :=
  ⟨by decide +kernel, accepted_matches_usable equalGroups {} (by decide +kernel) 2 0
    (by decide +kernel)⟩

end Uwvm2.Validation.Wasm3
