import Uwvm2.Loader.CycleSearch

/-!
# Detected cycles

The cycles that `detect_cycles` reports are the elementary cycles of the dependencies between
the modules of the map, each in one of its rotations (`detectCycles_cycles`).
-/

namespace Uwvm2.Loader

open Loop ElementaryCycle List

namespace AdjacencyList

variable {Name : Type} (adjacency : AdjacencyList Name)

def DependsOn (a b : Name) : Prop :=
  ∃ imports, (a, imports) ∈ adjacency.entries ∧ b ∈ imports ∧ b ∈ adjacency.entries.map Prod.fst

variable {adjacency}

theorem idToName_injective : Function.Injective adjacency.idToName := by
  intro a b h
  have same := inj_on_of_nodup_map adjacency.nodup (get_mem _ a) (get_mem _ b) h
  exact nodup_iff_injective_get.mp adjacency.nodup.of_map same

variable [DecidableEq Name]

theorem nameToId_eq_some {id : Fin adjacency.size} :
    adjacency.nameToId name = some id ↔ adjacency.idToName id = name := by
  constructor
  · intro h
    simpa using find?_some h
  · rintro rfl
    cases h : adjacency.nameToId (adjacency.idToName id) with
    | none => simpa using find?_eq_none.mp h id (mem_finRange id)
    | some id' =>
      have same : adjacency.idToName id' = adjacency.idToName id := by simpa using find?_some h
      rw [idToName_injective same]

theorem dependsOn_iff {b : Fin adjacency.size} :
    adjacency.DependsOn (adjacency.idToName a) (adjacency.idToName b) ↔ b ∈ adjacency.graph a := by
  simp only [graph, mem_filterMap, nameToId_eq_some]
  constructor
  · rintro ⟨imports, hentry, hb, -⟩
    have same := inj_on_of_nodup_map adjacency.nodup hentry (get_mem _ a) rfl
    exact ⟨_, same ▸ hb, rfl⟩
  · rintro ⟨_, hb, rfl⟩
    exact ⟨_, get_mem _ a, hb, mem_map_of_mem (get_mem _ b)⟩

omit [DecidableEq Name] in
theorem exists_ids (hc : Elementary adjacency.DependsOn c) :
    ∃ ids : List (Fin adjacency.size), ids.map adjacency.idToName = c := by
  have known : ∀ name ∈ c, name ∈ Set.range adjacency.idToName := by
    intro name hname
    obtain ⟨_, imports, hentry, -⟩ := hc.exists_edge hname
    obtain ⟨id, hid⟩ := get_of_mem hentry
    exact ⟨id, by rw [idToName, hid]⟩
  have range : c ∈ Set.range (List.map adjacency.idToName) := by
    rw [Set.range_list_map]
    exact known
  exact range

end AdjacencyList

variable {Name : Type} [DecidableEq Name] {options : Options} {signature : List Nat → UInt64}
  {adjacency : AdjacencyList Name}

/-- On vertices: exactly the cycles that begin with their least vertex are reported. -/
theorem detectCycles_canonical (limit : options.exceeded adjacency.size = false)
    (distinct : Distinguishes signature adjacency.graph) :
    ∃ cycles : List (List (Fin adjacency.size)),
      Returns (detectCycles options signature adjacency)
        { cycles := cycles.map fun c => (close c).map adjacency.idToName } ∧
      cycles.Nodup ∧ ∀ c, c ∈ cycles ↔ Canonical adjacency.graph c := by
  by_cases empty : adjacency.entries = []
  · have none : ∀ c, ¬ Canonical adjacency.graph c := by
      intro c hc
      obtain ⟨v, -⟩ := exists_mem_of_ne_nil c hc.elementary.nonempty
      exact absurd v.isLt (by simp [AdjacencyList.size, empty])
    refine ⟨[], ?_, nodup_nil, fun c => by simp [none c]⟩
    exact ⟨0, fun fuel _ => by simp [detectCycles, empty]⟩
  obtain ⟨tarjan, walk, components⟩ := Tarjan.run_components adjacency.graph limit
  obtain ⟨s, search, -, cycles, logged, found⟩ := Returns.foldlM
    (Search.Searched adjacency.graph adjacency.idToName signature) tarjan.sccs
    (fun _ comp _ _ _ h => h.component distinct limit comp) .init
  refine ⟨cycles, ?_, logged.nodup, fun c => ⟨logged.canonical c, fun hc => ?_⟩⟩
  · have fits : ¬ signedSizeMax < adjacency.size := Nat.not_lt.mpr adjacency.size_le
    rw [← logged.report]
    obtain ⟨m, walk⟩ := walk
    obtain ⟨k, search⟩ := search
    refine ⟨max m k, fun fuel hfuel => ?_⟩
    have searched : tarjan.sccs.foldlM
        (Search.component adjacency.graph options adjacency.idToName signature fuel) {} = pure s :=
      search fuel (by omega)
    simp only [detectCycles, List.isEmpty_iff, empty, limit, fits, walk fuel (by omega), ↓reduceIte,
      Bool.false_eq_true]
    show (tarjan.sccs.foldlM
      (Search.component adjacency.graph options adjacency.idToName signature fuel) {} >>=
        fun s : Search adjacency.size Name => pure s.report) = _
    rw [searched]
    rfl
  · obtain ⟨comp, hcomp, mem⟩ := components.exists_mem hc.elementary
    exact found comp hcomp c hc mem

/-- If the size of the map is within the limit, and different cycles have different signatures,
the elementary cycles are reported once each, up to rotation, without a warning. -/
theorem detectCycles_cycles (options : Options) (signature : List Nat → UInt64)
    (adjacency : AdjacencyList Name)
    (limit : adjacency.size ≤ options.recursionDepthLimit ∨ options.recursionDepthLimit = 0)
    (distinct : Distinguishes signature adjacency.graph) :
    ∃ cycles : List (List Name),
      Returns (detectCycles options signature adjacency)
        { cycles := cycles.map close, warnings := [] } ∧
      (∀ c ∈ cycles, Elementary adjacency.DependsOn c) ∧
      (∀ c, Elementary adjacency.DependsOn c → ∃ c' ∈ cycles, c' ~r c) ∧
      cycles.Pairwise fun c c' => ¬ c ~r c' := by
  have within : options.exceeded adjacency.size = false := by
    rcases limit with limit | limit
    · simp [Options.exceeded, limit]
    · simp [Options.exceeded, limit]
  obtain ⟨cycles, returns, nodup, canonical⟩ := detectCycles_canonical within distinct
  have elementary : ∀ c, Elementary adjacency.DependsOn (c.map adjacency.idToName) ↔
      Elementary (fun u v => v ∈ adjacency.graph u) c := fun c =>
    elementary_map_iff AdjacencyList.idToName_injective fun a b => AdjacencyList.dependsOn_iff
  refine ⟨cycles.map (List.map adjacency.idToName), ?_, ?_, ?_, ?_⟩
  · simpa [Function.comp_def, close_map] using returns
  · intro c hc
    obtain ⟨ids, hids, rfl⟩ := mem_map.mp hc
    exact (elementary ids).mpr ((canonical ids).mp hids).elementary
  · intro c hc
    obtain ⟨ids, rfl⟩ := AdjacencyList.exists_ids hc
    obtain ⟨ids', rotated, least⟩ := exists_leastFirst ids
    refine ⟨ids'.map adjacency.idToName, mem_map_of_mem ((canonical ids').mpr ⟨?_, least⟩),
      rotated.map _⟩
    exact ((elementary ids).mp hc).rotated rotated.symm
  · rw [pairwise_map]
    refine nodup.imp_of_mem fun {c c'} hc hc' ne rotated => ne ?_
    exact ((canonical c).mp hc).least.eq ((canonical c').mp hc').least
      ((canonical c).mp hc).elementary.nodup
      (isRotated_of_map AdjacencyList.idToName_injective rotated)

/-- Two modules that import each other, one of them also itself, with a repeated import and an
unknown one. -/
def twoModules : AdjacencyList Char where
  entries := [('a', ['b', 'a', 'b', 'z']), ('b', ['a'])]
  nodup := by decide
  size_le := by decide

def ternary (ids : List Nat) : UInt64 := UInt64.ofNat (ids.foldl (fun sig id => 3 * sig + id + 1) 0)

theorem ternary_distinguishes : Distinguishes ternary twoModules.graph := by
  have few : ∀ c : List (Fin 2), c ≠ [] → c.Nodup → c ∈ [[0], [1], [0, 1], [1, 0]] := by
    intro c nonempty nodup
    have length : c.length ≤ 2 := by simpa using nodup.length_le_card
    match c with
    | [a] => revert a; decide
    | [a, b] => revert a b; decide
    | _ :: _ :: _ :: _ => simp at length
  have all : ∀ c ∈ [[0], [1], [0, 1], [1, 0]], ∀ c' ∈ [[0], [1], [0, 1], [1, (0 : Fin 2)]],
      cycleSignature ternary c = cycleSignature ternary c' → c = c' := by decide
  intro c c' hc hc'
  exact all c (few c hc.elementary.nonempty hc.elementary.nodup) c'
    (few c' hc'.elementary.nonempty hc'.elementary.nodup)

theorem detectCycles_cycles_twoModules :
    twoModules.size ≤ 2 ∧ Distinguishes ternary twoModules.graph ∧
    ∃ cycles : List (List Char),
      Returns (detectCycles ⟨2, true⟩ ternary twoModules)
        { cycles := cycles.map close, warnings := [] } ∧
      (∃ c ∈ cycles, c ~r ['b', 'a']) ∧ (∃ c ∈ cycles, c ~r ['a']) ∧
      cycles.Pairwise fun c c' => ¬ c ~r c' := by
  obtain ⟨cycles, returns, -, complete, once⟩ := detectCycles_cycles ⟨2, true⟩ ternary twoModules
    (.inl (by decide)) ternary_distinguishes
  have ab : twoModules.DependsOn 'a' 'b' := ⟨_, .head _, by decide, by decide⟩
  have aa : twoModules.DependsOn 'a' 'a' := ⟨_, .head _, by decide, by decide⟩
  have ba : twoModules.DependsOn 'b' 'a' := ⟨_, .tail _ (.head _), by decide, by decide⟩
  refine ⟨by decide, ternary_distinguishes, cycles, returns, complete _ ?_, complete _ ?_, once⟩
  · exact elementary_iff_isChain.mpr ⟨by decide, by decide, by simp [close, ab, ba]⟩
  · exact elementary_iff_isChain.mpr ⟨by decide, by decide, by simp [close, aa]⟩

end Uwvm2.Loader
