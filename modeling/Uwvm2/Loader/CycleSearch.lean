import Uwvm2.Lib.ElementaryCycle
import Uwvm2.Loader.Components

/-!
# The search for cycles

The search from a vertex follows every path of different vertices of the component that are
not less than it. When it leaves a vertex, all cycles that begin with the path to this vertex
have been reported (`visit`). Repeated edges lead to a cycle more than once, but its signature
admits it only once (`Logged.found`).
-/

namespace Uwvm2.Loader

open Loop ElementaryCycle List

variable {n : Nat} {Name : Type}

structure Canonical (graph : Fin n → List (Fin n)) (c : List (Fin n)) : Prop where
  elementary : Elementary (fun u v => v ∈ graph u) c
  least : LeastFirst c

def cycleSignature (signature : List Nat → UInt64) (c : List (Fin n)) : UInt64 :=
  signature ((close c).map Fin.val)

/-- Different cycles have different signatures. -/
def Distinguishes (signature : List Nat → UInt64) (graph : Fin n → List (Fin n)) : Prop :=
  ∀ c c', Canonical graph c → Canonical graph c' →
    cycleSignature signature c = cycleSignature signature c' → c = c'

namespace Search

/-- The frame of a vertex that has looked at its first neighbors. -/
def frameAt (startId v : Fin n) (depth i : Nat) : DfsStackFrame n :=
  { v := v, startId := startId, neighborIdx := i, depth := depth, isInitialCall := false }

section

variable (graph : Fin n → List (Fin n)) (options : Options) (idToName : Fin n → Name)
  (signature : List Nat → UInt64) (comp : List (Fin n)) (startId : Fin n)

/-- The search has reported these cycles, each once. -/
structure Logged (cycles : List (List (Fin n))) (s : Search n Name) : Prop where
  report : s.report = { cycles := cycles.map fun c => (close c).map idToName }
  seen : ∀ sig, sig ∈ s.seenSignatures ↔ ∃ c ∈ cycles, cycleSignature signature c = sig
  nodup : cycles.Nodup
  canonical : ∀ c ∈ cycles, Canonical graph c

structure At (path : List (Fin n)) (s : Search n Name) : Prop where
  onPath : ∀ v, s.onPath v = true ↔ v ∈ path
  path : s.path = path
  inScc : ∀ v, s.inScc v = true ↔ v ∈ comp

/-- A path that the search from a vertex may take. -/
structure PathFrom (path : List (Fin n)) : Prop where
  head : path.head? = some startId
  chain : path.IsChain fun u v => v ∈ graph u
  nodup : path.Nodup
  ge : ∀ v ∈ path, startId ≤ v
  mem : ∀ v ∈ path, v ∈ comp

/-- The search comes back to the path with the cycles of the component that `p` selects. -/
def Explores (cycles : List (List (Fin n))) (s : Search n Name) (rest : List (DfsStackFrame n))
    (path : List (Fin n)) (p : List (Fin n) → Prop) : Prop :=
  ∃ s' cycles', Rounds running (body graph options idToName signature) s s' ∧ s'.dfsStack = rest ∧
    At comp path s' ∧ Logged graph idToName signature cycles' s' ∧ cycles ⊆ cycles' ∧
    ∀ c, Canonical graph c → (∀ v ∈ c, v ∈ comp) → p c → c ∈ cycles'

/-- The search comes back from every vertex that extends the path. -/
def ExploresBelow (path : List (Fin n)) : Prop :=
  ∀ w s cycles rest, PathFrom graph comp startId (path ++ [w]) →
    s.dfsStack = { v := w, startId := startId, depth := path.length } :: rest → At comp path s →
    Logged graph idToName signature cycles s →
    Explores graph options idToName signature comp cycles s rest path (path ++ [w] <+: ·)

/-- The search comes back from neighbor `i` of `v`, the vertex `w`, to look at the next one. -/
def ExploresNeighbor (cycles : List (List (Fin n))) (s : Search n Name)
    (rest : List (DfsStackFrame n)) (path : List (Fin n)) (v : Fin n) (i : Nat)
    (w : Fin n) : Prop :=
  Explores graph options idToName signature comp cycles
    (s.visitNeighbor idToName signature (frameAt startId v path.length i) rest w)
    (frameAt startId v path.length (i + 1) :: rest) (path ++ [v])
    (path ++ [v] ++ [w] <+: · ++ [startId])

end

variable {graph : Fin n → List (Fin n)} {options : Options} {idToName : Fin n → Name}
  {signature : List Nat → UInt64} {comp : List (Fin n)} {startId : Fin n}
  {cycles : List (List (Fin n))} {s : Search n Name} {path c : List (Fin n)}

theorem Logged.congr (h : Logged graph idToName signature cycles s) (report : s'.report = s.report)
    (seen : s'.seenSignatures = s.seenSignatures) : Logged graph idToName signature cycles s' :=
  ⟨report ▸ h.report, seen ▸ h.seen, h.nodup, h.canonical⟩

theorem Logged.found (distinct : Distinguishes signature graph)
    (h : Logged graph idToName signature cycles s) (hc : Canonical graph c) :
    ∃ cycles', Logged graph idToName signature cycles' (s.found idToName signature (close c)) ∧
      cycles ⊆ cycles' ∧ c ∈ cycles' := by
  simp only [Search.found]
  split
  · next seen =>
    obtain ⟨c', hc', same⟩ := (h.seen _).mp seen
    obtain rfl := distinct c' c (h.canonical c' hc') hc same
    exact ⟨cycles, h, fun _ => id, hc'⟩
  · next fresh =>
    refine ⟨cycles ++ [c], ⟨?_, fun sig => ?_, ?_, ?_⟩, by simp, by simp⟩
    · simp [h.report]
    · rw [mem_cons, h.seen sig]
      constructor
      · rintro (rfl | ⟨c', hc', same⟩)
        · exact ⟨c, by simp, rfl⟩
        · exact ⟨c', mem_append_left _ hc', same⟩
      · rintro ⟨c', hc', same⟩
        rcases mem_append.mp hc' with hc' | hc'
        · exact .inr ⟨c', hc', same⟩
        · rw [mem_singleton.mp hc'] at same
          exact .inl same.symm
    · refine nodup_append.mpr ⟨h.nodup, by simp, fun a ha b hb hab => fresh ?_⟩
      rw [mem_singleton] at hb
      exact (h.seen _).mpr ⟨a, ha, by rw [hab, hb]; rfl⟩
    · intro c' hc'
      rcases mem_append.mp hc' with hc' | hc'
      · exact h.canonical c' hc'
      · rwa [mem_singleton.mp hc']

section

variable (h : PathFrom graph comp startId path)

include h

theorem PathFrom.close_eq : close path = path ++ [startId] := by
  cases path with
  | nil => simpa using h.head
  | cons a l =>
    obtain rfl : a = startId := by simpa using h.head
    rfl

theorem PathFrom.length_le : path.length ≤ n := by
  simpa using h.nodup.length_le_card

theorem PathFrom.canonical (last : path.getLast? = some v) (back : startId ∈ graph v) :
    Canonical graph path := by
  refine ⟨elementary_iff_isChain.mpr ⟨?_, h.nodup, ?_⟩, ?_⟩
  · rintro rfl
    simp at last
  · rw [h.close_eq, isChain_append]
    refine ⟨h.chain, isChain_singleton _, fun x hx y hy => ?_⟩
    obtain rfl : v = x := by simpa [last] using hx
    obtain rfl : startId = y := by simpa using hy
    exact back
  · intro a ha b hb
    obtain rfl : startId = a := by simpa [h.head] using ha
    exact h.ge b hb

theorem PathFrom.extend (last : path.getLast? = some v) (edge : w ∈ graph v) (ge : startId ≤ w)
    (mem : w ∈ comp) (fresh : w ∉ path) : PathFrom graph comp startId (path ++ [w]) := by
  refine ⟨?_, ?_, ?_, ?_, ?_⟩
  · rw [head?_append, h.head]
    rfl
  · rw [isChain_append]
    refine ⟨h.chain, isChain_singleton _, fun x hx y hy => ?_⟩
    obtain rfl : v = x := by simpa [last] using hx
    obtain rfl : w = y := by simpa using hy
    exact edge
  · exact nodup_append.mpr ⟨h.nodup, by simp, by rintro a ha b hb rfl; simp_all⟩
  · simpa [or_imp, forall_and] using ⟨h.ge, ge⟩
  · simpa [or_imp, forall_and] using ⟨h.mem, mem⟩

end

-- Rounds

variable {rest : List (DfsStackFrame n)} {v : Fin n}

theorem setUp_eq (stack : s.dfsStack = frame :: rest) (called : frame.isInitialCall = false) :
    s.setUp = s := by
  simp [setUp, stack, called]

theorem body_eq (stack : s.setUp.dfsStack = frame :: rest)
    (depth : options.exceeded frame.depth = false) :
    s.running = true ∧
      body graph options idToName signature s =
        .ok (s.setUp.processNeighbors graph idToName signature) := by
  cases hs : s.dfsStack with
  | nil => simp [setUp, hs] at stack
  | cons top below =>
    have same : top.depth = frame.depth := by
      simp only [setUp, hs] at stack
      split at stack
      · rw [← (List.cons.inj stack).1]
      · rw [hs] at stack
        rw [(List.cons.inj stack).1]
    simp [running, body, hs, same, depth]

theorem At.setStack (h : At comp path s) (stack : List (DfsStackFrame n)) :
    At comp path { s with dfsStack := stack } := ⟨h.onPath, h.path, h.inScc⟩

theorem At.found (h : At comp path s) (ids : List (Fin n)) :
    At comp path (s.found idToName signature ids) := by
  simp only [Search.found]
  split
  · exact h
  · exact ⟨h.onPath, h.path, h.inScc⟩

section Begins

theorem eq_or_begins (begins : path ++ [w] <+: c ++ [startId]) :
    path = c ∧ w = startId ∨ path ++ [w] <+: c := by
  rcases prefix_concat_iff.mp begins with h | h
  · exact .inl (by simpa using h)
  · exact .inr h

theorem not_mem_of_begins (hc : Canonical graph c) (begins : path ++ [w] <+: c) : w ∉ path := by
  obtain ⟨t, rfl⟩ := begins
  have nodup := hc.elementary.nodup
  rw [append_assoc] at nodup
  exact fun hmem => (nodup_append.mp nodup).2.2 w hmem w (by simp) rfl

variable (hpath : PathFrom graph comp startId path) (hc : Canonical graph c)
include hpath hc

theorem next_mem (begins : path ++ [w] <+: c ++ [startId]) (mem : ∀ v ∈ c, v ∈ comp) :
    w ∈ comp ∧ startId ≤ w := by
  have start : startId ∈ path := mem_of_head? hpath.head
  rcases eq_or_begins begins with ⟨rfl, rfl⟩ | begins
  · exact ⟨hpath.mem _ start, le_rfl⟩
  · have hw : w ∈ c := begins.subset (by simp)
    refine ⟨mem w hw, hc.least startId ?_ w hw⟩
    obtain ⟨t, rfl⟩ := begins
    rw [append_assoc, head?_append, hpath.head]
    rfl

theorem eq_of_begins_start (begins : path ++ [startId] <+: c ++ [startId]) : path = c := by
  rcases eq_or_begins begins with ⟨h, -⟩ | begins
  · exact h
  · exact absurd (mem_of_head? hpath.head) (not_mem_of_begins hc begins)

end Begins

theorem At.finish (h : At comp (path ++ [v]) s) (hpath : PathFrom graph comp startId (path ++ [v]))
    (frame : DfsStackFrame n) (hv : frame.v = v) (rest : List (DfsStackFrame n)) :
    At comp path (s.finish frame rest) := by
  refine ⟨fun w => ?_, by simp [Search.finish, h.path], h.inScc⟩
  have fresh : v ∉ path := fun hmem => (nodup_append.mp hpath.nodup).2.2 v hmem v (by simp) rfl
  by_cases hw : w = v
  · simpa [Search.finish, hv, hw] using fresh
  · simpa [Search.finish, hv, hw] using h.onPath w

section Neighbor

variable {w : Fin n} {i : Nat} (position : At comp (path ++ [v]) s)
  (logged : Logged graph idToName signature cycles s)

include position logged

theorem ExploresNeighbor.skip
    (skipped : s.visitNeighbor idToName signature (frameAt startId v path.length i) rest w =
      { s with dfsStack := frameAt startId v path.length (i + 1) :: rest })
    (never : ∀ c, Canonical graph c → (∀ v ∈ c, v ∈ comp) →
      ¬ path ++ [v] ++ [w] <+: c ++ [startId]) :
    ExploresNeighbor graph options idToName signature comp startId cycles s rest path v i w := by
  rw [ExploresNeighbor, skipped]
  exact ⟨_, cycles, .refl, rfl, position.setStack _, logged.congr rfl rfl, fun _ => id,
    fun c hc mem begins => absurd begins (never c hc mem)⟩

variable (hpath : PathFrom graph comp startId (path ++ [v]))

include hpath

/-- The neighbor is the start, and the path a cycle. -/
theorem ExploresNeighbor.close (distinct : Distinguishes signature graph)
    (edge : startId ∈ graph v) :
    ExploresNeighbor graph options idToName signature comp startId cycles s rest path v i
      startId := by
  have hscc : s.inScc startId = true :=
    (position.inScc _).mpr (hpath.mem _ (mem_of_head? hpath.head))
  let next := { s with dfsStack := frameAt startId v path.length (i + 1) :: rest }
  have position' : At comp (path ++ [v]) next := position.setStack _
  have logged' : Logged graph idToName signature cycles next := logged.congr rfl rfl
  obtain ⟨cycles', logged', grows, found⟩ := logged'.found distinct
    (hpath.canonical (by simp) edge)
  rw [hpath.close_eq] at logged'
  refine ⟨_, cycles', ?_, ?_, position'.found (path ++ [v] ++ [startId]), logged', grows, ?_⟩
  · simp [visitNeighbor, hscc, frameAt, position.path, next, Rounds.refl]
  · simp only [Search.found]
    split <;> rfl
  · intro c hc mem begins
    rwa [← eq_of_begins_start hpath hc begins]

theorem ExploresNeighbor.descend
    (deeper : ExploresBelow graph options idToName signature comp startId (path ++ [v]))
    (edge : w ∈ graph v) (hscc : s.inScc w = true) (hlt : ¬ w < startId) (hstart : w ≠ startId)
    (honpath : ¬ s.onPath w = true) :
    ExploresNeighbor graph options idToName signature comp startId cycles s rest path v i w := by
  have fresh : w ∉ path ++ [v] := fun hmem => honpath ((position.onPath w).mpr hmem)
  have extended := hpath.extend (by simp) edge (not_lt.mp hlt) ((position.inScc w).mp hscc) fresh
  let inner : DfsStackFrame n := { v := w, startId := startId, depth := (path ++ [v]).length }
  obtain ⟨s', cycles', rounds, stack, position', logged', grows, found⟩ := deeper w
    { s with dfsStack := inner :: frameAt startId v path.length (i + 1) :: rest } cycles _
    extended rfl (position.setStack _) (logged.congr rfl rfl)
  refine ⟨s', cycles', ?_, stack, position', logged', grows, fun c hc mem begins => ?_⟩
  · simpa [visitNeighbor, hscc, hlt, hstart, honpath, frameAt, inner] using rounds
  · exact found c hc mem ((eq_or_begins begins).resolve_left fun h => hstart h.2)

theorem exploresNeighbor (distinct : Distinguishes signature graph)
    (deeper : ExploresBelow graph options idToName signature comp startId (path ++ [v]))
    (edge : w ∈ graph v) :
    ExploresNeighbor graph options idToName signature comp startId cycles s rest path v i w := by
  by_cases hscc : s.inScc w = true
  case neg =>
    refine .skip position logged (by simp [visitNeighbor, hscc, frameAt]) fun c hc mem begins => ?_
    exact hscc ((position.inScc w).mpr (next_mem hpath hc begins mem).1)
  by_cases hlt : w < startId
  · refine .skip position logged (by simp [visitNeighbor, hscc, hlt, frameAt])
      fun c hc mem begins => ?_
    exact not_lt.mpr (next_mem hpath hc begins mem).2 hlt
  by_cases hstart : w = startId
  · subst hstart
    exact .close position logged hpath distinct edge
  by_cases honpath : s.onPath w = true
  case neg => exact .descend position logged hpath deeper edge hscc hlt hstart honpath
  refine .skip position logged (by simp [visitNeighbor, hscc, hlt, hstart, honpath, frameAt])
    fun c hc _ begins => ?_
  -- no cycle comes back to a vertex of the path
  rcases eq_or_begins begins with ⟨-, h⟩ | begins
  · exact hstart h
  · exact not_mem_of_begins hc begins ((position.onPath w).mp honpath)

end Neighbor

/-- After a neighbor the others follow. -/
theorem ExploresNeighbor.others (running : s.running = true)
    (step : body graph options idToName signature s =
      .ok (s.setUp.visitNeighbor idToName signature (frameAt startId v path.length i) rest w))
    (first : ExploresNeighbor graph options idToName signature comp startId cycles s.setUp rest path
      v i w)
    (others : ∀ s cycles, s.setUp.dfsStack = frameAt startId v path.length (i + 1) :: rest →
      At comp (path ++ [v]) s.setUp → Logged graph idToName signature cycles s.setUp →
      Explores graph options idToName signature comp cycles s rest path
        (fun c => ∃ x ∈ todo, path ++ [v] ++ [x] <+: c ++ [startId])) :
    Explores graph options idToName signature comp cycles s rest path
      (fun c => ∃ x ∈ w :: todo, path ++ [v] ++ [x] <+: c ++ [startId]) := by
  obtain ⟨s₂, cycles₂, rounds, stack₂, position₂, logged₂, grows, found⟩ := first
  have same := setUp_eq stack₂ rfl
  obtain ⟨s', cycles', rounds', stack', position', logged', grows', found'⟩ :=
    others s₂ cycles₂ (same.symm ▸ stack₂) (same.symm ▸ position₂) (same.symm ▸ logged₂)
  refine ⟨s', cycles', .head running step (rounds.trans rounds'), stack', position', logged',
    fun _ h => grows' (grows h), fun c hc mem => ?_⟩
  rintro ⟨x, hx, begins⟩
  rcases mem_cons.mp hx with rfl | hx
  · exact grows' (found c hc mem begins)
  · exact found' c hc mem ⟨x, hx, begins⟩

section

variable (distinct : Distinguishes signature graph) (limit : options.exceeded n = false)

include distinct limit

/-- One by one the neighbors that are left are looked at. -/
theorem scan (hpath : PathFrom graph comp startId (path ++ [v]))
    (deeper : ExploresBelow graph options idToName signature comp startId (path ++ [v]))
    (todo : List (Fin n)) (i : Nat) (s : Search n Name) (cycles : List (List (Fin n)))
    (left : (graph v).drop i = todo)
    (stack : s.setUp.dfsStack = frameAt startId v path.length i :: rest)
    (position : At comp (path ++ [v]) s.setUp)
    (logged : Logged graph idToName signature cycles s.setUp) :
    Explores graph options idToName signature comp cycles s rest path
      (fun c => ∃ w ∈ todo, path ++ [v] ++ [w] <+: c ++ [startId]) := by
  have depth : options.exceeded path.length = false :=
    Options.exceeded_of_lt limit (by simpa [Nat.succ_le_iff] using hpath.length_le)
  induction todo generalizing i s cycles with
  | nil =>
    have last : (graph v)[i]? = none := by simpa using left
    obtain ⟨running, step⟩ := body_eq stack depth
    have finish : s.setUp.processNeighbors graph idToName signature =
        s.setUp.finish (frameAt startId v path.length i) rest := by
      simp only [processNeighbors, stack]
      simp only [frameAt, last]
    refine ⟨_, cycles, .head running step .refl, ?_, ?_, ?_, fun _ => id, by simp⟩
    · rw [finish]
      rfl
    · rw [finish]
      exact position.finish hpath _ rfl rest
    · rw [finish]
      exact logged.congr rfl rfl
  | cons w todo ih =>
    have next : (graph v)[i]? = some w := by
      rw [← head?_drop, left]
      rfl
    have left' : (graph v).drop (i + 1) = todo := by
      rw [← tail_drop, left]
      rfl
    obtain ⟨running, step⟩ := body_eq stack depth
    have visit : s.setUp.processNeighbors graph idToName signature =
        s.setUp.visitNeighbor idToName signature (frameAt startId v path.length i) rest w := by
      simp only [processNeighbors, stack]
      simp only [frameAt, next]
    rw [visit] at step
    exact ExploresNeighbor.others running step
      (exploresNeighbor position logged hpath distinct deeper (mem_of_getElem? next))
      fun s cycles => ih (i + 1) s cycles left'

/-- The search from a vertex comes back with all cycles that begin with the path to it. -/
theorem visit (k : Nat) (enough : n ≤ path.length + k)
    (hpath : PathFrom graph comp startId (path ++ [v]))
    (stack : s.dfsStack = { v := v, startId := startId, depth := path.length } :: rest)
    (position : At comp path s) (logged : Logged graph idToName signature cycles s) :
    Explores graph options idToName signature comp cycles s rest path (path ++ [v] <+: ·) := by
  induction k generalizing path v s rest cycles with
  | zero =>
    have := hpath.length_le
    simp only [length_append, length_singleton] at this
    omega
  | succ k ih =>
    have less : n ≤ (path ++ [v]).length + k := by
      simp only [length_append, length_singleton]
      omega
    have entered : At comp (path ++ [v]) s.setUp := by
      simp only [setUp, stack, ↓reduceIte]
      refine ⟨fun w => ?_, by simp [position.path], position.inScc⟩
      simp [Function.update_apply, position.onPath w, or_comm]
    have logged' : Logged graph idToName signature cycles s.setUp := by
      simp only [setUp, stack, ↓reduceIte]
      exact logged.congr rfl rfl
    have stack' : s.setUp.dfsStack = frameAt startId v path.length 0 :: rest := by
      simp [setUp, stack, frameAt]
    obtain ⟨s', cycles', rounds, stack', position', logged', grows, found⟩ :=
      scan distinct limit hpath (fun _ _ _ _ => ih less) (graph v) 0 s cycles rfl
        stack' entered logged'
    refine ⟨s', cycles', rounds, stack', position', logged', grows, fun c hc mem begins => ?_⟩
    -- the cycle goes on to a neighbor, or back to its start
    obtain ⟨t, rfl⟩ := begins
    obtain ⟨w, t', next⟩ : ∃ w t', t ++ [startId] = w :: t' := by
      cases t <;> simp
    have hclose : close (path ++ [v] ++ t) = path ++ [v] ++ w :: t' := by
      rw [close, take_one, head?_append, hpath.head, append_assoc (path ++ [v])]
      exact congrArg _ next
    refine found _ hc mem ⟨w, ?_, ?_⟩
    · have chain := (elementary_iff_isChain.mp hc.elementary).2.2
      rw [hclose, isChain_append] at chain
      exact chain.2.2 v (by simp) w rfl
    · rw [append_assoc (path ++ [v]) t, next]
      exact ⟨t', by simp⟩

theorem searchFrom_returns (starts : List (Fin n)) (inside : starts ⊆ comp)
    (position : At comp [] s) (logged : Logged graph idToName signature cycles s) :
    ∃ s' cycles', Returns
      (fun fuel => searchFrom graph options idToName signature comp fuel starts s) s' ∧
      At comp [] s' ∧ Logged graph idToName signature cycles' s' ∧ cycles ⊆ cycles' ∧
      ∀ c, Canonical graph c → (∀ v ∈ c, v ∈ comp) → (∀ a ∈ c.head?, a ∈ starts) → c ∈ cycles' := by
  induction starts generalizing s cycles with
  | nil =>
    refine ⟨s, cycles, .pure, position, logged, fun _ => id, fun c hc _ hhead => ?_⟩
    cases c with
    | nil => exact absurd rfl hc.elementary.nonempty
    | cons a l => simpa using hhead a rfl
  | cons startId starts ih =>
    obtain ⟨hstart, inside⟩ := cons_subset.mp inside
    have hpath : PathFrom graph comp startId ([] ++ [startId]) :=
      ⟨rfl, isChain_singleton _, by simp, by simp, by simpa using hstart⟩
    have position₀ : At comp [] (s.start comp startId) :=
      ⟨fun v => by simp [start, position.onPath v], rfl, position.inScc⟩
    have search : Explores graph options idToName signature comp cycles (s.start comp startId) [] []
        ([] ++ [startId] <+: ·) :=
      visit distinct limit n (by simp) hpath rfl position₀ (logged.congr rfl rfl)
    obtain ⟨s₁, cycles₁, rounds, stack, position₁, logged₁, grows, found⟩ := search
    obtain ⟨s₂, cycles₂, returns, position₂, logged₂, grows', found'⟩ := ih inside position₁ logged₁
    refine ⟨s₂, cycles₂, (rounds.returns (by simp [running, stack])).caught.bind returns,
      position₂, logged₂,
      fun _ h => grows' (grows h), fun c hc mem hhead => ?_⟩
    cases c with
    | nil => exact absurd rfl hc.elementary.nonempty
    | cons a l =>
      rcases mem_cons.mp (hhead a rfl) with rfl | ha
      · exact grows' (found _ hc mem ⟨l, rfl⟩)
      · exact found' _ hc mem fun b hb => by
          obtain rfl : a = b := by simpa using hb
          exact ha

end

theorem canonical_singleton (mem : ∀ v ∈ c, v ∈ [u]) :
    Canonical graph c ↔ c = [u] ∧ u ∈ graph u := by
  constructor
  · intro hc
    have hcu : c = [u] := by
      match c, hc.elementary.nonempty, hc.elementary.nodup with
      | [a], _, _ => simpa using mem a
      | a :: b :: l, _, nodup => simp_all
    obtain ⟨-, -, chain⟩ := elementary_iff_isChain.mp hc.elementary
    rw [hcu] at chain
    exact ⟨hcu, by simpa [close] using chain⟩
  · rintro ⟨rfl, loop⟩
    exact ⟨elementary_iff_isChain.mpr
      ⟨by simp, by simp, by simpa [close] using loop⟩, by simp [LeastFirst]⟩

theorem component_returns (distinct : Distinguishes signature graph)
    (limit : options.exceeded n = false)
    (comp : List (Fin n)) (idle : At [] [] s) (logged : Logged graph idToName signature cycles s) :
    ∃ s' cycles', Returns (fun fuel => component graph options idToName signature fuel s comp) s' ∧
      At [] [] s' ∧ Logged graph idToName signature cycles' s' ∧ cycles ⊆ cycles' ∧
      ∀ c, Canonical graph c → (∀ v ∈ c, v ∈ comp) → c ∈ cycles' := by
  unfold component
  split
  · next u =>
    by_cases loop : u ∈ graph u
    · have hu : Canonical graph [u] := (canonical_singleton (by simp)).mpr ⟨rfl, loop⟩
      obtain ⟨cycles', logged', grows, found⟩ := logged.found distinct hu
      refine ⟨_, cycles', by simpa [loop, close] using Returns.pure, idle.found _, logged', grows,
        fun c hc mem => ?_⟩
      rwa [((canonical_singleton mem).mp hc).1]
    · refine ⟨s, cycles, by simpa [loop] using Returns.pure, idle, logged, fun _ =>
        id, fun c hc mem => ?_⟩
      exact absurd ((canonical_singleton mem).mp hc).2 loop
  · have marked : At comp [] { s with inScc := fun v => s.inScc v || v ∈ comp } :=
      ⟨idle.onPath, idle.path, fun v => by simp [idle.inScc v]⟩
    obtain ⟨s', cycles', returns, position, logged', grows, found⟩ :=
      searchFrom_returns distinct limit comp (List.Subset.refl _) marked (logged.congr rfl rfl)
    refine ⟨{ s' with inScc := fun v => s'.inScc v && v ∉ comp }, cycles', returns.bind .pure,
      ⟨position.onPath, position.path, fun v => by simp [position.inScc v]⟩,
        logged'.congr rfl rfl, grows,
      fun c hc mem => found c hc mem fun a ha => mem a (mem_of_head? ha)⟩

/-- Between two components: the cycles of those that are done have been reported. -/
def Searched (graph : Fin n → List (Fin n)) (idToName : Fin n → Name)
    (signature : List Nat → UInt64) (done : List (List (Fin n))) (s : Search n Name) : Prop :=
  At [] [] s ∧ ∃ cycles, Logged graph idToName signature cycles s ∧
    ∀ comp ∈ done, ∀ c, Canonical graph c → (∀ v ∈ c, v ∈ comp) → c ∈ cycles

theorem Searched.init : Searched graph idToName signature [] {} :=
  ⟨⟨by simp, rfl, by simp⟩, [], ⟨rfl, by simp, nodup_nil, by simp⟩, by simp⟩

theorem Searched.component (distinct : Distinguishes signature graph)
    (limit : options.exceeded n = false) (comp : List (Fin n))
    (h : Searched graph idToName signature done s) :
    ∃ s', Returns (fun fuel => component graph options idToName signature fuel s comp) s' ∧
      Searched graph idToName signature (done ++ [comp]) s' := by
  obtain ⟨idle, cycles, logged, found⟩ := h
  obtain ⟨s', cycles', returns, idle', logged', grows, found'⟩ :=
    component_returns distinct limit comp idle logged
  refine ⟨s', returns, idle', cycles', logged', fun comp' hcomp c hc mem => ?_⟩
  rcases mem_append.mp hcomp with hcomp | hcomp
  · exact grows (found comp' hcomp c hc mem)
  · rw [mem_singleton.mp hcomp] at mem
    exact found' c hc mem

end Search

theorem Components.exists_mem (h : Components graph sccs)
    (hc : Elementary (fun u v => v ∈ graph u) c) : ∃ comp ∈ sccs, ∀ v ∈ c, v ∈ comp := by
  classical
  have meets : ∃ k, ∃ v ∈ c, v ∈ (sccs.take k).flatten := by
    obtain ⟨v, hv⟩ := exists_mem_of_ne_nil c hc.nonempty
    exact ⟨sccs.length, v, hv, by simpa using h.total v⟩
  -- the first components that the cycle meets cannot be left, and only the last of them is met
  obtain ⟨v, hv, hmem⟩ := Nat.find_spec meets
  have first := @Nat.find_min _ _ meets
  generalize Nat.find meets = k at first hmem
  have all := hc.forall_mem (p := (· ∈ (sccs.take k).flatten))
    (fun a b ha => h.closed k a ha b) hv hmem
  obtain ⟨k, rfl⟩ : ∃ k', k = k' + 1 := by
    cases k with
    | zero => simp at hmem
    | succ k' => exact ⟨k', rfl⟩
  cases hk : sccs[k]? with
  | none =>
    rw [take_add_one, hk] at hmem
    exact absurd ⟨v, hv, by simpa using hmem⟩ (first (Nat.lt_succ_self k))
  | some comp =>
    refine ⟨comp, mem_of_getElem? hk, fun w hw => ?_⟩
    have := all w hw
    simp only [take_add_one, hk, Option.toList_some, flatten_append, flatten_singleton,
      mem_append] at this
    exact this.resolve_left fun hw' => first (Nat.lt_succ_self k) ⟨w, hw, hw'⟩

end Uwvm2.Loader
