import Uwvm2.Loader.DetectCycle

/-!
# The components

The stack of Tarjan's algorithm consists of one segment per frame of the call stack: the
frame's vertex and the finished vertices that it has reached. All edges of a segment that
have been looked at lead to vertices whose index is not less than the frame's `low`, unless
they lead to a component that is complete (`Segments`). So a segment that is popped, together
with the components before it, cannot be left (`Walking.closed`), and no component is split.
-/

namespace Uwvm2.Loader

open Loop Function List

variable {n : Nat}

/-- Lists of vertices that together hold every vertex once, where no edge leads out of the
first ones. -/
structure Components (graph : Fin n → List (Fin n)) (sccs : List (List (Fin n))) : Prop where
  nodup : sccs.flatten.Nodup
  total : ∀ v, v ∈ sccs.flatten
  closed : ∀ k, ∀ v ∈ (sccs.take k).flatten, ∀ w ∈ graph v, w ∈ (sccs.take k).flatten

theorem Options.exceeded_of_lt {options : Options} (limit : options.exceeded n = false)
    (h : depth < n) : options.exceeded depth = false := by
  simp only [Options.exceeded, ne_eq, decide_not, Bool.and_eq_false_imp, decide_eq_true_eq,
    Bool.not_eq_eq_eq_not, Bool.not_false] at limit ⊢
  exact fun hlt => limit (by omega)

namespace Tarjan

-- Segments

/-- The stack of vertices in segments, one for each frame. `ok` relates the vertex of a frame
to the ends of the edges that its segment has followed. -/
inductive Segments (graph : Fin n → List (Fin n)) (ok : Fin n → Fin n → Prop) :
    List (StackFrame n) → List (Fin n) → Prop
  | nil : Segments graph ok [] []
  | cons {frame : StackFrame n} {rest : List (StackFrame n)} {segment below : List (Fin n)}
    (under : Segments graph ok rest below) (called : frame.isInitialCall = false)
    (depth : frame.depth = rest.length)
    (followed : ∀ w ∈ (graph frame.v).take frame.neighborIdx, ok frame.v w)
    (finished : ∀ u ∈ segment, ∀ w ∈ graph u, ok frame.v w) :
    Segments graph ok (frame :: rest) (segment ++ frame.v :: below)

variable {graph : Fin n → List (Fin n)} {ok ok' : Fin n → Fin n → Prop} {st : List (Fin n)}

theorem Segments.mem (h : Segments graph ok frames st) : ∀ v ∈ frames.map StackFrame.v, v ∈ st := by
  induction h with
  | nil => simp
  | cons under called depth followed finished ih =>
    intro v hv
    rcases mem_cons.mp hv with rfl | hv
    · simp
    · simp [ih v hv]

theorem Segments.length_le (h : Segments graph ok frames st) : frames.length ≤ st.length := by
  induction h with
  | nil => simp
  | cons under called depth followed finished ih =>
    simp only [length_cons, length_append]
    omega

theorem Segments.mono (h : Segments graph ok frames st)
    (weaker : ∀ v ∈ frames.map StackFrame.v, ∀ w, ok v w → ok' v w) :
    Segments graph ok' frames st := by
  induction h with
  | nil => exact .nil
  | cons under called depth followed finished ih =>
    have top := weaker _ (mem_cons_self ..)
    exact .cons (ih fun v hv => weaker v (mem_cons_of_mem _ hv)) called depth
      (fun w hw => top w (followed w hw)) (fun u hu w hw => top w (finished u hu w hw))

-- The invariant

/-- The vertex has been visited, and is not below the `low` of `v` if it is still on the stack. -/
def Bounded (s : Tarjan n) (v w : Fin n) : Prop :=
  s.index w ≠ -1 ∧ (w ∈ s.st → s.low v ≤ s.index w)

/-- The invariant of a walk, between the visit of the vertex on top and its next neighbor. -/
structure Walking (graph : Fin n → List (Fin n)) (s : Tarjan n) : Prop where
  segments : Segments graph s.Bounded s.callStack s.st
  onStack : ∀ v, s.onStack v = true ↔ v ∈ s.st
  index_lt : ∀ v, s.index v < s.dfsIdx
  index_ge : ∀ v, s.index v ≠ -1 → 0 ≤ s.index v
  sorted : s.st.Pairwise fun a b => s.index b < s.index a
  visited : ∀ v, s.index v ≠ -1 ↔ v ∈ s.st ∨ v ∈ s.sccs.flatten
  nodup : (s.st ++ s.sccs.flatten).Nodup
  closed : ∀ k, ∀ v ∈ (s.sccs.take k).flatten, ∀ w ∈ graph v, w ∈ (s.sccs.take k).flatten
  low_le : ∀ v ∈ s.callStack.map StackFrame.v, s.low v ≤ s.index v
  floor : ∀ v ∈ s.callStack.map StackFrame.v, ∀ u ∈ s.st.getLast?, s.index u ≤ s.low v

variable {s : Tarjan n} {frame : StackFrame n} {rest : List (StackFrame n)} {v w : Fin n}

theorem Segments.head (h : Segments graph ok (frame :: rest) st) :
    frame.isInitialCall = false ∧ frame.depth = rest.length := by
  cases h with
  | cons under called depth => exact ⟨called, depth⟩

theorem Walking.setUp_eq (h : s.Walking graph) : s.setUp = s := by
  have segments := h.segments
  cases hs : s.callStack with
  | nil => simp [setUp, hs]
  | cons frame rest =>
    rw [hs] at segments
    simp [setUp, hs, segments.head.1]

theorem Walking.not_mem (h : s.Walking graph) (fresh : s.index w = -1) :
    w ∉ s.st ∧ w ∉ s.sccs.flatten := by
  have := (h.visited w).not.mp (by simpa using fresh)
  tauto

/-- The first visit of a vertex, with its frame on top of frames that wait for it. -/
theorem Walking.discover (h : s.Walking graph) (fresh : s.index w = -1)
    (segments : Segments graph (fun v x => s.Bounded v x ∨ x = w) frames s.st)
    (same : frames.map StackFrame.v ⊆ s.callStack.map StackFrame.v) :
    Walking graph { s.discover w with
      callStack := { v := w, isInitialCall := false, depth := frames.length } :: frames } := by
  obtain ⟨unstacked, unplaced⟩ := h.not_mem fresh
  have indexed : ∀ v, s.index v ≠ -1 → v ≠ w := fun v hv heq => hv (heq ▸ fresh)
  have index_of_ne : ∀ v, v ≠ w → (s.discover w).index v = s.index v := fun v hv =>
    update_of_ne hv _ _
  have low_of_ne : ∀ v, v ≠ w → (s.discover w).low v = s.low v := fun v hv =>
    update_of_ne hv _ _
  have index_self : (s.discover w).index w = s.dfsIdx := update_self ..
  have low_self : (s.discover w).low w = s.dfsIdx := update_self ..
  have stacked : ∀ v ∈ s.st, v ≠ w := fun v hv heq => unstacked (heq ▸ hv)
  exact {
    segments := by
      show Segments graph _ (_ :: frames) ([] ++ w :: s.st)
      refine .cons (segments.mono ?_) rfl rfl (by simp) (by simp)
      intro v hv x hx
      have hv_ne := stacked v (segments.mem v hv)
      have := h.index_lt v
      have := h.low_le v (same hv)
      rcases hx with hx | rfl
      · have hx_ne := indexed x hx.1
        refine ⟨(index_of_ne x hx_ne).symm ▸ hx.1, fun hmem => ?_⟩
        show (s.discover w).low v ≤ (s.discover w).index x
        rw [low_of_ne v hv_ne, index_of_ne x hx_ne]
        exact hx.2 ((mem_cons.mp hmem).resolve_left hx_ne)
      · refine ⟨index_self.symm ▸ by omega, fun _ => ?_⟩
        show (s.discover x).low v ≤ (s.discover x).index x
        rw [low_of_ne v hv_ne, index_self]
        omega
    onStack := by
      intro v
      by_cases hv : v = w
      · simp [Tarjan.discover, hv]
      · simp [Tarjan.discover, hv, h.onStack v]
    index_lt := by
      intro v
      have := h.index_lt v
      show (s.discover w).index v < ((s.dfsIdx + 1 : Nat) : Int)
      by_cases hv : v = w
      · rw [hv, index_self]
        omega
      · rw [index_of_ne v hv]
        omega
    index_ge := by
      intro v
      show (s.discover w).index v ≠ -1 → 0 ≤ (s.discover w).index v
      by_cases hv : v = w
      · rw [hv, index_self]
        omega
      · rw [index_of_ne v hv]
        exact h.index_ge v
    sorted := by
      refine pairwise_cons.mpr ⟨fun v hv => ?_, h.sorted.imp_of_mem fun ha hb hab => ?_⟩
      · show (s.discover w).index v < (s.discover w).index w
        rw [index_self, index_of_ne v (stacked v hv)]
        exact h.index_lt v
      · show (s.discover w).index _ < (s.discover w).index _
        rwa [index_of_ne _ (stacked _ ha), index_of_ne _ (stacked _ hb)]
    visited := by
      intro v
      show (s.discover w).index v ≠ -1 ↔ v ∈ w :: s.st ∨ v ∈ s.sccs.flatten
      by_cases hv : v = w
      · rw [hv, index_self]
        simp
      · rw [index_of_ne v hv, h.visited v]
        simp [hv]
    nodup := by
      show (w :: s.st ++ s.sccs.flatten).Nodup
      exact nodup_cons.mpr ⟨by simp [unstacked, unplaced], h.nodup⟩
    closed := h.closed
    low_le := by
      intro v hv
      show (s.discover w).low v ≤ (s.discover w).index v
      rcases mem_cons.mp hv with rfl | hv
      · exact (low_self.trans index_self.symm).le
      · have hne := stacked v (segments.mem v hv)
        rw [low_of_ne v hne, index_of_ne v hne]
        exact h.low_le v (same hv)
    floor := by
      intro v hv u hu
      show (s.discover w).index u ≤ (s.discover w).low v
      rcases mem_cons.mp hv with hv | hv
      · rw [hv, low_self]
        by_cases hu' : u = w
        · rw [hu', index_self]
        · rw [index_of_ne u hu']
          exact (h.index_lt u).le
      · have hmem := segments.mem v hv
        have hlast : u ∈ s.st.getLast? := by
          cases hst : s.st with
          | nil => simp [hst] at hmem
          | cons a l => simpa [Tarjan.discover, hst] using hu
        rw [low_of_ne v (stacked v hmem), index_of_ne u (stacked u (mem_of_getLast? hlast))]
        exact h.floor v (same hv) u hlast }

theorem Segments.follow (h : Segments graph ok (frame :: rest) st)
    (next : (graph frame.v)[frame.neighborIdx]? = some w) :
    Segments graph (fun v x => ok v x ∨ v = frame.v ∧ x = w)
      ({ frame with neighborIdx := frame.neighborIdx + 1 } :: rest) st := by
  cases h with
  | cons under called depth followed finished =>
    refine .cons (under.mono fun _ _ _ => .inl) called depth ?_ fun u hu x hx =>
      .inl (finished u hu x hx)
    intro x hx
    rw [take_add_one, next] at hx
    rcases mem_append.mp hx with hx | hx
    · exact .inl (followed x hx)
    · exact .inr ⟨rfl, by simpa using hx⟩

theorem Segments.top (h : Segments graph ok (frame :: rest) st)
    (last : (graph frame.v)[frame.neighborIdx]? = none) :
    ∃ segment below, st = segment ++ frame.v :: below ∧ Segments graph ok rest below ∧
      ∀ u ∈ segment ++ [frame.v], ∀ x ∈ graph u, ok frame.v x := by
  cases h with
  | @cons _ _ segment below under called depth followed finished =>
    refine ⟨segment, below, rfl, under, fun u hu x hx => ?_⟩
    rcases mem_append.mp hu with hu | hu
    · exact finished u hu x hx
    · rw [mem_singleton.mp hu] at hx
      rw [take_of_length_le (getElem?_eq_none_iff.mp last)] at followed
      exact followed x hx

theorem Walking.visit (h : s.Walking graph) (stack : s.callStack = frame :: rest)
    (next : (graph frame.v)[frame.neighborIdx]? = some w) (fresh : s.index w = -1) :
    (s.visitNeighbor frame rest w).setUp.Walking graph := by
  have segments := h.segments
  rw [stack] at segments
  have visit := h.discover fresh
    ((segments.follow next).mono fun _ _ _ ok => ok.imp_right And.right) (by simp [stack])
  simpa [visitNeighbor, fresh, setUp, Tarjan.discover, segments.head.2] using visit

theorem Walking.st_nodup (h : s.Walking graph) : s.st.Nodup := (nodup_append.mp h.nodup).1

theorem Walking.lowered (h : s.Walking graph) (low : Fin n → Int)
    (segments : Segments graph (Bounded { s with low := low }) frames s.st)
    (le : ∀ v, low v ≤ s.low v) (same : frames.map StackFrame.v ⊆ s.callStack.map StackFrame.v)
    (floor : ∀ v ∈ frames.map StackFrame.v, ∀ u ∈ s.st.getLast?, s.index u ≤ low v) :
    Walking graph { s with low := low, callStack := frames } :=
  ⟨segments, h.onStack, h.index_lt, h.index_ge, h.sorted, h.visited, h.nodup, h.closed,
    fun v hv => (le v).trans (h.low_le v (same hv)), floor⟩

theorem lower_le (s : Tarjan n) (v w : Fin n) (b : Int) : (s.lower v b).low w ≤ s.low w := by
  by_cases hw : w = v
  · simp [lower, hw]
  · simp [lower, hw]

theorem lower_self (s : Tarjan n) (v : Fin n) (b : Int) :
    (s.lower v b).low v = min (s.low v) b := by
  simp [lower]

theorem Bounded.lower (h : s.Bounded x y) : (s.lower v b).Bounded x y :=
  ⟨h.1, fun hy => (s.lower_le v x b).trans (h.2 hy)⟩

theorem Walking.floor_lower (h : s.Walking graph) (hb : ∀ u ∈ s.st.getLast?, s.index u ≤ b) :
    ∀ w ∈ s.callStack.map StackFrame.v, ∀ u ∈ s.st.getLast?, s.index u ≤ (s.lower v b).low w := by
  intro w hw u hu
  by_cases hv : w = v
  · simpa [lower, hv] using ⟨hv ▸ h.floor w hw u hu, hb u hu⟩
  · simpa [lower, hv] using h.floor w hw u hu

theorem Walking.bottom_le (h : s.Walking graph) (hw : w ∈ s.st) :
    ∀ u ∈ s.st.getLast?, s.index u ≤ s.index w := by
  intro u hu
  obtain ⟨above, hst⟩ := getLast?_eq_some_iff.mp hu
  rw [hst] at hw
  have sorted := h.sorted
  rw [hst, pairwise_append] at sorted
  rcases mem_append.mp hw with hw | hw
  · exact (sorted.2.2 w hw u (by simp)).le
  · rw [mem_singleton.mp hw]

theorem Walking.skip (h : s.Walking graph) (stack : s.callStack = frame :: rest)
    (next : (graph frame.v)[frame.neighborIdx]? = some w) (seen : s.index w ≠ -1) :
    (s.visitNeighbor frame rest w).Walking graph := by
  have segments := h.segments
  rw [stack] at segments
  have followed := segments.follow next
  have vertices : List.map StackFrame.v
      ({ frame with neighborIdx := frame.neighborIdx + 1 } :: rest) =
      s.callStack.map StackFrame.v := by simp [stack]
  simp only [visitNeighbor, if_neg seen]
  split
  · next stacked =>
    have floor := h.floor_lower (v := frame.v) (h.bottom_le ((h.onStack w).mp stacked))
    refine h.lowered _ (followed.mono ?_) (s.lower_le _ · _) (fun _ hv => vertices ▸ hv)
      (vertices ▸ floor)
    rintro v hv x (hx | ⟨rfl, rfl⟩)
    · exact hx.lower
    · exact ⟨seen, fun _ => (s.lower_self ..).trans_le (min_le_right _ _)⟩
  · next unstacked =>
    have hw : w ∉ s.st := fun hw => unstacked ((h.onStack w).mpr hw)
    refine h.lowered _ (followed.mono ?_) (fun _ => le_rfl) (fun _ hv => vertices ▸ hv)
      (vertices ▸ h.floor)
    rintro v hv x (hx | ⟨rfl, rfl⟩)
    · exact hx
    · exact ⟨seen, fun hx => absurd hx hw⟩

theorem Segments.merge (h : Segments graph ok (frame :: parentFrame :: rest) st)
    (last : (graph frame.v)[frame.neighborIdx]? = none)
    (up : ∀ x, ok frame.v x → ok' parentFrame.v x)
    (weaker : ∀ v x, ok v x → ok' v x) : Segments graph ok' (parentFrame :: rest) st := by
  obtain ⟨segment, below, rfl, under, edges⟩ := h.top last
  cases under with
  | @cons _ _ segment' below' under called depth followed finished =>
    have joined : Segments graph ok' (parentFrame :: rest)
        (segment ++ [frame.v] ++ segment' ++ parentFrame.v :: below') := by
      refine .cons (under.mono fun v _ x => weaker v x) called depth
        (fun x hx => weaker _ x (followed x hx)) fun u hu x hx => ?_
      rcases mem_append.mp hu with hu | hu
      · exact up x (edges u hu x hx)
      · exact weaker _ x (finished u hu x hx)
    simpa using joined

/-- A frame that is not the root of a component leaves its segment to its parent. -/
theorem Walking.merge (h : s.Walking graph) (stack : s.callStack = frame :: parentFrame :: rest)
    (last : (graph frame.v)[frame.neighborIdx]? = none) :
    Walking graph { s.lower parentFrame.v (s.low frame.v) with
      callStack := parentFrame :: rest } := by
  have segments := h.segments
  rw [stack] at segments
  refine h.lowered _ (segments.merge last ?_ fun v x hx => hx.lower) (s.lower_le _ · _)
    (by simp [stack]) (fun v hv => h.floor_lower (h.floor _ (by simp [stack])) v (by simp_all))
  exact fun x hx => ⟨hx.1, fun hmem =>
    ((s.lower_self ..).trans_le (min_le_right _ _)).trans (hx.2 hmem)⟩

theorem popUntil_append {segment : List (Fin n)} (h : v ∉ segment) :
    popUntil v (segment ++ v :: below) = (segment ++ [v], below) := by
  induction segment with
  | nil => simp [popUntil]
  | cons a segment ih =>
    obtain ⟨ha, h⟩ := not_or.mp (mem_cons.not.mp h)
    simp [popUntil, Ne.symm ha, ih h]

theorem popUntil_suffix (v : Fin n) (st : List (Fin n)) : (popUntil v st).2 <:+ st := by
  induction st with
  | nil => exact suffix_refl _
  | cons a st ih =>
    simp only [popUntil]
    split
    · exact suffix_cons a st
    · exact ih.trans (suffix_cons a st)

theorem getLast?_of_suffix (suffix : below <:+ st) (h : w ∈ below.getLast?) : w ∈ st.getLast? := by
  obtain ⟨above, rfl⟩ := suffix
  rw [getLast?_append, Option.mem_def.mp h]
  rfl

/-- The segment of a root cannot be left, except for components that are complete. -/
theorem Walking.leaves (h : s.Walking graph) {segment : List (Fin n)}
    (split : s.st = segment ++ frame.v :: below) (root : s.low frame.v = s.index frame.v)
    (edges : ∀ u ∈ segment ++ [frame.v], ∀ x ∈ graph u, s.Bounded frame.v x) :
    ∀ u ∈ segment ++ [frame.v], ∀ x ∈ graph u, x ∈ segment ++ [frame.v] ∨ x ∈ s.sccs.flatten := by
  intro u hu x hx
  obtain ⟨seen, bound⟩ := edges u hu x hx
  rcases (h.visited x).mp seen with hst | hscc
  · have le := bound hst
    have sorted := h.sorted
    rw [split, append_cons, pairwise_append] at sorted
    rw [split, append_cons, mem_append] at hst
    refine .inl (hst.resolve_right fun hbelow => ?_)
    have := sorted.2.2 frame.v (by simp) x hbelow
    omega
  · exact .inr hscc

/-- The root of a component pops its segment. -/
theorem Walking.pop (h : s.Walking graph) (stack : s.callStack = frame :: rest)
    (last : (graph frame.v)[frame.neighborIdx]? = none) (root : s.low frame.v = s.index frame.v) :
    Walking graph { s.popComponent frame.v with callStack := rest } := by
  have segments := h.segments
  rw [stack] at segments
  obtain ⟨segment, below, split, under, edges⟩ := segments.top last
  have leaves := h.leaves split root edges
  rw [append_cons] at split
  obtain ⟨-, -, apart⟩ := nodup_append.mp (split ▸ h.st_nodup)
  have popped : popUntil frame.v s.st = (segment ++ [frame.v], below) := by
    have fresh : frame.v ∉ segment := fun hv =>
      (nodup_append.mp (nodup_append.mp (split ▸ h.st_nodup)).1).2.2 _ hv _ (by simp) rfl
    rw [split, ← append_cons, popUntil_append fresh]
  have flatten : (s.sccs ++ [segment ++ [frame.v]]).flatten =
      s.sccs.flatten ++ (segment ++ [frame.v]) := by simp
  have perm : (below ++ (s.sccs ++ [segment ++ [frame.v]]).flatten).Perm
      (s.st ++ s.sccs.flatten) := by
    rw [flatten, split, ← append_assoc, append_assoc (segment ++ [frame.v])]
    exact perm_append_comm
  simp only [popComponent, popped]
  exact {
    segments := under.mono fun v _ x hx =>
      ⟨hx.1, fun hmem => hx.2 (split ▸ mem_append_right _ hmem)⟩
    onStack := by
      intro v
      have := apart v
      simp only [Bool.and_eq_true, decide_eq_true_eq, h.onStack v, split, mem_append] at this ⊢
      refine ⟨fun hv => hv.1.resolve_left hv.2, fun hv => ⟨.inr hv, fun hcomp => ?_⟩⟩
      exact this hcomp v hv rfl
    index_lt := h.index_lt
    index_ge := h.index_ge
    sorted := (pairwise_append.mp (split ▸ h.sorted)).2.1
    visited := by
      intro v
      rw [h.visited v, ← mem_append, ← mem_append]
      exact perm.mem_iff.symm
    nodup := perm.nodup_iff.mpr h.nodup
    closed := by
      intro k v hv w hw
      rcases Nat.lt_or_ge s.sccs.length k with hk | hk
      · rw [take_of_length_le (by simp; omega), flatten] at hv ⊢
        have all := h.closed s.sccs.length
        rw [take_length] at all
        rcases mem_append.mp hv with hv | hv
        · exact mem_append_left _ (all v hv w hw)
        · exact mem_append.mpr (leaves v hv w hw).symm
      · rw [take_append_of_le_length hk] at hv ⊢
        exact h.closed k v hv w hw
    low_le := fun v hv => h.low_le v (by simp_all)
    floor := by
      intro v hv u hu
      refine h.floor v (by simp_all) u ?_
      exact getLast?_of_suffix ⟨_, split.symm⟩ hu }

theorem Walking.lower (h : s.Walking graph) (v : Fin n) (hb : ∀ u ∈ s.st.getLast?, s.index u ≤ b) :
    (s.lower v b).Walking graph :=
  h.lowered _ (h.segments.mono fun _ _ _ => Bounded.lower) (s.lower_le _ · _) (List.Subset.refl _)
    (h.floor_lower hb)

theorem Walking.finish (h : s.Walking graph) (stack : s.callStack = frame :: rest)
    (last : (graph frame.v)[frame.neighborIdx]? = none) :
    (s.finish frame rest).Walking graph := by
  have floor := h.floor frame.v (by simp [stack])
  unfold Tarjan.finish
  cases rest with
  | nil =>
    -- the segment of the last frame reaches to the bottom of the stack
    have root : s.low frame.v = s.index frame.v := by
      have segments := h.segments
      rw [stack] at segments
      obtain ⟨segment, below, split, under, -⟩ := segments.top last
      cases under
      exact (h.low_le _ (by simp [stack])).antisymm (floor _ (by simp [split]))
    simp only [root, ↓reduceIte]
    exact h.pop stack last root
  | cons parentFrame rest =>
    by_cases root : s.low frame.v = s.index frame.v
    · simp only [root, ↓reduceIte]
      refine (h.pop stack last root).lower _ fun u hu => ?_
      exact floor u (getLast?_of_suffix (popUntil_suffix _ _) hu)
    · simp only [root, ↓reduceIte]
      exact h.merge stack last

-- Walks

/-- The rounds that a walk still has: for each vertex to be visited, and for each edge that the
frames have not followed. -/
def work (graph : Fin n → List (Fin n)) (s : Tarjan n) : Nat :=
  (∑ v, if s.index v = -1 then (graph v).length + 2 else 0) +
    (s.callStack.map fun frame => (graph frame.v).length - frame.neighborIdx + 1).sum

theorem sum_discover (graph : Fin n → List (Fin n)) (fresh : s.index w = -1) :
    (∑ v, if (s.discover w).index v = -1 then (graph v).length + 2 else 0) +
      ((graph w).length + 2) = ∑ v, if s.index v = -1 then (graph v).length + 2 else 0 := by
  rw [← Finset.add_sum_erase _ _ (Finset.mem_univ w), ← Finset.add_sum_erase Finset.univ
    (fun v => if s.index v = -1 then (graph v).length + 2 else 0) (Finset.mem_univ w)]
  have others : ∀ v ∈ Finset.univ.erase w,
      (if (s.discover w).index v = -1 then (graph v).length + 2 else 0) =
        if s.index v = -1 then (graph v).length + 2 else 0 := by
    intro v hv
    simp only [Tarjan.discover, update_of_ne (Finset.ne_of_mem_erase hv)]
  have self : (s.discover w).index w ≠ -1 := by simp [Tarjan.discover]
  rw [Finset.sum_congr rfl others, if_neg self, if_pos fresh]
  omega

theorem visitNeighbor_index (s : Tarjan n) (frame : StackFrame n) (rest : List (StackFrame n))
    (w : Fin n) :
    (s.visitNeighbor frame rest w).index = s.index := by
  simp only [visitNeighbor]
  split
  · rfl
  · split <;> rfl

theorem finish_index (s : Tarjan n) (frame : StackFrame n) (rest : List (StackFrame n)) :
    (s.finish frame rest).index = s.index := by
  unfold finish
  cases rest <;> dsimp only <;> split <;> rfl

theorem finish_callStack (s : Tarjan n) (frame : StackFrame n) (rest : List (StackFrame n)) :
    (s.finish frame rest).callStack = rest := by
  simp [finish]

theorem Walking.processNeighbors (h : s.Walking graph) (stack : s.callStack = frame :: rest) :
    (s.processNeighbors graph).setUp.Walking graph ∧
      work graph (s.processNeighbors graph).setUp < work graph s := by
  simp only [Tarjan.processNeighbors, stack]
  split
  · next w next =>
    have := (List.getElem?_eq_some_iff.mp next).1
    by_cases fresh : s.index w = -1
    · refine ⟨h.visit stack next fresh, ?_⟩
      have := sum_discover graph fresh
      simp only [visitNeighbor, if_pos fresh, setUp, ↓reduceIte, work, stack, map_cons,
        sum_cons, Tarjan.discover] at this ⊢
      omega
    · have walking := h.skip stack next fresh
      rw [walking.setUp_eq]
      refine ⟨walking, ?_⟩
      have callStack : (s.visitNeighbor frame rest w).callStack =
          { frame with neighborIdx := frame.neighborIdx + 1 } :: rest := by
        simp only [visitNeighbor, if_neg fresh]
        split <;> rfl
      simp only [work, visitNeighbor_index, callStack, stack, map_cons, sum_cons]
      omega
  · next last =>
    have walking := h.finish stack last
    rw [walking.setUp_eq]
    refine ⟨walking, ?_⟩
    simp only [work, finish_index, finish_callStack, stack, map_cons, sum_cons]
    omega

theorem Walking.length_lt (h : s.Walking graph) (stack : s.callStack = frame :: rest) :
    frame.depth < n := by
  have segments := h.segments
  have length := segments.length_le
  rw [stack] at segments length
  have := h.st_nodup.length_le_card
  rw [Fintype.card_fin] at this
  rw [segments.head.2]
  simp only [length_cons] at length
  omega

theorem setUp_callStack (stack : s.callStack = frame :: rest) :
    ∃ frame', s.setUp.callStack = frame' :: rest ∧ frame'.depth = frame.depth := by
  simp only [setUp, stack]
  split
  · exact ⟨_, rfl, rfl⟩
  · exact ⟨frame, stack, rfl⟩

theorem setUp_index (h : s.index v ≠ -1) : s.setUp.index v ≠ -1 := by
  unfold setUp
  split
  · exact h
  · split
    · by_cases hv : v = (‹StackFrame n› : StackFrame n).v
      · simp [discover, hv]
      · simpa [discover, update_of_ne hv] using h
    · exact h

theorem processNeighbors_index (s : Tarjan n) : (s.processNeighbors graph).index = s.index := by
  unfold processNeighbors
  split
  · rfl
  · split
    · exact visitNeighbor_index ..
    · exact finish_index ..

theorem Walking.rounds (limit : options.exceeded n = false) (h : s.setUp.Walking graph)
    (seen : Fin n → Prop) (hseen : ∀ v, seen v → s.setUp.index v ≠ -1) :
    ∃ s', Rounds running (body graph options) s s' ∧ s'.running = false ∧ s'.setUp.Walking graph ∧
      ∀ v, seen v → s'.setUp.index v ≠ -1 := by
  refine exists_rounds
    (fun s : Tarjan n => s.setUp.Walking graph ∧ ∀ v, seen v → s.setUp.index v ≠ -1)
    (fun s : Tarjan n => work graph s.setUp) ?_ ⟨h, hseen⟩
  rintro s ⟨h, hseen⟩ hrunning
  cases hs : s.callStack with
  | nil => simp [running, hs] at hrunning
  | cons frame rest =>
    obtain ⟨frame', stack, depth⟩ := setUp_callStack hs
    obtain ⟨walking, less⟩ := h.processNeighbors stack
    refine ⟨s.setUp.processNeighbors graph, ?_, ⟨walking, fun v hv => ?_⟩, less⟩
    · simp only [body, hs, Options.exceeded_of_lt limit (depth ▸ h.length_lt stack),
        Bool.false_eq_true, ↓reduceIte]
    · exact setUp_index (by rw [processNeighbors_index]; exact hseen v hv)

theorem Walking.st_eq_nil (h : s.Walking graph) (stack : s.callStack = []) : s.st = [] := by
  have segments := h.segments
  rw [stack] at segments
  cases hst : s.st with
  | nil => rfl
  | cons a st =>
    rw [hst] at segments
    cases segments

theorem Walking.walk (limit : options.exceeded n = false) (h : s.Walking graph)
    (stack : s.callStack = []) (v : Fin n) :
    ∃ s', Returns (fun fuel => walk graph options fuel s v) s' ∧ s'.Walking graph ∧
      s'.callStack = [] ∧ s'.index v ≠ -1 ∧ ∀ w, s.index w ≠ -1 → s'.index w ≠ -1 := by
  by_cases fresh : s.index v = -1
  · have started : (Tarjan.setUp { s with callStack := [{ v := v, depth := 0 }] }).Walking
      graph := by
      have segments : Segments graph (fun u x => s.Bounded u x ∨ x = v) [] s.st := by
        rw [h.st_eq_nil stack]
        exact .nil
      exact h.discover fresh segments (by simp)
    obtain ⟨s', rounds, stop, walking, seen⟩ := started.rounds limit
      (fun w => w = v ∨ s.index w ≠ -1) (by
        rintro w (rfl | hw)
        · simp [setUp, Tarjan.discover]
        · exact setUp_index hw)
    have empty : s'.callStack = [] := by simpa [running] using stop
    have same : s'.setUp = s' := by simp [setUp, empty]
    rw [same] at walking seen
    refine ⟨s', ?_, walking, empty, seen v (.inl rfl), fun w hw => seen w (.inr hw)⟩
    simpa [Tarjan.walk, fresh] using rounds.returns stop
  · exact ⟨s, by simpa [Tarjan.walk, fresh] using Returns.pure, h, stack, fresh, fun _ => id⟩

/-- Tarjan's algorithm ends with all components. -/
theorem run_components (graph : Fin n → List (Fin n)) (limit : options.exceeded n = false) :
    ∃ s, Returns (run graph options) s ∧ Components graph s.sccs := by
  have init : Walking graph ({} : Tarjan n) :=
    ⟨.nil, by simp, by simp, by simp, by simp, by simp, by simp, by simp, by simp, by simp⟩
  have step : ∀ done v rest (s : Tarjan n), List.finRange n = done ++ v :: rest →
      (s.Walking graph ∧ s.callStack = [] ∧ ∀ v ∈ done, s.index v ≠ -1) →
      ∃ s', Returns (fun fuel => walk graph options fuel s v) s' ∧
        s'.Walking graph ∧ s'.callStack = [] ∧ ∀ w ∈ done ++ [v], s'.index w ≠ -1 := by
    rintro done v rest s - ⟨walking, stack, seen⟩
    obtain ⟨s', returns, walking', stack', hv, kept⟩ := walking.walk limit stack v
    refine ⟨s', returns, walking', stack', fun w hw => ?_⟩
    rcases mem_append.mp hw with hw | hw
    · exact kept w (seen w hw)
    · rwa [mem_singleton.mp hw]
  obtain ⟨s, returns, walking, stack, seen⟩ := Returns.foldlM _ _ step ⟨init, rfl, by simp⟩
  have empty := walking.st_eq_nil stack
  refine ⟨s, returns, ?_, fun v => ?_, walking.closed⟩
  · simpa [empty] using walking.nodup
  · have := (walking.visited v).mp (seen v (mem_finRange v))
    rw [empty] at this
    exact this.resolve_left (by simp)

end Tarjan

end Uwvm2.Loader
