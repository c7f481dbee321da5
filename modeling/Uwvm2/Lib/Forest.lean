import Mathlib

/-!
# Forests

A forest is given by its parent function. `Below` is the descendant relation. A
depth-first walk numbers the nodes when it enters and when it leaves them, and the
numbers decide `Below` (`Walk.labelled`). The children of a node can be kept in linked
lists (`Linked`), and an ancestor is known by its depth (`Levelled.eq_of_depth_eq`).
-/

namespace Forest

open Function List Relation

-- Descendants

section Below

variable {α β : Type} {parent : α → Option α}

/-- `a` is `b` or one of its descendants. -/
def Below (parent : α → Option α) : α → α → Prop :=
  ReflTransGen fun a p => parent a = some p

theorem Below.refl : Below parent a a := ReflTransGen.refl

theorem Below.trans (h : Below parent a b) (h' : Below parent b c) :
    Below parent a c := ReflTransGen.trans h h'

theorem Below.single (h : parent a = some p) : Below parent a p :=
  ReflTransGen.single h

theorem Below.mono (h : ∀ {a p}, parent a = some p → parent' a = some p) (hab : Below parent a b) :
    Below parent' a b := by
  induction hab with
  | refl => exact .refl
  | tail _ hstep ih => exact .trans ih (.single (h hstep))

theorem below_iff_head : Below parent a b ↔ a = b ∨ ∃ p, parent a = some p ∧ Below parent p b := by
  refine ReflTransGen.cases_head_iff.trans ?_
  rfl

theorem below_iff_tail : Below parent a b ↔ a = b ∨ ∃ c, Below parent a c ∧ parent c = some b := by
  refine (ReflTransGen.cases_tail_iff _ _ _).trans ?_
  rw [eq_comm]
  rfl

theorem Below.total (hb : Below parent a b) (hc : Below parent a c) :
    Below parent b c ∨ Below parent c b := by
  induction hb using ReflTransGen.head_induction_on with
  | refl => exact .inl hc
  | @head a a' hstep hrest ih =>
    rcases below_iff_head.mp hc with rfl | ⟨p, hp, hpc⟩
    · exact .inr (.trans (.single hstep) hrest)
    · cases hstep.symm.trans hp
      exact ih hpc

theorem below_map_iff (hclosed : ∀ a ∈ nodes, ∀ p, parent a = some p → p ∈ nodes)
    (hmap : ∀ a ∈ nodes, super (f a) = (parent a).map f) (hinj : Set.InjOn f nodes) (ha : a ∈ nodes)
    (hb : b ∈ nodes) : Below super (f a) (f b) ↔ Below parent a b := by
  constructor
  · intro h
    generalize hx : f a = x at h
    induction h using ReflTransGen.head_induction_on generalizing a with
    | refl =>
      obtain rfl := hinj ha hb hx
      exact .refl
    | head hstep _ ih =>
      rw [← hx, hmap a ha, Option.map_eq_some_iff] at hstep
      obtain ⟨p, hp, hfp⟩ := hstep
      exact .trans (.single hp) (ih (hclosed a ha p hp) hfp)
  · intro h
    induction h using ReflTransGen.head_induction_on with
    | refl => exact .refl
    | @head a p hstep _ ih =>
      have hsuper : super (f a) = some (f p) := by rw [hmap a ha, hstep, Option.map_some]
      exact .trans (.single hsuper) (ih (hclosed a ha p hstep))

end Below

-- Depth-first walks

/-- The numbers that a walk gives to the nodes. -/
@[ext]
structure Labels where
  pre : Nat → Nat
  fin : Nat → Nat

def Labels.enter (L : Labels) (i c : Nat) : Labels := { L with pre := update L.pre i c }

def Labels.leave (L : Labels) (i c : Nat) : Labels := { L with fin := update L.fin i c }

/-- `Walk ch is c L c' L'`: visiting the trees at `is` in turn takes the clock from `c`
to `c'` and the labels from `L` to `L'`. The children of a node are visited from the
last one to the first. -/
inductive Walk (ch : Nat → List Nat) : List Nat → Nat → Labels → Nat → Labels → Prop
  | nil : Walk ch [] c L c L
  | cons {i c c₁ c₂ : Nat} {is : List Nat} {L L₁ L₂ : Labels} :
      Walk ch (ch i).reverse (c + 1) (L.enter i c) c₁ L₁ →
      Walk ch is c₁ (L₁.leave i c₁) c₂ L₂ → Walk ch (i :: is) c L c₂ L₂

theorem Walk.head (h : Walk ch (i :: is) c L c' L') :
    ∃ c₁ L₁, Walk ch [i] c L c₁ L₁ ∧ Walk ch is c₁ L₁ c' L' := by
  cases h with
  | cons htree hrest => exact ⟨_, _, .cons htree .nil, hrest⟩

/-- Walks end when children come after their parents and are bounded. -/
theorem exists_walk (hch : ∀ i, ∀ j ∈ ch i, i < j ∧ j < n) (his : ∀ i ∈ is, i < n) (c : Nat)
    (L : Labels) : ∃ c' L', Walk ch is c L c' L' := by
  -- induction on how far the nodes are from the bound
  have hwalk : ∀ k, ∀ is : List Nat, (∀ i ∈ is, i < n ∧ n ≤ i + k) →
      ∀ c L, ∃ c' L', Walk ch is c L c' L' := by
    intro k
    induction k with
    | zero =>
      intro is his c L
      have hnil : is = [] := eq_nil_iff_forall_not_mem.mpr fun i hi =>
        absurd (his i hi).1 (Nat.not_lt.mpr (his i hi).2)
      exact ⟨c, L, hnil ▸ .nil⟩
    | succ k ihk =>
      intro is
      induction is with
      | nil => exact fun _ c L => ⟨c, L, .nil⟩
      | cons i is ih =>
        intro hle c L
        have hkids : ∀ j ∈ (ch i).reverse, j < n ∧ n ≤ j + k := fun j hj => by
          have hi := hle i mem_cons_self
          have hj := hch i j (mem_reverse.mp hj)
          omega
        obtain ⟨c₁, L₁, htree⟩ := ihk _ hkids (c + 1) (L.enter i c)
        obtain ⟨c', L', hrest⟩ := ih (fun j hj => hle j (mem_cons_of_mem _ hj)) c₁
          (L₁.leave i c₁)
        exact ⟨c', L', .cons htree hrest⟩
  exact hwalk n is (fun i hi => ⟨his i hi, Nat.le_add_left n i⟩) c L

theorem Walk.le (h : Walk ch is c L c' L') : c ≤ c' := by
  induction h with
  | nil => exact Nat.le_refl _
  | cons _ _ ihtree ihrest => exact Nat.le_of_succ_le (ihtree.trans ihrest)

section Intervals

variable {parent : Nat → Option Nat}

/-- The nodes of the trees at `is`. -/
def Under (parent : Nat → Option Nat) (is : List Nat) (x : Nat) : Prop :=
  ∃ i ∈ is, Below parent x i

/-- What a walk over the trees at `is` achieves: every time between `c` and `c'` is the
number of one of their nodes, a node's numbers enclose those of its descendants and
of no other node, and nodes elsewhere keep theirs. -/
structure Labelled (parent : Nat → Option Nat) (is : List Nat) (c : Nat) (L : Labels) (c' : Nat)
    (L' : Labels) : Prop where
  le : c ≤ c'
  frame : ∀ x, ¬ Under parent is x → L'.pre x = L.pre x ∧ L'.fin x = L.fin x
  range : ∀ x, Under parent is x → c ≤ L'.pre x ∧ L'.pre x < L'.fin x ∧ L'.fin x ≤ c'
  below : ∀ x y, Under parent is x → Under parent is y →
    (Below parent x y ↔ L'.pre y ≤ L'.pre x ∧ L'.pre x < L'.fin y)
  onto : ∀ k, c ≤ k → k < c' → ∃ x, Under parent is x ∧ L'.pre x = k

def Separate (parent : Nat → Option Nat) (is : List Nat) : Prop :=
  is.Pairwise fun i j => ∀ x, Below parent x i → ¬ Below parent x j

variable (hparent : ∀ {i p}, parent i = some p → p < i)

include hparent

theorem Below.le (h : Below parent a b) : b ≤ a := by
  induction h with
  | refl => exact Nat.le_refl _
  | tail _ hstep ih => exact Nat.le_of_lt (Nat.lt_of_lt_of_le (hparent hstep) ih)

theorem separate_of_same_parent (hnodup : is.Nodup) (his : ∀ i ∈ is, parent i = p) :
    Separate parent is := by
  refine hnodup.imp_of_mem fun {i j} hi hj hne x hxi hxj => ?_
  -- the parent of a lower ancestor would lie below the other one, its own child
  have hupper : ∀ {i j}, i ≠ j → parent i = p → parent j = p → ¬ Below parent i j := by
    intro i j hne hi hj hij
    rcases below_iff_head.mp hij with rfl | ⟨q, hq, hqj⟩
    · exact hne rfl
    · have hle := hqj.le hparent
      have hlt := hparent (hj.trans (hi.symm.trans hq))
      omega
  rcases hxi.total hxj with h | h
  · exact hupper hne (his i hi) (his j hj) h
  · exact hupper (Ne.symm hne) (his j hj) (his i hi) h

section

omit hparent

theorem Under.of_below (hy : Under parent is y) (hxy : Below parent x y) : Under parent is x := by
  obtain ⟨i, hi, hyi⟩ := hy
  exact ⟨i, hi, hxy.trans hyi⟩

theorem under_singleton : Under parent [i] x ↔ Below parent x i := by
  simp [Under]

theorem under_append : Under parent (is ++ js) x ↔ Under parent is x ∨ Under parent js x := by
  simp [Under, or_and_right, exists_or]

theorem Labelled.append (hsep : ∀ x, Under parent is x → ¬ Under parent js x)
    (h₁ : Labelled parent is c L c₁ L₁) (h₂ : Labelled parent js c₁ L₁ c₂ L₂) :
    Labelled parent (is ++ js) c L c₂ L₂ := by
  have hkeep : ∀ x, Under parent is x → L₂.pre x = L₁.pre x ∧ L₂.fin x = L₁.fin x :=
    fun x hx => h₂.frame x (hsep x hx)
  refine ⟨h₁.le.trans h₂.le, fun x hx => ?_, fun x hx => ?_, fun x y hx hy => ?_,
    fun k hk hk' => ?_⟩
  · rw [under_append, not_or] at hx
    exact ⟨(h₂.frame x hx.2).1.trans (h₁.frame x hx.1).1,
      (h₂.frame x hx.2).2.trans (h₁.frame x hx.1).2⟩
  · rcases under_append.mp hx with hx | hx
    · rw [(hkeep x hx).1, (hkeep x hx).2]
      have hrange := h₁.range x hx
      exact ⟨hrange.1, hrange.2.1, hrange.2.2.trans h₂.le⟩
    · have hrange := h₂.range x hx
      exact ⟨h₁.le.trans hrange.1, hrange.2⟩
  · rcases under_append.mp hx with hx | hx <;> rcases under_append.mp hy with hy | hy
    · rw [(hkeep x hx).1, (hkeep y hy).1, (hkeep y hy).2]
      exact h₁.below x y hx hy
    · -- the second trees are numbered later
      rw [(hkeep x hx).1]
      have hxr := h₁.range x hx
      have hyr := h₂.range y hy
      exact iff_of_false (fun h => hsep x hx (hy.of_below h)) (by omega)
    · rw [(hkeep y hy).1, (hkeep y hy).2]
      have hxr := h₂.range x hx
      have hyr := h₁.range y hy
      exact iff_of_false (fun h => hsep x (hy.of_below h) hx) (by omega)
    · exact h₂.below x y hx hy
  · rcases Nat.lt_or_ge k c₁ with hlt | hge
    · obtain ⟨x, hx, hpre⟩ := h₁.onto k hk hlt
      exact ⟨x, under_append.mpr (.inl hx), (hkeep x hx).1.trans hpre⟩
    · obtain ⟨x, hx, hpre⟩ := h₂.onto k hge hk'
      exact ⟨x, under_append.mpr (.inr hx), hpre⟩

end

/-- Entering a node, walking over its children and leaving it. -/
theorem Labelled.node (hkids : ∀ x, parent x = some i ↔ x ∈ kids)
    (h : Labelled parent kids (c + 1) (L.enter i c) c₁ L₁) :
    Labelled parent [i] c L c₁ (L₁.leave i c₁) := by
  have hunder : ∀ x, Under parent [i] x ↔ x = i ∨ Under parent kids x := by
    intro x
    rw [under_singleton, below_iff_tail]
    refine or_congr Iff.rfl ⟨?_, ?_⟩
    · rintro ⟨k, hxk, hk⟩
      exact ⟨k, (hkids k).mp hk, hxk⟩
    · rintro ⟨k, hk, hxk⟩
      exact ⟨k, hxk, (hkids k).mpr hk⟩
  have hbelow : ∀ x, Under parent kids x → Below parent x i := fun x hx =>
    under_singleton.mp ((hunder x).mpr (.inr hx))
  have hlt : ∀ x, Under parent kids x → i < x := by
    rintro x ⟨k, hk, hxk⟩
    exact Nat.lt_of_lt_of_le (hparent ((hkids k).mpr hk)) (hxk.le hparent)
  have hself : ¬ Under parent kids i := fun hi => Nat.lt_irrefl i (hlt i hi)
  have hpre : (L₁.leave i c₁).pre i = c := by
    simpa [Labels.leave, Labels.enter] using (h.frame i hself).1
  have hsame : (L₁.leave i c₁).pre = L₁.pre := rfl
  have hfin : (L₁.leave i c₁).fin i = c₁ := by simp [Labels.leave]
  have hkeep : ∀ x, Under parent kids x → (L₁.leave i c₁).fin x = L₁.fin x := fun x hx => by
    have hne : x ≠ i := Nat.ne_of_gt (hlt x hx)
    simp [Labels.leave, hne]
  have hle := h.le
  refine ⟨by omega, fun x hx => ?_, fun x hx => ?_, fun x y hx hy => ?_, fun k hk hk' => ?_⟩
  · rw [hunder, not_or] at hx
    have hframe := h.frame x hx.2
    simpa [Labels.leave, Labels.enter, hx.1] using hframe
  · rcases (hunder x).mp hx with rfl | hkid
    · omega
    · have hrange := h.range x hkid
      rw [hkeep x hkid, hsame]
      exact ⟨by omega, hrange.2⟩
  · rcases (hunder x).mp hx with rfl | hkid <;> rcases (hunder y).mp hy with rfl | hkid'
    · exact iff_of_true .refl (by omega)
    · have hrange := h.range y hkid'
      refine iff_of_false (fun hb => ?_) ?_
      · exact absurd (hb.le hparent) (Nat.not_le.mpr (hlt y hkid'))
      · rw [hpre]
        exact fun hle => absurd hle.1 (Nat.not_le.mpr hrange.1)
    · have hrange := h.range x hkid
      rw [hpre, hfin, hsame]
      exact iff_of_true (hbelow x hkid) ⟨by omega, Nat.lt_of_lt_of_le hrange.2.1 hrange.2.2⟩
    · rw [hkeep y hkid']
      exact h.below x y hkid hkid'
  · rcases Nat.eq_or_lt_of_le hk with rfl | hlt'
    · exact ⟨i, (hunder i).mpr (.inl rfl), hpre⟩
    · obtain ⟨x, hx, hxk⟩ := h.onto k hlt' hk'
      exact ⟨x, (hunder x).mpr (.inr hx), hxk⟩

omit hparent in
theorem Labelled.nil : Labelled parent [] c L c L := by
  have hno : ∀ x, ¬ Under parent [] x := by simp [Under]
  exact ⟨Nat.le_refl c, fun _ _ => ⟨rfl, rfl⟩, fun x hx => absurd hx (hno x),
    fun x _ hx => absurd hx (hno x), fun k hk hk' => absurd hk' (Nat.not_lt.mpr hk)⟩

/-- A depth-first walk over separate trees numbers their nodes by enclosing intervals. -/
theorem Walk.labelled (hch : ∀ i x, parent x = some i ↔ x ∈ ch i) (hnodup : ∀ i, (ch i).Nodup)
    (h : Walk ch is c L c' L') (hsep : Separate parent is) : Labelled parent is c L c' L' := by
  induction h with
  | nil => exact .nil
  | @cons i c c₁ c₂ is L L₁ L₂ _ _ ihtree ihrest =>
    obtain ⟨hfirst, hothers⟩ := pairwise_cons.mp hsep
    have hkids : Separate parent (ch i).reverse :=
      separate_of_same_parent hparent (nodup_reverse.mpr (hnodup i))
        fun k hk => (hch i k).mpr (mem_reverse.mp hk)
    have htree : Labelled parent [i] c L c₁ (L₁.leave i c₁) :=
      .node hparent (fun x => by rw [hch, mem_reverse]) (ihtree hkids)
    refine htree.append (fun x hx hrest => ?_) (ihrest hothers)
    obtain ⟨j, hj, hxj⟩ := hrest
    exact hfirst j hj x (under_singleton.mp hx) hxj

omit hparent in
theorem Labelled.ticks_le (h : Labelled parent is c L c' L') (hn : ∀ x, Under parent is x → x < n) :
    c' - c ≤ n := by
  have hsurj : Set.SurjOn L'.pre (Finset.range n) (Finset.Ico c c') := by
    intro k hk
    rw [Finset.mem_coe, Finset.mem_Ico] at hk
    obtain ⟨x, hx, hpre⟩ := h.onto k hk.1 hk.2
    exact ⟨x, by simpa using hn x hx, hpre⟩
  have hcard := Finset.card_le_card_of_surjOn L'.pre hsurj
  rwa [Nat.card_Ico, Finset.card_range] at hcard

section Laminar

variable {is : List Nat} {c c' : Nat} {L L' : Labels} (h : Labelled parent is c L c' L')

include h

omit hparent in
theorem Labelled.mem_Ico (hx : Under parent is x) :
    k ∈ Finset.Ico (L'.pre x) (L'.fin x) ↔ ∃ z, Below parent z x ∧ L'.pre z = k := by
  rw [Finset.mem_Ico]
  constructor
  · rintro ⟨hle, hlt⟩
    have hrange := h.range x hx
    obtain ⟨z, hz, rfl⟩ := h.onto k (hrange.1.trans hle) (hlt.trans_le hrange.2.2)
    exact ⟨z, (h.below z x hz hx).mpr ⟨hle, hlt⟩, rfl⟩
  · rintro ⟨z, hzx, rfl⟩
    exact (h.below z x (hx.of_below hzx) hx).mp hzx

omit hparent in
theorem Labelled.Ico_subset (hy : Under parent is y) (hxy : Below parent x y) :
    Finset.Ico (L'.pre x) (L'.fin x) ⊆ Finset.Ico (L'.pre y) (L'.fin y) := by
  intro k hk
  obtain ⟨z, hzx, hz⟩ := (h.mem_Ico (hy.of_below hxy)).mp hk
  exact (h.mem_Ico hy).mpr ⟨z, hzx.trans hxy, hz⟩

theorem Labelled.pre_inj (hx : Under parent is x) (hy : Under parent is y)
    (heq : L'.pre x = L'.pre y) : x = y := by
  have hxy := (h.below x y hx hy).mpr ⟨heq.ge, heq ▸ (h.range y hy).2.1⟩
  have hyx := (h.below y x hy hx).mpr ⟨heq.le, heq ▸ (h.range x hx).2.1⟩
  exact Nat.le_antisymm (hyx.le hparent) (hxy.le hparent)

/-- Two intervals that meet are nested: the node that they share has both owners above. -/
theorem Labelled.laminar (hx : Under parent is x) (hy : Under parent is y) :
    Finset.Ico (L'.pre x) (L'.fin x) ⊆ Finset.Ico (L'.pre y) (L'.fin y) ∨
      Finset.Ico (L'.pre y) (L'.fin y) ⊆ Finset.Ico (L'.pre x) (L'.fin x) ∨
      Disjoint (Finset.Ico (L'.pre x) (L'.fin x)) (Finset.Ico (L'.pre y) (L'.fin y)) := by
  by_cases hmeet : ∃ k, k ∈ Finset.Ico (L'.pre x) (L'.fin x) ∧ k ∈ Finset.Ico (L'.pre y) (L'.fin y)
  · obtain ⟨k, hkx, hky⟩ := hmeet
    obtain ⟨z, hzx, hz⟩ := (h.mem_Ico hx).mp hkx
    obtain ⟨z', hzy, hz'⟩ := (h.mem_Ico hy).mp hky
    obtain rfl := h.pre_inj hparent (hx.of_below hzx) (hy.of_below hzy) (hz.trans hz'.symm)
    rcases hzx.total hzy with hxy | hyx
    · exact .inl (h.Ico_subset hy hxy)
    · exact .inr (.inl (h.Ico_subset hx hyx))
  · refine .inr (.inr (Finset.disjoint_left.mpr fun k hkx hky => hmeet ⟨k, hkx, hky⟩))

end Laminar

end Intervals

-- Lists of children

section Children

variable {parent first next : Nat → Option Nat} {n p : Nat}

def children (parent : Nat → Option Nat) (n p : Nat) : List Nat :=
  ((range n).filter fun i => parent i = some p).reverse

theorem mem_children : i ∈ children parent n p ↔ i < n ∧ parent i = some p := by
  simp [children]

theorem children_nodup : (children parent n p).Nodup :=
  nodup_reverse.mpr (nodup_range.filter _)

theorem children_length : (children parent n p).length ≤ n := by
  have hle := length_filter_le (fun i => decide (parent i = some p)) (range n)
  simpa [children] using hle

theorem children_succ : children parent (n + 1) p =
    if parent n = some p then n :: children parent n p else children parent n p := by
  by_cases h : parent n = some p <;> simp [children, range_succ, h]

/-- From `start`, one meets `l` along `next`. -/
inductive Chain (next : Nat → Option Nat) : Option Nat → List Nat → Prop
  | nil : Chain next none []
  | cons {i : Nat} {l : List Nat} : Chain next (next i) l → Chain next (some i) (i :: l)

theorem Chain.congr (h : Chain next start l) (heq : ∀ i ∈ l, next' i = next i) :
    Chain next' start l := by
  induction h with
  | nil => exact .nil
  | @cons i l _ ih =>
    refine .cons ?_
    rw [heq i mem_cons_self]
    exact ih fun j hj => heq j (mem_cons_of_mem _ hj)

/-- Every node is linked to its last child, and children to the siblings before them. -/
def Linked (parent : Nat → Option Nat) (n : Nat) (first next : Nat → Option Nat) : Prop :=
  ∀ p, Chain next (first p) (children parent n p)

theorem linked_zero : Linked parent 0 (fun _ => none) next := fun _ => .nil

theorem Linked.skip (h : Linked parent n first next) (hn : parent n = none) :
    Linked parent (n + 1) first next := by
  intro p
  rw [children_succ, if_neg (by simp [hn])]
  exact h p

theorem Linked.add (h : Linked parent n first next) (hn : parent n = some p) :
    Linked parent (n + 1) (update first p (some n))
      (update next n (first p)) := by
  have hkeep : ∀ q, Chain (update next n (first p)) (first q) (children parent n q) :=
    fun q => (h q).congr fun i hi =>
      update_of_ne (Nat.ne_of_lt (mem_children.mp hi).1) _ _
  intro q
  rw [children_succ, hn]
  by_cases hpq : p = q
  · subst hpq
    rw [if_pos rfl, update_self]
    refine .cons ?_
    rw [update_self]
    exact hkeep p
  · rw [if_neg (by simpa using hpq), update_of_ne (Ne.symm hpq)]
    exact hkeep q

end Children

-- Levels

section Levels

variable {parent : Nat → Option Nat} {depth : Nat → Nat}

/-- The depth of a node is the number of its proper ancestors. -/
def Levelled (parent : Nat → Option Nat) (depth : Nat → Nat) : Prop :=
  ∀ ⦃i p⦄, parent i = some p → depth i = depth p + 1

theorem Levelled.eq_or_lt (h : Levelled parent depth) (hab : Below parent a b) :
    a = b ∨ depth b < depth a := by
  induction hab with
  | refl => exact .inl rfl
  | @tail c b _ hstep ih =>
    have hdepth := h hstep
    rcases ih with rfl | hlt
    · exact .inr (by omega)
    · exact .inr (by omega)

theorem Levelled.eq_of_depth_eq (h : Levelled parent depth) (hab : Below parent a b)
    (hac : Below parent a c) (hdepth : depth b = depth c) : b = c := by
  rcases hab.total hac with hbc | hcb
  · rcases h.eq_or_lt hbc with heq | hlt
    · exact heq
    · omega
  · rcases h.eq_or_lt hcb with heq | hlt
    · exact heq.symm
    · omega

end Levels

end Forest
