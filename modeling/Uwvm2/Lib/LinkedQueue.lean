import Mathlib

/-!
# Doubly linked queues

Nodes hold links to their neighbours; a queue holds its ends. Several queues may share
one set of nodes. A node is linked at the end and unlinked anywhere. A list that only knows
its first node gets new nodes at the front.
-/

namespace LinkedQueue

open Function List

variable {A σ : Type}

structure Links (A : Type) where
  previous : A → Option A := fun _ => none
  next : A → Option A := fun _ => none

structure Ends (A : Type) where
  first : Option A := none
  last : Option A := none

-- Segments

/-- The nodes of a list stand one behind the other: in front of them is `p`, the first of
them is `c`; the last of them is `p'`, behind them is `c'`. -/
def Segment (h : Links A) : Option A → Option A → List A → Option A → Option A → Prop
  | p, c, [], p', c' => p = p' ∧ c = c'
  | p, c, a :: l, p', c' => c = some a ∧ h.previous a = p ∧ Segment h (some a) (h.next a) l p' c'

/-- The queue holds the nodes of the list, in this order. -/
def IsQueue (h : Links A) (ends : Ends A) (l : List A) : Prop :=
  Segment h none ends.first l ends.last none

variable {h : Links A} {ends : Ends A} {p c p' c' : Option A} {a : A} {l xs ys : List A}

theorem segment_append :
    Segment h p c (xs ++ ys) p' c' ↔ ∃ m k, Segment h p c xs m k ∧ Segment h m k ys p' c' := by
  induction xs generalizing p c with
  | nil =>
    constructor
    · exact fun hys => ⟨p, c, ⟨rfl, rfl⟩, hys⟩
    · rintro ⟨_, _, ⟨rfl, rfl⟩, hys⟩
      exact hys
  | cons x xs ih =>
    simp only [cons_append, Segment, ih]
    constructor
    · rintro ⟨hc, hp, m, k, hxs, hys⟩
      exact ⟨m, k, ⟨hc, hp, hxs⟩, hys⟩
    · rintro ⟨m, k, ⟨hc, hp, hxs⟩, hys⟩
      exact ⟨hc, hp, m, k, hxs, hys⟩

theorem Segment.append (hxs : Segment h p c xs m k) (hys : Segment h m k ys p' c') :
    Segment h p c (xs ++ ys) p' c' :=
  segment_append.mpr ⟨m, k, hxs, hys⟩

theorem segment_concat : Segment h p c (xs ++ [a]) p' c' ↔
      Segment h p c xs (h.previous a) (some a) ∧ p' = some a ∧ h.next a = c' := by
  rw [segment_append]
  constructor
  · rintro ⟨m, k, hxs, rfl, rfl, rfl, rfl⟩
    exact ⟨hxs, rfl, rfl⟩
  · rintro ⟨hxs, rfl, rfl⟩
    exact ⟨_, _, hxs, rfl, rfl, rfl, rfl⟩

/-- Only the links of its own nodes matter to a segment. -/
theorem Segment.congr (hs : Segment h p c l p' c')
    (hprevious : ∀ a ∈ l, h'.previous a = h.previous a)
    (hnext : ∀ a ∈ l, h'.next a = h.next a) : Segment h' p c l p' c' := by
  induction l generalizing p c with
  | nil => exact hs
  | cons a l ih =>
    obtain ⟨hc, hp, hl⟩ := hs
    refine ⟨hc, (hprevious a mem_cons_self).trans hp, ?_⟩
    rw [hnext a mem_cons_self]
    exact ih hl (fun b hb => hprevious b (mem_cons_of_mem _ hb))
      fun b hb => hnext b (mem_cons_of_mem _ hb)

theorem Segment.first_eq (hs : Segment h p c l p' c') : c = l.head?.or c' := by
  cases l with
  | nil => exact hs.2
  | cons a l => exact hs.1

theorem Segment.last_eq (hs : Segment h p c l p' c') : p' = l.getLast?.or p := by
  cases l using List.reverseRecOn with
  | nil => exact hs.1.symm
  | append_singleton xs a => rw [getLast?_concat, (segment_concat.mp hs).2.1, Option.some_or]

theorem Segment.last_mem_of (hs : Segment h none c l p' c') (ha : p' = some a) : a ∈ l := by
  have hlast := hs.last_eq
  rw [ha, Option.or_none] at hlast
  exact mem_of_getLast? hlast.symm

theorem Segment.first_mem_of (hs : Segment h p c l p' none) (ha : c = some a) : a ∈ l := by
  have hhead := hs.first_eq
  rw [ha, Option.or_none] at hhead
  exact mem_of_head? hhead.symm

theorem isQueue_nil : IsQueue h {} ([] : List A) := ⟨rfl, rfl⟩

-- Linking and unlinking

variable [DecidableEq A]

/-- Write a link of a neighbour, if there is one. -/
def writeAt (f : A → Option A) (neighbour : Option A) (target : Option A) : A → Option A :=
  match neighbour with
  | some a => update f a target
  | none => f

@[simp] theorem writeAt_some {f : A → Option A} {target : Option A} :
    writeAt f (some a) target = update f a target := rfl

theorem writeAt_of_ne (hne : neighbour ≠ some a) : writeAt f neighbour target a = f a := by
  cases neighbour with
  | none => rfl
  | some b => exact update_of_ne (fun heq => hne (congrArg some heq.symm)) _ _

def link (h : Links A) (ends : Ends A) (node : A) : Links A × Ends A :=
  ({ previous := update h.previous node ends.last
     next := writeAt h.next ends.last (some node) },
   { first := if ends.last = none then some node else ends.first
     last := some node })

def unlink (h : Links A) (ends : Ends A) (node : A) : Links A × Ends A :=
  ({ previous := writeAt h.previous (h.next node) (h.previous node)
     next := writeAt h.next (h.previous node) (h.next node) },
   { first := if h.previous node = none then h.next node else ends.first
     last := if h.next node = none then h.previous node else ends.last })

theorem IsQueue.link (hq : IsQueue h ends l) (hl : l.Nodup) (ha : a ∉ l) (hnext : h.next a = none) :
    IsQueue (link h ends a).1 (link h ends a).2 (l ++ [a]) := by
  have hprevious {x : A} (hx : x ∈ l) :
      update h.previous a ends.last x = h.previous x :=
    update_of_ne (ne_of_mem_of_not_mem hx ha) _ _
  cases l using List.reverseRecOn with
  | nil =>
    have hlast : ends.last = none := hq.1.symm
    simp [IsQueue, LinkedQueue.link, hlast, Segment, writeAt, hnext]
  | append_singleton xs b =>
    obtain ⟨hxs, hlast, -⟩ := segment_concat.mp hq
    have hab : a ≠ b := fun heq => ha (by simp [heq])
    have hb : b ∉ xs := fun hb => disjoint_of_nodup_append hl hb (mem_singleton_self b)
    simp only [IsQueue, LinkedQueue.link, hlast, writeAt_some, reduceCtorEq,
      if_false] at hprevious ⊢
    refine segment_concat.mpr ⟨segment_concat.mpr
      ⟨?_, update_self _ _ _, update_self _ _ _⟩, rfl,
      (update_of_ne hab _ _).trans hnext⟩
    · dsimp only
      rw [hprevious (by simp)]
      exact hxs.congr (fun x hx => hprevious (mem_append_left _ hx))
        fun x hx => update_of_ne (ne_of_mem_of_not_mem hx hb) _ _

theorem IsQueue.link_other (hq : IsQueue h ends l) (hxs : IsQueue h ends' xs)
    (hdisjoint : List.Disjoint l xs) (ha : a ∉ xs) :
    IsQueue (LinkedQueue.link h ends a).1 ends' xs := by
  refine Segment.congr hxs (fun x hx => update_of_ne (ne_of_mem_of_not_mem hx ha) _ _)
    fun x hx => writeAt_of_ne fun hlast => hdisjoint (Segment.last_mem_of hq hlast) hx

section Unlink

variable (hxs : Segment h none ends.first xs (h.previous a) (some a))
  (hys : Segment h (some a) (h.next a) ys ends.last none)
include hxs hys

theorem Segment.unlink_front (hnodup : xs.Nodup) (hdisjoint : List.Disjoint xs ys) :
    Segment (unlink h ends a).1 none (unlink h ends a).2.first xs (h.previous a) (h.next a) := by
  have hkeep : ∀ x ∈ xs, (unlink h ends a).1.previous x = h.previous x := fun x hx =>
    writeAt_of_ne fun hnext => hdisjoint hx (hys.first_mem_of hnext)
  cases xs using List.reverseRecOn with
  | nil =>
    have hnone : h.previous a = none := hxs.1.symm
    exact ⟨hnone.symm, by simp [unlink, hnone]⟩
  | append_singleton xs b =>
    obtain ⟨hxs', hprevious, -⟩ := segment_concat.mp hxs
    have hb : b ∉ xs := fun hb =>
      disjoint_of_nodup_append hnodup hb (mem_singleton_self b)
    refine segment_concat.mpr ⟨?_, hprevious, by simp [unlink, hprevious]⟩
    rw [hkeep b (by simp)]
    simp only [unlink, hprevious, reduceCtorEq, if_false] at hkeep ⊢
    exact hxs'.congr (fun x hx => hkeep x (mem_append_left _ hx))
      fun x hx => update_of_ne (ne_of_mem_of_not_mem hx hb) _ _

theorem Segment.unlink_back (hnodup : ys.Nodup) (hdisjoint : List.Disjoint xs ys) :
    Segment (unlink h ends a).1 (h.previous a) (h.next a) ys (unlink h ends a).2.last none := by
  have hkeep : ∀ y ∈ ys, (unlink h ends a).1.next y = h.next y := fun y hy =>
    writeAt_of_ne fun hprevious => hdisjoint (hxs.last_mem_of hprevious) hy
  cases ys with
  | nil =>
    have hnone : h.next a = none := hys.2
    exact ⟨by simp [unlink, hnone], hnone⟩
  | cons c ys =>
    obtain ⟨hnext, -, hys'⟩ := hys
    have hc : c ∉ ys := (nodup_cons.mp hnodup).1
    refine ⟨hnext, by simp [unlink, hnext], ?_⟩
    rw [hkeep c mem_cons_self]
    simp only [unlink, hnext, reduceCtorEq, if_false] at hkeep ⊢
    exact hys'.congr (fun y hy => update_of_ne (ne_of_mem_of_not_mem hy hc) _ _)
      fun y hy => hkeep y (mem_cons_of_mem _ hy)

end Unlink

theorem IsQueue.unlink (hq : IsQueue h ends (xs ++ a :: ys)) (hl : (xs ++ a :: ys).Nodup) :
    IsQueue (unlink h ends a).1 (unlink h ends a).2 (xs ++ ys) := by
  obtain ⟨_, _, hxs, rfl, rfl, hys⟩ := segment_append.mp hq
  obtain ⟨hnodupx, hnodupy, hdisjoint⟩ := nodup_append'.mp hl
  have hdisjoint' : List.Disjoint xs ys := fun x hx hy => hdisjoint hx (mem_cons_of_mem _ hy)
  exact (Segment.unlink_front hxs hys hnodupx hdisjoint').append
    (Segment.unlink_back hxs hys (nodup_cons.mp hnodupy).2 hdisjoint')

theorem IsQueue.unlink_other (hq : IsQueue h ends l) (ha : a ∈ l) (hother : IsQueue h ends' xs)
    (hdisjoint : List.Disjoint l xs) : IsQueue (LinkedQueue.unlink h ends a).1 ends' xs := by
  obtain ⟨front, back, rfl⟩ := append_of_mem ha
  obtain ⟨_, _, hfront, rfl, rfl, hback⟩ := segment_append.mp hq
  refine Segment.congr hother (fun x hx => writeAt_of_ne fun hnext => hdisjoint ?_ hx)
    fun x hx => writeAt_of_ne fun hprevious => hdisjoint ?_ hx
  · exact mem_append_right _ (mem_cons_of_mem _ (hback.first_mem_of hnext))
  · exact mem_append_left _ (hfront.last_mem_of hprevious)

-- Walking along a queue

section

omit [DecidableEq A]

/-- Follow the links from `cursor` as long as `goOn` holds, for at most `fuel` nodes; `none` if
that does not suffice. -/
def walk (h : Links A) (goOn : σ → Bool) (body : σ → A → σ) : Nat → Option A → σ → Option σ
  | _, none, s => some s
  | 0, some _, s => if goOn s then none else some s
  | fuel + 1, some a, s =>
    if goOn s then walk h goOn body fuel (h.next a) (body s a) else some s

def foldWhile (goOn : σ → Bool) (body : σ → A → σ) : List A → σ → σ
  | [], s => s
  | a :: l, s => if goOn s then foldWhile goOn body l (body s a) else s

theorem Segment.walk_eq (hs : Segment h p c l p' none) (hfuel : l.length ≤ fuel) (s : σ) :
    walk h goOn body fuel c s = some (foldWhile goOn body l s) := by
  induction l generalizing p c fuel s with
  | nil =>
    obtain ⟨-, rfl⟩ := hs
    rw [walk, foldWhile]
  | cons a l ih =>
    obtain ⟨rfl, -, hl⟩ := hs
    obtain ⟨n, rfl⟩ : ∃ n, fuel = n + 1 := ⟨fuel - 1, by rw [length_cons] at hfuel; omega⟩
    rw [walk, foldWhile]
    split
    · exact ih hl (by rw [length_cons] at hfuel; omega) _
    · rfl

theorem IsQueue.walk_eq (hq : IsQueue h ends l) (hfuel : l.length ≤ fuel) (s : σ) :
    walk h goOn body fuel ends.first s = some (foldWhile goOn body l s) :=
  Segment.walk_eq hq hfuel s

end

end LinkedQueue
