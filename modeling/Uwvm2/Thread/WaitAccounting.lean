import Uwvm2.Thread.KeyedWaitSet

/-!
# Every notification is counted once

The queues of the shards together hold the linked nodes in the order of linking. Notify
counts a node when it marks it, and a marked node stays linked until its waiter has seen
the mark.
-/

namespace Uwvm2.Thread.KeyedWaitSet

open LinkedQueue Function List
open RelyGuarantee

variable {T : Type} [DecidableEq T] {t : T} {s s' : WaitSet T}

-- The loop of notify

section Mark

variable {nodes : T → Waiter} {l : List T}

@[simp] theorem mark_key : (mark nodes l t).key = (nodes t).key := by
  unfold mark
  split <;> rfl

@[simp] theorem mark_arrival : (mark nodes l t).arrival = (nodes t).arrival := by
  unfold mark
  split <;> rfl

theorem mark_of_mem (h : t ∈ l) :
    mark nodes l t = { nodes t with notified := true, asleep := false } :=
  if_pos h

theorem mark_of_not_mem (h : t ∉ l) : mark nodes l t = nodes t := if_neg h

@[simp] theorem mark_nil : mark nodes [] = nodes := rfl

theorem mark_mark (a : T) : mark (mark nodes [a]) l = mark nodes (a :: l) := by
  funext t
  by_cases ha : t = a
  · by_cases hl : t ∈ l <;> simp [mark, ha]
  · by_cases hl : t ∈ l <;> simp [mark, ha, hl]

theorem notifyNode_of_pending {a : T} (h : (r.nodes a).key = key ∧ ¬ (r.nodes a).notified) :
    notifyNode key r a =
      { nodes := mark r.nodes [a], count := r.count + 1
        counted := (r.nodes a).arrival :: r.counted } := by
  rw [notifyNode, if_pos h]
  congr 1
  funext t
  by_cases ha : t = a
  · subst ha
    simp [notifyOne, setAsleep, mark]
  · simp [notifyOne, setAsleep, mark, ha]

theorem foldWhile_notifyNode (key : WaitKey) (hl : l.Nodup) (r : Notifying T)
    (hle : r.count ≤ limit)
    (hnew : new = (l.filter fun t => (r.nodes t).key = key ∧ ¬ (r.nodes t).notified).take
      (limit - r.count)) :
    foldWhile (fun r => r.count ≠ limit) (notifyNode key) l r =
      { nodes := mark r.nodes new
        count := r.count + new.length
        counted := (new.map fun t => (r.nodes t).arrival).reverse ++ r.counted } := by
  subst hnew
  induction l generalizing r with
  | nil => simp [foldWhile]
  | cons a l ih =>
    obtain ⟨ha, hl⟩ := nodup_cons.mp hl
    rw [foldWhile]
    by_cases hcount : r.count = limit
    · rw [if_neg (by simpa using hcount), hcount, Nat.sub_self]
      rw [← hcount]
      rfl
    rw [if_pos (by simpa using hcount)]
    by_cases hpending : (r.nodes a).key = key ∧ ¬ (r.nodes a).notified
    · -- the node itself is notified, and what the rest sees is unchanged
      have hrest : (l.filter fun t => (mark r.nodes [a] t).key = key ∧
          ¬ (mark r.nodes [a] t).notified) =
          l.filter fun t => (r.nodes t).key = key ∧ ¬ (r.nodes t).notified := by
        refine filter_congr fun t ht => ?_
        rw [mark_of_not_mem (by simpa using ne_of_mem_of_not_mem ht ha)]
      have htake : limit - r.count = limit - (r.count + 1) + 1 := by omega
      rw [notifyNode_of_pending hpending, ih hl _ (show r.count + 1 ≤ limit by omega), hrest,
        filter_cons_of_pos (by simpa using hpending), htake, take_succ_cons, mark_mark]
      simp only [mark_arrival, map_cons, reverse_cons, append_assoc,
        singleton_append, length_cons]
      rw [Nat.add_right_comm]
      rfl
    · rw [notifyNode, if_neg hpending, ih hl r hle,
        filter_cons_of_neg (by simpa using hpending)]

end Mark

-- The outline

/-- A result is `notified` if and only if a notify has counted the waiter, and then just one. -/
def Settled (s : WaitSet T) : Option Nat × SuspensionResult → Prop
  | (none, result) => result.outcome ≠ .notified
  | (some arrival, result) =>
    arrival < s.arrivals ∧ (∀ t ∈ s.waiting, (s.nodes t).arrival ≠ arrival) ∧
      s.timesCounted arrival = if result.outcome = .notified then 1 else 0

structure Good (s : WaitSet T) : Prop where
  queues : ∀ shard, IsQueue s.links (s.shards shard).ends (s.queue shard)
  sorted : s.waiting.Pairwise fun t u => (s.nodes t).arrival < (s.nodes u).arrival
  arrived : ∀ t ∈ s.waiting, (s.nodes t).arrival < s.arrivals
  awake : ∀ t ∈ s.waiting, (s.nodes t).notified → (s.nodes t).asleep = false
  waiter : ∀ t ∈ s.waiting, s.timesCounted (s.nodes t).arrival = if (s.nodes t).notified then 1
    else 0
  settled : ∀ r ∈ s.results, Settled s r
  counted : ∀ n ∈ s.notifies.flatten,
    (∃ t ∈ s.waiting, (s.nodes t).arrival = n) ∨ ∃ r ∈ s.results, r.1 = some n

section

omit [DecidableEq T]

theorem Good.nodup (hs : Good s) : s.waiting.Nodup :=
  hs.sorted.imp fun h heq => absurd h (by rw [heq]; exact Nat.lt_irrefl _)

theorem Good.arrivals_nodup (hs : Good s) : (s.waiting.map fun t => (s.nodes t).arrival).Nodup :=
  pairwise_map.mpr (hs.sorted.imp Nat.ne_of_lt)

theorem Good.arrival_inj (hs : Good s) (ht : t ∈ s.waiting) (hu : u ∈ s.waiting)
    (h : (s.nodes t).arrival = (s.nodes u).arrival) : t = u :=
  inj_on_of_nodup_map hs.arrivals_nodup ht hu h

theorem Good.queue_length_le (s : WaitSet T) (shard : BitVec 6) :
    (s.queue shard).length ≤ s.waiting.length := length_filter_le _ _

end

structure Fresh (t : T) (s : WaitSet T) (key : WaitKey) : Prop where
  not_mem : t ∉ s.waiting
  key : (s.nodes t).key = key
  notified : (s.nodes t).notified = false
  next : s.links.next t = none

def At (t : T) (p : Position) (s : WaitSet T) : Prop :=
  match p with
  | .listen call | .enter call => Fresh t s call.key
  | .blocked call | .suspended call => t ∈ s.waiting ∧ (s.nodes t).key = call.key
  | _ => t ∉ s.waiting

structure Does (t : T) (s s' : WaitSet T) : Prop where
  waiting : ∀ u, u ≠ t → (u ∈ s'.waiting ↔ u ∈ s.waiting)
  key : ∀ u, u ≠ t → (s'.nodes u).key = (s.nodes u).key
  unlinked : ∀ u, u ≠ t → u ∉ s.waiting →
    (s'.nodes u).notified = (s.nodes u).notified ∧ s'.links.next u = s.links.next u

omit [DecidableEq T] in
theorem Fresh.stable {key : WaitKey} (hu : u ≠ t) (h : Fresh u s key) (hd : Does t s s') :
    Fresh u s' key where
  not_mem := fun hmem => h.not_mem ((hd.waiting u hu).mp hmem)
  key := (hd.key u hu).trans h.key
  notified := (hd.unlinked u hu h.not_mem).1.trans h.notified
  next := (hd.unlinked u hu h.not_mem).2.trans h.next

omit [DecidableEq T] in
theorem At.stable {p : Position} (hu : u ≠ t) (h : At u p s) (hd : Does t s s') : At u p s' := by
  cases p with
  | listen call | enter call => exact Fresh.stable hu h hd
  | blocked call | suspended call => exact ⟨(hd.waiting u hu).mpr h.1, (hd.key u hu).trans h.2⟩
  | outside | register | unregister | close | drain =>
    exact fun hmem => h ((hd.waiting u hu).mp hmem)

structure Fits (t : T) (s : WaitSet T) (p' : Position) (s' : WaitSet T) : Prop where
  does : Does t s s'
  good : Good s'
  at_ : At t p' s'

-- Steps that link, unlink and notify nothing

/-- The linked nodes and all that was counted are as before. Only results of waits that
linked no node are new. -/
structure Quiet (s s' : WaitSet T) : Prop where
  waiting : s'.waiting = s.waiting
  arrivals : s'.arrivals = s.arrivals
  notifies : s'.notifies = s.notifies
  ends : ∀ shard, (s'.shards shard).ends = (s.shards shard).ends
  previous : ∀ t ∈ s.waiting, s'.links.previous t = s.links.previous t
  next : ∀ t ∈ s.waiting, s'.links.next t = s.links.next t
  key : ∀ t ∈ s.waiting, (s'.nodes t).key = (s.nodes t).key
  notified : ∀ t ∈ s.waiting, (s'.nodes t).notified = (s.nodes t).notified
  arrival : ∀ t ∈ s.waiting, (s'.nodes t).arrival = (s.nodes t).arrival
  kept : ∀ r ∈ s.results, r ∈ s'.results
  unlinked : ∀ r ∈ s'.results, r ∈ s.results ∨ r.1 = none ∧ r.2.outcome ≠ .notified

section Quiet

omit [DecidableEq T]

theorem Quiet.queue_eq (h : Quiet s s') (shard : BitVec 6) : s'.queue shard = s.queue shard := by
  rw [WaitSet.queue, WaitSet.queue, h.waiting]
  exact filter_congr fun t ht => by rw [h.key t ht]

theorem Quiet.timesCounted_eq (h : Quiet s s') (n : Nat) :
    s'.timesCounted n = s.timesCounted n := by
  rw [WaitSet.timesCounted, WaitSet.timesCounted, h.notifies]

theorem Quiet.settled (h : Quiet s s') (hr : Settled s r) : Settled s' r := by
  obtain ⟨_ | n, result⟩ := r
  · exact hr
  · obtain ⟨hlt, hne, hcount⟩ := hr
    refine ⟨by rwa [h.arrivals], fun t ht => ?_, by rwa [h.timesCounted_eq]⟩
    rw [h.waiting] at ht
    rw [h.arrival t ht]
    exact hne t ht

theorem Good.quiet (hs : Good s) (h : Quiet s s')
    (hawake : ∀ t ∈ s.waiting, (s'.nodes t).notified → (s'.nodes t).asleep = false) : Good s' where
  queues shard := by
    rw [h.queue_eq, h.ends]
    refine Segment.congr (hs.queues shard) (fun t ht => h.previous t ?_) fun t ht => h.next t ?_
    · exact (mem_filter.mp ht).1
    · exact (mem_filter.mp ht).1
  sorted := by
    rw [h.waiting]
    refine hs.sorted.imp_of_mem fun ht hu hlt => ?_
    rwa [h.arrival _ ht, h.arrival _ hu]
  arrived t ht := by
    rw [h.waiting] at ht
    rw [h.arrival t ht, h.arrivals]
    exact hs.arrived t ht
  awake t ht := hawake t (h.waiting ▸ ht)
  waiter t ht := by
    rw [h.waiting] at ht
    rw [h.timesCounted_eq, h.arrival t ht, h.notified t ht]
    exact hs.waiter t ht
  settled r hr := by
    rcases h.unlinked r hr with hr | ⟨hnone, houtcome⟩
    · exact h.settled (hs.settled r hr)
    · obtain ⟨_, _⟩ := r
      cases hnone
      exact houtcome
  counted n hn := by
    rw [h.notifies] at hn
    rcases hs.counted n hn with ⟨t, ht, rfl⟩ | ⟨r, hr, hrn⟩
    · exact .inl ⟨t, h.waiting ▸ ht, h.arrival t ht⟩
    · exact .inr ⟨r, h.kept r hr, hrn⟩

theorem Quiet.refl (s : WaitSet T) : Quiet s s :=
  ⟨rfl, rfl, rfl, fun _ => rfl, fun _ _ => rfl, fun _ _ => rfl, fun _ _ => rfl, fun _ _ => rfl,
    fun _ _ => rfl, fun _ h => h, fun _ h => .inl h⟩

theorem Does.same (hwaiting : s'.waiting = s.waiting) (hnodes : s'.nodes = s.nodes)
    (hlinks : s'.links = s.links) : Does t s s' :=
  ⟨fun _ _ => by rw [hwaiting], fun _ _ => by rw [hnodes],
    fun _ _ _ => by rw [hnodes, hlinks]; exact ⟨rfl, rfl⟩⟩

theorem Does.refl (t : T) (s : WaitSet T) : Does t s s := .same rfl rfl rfl

end Quiet

/-- Only events are notified, or a thread goes to sleep. -/
structure SameButAsleep (nodes nodes' : T → Waiter) : Prop where
  key : ∀ t, (nodes' t).key = (nodes t).key
  notified : ∀ t, (nodes' t).notified = (nodes t).notified
  arrival : ∀ t, (nodes' t).arrival = (nodes t).arrival

theorem setAsleep_same (nodes : T → Waiter) (t : T) (asleep : Bool) :
    SameButAsleep nodes (setAsleep nodes t asleep) := by
  constructor <;> intro u <;> by_cases hu : u = t <;> simp [setAsleep, hu]

section Asleep

variable {nodes' : T → Waiter}

omit [DecidableEq T] in
theorem SameButAsleep.quiet (h : SameButAsleep s.nodes nodes') :
    Quiet s { s with nodes := nodes' } :=
  { Quiet.refl s with
    key := fun t _ => h.key t
    notified := fun t _ => h.notified t
    arrival := fun t _ => h.arrival t }

omit [DecidableEq T] in
theorem SameButAsleep.does (h : SameButAsleep s.nodes nodes') :
    Does t s { s with nodes := nodes' } :=
  { Does.refl t s with
    key := fun u _ => h.key u
    unlinked := fun u _ _ => ⟨h.notified u, rfl⟩ }

theorem Good.notifyOne (hs : Good s) (u : T) : Good { s with nodes := notifyOne s.nodes u } := by
  refine hs.quiet (setAsleep_same s.nodes u false).quiet fun t ht hn => ?_
  by_cases htu : t = u
  · simp [KeyedWaitSet.notifyOne, setAsleep, htu]
  · simp only [KeyedWaitSet.notifyOne, setAsleep, update_of_ne htu] at hn ⊢
    exact hs.awake t ht hn

end Asleep

-- Linking

omit [DecidableEq T] in
theorem queue_disjoint (h : b ≠ b') : List.Disjoint (s.queue b) (s.queue b') := by
  intro t ht ht'
  have hb := of_decide_eq_true (mem_filter.mp ht).2
  have hb' := of_decide_eq_true (mem_filter.mp ht').2
  exact h (hb.symm.trans hb')

omit [DecidableEq T] in
theorem Good.timesCounted_eq_zero (hs : Good s) (hn : s.arrivals ≤ n) : s.timesCounted n = 0 := by
  refine count_eq_zero.mpr fun hmem => ?_
  rcases hs.counted n hmem with ⟨t, ht, rfl⟩ | ⟨⟨_, result⟩, hr, rfl⟩
  · exact absurd (hs.arrived t ht) (Nat.not_lt.mpr hn)
  · exact absurd (hs.settled _ hr).1 (Nat.not_lt.mpr hn)

theorem link_nodes_self : (link t s).nodes t = { s.nodes t with arrival := s.arrivals } :=
  update_self _ _ _

theorem link_nodes_of_ne (hu : u ≠ t) : (link t s).nodes u = s.nodes u :=
  update_of_ne hu _ _

theorem link_queue (ht : t ∉ s.waiting) (shard : BitVec 6) : (link t s).queue shard =
      if select (s.nodes t).key = shard then s.queue shard ++ [t] else s.queue shard := by
  have hold : (s.waiting.filter fun u => select ((link t s).nodes u).key = shard) = s.queue shard :=
    filter_congr fun u hu => by rw [link_nodes_of_ne (ne_of_mem_of_not_mem hu ht)]
  rw [WaitSet.queue, show (link t s).waiting = s.waiting ++ [t] from rfl, filter_append, hold]
  simp only [filter_cons, filter_nil, link_nodes_self]
  split
  · next h => rw [if_pos (of_decide_eq_true h)]
  · next h => rw [if_neg (by simpa using h), append_nil]

theorem Good.link (hs : Good s) (h : Fresh t s key) : Good (link t s) := by
  have hold {u : T} (hu : u ∈ s.waiting) : (KeyedWaitSet.link t s).nodes u = s.nodes u :=
    link_nodes_of_ne (ne_of_mem_of_not_mem hu h.not_mem)
  have harrival : ((KeyedWaitSet.link t s).nodes t).arrival = s.arrivals := by rw [link_nodes_self]
  have hnotified : ((KeyedWaitSet.link t s).nodes t).notified = false := by
    rw [link_nodes_self]
    exact h.notified
  have hmem {u : T} : u ∈ (KeyedWaitSet.link t s).waiting ↔ u ∈ s.waiting ∨ u = t := by
    simp [KeyedWaitSet.link]
  have hnot {b : BitVec 6} : t ∉ s.queue b := fun ht => h.not_mem (mem_filter.mp ht).1
  constructor
  case queues =>
    intro b
    rw [link_queue h.not_mem]
    split
    next hb =>
      subst hb
      have hq := (hs.queues (select (s.nodes t).key)).link (hs.nodup.filter _) hnot h.next
      simpa only [KeyedWaitSet.link, update_self] using hq
    next hb =>
      have hq := (hs.queues (select (s.nodes t).key)).link_other (hs.queues b)
        (queue_disjoint hb) hnot
      simpa only [KeyedWaitSet.link, update_of_ne (Ne.symm hb)] using hq
  case sorted =>
    refine pairwise_append.mpr ⟨hs.sorted.imp_of_mem fun ht hu hlt => ?_,
      pairwise_singleton _ _, fun u hu v hv => ?_⟩
    · rwa [hold ht, hold hu]
    · obtain rfl := mem_singleton.mp hv
      rw [hold hu, harrival]
      exact hs.arrived u hu
  case arrived =>
    intro u hu
    rcases hmem.mp hu with hu | rfl
    · rw [hold hu]
      exact Nat.lt_succ_of_lt (hs.arrived u hu)
    · rw [harrival]
      exact Nat.lt_succ_self _
  case awake =>
    intro u hu hn
    rcases hmem.mp hu with hu | rfl
    · rw [hold hu] at hn ⊢
      exact hs.awake u hu hn
    · cases hnotified.symm.trans hn
  case waiter =>
    intro u hu
    rcases hmem.mp hu with hu | rfl
    · rw [hold hu]
      exact hs.waiter u hu
    · rw [harrival, hnotified]
      exact hs.timesCounted_eq_zero (Nat.le_refl _)
  case settled =>
    intro r hr
    have hold' := hs.settled r hr
    obtain ⟨_ | n, result⟩ := r
    · exact hold'
    · obtain ⟨hlt, hne, hcount⟩ := hold'
      refine ⟨Nat.lt_succ_of_lt hlt, fun u hu => ?_, hcount⟩
      rcases hmem.mp hu with hu | rfl
      · rw [hold hu]
        exact hne u hu
      · rw [harrival]
        exact Nat.ne_of_gt hlt
  case counted =>
    intro n hn
    rcases hs.counted n hn with ⟨u, hu, hun⟩ | hr
    · exact .inl ⟨u, hmem.mpr (.inl hu), by rw [hold hu, hun]⟩
    · exact .inr hr

theorem Does.link (hs : Good s) : Does t s (link t s) where
  waiting u hu := by simp [KeyedWaitSet.link, hu]
  key u hu := by rw [link_nodes_of_ne hu]
  unlinked u hu hmem := by
    refine ⟨by rw [link_nodes_of_ne hu], writeAt_of_ne fun hlast => hmem ?_⟩
    exact (mem_filter.mp (Segment.last_mem_of (hs.queues _) hlast)).1

-- Unlinking

theorem unlink_queue (shard : BitVec 6) :
    (unlink t s).queue shard = (s.queue shard).filter (· ≠ t) := by
  simp only [WaitSet.queue, unlink, filter_filter]
  exact filter_congr fun u _ => Bool.and_comm _ _

theorem filter_ne_append (hl : (xs ++ t :: ys).Nodup) :
    (xs ++ t :: ys).filter (· ≠ t) = xs ++ ys := by
  obtain ⟨-, hys, hdisjoint⟩ := nodup_append'.mp hl
  have hx : xs.filter (· ≠ t) = xs := filter_eq_self.mpr fun x hx => by
    simpa using fun heq : x = t => hdisjoint hx (by simp [heq])
  have hy : ys.filter (· ≠ t) = ys := filter_eq_self.mpr fun y hy => by
    simpa using ne_of_mem_of_not_mem hy (nodup_cons.mp hys).1
  rw [filter_append, hx, filter_cons_of_neg (by simp), hy]

/-- A waiter returns: with `notified` if and only if its node is marked. -/
theorem Good.finish (hs : Good s) (ht : t ∈ s.waiting) (call : WaitCall)
    (h : outcome = .notified ↔ (s.nodes t).notified = true) :
    Good (finish t s call outcome aborted).2 := by
  have hmem {u : T} : u ∈ (KeyedWaitSet.unlink t s).waiting ↔ u ∈ s.waiting ∧ u ≠ t := by
    simp [KeyedWaitSet.unlink]
  have hqueue : t ∈ s.queue (select (s.nodes t).key) := mem_filter.mpr ⟨ht, by simp⟩
  constructor
  case queues =>
    intro b
    rw [show (KeyedWaitSet.finish t s call outcome aborted).2.queue b =
      (KeyedWaitSet.unlink t s).queue b from rfl, unlink_queue]
    by_cases hb : select (s.nodes t).key = b
    · subst hb
      obtain ⟨xs, ys, hsplit⟩ := append_of_mem hqueue
      have hnodup : (xs ++ t :: ys).Nodup := hsplit ▸ hs.nodup.filter _
      have hq := (hsplit ▸ hs.queues (select (s.nodes t).key) :
        IsQueue _ _ (xs ++ t :: ys)).unlink hnodup
      rw [hsplit, filter_ne_append hnodup]
      simpa only [KeyedWaitSet.finish, KeyedWaitSet.unlink, update_self] using hq
    · have hq := (hs.queues _).unlink_other hqueue (hs.queues b) (queue_disjoint hb)
      have hsame : (s.queue b).filter (· ≠ t) = s.queue b := filter_eq_self.mpr fun u hu => by
        simpa using ne_of_mem_of_not_mem hu fun hmem => queue_disjoint hb hqueue hmem
      rw [hsame]
      simpa only [KeyedWaitSet.finish, KeyedWaitSet.unlink, update_of_ne (Ne.symm hb)] using hq
  case sorted => exact hs.sorted.filter _
  case arrived => exact fun u hu => hs.arrived u (hmem.mp hu).1
  case awake => exact fun u hu => hs.awake u (hmem.mp hu).1
  case waiter => exact fun u hu => hs.waiter u (hmem.mp hu).1
  case settled =>
    intro r hr
    rcases mem_cons.mp hr with rfl | hr
    · refine ⟨hs.arrived t ht, fun u hu heq => ?_, ?_⟩
      · exact (hmem.mp hu).2 (hs.arrival_inj (hmem.mp hu).1 ht heq)
      · exact (hs.waiter t ht).trans (if_congr h.symm rfl rfl)
    · have hold := hs.settled r hr
      obtain ⟨_ | n, result⟩ := r
      · exact hold
      · exact ⟨hold.1, fun u hu => hold.2.1 u (hmem.mp hu).1, hold.2.2⟩
  case counted =>
    intro n hn
    rcases hs.counted n hn with ⟨u, hu, rfl⟩ | ⟨r, hr, hrn⟩
    · by_cases hut : u = t
      · exact .inr ⟨_, mem_cons_self, by rw [hut]⟩
      · exact .inl ⟨u, hmem.mpr ⟨hu, hut⟩, rfl⟩
    · exact .inr ⟨r, mem_cons_of_mem _ hr, hrn⟩

theorem Does.finish (hs : Good s) (ht : t ∈ s.waiting) (call : WaitCall) :
    Does t s (finish t s call outcome aborted).2 where
  waiting u hu := by simp [KeyedWaitSet.finish, KeyedWaitSet.unlink, hu]
  key _ _ := rfl
  unlinked u hu hmem := by
    refine ⟨rfl, writeAt_of_ne fun hprevious => hmem ?_⟩
    have hqueue : t ∈ s.queue (select (s.nodes t).key) := mem_filter.mpr ⟨ht, by simp⟩
    obtain ⟨xs, ys, hsplit⟩ := append_of_mem hqueue
    obtain ⟨_, _, hxs, rfl, rfl, -⟩ := segment_append.mp (hsplit ▸ hs.queues _)
    exact (mem_filter.mp (hsplit ▸ mem_append_left _ (hxs.last_mem_of hprevious))).1

-- Notifying

omit [DecidableEq T] in
theorem pending_eq (s : WaitSet T) (key : WaitKey) :
    ((s.queue (select key)).filter fun t => (s.nodes t).key = key ∧ ¬ (s.nodes t).notified) =
      pending s key := by
  rw [WaitSet.queue, filter_filter, pending]
  refine filter_congr fun t _ => ?_
  by_cases h : (s.nodes t).key = key <;> simp [h]

/-- The first waiters that a notify marks, up to its limit. -/
def toNotify (s : WaitSet T) (key : WaitKey) (limit : Nat) : List T := (pending s key).take limit

def notified (s : WaitSet T) (l : List T) : WaitSet T :=
  { s with
    nodes := mark s.nodes l
    notifies := (l.map fun t => (s.nodes t).arrival).reverse :: s.notifies }

@[simp] theorem notified_nodes {l : List T} : (notified s l).nodes = mark s.nodes l := rfl

theorem Good.notify_eq (hs : Good s) (hlimit : limit ≠ 0) (hclosing : s.closing = false) :
    notify s key limit =
      some ((toNotify s key limit).length, notified s (toNotify s key limit)) := by
  have hloop := foldWhile_notifyNode key
    (hs.nodup.filter fun t => select (s.nodes t).key = select key) ⟨s.nodes, 0, []⟩
    (Nat.zero_le limit) rfl
  rw [notify, if_neg hlimit, if_neg (Bool.eq_false_iff.mp hclosing),
    (hs.queues _).walk_eq (Good.queue_length_le s _)]
  rw [WaitSet.queue, hloop]
  simp only [Option.map_some, Nat.sub_zero, Nat.zero_add, append_nil]
  rw [show (s.waiting.filter fun t => select (s.nodes t).key = select key) =
    s.queue (select key) from rfl, pending_eq]
  rfl

omit [DecidableEq T] in
theorem mem_pending :
    t ∈ pending s key ↔ t ∈ s.waiting ∧ (s.nodes t).key = key ∧ (s.nodes t).notified = false := by
  simp [pending]

theorem Good.notified (hs : Good s) (hl : l.Sublist (pending s key)) : Good (notified s l) := by
  have hmem {t : T} (ht : t ∈ l) : t ∈ s.waiting ∧ (s.nodes t).notified = false :=
    have h := mem_pending.mp (hl.subset ht)
    ⟨h.1, h.2.2⟩
  have hsub : (l.map fun t => (s.nodes t).arrival).Sublist
      (s.waiting.map fun t => (s.nodes t).arrival) :=
    (hl.trans filter_sublist).map _
  have hcount (n : Nat) : (KeyedWaitSet.notified s l).timesCounted n =
      (l.map fun t => (s.nodes t).arrival).count n + s.timesCounted n := by
    simp [WaitSet.timesCounted, KeyedWaitSet.notified]
  have hzero {n : Nat} (hne : ∀ u ∈ l, (s.nodes u).arrival ≠ n) :
      (l.map fun t => (s.nodes t).arrival).count n = 0 := count_eq_zero.mpr (by simpa using hne)
  constructor
  case queues =>
    intro b
    have hq : (KeyedWaitSet.notified s l).queue b = s.queue b := by
      simp only [WaitSet.queue, KeyedWaitSet.notified, mark_key]
    rw [hq]
    exact hs.queues b
  case sorted => simpa only [KeyedWaitSet.notified, mark_arrival] using hs.sorted
  case arrived => simpa only [KeyedWaitSet.notified, mark_arrival] using hs.arrived
  case awake =>
    intro t ht hn
    by_cases htl : t ∈ l
    · rw [notified_nodes, mark_of_mem htl]
    · rw [notified_nodes, mark_of_not_mem htl] at hn ⊢
      exact hs.awake t ht hn
  case waiter =>
    intro t ht
    rw [hcount, notified_nodes, mark_arrival, hs.waiter t ht]
    by_cases htl : t ∈ l
    · -- it was not marked before, and is counted once now
      rw [count_eq_one_of_mem (hs.arrivals_nodup.sublist hsub) (mem_map_of_mem htl),
        (hmem htl).2, mark_of_mem htl]
      rfl
    · rw [hzero fun u hu heq => htl (hs.arrival_inj (hmem hu).1 ht heq ▸ hu), Nat.zero_add,
        mark_of_not_mem htl]
  case settled =>
    intro r hr
    have hold := hs.settled r hr
    obtain ⟨_ | n, result⟩ := r
    · exact hold
    · obtain ⟨hlt, hne, htimes⟩ := hold
      refine ⟨hlt, fun t ht => ?_, by
        rw [hcount, hzero fun u hu => hne u (hmem hu).1, Nat.zero_add, htimes]⟩
      rw [notified_nodes, mark_arrival]
      exact hne t ht
  case counted =>
    intro n hn
    simp only [KeyedWaitSet.notified, flatten_cons, mem_append, mem_reverse,
      mem_map] at hn
    simp only [KeyedWaitSet.notified, mark_arrival]
    rcases hn with ⟨t, ht, rfl⟩ | hn
    · exact .inl ⟨t, (hmem ht).1, rfl⟩
    · exact hs.counted n hn

theorem Does.notified {key : WaitKey} (hl : l.Sublist (pending s key)) :
    Does t s (notified s l) where
  waiting _ _ := .rfl
  key _ _ := mark_key
  unlinked u _ hu := by
    have hul : u ∉ l := fun hmem => hu (mem_pending.mp (hl.subset hmem)).1
    exact ⟨by rw [notified_nodes, mark_of_not_mem hul], rfl⟩

theorem Good.notify_cases (hs : Good s) (key : WaitKey) (limit : Nat) :
    (s.closing = false ∧ limit ≠ 0 ∧ notify s key limit =
      some ((toNotify s key limit).length, KeyedWaitSet.notified s (toNotify s key limit))) ∨
    ((s.closing = true ∨ limit = 0) ∧ notify s key limit = some (0, s)) := by
  by_cases hlimit : limit = 0
  · exact .inr ⟨.inr hlimit, if_pos hlimit⟩
  · cases hclosing : s.closing with
    | true => exact .inr ⟨.inl rfl, by rw [notify, if_neg hlimit, hclosing, if_pos rfl]⟩
    | false => exact .inl ⟨rfl, hlimit, hs.notify_eq hlimit hclosing⟩

/-- A step that fits and does not close the wait set. -/
def Goes (t : T) (s : WaitSet T) (p' : Position) (s' : WaitSet T) : Prop :=
  Fits t s p' s' ∧ s'.closing = s.closing

theorem notify_sound (hs : Good s) (ht : t ∉ s.waiting)
    (h : notify s key limit = some (n, s')) : Goes t s .outside s' := by
  rcases hs.notify_cases key limit with ⟨-, -, heq⟩ | ⟨-, heq⟩
  · cases heq.symm.trans h
    exact ⟨⟨.notified (take_sublist _ _), hs.notified (take_sublist _ _), ht⟩, rfl⟩
  · cases heq.symm.trans h
    exact ⟨⟨.refl t s, hs, ht⟩, rfl⟩

-- Soundness

section Steps

variable {p p' : Position} {call : WaitCall}

section

omit [DecidableEq T]

theorem Does.trans (h : Does t s s₁) (h' : Does t s₁ s') : Does t s s' where
  waiting u hu := (h'.waiting u hu).trans (h.waiting u hu)
  key u hu := (h'.key u hu).trans (h.key u hu)
  unlinked u hu hmem := by
    have h₁ := h.unlinked u hu hmem
    have h₂ := h'.unlinked u hu fun hin => hmem ((h.waiting u hu).mp hin)
    exact ⟨h₂.1.trans h₁.1, h₂.2.trans h₁.2⟩

theorem Goes.after (h : Goes t s₁ p s') (hd : Does t s s₁) (hclosing : s₁.closing = s.closing) :
    Goes t s p s' := ⟨⟨hd.trans h.1.does, h.1.good, h.1.at_⟩, h.2.trans hclosing⟩

theorem Goes.stay (hs : Good s) (h : At t p s) : Goes t s p s := ⟨⟨.refl t s, hs, h⟩, rfl⟩

theorem arbitrate_notified (h : arbitrate t s call reads = some outcome) :
    outcome = .notified ↔ (s.nodes t).notified = true := by
  unfold arbitrate at h
  split at h
  case isTrue hn =>
    cases h
    exact iff_of_true rfl hn
  case isFalse hn =>
    refine iff_of_false (fun heq => ?_) hn
    subst heq
    split at h
    · cases h
    · split at h
      · cases h
      · split at h <;> cases h

theorem not_notified_of_arbitrate (h : arbitrate t s call reads = none) :
    (s.nodes t).notified = false := by
  unfold arbitrate at h
  split at h
  · cases h
  · next hn => exact Bool.eq_false_iff.mpr hn

theorem leave_sound (hs : Good s) (ht : t ∉ s.waiting) (ho : outcome ≠ .notified) :
    Leads (Goes t s) (some (leave s call outcome aborted)) := by
  refine .some ⟨⟨.same rfl rfl rfl, hs.quiet { Quiet.refl s with
    kept := fun r hr => mem_cons_of_mem _ hr
    unlinked := fun r hr => ?_ } hs.awake, ht⟩, rfl⟩
  rcases mem_cons.mp hr with rfl | hr
  · exact .inr ⟨rfl, ho⟩
  · exact .inl hr

end

section

variable (hs : Good s)

include hs

theorem finish_sound (ht : t ∈ s.waiting) (ho : outcome = .notified ↔ (s.nodes t).notified = true) :
    Leads (Goes t s) (some (finish t s call outcome aborted)) :=
  .some ⟨⟨.finish hs ht call, hs.finish ht call ho, by simp [At, unlink]⟩, rfl⟩

theorem attend_sound (ht : t ∈ s.waiting) (hkey : (s.nodes t).key = call.key) :
    Leads (Goes t s) (some (attend t s call reads)) := by
  unfold attend
  split
  next outcome ho => exact finish_sound hs ht (arbitrate_notified ho)
  next ho =>
    split
    · exact .some (.stay hs ⟨ht, hkey⟩)
    · -- a waiter that is not marked goes to sleep
      have hsame := setAsleep_same s.nodes t true
      refine .some ⟨⟨hsame.does, hs.quiet hsame.quiet fun u hu hn => ?_, ht,
        (hsame.key t).trans hkey⟩, rfl⟩
      dsimp only at hn ⊢
      by_cases hut : u = t
      · rw [hut, hsame.notified, not_notified_of_arbitrate ho] at hn
        cases hn
      · rw [hsame.notified] at hn
        rw [setAsleep, update_of_ne hut]
        exact hs.awake u hu hn

theorem enter_sound (h : Fresh t s call.key) : Leads (Goes t s) (enter t s call matched reads) := by
  have hleave {outcome : KeyedWaitResult} (ho : outcome ≠ .notified) :
      Leads (Goes t s) (some (leave s call outcome false)) := leave_sound hs h.not_mem ho
  refine .ite (fun _ => hleave nofun) fun _ => .ite (fun _ => hleave nofun) fun _ =>
    .ite (fun _ => hleave nofun) fun _ => .ite (fun _ => hleave nofun) fun _ => .map fun _ _ => ?_
  split
  · exact @hleave .tooManyWaiters nofun _ _ rfl
  · have hlinked : t ∈ (link t s).waiting := by simp [link]
    have hkey : ((link t s).nodes t).key = call.key := by
      rw [link_nodes_self]
      exact h.key
    exact (attend_sound (hs.link h) hlinked hkey rfl).after (.link hs) rfl

theorem wake_sound (ht : t ∈ s.waiting) (hkey : (s.nodes t).key = call.key) :
    Leads (Goes t s) (some
      (attend t { s with nodes := setAsleep s.nodes t false } call reads)) := by
  have hsame := setAsleep_same s.nodes t false
  exact (attend_sound (hs.notifyOne t) ht ((hsame.key t).trans hkey)).mono
    fun _ _ h => h.after hsame.does rfl

theorem resume_sound (ht : t ∈ s.waiting) (hkey : (s.nodes t).key = call.key) :
    Leads (Goes t s) (some (resume t s call keepWaiting reads)) := by
  unfold resume
  split
  next outcome ho => exact finish_sound hs ht (arbitrate_notified ho)
  next ho =>
    split
    · refine finish_sound hs ht (iff_of_false nofun ?_)
      rw [not_notified_of_arbitrate ho]
      exact Bool.false_ne_true
    · exact attend_sound hs ht hkey

theorem register_sound (ht : t ∉ s.waiting) (key : WaitKey) :
    Does t s (register t s key) ∧ Good (register t s key) ∧ Fresh t (register t s key) key := by
  have hnodes {u : T} (hu : u ≠ t) : (register t s key).nodes u = s.nodes u :=
    update_of_ne hu _ _
  have hself : (register t s key).nodes t = { key } := update_self _ _ _
  have hne {u : T} (hu : u ∈ s.waiting) : u ≠ t := ne_of_mem_of_not_mem hu ht
  refine ⟨⟨fun _ _ => .rfl, fun u hu => by rw [hnodes hu], fun u hu _ => ⟨by rw [hnodes hu], ?_⟩⟩,
    hs.quiet { Quiet.refl s with
      ends := fun b => ?_
      previous := fun u hu => update_of_ne (hne hu) _ _
      next := fun u hu => update_of_ne (hne hu) _ _
      key := fun u hu => by rw [hnodes (hne hu)]
      notified := fun u hu => by rw [hnodes (hne hu)]
      arrival := fun u hu => by rw [hnodes (hne hu)] } fun u hu hn => ?_,
    ⟨ht, by rw [hself], by rw [hself], update_self _ _ _⟩⟩
  · exact update_of_ne hu _ _
  · by_cases hb : b = select key <;> simp [register, WaitSet.setActiveCalls, hb]
  · rw [hnodes (hne hu)] at hn ⊢
    exact hs.awake u hu hn

omit [DecidableEq T] in
theorem setActiveCalls_sound (ht : t ∉ s.waiting) (shard : BitVec 6) (n : Nat) :
    Goes t s .outside (s.setActiveCalls shard n) := by
  refine ⟨⟨.same rfl rfl rfl, hs.quiet { Quiet.refl s with ends := fun b => ?_ } hs.awake, ht⟩, rfl⟩
  by_cases hb : b = shard <;> simp [WaitSet.setActiveCalls, hb]

theorem foldWhile_notifyOne (l : List T) :
    Does t s { s with nodes := foldWhile (fun _ => true) notifyOne l s.nodes } ∧
      Good { s with nodes := foldWhile (fun _ => true) notifyOne l s.nodes } := by
  induction l generalizing s with
  | nil => exact ⟨.refl t s, hs⟩
  | cons a l ih =>
    have h := ih (hs.notifyOne a)
    exact ⟨(setAsleep_same s.nodes a false).does.trans h.1, h.2⟩

theorem closeShard_sound (h : closeShard s shard = some s') :
    Does t s s' ∧ Good s' ∧ s'.waiting = s.waiting ∧ s'.closing = s.closing := by
  rw [closeShard, (hs.queues shard).walk_eq (Good.queue_length_le s shard)] at h
  cases h
  exact ⟨(foldWhile_notifyOne hs _).1, (foldWhile_notifyOne (t := t) hs _).2, rfl, rfl⟩

theorem act_goes (hat : At t p s) (hturn : ∀ drain, turn ≠ .close drain) :
    Leads (Goes t s) (act t turn p s) := by
  unfold act
  split
  case h_1 call => exact .some (.stay hs hat)
  case h_2 key limit => exact .map fun _ hnotify => notify_sound hs hat hnotify
  case h_3 drain => exact absurd rfl (hturn drain)
  case h_4 u => exact .some ⟨⟨(setAsleep_same s.nodes u false).does, hs.notifyOne u, hat⟩, rfl⟩
  case h_5 call =>
    obtain ⟨hdoes, hgood, hfresh⟩ := register_sound hs hat call.key
    refine .some ⟨⟨hdoes, hgood, ?_⟩, rfl⟩
    split <;> exact hfresh
  case h_6 call accepted =>
    have hfresh : Fresh t s call.key := hat
    cases accepted with
    | true => exact .some (.stay hs hfresh)
    | false => exact leave_sound hs hfresh.not_mem nofun
  case h_7 call matched reads => exact enter_sound hs hat
  case h_8 call spurious reads => exact .ite (fun _ => .none) fun _ => wake_sound hs hat.1 hat.2
  case h_9 call keepWaiting reads => exact resume_sound hs hat.1 hat.2
  case h_10 key => exact .some (setActiveCalls_sound hs hat _ _)
  case h_11 drain shard =>
    refine .ite (fun _ => .map fun s₁ hclose => ?_) fun _ => .some (.stay hs ?_)
    · obtain ⟨hdoes, hgood, hwaiting, hclosing⟩ := closeShard_sound (t := t) hs hclose
      exact ⟨⟨hdoes, hgood, show t ∉ s₁.waiting from hwaiting ▸ hat⟩, hclosing⟩
    · split <;> exact hat
  case h_12 shard =>
    exact .ite (fun _ => .some (.stay hs hat)) fun _ => .guard fun _ => .stay hs hat
  case h_13 => exact .none

theorem act_sound (hat : At t p s) : Leads (Fits t s) (act t turn p s) := by
  by_cases hclose : ∃ drain, turn = .close drain
  · obtain ⟨drain, rfl⟩ := hclose
    cases p with
    | outside =>
      exact .some ⟨.same rfl rfl rfl, hs.quiet { Quiet.refl s with } hs.awake, hat⟩
    | _ => exact .none
  · exact (act_goes hs hat fun drain h => hclose ⟨drain, h⟩).mono fun _ _ h => h.1

end

end Steps

-- Runs

def outline : Outline (act (T := T)) where
  Good := Good
  At := At
  Does := Does
  sound hs hat hact :=
    have h := act_sound hs hat hact
    ⟨h.does, h.good, h.at_⟩
  stable hu _ h hd := h.stable hu hd

theorem outline_initial : (outline (T := T)).Holds initial :=
  ⟨⟨fun _ => isQueue_nil, .nil, nofun, nofun, nofun, nofun, nofun⟩, fun _ => nofun⟩

theorem Good.notify (hs : Good s) (key : WaitKey) (limit : Nat) : ∃ s',
    notify s key limit = some (min (s.quota limit) (pending s key).length, s') ∧
      s'.nodes = mark s.nodes ((pending s key).take (s.quota limit)) ∧
      s'.waiting = s.waiting ∧ s'.results = s.results := by
  rcases hs.notify_cases key limit with ⟨hclosing, -, heq⟩ | ⟨hnone, heq⟩
  · have hquota : s.quota limit = limit := if_neg (Bool.eq_false_iff.mp hclosing)
    rw [hquota]
    rw [toNotify, length_take] at heq
    exact ⟨_, heq, rfl, rfl, rfl⟩
  · have hquota : s.quota limit = 0 := by
      rcases hnone with hclosing | rfl
      · exact if_pos hclosing
      · exact ite_self 0
    rw [hquota]
    rw [← Nat.zero_min (pending s key).length] at heq
    exact ⟨s, heq, rfl, rfl, rfl⟩

section Marked

variable {p p' : Position} (hs : Good s) (hat : At t p s) (ht : t ∈ s.waiting)
  (hn : (s.nodes t).notified = true)
include hat ht

omit [DecidableEq T] in
theorem At.linked : (∃ call, p = .blocked call) ∨ ∃ call, p = .suspended call := by
  cases p with
  | blocked call => exact .inl ⟨call, rfl⟩
  | suspended call => exact .inr ⟨call, rfl⟩
  | listen call | enter call => exact absurd ht (Fresh.not_mem hat)
  | outside | register | unregister | close | drain => exact absurd ht hat

include hn

theorem act_marked (hact : act t turn p s = some (p', s')) :
    s'.results = (some (s.nodes t).arrival, ⟨.notified, false⟩) :: s.results := by
  rcases At.linked hat ht with ⟨call, rfl⟩ | ⟨call, rfl⟩
  · cases turn with
    | wake spurious reads =>
      simp only [act] at hact
      split at hact
      · cases hact
      · simp only [attend, arbitrate, setAsleep, update_self, hn, if_true] at hact
        cases hact
        simp
    | _ => cases hact
  · cases turn with
    | resume keepWaiting reads =>
      simp only [act, resume, arbitrate, hn, if_true] at hact
      cases hact
      rfl
    | _ => cases hact

include hs

theorem act_marked_isSome (reads : Reads) : (act t (.wake false reads) p s).isSome ∨
      ∀ keepWaiting, (act t (.resume keepWaiting reads) p s).isSome := by
  rcases At.linked hat ht with ⟨call, rfl⟩ | ⟨call, rfl⟩
  · left
    simp [act, hs.awake t ht hn]
  · exact .inr fun _ => rfl

end Marked

theorem Good.accounted {cfg : Config T Position (WaitSet T)} (hs : Good cfg.shared)
    (hat : ∀ t, At t (cfg.position t) cfg.shared) : Accounted cfg where
  queues := hs.queues
  sorted := hs.sorted
  notify := hs.notify
  enabled t ht hn reads := act_marked_isSome hs (hat t) ht hn reads
  returns t ht hn _ _ _ hact := act_marked (hat t) ht hn hact
  counted n hn := by
    have hpos : 0 < cfg.shared.timesCounted n := count_pos_iff.mpr hn
    rcases hs.counted n hn with ⟨t, ht, rfl⟩ | ⟨⟨_, result⟩, hr, rfl⟩
    · refine .inl ⟨t, ht, rfl, ?_⟩
      by_contra hnot
      rw [hs.waiter t ht, if_neg hnot] at hpos
      exact Nat.lt_irrefl 0 hpos
    · refine .inr ⟨_, hr, rfl, ?_⟩
      by_contra hnot
      rw [(hs.settled _ hr).2.2, if_neg hnot] at hpos
      exact Nat.lt_irrefl 0 hpos
  returned r hr hout := by
    have hsettled := hs.settled r hr
    obtain ⟨_ | n, result⟩ := r
    · exact absurd hout hsettled
    · exact ⟨n, rfl, hsettled.2.2.trans (if_pos hout)⟩

-- Closing

theorem run_closing {schedule : List (T × Turn T)} (h : outline.Holds cfg)
    (hrun : run act cfg schedule = some cfg') (hclosing : cfg'.shared.closing = true) :
    cfg.shared.closing = true ∨ ∃ turn ∈ schedule, ∃ drain, turn.2 = .close drain := by
  induction schedule generalizing cfg with
  | nil =>
    cases hrun
    exact .inl hclosing
  | cons turn schedule ih =>
    simp only [run, foldlM_cons, Option.bind_eq_bind, Option.bind_eq_some_iff] at hrun
    obtain ⟨cfg₁, hstep, hrest⟩ := hrun
    rcases ih (outline.step h hstep) hrest with hclosing₁ | ⟨turn', hmem, hclose⟩
    · by_cases hclose : ∃ drain, turn.2 = .close drain
      · exact .inr ⟨turn, mem_cons_self, hclose⟩
      · obtain ⟨⟨p', s'⟩, hact, rfl⟩ := Option.map_eq_some_iff.mp hstep
        have hgoes := act_goes h.1 (h.2 turn.1) (fun drain heq => hclose ⟨drain, heq⟩) hact
        exact .inl (hgoes.2 ▸ hclosing₁)
    · exact .inr ⟨turn', mem_cons_of_mem _ hmem, hclose⟩

/-- Along every schedule of critical sections of any number of threads, notifications and
results match, and the wait set is open unless some thread closes it. -/
theorem run_accounting {schedule : List (T × Turn T)} {cfg : Config T Position (WaitSet T)}
    (hrun : run act initial schedule = some cfg) :
    Accounted cfg ∧
      (cfg.shared.closing = true → ∃ turn ∈ schedule, ∃ drain, turn.2 = .close drain) := by
  obtain ⟨hs, hat⟩ := outline.run outline_initial hrun
  exact ⟨hs.accounted hat, fun hclosing =>
    (run_closing outline_initial hrun hclosing).resolve_left nofun⟩

/-- One thread waits without end and another until a deadline; a notify of one waiter reaches the
first of them, the other gives up. -/
def waitNotify : List (Fin 3 × Turn (Fin 3)) :=
  [(0, .wait { key := ⟨16#64, 8#64⟩ }), (0, .proceed), (0, .enter true {}),
   (1, .wait { key := ⟨16#64, 8#64⟩, timeoutNs := 5 }), (1, .proceed), (1, .enter true {}),
   (2, .notify ⟨16#64, 8#64⟩ 1),
   (1, .wake true { expired := true }), (0, .wake false {})]

theorem run_accounting_waitNotify : ∃ cfg, run act initial waitNotify = some cfg ∧
      cfg.shared.results = [(some 0, ⟨.notified, false⟩), (some 1, ⟨.timedOut, false⟩)] ∧
      Accounted cfg := by
  have hmap : (run act initial waitNotify).map (·.shared.results) =
      some [(some 0, ⟨.notified, false⟩), (some 1, ⟨.timedOut, false⟩)] := by decide
  obtain ⟨cfg, hrun, hresults⟩ := Option.map_eq_some_iff.mp hmap
  exact ⟨cfg, hrun, hresults, (run_accounting hrun).1⟩

end Uwvm2.Thread.KeyedWaitSet
