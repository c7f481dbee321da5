import Uwvm2.Storage.CompactLifecycle
import Uwvm2.Storage.ObjectTokens

/-!
# No token is issued twice

Every reservation takes the block right above the counter, so blocks lie apart in the order
in which they were reserved. A token comes from the rest of a block that belongs to one
thread, and leaves it.
-/

namespace Uwvm2.Storage.ObjectTokens

open CompactNumeric (Target uintptrMax firstObjectToken reservedWidth reservations)
open RelyGuarantee Option List

section

variable {T D : Type} [Target] {t : T}

theorem firstObjectToken_le : firstObjectToken ≤ uintptrMax :=
  calc firstObjectToken
    _ ≤ 2 ^ 32 - 1 := by decide
    _ ≤ uintptrMax := Nat.sub_le_sub_right (Nat.pow_le_pow_right Nat.two_pos Target.wide) 1

-- The counter in the calls on descriptors

/-- What a step may do to the counter and to the blocks reserved so far: nothing, or reserve
the block above it if it fits below the last address. -/
inductive Reserves (s s' : CompactNumeric.Shared T D) : Prop
  | none : s'.nextObjectTokenId = s.nextObjectTokenId →
      reservations s'.trace = reservations s.trace → Reserves s s'
  | block (publisher : Option T) : s.nextObjectTokenId + reservedWidth ≤ uintptrMax →
      s'.nextObjectTokenId = s.nextObjectTokenId + reservedWidth →
      reservations s'.trace = (publisher, s.nextObjectTokenId) :: reservations s.trace →
      Reserves s s'

section

variable {s s' : CompactNumeric.Shared T D}

theorem Reserves.lockRegistry (h : CompactNumeric.lockRegistry t s = some s') : Reserves s s' := by
  unfold CompactNumeric.lockRegistry at h
  split at h
  · cases h
    exact .none rfl rfl
  · cases h

theorem Reserves.enterAdmission
    (h : CompactNumeric.enterAdmission lease s = some s') : Reserves s s' := by
  unfold CompactNumeric.enterAdmission at h
  split at h
  · cases h
    exact .none rfl rfl
  · cases h

omit [Target] in
theorem reservations_swept (dead : List Nat) (trace : List (CompactNumeric.Event T D)) :
    reservations (dead.map (.swept d) ++ trace) = reservations trace := by
  induction dead with
  | nil => rfl
  | cons slot dead ih => exact ih

theorem Reserves.tryExclusive [DecidableEq T]
    (h : CompactNumeric.tryExclusive t presented s = some s') : Reserves s s' := by
  unfold CompactNumeric.tryExclusive at h
  split at h
  · cases h
    exact .none rfl rfl
  · cases h

variable [DecidableEq D]

theorem Reserves.lockPage (h : CompactNumeric.lockPage t d s = some s') : Reserves s s' := by
  unfold CompactNumeric.lockPage at h
  split at h
  · cases h
    exact .none rfl rfl
  · cases h

variable [DecidableEq T]

theorem reserves_advance (h : CompactNumeric.advance t fail s p = some (p', s')) :
    Reserves s s' := by
  cases p with
  | publishReserve d first =>
    simp only [CompactNumeric.advance] at h
    split at h
    · cases h
      exact .none rfl rfl
    next hfits =>
    split at h
    · cases h
      exact .none rfl rfl
    next hsame =>
    cases h
    obtain rfl : s.nextObjectTokenId = first := by
      by_contra hne
      exact hsame (by simp [hne])
    refine .block (some t) ?_ rfl rfl
    simp only [uintptrMax, reservedWidth, firstObjectToken] at hfits ⊢
    omega
  | sweepStore d word count old =>
    cases h
    exact .none rfl (reservations_swept _ _)
  | outside status => cases h
  | leaving registry page lease status =>
    cases registry <;> cases page <;> cases lease <;> cases h <;> exact .none rfl rfl
  | _ =>
    -- The other steps write a descriptor, a lock, a lease or the event of a slot.
    simp only [CompactNumeric.advance] at h
    repeat' split at h
    all_goals first
      | cases h
        exact .none rfl rfl
      | obtain ⟨_, hlock, h⟩ := map_eq_some_iff.mp h
        cases h
        first
          | exact .lockPage hlock
          | exact .lockRegistry hlock
          | exact .enterAdmission hlock

theorem reserves_start (hop : op ≠ .reserveObjectBlock)
    (h : CompactNumeric.start t s op = some (p', s')) :
    Reserves s s' := by
  cases op with
  | reserveObjectBlock => exact absurd rfl hop
  | _ =>
    simp only [CompactNumeric.start] at h
    repeat' split at h
    all_goals first
      | cases h
        exact .none rfl rfl
      | cases h
      | obtain ⟨_, hlease, h⟩ := map_eq_some_iff.mp h
        cases h
        first
          | exact .enterAdmission hlease
          | exact .tryExclusive hlease

theorem reserves_act (hturn : turn ≠ .call .reserveObjectBlock)
    (h : CompactNumeric.act t turn p s = some (p', s')) :
    Reserves s s' := by
  unfold CompactNumeric.act at h
  split at h
  · exact reserves_start (fun heq => hturn (by rw [heq])) h
  · cases h
  · exact reserves_advance h
  · exact reserves_advance h

end

-- The invariant

def Block.Has (b : Block) (token : Nat) : Prop := b.next ≤ token ∧ token < b.limit

/-- The token lies in a block that was reserved for objects. -/
def InBlock (s : CompactNumeric.Shared T D) (token : Nat) : Prop :=
  ∃ first, (none, first) ∈ reservations s.trace ∧ first ≤ token ∧ token < first + reservedWidth

structure Good (s : Shared T D) : Prop where
  first_le : objectTokenFirst ≤ s.compact.nextObjectTokenId
  le_max : s.compact.nextObjectTokenId ≤ uintptrMax
  apart : (reservations s.compact.trace).Pairwise fun a b => b.2 + reservedWidth ≤ a.2
  bounds : ∀ a ∈ reservations s.compact.trace, objectTokenFirst ≤ a.2 ∧
    a.2 + reservedWidth ≤ s.compact.nextObjectTokenId
  issued : ∀ token ∈ s.issued, InBlock s.compact token
  nodup : s.issued.Nodup
  ordered : ∀ t, (s.objectTokens t).next ≤ (s.objectTokens t).limit
  left : ∀ t token, (s.objectTokens t).Has token → InBlock s.compact token ∧ token ∉ s.issued
  owned : ∀ t u token, (s.objectTokens t).Has token → (s.objectTokens u).Has token → t = u

variable {s : Shared T D}

omit [Target] in
theorem InBlock.mono (h : InBlock c token)
    (hsub : reservations c.trace ⊆ reservations c'.trace) : InBlock c' token := by
  obtain ⟨first, hmem, hin⟩ := h
  exact ⟨first, hsub hmem, hin⟩

theorem Good.lt_counter (h : Good s) (hin : InBlock s.compact token) :
    token < s.compact.nextObjectTokenId := by
  obtain ⟨first, hmem, _, hlt⟩ := hin
  exact Nat.lt_of_lt_of_le hlt (h.bounds _ hmem).2

theorem Good.initial (capacity : D → Nat) :
    Good (ObjectTokens.initial (T := T) capacity).shared where
  first_le := Nat.le_refl _
  le_max := firstObjectToken_le
  apart := .nil
  bounds := nofun
  issued := nofun
  nodup := .nil
  ordered _ := Nat.le_refl _
  left _ token h := absurd h.2 (Nat.not_lt_zero token)
  owned _ _ token h := absurd h.2 (Nat.not_lt_zero token)

theorem Good.reserves (h : Good s) (hr : Reserves s.compact c) : Good { s with compact := c } := by
  cases hr with
  | none hnext htrace =>
    have hin : ∀ {token}, InBlock s.compact token → InBlock c token := fun hin =>
      hin.mono (by rw [htrace]; exact Subset.refl _)
    exact {
      first_le := by rw [hnext]; exact h.first_le
      le_max := by rw [hnext]; exact h.le_max
      apart := by rw [htrace]; exact h.apart
      bounds := by rw [htrace, hnext]; exact h.bounds
      issued := fun token ht => hin (h.issued token ht)
      nodup := h.nodup
      ordered := h.ordered
      left := fun t token ht => ⟨hin (h.left t token ht).1, (h.left t token ht).2⟩
      owned := h.owned }
  | block publisher hmax hnext htrace =>
    have hin : ∀ {token}, InBlock s.compact token → InBlock c token := fun hin =>
      hin.mono (by rw [htrace]; exact subset_cons_self _ _)
    exact {
      first_le := by rw [hnext]; exact Nat.le_trans h.first_le (Nat.le_add_right _ _)
      le_max := by rw [hnext]; exact hmax
      apart := by
        rw [htrace]
        exact pairwise_cons.mpr ⟨fun a ha => (h.bounds a ha).2, h.apart⟩
      bounds := by
        rw [htrace, hnext]
        refine forall_mem_cons.mpr ⟨⟨h.first_le, Nat.le_refl _⟩, fun a ha => ?_⟩
        exact ⟨(h.bounds a ha).1, Nat.le_trans (h.bounds a ha).2 (Nat.le_add_right _ _)⟩
      issued := fun token ht => hin (h.issued token ht)
      nodup := h.nodup
      ordered := h.ordered
      left := fun t token ht => ⟨hin (h.left t token ht).1, (h.left t token ht).2⟩
      owned := h.owned }

variable [DecidableEq T]

/-- A token is taken from a block that no other thread has a part of. -/
theorem Good.give (h : Good s) (hne : block.next < block.limit)
    (hleft : ∀ token, block.Has token → InBlock s.compact token ∧ token ∉ s.issued)
    (howned : ∀ u token, u ≠ t → (s.objectTokens u).Has token → ¬ block.Has token) :
    Good (ObjectTokens.give t block s).2 := by
  have hrest : ∀ {token}, Block.Has { block with next := block.next + 1 } token →
      block.Has token ∧ token ≠ block.next := fun ⟨hle, hlt⟩ =>
    ⟨⟨Nat.le_of_succ_le hle, hlt⟩, Nat.ne_of_gt hle⟩
  have hhead := hleft block.next ⟨Nat.le_refl _, hne⟩
  refine { h with issued := ?_, nodup := ?_, ordered := ?_, left := ?_, owned := ?_ }
  · exact forall_mem_cons.mpr ⟨hhead.1, h.issued⟩
  · exact nodup_cons.mpr ⟨hhead.2, h.nodup⟩
  · intro u
    by_cases hu : u = t
    · subst hu
      simpa [ObjectTokens.give] using Nat.succ_le_of_lt hne
    · simpa [ObjectTokens.give, hu] using h.ordered u
  · intro u token ht
    by_cases hu : u = t
    · subst hu
      obtain ⟨hhas, hnext⟩ := hrest (by simpa [ObjectTokens.give] using ht)
      exact ⟨(hleft token hhas).1, not_mem_cons_of_ne_of_not_mem hnext (hleft token hhas).2⟩
    · have hhas : (s.objectTokens u).Has token := by simpa [ObjectTokens.give, hu] using ht
      refine ⟨(h.left u token hhas).1, not_mem_cons_of_ne_of_not_mem ?_ (h.left u token hhas).2⟩
      rintro rfl
      exact howned u _ hu hhas ⟨Nat.le_refl _, hne⟩
  · intro u v token hu hv
    by_cases hut : u = t
    · by_cases hvt : v = t
      · rw [hut, hvt]
      · subst hut
        have hhas := (hrest (by simpa [ObjectTokens.give] using hu)).1
        exact absurd hhas (howned v token hvt (by simpa [ObjectTokens.give, hvt] using hv))
    · by_cases hvt : v = t
      · subst hvt
        have hhas := (hrest (by simpa [ObjectTokens.give] using hv)).1
        exact absurd hhas (howned u token hut (by simpa [ObjectTokens.give, hut] using hu))
      · exact h.owned u v token (by simpa [ObjectTokens.give, hut] using hu)
          (by simpa [ObjectTokens.give, hvt] using hv)

theorem Good.exchange (h : Good s) (fail : Bool) (first : Nat) :
    Good (ObjectTokens.exchange t fail first s).2 := by
  unfold ObjectTokens.exchange
  split
  · exact h
  next hfits =>
  split
  · exact h
  next hsame =>
  obtain rfl : s.compact.nextObjectTokenId = first := by
    by_contra hne
    exact hsame (by simp [hne])
  have hblock : Reserves s.compact ({ s.compact with
      nextObjectTokenId := s.compact.nextObjectTokenId + objectTokenBlockSize }.log
        (.reserved none s.compact.nextObjectTokenId)) := by
    refine .block none ?_ rfl rfl
    have := firstObjectToken_le
    simp only [objectTokenBlockSize, reservedWidth, firstObjectToken] at hfits this ⊢
    omega
  -- Tokens in use lie below the counter, those of the new block do not.
  refine (h.reserves hblock).give (Nat.lt_add_of_pos_right (by decide)) ?_ ?_
  · intro token ht
    refine ⟨⟨_, mem_cons_self, ht⟩, fun hissued => ?_⟩
    exact absurd ht.1 (Nat.not_le.mpr (h.lt_counter (h.issued token hissued)))
  · intro u token _ hu ht
    exact absurd ht.1 (Nat.not_le.mpr (h.lt_counter (h.left u token hu).1))

variable [DecidableEq D]

theorem Good.act (h : Good s) (hact : ObjectTokens.act t turn p s = some (p', s')) : Good s' := by
  unfold ObjectTokens.act at hact
  split at hact
  · cases hact
  · next hturn =>
    obtain ⟨⟨_, c⟩, hcompact, heq⟩ := map_eq_some_iff.mp hact
    cases heq
    exact h.reserves (reserves_act (fun heq => hturn heq) hcompact)
  · split at hact
    · cases hact
      exact h
    next hne =>
    cases hact
    refine h.give (Nat.lt_of_le_of_ne (h.ordered t) hne) (h.left t) ?_
    exact fun u token hu hhas ht => hu (h.owned u t token hhas ht)
  · cases hact
    exact h
  · obtain rfl : _ = s' := congrArg Prod.snd (some.inj hact)
    exact h.exchange _ _
  · obtain rfl : _ = s' := congrArg Prod.snd (some.inj hact)
    exact h.exchange _ _
  · cases hact

def outline : Outline (ObjectTokens.act (T := T) (D := D)) where
  Good := Good
  At _ _ _ := True
  Does _ _ _ := True
  sound hs _ hact := ⟨trivial, hs.act hact, trivial⟩
  stable _ _ _ _ := trivial

-- Runs

/-- The starts of the ranges that compact descriptors have reserved, latest first. -/
def compactRanges (s : Shared T D) : List Nat :=
  (reservations s.compact.trace).filterMap fun a => a.1.map fun _ => a.2

/-- In every schedule the tokens issued for objects are distinct and not null, the reserved
ranges lie apart and above null, no issued token lies in a reserved range, and the counter
has not wrapped. -/
theorem run_tokens_distinct {capacity : D → Nat} {schedule : List (T × Turn T D)}
    {cfg : Config T (Position D) (Shared T D)}
    (hrun : run ObjectTokens.act (ObjectTokens.initial capacity) schedule = some cfg) :
    cfg.shared.issued.Nodup ∧ 0 ∉ cfg.shared.issued ∧
      (compactRanges cfg.shared).Pairwise (fun a b => b + reservedWidth ≤ a) ∧
      0 ∉ compactRanges cfg.shared ∧
      (∀ token ∈ cfg.shared.issued, ∀ first ∈ compactRanges cfg.shared,
        token < first ∨ first + reservedWidth ≤ token) ∧
      cfg.shared.compact.nextObjectTokenId ≤ uintptrMax := by
  have h : Good cfg.shared :=
    (outline.run ⟨Good.initial capacity, fun _ => trivial⟩ hrun).1
  have hranges : ∀ {first}, first ∈ compactRanges cfg.shared →
      ∃ u, (some u, first) ∈ reservations cfg.shared.compact.trace := fun hfirst => by
    obtain ⟨⟨publisher, first⟩, hmem, heq⟩ := mem_filterMap.mp hfirst
    obtain ⟨u, rfl, rfl⟩ := map_eq_some_iff.mp heq
    exact ⟨u, hmem⟩
  refine ⟨h.nodup, fun hzero => ?_, ?_, fun hzero => ?_, fun token ht first hfirst => ?_, h.le_max⟩
  · obtain ⟨first, hmem, hle, _⟩ := h.issued 0 hzero
    exact absurd (Nat.le_trans (h.bounds _ hmem).1 hle) (by decide)
  · refine h.apart.filterMap _ fun a b hab first hfirst first' hfirst' => ?_
    obtain ⟨_, _, rfl⟩ := map_eq_some_iff.mp hfirst
    obtain ⟨_, _, rfl⟩ := map_eq_some_iff.mp hfirst'
    exact hab
  · obtain ⟨u, hmem⟩ := hranges hzero
    exact absurd (h.bounds _ hmem).1 (by decide : ¬ objectTokenFirst ≤ 0)
  · obtain ⟨first', hmem', hle, hlt⟩ := h.issued token ht
    obtain ⟨u, hmem⟩ := hranges hfirst
    obtain hap | hap := CompactNumeric.apart_of_ne h.apart hmem hmem' (by simp)
    · exact .inl (Nat.lt_of_lt_of_le hlt hap)
    · exact .inr (Nat.le_trans hap hle)

end

/-- One thread issues a token, another publishes a range, and both issue a token again. -/
def issuePublishIssue : List (Bool × Turn Bool Unit) :=
  [(false, .issueObjectToken), (false, .proceed), (false, .proceed),
    (true, .compact (.call (.publishRangeFromStore ())))] ++
  replicate 11 (true, .compact .proceed) ++
  [(true, .issueObjectToken), (true, .proceed), (true, .fail), (false, .issueObjectToken),
    (true, .proceed)]

local instance target64 : Target := ⟨64, by decide⟩

theorem run_tokens_distinct_issuePublishIssue : ∃ cfg,
    run ObjectTokens.act (ObjectTokens.initial fun _ => 1024) issuePublishIssue =
      some cfg ∧
    cfg.shared.issued = [0x10800, 0x10001, 0x10000] ∧ compactRanges cfg.shared = [0x10400] ∧
    cfg.shared.issued.Nodup := by
  have hmap : (run ObjectTokens.act (ObjectTokens.initial fun _ => 1024)
      issuePublishIssue).map (fun cfg => (cfg.shared.issued, compactRanges cfg.shared)) =
        some ([0x10800, 0x10001, 0x10000], [0x10400]) := by
    decide
  obtain ⟨cfg, hrun, hvalues⟩ := map_eq_some_iff.mp hmap
  obtain ⟨hissued, hranges⟩ := Prod.mk.inj hvalues
  exact ⟨cfg, hrun, hissued, hranges, (run_tokens_distinct hrun).1⟩

end Uwvm2.Storage.ObjectTokens
