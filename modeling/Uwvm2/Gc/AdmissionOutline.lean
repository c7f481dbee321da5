import Uwvm2.Gc.EntryAdmission

/-!
# The leases of the entry admission

The word is the number of live shared leases, with the exclusive bit on top while an
exclusive lease is live. Every step keeps this, whatever the other threads do
between two steps of a call; the presented leases of `try_exclusive_owned` stay live
as long as their holders keep them.
-/

namespace Uwvm2.Gc.EntryAdmission

open Function Option
open RelyGuarantee

-- The word

theorem exclusiveBit_eq : exclusiveBit = BitVec.twoPow 64 63 := by decide

theorem exclusiveBit_toNat : exclusiveBit.toNat = 2 ^ 63 := by decide

theorem countMask_toNat : countMask.toNat = 2 ^ 63 - 1 := by decide

theorem and_exclusiveBit (w : BitVec 64) : w &&& exclusiveBit ≠ 0#64 ↔ 2 ^ 63 ≤ w.toNat := by
  have hmsb : w.getLsbD 63 = decide (2 ^ 63 ≤ w.toNat) := BitVec.msb_eq_decide w
  rw [exclusiveBit_eq, BitVec.and_twoPow, hmsb]
  simp

theorem and_countMask_toNat (w : BitVec 64) : (w &&& countMask).toNat = w.toNat % 2 ^ 63 := by
  rw [BitVec.toNat_and, countMask_toNat, Nat.and_two_pow_sub_one_eq_mod]

theorem or_exclusiveBit_toNat (h : w.toNat < 2 ^ 63) :
    (exclusiveBit ||| w).toNat = 2 ^ 63 + w.toNat := by
  rw [BitVec.toNat_or, exclusiveBit_toNat]
  exact (Nat.two_pow_add_eq_or_of_lt h 1).symm

variable {T E : Type} [DecidableEq T] {t : T} {s s' : Admission T E}

-- The live leases

section Live

variable {l : LeaseObject} {f : LeaseObject → SharedLease T}

def used (f : LeaseObject → SharedLease T) : Finset LeaseObject := Finset.univ.filter (f · ≠ .empty)

@[simp] theorem mem_used : l ∈ used f ↔ f l ≠ .empty := by simp [used]

theorem used_card_lt (f : LeaseObject → SharedLease T) : (used f).card < 2 ^ 63 - 1 := by
  have h := Finset.card_le_univ (used f)
  rw [Fintype.card_fin] at h
  exact Nat.lt_of_le_of_lt h (by decide)

theorem used_update_ne (hl : f l ≠ .empty) (hv : v ≠ .empty) : used (update f l v) = used f := by
  ext l'
  by_cases h : l' = l
  · simp [h, hl, hv]
  · simp [update_of_ne h]

theorem used_update_insert (hv : v ≠ .empty) : used (update f l v) = insert l (used f) := by
  ext l'
  by_cases h : l' = l
  · simp [h, hv]
  · simp [h]

theorem used_update_erase : used (update f l .empty) = (used f).erase l := by
  ext l'
  by_cases h : l' = l
  · simp [h]
  · simp [h]

theorem used_card_grant (hl : f l = .empty) (hv : v ≠ .empty) :
    (used (update f l v)).card = (used f).card + 1 := by
  rw [used_update_insert hv, Finset.card_insert_of_notMem (by simp [hl])]

theorem used_card_release (hl : f l ≠ .empty) :
    (used (update f l .empty)).card + 1 = (used f).card := by
  rw [used_update_erase, Finset.card_erase_add_one (mem_used.mpr hl)]

theorem used_card_move (hl : f l ≠ .empty) (hl' : f l' = .empty) (hv : v ≠ .empty) :
    (used (update (update f l .empty) l' v)).card = (used f).card := by
  have hne : l' ≠ l := fun heq => hl (heq ▸ hl')
  rw [used_card_grant (by rwa [update_of_ne hne]) hv, used_card_release hl]

end Live

-- The outline

def ExclusiveLease.count? : ExclusiveLease T → Option (BitVec 64)
  | .empty => none
  | .held count | .leaving _ count => some count

structure Good (s : Admission T E) : Prop where
  free : ¬ Excluded s → s.state.toNat = (used s.shared).card
  excluded : Excluded s → s.state.toNat = 2 ^ 63 + (used s.shared).card
  unique : ∀ e e', s.exclusive e ≠ .empty → s.exclusive e' ≠ .empty → e = e'
  count_lt : ∀ e n, (s.exclusive e).count? = some n → n.toNat < 2 ^ 63
  count : s.kept → ∀ e n, (s.exclusive e).count? = some n → n.toNat = (used s.shared).card
  terminated : s.terminated → ¬ s.kept

/-- The first `i` presented leases were checked, and are held as long as they are kept. -/
structure Presented (t : T) (s : Admission T E) (actualLeases : List (Option LeaseObject))
    (i : Nat) :
    Prop where
  borrowed : s.borrowed t = actualLeases.reduceOption
  length_le : actualLeases.length ≤ countMask.toNat
  nodup : (actualLeases.take i).Nodup
  isSome : none ∉ actualLeases.take i
  held : s.retained t → ∀ l, some l ∈ actualLeases.take i → s.shared l = .held

def At (t : T) (p : Position E) (s : Admission T E) : Prop :=
  match p with
  | .enterLoop state => state ≠ countMask
  | .ownedCheck actualLeases i => Presented t s actualLeases i
  | .ownedExchange actualLeases => Presented t s actualLeases actualLeases.length
  | .exclusiveExchange n => n.toNat ≤ 1
  | .leaveShared l => s.shared l = .leaving t
  | .leaveExclusive e n => s.exclusive e = .leaving t n
  | _ => True

structure Does (t : T) (s s' : Admission T E) : Prop where
  shared : ∀ u, u ≠ t → ∀ l, s.shared l = .leaving u → s'.shared l = .leaving u
  exclusive : ∀ u, u ≠ t → ∀ e n, s.exclusive e = .leaving u n → s'.exclusive e = .leaving u n
  borrowed : ∀ u, u ≠ t → s'.borrowed u = s.borrowed u
  retained : ∀ u, u ≠ t → s'.retained u → s.retained u ∧
    ∀ l ∈ s.borrowed u, s.shared l = .held → s'.shared l = .held

section

omit [DecidableEq T]

theorem Does.refl (t : T) (s : Admission T E) : Does t s s :=
  ⟨fun _ _ _ h => h, fun _ _ _ _ h => h, fun _ _ => rfl, fun _ _ h => ⟨h, fun _ _ h => h⟩⟩

theorem Presented.stable (hu : u ≠ t)
    (h : Presented u s actualLeases i) (hd : Does t s s') : Presented u s' actualLeases i where
  borrowed := (hd.borrowed u hu).trans h.borrowed
  length_le := h.length_le
  nodup := h.nodup
  isSome := h.isSome
  held hr l hl := by
    obtain ⟨hretained, hkeep⟩ := hd.retained u hu hr
    refine hkeep l ?_ (h.held hretained l hl)
    rw [h.borrowed, List.reduceOption_mem_iff]
    exact List.mem_of_mem_take hl

theorem At.stable (hu : u ≠ t) (h : At u p s) (hd : Does t s s') : At u p s' := by
  cases p with
  | ownedCheck | ownedExchange => exact Presented.stable hu h hd
  | enterLoop | exclusiveExchange => exact h
  | leaveShared => exact hd.shared u hu _ h
  | leaveExclusive => exact hd.exclusive u hu _ _ h
  | _ => trivial

end

structure Fits (t : T) (p : Position E) (s : Admission T E) (p' : Position E) (s' : Admission T E) :
    Prop where
  does : Does t s s'
  good : Good s'
  at_ : At t p' s'
  grants : Grants t p s s'

theorem Grants.of_le (hshared : (live s').card ≤ (live s).card)
    (hexclusive : Excluded s' → Excluded s) : Grants t p s s' :=
  ⟨fun hlt => absurd hlt (Nat.not_lt.mpr hshared), fun hnot h => absurd (hexclusive h) hnot⟩

-- Effects

section Effects

variable {p p' : Position E}

theorem Fits.stay (hs : Good s) (hat : At t p' s) : Fits t p s p' s :=
  ⟨.refl t s, hs, hat, .of_le (Nat.le_refl _) id⟩

theorem Good.borrow (hs : Good s) (b : T → List LeaseObject) (r : T → Prop) :
    Good { s with borrowed := b, retained := r } :=
  ⟨hs.free, hs.excluded, hs.unique, hs.count_lt, hs.count, hs.terminated⟩

theorem Does.borrow (hd : Does t s s') (b : List LeaseObject) :
    Does t s { s' with borrowed := update s'.borrowed t b } :=
  { hd with borrowed := fun u hu => (update_of_ne hu _ _).trans (hd.borrowed u hu) }

theorem Fits.returns (h : Fits t p s .outside s') : Fits t p s .outside (s'.returns t) :=
  ⟨h.does.borrow [], h.good.borrow _ _, trivial, h.grants.shared, h.grants.exclusive⟩

theorem Good.not_excluded (hs : Good s) (h : s.state.toNat < 2 ^ 63) : ¬ Excluded s := fun hx => by
  have := hs.excluded hx
  omega

theorem Good.state_ne_countMask (hs : Good s) : s.state ≠ countMask := fun heq => by
  have hlt := used_card_lt s.shared
  have hnat : s.state.toNat = 2 ^ 63 - 1 := by rw [heq, countMask_toNat]
  have := hs.free (hs.not_excluded (by omega))
  omega

theorem Fits.grant (hs : Good s) (hbit : ¬ s.state &&& exclusiveBit ≠ 0#64)
    (hl : s.shared l = .empty) :
    Fits t p s .outside
      { s with state := s.state + 1#64, shared := update s.shared l .held } := by
  have hx : ¬ Excluded s := hs.not_excluded (by rw [and_exclusiveBit] at hbit; omega)
  have hlt := used_card_lt s.shared
  have hcard := used_card_grant (v := SharedLease.held) hl nofun
  have hkeep {l' : LeaseObject} {v : SharedLease T} (hv : v ≠ .empty) (h : s.shared l' = v) :
      update s.shared l .held l' = v := by
    rw [update_of_ne fun heq => hv (by rw [← h, heq, hl])]
    exact h
  refine ⟨⟨fun _ _ _ h => hkeep nofun h, fun _ _ _ _ h => h, fun _ _ => rfl,
    fun _ _ hr => ⟨hr, fun _ _ h => hkeep nofun h⟩⟩, ⟨fun _ => ?_, fun h => absurd h hx, hs.unique,
    hs.count_lt, fun _ e n he => ?_, hs.terminated⟩, trivial, ⟨fun _ => hx, fun _ h => absurd h hx⟩⟩
  · have := hs.free hx
    rw [BitVec.toNat_add, hcard, this]
    exact Nat.mod_eq_of_lt (by simp; omega)
  · have hempty : s.exclusive e = .empty := not_not.mp fun h => hx ⟨e, h⟩
    rw [show Admission.exclusive _ e = .empty from hempty] at he
    cases he

theorem Good.shared_of_card (hs : Good s) (hcard : (used f).card = (used s.shared).card) :
    Good { s with shared := f, retained := r } :=
  ⟨fun hx => (hs.free hx).trans hcard.symm, fun hx => (hs.excluded hx).trans (by rw [hcard]),
    hs.unique, hs.count_lt, fun hk e n he => (hs.count hk e n he).trans hcard.symm, hs.terminated⟩

theorem Fits.beginReset (hs : Good s) (hl : s.shared l = .held) :
    Fits t p s (.leaveShared l) { s with
      shared := update s.shared l (.leaving t)
      retained := fun u => s.retained u ∧ l ∉ s.borrowed u } := by
  have hcard : (used (update s.shared l (.leaving t))).card = (used s.shared).card :=
    congrArg _ (used_update_ne (by rw [hl]; exact nofun) nofun)
  have hkeep {a : LeaseObject} {v : SharedLease T} (hne : a ≠ l) (h : s.shared a = v) :
      update s.shared l (.leaving t) a = v := by
    rw [update_of_ne hne]
    exact h
  refine ⟨⟨fun u hu a h => hkeep (fun heq => ?_) h, fun _ _ _ _ h => h, fun _ _ => rfl,
    fun _ _ hr => ⟨hr.1, fun a hm h => hkeep (fun heq => hr.2 (heq ▸ hm)) h⟩⟩,
    hs.shared_of_card hcard, update_self _ _ _, .of_le (Nat.le_of_eq hcard) id⟩
  rw [heq, hl] at h
  cases h

theorem Fits.move (hs : Good s) (hl : s.shared l = .held) (hl' : s.shared l' = .empty) :
    Fits t p s .outside { s with
      shared := update (update s.shared l .empty) l' .held
      retained := fun u => s.retained u ∧ l ∉ s.borrowed u } := by
  have hcard : (used (update (update s.shared l .empty) l' .held)).card =
      (used s.shared).card := used_card_move (by rw [hl]; exact nofun) hl' nofun
  have hkeep {a : LeaseObject} {v : SharedLease T} (hv : v ≠ .empty) (hne : a ≠ l)
      (h : s.shared a = v) : update (update s.shared l .empty) l' .held a = v := by
    rw [update_of_ne fun heq => hv (by rw [← h, heq, hl']), update_of_ne hne]
    exact h
  refine ⟨⟨fun u hu a h => hkeep nofun ?_ h, fun _ _ _ _ h => h, fun _ _ => rfl,
    fun _ _ hr => ⟨hr.1, fun a hm h => hkeep nofun (fun heq => hr.2 (heq ▸ hm)) h⟩⟩,
    hs.shared_of_card hcard, trivial, .of_le (Nat.le_of_eq hcard) id⟩
  intro heq
  rw [heq, hl] at h
  cases h

theorem Fits.leaveShared (hs : Good s) (hl : s.shared l = .leaving t) : Fits t p s .outside { s with
      state := s.state - 1#64
      shared := update s.shared l .empty
      kept := s.kept ∧ ∀ e, s.exclusive e = .empty
      terminated := s.state &&& exclusiveBit ≠ 0#64 ∨ s.state &&& countMask = 0#64 } := by
  have hcard : (used (update s.shared l .empty)).card + 1 = (used s.shared).card :=
    used_card_release (by rw [hl]; exact nofun)
  have hlt := used_card_lt s.shared
  have hkeep {a : LeaseObject} {v : SharedLease T} (hv : v ≠ .leaving t) (h : s.shared a = v) :
      update s.shared l .empty a = v := by
    rw [update_of_ne fun heq => hv (by rw [← h, heq, hl])]
    exact h
  have hsub {n : Nat} (hn : s.state.toNat = n + 1) : (s.state - 1#64).toNat = n := by
    have hle : 1#64 ≤ s.state := by
      rw [BitVec.le_def, hn]
      simp
    rw [BitVec.toNat_sub_of_le hle, hn]
    rfl
  refine ⟨⟨fun u hu a h => hkeep (fun heq => hu (SharedLease.leaving.inj heq)) h,
    fun _ _ _ _ h => h, fun _ _ => rfl, fun _ _ hr => ⟨hr, fun _ _ h => hkeep nofun h⟩⟩,
    ⟨fun hx => hsub ((hs.free hx).trans hcard.symm),
    fun hx => hsub ((hs.excluded hx).trans (by rw [← hcard, Nat.add_assoc])), hs.unique,
    hs.count_lt, fun hr e n he => ?_, fun ht hr => ?_⟩, trivial,
    .of_le (Nat.le_of_lt (Nat.lt_of_succ_le (Nat.le_of_eq hcard))) id⟩
  · rw [show Admission.exclusive _ e = .empty from hr.2 e] at he
    cases he
  · -- without exclusion the word is the number of leases, and this one is counted
    have hfree := hs.free fun ⟨e, he⟩ => he (hr.2 e)
    rcases of_decide_eq_true ht with hbit | hzero
    · rw [and_exclusiveBit] at hbit
      omega
    · have := congrArg BitVec.toNat hzero
      rw [and_countMask_toNat, hfree, Nat.mod_eq_of_lt (by omega)] at this
      simp only [BitVec.toNat_ofNat, Nat.zero_mod] at this
      omega

/-- The exclusive lease is in another object, or on its way out. -/
theorem Good.setExclusive {x : E → ExclusiveLease T} (hs : Good s)
    (he : (s.exclusive e).count? = some n) (he' : (x d).count? = some n)
    (hx : ∀ a, a ≠ d → x a = .empty) : Good { s with exclusive := x } := by
  have hexcluded : Excluded s := ⟨e, fun heq => by rw [heq] at he; cases he⟩
  have hx' : Excluded { s with exclusive := x } := ⟨d, fun heq => by
    rw [show x d = .empty from heq] at he'
    cases he'⟩
  have heq {a : E} (ha : x a ≠ .empty) : a = d := not_not.mp fun hne => ha (hx a hne)
  have hcount {a : E} {m : BitVec 64} (hm : (x a).count? = some m) : n = m := by
    obtain rfl : a = d := heq fun h => by
      rw [h] at hm
      cases hm
    exact some.inj (he'.symm.trans hm)
  refine ⟨fun hnot => absurd hx' hnot, fun _ => hs.excluded hexcluded,
    fun a b ha hb => (heq ha).trans (heq hb).symm, fun a m hm => hcount hm ▸ hs.count_lt e n he,
    fun hr a m hm => hcount hm ▸ hs.count hr e n he, hs.terminated⟩

variable [DecidableEq E]

section

variable (hs : Good s)

include hs

theorem Fits.grantExclusive (hn : n.toNat < 2 ^ 63) (hstate : s.state = n)
    (he : s.exclusive e = .empty)
    (hgrant : (live s).card = n.toNat → MayExclude t p s) :
    Fits t p s .outside { s with
      state := exclusiveBit ||| n, exclusive := update s.exclusive e (.held n) } := by
  have hx : ¬ Excluded s := hs.not_excluded (by rw [hstate]; exact hn)
  have hempty (e' : E) : s.exclusive e' = .empty := not_not.mp fun h => hx ⟨e', h⟩
  have hcard : (used s.shared).card = n.toNat := by rw [← hs.free hx, hstate]
  have heq {e' : E} (h : update s.exclusive e (.held n) e' ≠ .empty) : e' = e := by
    by_contra hne
    rw [update_of_ne hne] at h
    exact h (hempty e')
  have hlive : update s.exclusive e (.held n) e ≠ .empty := by
    rw [update_self]
    exact nofun
  have hcount {e' : E} {m : BitVec 64}
      (hm : (update s.exclusive e (.held n) e').count? = some m) : n = m := by
    obtain rfl : e' = e := heq fun h => by
      rw [h] at hm
      cases hm
    rw [update_self] at hm
    exact some.inj hm
  refine ⟨{ Does.refl t s with exclusive := fun u hu e' m h => ?_ },
    ⟨fun h => absurd ⟨e, hlive⟩ h, fun _ => ?_, fun e₁ e₂ h₁ h₂ => (heq h₁).trans (heq h₂).symm,
    fun e' m hm => hcount hm ▸ hn, fun _ e' m hm => hcount hm ▸ hcard.symm, hs.terminated⟩, trivial,
    ⟨fun _ => hx, fun _ _ => hgrant hcard⟩⟩
  · cases (hempty e').symm.trans h
  · exact (or_exclusiveBit_toNat hn).trans (congrArg _ hcard.symm)

omit [DecidableEq E] in
theorem Good.only (he : s.exclusive e ≠ .empty) (ha : a ≠ e) :
    s.exclusive a = .empty := not_not.mp fun h => ha (hs.unique a e h he)

omit [DecidableEq E] in
theorem Fits.setExclusive (he : s.exclusive e = .held n) (he' : (x d).count? = some n)
    (hx : ∀ a, a ≠ d → x a = .empty) (hat : At t p' { s with exclusive := x }) :
    Fits t p s p' { s with exclusive := x } := by
  have hlive : s.exclusive e ≠ .empty := by
    rw [he]
    exact nofun
  refine ⟨{ Does.refl t s with exclusive := fun u hu a m h => ?_ },
    hs.setExclusive (by rw [he]; rfl) he' hx, hat, .of_le (Nat.le_refl _) fun _ => ⟨e, hlive⟩⟩
  by_cases ha : a = e
  · rw [ha, he] at h
    cases h
  · cases (hs.only hlive ha).symm.trans h

theorem Fits.beginResetExclusive (he : s.exclusive e = .held n) : Fits t p s (.leaveExclusive e n)
      { s with exclusive := update s.exclusive e (.leaving t n) } := by
  refine .setExclusive (d := e) hs he (by rw [update_self]; rfl) (fun a ha => ?_)
    (update_self _ _ _)
  rw [update_of_ne ha]
  exact hs.only (by rw [he]; exact nofun) ha

theorem Fits.moveExclusive (he : s.exclusive e = .held n) : Fits t p s .outside { s with
      exclusive := update (update s.exclusive e .empty) e' (.held n) } := by
  refine .setExclusive (d := e') hs he (by rw [update_self]; rfl) (fun a ha => ?_) trivial
  rw [update_of_ne ha]
  by_cases hae : a = e
  · rw [hae, update_self]
  · rw [update_of_ne hae]
    exact hs.only (by rw [he]; exact nofun) hae

theorem Fits.leaveExclusive (he : s.exclusive e = .leaving t n)
    (hstate : s.state = exclusiveBit ||| n) :
    Fits t p s .outside { s with
      state := n, exclusive := update s.exclusive e .empty } := by
  have hlive : s.exclusive e ≠ .empty := by
    rw [he]
    exact nofun
  have hnone (a : E) : update s.exclusive e .empty a = .empty := by
    by_cases ha : a = e
    · rw [ha, update_self]
    · rw [update_of_ne ha]
      exact hs.only hlive ha
  have hcount {a : E} {m : BitVec 64} :
      (update s.exclusive e .empty a).count? ≠ some m := by
    rw [hnone a]
    exact nofun
  have hcard : n.toNat = (used s.shared).card := by
    have hword := hs.excluded ⟨e, hlive⟩
    rw [hstate, or_exclusiveBit_toNat (hs.count_lt e n (by rw [he]; rfl))] at hword
    omega
  refine ⟨{ Does.refl t s with exclusive := fun u hu a m h => ?_ },
    ⟨fun _ => hcard, fun ⟨a, ha⟩ => absurd (hnone a) ha, fun a _ ha => absurd (hnone a) ha,
    fun a m hm => absurd hm hcount, fun _ a m hm => absurd hm hcount, hs.terminated⟩, trivial,
    .of_le (Nat.le_refl _) fun ⟨a, ha⟩ => absurd (hnone a) ha⟩
  have hne : a ≠ e := fun heq => by
    rw [heq, he] at h
    exact hu (ExclusiveLease.leaving.inj h).1.symm
  exact (update_of_ne hne _ _).trans h

omit [DecidableEq E] in
theorem Fits.terminate (h : ¬ s.kept) : Fits t p s .outside { s with terminated := true } :=
  ⟨{ Does.refl t s with },
    ⟨hs.free, hs.excluded, hs.unique, hs.count_lt, hs.count, fun _ => h⟩, trivial,
    .of_le (Nat.le_refl _) id⟩

omit [DecidableEq E] in
theorem Good.state_eq (he : s.exclusive e = .leaving t n) (hk : s.kept) :
    s.state = exclusiveBit ||| n := by
  have hcount : (s.exclusive e).count? = some n := by
    rw [he]
    rfl
  have hexcluded : Excluded s := ⟨e, fun h => by rw [h] at hcount; cases hcount⟩
  apply BitVec.eq_of_toNat_eq
  rw [hs.excluded hexcluded, or_exclusiveBit_toNat (hs.count_lt e n hcount), hs.count hk e n hcount]

end

end Effects

-- Steps

section Steps

variable [DecidableEq E] {p p' : Position E} {turn : Turn E}

theorem start_sound (hs : Good s) : Leads (Fits t .outside s) (start t s op) := by
  have hstay : Leads (Fits t .outside s) (some (.outside, s)) := .some (.stay hs trivial)
  cases op with
  | enter | tryEnter => exact .some (.stay hs trivial)
  | tryExclusiveOwned actualLeases =>
    refine .ite (fun _ => hstay) fun hlength => .some ?_
    refine ⟨{ (Does.refl t s).borrow _ with retained := fun u hu hr => ?_ }, hs.borrow _ _, ?_,
      .of_le (Nat.le_refl _) id⟩
    · rw [show Admission.retained _ u = s.retained u from update_of_ne hu _ _] at hr
      exact ⟨hr, fun _ _ h => h⟩
    exact ⟨update_self _ _ _, by omega, List.nodup_nil, List.not_mem_nil,
      fun _ _ h => absurd h List.not_mem_nil⟩
  | tryExclusive requiredCount =>
    refine .ite (fun _ => hstay) fun hle => .some (.stay hs ?_)
    rw [BitVec.lt_def] at hle
    exact Nat.not_lt.mp hle
  | reset l => exact .ite (fun hl => .some (.beginReset hs hl)) fun _ => hstay
  | move source target =>
    exact .await fun htarget =>
      .ite (fun hsource => .some (.move hs hsource htarget)) fun _ => hstay
  | resetExclusive e =>
    simp only [start]
    split
    next he => exact .some (.beginResetExclusive hs he)
    next => exact hstay
  | moveExclusive source target =>
    refine .await fun _ => ?_
    split
    next he => exact .some (.moveExclusive hs he)
    next => exact hstay

omit [DecidableEq E] in
theorem exchangeShared_sound (hs : Good s) (hbit : ¬ state &&& exclusiveBit ≠ 0#64)
    (hretry : At t (retry s.state) s) : Leads (Fits t p s) (exchangeShared s state retry turn) := by
  cases turn with
  | call | grantExclusive => exact .none
  | grant l =>
    refine .guard fun hcond => ?_
    obtain ⟨rfl, hl⟩ := hcond
    exact .grant hs hbit hl
  | proceed => exact .guard fun _ => .stay hs hretry
  | fail => exact .some (.stay hs hretry)

theorem exchangeExclusive_sound (hs : Good s) (hn : n.toNat < 2 ^ 63)
    (hgrant : (live s).card = n.toNat → MayExclude t p s) :
    Leads (fun p' s' => p' = .outside ∧ Fits t p s p' s') (exchangeExclusive s n turn) := by
  cases turn with
  | call | grant | fail => exact .none
  | grantExclusive e =>
    exact .guard fun hcond => ⟨rfl, .grantExclusive hs hn hcond.1 hcond.2 hgrant⟩
  | proceed => exact .guard fun _ => ⟨rfl, .stay hs trivial⟩

omit [DecidableEq T] [DecidableEq E] in
theorem Presented.next (h : Presented t s actualLeases i) (hget : actualLeases[i]? = some (some l))
    (hl : s.shared l = .held) (hnew : some l ∉ actualLeases.take i) :
    Presented t s actualLeases (i + 1) := by
  have htake : actualLeases.take (i + 1) = actualLeases.take i ++ [some l] := by
    rw [List.take_add_one, hget]
    rfl
  refine ⟨h.borrowed, h.length_le, ?_, ?_, fun hr l' hl' => ?_⟩
  · rw [htake]
    exact h.nodup.append (List.nodup_singleton _) (List.disjoint_singleton.mpr hnew)
  · rw [htake, List.mem_append, not_or]
    exact ⟨h.isSome, by simp⟩
  · rw [htake, List.mem_append, List.mem_singleton] at hl'
    rcases hl' with hl' | heq
    · exact h.held hr l' hl'
    · cases heq
      exact hl

omit [DecidableEq E] in
/-- As many presented leases as there are live ones are all of them. -/
theorem Presented.eq_live (h : Presented t s actualLeases actualLeases.length)
    (hcard : (live s).card = actualLeases.length) (hr : s.retained t) :
    ∀ o, o ∈ actualLeases ↔ ∃ l ∈ live s, o = some l := by
  obtain ⟨_, _, hnodup, hsome, hheld⟩ := h
  rw [List.take_length] at hnodup hsome hheld
  have hsub : actualLeases.toFinset ⊆ (live s).map Function.Embedding.some := by
    intro o ho
    rw [List.mem_toFinset] at ho
    cases o with
    | none => exact absurd ho hsome
    | some l =>
      refine Finset.mem_map.mpr ⟨l, mem_used.mpr ?_, rfl⟩
      rw [hheld hr l ho]
      exact nofun
  have heq := Finset.eq_of_subset_of_card_le hsub (by
    rw [Finset.card_map, hcard, List.toFinset_card_of_nodup hnodup])
  intro o
  rw [← List.mem_toFinset, heq, Finset.mem_map]
  exact exists_congr fun l => and_congr_right fun _ => eq_comm

theorem advance_sound (hs : Good s) (hat : At t p s) : Leads (Fits t p s) (advance t turn s p) := by
  cases p with
  | outside => exact .none
  | enterLoad => exact .some (.stay hs hs.state_ne_countMask)
  | enterLoop state =>
    refine .ite (fun _ => .guard fun _ => .stay hs trivial) fun hbit => ?_
    rw [if_neg hat]
    exact exchangeShared_sound hs hbit hs.state_ne_countMask
  | tryEnterLoad => exact .some (.stay hs trivial)
  | tryEnterLoop state =>
    exact .ite (fun _ => .some (.stay hs trivial)) fun hbit =>
      exchangeShared_sound hs (not_or.mp hbit).1 trivial
  | ownedCheck actualLeases i =>
    refine .ite (fun hi => .some (.stay hs (show Presented _ _ _ _ from hi ▸ hat))) fun _ => ?_
    split
    next l hget =>
      exact .ite (fun hcond => .some (.stay hs (Presented.next hat hget hcond.1 hcond.2))) fun _ =>
        .some (.returns (.stay hs trivial))
    next => exact .some (.returns (.stay hs trivial))
  | ownedExchange actualLeases =>
    refine .map fun ⟨p₁, s₁⟩ hexchange => ?_
    have hlength : actualLeases.length ≤ 2 ^ 63 - 1 := countMask_toNat ▸ hat.length_le
    have hnat : (BitVec.ofNat 64 actualLeases.length).toNat = actualLeases.length :=
      Nat.mod_eq_of_lt (by omega)
    have hnodup : actualLeases.Nodup := by
      rw [← actualLeases.take_length]
      exact hat.nodup
    have hgrant (hcard : (live s).card = (BitVec.ofNat 64 actualLeases.length).toNat) :
        MayExclude t (.ownedExchange actualLeases) s :=
      .inr ⟨_, rfl, hnodup, hcard.trans hnat, Presented.eq_live hat (hcard.trans hnat)⟩
    obtain ⟨rfl, hfits⟩ := exchangeExclusive_sound hs (by rw [hnat]; omega) hgrant hexchange
    exact hfits.returns
  | exclusiveExchange requiredCount =>
    have hle : requiredCount.toNat ≤ 1 := hat
    exact (exchangeExclusive_sound hs (by omega) fun hcard => .inl ⟨_, rfl, hcard⟩).mono
      fun _ _ h => h.2
  | leaveShared l => exact .some (.leaveShared hs hat)
  | leaveExclusive e count =>
    exact .ite (fun hstate => .some (.leaveExclusive hs hat hstate)) fun hstate =>
      .some (.terminate hs fun hk => hstate (hs.state_eq hat hk))

theorem act_sound (hs : Good s) (hat : At t p s) : Leads (Fits t p s) (act t turn p s) := by
  refine .ite (fun _ => .none) fun _ => ?_
  split
  case h_1 => exact start_sound hs
  case h_2 => exact .none
  case h_3 => exact advance_sound hs hat

end Steps

-- Runs

variable [DecidableEq E]

def outline : Outline (act (T := T) (E := E)) where
  Good := Good
  At := At
  Does := Does
  sound hs hat hact :=
    have h := act_sound hs hat hact
    ⟨h.does, h.good, h.at_⟩
  stable hu _ h hd := h.stable hu hd

theorem outline_initial : (outline (T := T) (E := E)).Holds initial := by
  have hx : ¬ Excluded (initial (T := T) (E := E)).shared := fun ⟨_, h⟩ => h rfl
  refine ⟨⟨fun _ => ?_, fun h => absurd h hx, fun _ _ h => absurd rfl h, nofun, nofun, nofun⟩,
    fun _ => trivial⟩
  simp [initial, used]

omit [DecidableEq E] in
theorem Good.accounted (hs : Good s) : Accounted s := by
  have hlt := used_card_lt s.shared
  refine ⟨?_, ?_, hs.unique⟩
  · rw [and_countMask_toNat]
    by_cases hx : Excluded s
    · rw [hs.excluded hx, Nat.add_mod_left]
      exact Nat.mod_eq_of_lt (show (used s.shared).card < 2 ^ 63 by omega)
    · rw [hs.free hx]
      exact Nat.mod_eq_of_lt (show (used s.shared).card < 2 ^ 63 by omega)
  · rw [and_exclusiveBit]
    constructor
    · intro hbit
      by_contra hx
      rw [hs.free hx] at hbit
      omega
    · intro hx
      rw [hs.excluded hx]
      exact Nat.le_add_right _ _

/-- Along every schedule of any number of threads the word accounts for the leases, leases
are granted only when they may be, and the process does not terminate while no lease is
given up under exclusion. -/
theorem run_admission {schedule : List (T × Turn E)} {cfg : Config T (Position E) (Admission T E)}
    (hrun : run act initial schedule = some cfg) :
    Accounted cfg.shared ∧ (cfg.shared.kept → cfg.shared.terminated = false) ∧
      ∀ turn cfg', step act cfg turn = some cfg' →
        Grants turn.1 (cfg.position turn.1) cfg.shared cfg'.shared := by
  obtain ⟨hs, hat⟩ := outline.run outline_initial hrun
  refine ⟨hs.accounted, fun hk => ?_, fun turn cfg' hstep => ?_⟩
  · exact Bool.eq_false_iff.mpr fun ht => hs.terminated ht hk
  · obtain ⟨⟨p', s'⟩, hact, rfl⟩ := map_eq_some_iff.mp hstep
    exact (act_sound hs (hat turn.1) hact).grants

/-- One thread enters, and another is about to exclude all entries with the lease of the
first. -/
def enterPresent : List (Bool × Turn Unit) :=
  [(false, .call .enter), (false, .proceed), (false, .grant 0),
   (true, .call (.tryExclusiveOwned [some 0])), (true, .proceed), (true, .proceed)]

/-- The exclusion is granted, and the presented lease is the only one. -/
theorem run_admission_enterPresent : ∃ cfg cfg', run act initial enterPresent = some cfg ∧
      step act cfg (true, .grantExclusive ()) = some cfg' ∧ Excluded cfg'.shared ∧
      Accounted cfg.shared ∧ cfg.shared.terminated = false ∧
      ∀ o, o ∈ [some 0] ↔ ∃ l ∈ live cfg.shared, o = some l := by
  have hrun : (do
      let cfg ← run act initial enterPresent
      let cfg' ← step act cfg (true, .grantExclusive ())
      return (cfg.position true, cfg.shared.retained true, cfg.shared.kept, cfg.shared.exclusive (),
        cfg'.shared.exclusive ())) =
      some (.ownedExchange [some 0], True, True, .empty, .held 1#64) := rfl
  obtain ⟨cfg, hcfg, hrun⟩ := bind_eq_some_iff.mp hrun
  obtain ⟨cfg', hstep, hrun⟩ := bind_eq_some_iff.mp hrun
  simp only [pure_def, some.injEq, Prod.mk.injEq, eq_iff_iff, iff_true] at hrun
  obtain ⟨hposition, hretained, hkept, hfree, hexclusive⟩ := hrun
  obtain ⟨haccounted, hterminated, hgrants⟩ := run_admission hcfg
  have hx : ¬ Excluded cfg.shared := fun ⟨_, h⟩ => h hfree
  have hx' : Excluded cfg'.shared := ⟨(), by rw [hexclusive]; exact nofun⟩
  have hmay := (hgrants _ _ hstep).exclusive hx hx'
  rw [hposition] at hmay
  obtain ⟨n, hn, -⟩ | ⟨actualLeases, hleases, -, -, hlive⟩ := hmay
  · cases hn
  · cases hleases
    exact ⟨cfg, cfg', hcfg, hstep, hx', haccounted, hterminated hkept, hlive hretained⟩

omit [DecidableEq E] in
theorem Accounted.live_eq (h : Accounted s) (hstate : s.state &&& countMask = 1#64)
    (hl : s.shared l ≠ .empty) : live s = {l} := by
  have hcount := h.count
  rw [hstate] at hcount
  obtain ⟨a, ha⟩ := Finset.card_eq_one.mp hcount.symm
  have hmem : l ∈ live s := mem_used.mpr hl
  rw [ha, Finset.mem_singleton] at hmem
  rw [ha, hmem]

omit [DecidableEq E] in
theorem Accounted.protectsShared (h : Accounted s)
    (hp : EntryAdmission.protectsShared s e l = true) : live s = {l} := by
  obtain ⟨_, hl, hstate⟩ := of_decide_eq_true hp
  refine h.live_eq (by rw [hstate]; rfl) ?_
  rw [hl]
  exact nofun

/-- The first thread leaves and enters again. -/
def leaveEnter : List (Bool × Turn Unit) :=
  [(false, .call (.reset 0)), (false, .proceed), (false, .call .enter), (false, .proceed),
   (false, .grant 1)]

/-- An exclusion is also granted where the presented lease was given up and another one is
live. -/
theorem ownedExchange_leaveEnter :
    ∃ cfg cfg', run act initial (enterPresent ++ leaveEnter) = some cfg ∧
      cfg.position true = .ownedExchange [some 0] ∧
      step act cfg (true, .grantExclusive ()) = some cfg' ∧
      ¬ Excluded cfg.shared ∧ Excluded cfg'.shared ∧ live cfg.shared = {1} := by
  have hrun : (do
      let cfg ← run act initial (enterPresent ++ leaveEnter)
      let cfg' ← step act cfg (true, .grantExclusive ())
      return (cfg.position true, cfg.shared.state, cfg.shared.shared 1, cfg.shared.exclusive (),
        cfg'.shared.exclusive ())) =
      some (.ownedExchange [some 0], 1#64, .held, .empty, .held 1#64) := rfl
  obtain ⟨cfg, hcfg, hrun⟩ := bind_eq_some_iff.mp hrun
  obtain ⟨cfg', hstep, hrun⟩ := bind_eq_some_iff.mp hrun
  simp only [pure_def, some.injEq, Prod.mk.injEq] at hrun
  obtain ⟨hposition, hstate, hheld, hfree, hexclusive⟩ := hrun
  obtain ⟨hs, -⟩ := outline.run outline_initial hcfg
  refine ⟨cfg, cfg', hcfg, hposition, hstep, fun ⟨_, h⟩ => h hfree, ⟨(), ?_⟩,
    hs.accounted.live_eq ?_ ?_⟩
  · rw [hexclusive]
    exact nofun
  · rw [hstate]
    rfl
  · rw [hheld]
    exact nofun

end Uwvm2.Gc.EntryAdmission
