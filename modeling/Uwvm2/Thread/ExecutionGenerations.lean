import Uwvm2.Lib.Holders
import Uwvm2.Thread.ExecutionDomain

/-!
# A generation is replaced only after its last lease

A generation that is stopped and has no lease never has one again. So whoever has seen that,
with the maintenance mutex held since, may replace the current generation.
-/

namespace Uwvm2.Thread.ExecutionDomain

open Function List Option
open RelyGuarantee

variable {T O : Type} {t : T} {s s' : Domain T O} {g : Nat}

-- The outline

/-- The generation is stopped and has no lease. -/
structure ExecutionLifetime.Drained (l : ExecutionLifetime) : Prop where
  stopping : l.stopping = true
  active : l.active = 0

/-- The leases of the current generation are the only ones, and are counted. -/
structure Counted (s : Domain T O) : Prop where
  holders : ∀ g, (holders s.leases g).encard = (s.lifetimes g).active
  retired : ∀ g, g ≠ s.current → (s.lifetimes g).active = 0
  capacity : ∀ g, (s.lifetimes g).active ≤ s.capacity

/-- The current generation and the ones that are prepared were never replaced. -/
structure Numbered (s : Domain T O) : Prop where
  current : s.current < s.generations
  fresh : ∀ g, s.generations ≤ g → s.lifetimes g = {}
  replacement : ∀ p g, (s.preparedGenerations p).replacement = some g →
    g < s.generations ∧ g ≠ s.current ∧ ∀ e ∈ s.history, e.old ≠ some g
  distinct : ∀ p p' g, (s.preparedGenerations p).replacement = some g →
    (s.preparedGenerations p').replacement = some g → p = p'
  replaced : ∀ e ∈ s.history, ∀ g, e.old = some g → g < s.generations ∧ g ≠ s.current

structure Good (s : Domain T O) : Prop where
  counted : Counted s
  numbered : Numbered s
  drained : ∀ d k, s.drainedGenerations d = some k → (s.lifetimes k.actual).Drained
  published : ∀ old new rest, s.history = .published old new :: rest → s.accepting = false

def Stage.Holds (s : Domain T O) : Stage → Prop
  | .locked => True
  | .closed g => g = s.current ∧ s.accepting = false
  | .stopping g => g = s.current ∧ s.accepting = false ∧ (s.lifetimes g).stopping = true
  | .callback g | .returned g => g = s.current ∧ s.accepting = false ∧ (s.lifetimes g).Drained

def At (t : T) : Position O → Domain T O → Prop
  | .idle, _ | .drainOwnedTransition _, _ => True
  | .requestStop g, s => g < s.generations
  | .configure, s => s.maintenance = some t
  | .configuring, s => s.maintenance = some t ∧ s.admission = some t
  | .maintain _ stage, s => s.maintenance = some t ∧ stage.Holds s
  | .drainPrepared _ _ g, s => (s.lifetimes g).stopping = true
  | .drainRecheck _ _ g, s => (s.lifetimes g).Drained
  | .publishing _, s => s.maintenance = some t ∧ s.admission = some t ∧ s.accepting = false ∧
    (s.lifetimes s.current).Drained
  | .opening _, s => s.maintenance = some t ∧ s.admission = some t ∧ s.accepting = false

structure Does (t : T) (s s' : Domain T O) : Prop where
  maintenance : ∀ u, u ≠ t → s.maintenance = some u → s'.maintenance = some u ∧
    s'.current = s.current ∧ (s.accepting = false → s'.accepting = false)
  admission : ∀ u, u ≠ t → s.admission = some u → s'.admission = some u
  capacity : s'.capacity = s.capacity
  generations : s.generations ≤ s'.generations
  history : s.history <:+ s'.history
  stopping : ∀ g, (s.lifetimes g).stopping = true → (s'.lifetimes g).stopping = true
  drained : ∀ g, (s.lifetimes g).Drained → (s'.lifetimes g).Drained

theorem Stage.Holds.stable {stage : Stage} (hu : u ≠ t) (hm : s.maintenance = some u)
    (h : stage.Holds s) (hd : Does t s s') : stage.Holds s' := by
  obtain ⟨-, hcurrent, haccepting⟩ := hd.maintenance u hu hm
  cases stage with
  | locked => trivial
  | closed g => exact ⟨h.1.trans hcurrent.symm, haccepting h.2⟩
  | stopping g => exact ⟨h.1.trans hcurrent.symm, haccepting h.2.1, hd.stopping g h.2.2⟩
  | callback g => exact ⟨h.1.trans hcurrent.symm, haccepting h.2.1, hd.drained g h.2.2⟩
  | returned g => exact ⟨h.1.trans hcurrent.symm, haccepting h.2.1, hd.drained g h.2.2⟩

theorem At.stable (hu : u ≠ t) (h : At u p s) (hd : Does t s s') : At u p s' := by
  cases p with
  | idle | drainOwnedTransition => trivial
  | requestStop g => exact Nat.lt_of_lt_of_le h hd.generations
  | configure => exact (hd.maintenance u hu h).1
  | configuring => exact ⟨(hd.maintenance u hu h.1).1, hd.admission u hu h.2⟩
  | maintain call stage => exact ⟨(hd.maintenance u hu h.1).1, h.2.stable hu h.1 hd⟩
  | drainPrepared _ _ g => exact hd.stopping g h
  | drainRecheck _ _ g => exact hd.drained g h
  | publishing p =>
    obtain ⟨hm, ha, haccepting, hdrained⟩ := h
    obtain ⟨hm', hcurrent, hclosed⟩ := hd.maintenance u hu hm
    exact ⟨hm', hd.admission u hu ha, hclosed haccepting, hcurrent ▸ hd.drained _ hdrained⟩
  | opening p =>
    obtain ⟨hm, ha, haccepting⟩ := h
    obtain ⟨hm', -, hclosed⟩ := hd.maintenance u hu hm
    exact ⟨hm', hd.admission u hu ha, hclosed haccepting⟩

structure Fits (t : T) (s : Domain T O) (p' : Position O) (s' : Domain T O) : Prop where
  does : Does t s s'
  good : Good s'
  at_ : At t p' s'

theorem Does.refl (t : T) (s : Domain T O) : Does t s s :=
  ⟨fun _ _ h => ⟨h, rfl, fun h => h⟩, fun _ _ h => h, rfl, le_rfl, suffix_refl _, fun _ h => h,
    fun _ h => h⟩

theorem Fits.stay (hs : Good s) (hat : At t p' s) : Fits t s p' s :=
  ⟨.refl t s, hs, hat⟩

theorem Good.locks (hs : Good s) (admission maintenance : Option T) (transition : Option O) :
    Good { s with admission, maintenance, transition } :=
  ⟨{ hs.counted with }, { hs.numbered with }, hs.drained, hs.published⟩

/-- An actor locks or unlocks mutexes that no other has. -/
theorem Fits.locks (hs : Good s) (hm : ∀ u, u ≠ t → s.maintenance = some u → maintenance = some u)
    (ha : ∀ u, u ≠ t → s.admission = some u → admission = some u)
    (hat : At t p' { s with admission, maintenance, transition }) :
    Fits t s p' { s with admission, maintenance, transition } :=
  ⟨⟨fun u hu h => ⟨hm u hu h, rfl, fun h => h⟩, ha, rfl, le_rfl, suffix_refl _, fun _ h => h,
      fun _ h => h⟩,
    hs.locks admission maintenance transition, hat⟩

section Mine

theorem not_other (h : m = some t) (hu : u ≠ t) : m ≠ some u :=
  fun h' => hu (some.inj (h'.symm.trans h))

theorem not_free (h : m = none) : m ≠ some u := fun h' => nomatch h.symm.trans h'

end Mine

-- Lifetimes

section Lifetimes

theorem setLifetime_self (s : Domain T O) (g : Nat) (l : ExecutionLifetime) :
    (s.setLifetime g l).lifetimes g = l := update_self _ _ _

theorem setLifetime_other (h : g' ≠ g) (l : ExecutionLifetime) :
    (s.setLifetime g l).lifetimes g' = s.lifetimes g' := update_of_ne h _ _

theorem Numbered.setLifetime (hs : Numbered s) (h : g < s.generations) (l : ExecutionLifetime) :
    Numbered (s.setLifetime g l) :=
  { hs with
    fresh := fun g' hg' => by
      rw [setLifetime_other (Nat.ne_of_gt (Nat.lt_of_lt_of_le h hg'))]
      exact hs.fresh g' hg' }

theorem Does.setLifetime (hstopping : (s.lifetimes g).stopping = true → l.stopping = true)
    (hdrained : (s.lifetimes g).Drained → l.Drained) :
    Does t s { s.setLifetime g l with leases } := by
  refine ⟨fun _ _ h => ⟨h, rfl, fun h => h⟩, fun _ _ h => h, rfl, le_rfl, suffix_refl _,
    fun g' h => ?_, fun g' h => ?_⟩
  · by_cases hg : g' = g
    · subst hg
      dsimp only
      rw [setLifetime_self]
      exact hstopping h
    · dsimp only
      rwa [setLifetime_other hg]
  · by_cases hg : g' = g
    · subst hg
      dsimp only
      rw [setLifetime_self]
      exact hdrained h
    · dsimp only
      rwa [setLifetime_other hg]

theorem Does.requestStop (g : Nat) : Does t s (requestStop s g) :=
  .setLifetime (fun _ => rfl) fun h => ⟨rfl, h.active⟩

theorem Good.setLifetime (hs : Good s) (hg : g < s.generations) (hcapacity : l.active ≤ s.capacity)
    (hretired : g ≠ s.current → l.active = 0) (hdrained : (s.lifetimes g).Drained → l.Drained)
    (hself : (holders leases g).encard = l.active)
    (hother : ∀ g', g' ≠ g → holders leases g' = holders s.leases g') :
    Good { s.setLifetime g l with leases } := by
  refine ⟨⟨fun g' => ?_, fun g' hg' => ?_, fun g' => ?_⟩, { hs.numbered.setLifetime hg l with },
    fun d k hk => ?_, hs.published⟩
  · by_cases heq : g' = g
    · subst heq
      simpa only [setLifetime_self] using hself
    · simpa only [setLifetime_other heq, hother g' heq] using hs.counted.holders g'
  · by_cases heq : g' = g
    · subst heq
      simpa only [setLifetime_self] using hretired hg'
    · simpa only [setLifetime_other heq] using hs.counted.retired g' hg'
  · show ((s.setLifetime g l).lifetimes g').active ≤ s.capacity
    by_cases heq : g' = g
    · subst heq
      simpa only [setLifetime_self] using hcapacity
    · simpa only [setLifetime_other heq] using hs.counted.capacity g'
  · have hold := hs.drained d k hk
    by_cases heq : k.actual = g
    · rw [heq] at hold
      simpa only [heq, setLifetime_self] using hdrained hold
    · simpa only [setLifetime_other heq] using hold

theorem Good.requestStop (hs : Good s) (hg : g < s.generations) : Good (requestStop s g) :=
  .setLifetime hs hg (hs.counted.capacity g) (hs.counted.retired g) (fun h => ⟨rfl, h.active⟩)
    (hs.counted.holders g) fun _ _ => rfl

end Lifetimes

-- Leases

section Leases

variable {lease : O}

theorem Counted.lease_current (hs : Counted s) (h : s.leases lease = some g) : g = s.current := by
  by_contra hne
  have hempty := hs.holders g
  rw [hs.retired g hne, Nat.cast_zero, Set.encard_eq_zero] at hempty
  exact Holders.eq_empty_iff.mp hempty lease h

variable [DecidableEq O]

theorem Fits.enterCurrent (hs : Good s) (hfree : s.leases lease = none) :
    Fits t s .idle (enterCurrent s lease) := by
  unfold ExecutionDomain.enterCurrent
  split
  next => exact .stay hs trivial
  next l hl =>
    unfold ExecutionLifetime.tryEnter at hl
    split at hl
    next => cases hl
    next hguard =>
      cases hl
      obtain ⟨hstopping, hfull⟩ := not_or.mp hguard
      have hnot (h : (s.lifetimes s.current).Drained) : False := hstopping h.stopping
      refine ⟨.setLifetime (fun h => absurd h hstopping) fun h => (hnot h).elim,
        .setLifetime hs hs.numbered.current ?_ (fun h => absurd rfl h)
          (fun h => (hnot h).elim) ?_ ?_,
        trivial⟩
      · exact Nat.lt_of_le_of_ne (hs.counted.capacity s.current) hfull
      · rw [Holders.encard_take hfree, hs.counted.holders]
        push_cast
        rfl
      · exact fun g' hg' => Holders.take_other hfree hg'

theorem Fits.resetLease (hs : Good s) : Fits t s .idle (resetLease s lease) := by
  unfold ExecutionDomain.resetLease
  split
  next => exact .stay hs trivial
  next g hg =>
    have hcurrent := hs.counted.lease_current hg
    have hdrained (h : (s.lifetimes g).Drained) : (s.lifetimes g).leave.Drained :=
      ⟨h.stopping, by simp [ExecutionLifetime.leave, h.active]⟩
    refine ⟨.setLifetime (fun h => h) hdrained,
      .setLifetime hs (hcurrent ▸ hs.numbered.current) ?_ (fun h => absurd hcurrent h)
        hdrained ?_ ?_,
      trivial⟩
    · exact (Nat.sub_le _ _).trans (hs.counted.capacity g)
    · have hcount := Holders.encard_drop hg
      rw [hs.counted.holders] at hcount
      generalize (holders (update s.leases lease none) g).encard = k at hcount
      cases k with
      | top => exact absurd hcount (by simp)
      | coe k =>
        have hnat : k + 1 = (s.lifetimes g).active := by exact_mod_cast hcount
        rw [ExecutionLifetime.leave, ← hnat]
        rfl
    · exact fun g' hg' => Holders.drop_other hg hg'

end Leases

-- Generations

section Generations

theorem Does.closeAdmission : Does t s (closeAdmission s) :=
  ⟨fun _ _ h => ⟨h, rfl, fun _ => rfl⟩, fun _ _ h => h, rfl, le_rfl, suffix_refl _, fun _ h => h,
    fun _ h => h⟩

theorem Good.closeAdmission (hs : Good s) : Good (closeAdmission s) :=
  ⟨{ hs.counted with }, { hs.numbered with }, hs.drained, fun _ _ _ _ => rfl⟩

theorem Does.trans (h : Does t s s₁) (h' : Does t s₁ s') : Does t s s' where
  maintenance u hu hm := by
    obtain ⟨hm₁, hcurrent, hclosed⟩ := h.maintenance u hu hm
    obtain ⟨hm', hcurrent', hclosed'⟩ := h'.maintenance u hu hm₁
    exact ⟨hm', hcurrent'.trans hcurrent, fun hc => hclosed' (hclosed hc)⟩
  admission u hu ha := h'.admission u hu (h.admission u hu ha)
  capacity := h'.capacity.trans h.capacity
  generations := h.generations.trans h'.generations
  history := h.history.trans h'.history
  stopping g hg := h'.stopping g (h.stopping g hg)
  drained g hg := h'.drained g (h.drained g hg)

/-- Another generation becomes the current one after the old one is drained. -/
theorem Counted.replace (hs : Counted s) (h : (s.lifetimes s.current).Drained) (new : Nat) :
    Counted { s with current := new } :=
  { hs with
    retired := fun g _ => by
      by_cases hg : g = s.current
      · rw [hg]
        exact h.active
      · exact hs.retired g hg }

/-- The one who has the maintenance mutex replaces or opens the current generation. -/
theorem Does.owner (hm : ∀ u, u ≠ t → s.maintenance ≠ some u)
    (ha : ∀ u, u ≠ t → s.admission ≠ some u)
    (hcapacity : s'.capacity = s.capacity) (hlifetimes : s'.lifetimes = s.lifetimes)
    (hgenerations : s.generations ≤ s'.generations)
    (hhistory : s.history <:+ s'.history) : Does t s s' :=
  ⟨fun u hu h => absurd h (hm u hu), fun u hu h => absurd h (ha u hu), hcapacity,
    hgenerations, hhistory,
    fun _ h => hlifetimes ▸ h, fun _ h => hlifetimes ▸ h⟩

theorem Good.installNext (hs : Good s) (h : (s.lifetimes s.current).Drained) :
    Good (installNext s) := by
  have hn := hs.numbered
  refine ⟨{ hs.counted.replace h s.generations with },
    ⟨Nat.lt_succ_self _, fun g hg => hn.fresh g (Nat.le_of_succ_le hg),
      fun p g hp => ?_, hn.distinct,
      fun e he g hold => ?_⟩, hs.drained, nofun⟩
  · obtain ⟨hlt, hne, hhistory⟩ := hn.replacement p g hp
    refine ⟨Nat.lt_succ_of_lt hlt, Nat.ne_of_lt hlt, fun e he => ?_⟩
    rcases mem_cons.mp he with rfl | he
    · exact fun heq => hne (some.inj heq).symm
    · exact hhistory e he
  · have hlt : g < s.generations := by
      rcases mem_cons.mp he with rfl | he
      · cases hold
        exact hn.current
      · exact (hn.replaced e he g hold).1
    exact ⟨Nat.lt_succ_of_lt hlt, Nat.ne_of_lt hlt⟩

variable [DecidableEq O] {prepared : O}

theorem Good.publish (hs : Good s) (h : (s.lifetimes s.current).Drained)
    (hclosed : s.accepting = false) :
    Good (publish s prepared) := by
  unfold ExecutionDomain.publish
  split
  next => exact hs
  next new hnew =>
    have hn := hs.numbered
    obtain ⟨hlt, hne, hfresh⟩ := hn.replacement prepared new hnew
    have hother {p : O} {g : Nat} (hp : (update s.preparedGenerations prepared
          { observed := some new, replacement := none, phase := .publishedClosed } p).replacement =
          some g) : p ≠ prepared ∧ (s.preparedGenerations p).replacement = some g := by
      by_cases heq : p = prepared
      · rw [heq, update_self] at hp
        cases hp
      · rw [update_of_ne heq] at hp
        exact ⟨heq, hp⟩
    refine ⟨{ hs.counted.replace h new with },
      ⟨hlt, hn.fresh, fun p g hp => ?_, fun p p' g hp hp' => ?_,
      fun e he g hold => ?_⟩, hs.drained, fun _ _ _ _ => hclosed⟩
    · obtain ⟨hp', hold⟩ := hother hp
      obtain ⟨hlt', hne', hhistory⟩ := hn.replacement p g hold
      refine ⟨hlt', fun heq => hp' (hn.distinct p prepared g hold (heq ▸ hnew)), fun e he => ?_⟩
      rcases mem_cons.mp he with rfl | he
      · exact fun heq => hne' (some.inj heq).symm
      · exact hhistory e he
    · exact hn.distinct p p' g (hother hp).2 (hother hp').2
    · rcases mem_cons.mp he with rfl | he
      · cases hold
        exact ⟨hn.current, hne.symm⟩
      · exact ⟨(hn.replaced e he g hold).1, fun heq => hfresh e he (hold.trans (congrArg some heq))⟩

theorem Good.openGeneration (hs : Good s) : Good (openGeneration s prepared) := by
  have hn := hs.numbered
  have hsame (p : O) :
      ((ExecutionDomain.openGeneration s prepared).preparedGenerations p).replacement =
      (s.preparedGenerations p).replacement := by
    by_cases hp : p = prepared
    · subst hp
      simp only [ExecutionDomain.openGeneration, update_self]
    · simp only [ExecutionDomain.openGeneration, update_of_ne hp]
  refine ⟨{ hs.counted with }, ⟨hn.current, hn.fresh, fun p g hp => ?_, fun p p' g hp hp' => ?_,
    fun e he g hold => ?_⟩, hs.drained, nofun⟩
  · obtain ⟨hlt, hne, hhistory⟩ := hn.replacement p g (hsame p ▸ hp)
    refine ⟨hlt, hne, fun e he => ?_⟩
    rcases mem_cons.mp he with rfl | he
    · nofun
    · exact hhistory e he
  · exact hn.distinct p p' g (hsame p ▸ hp) (hsame p' ▸ hp')
  · rcases mem_cons.mp he with rfl | he
    · cases hold
    · exact hn.replaced e he g hold

theorem Fits.prepares (hs : Good s) : Fits t s .idle (prepareReplacementGeneration s prepared) := by
  have hn := hs.numbered
  have hcases {p : O} {g : Nat}
      (h : ((prepareReplacementGeneration s prepared).preparedGenerations p).replacement = some g) :
      (p = prepared ∧ g = s.generations) ∨
        (p ≠ prepared ∧ (s.preparedGenerations p).replacement = some g) := by
    by_cases hp : p = prepared
    · subst hp
      simp only [prepareReplacementGeneration, update_self] at h
      exact .inl ⟨rfl, (some.inj h).symm⟩
    · simp only [prepareReplacementGeneration, update_of_ne hp] at h
      exact .inr ⟨hp, h⟩
  have hnew (g : Nat) (h : g < s.generations) : g < s.generations + 1 := Nat.lt_succ_of_lt h
  refine ⟨⟨fun _ _ h => ⟨h, rfl, fun h => h⟩, fun _ _ h => h, rfl, Nat.le_succ _, suffix_refl _,
      fun _ h => h, fun _ h => h⟩,
    ⟨{ hs.counted with },
      ⟨hnew _ hn.current, fun g hg => hn.fresh g (Nat.le_of_succ_le hg), ?_, ?_, ?_⟩,
      hs.drained, hs.published⟩, trivial⟩
  · intro p g hp
    rcases hcases hp with ⟨-, rfl⟩ | ⟨-, hold⟩
    · exact ⟨Nat.lt_succ_self _, Nat.ne_of_gt hn.current, fun e he hold =>
        absurd (hn.replaced e he _ hold).1 (Nat.lt_irrefl _)⟩
    · obtain ⟨hlt, hne, hhistory⟩ := hn.replacement p g hold
      exact ⟨hnew g hlt, hne, hhistory⟩
  · intro p p' g hp hp'
    rcases hcases hp with ⟨rfl, rfl⟩ | ⟨-, hold⟩ <;> rcases hcases hp' with ⟨rfl, heq⟩ | ⟨-, hold'⟩
    · rfl
    · exact absurd (hn.replacement p' _ hold').1 (Nat.lt_irrefl _)
    · subst heq
      exact absurd (hn.replacement p _ hold).1 (Nat.lt_irrefl _)
    · exact hn.distinct p p' g hold hold'
  · intro e he g hold
    obtain ⟨hlt, hne⟩ := hn.replaced e he g hold
    exact ⟨hnew g hlt, hne⟩

end Generations

-- Steps

section Steps

variable {p p' : Position O}

theorem Fits.locksMaintenance (hs : Good s) (hm : s.maintenance = none)
    (hat : At t p' { s with maintenance := some t, transition }) :
    Fits t s p' { s with maintenance := some t, transition } :=
  .locks hs (fun _ _ h => absurd h (not_free hm)) (fun _ _ h => h) hat

theorem Fits.locksAdmission (hs : Good s) (ha : s.admission = none)
    (hat : At t p' { s with admission := some t }) : Fits t s p' { s with admission := some t } :=
  .locks hs (fun _ _ h => h) (fun _ _ h => absurd h (not_free ha)) hat

theorem Fits.unlocksMaintenance (hs : Good s) (hm : s.maintenance = some t) :
    Fits t s .idle { s with maintenance := none, transition } :=
  .locks hs (fun _ hu h => absurd h (not_other hm hu)) (fun _ _ h => h) trivial

theorem Fits.closes (hs : Good s) (hg : g < s.generations) :
    Fits t s (.requestStop g) (closeAdmission s) := ⟨.closeAdmission, hs.closeAdmission, hg⟩

/-- The mutex that a call has, or that its transition has, stays or is unlocked. -/
theorem finish_cases (call : Maintenance) (s : Domain T O) :
    finish call s = s ∨ finish call s = { s with maintenance := none } := by
  unfold finish
  split
  · exact .inl rfl
  · exact .inr rfl

theorem Fits.finish (hs : Good s) (hm : s.maintenance = some t) (call : Maintenance) :
    Fits t s .idle (finish call s) := by
  rcases finish_cases call s with h | h
  · rw [h]
    exact .stay hs trivial
  · rw [h]
    exact .unlocksMaintenance hs hm

theorem Fits.after (h : Fits t s₁ p' s') (hd : Does t s s₁) : Fits t s p' s' :=
  ⟨hd.trans h.does, h.good, h.at_⟩

theorem maintain_sound (hs : Good s) (hm : s.maintenance = some t) (hstage : stage.Holds s) :
    Leads (Fits t s) (maintain s success call stage) := by
  cases stage with
  | locked => exact .await fun _ => .some ⟨.closeAdmission, hs.closeAdmission, hm, rfl, rfl⟩
  | closed g =>
    obtain ⟨rfl, hclosed⟩ := hstage
    exact .some ⟨.requestStop _, hs.requestStop hs.numbered.current, hm, rfl, hclosed, by
      rw [requestStop, setLifetime_self]; rfl⟩
  | stopping g =>
    exact .guard fun hactive => .stay hs ⟨hm, hstage.1, hstage.2.1, hstage.2.2, hactive⟩
  | callback g =>
    exact .ite (fun _ => .some (.stay hs ⟨hm, hstage⟩)) fun _ => .some (.finish hs hm call)
  | returned g =>
    obtain ⟨rfl, -, hdrained⟩ := hstage
    refine .ite (fun _ => .some (.finish hs hm call)) fun _ => .await fun ha => .some ?_
    have hdoes : Does t s (installNext s) := .owner (fun _ => not_other hm)
      (fun _ _ => not_free ha) rfl rfl (Nat.le_succ _) (suffix_cons _ _)
    exact (Fits.finish (hs.installNext hdrained) hm call).after hdoes

theorem mayOpen_closed (h : mayOpen s prepared = true) : s.accepting = false := by
  obtain ⟨-, -, hclosed, -⟩ := of_decide_eq_true h
  exact Bool.eq_false_iff.mpr hclosed

variable [DecidableEq O]

theorem mayPublish_drained (hs : Good s) (h : mayPublish s transition prepared drained = true) :
    s.accepting = false ∧ (s.lifetimes s.current).Drained := by
  unfold mayPublish at h
  dsimp only at h
  split at h
  next observed replacement actual _ _ hdrained =>
    obtain ⟨-, -, -, hclosed, hcurrent, -⟩ := of_decide_eq_true h
    exact ⟨Bool.eq_false_iff.mpr hclosed, hcurrent ▸ hs.drained drained actual hdrained⟩
  next => cases h

theorem advance_sound (hs : Good s) (hat : At t p s) :
    Leads (Fits t s) (advance t s success p) := by
  cases p with
  | idle => exact .none
  | requestStop g => exact .some ⟨.requestStop g, hs.requestStop hat, trivial⟩
  | drainOwnedTransition g => exact .guard fun _ => .stay hs trivial
  | configure =>
    exact .await fun ha => .ite (fun _ => .some (.unlocksMaintenance hs hat)) fun _ =>
      .some (.locksAdmission hs ha ⟨hat, rfl⟩)
  | configuring =>
    exact .some (.locks hs (fun _ hu h => absurd h (not_other hat.1 hu))
      (fun _ hu h => absurd h (not_other hat.2 hu)) trivial)
  | maintain call stage => exact maintain_sound hs hat.1 hat.2
  | drainPrepared transition drained g =>
    exact .ite (fun hactive => .some (.stay hs ⟨hat, hactive⟩)) fun _ =>
      .guard fun _ => .stay hs trivial
  | drainRecheck transition drained g =>
    refine .await fun _ => .ite (fun _ => .some (.stay hs trivial)) fun _ => .some ?_
    refine ⟨{ Does.refl t s with }, ⟨{ hs.counted with }, { hs.numbered with }, fun d k hk => ?_,
      hs.published⟩, trivial⟩
    by_cases hd : d = drained
    · simp only [hd, update_self] at hk
      cases hk
      exact hat
    · simp only [update_of_ne hd] at hk
      exact hs.drained d k hk
  | publishing prepared =>
    refine .some ?_
    obtain ⟨hm, ha, hclosed, hdrained⟩ := hat
    cases success with
    | false => exact .locks hs (fun _ _ h => h) (fun _ hu h => absurd h (not_other ha hu)) trivial
    | true =>
      refine ⟨.owner (fun _ => not_other hm) (fun _ => not_other ha) ?_ ?_ ?_ ?_,
        (hs.publish hdrained hclosed).locks _ _ _, trivial⟩
      all_goals simp only [↓reduceIte, publish]; split
      · rfl
      · rfl
      · rfl
      · rfl
      · exact le_rfl
      · exact le_rfl
      · exact suffix_refl _
      · exact suffix_cons _ _
  | opening prepared =>
    refine .some ?_
    obtain ⟨hm, ha, -⟩ := hat
    cases success with
    | false => exact .locks hs (fun _ _ h => h) (fun _ hu h => absurd h (not_other ha hu)) trivial
    | true =>
      exact ⟨.owner (fun _ => not_other hm) (fun _ => not_other ha) rfl rfl le_rfl
          (suffix_cons _ _), hs.openGeneration.locks _ _ _, trivial⟩

variable [DecidableEq T]

theorem withTransition_sound (hs : Good s) (h : s.maintenance = some t → Leads (Fits t s) r) :
    Leads (Fits t s) (withTransition t s transition r) :=
  .ite (fun _ => .some (.stay hs trivial)) fun _ => .await h

theorem start_sound (hs : Good s) : Leads (Fits t s) (start t s call) := by
  have hstay : Leads (Fits t s) (some (.idle, s)) := .some (.stay hs trivial)
  cases call with
  | tryEnter lease =>
    refine .ite (fun _ => .none) fun hfree => .some ?_
    unfold tryEnter
    split
    · exact .stay hs trivial
    · exact .enterCurrent hs (Decidable.not_not.mp (not_or.mp hfree).2)
  | tryEnterOwnedPublishedStartupGeneration prepared lease =>
    refine .ite (fun _ => .none) fun hfree => .some ?_
    unfold tryEnterOwnedPublishedStartupGeneration
    extract_lets
    split
    · exact .stay hs trivial
    · exact .enterCurrent hs (Decidable.not_not.mp (not_or.mp hfree).2)
  | resetLease lease => exact .some (.resetLease hs)
  | requestStop => exact .await fun _ => .some (.closes hs hs.numbered.current)
  | withQuiescentConfiguration =>
    exact .ite (fun _ => hstay) fun hm => .some (.locksMaintenance hs (Decidable.not_not.mp hm) rfl)
  | stopAndDrain | reset => exact .await fun hm => .some (.locksMaintenance hs hm ⟨rfl, trivial⟩)
  | tryMaintenanceTransition transition =>
    exact .ite (fun _ => hstay) fun hm =>
      .some (.locksMaintenance hs (Decidable.not_not.mp hm) trivial)
  | moveTransition source target =>
    exact withTransition_sound hs fun _ =>
      .some (.locks hs (fun _ _ h => h) (fun _ _ h => h) trivial)
  | dropTransition transition =>
    exact withTransition_sound hs fun hm => .some (.unlocksMaintenance hs hm)
  | drainOwnedTransitionUntil transition =>
    exact withTransition_sound hs fun _ => .await fun _ => .ite (fun _ => hstay) fun _ =>
      .some (.stay hs trivial)
  | requestStopWithoutCallbacksOwnedTransition transition =>
    exact withTransition_sound hs fun _ => .await fun _ => .some (.closes hs hs.numbered.current)
  | resetOwnedTransition transition =>
    exact withTransition_sound hs fun hm => .some (.stay hs ⟨hm, trivial⟩)
  | prepareReplacementGeneration transition prepared =>
    exact withTransition_sound hs fun _ => .ite (fun _ => .none) fun _ => .some (.prepares hs)
  | drainPreparedGenerationUntil transition prepared drained =>
    refine withTransition_sound hs fun _ => ?_
    split
    · exact hstay
    · refine .ite (fun _ => .none) fun _ => .ite (fun _ => hstay) fun hcurrent => .some ?_
      have hg := Decidable.not_not.mp hcurrent ▸ hs.numbered.current
      exact ⟨Does.closeAdmission.trans (.requestStop _), hs.closeAdmission.requestStop hg, by
        rw [At, requestStop, setLifetime_self]; rfl⟩
  | publishPreparedDrainedReset transition prepared drained =>
    refine withTransition_sound hs fun hm => .await fun ha => .ite (fun hmay => ?_) fun _ => hstay
    have hdrained := mayPublish_drained hs hmay
    exact .some (.locksAdmission hs ha ⟨hm, rfl, hdrained⟩)
  | openPublishedStartupGeneration transition prepared =>
    exact withTransition_sound hs fun hm => .await fun ha => .ite (fun hmay =>
      .some (.locksAdmission hs ha ⟨hm, rfl, mayOpen_closed hmay⟩)) fun _ => hstay

theorem act_sound (hs : Good s) (hat : At t p s) : Leads (Fits t s) (act t turn p s) := by
  unfold act
  split
  · exact start_sound hs
  · exact advance_sound hs hat
  · exact .none

def outline : Outline (act (T := T) (O := O)) where
  Good := Good
  At := At
  Does := Does
  sound hs hat h :=
    have hfits := act_sound hs hat h
    ⟨hfits.does, hfits.good, hfits.at_⟩
  stable hu _ hat hd := hat.stable hu hd

omit [DecidableEq T] [DecidableEq O] in
theorem Good.initial (capacity : Nat) : Good ({ capacity } : Domain T O) where
  counted := ⟨fun _ => by
    rw [Holders.eq_empty_iff.mpr nofun]
    exact Set.encard_empty, fun _ _ => rfl, fun _ => Nat.zero_le _⟩
  numbered := ⟨Nat.one_pos, fun _ _ => rfl, nofun, nofun, nofun⟩
  drained := nofun
  published := nofun

theorem outline_initial (capacity : Nat) : (outline (T := T) (O := O)).Holds (initial capacity) :=
  ⟨.initial capacity, fun _ => trivial⟩

-- Runs

/-- The current generation has no lease, and gives out none. -/
structure Quiescent (s : Domain T O) : Prop where
  leases : ∀ lease, s.leases lease ≠ some s.current
  tryEnter : ∀ lease, tryEnter s lease = s
  startup : ∀ prepared lease, tryEnterOwnedPublishedStartupGeneration s prepared lease = s

omit [DecidableEq T] in
theorem Good.quiescent (hs : Good s) (hclosed : s.accepting = false)
    (h : (s.lifetimes s.current).Drained) : Quiescent s where
  leases := by
    rw [← Holders.eq_empty_iff, ← Set.encard_eq_zero, hs.counted.holders, h.active]
    rfl
  tryEnter _ := if_pos (by rw [hclosed]; nofun)
  startup _ _ := if_pos (.inr (.inr (.inr (.inr h.stopping))))

def Position.callback : Position O → Bool
  | .maintain _ (.callback _) | .publishing _ => true
  | _ => false

omit [DecidableEq T] in
theorem callback_quiescent (hs : Good s) (hat : At t p s) (hp : p.callback = true) :
    Quiescent s := by
  cases p with
  | maintain call stage =>
    cases stage with
    | callback g =>
      obtain ⟨-, rfl, hclosed, hdrained⟩ := hat
      exact hs.quiescent hclosed hdrained
    | _ => cases hp
  | publishing prepared =>
    obtain ⟨-, -, hclosed, hdrained⟩ := hat
    exact hs.quiescent hclosed hdrained
  | _ => cases hp

variable {cfg cfg' : Config T (Position O) (Domain T O)} {schedule : List (T × Turn O)}

theorem run_does (h : outline.Holds cfg) (hrun : run act cfg schedule = some cfg') :
    cfg.shared.history <:+ cfg'.shared.history ∧ cfg'.shared.capacity = cfg.shared.capacity := by
  induction schedule generalizing cfg with
  | nil =>
    cases hrun
    exact ⟨suffix_refl _, rfl⟩
  | cons turn schedule ih =>
    simp only [run, foldlM_cons, bind_eq_bind, bind_eq_some_iff] at hrun
    obtain ⟨cfg₁, hstep, hrest⟩ := hrun
    obtain ⟨hhistory, hcapacity⟩ := ih (outline.step h hstep) hrest
    obtain ⟨⟨p', s'⟩, hact, rfl⟩ := map_eq_some_iff.mp hstep
    have hdoes := (act_sound h.1 (h.2 turn.1) hact).does
    exact ⟨hdoes.history.trans hhistory, hcapacity.trans hdoes.capacity⟩

omit [DecidableEq T] [DecidableEq O] in
theorem Good.not_leased (hs : Good s) (he : e ∈ s.history) (hold : e.old = some g)
    (lease : O) : s.leases lease ≠ some g := fun h =>
  (hs.numbered.replaced e he g hold).2 (hs.counted.lease_current h)

omit [DecidableEq T] [DecidableEq O] in
theorem Good.leases_le (hs : Good s) : {lease | s.leases lease ≠ none}.encard ≤ s.capacity := by
  have hsub : {lease | s.leases lease ≠ none} ⊆ holders s.leases s.current := fun lease h => by
    obtain ⟨g, hg⟩ := ne_none_iff_exists'.mp h
    rw [Holders.mem, hg, hs.counted.lease_current hg]
  calc {lease | s.leases lease ≠ none}.encard
      ≤ (holders s.leases s.current).encard := Set.encard_le_encard hsub
    _ = (s.lifetimes s.current).active := hs.counted.holders s.current
    _ ≤ s.capacity := Nat.cast_le.mpr (hs.counted.capacity s.current)

/-- What the domain guarantees of a configuration. -/
structure Safe (capacity : Nat) (cfg : Config T (Position O) (Domain T O)) : Prop where
  callback : ∀ t, (cfg.position t).callback = true → Quiescent cfg.shared
  replaced : ∀ e ∈ cfg.shared.history, ∀ g, e.old = some g → ∀ schedule cfg',
    run act cfg schedule = some cfg' → ∀ lease, cfg'.shared.leases lease ≠ some g
  published : ∀ old new rest, cfg.shared.history = .published old new :: rest →
    ∀ lease, tryEnter cfg.shared lease = cfg.shared
  capacity : {lease | cfg.shared.leases lease ≠ none}.encard ≤ capacity

/-- Along every schedule of any number of actors, a callback that resets, stops or publishes
runs only while the current generation has no lease and gives out none; a generation that was
replaced never has a lease again; the ordinary entry is closed while the last event is a
publication; and there are at most as many leases as the capacity. -/
theorem run_safe {capacity : Nat} (hrun : run act (initial capacity) schedule = some cfg) :
    Safe capacity cfg := by
  have h := outline.run (outline_initial capacity) hrun
  have hs : Good cfg.shared := h.1
  have hcapacity : cfg.shared.capacity = capacity := (run_does (outline_initial capacity) hrun).2
  refine ⟨fun t hp => callback_quiescent hs (h.2 t) hp, fun e he g hold schedule' cfg' hrun' => ?_,
    fun old new rest hhistory lease => if_pos ?_, hcapacity ▸ hs.leases_le⟩
  · have hs' : Good cfg'.shared := (outline.run h hrun').1
    exact hs'.not_leased ((run_does h hrun').1.subset he) hold
  · rw [hs.published old new rest hhistory]
    nofun

/-- A generation is drained after its execution has left, and replaced. -/
def replaceDrained : List (Bool × Turn Nat) :=
  [(true, .call (.tryEnter 0)), (false, .call (.tryMaintenanceTransition 1)),
   (false, .call (.prepareReplacementGeneration 1 2)),
   (false, .call (.drainPreparedGenerationUntil 1 2 3)), (true, .call (.resetLease 0)),
   (false, .proceed true), (false, .proceed true),
   (false, .call (.publishPreparedDrainedReset 1 2 3)), (false, .proceed true)]

theorem run_safe_replaceDrained : ∃ cfg : Config Bool (Position Nat) (Domain Bool Nat),
      run act (initial 1) replaceDrained = some cfg ∧
      cfg.shared.history = [.published 0 1] ∧ Safe 1 cfg := by
  have hmap : (run act (initial 1) replaceDrained).map (fun cfg :
      Config Bool (Position Nat) (Domain Bool Nat) => cfg.shared.history) =
      some [.published 0 1] := by decide
  obtain ⟨cfg, hrun, hhistory⟩ := map_eq_some_iff.mp hmap
  exact ⟨cfg, hrun, hhistory, run_safe hrun⟩

def resetPublished : List (Bool × Turn Nat) :=
  replaceDrained ++
  [(false, .call (.dropTransition 1)), (false, .call .reset), (false, .proceed true),
   (false, .proceed true), (false, .proceed true), (false, .proceed true), (false, .proceed true),
   (true, .call (.tryEnter 4))]

/-- An ordinary entry succeeds after a publication although the published generation was never
opened: it was replaced by a reset. -/
theorem resetPublished_enters : ∃ cfg : Config Bool (Position Nat) (Domain Bool Nat),
      run act (initial 1) resetPublished = some cfg ∧
      cfg.shared.history = [.reset 1 2, .published 0 1] ∧ cfg.shared.leases 4 = some 2 := by
  have hmap : (run act (initial 1) resetPublished).map (fun cfg :
      Config Bool (Position Nat) (Domain Bool Nat) =>
      (cfg.shared.history, cfg.shared.leases 4)) =
      some ([.reset 1 2, .published 0 1], some 2) := by decide
  obtain ⟨cfg, hrun, heq⟩ := map_eq_some_iff.mp hmap
  obtain ⟨hhistory, hlease⟩ := Prod.mk.inj heq
  exact ⟨cfg, hrun, hhistory, hlease⟩

end Steps

end Uwvm2.Thread.ExecutionDomain
