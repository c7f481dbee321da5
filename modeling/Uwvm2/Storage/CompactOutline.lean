import Uwvm2.Storage.CompactSteps

/-!
# The outline of the compact slot lifecycle

Every step of every call does only what the other threads allow, keeps the
invariant, and establishes the assertion of the position it leads to.
-/

namespace Uwvm2.Storage.CompactNumeric

open Function List Option

variable {T D : Type} [DecidableEq D]

-- The invariant under changes

theorem readers_update {d : D} {x : Descriptor T} (h : x.readers = (f d).readers) :
    (fun d' => (update f d x d').readers) = fun d' => (f d').readers := by
  funext d'
  by_cases hd : d' = d
  · rw [hd, update_self, h]
  · rw [update_of_ne hd]

theorem append_induction {E : Type} {P : List E → Prop} {es trace : List E} (h : P trace)
    (hcons : ∀ e ∈ es, ∀ earlier, P earlier → P (e :: earlier)) : P (es ++ trace) := by
  induction es with
  | nil => exact h
  | cons e es ih =>
    refine hcons e mem_cons_self _ (ih fun e' he' => hcons e' (mem_cons_of_mem _ he'))

namespace Good

variable [Target] {s : Shared T D}

theorem modify (h : Good s) (hx : SlotsOk d (f (s.descriptor d)) s.leases s.held s.trace)
    (hr : (f (s.descriptor d)).readers = (s.descriptor d).readers) : Good (s.modify d f) where
  outer := h.outer
  tokens := h.tokens
  readers := by
    simp only [Shared.modify, readers_update hr]
    exact h.readers
  slots := by
    refine (Function.forall_update_iff s.descriptor fun d' x =>
      SlotsOk d' x s.leases s.held s.trace).mpr ⟨hx, fun d' _ => h.slots d'⟩
  lifecycle := h.lifecycle

theorem modify_logs {l : List (Event T D)} (h : Good s)
    (hx : SlotsOk d (f (s.descriptor d)) s.leases s.held (l ++ s.trace))
    (hr : (f (s.descriptor d)).readers = (s.descriptor d).readers)
    (hd : ∀ e ∈ l, e.descriptor? = some d) (ht : ∀ e ∈ l, e.isToken = false)
    (he : ∀ e ∈ l, e.isReader = false) (hl : Justified Lifecycle (l ++ s.trace)) :
    Good { s.modify d f with trace := l ++ s.trace } where
  outer := h.outer
  tokens := append_induction h.tokens fun e hm _ hi => hi.cons_other (ht e hm)
  readers := by
    simp only [Shared.modify, readers_update hr]
    exact append_induction h.readers fun e hm _ hi => hi.cons_other (he e hm)
  slots := by
    refine (Function.forall_update_iff s.descriptor fun d' x =>
      SlotsOk d' x s.leases s.held (l ++ s.trace)).mpr ⟨hx, fun d' hne => ?_⟩
    refine append_induction (h.slots d') fun e hm _ hi => hi.cons_other fun heq => hne ?_
    exact some.inj (heq.symm.trans (hd e hm))
  lifecycle := hl

theorem modify_log (h : Good s) (hx : SlotsOk d (f (s.descriptor d)) s.leases s.held (e :: s.trace))
    (hr : (f (s.descriptor d)).readers = (s.descriptor d).readers) (hd : e.descriptor? = some d)
    (ht : e.isToken = false) (he : e.isReader = false) (hl : Lifecycle s.trace e) :
    Good ((s.modify d f).log e) :=
  h.modify_logs (l := [e]) hx hr (forall_mem_singleton.mpr hd)
    (forall_mem_singleton.mpr ht) (forall_mem_singleton.mpr he) ⟨hl, h.lifecycle⟩

/-- An event that changes neither tokens, readers nor slots. -/
theorem log (h : Good s) (hd : e.descriptor? = none) (ht : e.isToken = false)
    (he : e.isReader = false) (hl : Lifecycle s.trace e) : Good (s.log e) where
  outer := h.outer
  tokens := h.tokens.cons_other ht
  readers := h.readers.cons_other he
  slots d := (h.slots d).cons_other (by rw [hd]; exact nofun)
  lifecycle := ⟨hl, h.lifecycle⟩

theorem registryLock (h : Good s) (l : Option T) : Good { s with registryLock := l } :=
  ⟨h.outer, h.tokens, h.readers, h.slots, h.lifecycle⟩

theorem registry (h : Good s) (l : List D) : Good { s with registry := l } :=
  ⟨h.outer, h.tokens, h.readers, h.slots, h.lifecycle⟩

theorem enter (h : Good s) (hx : s.exclusive = none) (l : Lease T) :
    Good { s with leases := l :: s.leases } where
  outer ho := by
    rw [show Shared.exclusive _ = none from hx] at ho
    cases ho
  tokens := h.tokens
  readers := { h.readers with leased := fun r hr => mem_cons_of_mem _ (h.readers.leased r hr) }
  slots d := (h.slots d).frame (fun _ _ hc => mem_cons_of_mem _ hc) fun _ hr _ => .inl hr
  lifecycle := h.lifecycle

/-- A lease can be given back when neither a reader nor a call with a publication lock
counts on it. -/
theorem leave [DecidableEq T] (h : Good s) (hreader : ∀ r ∈ s.held, l ≠ .reader r.id)
    (hcall : ∀ t d, l = .call t → (s.descriptor d).publishLock ≠ some t) :
    Good { s with leases := s.leases.erase l } where
  outer ho l' hl' := h.outer ho l' (mem_of_mem_erase hl')
  tokens := h.tokens
  readers := { h.readers with
    leased := fun r hr => (mem_erase_of_ne (hreader r hr).symm).mpr (h.readers.leased r hr) }
  slots d := by
    refine (h.slots d).frame (fun t ht hc => ?_) fun _ hr _ => .inl hr
    exact (mem_erase_of_ne fun heq => hcall t d heq.symm ht).mpr hc
  lifecycle := h.lifecycle

end Good

/-- A step of `t` from `s` to position `p'` and state `s'` fits the outline. -/
def Fits [Target] (t : T) (s : Shared T D) (p' : Position D) (s' : Shared T D) : Prop :=
  Does t s s' ∧ Good s' ∧ At t p' s'

/-- At `p'` a thread has the locks and leases that it has at `p`. -/
structure Keeps (p p' : Position D) : Prop where
  registry : p'.registry = p.registry
  page : p'.page = p.page
  leased : p'.leased = p.leased
  stopped : p'.stopped → p.stopped
  quiet : p'.quiet = p.quiet

omit [DecidableEq D] in
theorem Holds.move (h : Holds t p s) (hk : Keeps p p') : Holds t p' s where
  registry := hk.registry ▸ h.registry
  page := hk.page ▸ h.page
  lease := hk.leased ▸ h.lease
  stopped h' := h.stopped (hk.stopped h')
  quiet := by
    rw [hk.page, hk.quiet]
    exact h.quiet

theorem Fits.stay [Target] {s : Shared T D} (hs : Good s) (h : Holds t p s) (hf : Facts t s p')
    (hk : Keeps p p' := by exact ⟨rfl, rfl, rfl, nofun, rfl⟩) : Fits t s p' s :=
  ⟨.refl t s, hs, h.move hk, hf⟩

-- Locks and leases

section Locks

variable [Target] {t : T} {p p' : Position D} {s s' : Shared T D}

theorem Fits.lockPage (hs : Good s) (h : Holds t p s)
    (hlock : CompactNumeric.lockPage t d s = some s') (hr : p'.registry = p.registry)
    (hp : p.page = none) (hp' : p'.page = some d) (hl : p'.leased = p.leased)
    (hst : p'.stopped → p.stopped) (hf : Facts t s' p') : Fits t s p' s' := by
  unfold CompactNumeric.lockPage at hlock
  split at hlock
  case isFalse => cases hlock
  case isTrue hnone =>
    cases hlock
    have hfree (u : T) : (s.descriptor d).publishLock ≠ some u := by
      rw [hnone]
      exact nofun
    refine ⟨.modify { Changes.refl t s (s.descriptor d) with publishLock := fun u hu => ?_ },
      hs.modify ((hs.slots d).lock hnone t) rfl, ⟨hr ▸ h.registry, fun d' => ?_, hl ▸ h.lease,
      fun h' => h.stopped (hst h'), fun d' hd' _ i hi => ?_⟩, hf⟩
    · exact iff_of_false (fun heq => hu (some.inj heq).symm) (hfree u)
    · rw [hp']
      simp only [Shared.modify]
      by_cases hd : d' = d
      · rw [hd, update_self]
        exact iff_of_true rfl rfl
      · rw [update_of_ne hd, h.page d', hp]
        exact iff_of_false (by simp) fun heq => hd (some.inj heq).symm
    · cases hp'.symm.trans hd'
      simp only [Shared.modify, update_self] at hi ⊢
      rcases (hs.slots d).live_le i hi with hlt | ⟨_, u, hu, _⟩
      · exact hlt
      · exact absurd hu (hfree u)

theorem Fits.lockRegistry (hs : Good s) (h : Holds t p s)
    (hlock : CompactNumeric.lockRegistry t s = some s') (hr : p'.registry = true)
    (hp : p'.page = p.page) (hl : p'.leased = p.leased) (hst : p'.stopped → p.stopped)
    (hq : p'.quiet = p.quiet) (hf : Facts t s' p') : Fits t s p' s' := by
  unfold CompactNumeric.lockRegistry at hlock
  split at hlock
  case isFalse => cases hlock
  case isTrue hnone =>
    cases hlock
    refine ⟨?_, hs.registryLock _, ⟨iff_of_true rfl hr, hp ▸ h.page, hl ▸ h.lease,
      fun h' => h.stopped (hst h'), ?_⟩, hf⟩
    · refine { Does.refl t s with registryLock := fun u hu => ?_ }
      rw [hnone]
      exact iff_of_false (fun heq => hu (some.inj heq).symm) nofun
    · rw [hp, hq]
      exact h.quiet

theorem Fits.enter (hs : Good s) (h : Holds t p s)
    (henter : enterAdmission (.call t) s = some s') (hr : p'.registry = p.registry)
    (hp : p'.page = p.page) (hst : p'.stopped → p.stopped) (hq : p'.quiet = p.quiet)
    (hf : Facts t s' p') : Fits t s p' s' := by
  unfold enterAdmission at henter
  split at henter
  case isFalse => cases henter
  case isTrue hnone =>
    cases henter
    refine ⟨{ Does.refl t s with leases := fun _ _ hc => mem_cons_of_mem _ hc },
      hs.enter hnone _, ⟨hr ▸ h.registry, hp ▸ h.page, fun _ => mem_cons_self,
      fun h' => h.stopped (hst h'), ?_⟩, hf⟩
    rw [hp, hq]
    exact h.quiet

theorem Fits.unlockRegistry (hs : Good s) (h : Holds t p s) (hp₀ : p.registry = true)
    (hr : p'.registry = false) (hp : p'.page = p.page) (hl : p'.leased = p.leased)
    (hst : p'.stopped → p.stopped) (hq : p'.quiet = p.quiet)
    (hf : Facts t { s with registryLock := none } p') :
    Fits t s p' { s with registryLock := none } := by
  refine ⟨?_, hs.registryLock _, ⟨iff_of_false nofun (by rw [hr]; exact nofun), hp ▸ h.page,
    hl ▸ h.lease, fun h' => h.stopped (hst h'), ?_⟩, hf⟩
  · refine { Does.refl t s with registryLock := fun u hu => iff_of_false nofun fun heq => ?_ }
    exact hu (some.inj (heq.symm.trans (h.registry.mpr hp₀)))
  · rw [hp, hq]
    exact h.quiet

theorem Fits.unlockPage (hs : Good s) (h : Holds t (.leaving false (some d) lease status) s) :
    Fits t s (.leaving false none lease status)
      (s.modify d fun x => { x with publishLock := none }) := by
  have hlock : (s.descriptor d).publishLock = some t := (h.page d).mpr rfl
  refine ⟨.modify { Changes.refl t s (s.descriptor d) with publishLock := fun u hu => ?_ },
    hs.modify ((hs.slots d).unlock (h.quiet d rfl rfl)) rfl,
    ⟨h.registry, fun d' => iff_of_false ?_ nofun, h.lease, nofun, nofun⟩, trivial⟩
  · exact iff_of_false nofun fun heq => hu (some.inj (heq.symm.trans hlock))
  · simp only [Shared.modify]
    by_cases hd : d' = d
    · rw [hd, update_self]
      simp
    · rw [update_of_ne hd, h.page d']
      exact fun heq => hd (some.inj heq).symm

theorem Fits.leaveCall [DecidableEq T] (hs : Good s)
    (h : Holds t (.leaving false none true status) s) :
    Fits t s (.outside status) { s with leases := s.leases.erase (.call t) } := by
  refine ⟨{ Does.refl t s with leases := fun u hu hc => ?_ }, hs.leave (fun _ _ => nofun) ?_,
    ⟨h.registry, h.page, nofun, nofun, nofun⟩, trivial⟩
  · exact (mem_erase_of_ne fun heq => hu (Lease.call.inj heq)).mpr hc
  · intro u d heq hlock
    cases heq
    cases (h.page d).mp hlock

end Locks

theorem Holds.modify {d : D}
    {f : Descriptor T → Descriptor T} (h : Holds t p s) (hr : p'.registry = p.registry)
    (hp : p'.page = p.page) (hl : p'.leased = p.leased) (hst : p'.stopped → p.stopped)
    (hlock : (f (s.descriptor d)).publishLock = (s.descriptor d).publishLock)
    (hpage : ∀ d', p'.page = some d' → d' = d)
    (hq : p'.page = some d → p'.quiet → ∀ i, (f (s.descriptor d)).isLive i →
      i < (f (s.descriptor d)).initializedFrontier) : Holds t p' (s.modify d f) where
  registry := hr ▸ h.registry
  page d' := by
    simp only [Shared.modify]
    rw [hp, ← h.page d']
    by_cases hd : d' = d
    · rw [hd, update_self, hlock]
    · rw [update_of_ne hd]
  lease := hl ▸ h.lease
  stopped h' := h.stopped (hst h')
  quiet d' hd' hq' := by
    cases hpage d' hd'
    simp only [Shared.modify, update_self]
    exact hq hd' hq'

/-- A step on the descriptor that the thread has locked, not on its slots. -/
theorem Holds.modify_page {d : D} {f : Descriptor T → Descriptor T} (h : Holds t p s)
    (hk : Keeps p p') (hp : p.page = some d) (hq : p.quiet = true)
    (hlock : (f (s.descriptor d)).publishLock = (s.descriptor d).publishLock)
    (hlive : (f (s.descriptor d)).isLive = (s.descriptor d).isLive)
    (hfrontier : (f (s.descriptor d)).initializedFrontier = (s.descriptor d).initializedFrontier) :
    Holds t p' (s.modify d f) :=
  h.modify hk.registry hk.page hk.leased hk.stopped hlock
    (fun _ heq => some.inj (heq.symm.trans (hk.page.trans hp)))
    fun _ _ => by
      rw [hlive, hfrontier]
      exact h.quiet d hp hq

omit [DecidableEq D] in
theorem Holds.log (h : Holds t p s) (e : Event T D) : Holds t p (s.log e) :=
  ⟨h.registry, h.page, h.lease, h.stopped, h.quiet⟩

-- Tokens

section Tokens

variable [Target] {t : T} {s : Shared T D}

theorem Good.issued_lt (hs : Good s) (he : e ∈ s.trace) (hi : e.Issues token) :
    token < s.nextObjectTokenId := by
  cases e with
  | reserved publisher first =>
    cases publisher with
    | none =>
      have := hs.tokens.below _ (mem_reservations.mpr he)
      exact Nat.lt_of_lt_of_le hi.2 this
    | some u => cases hi
  | appended d i issued bits =>
    obtain rfl : issued = token := hi
    obtain ⟨hlt, hcap, rfl, _⟩ := (hs.slots d).appended i issued bits he
    have hpublished := (hs.slots d).published_frontier (by omega)
    obtain ⟨u, hu⟩ := hs.tokens.reserved d _ hpublished
    have := hs.tokens.below _ (mem_reservations.mpr hu)
    have := (hs.slots d).capacity_le
    dsimp only at *
    omega
  | _ => cases hi

theorem Good.reserve (hs : Good s) (publisher : Option T) (hfirst : s.nextObjectTokenId = first) :
    Good ({ s with nextObjectTokenId := first + reservedWidth }.log
      (.reserved publisher first)) where
  outer := hs.outer
  tokens := by
    subst hfirst
    refine ⟨pairwise_cons.mpr ⟨hs.tokens.below, hs.tokens.apart⟩, ?_, ?_, ?_⟩
    · refine forall_mem_cons.mpr ⟨Nat.le_refl _, fun a ha => ?_⟩
      exact Nat.le_trans (hs.tokens.below a ha) (Nat.le_add_right _ _)
    · intro d first hp
      obtain ⟨u, hu⟩ := hs.tokens.reserved d first ((mem_cons.mp hp).resolve_left nofun)
      exact ⟨u, mem_cons_of_mem _ hu⟩
    · intro d d' first hp hp'
      exact hs.tokens.unique d d' first ((mem_cons.mp hp).resolve_left nofun)
        ((mem_cons.mp hp').resolve_left nofun)
  readers := hs.readers.cons_other rfl
  slots d := (hs.slots d).cons_other nofun
  lifecycle := by
    refine ⟨?_, hs.lifecycle⟩
    cases publisher with
    | some u => trivial
    | none =>
      intro token hle _ e he hi
      have := hs.issued_lt he hi
      omega

theorem Good.link (hs : Good s) (hphase : (s.descriptor d).phase = .prepared)
    (hpending : (s.descriptor d).pendingNode = true) {first : Nat}
    (hres : .reserved (some t) first ∈ s.trace) (hnew : ∀ d', .published d' first ∉ s.trace) :
    Good ((s.modify d fun x =>
      { x with tokenBegin := first, pendingNode := false, registeredNode := true }).log
        (.published d first)) where
  outer := hs.outer
  tokens := by
    refine ⟨hs.tokens.apart, hs.tokens.below, fun d' first' hp => ?_, fun d₁ d₂ first' h₁ h₂ => ?_⟩
    · rcases mem_cons.mp hp with heq | hp
      · cases heq
        exact ⟨t, mem_cons_of_mem _ hres⟩
      · obtain ⟨u, hu⟩ := hs.tokens.reserved d' first' hp
        exact ⟨u, mem_cons_of_mem _ hu⟩
    · rcases mem_cons.mp h₁ with h₁ | h₁
      · cases h₁
        rcases mem_cons.mp h₂ with h₂ | h₂
        · cases h₂
          rfl
        · exact absurd h₂ (hnew d₂)
      · rcases mem_cons.mp h₂ with h₂ | h₂
        · cases h₂
          exact absurd h₁ (hnew d₁)
        · exact hs.tokens.unique d₁ d₂ first' h₁ h₂
  readers := by
    simp only [Shared.log, Shared.modify]
    rw [readers_update (by rfl)]
    exact hs.readers.cons_other rfl
  slots := by
    refine (Function.forall_update_iff s.descriptor fun d' x =>
      SlotsOk d' x s.leases s.held (.published d first :: s.trace)).mpr ⟨?_, fun d' hne => ?_⟩
    · exact (hs.slots d).link hphase hpending first
    · exact (hs.slots d').cons_other fun heq => hne (some.inj heq).symm
  lifecycle := ⟨trivial, hs.lifecycle⟩

theorem Good.not_issued (hs : Good s) (hphase : (s.descriptor d).phase = .published)
    (hfrontier : (s.descriptor d).initializedFrontier = index)
    (hcap : index < (s.descriptor d).capacity) (he : e ∈ s.trace) :
    ¬ e.Issues ((s.descriptor d).tokenBegin + index) := by
  have hpublished := (hs.slots d).published_phase hphase
  obtain ⟨u, hu⟩ := hs.tokens.reserved d _ hpublished
  have hwidth := (hs.slots d).capacity_le
  intro hi
  cases e with
  | reserved publisher first =>
    cases publisher with
    | none =>
      obtain ⟨hle, hlt⟩ := hi
      have := hs.tokens.eq_of_overlap he hu (by omega) (by omega)
      cases this.1
    | some v => cases hi
  | appended d' i issued bits =>
    obtain rfl : issued = (s.descriptor d).tokenBegin + index := hi
    obtain ⟨hlt, hcap', htoken, _⟩ := (hs.slots d').appended i _ bits he
    have hpublished' := (hs.slots d').published_frontier (by omega)
    obtain ⟨v, hv⟩ := hs.tokens.reserved d' _ hpublished'
    have hwidth' := (hs.slots d').capacity_le
    -- both ranges hold the token, so they are one range and its slot lies at the frontier
    obtain ⟨_, hfirst⟩ := hs.tokens.eq_of_overlap hv hu (by omega) (by omega)
    rw [hfirst] at hpublished'
    cases hs.tokens.unique d d' _ hpublished hpublished'
    omega
  | _ => cases hi

end Tokens

end Uwvm2.Storage.CompactNumeric
