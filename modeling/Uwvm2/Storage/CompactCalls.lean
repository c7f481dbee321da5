import Uwvm2.Storage.CompactOutline

/-!
# The calls on compact descriptors

The steps of the calls that change descriptors, tokens or readers fit the outline,
one lemma each; with those that only move, lock or leave, every step of every call
does. So every history of every schedule is a lifecycle.
-/

namespace Uwvm2.Storage.CompactNumeric

open Function List Option
open RelyGuarantee

section

variable {T D : Type} [DecidableEq D] [Target] {t : T} {s s' : Shared T D} {d : D}

/-- A step that changes one descriptor, and perhaps the registry, with an event. -/
theorem Fits.modify_log (hchanges : Changes t s (s.descriptor d) (f (s.descriptor d)))
    (hgood : Good ((s.modify d f).log e)) (hholds : Holds t p' (s.modify d f))
    (hpublished : ∀ d' first, e = .published d' first → .reserved (some t) first ∈ s.trace)
    (hbegan : ∀ d', e = .retireBegan d' → s.registryLock = some t)
    (hfacts : Facts t { s.modify d f with registry, trace := e :: s.trace } p') :
    Fits t s p' { s.modify d f with registry, trace := e :: s.trace } :=
  ⟨{ (Does.modify hchanges).log hpublished hbegan with }, hgood.registry registry,
    { hholds.log e with }, hfacts⟩

-- Publication

theorem Fits.reserve (hs : Good s) (h : At t (.publishReserve d first) s)
    (hfirst : s.nextObjectTokenId = first) :
    Fits t s (.publishReserved d first)
      ({ s with nextObjectTokenId := first + reservedWidth }.log (.reserved (some t) first)) := by
  obtain ⟨h, hphase, hpending⟩ := h
  refine ⟨{ (Does.refl t s).log (e := .reserved (some t) first) nofun nofun with },
    hs.reserve (some t) hfirst, ⟨h.registry, h.page, h.lease, h.stopped, h.quiet⟩,
    hphase, hpending, mem_cons_self, fun d' hp => ?_⟩
  -- a published range lies below the issuer
  obtain ⟨u, hu⟩ := hs.tokens.reserved d' first ((mem_cons.mp hp).resolve_left nofun)
  have := hs.tokens.below _ (mem_reservations.mpr hu)
  rw [hfirst] at this
  exact absurd first_lt (Nat.not_lt.mpr this)

theorem Fits.link (hs : Good s) (h : At t (.publishScan d first) s) : Fits t s (.publishLinked d)
      { s.modify d fun x =>
          { x with tokenBegin := first, pendingNode := false, registeredNode := true } with
        registry := d :: s.registry, trace := .published d first :: s.trace } := by
  obtain ⟨h, hphase, hpending, hres, hnew⟩ := h
  have hpage : (s.descriptor d).publishLock = some t := (h.page d).mpr rfl
  have hregistry : s.registryLock = some t := h.registry.mpr rfl
  refine .modify_log { Changes.refl t s (s.descriptor d) with
      page := fun hne => absurd hpage hne
      registry := fun hne => absurd hregistry hne
      tokenBegin := fun hne => hne.elim (absurd hregistry) (absurd hphase) }
    (hs.link hphase hpending hres hnew)
    (h.modify_page ⟨rfl, rfl, rfl, nofun, rfl⟩ rfl rfl rfl rfl rfl)
    (fun _ _ heq => by cases heq; exact hres) nofun ?_
  show _ ∧ _
  simp only [Shared.modify, update_self]
  exact ⟨hphase, mem_cons_self⟩

theorem Fits.setPublished (hs : Good s) (h : At t (.publishLinked d) s) :
    Fits t s (.leaving true (some d) true .ok)
      (s.modify d fun x => { x with phase := .published }) := by
  obtain ⟨h, hphase, hpublished⟩ := h
  refine ⟨.modify { Changes.refl t s (s.descriptor d) with
      page := fun hne => absurd ((h.page d).mpr rfl) hne
      registry := fun hne => absurd (h.registry.mpr rfl) hne },
    hs.modify ((hs.slots d).setPublished hphase hpublished) rfl,
    h.modify_page ⟨rfl, rfl, rfl, nofun, rfl⟩ rfl rfl rfl rfl rfl, trivial⟩

-- Append

theorem Fits.store (hs : Good s) (h : At t (.appendStore d bits index) s)
    (hlength : index < (s.descriptor d).payload.length) :
    Fits t s (.appendLoadLive d bits index)
      (s.modify d fun x => { x with payload := x.payload.set index bits }) := by
  obtain ⟨h, hphase, hfrontier, hcap⟩ := h
  refine ⟨.modify { Changes.refl t s (s.descriptor d) with
      page := fun hne => absurd ((h.page d).mpr rfl) hne },
    hs.modify ((hs.slots d).store hfrontier bits) rfl,
    h.modify_page ⟨rfl, rfl, rfl, nofun, rfl⟩ rfl rfl rfl rfl rfl, ?_⟩
  show _ ∧ _
  simp only [Shared.modify, update_self]
  exact ⟨hphase, hfrontier, hcap, getElem?_set_self hlength⟩

theorem Fits.setLive (hs : Good s) (h : At t (.appendStoreLive d bits index old) s) :
    Fits t s (.appendPublish d bits index)
      (s.modify d fun x => { x with live := setBit x.live index old }) := by
  obtain ⟨h, hphase, hfrontier, hcap, hbits, rfl⟩ := h
  have hpage : (s.descriptor d).publishLock = some t := (h.page d).mpr rfl
  refine ⟨.modify { Changes.refl t s (s.descriptor d) with
      page := fun hne => absurd hpage hne
      live := fun _ hne => hne.elim (absurd (h.lease rfl)) (absurd hpage)
      live_mono := fun _ i hi => ?_ },
    hs.modify ((hs.slots d).setLive hfrontier hpage (h.lease rfl)) rfl,
    h.modify rfl rfl rfl nofun rfl (fun _ heq => (some.inj heq).symm) nofun, ?_⟩
  · exact isLive_setBit.trans (by rw [hi, Bool.true_or])
  · show _ ∧ _
    simp only [Shared.modify, update_self]
    exact ⟨hphase, hfrontier, hcap, hbits⟩

theorem Fits.publishSlot (hs : Good s) (h : At t (.appendPublish d bits index) s) :
    Fits t s (.leaving false (some d) true .ok)
      ((s.modify d fun x => { x with initializedFrontier := index + 1 }).log
        (.appended d index ((s.descriptor d).tokenBegin + index) bits)) := by
  obtain ⟨h, hphase, hfrontier, hcap, hbits⟩ := h
  have hslots := hs.slots d
  refine .modify_log { Changes.refl t s (s.descriptor d) with
      page := fun hne => absurd ((h.page d).mpr rfl) hne
      frontier := hfrontier ▸ Nat.le_succ _ }
    (hs.modify_log (hslots.publishSlot hphase hfrontier hcap hbits) rfl rfl rfl rfl
      ⟨fun e he => hs.not_issued hphase hfrontier hcap he, fun token' bits' hm => ?_, fun hm => ?_⟩)
    (h.modify rfl rfl rfl nofun rfl (fun _ heq => (some.inj heq).symm) fun _ _ i hi => ?_)
    nofun nofun trivial
  · have := (hslots.appended index token' bits' hm).1
    omega
  · have := (hslots.swept index hm).1
    omega
  · have := hslots.live_le i hi
    exact show i < index + 1 by omega

-- Stopped mark and sweep

theorem Fits.setMarks (marks : Nat → BitVec 64) (hs : Good s) (h : Holds t p s)
    (hr : p.registry = false) (hp : p.page = none) (hl : p.leased = false) :
    Fits t s (.outside status) (s.modify d fun x => { x with marks := marks }) :=
  ⟨.modify { Changes.refl t s (s.descriptor d) with }, hs.modify { hs.slots d with } rfl,
    h.modify hr.symm hp.symm hl.symm nofun rfl nofun nofun, trivial⟩

theorem Good.quiet_of_exclusive (hs : Good s) (hx : s.exclusive = some t)
    (hi : (s.descriptor d).isLive i) : i < (s.descriptor d).initializedFrontier := by
  refine ((hs.slots d).live_le i hi).resolve_right fun ⟨_, u, _, hu⟩ => ?_
  cases hx.symm.trans (hs.exclusive_none hu)

omit [DecidableEq D] [Target] in
/-- The events of one word of a sweep are all about slots that were appended. -/
theorem justified_swept {trace : List (Event T D)} {slots : List Nat}
    (h : Justified Lifecycle trace)
    (happended : ∀ i ∈ slots, ∃ token bits, .appended d i token bits ∈ trace) :
    Justified Lifecycle (slots.map (.swept d) ++ trace) := by
  have hboth : Justified Lifecycle (slots.map (.swept d) ++ trace) ∧
      trace ⊆ slots.map (.swept d) ++ trace := by
    refine append_induction (P := fun l => Justified Lifecycle l ∧ trace ⊆ l)
      ⟨h, List.Subset.refl _⟩ fun e he earlier hi => ?_
    obtain ⟨i, hmem, rfl⟩ := mem_map.mp he
    obtain ⟨token, bits, hm⟩ := happended i hmem
    exact ⟨⟨⟨token, bits, hi.2 hm⟩, hi.1⟩, subset_cons_of_subset _ hi.2⟩
  exact hboth.1

theorem Fits.sweepWord {word count : Nat} (hs : Good s)
    (h : At t (.sweepStore d word count old) s) :
    Fits t s (.sweepLoad d (word + 1) count')
      { s.modify d fun x => { x with live := update x.live word (old &&& x.marks word) } with
        trace := (slotsOf word (old &&& ~~~(s.descriptor d).marks word)).map (.swept d) ++
          s.trace } := by
  obtain ⟨h, rfl⟩ := h
  have hx : s.exclusive = some t := h.stopped rfl
  have hquiet (i : Nat) := hs.quiet_of_exclusive (d := d) (i := i) hx
  have hother {e : Event T D} {slots : List Nat} (he : ∀ i, e ≠ .swept d i)
      (hm : e ∈ slots.map (.swept d) ++ s.trace) : e ∈ s.trace := by
    refine (mem_append.mp hm).resolve_left fun hm => ?_
    obtain ⟨i, _, heq⟩ := mem_map.mp hm
    exact he i heq.symm
  have hchanges : Changes t s (s.descriptor d) { s.descriptor d with
      live := update (s.descriptor d).live word
        ((s.descriptor d).live word &&& (s.descriptor d).marks word) } :=
    { Changes.refl t s (s.descriptor d) with
      page := fun _ => ⟨rfl, rfl, rfl, rfl, fun i hi => by
        rw [isLive_sweep, Bool.and_eq_true] at hi
        exact hi.1⟩
      live := fun hne => absurd hx hne
      live_mono := fun hne => absurd hx hne }
  have hholds : Holds t (.sweepLoad d (word + 1) count') (s.modify d fun x =>
      { x with live := update x.live word (x.live word &&& x.marks word) }) :=
    h.modify rfl rfl rfl (fun _ => rfl) rfl nofun nofun
  have hdoes := Does.modify (f := fun x =>
    { x with live := update x.live word (x.live word &&& x.marks word) }) hchanges
  refine ⟨{ hdoes with
      trace := fun e he => mem_append_right _ he
      published := fun d' first hm => .inl (hother nofun hm)
      retireBegan := fun d' hm => .inl (hother nofun hm) },
    hs.modify_logs ((hs.slots d).sweepWord hquiet word) rfl ?_ ?_ ?_ ?_, { hholds with }, trivial⟩
  · exact forall_mem_map.mpr fun _ _ => rfl
  · exact forall_mem_map.mpr fun _ _ => rfl
  · exact forall_mem_map.mpr fun _ _ => rfl
  · refine justified_swept hs.lifecycle fun i hi => ?_
    obtain ⟨rfl, hbit⟩ := mem_slotsOf.mp hi
    rw [BitVec.getLsbD_and, Bool.and_eq_true] at hbit
    exact ⟨_, (hs.slots d).initialized i (hquiet i hbit.1)⟩

-- Retirement

theorem Fits.retirePrepared (hs : Good s) (h : At t (.retirePrepared d) s) :
    Fits t s (.leaving true (some d) false .ok)
      ((s.modify d fun x => { x with phase := .closing }).log (.retireBegan d)) := by
  obtain ⟨h, _⟩ := h
  have hregistry : s.registryLock = some t := h.registry.mpr rfl
  exact .modify_log { Changes.refl t s (s.descriptor d) with
      page := fun hne => absurd ((h.page d).mpr rfl) hne
      registry := fun hne => absurd hregistry hne }
    (hs.modify_log ((hs.slots d).setClosing.retireBegan ⟨.inr nofun, nofun⟩) rfl rfl
      rfl rfl trivial)
    (h.modify_page ⟨rfl, rfl, rfl, nofun, rfl⟩ rfl rfl rfl rfl rfl) nofun
      (fun _ _ => hregistry) trivial

theorem Fits.unlink (hs : Good s) (h : At t (.retireUnlink d) s) : Fits t s (.retireClose d)
      { s.modify d fun x => { x with registeredNode := false } with
        registry := s.registry.erase d, trace := .retireBegan d :: s.trace } := by
  obtain ⟨h, hphase⟩ := h
  have hphase : (s.descriptor d).phase = .published := hphase
  have hregistry : s.registryLock = some t := h.registry.mpr rfl
  have hslots := (hs.slots d).unlink.retireBegan ⟨.inl rfl, fun hp => by
    cases hphase.symm.trans hp⟩
  refine .modify_log
    { Changes.refl t s (s.descriptor d) with registry := fun hne => absurd hregistry hne }
    (hs.modify_log hslots rfl rfl rfl rfl trivial)
    (h.modify_page ⟨rfl, rfl, rfl, nofun, rfl⟩ rfl rfl rfl rfl rfl) nofun (fun _ _ => hregistry) ?_
  show _ ∧ _
  simp only [Shared.modify, update_self]
  exact ⟨hphase, trivial⟩

theorem Fits.close (hs : Good s) (h : At t (.retireClose d) s) :
    Fits t s (.leaving true (some d) false .ok)
      (s.modify d fun x => { x with phase := .closing }) := by
  obtain ⟨h, _⟩ := h
  exact ⟨.modify { Changes.refl t s (s.descriptor d) with
      page := fun hne => absurd ((h.page d).mpr rfl) hne
      registry := fun hne => absurd (h.registry.mpr rfl) hne },
    hs.modify (hs.slots d).setClosing rfl,
    h.modify_page ⟨rfl, rfl, rfl, nofun, rfl⟩ rfl rfl rfl rfl rfl, trivial⟩

theorem Fits.release (hs : Good s) (h : At t (.finishRelease d) s) : Fits t s (.finishRetired d)
      ((s.modify d fun x => { x with payload := [] }).log (.released d)) := by
  obtain ⟨h, hphase, hreaders⟩ := h
  have hcount := hs.readers.count d
  rw [hreaders, eq_comm, countP_eq_zero] at hcount
  have hfree (r : Reader D) (hr : r ∈ s.held) : r.descriptor ≠ d := fun heq =>
    hcount r hr (decide_eq_true heq)
  refine .modify_log { Changes.refl t s (s.descriptor d) with
      page := fun hne => absurd ((h.page d).mpr rfl) hne }
    (hs.modify_log ((hs.slots d).release hphase hfree) rfl rfl rfl rfl fun id slot token hm => ?_)
    (h.modify_page ⟨rfl, rfl, rfl, nofun, rfl⟩ rfl rfl rfl rfl rfl) nofun nofun ?_
  · exact (hs.readers.held_or_reset id d slot token hm).resolve_left fun hr => hfree _ hr rfl
  · show _ = _
    simp only [Shared.modify, update_self]
    exact hphase

theorem Fits.setRetired (hs : Good s) (h : At t (.finishRetired d) s) :
    Fits t s (.leaving false (some d) false .ok)
      (s.modify d fun x => { x with phase := .retired }) := by
  obtain ⟨h, hphase⟩ := h
  have hphase : (s.descriptor d).phase = .closing := hphase
  exact ⟨.modify { Changes.refl t s (s.descriptor d) with
      page := fun hne => absurd ((h.page d).mpr rfl) hne
      registry := fun _ => ⟨rfl, fun hp => by cases hphase.symm.trans hp⟩ },
    hs.modify (hs.slots d).setRetired rfl,
    h.modify_page ⟨rfl, rfl, rfl, nofun, rfl⟩ rfl rfl rfl rfl rfl, trivial⟩

-- Readers

section Readers

variable {readers : D → Nat} {leases leases' : List (Lease T)} {held : List (Reader D)}
  {nextReader : Nat} {trace : List (Event T D)}

section

variable (h : ReadersOk readers leases held nextReader trace)

include h

theorem ReadersOk.acquire (hbits : .appended d slot token bits ∈ trace) (hlt : readers d < sizeMax)
    (hleases : ∀ id, .reader id ∈ leases → .reader id ∈ leases')
    (hlease : .reader nextReader ∈ leases') :
    ReadersOk (update readers d (readers d + 1)) leases'
      (⟨nextReader, d, slot, token⟩ :: held) (nextReader + 1)
      (.acquired nextReader d slot token :: trace) where
  leased := forall_mem_cons.mpr ⟨hlease, fun r hr => hleases _ (h.leased r hr)⟩
  nodup := by
    refine nodup_cons.mpr ⟨fun hm => ?_, h.nodup⟩
    obtain ⟨r, hr, heq⟩ := mem_map.mp hm
    have := h.lt _ _ _ _ (h.acquired r hr).1
    dsimp only at heq
    omega
  count d' := by
    rw [countP_cons, ← h.count d']
    by_cases hd : d' = d
    · simp [hd]
    · simp [hd, Ne.symm hd]
  count_le := (forall_update_iff readers fun _ n => n ≤ sizeMax).mpr
    ⟨hlt, fun d' _ => h.count_le d'⟩
  acquired := by
    refine forall_mem_cons.mpr ⟨⟨mem_cons_self, fun hm => ?_, bits,
      mem_cons_of_mem _ hbits⟩, fun r hr => ?_⟩
    · exact absurd (h.reset_lt _ ((mem_cons.mp hm).resolve_left nofun)) (Nat.lt_irrefl _)
    · obtain ⟨hacq, hreset, bits', happ⟩ := h.acquired r hr
      exact ⟨mem_cons_of_mem _ hacq, fun hm =>
        hreset ((mem_cons.mp hm).resolve_left nofun), bits', mem_cons_of_mem _ happ⟩
  lt id d' slot' token' hm := by
    rcases mem_cons.mp hm with heq | hm
    · cases heq
      exact Nat.lt_succ_self _
    · exact Nat.lt_succ_of_lt (h.lt id d' slot' token' hm)
  reset_lt id hm :=
    Nat.lt_succ_of_lt (h.reset_lt id ((mem_cons.mp hm).resolve_left nofun))
  held_or_reset id d' slot' token' hm := by
    rcases mem_cons.mp hm with heq | hm
    · cases heq
      exact .inl mem_cons_self
    · exact (h.held_or_reset id d' slot' token' hm).imp (mem_cons_of_mem _)
        (mem_cons_of_mem _)

theorem ReadersOk.id_ne (hr : r ∈ held) (hr' : r' ∈ held.erase r) : r'.id ≠ r.id := fun heq => by
  have hnodup : held.Nodup := h.nodup.of_map
  obtain ⟨hne, hm⟩ := hnodup.mem_erase_iff.mp hr'
  exact hne (inj_on_of_nodup_map h.nodup hm hr heq)

theorem ReadersOk.reset (hr : r ∈ held) :
    ReadersOk (update readers r.descriptor (readers r.descriptor - 1)) leases
      (held.erase r) nextReader (.reset r.id :: trace) where
  leased r' hr' := h.leased r' (mem_of_mem_erase hr')
  nodup := h.nodup.sublist (erase_sublist.map _)
  count d' := by
    rw [countP_erase, ← h.count d']
    by_cases hd : d' = r.descriptor
    · simp [hd, hr]
    · simp [hd, Ne.symm hd]
  count_le := (forall_update_iff readers fun _ n => n ≤ sizeMax).mpr
    ⟨Nat.le_trans (Nat.sub_le _ _) (h.count_le _), fun d' _ => h.count_le d'⟩
  acquired r' hr' := by
    obtain ⟨hacq, hreset, bits', happ⟩ := h.acquired r' (mem_of_mem_erase hr')
    refine ⟨mem_cons_of_mem _ hacq, fun hm => ?_, bits', mem_cons_of_mem _ happ⟩
    rcases mem_cons.mp hm with heq | hm
    · exact h.id_ne hr hr' (Event.reset.inj heq)
    · exact hreset hm
  lt id d' slot' token' hm :=
    h.lt id d' slot' token' ((mem_cons.mp hm).resolve_left nofun)
  reset_lt id hm := by
    rcases mem_cons.mp hm with heq | hm
    · cases heq
      exact h.lt _ _ _ _ (h.acquired r hr).1
    · exact h.reset_lt id hm
  held_or_reset id d' slot' token' hm := by
    rcases h.held_or_reset id d' slot' token' ((mem_cons.mp hm).resolve_left nofun) with
      hheld | hreset
    · by_cases heq : (⟨id, d', slot', token'⟩ : Reader D) = r
      · exact .inr (heq ▸ mem_cons_self)
      · exact .inl ((mem_erase_of_ne heq).mpr hheld)
    · exact .inr (mem_cons_of_mem _ hreset)

end

end Readers

omit [DecidableEq D] [Target] in
theorem SlotsOk.setReaders (h : SlotsOk d x leases held trace) (n : Nat) :
    SlotsOk d { x with readers := n } leases held trace := { h with }

omit [Target] in
theorem readers_modify {f : D → Descriptor T} (h : x.readers = n) :
    (fun d' => (update f d x d').readers) =
      update (fun d' => (f d').readers) d n := by
  funext d'
  by_cases hd : d' = d
  · rw [hd, update_self, update_self, h]
  · rw [update_of_ne hd, update_of_ne hd]

variable [DecidableEq T]

theorem Fits.acquireCount {token : Nat} (hs : Good s) (h : At t (.acquireCount token d slot) s) :
    Fits t s (.leaving true none false .ok)
      { s.modify d fun x => { x with readers := (x.readers + 1) % 2 ^ Target.bits } with
        leases := .reader s.nextReader :: s.leases.erase (.call t)
        held := ⟨s.nextReader, d, slot, token⟩ :: s.held
        nextReader := s.nextReader + 1
        trace := .acquired s.nextReader d slot token :: s.trace } := by
  obtain ⟨h, hphase, hretire, rfl, hslot, hlive, hreaders⟩ := h
  have hslots := hs.slots d
  obtain ⟨bits, hbits⟩ := hslots.initialized slot hslot
  have hlease : .call t ∈ s.leases := h.lease rfl
  have hmod : ((s.descriptor d).readers + 1) % 2 ^ Target.bits = (s.descriptor d).readers + 1 :=
    Nat.mod_eq_of_lt (by unfold sizeMax at hreaders; omega)
  -- the thread holds no publication lock, so no live bit waits for its lease
  have hfree (d' : D) : (s.descriptor d').publishLock ≠ some t := fun heq => by
    cases (h.page d').mp heq
  have hkeep {l : Lease T} (hne : l ≠ .call t) (hl : l ∈ s.leases) :
      l ∈ .reader s.nextReader :: s.leases.erase (.call t) :=
    mem_cons_of_mem _ ((mem_erase_of_ne hne).mpr hl)
  have hchanges : Changes t s (s.descriptor d) { s.descriptor d with
      readers := ((s.descriptor d).readers + 1) % 2 ^ Target.bits } :=
    { Changes.refl t s (s.descriptor d) with readers := .inr ⟨h.registry.mpr rfl, hphase⟩ }
  have hdoes := (Does.modify (f := fun x => { x with readers := (x.readers + 1) % 2 ^ Target.bits })
    hchanges).log (e := .acquired s.nextReader d slot ((s.descriptor d).tokenBegin + slot))
      nofun nofun
  have hholds : Holds t (.leaving true (none : Option D) true .ok)
      (s.modify d fun x => { x with readers := (x.readers + 1) % 2 ^ Target.bits }) :=
    h.modify rfl rfl rfl nofun rfl nofun nofun
  have hframe (d' : D) : SlotsOk d' (s.descriptor d')
      (.reader s.nextReader :: s.leases.erase (.call t))
      (⟨s.nextReader, d, slot, (s.descriptor d).tokenBegin + slot⟩ :: s.held)
      (.acquired s.nextReader d slot ((s.descriptor d).tokenBegin + slot) :: s.trace) := by
    refine ((hs.slots d').frame (fun u hu hc => ?_) fun r hr hd => ?_).cons_other nofun
    · exact hkeep (fun heq => hfree d' (Lease.call.inj heq ▸ hu)) hc
    · rcases mem_cons.mp hr with rfl | hr
      · exact .inr (hd ▸ hphase)
      · exact .inl hr
  refine ⟨{ hdoes with
      leases := fun u hu hc => hkeep (fun heq => hu (Lease.call.inj heq)) hc
      nextReader := Nat.le_succ _
      held := fun r hr => ?_ },
        ⟨fun ho : s.exclusive.isSome => ?_, hs.tokens.cons_other rfl, ?_, ?_, ?_⟩,
    ⟨hholds.registry, hholds.page, nofun, nofun, nofun⟩, trivial⟩
  · rcases mem_cons.mp hr with rfl | hr
    · exact .inr (Nat.le_refl _)
    · exact .inl hr
  · have hnone := hs.exclusive_none hlease
    rw [show s.exclusive.isSome = false by rw [hnone]; rfl] at ho
    cases ho
  · simp only [Shared.modify]
    rw [readers_modify hmod]
    exact hs.readers.acquire hbits hreaders (fun _ hr => hkeep (by simp) hr) mem_cons_self
  · refine (forall_update_iff s.descriptor fun d' x => SlotsOk d' x _ _ _).mpr
      ⟨(hframe d).setReaders _, fun d' _ => hframe d'⟩
  · refine ⟨⟨⟨bits, hbits⟩, fun hm => ?_, hretire, fun d' slot' token' hm => ?_⟩, hs.lifecycle⟩
    · cases hlive.symm.trans (hslots.swept slot hm).2
    · exact absurd (hs.readers.lt _ _ _ _ hm) (Nat.lt_irrefl _)

omit [DecidableEq T] in
theorem Fits.reset {status : Status} (hs : Good s) (h : Holds t (.outside status) s)
    (hr : r ∈ s.held) :
    Fits t s (.leaveReader r.id)
      { s.modify r.descriptor fun x => { x with readers := x.readers - 1 } with
        held := s.held.erase r, trace := .reset r.id :: s.trace } := by
  have hchanges : Changes t s (s.descriptor r.descriptor) { s.descriptor r.descriptor with
      readers := (s.descriptor r.descriptor).readers - 1 } :=
    { Changes.refl t s (s.descriptor r.descriptor) with readers := .inl (Nat.sub_le _ _) }
  have hdoes := (Does.modify (f := fun x => { x with readers := x.readers - 1 }) hchanges).log
    (e := .reset r.id) nofun nofun
  have hholds : Holds t (.leaveReader r.id)
      (s.modify r.descriptor fun x => { x with readers := x.readers - 1 }) :=
    h.modify rfl rfl rfl nofun rfl nofun nofun
  have hframe (d' : D) : SlotsOk d' (s.descriptor d') s.leases (s.held.erase r)
      (.reset r.id :: s.trace) :=
    ((hs.slots d').frame (fun _ _ hc => hc) fun _ hr' _ =>
      .inl (mem_of_mem_erase hr')).cons_other nofun
  refine ⟨{ hdoes with held := fun r' hr' => .inl (mem_of_mem_erase hr') },
    ⟨hs.outer, hs.tokens.cons_other rfl, ?_, ?_, trivial, hs.lifecycle⟩, { hholds with },
    hs.readers.lt _ _ _ _ (hs.readers.acquired r hr).1, fun r' hr' => hs.readers.id_ne hr hr'⟩
  · simp only [Shared.modify]
    rw [readers_modify rfl]
    exact hs.readers.reset hr
  · exact (forall_update_iff s.descriptor fun d' x => SlotsOk d' x _ _ _).mpr
      ⟨(hframe r.descriptor).setReaders _, fun d' _ => hframe d'⟩

theorem Fits.leaveReader {id : Nat} (hs : Good s) (h : At t (.leaveReader id) s) :
    Fits t s (.outside .ok) { s with leases := s.leases.erase (.reader id) } := by
  obtain ⟨h, _, hfree⟩ := h
  refine ⟨{ Does.refl t s with leases := fun u _ hc =>
      (mem_erase_of_ne (by exact nofun)).mpr hc },
    hs.leave (fun r hr heq => hfree r hr (Lease.reader.inj heq).symm) nofun,
    ⟨h.registry, h.page, nofun, nofun, nofun⟩, trivial⟩

omit [DecidableEq T] in
theorem Fits.rawBits32 (hs : Good s) (h : Holds t (.outside status) s) (hr : r ∈ s.held) :
    Fits t s (.outside .ok) (s.log (.read r.id (s.descriptor r.descriptor).payload[r.slot]?)) := by
  obtain ⟨hacq, hreset, bits, happ⟩ := hs.readers.acquired r hr
  obtain ⟨_, _, _, hbits⟩ := (hs.slots r.descriptor).appended _ _ _ happ
  have hreleased : .released r.descriptor ∉ s.trace := fun hm =>
    ((hs.slots r.descriptor).released hm).2 r hr rfl
  have hholds : Holds t (.outside .ok) s := h.move ⟨rfl, rfl, rfl, nofun, rfl⟩
  refine ⟨(Does.refl t s).log nofun nofun, hs.log rfl rfl rfl ?_, hholds.log _, trivial⟩
  exact ⟨hreset, r.descriptor, r.slot, r.token, bits, hbits hreleased, hacq, happ⟩

-- Outer executions and exclusive admission

section Admission

variable {status : Status}

section

variable (hs : Good s) (h : Holds t (.outside status) s)

include hs h

omit [DecidableEq T] in
theorem Fits.enterOuter (henter : enterAdmission (.outer t) s = some s') :
    Fits t s (.outside .ok) s' := by
  unfold enterAdmission at henter
  split at henter
  case isFalse => cases henter
  case isTrue hnone =>
    cases henter
    exact ⟨{ Does.refl t s with leases := fun _ _ hc => mem_cons_of_mem _ hc },
      hs.enter hnone _, ⟨h.registry, h.page, nofun, nofun, nofun⟩, trivial⟩

theorem Fits.leaveOuter : Fits t s (.outside .ok) { s with leases := s.leases.erase (.outer t) } :=
  ⟨{ Does.refl t s with leases := fun _ _ hc => (mem_erase_of_ne (by exact nofun)).mpr hc },
    hs.leave (fun _ _ => nofun) nofun, ⟨h.registry, h.page, nofun, nofun, nofun⟩, trivial⟩

theorem Fits.tryExclusive (htry : CompactNumeric.tryExclusive t presented s = some s') :
    Fits t s (.outside .ok) s' := by
  unfold CompactNumeric.tryExclusive at htry
  split at htry
  case isFalse => cases htry
  case isTrue hcond =>
    obtain ⟨hnone, houter, hsub, hlength⟩ := hcond
    cases htry
    refine ⟨{ Does.refl t s with exclusive := fun u _ hu => ?_ },
      ⟨fun _ l hl => ?_, hs.tokens, hs.readers, hs.slots, hs.lifecycle⟩,
      ⟨h.registry, h.page, nofun, nofun, nofun⟩, trivial⟩
    · cases hnone.symm.trans hu
    · have hperm := hsub.perm_of_length_le (Nat.le_of_eq hlength)
      exact houter l (hperm.mem_iff.mpr hl)

omit [DecidableEq T] in
theorem Fits.leaveExclusive (hx : s.exclusive = some t) :
    Fits t s (.outside .ok) { s with exclusive := none } := by
  refine ⟨{ Does.refl t s with exclusive := fun u hu hxu => ?_ },
    ⟨nofun, hs.tokens, hs.readers, hs.slots, hs.lifecycle⟩,
    ⟨h.registry, h.page, nofun, nofun, nofun⟩, trivial⟩
  exact absurd (some.inj (hxu.symm.trans hx)) hu

omit [DecidableEq T] in
theorem Fits.reserveObjectBlock (hfirst : s.nextObjectTokenId = first) : Fits t s (.outside .ok)
      ({ s with nextObjectTokenId := first + reservedWidth }.log (.reserved none first)) :=
  ⟨{ (Does.refl t s).log (e := .reserved none first) nofun nofun with }, hs.reserve none hfirst,
    ⟨h.registry, h.page, nofun, nofun, nofun⟩, trivial⟩

end

end Admission

-- All steps

section Steps

variable {p p' : Position D} {status : Status}

omit [DecidableEq T] in
theorem Fits.exit (hs : Good s) (h : Holds t p s) (hr : p.registry = false := by rfl)
    (hp : p.page = none := by rfl) : Fits t s (.outside status) s :=
  ⟨.refl t s, hs, ⟨h.registry.trans (by rw [hr]; rfl), fun d => (h.page d).trans (by rw [hp]; rfl),
    nofun, nofun, nofun⟩, trivial⟩

omit [DecidableEq T] in
theorem Fits.bail (hs : Good s) (h : Holds t p s) (hq : p.quiet = true := by rfl) :
    Fits t s (.leaving p.registry p.page p.leased status) s :=
  .stay hs h trivial ⟨rfl, rfl, rfl, nofun, hq.symm⟩

omit [DecidableEq D] [Target] in
theorem held_of_find {held : List (Reader D)} {id : Nat} (h : held.find? (·.id = id) = some r) :
    r ∈ held ∧ r.id = id :=
  ⟨mem_of_find?_eq_some h, by simpa using find?_some h⟩

omit [DecidableEq D] [Target] [DecidableEq T] in
theorem lockRegistry_eq (h : lockRegistry t s = some s') :
    s' = { s with registryLock := some t } := by
  unfold lockRegistry at h
  split at h
  case isTrue => exact (some.inj h).symm
  case isFalse => cases h

theorem start_sound {op : Call T D} (hs : Good s) (h : Holds t (.outside status) s) :
    Leads (Fits t s) (start t s op) := by
  cases op with
  | publishRangeFromStore | appendRaw32 | beginRetire | finishRetire | acquire =>
    exact .some (.stay hs h trivial)
  | beginMarks | markToken | sweepUnmarked =>
    exact .guard fun hx =>
      ⟨.refl t s, hs, ⟨h.registry, h.page, nofun, fun _ => hx, nofun⟩, trivial⟩
  | rawBits32 id =>
    simp only [start]
    split
    next r hfind =>
      obtain ⟨hr, rfl⟩ := held_of_find hfind
      exact .some (.rawBits32 hs h hr)
    next => exact .none
  | reset id =>
    simp only [start]
    split
    next r hfind =>
      obtain ⟨hr, rfl⟩ := held_of_find hfind
      exact .ite (fun _ => .none) fun _ => .some (.reset hs h hr)
    next => exact .none
  | enterOuter => exact .map fun _ henter => .enterOuter hs h henter
  | leaveOuter => exact .guard fun _ => .leaveOuter hs h
  | tryExclusive presented => exact .map fun _ htry => .tryExclusive hs h htry
  | leaveExclusive => exact .guard fun hx => .leaveExclusive hs h hx
  | reserveObjectBlock => exact .ite (fun _ => .none) fun _ => .some (.reserveObjectBlock hs h rfl)

theorem slot?_eq_some (h : slot? first capacity token = some slot) : token = first + slot := by
  unfold slot? at h
  split at h
  case isFalse => cases h
  case isTrue hcond =>
    cases h
    simp only [Bool.and_eq_true, decide_eq_true_eq] at hcond
    omega

theorem leaving_sound (hs : Good s) (h : Holds t (.leaving registry page lease status) s) :
    Leads (Fits t s) (advance t fail s (.leaving registry page lease status)) := by
  cases registry with
  | true => exact .some (.unlockRegistry hs h rfl rfl rfl rfl nofun rfl trivial)
  | false =>
    cases page with
    | some d => exact .some (.unlockPage hs h)
    | none =>
      cases lease with
      | true => exact .some (.leaveCall hs h)
      | false => exact .some (.exit hs h)

section Guarded

variable {c : Prop} {inst : Decidable c} {r : Option (Position D × Shared T D)}

omit [DecidableEq T] in
theorem bail_or (hs : Good s) (h : Holds t p s) (hr : ¬ c → Leads (Fits t s) r)
    (hq : p.quiet = true := by rfl) :
    Leads (Fits t s) (if c then some (.leaving p.registry p.page p.leased status, s) else r) :=
  .ite (fun _ => .some (.bail hs h hq)) hr

omit [DecidableEq T] in
theorem exit_or (hs : Good s) (h : Holds t p s) (hr : ¬ c → Leads (Fits t s) r)
    (hreg : p.registry = false := by rfl) (hp : p.page = none := by rfl) :
    Leads (Fits t s) (if c then some (.outside status, s) else r) :=
  .ite (fun _ => .some (.exit hs h hreg hp)) hr

end Guarded

theorem advance_sound {fail : Bool} (hs : Good s) (hat : At t p s) :
    Leads (Fits t s) (advance t fail s p) := by
  have h : Holds t p s := hat.1
  cases p with
  | outside => exact .none
  | leaving => exact leaving_sound hs h
  -- publication
  | publishStart d | appendStart d bits | acquireStart token =>
    exact exit_or hs h fun _ => .map fun _ henter => .enter hs h henter rfl rfl nofun rfl trivial
  | publishAdmitted d | appendAdmitted d bits =>
    exact .map fun _ hlock => .lockPage hs h hlock rfl rfl rfl rfl nofun trivial
  | publishLocked d =>
    refine bail_or hs h fun hpending => bail_or hs h fun hphase =>
      .some (.stay hs h ⟨not_not.mp hphase, ?_⟩)
    simp only [Bool.or_eq_true, Bool.not_eq_true', not_or, Bool.not_eq_false] at hpending
    exact hpending.2
  | publishIssuer d => exact .some (.stay hs h hat.2)
  | publishReserve d first =>
    refine bail_or hs h fun _ => .ite (fun _ => .some (.stay hs h hat.2)) fun hfirst => ?_
    simp only [Bool.or_eq_true, decide_eq_true_eq, not_or, not_not] at hfirst
    exact .some (.reserve hs hat hfirst.2)
  | publishReserved d first =>
    refine .map fun _ hlock => ?_
    obtain rfl := lockRegistry_eq hlock
    exact .lockRegistry hs h hlock rfl rfl rfl nofun rfl hat.2
  | publishScan d first => exact bail_or hs h fun _ => .some (.link hs hat)
  | publishLinked d => exact .some (.setPublished hs hat)
  -- append
  | appendLocked d bits => exact bail_or hs h fun hphase => .some (.stay hs h (not_not.mp hphase))
  | appendFrontier d bits =>
    exact bail_or hs h fun hcap => .some (.stay hs h ⟨hat.2, rfl, Nat.not_le.mp hcap⟩)
  | appendStore d bits index =>
    exact bail_or hs h fun hlength => .some (.store hs hat (Nat.not_le.mp hlength))
  | appendLoadLive d bits index =>
    obtain ⟨_, hphase, hfrontier, hcap, hbits⟩ := hat
    exact .some (.stay hs h ⟨hphase, hfrontier, hcap, hbits, rfl⟩)
  | appendStoreLive d bits index old => exact .some (.setLive hs hat)
  | appendPublish d bits index => exact .some (.publishSlot hs hat)
  -- stopped mark and sweep
  | marksPhase d | marksReaders d | markReaders d token | markPhase d token | sweepPhase d
  | sweepReaders d =>
    exact exit_or hs h fun _ => .some (.stay hs h trivial ⟨rfl, rfl, rfl, fun _ => rfl, rfl⟩)
  | marksClear d => exact .some (.setMarks _ hs h rfl rfl rfl)
  | markFrontier d token =>
    simp only [advance]
    split
    · exact .some (.exit hs h)
    · exact exit_or hs h fun _ => .some (.stay hs h trivial ⟨rfl, rfl, rfl, fun _ => rfl, rfl⟩)
  | markLive d slot =>
    exact .ite (fun _ => .some (.stay hs h trivial ⟨rfl, rfl, rfl, fun _ => rfl, rfl⟩))
      fun _ => .some (.exit hs h)
  | markSet d slot =>
    exact exit_or hs h fun _ =>
      .some (.setMarks (setBit (s.descriptor d).marks slot _) hs h rfl rfl rfl)
  | sweepLoad d word count =>
    exact exit_or hs h fun _ => .some (.stay hs h rfl ⟨rfl, rfl, rfl, fun _ => rfl, rfl⟩)
  | sweepStore d word count old => exact .some (.sweepWord hs hat)
  -- retirement
  | retireStart d | finishStart d =>
    exact exit_or hs h fun _ =>
      .map fun _ hlock => .lockPage hs h hlock rfl rfl rfl rfl nofun trivial
  | retireLocked d =>
    exact .map fun _ hlock => .lockRegistry hs h hlock rfl rfl rfl nofun rfl trivial
  | retirePhase d =>
    simp only [advance]
    split
    next => exact .some (.bail hs h)
    next => exact .some (.bail hs h)
    next hphase => exact .some (.stay hs h hphase)
    next hphase => exact .some (.stay hs h hphase)
  | retirePrepared d => exact .some (.retirePrepared hs hat)
  | retireUnlink d => exact .ite (fun _ => .some (.unlink hs hat)) fun _ => .some (.bail hs h)
  | retireClose d => exact .some (.close hs hat)
  | finishPhase d =>
    simp only [advance]
    split
    next => exact .some (.bail hs h)
    next hphase => exact .some (.stay hs h hphase)
    next => exact .some (.bail hs h)
  | finishReaders d =>
    exact bail_or hs h fun hreaders => .some (.stay hs h ⟨hat.2, not_not.mp hreaders⟩)
  | finishRelease d => exact .some (.release hs hat)
  | finishRetired d => exact .some (.setRetired hs hat)
  -- readers
  | acquireAdmitted token | acquireRelock token d =>
    exact .map fun _ hlock => .lockRegistry hs h hlock rfl rfl rfl nofun rfl trivial
  | acquireScan token => exact .some (.stay hs h trivial)
  | acquireFound token found =>
    cases found with
    | none | some d => exact .some (.unlockRegistry hs h rfl rfl rfl rfl nofun rfl trivial)
  | acquireStore token d => exact bail_or hs h fun _ => .some (.stay hs h trivial)
  | acquireCheck token d =>
    refine bail_or hs h fun hcond => ?_
    simp only [Bool.or_eq_true, Bool.not_eq_true', decide_eq_true_eq, not_or, not_not,
      Bool.not_eq_false] at hcond
    obtain ⟨hregistered, hphase⟩ := hcond
    refine .some (.stay hs h ⟨hphase, fun hm => ?_⟩)
    -- retirement would have unlinked the node or left the phase
    rcases ((hs.slots d).retiring hm).1 with hnot | hnot
    · cases hregistered.symm.trans hnot
    · exact hnot hphase
  | acquireFrontier token d =>
    obtain ⟨_, hphase, hretire⟩ := hat
    simp only [advance]
    split
    next => exact .some (.bail hs h)
    next slot hslot =>
      exact bail_or hs h fun hfrontier =>
        .some (.stay hs h ⟨hphase, hretire, slot?_eq_some hslot, Nat.not_le.mp hfrontier⟩)
  | acquireLive token d slot =>
    obtain ⟨_, hphase, hretire, htoken, hslot⟩ := hat
    exact .ite (fun hlive => .some (.stay hs h ⟨hphase, hretire, htoken, hslot, hlive⟩))
      fun _ => .some (.bail hs h)
  | acquireReaders token d slot =>
    obtain ⟨_, hphase, hretire, htoken, hslot, hlive⟩ := hat
    exact bail_or hs h fun hmax => .some (.stay hs h
      ⟨hphase, hretire, htoken, hslot, hlive, Nat.lt_of_le_of_ne (hs.readers.count_le d) hmax⟩)
  | acquireCount token d slot => exact .some (.acquireCount hs hat)
  | leaveReader id => exact .some (.leaveReader hs hat)

theorem act_sound (hs : Good s) (hat : At t p s) : Leads (Fits t s) (act t turn p s) := by
  unfold act
  split
  case h_1 => exact start_sound hs hat.1
  case h_2 => exact .none
  case h_3 | h_4 => exact advance_sound hs hat

end Steps

-- Runs

def outline : Outline (act (T := T) (D := D)) where
  Good := Good
  At := At
  Does := Does
  sound hs hat h := act_sound hs hat h
  stable hu hs h hd := ⟨h.1.stable hu hd, h.2.stable hu hs h.1 hd⟩

theorem outline_initial {capacity : D → Nat} (hcap : ∀ d, capacity d ≤ reservedWidth) :
    (outline (T := T)).Holds (initial capacity) := by
  refine ⟨⟨nofun, ⟨List.Pairwise.nil, nofun, nofun, nofun⟩,
    ⟨nofun, nodup_nil, fun _ => rfl, fun _ => Nat.zero_le _, nofun, nofun, nofun, nofun⟩,
    fun d => ?_, trivial⟩, fun t => ⟨⟨iff_of_false nofun nofun, fun _ => iff_of_false nofun nofun,
    nofun, nofun, nofun⟩, trivial⟩⟩
  exact {
    capacity_le := hcap d
    fresh := fun _ => rfl
    live_le := fun i hi => by simp [initial, prepared, Descriptor.isLive] at hi
    payload_length := fun _ => length_replicate
    appended := nofun
    initialized := nofun
    swept := nofun
    retiring := nofun
    released := nofun
    published := nofun
    published_phase := nofun
    published_frontier := nofun }

/-- In every schedule of any number of threads on any set of descriptors every event is
justified by those before it, and a reader that was not reset finds the bits that were
appended for its token. -/
theorem run_lifecycle {capacity : D → Nat} (hcap : ∀ d, capacity d ≤ reservedWidth)
    {schedule : List (T × Turn T D)} {cfg : Config T (Position D) (Shared T D)}
    (hrun : run act (initial capacity) schedule = some cfg) :
    Justified Lifecycle cfg.shared.trace ∧
      ∀ id d slot token, .acquired id d slot token ∈ cfg.shared.trace →
        .reset id ∉ cfg.shared.trace → ∃ bits, .appended d slot token bits ∈ cfg.shared.trace ∧
          (cfg.shared.descriptor d).payload[slot]? = some bits := by
  have hs : Good cfg.shared := (outline.run (outline_initial hcap) hrun).1
  refine ⟨hs.lifecycle, fun id d slot token hacq hreset => ?_⟩
  have hheld := (hs.readers.held_or_reset id d slot token hacq).resolve_right hreset
  obtain ⟨_, _, bits, happ⟩ := hs.readers.acquired _ hheld
  obtain ⟨_, _, _, hbits⟩ := (hs.slots d).appended slot token bits happ
  exact ⟨bits, happ, hbits fun hm => ((hs.slots d).released hm).2 _ hheld rfl⟩

end

/-- One thread publishes a range and appends to it, and another reads the slot while the
first begins to retire the range. -/
def appendReadRetire : List (Bool × Turn Bool Unit) :=
  (false, .call (.publishRangeFromStore ())) :: List.replicate 11 (false, .proceed) ++
  (false, .call (.appendRaw32 () 7)) :: List.replicate 10 (false, .proceed) ++
  (true, .call (.acquire 0x10000)) :: List.replicate 13 (true, .proceed) ++
  (false, .call (.beginRetire ())) :: List.replicate 7 (false, .proceed) ++
  [(true, .call (.rawBits32 0)), (true, .call (.reset 0)), (true, .proceed)]

local instance target32 : Target := ⟨32, Nat.le_refl 32⟩

theorem run_lifecycle_appendReadRetire :
    ∃ cfg, run act (initial fun _ => 1) appendReadRetire = some cfg ∧
      cfg.shared.trace = [.reset 0, .read 0 (some 7), .retireBegan (), .acquired 0 () 0 0x10000,
        .appended () 0 0x10000 7, .published () 0x10000, .reserved (some false) 0x10000] ∧
      Justified Lifecycle cfg.shared.trace := by
  have hmap : (run act (initial fun _ => 1) appendReadRetire).map (·.shared.trace) =
      some [.reset 0, .read 0 (some 7), .retireBegan (), .acquired 0 () 0 0x10000,
        .appended () 0 0x10000 7, .published () 0x10000, .reserved (some false) 0x10000] := by
    decide
  obtain ⟨cfg, hrun, htrace⟩ := map_eq_some_iff.mp hmap
  exact ⟨cfg, hrun, htrace, (run_lifecycle (fun _ => by decide) hrun).1⟩

end Uwvm2.Storage.CompactNumeric
