import Uwvm2.Storage.CompactLifecycle

/-!
# Steps on the shared state

What each kind of change to the shared state does to the other threads and to the
invariant: locks and leases, the fields of one descriptor, and the events that go
with them.
-/

namespace Uwvm2.Storage.CompactNumeric

open Function List

variable {T D : Type}

-- Events

def Event.descriptor? : Event T D → Option D
  | .published d _ | .appended d _ _ _ | .swept d _ | .retireBegan d | .released d => some d
  | _ => none

theorem Event.mem_cons_other {trace : List (Event T D)} (he : e.descriptor? ≠ some d)
    (he' : e'.descriptor? = some d) : e' ∈ e :: trace ↔ e' ∈ trace := by
  rw [mem_cons]
  refine or_iff_right fun heq => he ?_
  rw [← heq]
  exact he'

theorem SlotsOk.cons_other {leases : List (Lease T)} (h : SlotsOk d x leases held trace)
    (he : e.descriptor? ≠ some d) : SlotsOk d x leases held (e :: trace) := by
  have happended {i token : Nat} {bits : UInt32} :
      .appended d i token bits ∈ e :: trace ↔ .appended d i token bits ∈ trace :=
    Event.mem_cons_other he rfl
  have hpublished {first : Nat} :
      .published d first ∈ e :: trace ↔ .published d first ∈ trace := Event.mem_cons_other he rfl
  have hswept {i : Nat} : .swept d i ∈ e :: trace ↔ .swept d i ∈ trace :=
    Event.mem_cons_other he rfl
  have hretiring : .retireBegan d ∈ e :: trace ↔ .retireBegan d ∈ trace :=
    Event.mem_cons_other he rfl
  have hreleased : .released d ∈ e :: trace ↔ .released d ∈ trace := Event.mem_cons_other he rfl
  exact {
    capacity_le := h.capacity_le
    fresh := h.fresh
    live_le := h.live_le
    payload_length := by simpa only [hreleased] using h.payload_length
    appended := by simpa only [happended, hreleased] using h.appended
    initialized := by simpa only [happended] using h.initialized
    swept := by simpa only [hswept] using h.swept
    retiring := by simpa only [hretiring] using h.retiring
    released := by simpa only [hreleased] using h.released
    published := by simpa only [hpublished] using h.published
    published_phase := by simpa only [hpublished] using h.published_phase
    published_frontier := by simpa only [hpublished] using h.published_frontier }

/-- The events that reserve and publish blocks of tokens. -/
def Event.isToken : Event T D → Bool
  | .reserved _ _ | .published _ _ => true
  | _ => false

theorem TokensOk.cons_other {e : Event T D} (h : TokensOk issuer trace) (he : e.isToken = false) :
    TokensOk issuer (e :: trace) := by
  have hres : reservations (e :: trace) = reservations trace := by
    cases e with
    | reserved => cases he
    | _ => rfl
  have hpublished {d : D} {first : Nat} :
      .published d first ∈ e :: trace ↔ .published d first ∈ trace := by
    rw [mem_cons]
    exact or_iff_right fun heq => by rw [← heq] at he; cases he
  refine ⟨hres ▸ h.apart, hres ▸ h.below, fun d first hp => ?_, fun d d' first hp hp' => ?_⟩
  · obtain ⟨t, ht⟩ := h.reserved d first (hpublished.mp hp)
    exact ⟨t, mem_cons_of_mem _ ht⟩
  · exact h.unique d d' first (hpublished.mp hp) (hpublished.mp hp')

/-- The events that acquire and reset readers. -/
def Event.isReader : Event T D → Bool
  | .acquired _ _ _ _ | .reset _ => true
  | _ => false

theorem ReadersOk.cons_other [Target] [DecidableEq D] {e : Event T D}
    (h : ReadersOk readers leases held nextReader trace) (he : e.isReader = false) :
    ReadersOk readers leases held nextReader (e :: trace) := by
  have hacquired {id slot token : Nat} {d : D} :
      .acquired id d slot token ∈ e :: trace ↔ .acquired id d slot token ∈ trace := by
    rw [mem_cons]
    exact or_iff_right fun heq => by rw [← heq] at he; cases he
  have hreset {id : Nat} : .reset id ∈ e :: trace ↔ .reset id ∈ trace := by
    rw [mem_cons]
    exact or_iff_right fun heq => by rw [← heq] at he; cases he
  refine ⟨h.leased, h.nodup, h.count, h.count_le, fun r hr => ?_, ?_, ?_, ?_⟩
  · obtain ⟨hacq, hres, bits, happ⟩ := h.acquired r hr
    exact ⟨hacquired.mpr hacq, mt hreset.mp hres, bits, mem_cons_of_mem _ happ⟩
  · simpa only [hacquired] using h.lt
  · simpa only [hreset] using h.reset_lt
  · simpa only [hacquired, hreset] using h.held_or_reset

-- What a thread does

theorem Changes.refl (t : T) (s : Shared T D) (x : Descriptor T) : Changes t s x x where
  capacity := rfl
  publishLock _ _ := Iff.rfl
  page _ := ⟨rfl, rfl, rfl, rfl, fun _ h => h⟩
  frontier := Nat.le_refl _
  registry _ := ⟨rfl, fun h => h⟩
  live _ _ := rfl
  live_mono _ _ h := h
  readers := .inl (Nat.le_refl _)
  tokenBegin _ := rfl

theorem Does.refl (t : T) (s : Shared T D) : Does t s s where
  registryLock _ _ := Iff.rfl
  exclusive _ _ h := h
  leases _ _ h := h
  descriptor _ := .refl t s _
  trace _ h := h
  published _ _ h := .inl h
  retireBegan _ h := .inl h
  nextReader := Nat.le_refl _
  held _ h := .inl h

theorem Does.modify [DecidableEq D] {d : D}
    (h : Changes t s (s.descriptor d) (f (s.descriptor d))) : Does t s (s.modify d f) where
  registryLock _ _ := Iff.rfl
  exclusive _ _ h := h
  leases _ _ h := h
  descriptor d' := by
    simp only [Shared.modify]
    by_cases hd : d' = d
    · rw [hd, update_self]
      exact h
    · rw [update_of_ne hd]
      exact .refl t s _
  trace _ h := h
  published _ _ h := .inl h
  retireBegan _ h := .inl h
  nextReader := Nat.le_refl _
  held _ h := .inl h

/-- Events that no thread relies on the absence of. -/
theorem Does.log {e : Event T D} (h : Does t s s')
    (hpublished : ∀ d first, e = .published d first → .reserved (some t) first ∈ s.trace)
    (hretire : ∀ d, e = .retireBegan d → s.registryLock = some t) : Does t s (s'.log e) where
  registryLock := h.registryLock
  exclusive := h.exclusive
  leases := h.leases
  descriptor := h.descriptor
  trace e' he' := mem_cons_of_mem _ (h.trace e' he')
  published d first hp := by
    rcases mem_cons.mp hp with heq | hp
    · exact .inr (hpublished d first heq.symm)
    · exact h.published d first hp
  retireBegan d hp := by
    rcases mem_cons.mp hp with heq | hp
    · exact .inr (hretire d heq.symm)
    · exact h.retireBegan d hp
  nextReader := h.nextReader
  held := h.held

-- The slots of one descriptor

namespace SlotsOk

variable {d : D} {x : Descriptor T} {leases : List (Lease T)} {held : List (Reader D)}
  {trace : List (Event T D)}

section

variable (h : SlotsOk d x leases held trace)

include h

theorem frame (hleases : ∀ t, x.publishLock = some t → .call t ∈ leases → .call t ∈ leases')
    (hheld : ∀ r ∈ held', r.descriptor = d → r ∈ held ∨ x.phase = .published) :
    SlotsOk d x leases' held' trace := by
  refine { h with live_le := fun i hi => ?_, released := fun hr => ?_ }
  · exact (h.live_le i hi).imp_right fun ⟨heq, t, ht, hc⟩ => ⟨heq, t, ht, hleases t ht hc⟩
  · obtain ⟨hphase, hne⟩ := h.released hr
    refine ⟨hphase, fun r hm heq => ?_⟩
    rcases hheld r hm heq with hold | hpublished
    · exact hne r hold heq
    · rw [hpublished] at hphase
      exact hphase.elim nofun nofun

theorem lock (hlock : x.publishLock = none) (t : T) :
    SlotsOk d { x with publishLock := some t } leases held trace := by
  refine { h with live_le := fun i hi => (h.live_le i hi).imp_right fun ⟨_, u, hu, _⟩ => ?_ }
  cases hlock.symm.trans hu

theorem unlock (hquiet : ∀ i, x.isLive i → i < x.initializedFrontier) :
    SlotsOk d { x with publishLock := none } leases held trace :=
  { h with live_le := fun i hi => .inl (hquiet i hi) }

theorem not_appended (hphase : x.phase = .prepared) :
    .appended d i token bits ∉ trace := fun hm => by
  have := (h.appended i token bits hm).1
  rw [h.fresh hphase] at this
  exact absurd this (Nat.not_lt_zero i)

theorem not_released (hclosing : x.phase ≠ .closing) (hretired : x.phase ≠ .retired) :
    .released d ∉ trace := fun hr =>
  (h.released hr).1.elim hclosing hretired

theorem link (hphase : x.phase = .prepared) (hpending : x.pendingNode = true) (first : Nat) :
    SlotsOk d { x with tokenBegin := first, pendingNode := false, registeredNode := true }
      leases held (.published d first :: trace) where
  capacity_le := h.capacity_le
  fresh := h.fresh
  live_le := h.live_le
  payload_length hr := h.payload_length fun hm => hr (mem_cons_of_mem _ hm)
  appended i token bits hm := by
    rcases mem_cons.mp hm with heq | hm
    · cases heq
    · exact absurd hm (h.not_appended hphase)
  initialized i hi := by
    rw [show Descriptor.initializedFrontier _ = 0 from h.fresh hphase] at hi
    exact absurd hi (Nat.not_lt_zero i)
  swept i hm := h.swept i ((mem_cons.mp hm).resolve_left nofun)
  retiring hm := absurd hphase (h.retiring ((mem_cons.mp hm).resolve_left nofun)).2
  released hm := h.released ((mem_cons.mp hm).resolve_left nofun)
  published first' hm := by
    rcases mem_cons.mp hm with heq | hm
    · cases heq
      exact ⟨rfl, rfl⟩
    · cases hpending.symm.trans (h.published first' hm).2
  published_phase hp := by cases hphase.symm.trans hp
  published_frontier _ := mem_cons_self

theorem setPublished (hphase : x.phase = .prepared) (hm : .published d x.tokenBegin ∈ trace) :
    SlotsOk d { x with phase := .published } leases held trace := by
  refine { h with
    fresh := nofun
    retiring := fun hr => absurd hphase (h.retiring hr).2
    released := fun hr => absurd hr (h.not_released ?_ ?_)
    published_phase := fun _ => hm }
  · rw [hphase]
    exact nofun
  · rw [hphase]
    exact nofun

theorem store (hfrontier : x.initializedFrontier = index) (bits : UInt32) :
    SlotsOk d { x with payload := x.payload.set index bits } leases held trace := by
  refine { h with
    payload_length := fun hr => length_set.trans (h.payload_length hr)
    appended := fun i token bits hm => ?_ }
  obtain ⟨hlt, hcap, htoken, hbits⟩ := h.appended i token bits hm
  refine ⟨hlt, hcap, htoken, fun hr => ?_⟩
  rw [getElem?_set_ne (by omega)]
  exact hbits hr

end

end SlotsOk

-- Live bits

theorem isLive_setBit {x : Descriptor T} :
    Descriptor.isLive { x with live := setBit x.live slot (x.live (slot / 64)) } i =
      (x.isLive i || decide (i = slot)) := by
  unfold Descriptor.isLive setBit
  by_cases hw : i / 64 = slot / 64
  · dsimp only
    rw [hw, update_self, BitVec.getLsbD_or, BitVec.getLsbD_shiftLeft]
    have heq : i = slot ↔ i % 64 = slot % 64 := by omega
    by_cases h : i % 64 = slot % 64
    · simp [heq, h, Nat.mod_lt]
    · simp [heq, h]
      omega
  · dsimp only
    rw [update_of_ne hw]
    have : i ≠ slot := fun heq => hw (heq ▸ rfl)
    simp [this]

theorem mem_slotsOf : i ∈ slotsOf word bits ↔ i / 64 = word ∧ bits.getLsbD (i % 64) = true := by
  simp only [slotsOf, mem_map, mem_filter, mem_range]
  constructor
  · rintro ⟨j, ⟨hj, hb⟩, rfl⟩
    have hdiv : (64 * word + j) / 64 = word := by omega
    have hmod : (64 * word + j) % 64 = j := by omega
    exact ⟨hdiv, by rwa [hmod]⟩
  · rintro ⟨rfl, hb⟩
    exact ⟨i % 64, ⟨Nat.mod_lt _ (by decide), hb⟩, Nat.div_add_mod i 64⟩

theorem isLive_sweep {x : Descriptor T} :
    Descriptor.isLive { x with live := update x.live word (x.live word &&& x.marks word) } i =
      (x.isLive i && !decide (i ∈ slotsOf word (x.live word &&& ~~~x.marks word))) := by
  unfold Descriptor.isLive
  dsimp only
  by_cases hw : i / 64 = word
  · subst hw
    have hbit : i % 64 < 64 := Nat.mod_lt _ (by decide)
    rw [update_self, BitVec.getLsbD_and]
    cases hl : (x.live (i / 64)).getLsbD (i % 64) with
    | false => simp
    | true => simp [mem_slotsOf, hl, hbit]
  · rw [update_of_ne hw]
    simp [mem_slotsOf, hw]

namespace SlotsOk

variable {d : D} {x : Descriptor T} {leases : List (Lease T)} {held : List (Reader D)}
  {trace : List (Event T D)}

section

variable (h : SlotsOk d x leases held trace)

include h

theorem setLive {index : Nat} (hfrontier : x.initializedFrontier = index)
    (hlock : x.publishLock = some t) (hlease : .call t ∈ leases) :
    SlotsOk d { x with live := setBit x.live index (x.live (index / 64)) } leases held trace := by
  refine { h with live_le := fun i hi => ?_, swept := fun i hm => ?_ }
  · rw [isLive_setBit, Bool.or_eq_true, decide_eq_true_eq] at hi
    rcases hi with hi | rfl
    · exact h.live_le i hi
    · exact .inr ⟨hfrontier.symm, t, hlock, hlease⟩
  · obtain ⟨hlt, hdead⟩ := h.swept i hm
    refine ⟨hlt, ?_⟩
    rw [isLive_setBit, hdead, Bool.false_or, decide_eq_false_iff_not]
    omega

theorem publishSlot (hphase : x.phase = .published) (hfrontier : x.initializedFrontier = index)
    (hcap : index < x.capacity) (hbits : x.payload[index]? = some bits) :
    SlotsOk d { x with initializedFrontier := index + 1 } leases held
      (.appended d index (x.tokenBegin + index) bits :: trace) where
  capacity_le := h.capacity_le
  fresh hp := by cases hphase.symm.trans hp
  live_le i hi := by
    rcases h.live_le i hi with hlt | ⟨heq, _⟩
    · exact .inl (show i < index + 1 by omega)
    · exact .inl (show i < index + 1 by omega)
  payload_length hr := h.payload_length fun hm => hr (mem_cons_of_mem _ hm)
  appended i token bits' hm := by
    rcases mem_cons.mp hm with heq | hm
    · cases heq
      exact ⟨Nat.lt_succ_self _, hcap, rfl, fun _ => hbits⟩
    · obtain ⟨hlt, hcap', htoken, hbits'⟩ := h.appended i token bits' hm
      exact ⟨show i < index + 1 by omega, hcap', htoken, fun hr =>
        hbits' fun hm => hr (mem_cons_of_mem _ hm)⟩
  initialized i hi := by
    by_cases heq : i = index
    · subst heq
      exact ⟨bits, mem_cons_self⟩
    · have hlt : i < index + 1 := hi
      obtain ⟨bits', hm⟩ := h.initialized i (by omega)
      exact ⟨bits', mem_cons_of_mem _ hm⟩
  swept i hm := by
    obtain ⟨hlt, hdead⟩ := h.swept i ((mem_cons.mp hm).resolve_left nofun)
    exact ⟨show i < index + 1 by omega, hdead⟩
  retiring hm := h.retiring ((mem_cons.mp hm).resolve_left nofun)
  released hm := h.released ((mem_cons.mp hm).resolve_left nofun)
  published first hm := h.published first ((mem_cons.mp hm).resolve_left nofun)
  published_phase hp := mem_cons_of_mem _ (h.published_phase hp)
  published_frontier _ := mem_cons_of_mem _ (h.published_phase hphase)

theorem sweepWord (hquiet : ∀ i, x.isLive i → i < x.initializedFrontier) (word : Nat) :
    SlotsOk d { x with live := update x.live word (x.live word &&& x.marks word) } leases held
      ((slotsOf word (x.live word &&& ~~~x.marks word)).map (.swept d) ++ trace) := by
  have hother {e : Event T D} (he : ∀ i, e ≠ .swept d i) :
      e ∈ (slotsOf word (x.live word &&& ~~~x.marks word)).map (Event.swept d) ++ trace ↔
        e ∈ trace := by
    rw [mem_append, mem_map]
    exact or_iff_right fun ⟨i, _, heq⟩ => he i heq.symm
  have happended {i token : Nat} {bits : UInt32} := hother (e := .appended d i token bits) nofun
  have hpublished {first : Nat} := hother (e := .published d first) nofun
  have hretiring := hother (e := .retireBegan d) nofun
  have hreleased := hother (e := .released d) nofun
  refine ⟨h.capacity_le, h.fresh, fun i hi => ?_, ?_, ?_, ?_, fun i hm => ?_, ?_, ?_, ?_, ?_, ?_⟩
  · rw [isLive_sweep, Bool.and_eq_true] at hi
    exact h.live_le i hi.1
  · simpa only [hreleased] using h.payload_length
  · simpa only [happended, hreleased] using h.appended
  · simpa only [happended] using h.initialized
  · rw [isLive_sweep]
    rcases mem_append.mp hm with hm | hm
    · obtain ⟨j, hj, heq⟩ := mem_map.mp hm
      cases heq
      have hlive : x.isLive i = true := by
        obtain ⟨rfl, hb⟩ := mem_slotsOf.mp hj
        rw [BitVec.getLsbD_and, Bool.and_eq_true] at hb
        exact hb.1
      exact ⟨hquiet i hlive, by simp [hj]⟩
    · obtain ⟨hlt, hdead⟩ := h.swept i hm
      exact ⟨hlt, by rw [hdead, Bool.false_and]⟩
  · simpa only [hretiring] using h.retiring
  · simpa only [hreleased] using h.released
  · simpa only [hpublished] using h.published
  · simpa only [hpublished] using h.published_phase
  · simpa only [hpublished] using h.published_frontier

theorem setClosing : SlotsOk d { x with phase := .closing } leases held trace :=
  { h with
    fresh := nofun
    retiring := fun _ => ⟨.inr nofun, nofun⟩
    released := fun hr => ⟨.inl rfl, (h.released hr).2⟩
    published_phase := nofun }

theorem setRetired : SlotsOk d { x with phase := .retired } leases held trace :=
  { h with
    fresh := nofun
    retiring := fun _ => ⟨.inr nofun, nofun⟩
    released := fun hr => ⟨.inr rfl, (h.released hr).2⟩
    published_phase := nofun }

theorem unlink : SlotsOk d { x with registeredNode := false } leases held trace :=
  { h with retiring := fun hr => ⟨.inl rfl, (h.retiring hr).2⟩ }

theorem retireBegan
    (hretiring : (x.registeredNode = false ∨ x.phase ≠ .published) ∧ x.phase ≠ .prepared) :
    SlotsOk d x leases held (.retireBegan d :: trace) where
  capacity_le := h.capacity_le
  fresh := h.fresh
  live_le := h.live_le
  payload_length hr := h.payload_length fun hm => hr (mem_cons_of_mem _ hm)
  appended i token bits hm := by
    obtain ⟨hlt, hcap, htoken, hbits⟩ :=
      h.appended i token bits ((mem_cons.mp hm).resolve_left nofun)
    exact ⟨hlt, hcap, htoken, fun hr => hbits fun hm => hr (mem_cons_of_mem _ hm)⟩
  initialized i hi := by
    obtain ⟨bits, hm⟩ := h.initialized i hi
    exact ⟨bits, mem_cons_of_mem _ hm⟩
  swept i hm := h.swept i ((mem_cons.mp hm).resolve_left nofun)
  retiring _ := hretiring
  released hm := h.released ((mem_cons.mp hm).resolve_left nofun)
  published first hm := h.published first ((mem_cons.mp hm).resolve_left nofun)
  published_phase hp := mem_cons_of_mem _ (h.published_phase hp)
  published_frontier hp := mem_cons_of_mem _ (h.published_frontier hp)

theorem release (hphase : x.phase = .closing) (hheld : ∀ r ∈ held, r.descriptor ≠ d) :
    SlotsOk d { x with payload := [] } leases held (.released d :: trace) where
  capacity_le := h.capacity_le
  fresh := h.fresh
  live_le := h.live_le
  payload_length hr := absurd mem_cons_self hr
  appended i token bits hm := by
    obtain ⟨hlt, hcap, htoken, _⟩ :=
      h.appended i token bits ((mem_cons.mp hm).resolve_left nofun)
    exact ⟨hlt, hcap, htoken, fun hr => absurd mem_cons_self hr⟩
  initialized i hi := by
    obtain ⟨bits, hm⟩ := h.initialized i hi
    exact ⟨bits, mem_cons_of_mem _ hm⟩
  swept i hm := h.swept i ((mem_cons.mp hm).resolve_left nofun)
  retiring hm := h.retiring ((mem_cons.mp hm).resolve_left nofun)
  released _ := ⟨.inl hphase, hheld⟩
  published first hm := h.published first ((mem_cons.mp hm).resolve_left nofun)
  published_phase hp := mem_cons_of_mem _ (h.published_phase hp)
  published_frontier hp := mem_cons_of_mem _ (h.published_frontier hp)

end

end SlotsOk

end Uwvm2.Storage.CompactNumeric
