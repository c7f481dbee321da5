import Uwvm2.Lib.Tally
import Uwvm2.Thread.CollectionPauseDomain

/-!
# All participants are parked while the callback runs

The counters count the slots, so that they agree only if every participant is parked. A
slot is written by its own thread only, except that closing the domain unparks the
initiator; and a parked participant keeps the roots it has published.
-/

namespace Uwvm2.Thread.CollectionPauseDomain

open Function Option
open RelyGuarantee

variable {T O C : Type} {n : Nat} {t : T} {s s' : Domain T O C n} {i : Fin n}

-- The outline

def Slot.enrolled (e : Slot T C) : Bool := e.id != 0#64

theorem Slot.enrolled_iff {e : Slot T C} : e.enrolled = true ↔ e.id ≠ 0#64 := bne_iff_ne

def Initiates (s : Domain T O C n) (i : Fin n) : Prop :=
  s.initiatorId ≠ 0#64 ∧ s.initiatorIndex = some i

/-- The slots match the counters and what the participants are doing. -/
structure Consistent (s : Domain T O C n) : Prop where
  active : s.active = tally Slot.enrolled s.slots
  parked : s.parked = tally Slot.parked s.slots
  enrolled : ∀ i, (s.slots i).parked = true → (s.slots i).id ≠ 0#64
  free : ∀ i, (s.slots i).id = 0#64 → (s.slots i).nativeOwner = none
  context : ∀ i, (s.slots i).parked = true → (s.slots i).rootContext = s.context i
  initiator : s.initiatorId ≠ 0#64 → ∃ i, s.initiatorIndex = some i ∧
    (s.slots i).id = s.initiatorId ∧ (s.slots i).parked = true ∧ (s.slots i).blocking = false

/-- Tickets have serials of their own. -/
structure Numbered (s : Domain T O C n) : Prop where
  serial_le : ∀ ticket k, s.pauseTickets ticket = some k → k.serial ≤ s.serial
  unique : ∀ ticket ticket' k k', s.pauseTickets ticket = some k →
    s.pauseTickets ticket' = some k' → k.serial = k'.serial → ticket = ticket'

structure Good (s : Domain T O C n) : Prop where
  consistent : Consistent s
  numbered : Numbered s
  requested : s.initiatorId ≠ 0#64 → s.requested = true
  stopped : s.mutex ≠ none → s.parked = s.active

variable [DecidableEq T]

/-- What a thread knows at its position: of its slots, only one that it polls with is parked
without a blocking scope or a request of its own. -/
structure At (t : T) (p : Position O n) (s : Domain T O C n) : Prop where
  idle : ∀ i, (s.slots i).nativeOwner = some t → (s.slots i).parked = true →
    (s.slots i).blocking = true ∨ Initiates s i ∨ p = .pollWait i
  polling : ∀ i, p = .pollWait i → (s.slots i).nativeOwner = some t ∧ (s.slots i).parked = true ∧
    (s.slots i).blocking = false ∧ ¬ Initiates s i
  finishing : ∀ i, p = .finishWait i → (s.slots i).nativeOwner = some t ∧
    (s.slots i).parked = true ∧ (s.slots i).blocking = true
  committing : ∀ ticket, p = .committing ticket → s.mutex = some t ∧ current t s ticket = true

structure Does (t : T) (s s' : Domain T O C n) : Prop where
  slot : ∀ i u, u ≠ t → (s.slots i).nativeOwner = some u →
    (s'.slots i = s.slots i ∧ (Initiates s' i ↔ Initiates s i)) ∨
    (Initiates s i ∧ ¬ Initiates s' i ∧ (s'.slots i).nativeOwner = some u ∧
      (s'.slots i).parked = false)
  owner : ∀ i u, u ≠ t → (s'.slots i).nativeOwner = some u → (s.slots i).nativeOwner = some u
  mutex : ∀ u, u ≠ t → s.mutex = some u →
    s'.mutex = some u ∧ s'.serial = s.serial ∧ s'.requested = s.requested
  ticket : ∀ ticket k, s.pauseTickets ticket = some k → k.nativeOwner ≠ t →
    s'.pauseTickets ticket = some k

omit [DecidableEq T] in
theorem Does.refl (t : T) (s : Domain T O C n) : Does t s s where
  slot _ _ _ _ := .inl ⟨rfl, .rfl⟩
  owner _ _ _ h := h
  mutex _ _ h := ⟨h, rfl, rfl⟩
  ticket _ _ h _ := h

omit [DecidableEq T] in
theorem Does.trans (h : Does t s s₁) (h' : Does t s₁ s') : Does t s s' where
  slot i u hu hold := by
    rcases h.slot i u hu hold with ⟨hsame, hiff⟩ | ⟨hinit, hnot, hold', hparked⟩
    · rw [← hsame] at hold ⊢
      rw [← hiff]
      exact h'.slot i u hu hold
    · rcases h'.slot i u hu hold' with ⟨hsame', hiff'⟩ | ⟨hinit', -⟩
      · exact .inr ⟨hinit, hiff'.not.mpr hnot, hsame' ▸ hold', hsame' ▸ hparked⟩
      · exact absurd hinit' hnot
  owner i u hu hnew := h.owner i u hu (h'.owner i u hu hnew)
  mutex u hu hheld := by
    obtain ⟨hm, hserial, hrequested⟩ := h.mutex u hu hheld
    obtain ⟨hm', hserial', hrequested'⟩ := h'.mutex u hu hm
    exact ⟨hm', hserial'.trans hserial, hrequested'.trans hrequested⟩
  ticket ticket k hk hne := h'.ticket ticket k (h.ticket ticket k hk hne) hne

theorem At.stable (hu : u ≠ t) (hs : Good s) (h : At u p s) (hd : Does t s s') : At u p s' where
  idle i howner hparked := by
    have hold := hd.owner i u hu howner
    rcases hd.slot i u hu hold with ⟨hsame, hinit⟩ | ⟨-, -, -, hunparked⟩
    · rw [hsame] at hparked ⊢
      rw [hinit]
      exact h.idle i hold hparked
    · cases hunparked.symm.trans hparked
  polling i hp := by
    obtain ⟨hold, hparked, hblocking, hinit⟩ := h.polling i hp
    rcases hd.slot i u hu hold with ⟨hsame, hiff⟩ | ⟨hinit', -⟩
    · rw [hsame, hiff]
      exact ⟨hold, hparked, hblocking, hinit⟩
    · exact absurd hinit' hinit
  finishing i hp := by
    obtain ⟨hold, hparked, hblocking⟩ := h.finishing i hp
    rcases hd.slot i u hu hold with ⟨hsame, -⟩ | ⟨⟨hid, hindex⟩, -⟩
    · rw [hsame]
      exact ⟨hold, hparked, hblocking⟩
    · -- an initiator is not in a blocking scope
      obtain ⟨j, hj, -, -, hnot⟩ := hs.consistent.initiator hid
      cases hindex.symm.trans hj
      cases hblocking.symm.trans hnot
  committing ticket hp := by
    obtain ⟨hmutex, hcurrent⟩ := h.committing ticket hp
    obtain ⟨hmutex', hserial, hrequested⟩ := hd.mutex u hu hmutex
    refine ⟨hmutex', ?_⟩
    unfold current at hcurrent ⊢
    split at hcurrent
    next k hk =>
      have hk' := hd.ticket ticket k hk (by
        have howner := (of_decide_eq_true hcurrent).1
        rwa [howner])
      rw [hk', hserial, hrequested]
      exact hcurrent
    next => cases hcurrent

structure Fits (t : T) (s : Domain T O C n) (p' : Position O n) (s' : Domain T O C n) : Prop where
  does : Does t s s'
  good : Good s'
  at_ : At t p' s'

theorem Fits.after (h : Fits t s₁ p' s') (hd : Does t s s₁) :
    Fits t s p' s' := ⟨hd.trans h.does, h.good, h.at_⟩

-- What the outline speaks of

/-- The state without the fields that the outline does not speak of. -/
def Domain.core (s : Domain T O C n) : Domain T O C n :=
  { s with
    admissionWaiters := 0, tickets := 0, nextParticipant := 0#64, closed := false
    participants := fun _ => none, blockingScopes := fun _ => none, terminated := false }

theorem Fits.congr (h : Fits t s p' s₁) (hcore : s'.core = s₁.core) : Fits t s p' s' := by
  obtain ⟨hd, hg, ha⟩ := h
  cases s'
  cases s₁
  cases hcore
  exact ⟨{ hd with }, ⟨{ hg.consistent with }, { hg.numbered with }, hg.requested, hg.stopped⟩,
    { ha with }⟩

def Idle (t : T) (s : Domain T O C n) : Prop :=
  ∀ i, (s.slots i).nativeOwner = some t → (s.slots i).parked = true →
    (s.slots i).blocking = true ∨ Initiates s i

def Position.plain : Position O n → Bool
  | .pollWait _ | .finishWait _ | .committing _ => false
  | _ => true

section Plain

variable {p p' : Position O n}

theorem At.isIdle (h : At t p s) (hp : ∀ i, p ≠ .pollWait i) : Idle t s := fun i howner hparked =>
  (h.idle i howner hparked).imp_right fun hor => hor.resolve_right (hp i)

theorem At.of_idle (h : Idle t s) (hp : p.plain = true) : At t p s where
  idle i howner hparked := (h i howner hparked).imp_right .inl
  polling i heq := by
    subst heq
    cases hp
  finishing i heq := by
    subst heq
    cases hp
  committing ticket heq := by
    subst heq
    cases hp

theorem Fits.stay (hs : Good s) (h : Idle t s) (hp : p'.plain = true) : Fits t s p' s :=
  ⟨.refl t s, hs, .of_idle h hp⟩

end Plain

-- Writing a slot

omit [DecidableEq T] in
theorem Initiates.slot (hs : Consistent s) (h : Initiates s i) :
    (s.slots i).id = s.initiatorId ∧ (s.slots i).parked = true ∧ (s.slots i).blocking = false := by
  obtain ⟨j, hj, hslot⟩ := hs.initiator h.1
  cases h.2.symm.trans hj
  exact hslot

omit [DecidableEq T] in
theorem not_initiates (hs : Consistent s) (h : (s.slots i).parked = false) : ¬ Initiates s i :=
  fun hi => nomatch h.symm.trans (Initiates.slot hs hi).2.1

/-- The slot `i` may become `e`, with new counters. -/
structure Writes (s : Domain T O C n) (i : Fin n) (e : Slot T C) (active parked : Nat) : Prop where
  active : active + (s.slots i).enrolled.toNat = s.active + e.enrolled.toNat
  parked : parked + (s.slots i).parked.toNat = s.parked + e.parked.toNat
  enrolled : e.parked = true → e.id ≠ 0#64
  free : e.id = 0#64 → e.nativeOwner = none
  context : e.parked = true → e.rootContext = s.context i
  initiator : ¬ Initiates s i

section Write

variable {e : Slot T C} {active parked : Nat}

section

omit [DecidableEq T]

theorem Writes.consistent (h : Writes s i e active parked) (hs : Consistent s) :
    Consistent { s.setSlot i e with active, parked } := by
  constructor <;> dsimp only [Domain.setSlot]
  case active =>
    have hcount : tally Slot.enrolled (update s.slots i e) + (s.slots i).enrolled.toNat =
        tally Slot.enrolled s.slots + e.enrolled.toNat := Tally.update
    rw [← hs.active, ← h.active] at hcount
    exact (Nat.add_right_cancel hcount).symm
  case parked =>
    have hcount : tally Slot.parked (update s.slots i e) + (s.slots i).parked.toNat =
        tally Slot.parked s.slots + e.parked.toNat := Tally.update
    rw [← hs.parked, ← h.parked] at hcount
    exact (Nat.add_right_cancel hcount).symm
  case enrolled =>
    rw [forall_update_iff s.slots fun _ e => e.parked = true → e.id ≠ 0#64]
    exact ⟨h.enrolled, fun j _ => hs.enrolled j⟩
  case free =>
    rw [forall_update_iff s.slots fun _ e => e.id = 0#64 → e.nativeOwner = none]
    exact ⟨h.free, fun j _ => hs.free j⟩
  case context =>
    rw [forall_update_iff s.slots fun j e => e.parked = true → e.rootContext = s.context j]
    exact ⟨h.context, fun j _ => hs.context j⟩
  case initiator =>
    intro hid
    obtain ⟨j, hindex, hslot⟩ := hs.initiator hid
    have hj : j ≠ i := fun heq => h.initiator ⟨hid, heq ▸ hindex⟩
    exact ⟨j, hindex, by rwa [update_of_ne hj]⟩

theorem Writes.good (h : Writes s i e active parked) (hs : Good s) (hmutex : s.mutex = none) :
    Good { s.setSlot i e with active, parked } :=
  ⟨h.consistent hs.consistent, { hs.numbered with }, hs.requested, fun h => absurd hmutex h⟩

theorem only_owner (h : (s.slots i).nativeOwner = some t) (u : T)
    (hu : (s.slots i).nativeOwner = some u) : u = t := some.inj (hu.symm.trans h)

/-- A thread takes a free mutex for a section that writes no slot. -/
theorem Does.free (hmutex : s.mutex = none) (hslots : s'.slots = s.slots)
    (hinit : ∀ i, Initiates s' i ↔ Initiates s i)
    (hticket : ∀ ticket k, s.pauseTickets ticket = some k → s'.pauseTickets ticket = some k) :
    Does t s s' where
  slot i _ _ _ := .inl ⟨congrFun hslots i, hinit i⟩
  owner _ _ _ h := hslots ▸ h
  mutex _ _ hheld := by cases hmutex.symm.trans hheld
  ticket ticket k hk _ := hticket ticket k hk

/-- A thread writes a slot that no other thread has. -/
theorem Does.write (hmutex : s.mutex = none) (hslots : s'.slots = update s.slots i e)
    (howner : ∀ u, (s.slots i).nativeOwner = some u → u = t)
    (he : ∀ u, e.nativeOwner = some u → u = t)
    (hinit : ∀ j, j ≠ i → (Initiates s' j ↔ Initiates s j))
    (hticket : ∀ ticket k, s.pauseTickets ticket = some k → s'.pauseTickets ticket = some k) :
    Does t s s' where
  slot j u hu hold := by
    have hj : j ≠ i := fun heq => hu (howner u (heq ▸ hold))
    exact .inl ⟨by rw [hslots, update_of_ne hj], hinit j hj⟩
  owner j u hu hnew := by
    have hj : j ≠ i := by
      rintro rfl
      rw [hslots, update_self] at hnew
      exact hu (he u hnew)
    rwa [hslots, update_of_ne hj] at hnew
  mutex u _ hheld := by cases hmutex.symm.trans hheld
  ticket ticket k hk _ := hticket ticket k hk

theorem Idle.write (hidle : ∀ j, j ≠ i → (s.slots j).nativeOwner = some t →
      (s.slots j).parked = true → (s.slots j).blocking = true ∨ Initiates s j)
    (he : e.parked = true → e.blocking = true) : Idle t { s.setSlot i e with active, parked } := by
  intro j hj hp
  by_cases hji : j = i
  · subst hji
    simp only [Domain.setSlot, update_self] at hp ⊢
    exact .inl (he hp)
  · simp only [Domain.setSlot, update_of_ne hji] at hj hp ⊢
    exact hidle j hji hj hp

end

/-- A slot is written that is not parked by a poll afterwards. -/
theorem Fits.write (hs : Good s) (hmutex : s.mutex = none) (h : Writes s i e active parked)
    (howner : ∀ u, (s.slots i).nativeOwner = some u → u = t)
    (he : ∀ u, e.nativeOwner = some u → u = t)
    (hidle : ∀ j, j ≠ i → (s.slots j).nativeOwner = some t →
      (s.slots j).parked = true → (s.slots j).blocking = true ∨ Initiates s j)
    (hblocking : e.parked = true → e.blocking = true) :
    Fits t s .outside { s.setSlot i e with active, parked } :=
  ⟨.write hmutex rfl howner he (fun _ _ => .rfl) fun _ _ h => h, h.good hs hmutex,
    .of_idle (.write hidle hblocking) rfl⟩

end Write

/-- The slot of a participant that parks with its roots. -/
def parkedSlot (s : Domain T O C n) (i : Fin n) (blocking : Bool) : Slot T C :=
  { s.slots i with rootContext := s.context i, parked := true, blocking }

/-- The slot of a participant that goes on. -/
def unparkedSlot (s : Domain T O C n) (i : Fin n) (blocking : Bool) : Slot T C :=
  { s.slots i with blocking, parked := false, rootContext := none }

omit [DecidableEq T] in
theorem Writes.park (hs : Consistent s) (hid : (s.slots i).id ≠ 0#64)
    (hparked : (s.slots i).parked = false) (blocking : Bool) :
    Writes s i (parkedSlot s i blocking) s.active (s.parked + 1) where
  active := rfl
  parked := by rw [hparked]; rfl
  enrolled _ := hid
  free := hs.free i
  context _ := rfl
  initiator := not_initiates hs hparked

omit [DecidableEq T] in
theorem Writes.unpark (hs : Consistent s) (hparked : (s.slots i).parked = true)
    (hinit : ¬ Initiates s i) (blocking : Bool) :
    Writes s i (unparkedSlot s i blocking) s.active (s.parked - 1) where
  active := rfl
  parked := by
    have hpos : 0 < tally Slot.parked s.slots := Tally.pos hparked
    rw [hparked]
    exact Nat.sub_add_cancel (hs.parked ▸ hpos)
  enrolled := nofun
  free := hs.free i
  context := nofun
  initiator := hinit

section Slots

variable (hs : Good s) (hmutex : s.mutex = none) (howner : (s.slots i).nativeOwner = some t)
include hs hmutex howner

theorem Fits.polls (hidle : Idle t s) (hid : (s.slots i).id ≠ 0#64)
    (hparked : (s.slots i).parked = false) (hblocking : (s.slots i).blocking = false) :
    Fits t s (.pollWait i)
      { s.setSlot i (parkedSlot s i (s.slots i).blocking) with parked := s.parked + 1 } := by
  refine ⟨.write hmutex rfl (only_owner howner)
      (only_owner howner) (fun _ _ => .rfl) fun _ _ h => h,
    (Writes.park hs.consistent hid hparked _).good hs hmutex, fun j hj hp => ?_, fun j hj => ?_,
    nofun, nofun⟩
  · by_cases hji : j = i
    · exact .inr (.inr (by rw [hji]))
    · simp only [Domain.setSlot, update_of_ne hji] at hj hp ⊢
      exact (hidle j hj hp).imp_right .inl
  · obtain rfl : i = j := by injection hj
    simp only [Domain.setSlot, update_self, parkedSlot]
    have hinit := not_initiates hs.consistent hparked
    exact ⟨howner, trivial, hblocking, hinit⟩

theorem Fits.parks (hidle : Idle t s) (hid : (s.slots i).id ≠ 0#64)
    (hparked : (s.slots i).parked = false) :
    Fits t s .outside { s.setSlot i (parkedSlot s i true) with parked := s.parked + 1 } :=
  .write hs hmutex (.park hs.consistent hid hparked true)
    (only_owner howner)
    (only_owner howner) (fun j _ => hidle j) fun _ => rfl

theorem Fits.unparks (hidle : ∀ j, j ≠ i → (s.slots j).nativeOwner = some t →
      (s.slots j).parked = true → (s.slots j).blocking = true ∨ Initiates s j)
    (hparked : (s.slots i).parked = true) (hinit : ¬ Initiates s i) (blocking : Bool) :
    Fits t s .outside (unpark s i blocking) :=
  .write hs hmutex (.unpark hs.consistent hparked hinit blocking)
    (only_owner howner)
    (only_owner howner) hidle nofun

end Slots

-- Requests

section Requests

omit [DecidableEq T] in
theorem Consistent.cancels (hs : Consistent s) (h : Initiates s i) (blocking : Bool) :
    Consistent { unpark s i blocking with initiatorId := 0#64, requested := false } := by
  have hinit : ¬ Initiates { s with initiatorId := 0#64 } i := fun h => h.1 rfl
  have hs₀ : Consistent { s with initiatorId := 0#64 } :=
    { hs with initiator := fun h => absurd rfl h }
  exact { (Writes.unpark hs₀ (Initiates.slot hs h).2.1 hinit blocking).consistent hs₀ with }

omit [DecidableEq T] in
theorem cancelLocked_cases (s : Domain T O C n) : (cancelLocked s = s.terminate) ∨
    (s.initiatorId = 0#64 ∧ cancelLocked s = { s with requested := false }) ∨
    ∃ i, Initiates s i ∧ cancelLocked s =
      { unpark s i (s.slots i).blocking with initiatorId := 0#64, requested := false } := by
  fun_cases cancelLocked s with
  | case1 h => exact .inr (.inl ⟨h, rfl⟩)
  | case2 | case3 => exact .inl rfl
  | case4 h i hi => exact .inr (.inr ⟨i, ⟨h, hi⟩, rfl⟩)

theorem Fits.cancels (hs : Good s) (hmutex : s.mutex = none) (hidle : Idle t s) :
    Fits t s .outside (cancelLocked s) := by
  rcases cancelLocked_cases s with heq | ⟨h, heq⟩ | ⟨i, h, heq⟩
  · rw [heq]
    exact (Fits.stay hs hidle rfl).congr rfl
  · rw [heq]
    exact ⟨.free hmutex rfl (fun _ => .rfl) fun _ _ h => h,
      ⟨{ hs.consistent with }, { hs.numbered with }, fun h' => absurd h h', fun h =>
        absurd hmutex h⟩,
      .of_idle hidle rfl⟩
  · rw [heq]
    have hnot (j : Fin n) : ¬ Initiates
        { unpark s i (s.slots i).blocking with initiatorId := 0#64, requested := false } j :=
      fun hj => hj.1 rfl
    have hother {j : Fin n} (hj : j ≠ i) : ¬ Initiates s j := fun hj' =>
      hj (some.inj (hj'.2.symm.trans h.2))
    have hslot {j : Fin n} (hj : j ≠ i) : (unpark s i (s.slots i).blocking).slots j = s.slots j :=
      update_of_ne hj _ _
    have hself : (unpark s i (s.slots i).blocking).slots i =
        unparkedSlot s i (s.slots i).blocking := update_self _ _ _
    refine ⟨⟨fun j u _ hu => ?_, fun j u _ hu => ?_,
        fun _ _ hheld => (nomatch hmutex.symm.trans hheld), fun _ _ h _ => h⟩,
      ⟨hs.consistent.cancels h _, { hs.numbered with }, fun h' => absurd rfl h',
        fun h => absurd hmutex h⟩, .of_idle (fun j hj hp => ?_) rfl⟩
    · by_cases hj : j = i
      · subst hj
        exact .inr ⟨h, hnot j, by rw [hself]; exact hu, by rw [hself]; rfl⟩
      · exact .inl ⟨hslot hj, iff_of_false (hnot j) (hother hj)⟩
    · by_cases hj : j = i
      · subst hj
        rw [hself] at hu
        exact hu
      · rwa [hslot hj] at hu
    · by_cases hj' : j = i
      · subst hj'
        rw [hself] at hp
        cases hp
      · rw [hslot hj'] at hj hp ⊢
        exact .inl ((hidle j hj hp).resolve_right (hother hj'))

variable [DecidableEq O] {ticket : O} {k : PauseTicket T}

section

omit [DecidableEq T]

theorem grant_pauseTickets_of_ne (h : ticket' ≠ ticket) :
    (grant t s ticket).pauseTickets ticket' = s.pauseTickets ticket' := update_of_ne h _ _

theorem Numbered.grant (hs : Numbered s) : Numbered (grant t s ticket) := by
  -- the new serial is larger than all before
  have hcases {ticket' : O} {k' : PauseTicket T}
      (h : update s.pauseTickets ticket (some ⟨s.serial + 1, t⟩) ticket' = some k') :
      (ticket' = ticket ∧ k'.serial = s.serial + 1) ∨
        (s.pauseTickets ticket' = some k' ∧ k'.serial ≤ s.serial) := by
    rw [update_apply] at h
    split_ifs at h with heq
    · cases h
      exact .inl ⟨heq, rfl⟩
    · exact .inr ⟨h, hs.serial_le ticket' k' h⟩
  refine ⟨fun ticket' k' hk' => ?_, fun ticket₁ ticket₂ k₁ k₂ h₁ h₂ hserial => ?_⟩
  · rcases hcases hk' with ⟨-, hnew⟩ | ⟨-, hle⟩
    · exact Nat.le_of_eq hnew
    · exact Nat.le_succ_of_le hle
  · rcases hcases h₁ with ⟨rfl, hnew₁⟩ | ⟨hold₁, hle₁⟩ <;>
      rcases hcases h₂ with ⟨rfl, hnew₂⟩ | ⟨hold₂, hle₂⟩
    · rfl
    · omega
    · omega
    · exact hs.unique ticket₁ ticket₂ k₁ k₂ hold₁ hold₂ hserial

theorem Numbered.drop (hs : Numbered s) :
    Numbered { s with pauseTickets := update s.pauseTickets ticket none } := by
  have hold {ticket' : O} {k' : PauseTicket T}
      (h : update s.pauseTickets ticket none ticket' = some k') :
      s.pauseTickets ticket' = some k' := by
    rw [update_apply] at h
    split_ifs at h
    exact h
  exact ⟨fun ticket' k' h => hs.serial_le ticket' k' (hold h),
    fun ticket₁ ticket₂ k₁ k₂ h₁ h₂ => hs.unique ticket₁ ticket₂ k₁ k₂ (hold h₁) (hold h₂)⟩

theorem moveObject_eq_some {α : Type} {objects : O → Option α} {x : α}
    (h : moveObject objects source target a = some x) :
    (a = target ∧ objects source = some x) ∨ (a ≠ target ∧ a ≠ source ∧ objects a = some x) := by
  rw [moveObject, update_apply, update_apply] at h
  split_ifs at h with ht hs
  · exact .inl ⟨ht, h⟩
  · exact .inr ⟨ht, hs, h⟩

theorem Numbered.move (hs : Numbered s) {source target : O} :
    Numbered { s with pauseTickets := moveObject s.pauseTickets source target } where
  serial_le ticket' k' h := by
    rcases moveObject_eq_some h with ⟨-, h⟩ | ⟨-, -, h⟩
    · exact hs.serial_le source k' h
    · exact hs.serial_le ticket' k' h
  unique ticket₁ ticket₂ k₁ k₂ h₁ h₂ hserial := by
    rcases moveObject_eq_some h₁ with ⟨heq₁, hold₁⟩ | ⟨-, hne₁, hold₁⟩
    · rcases moveObject_eq_some h₂ with ⟨heq₂, -⟩ | ⟨-, hne₂, hold₂⟩
      · rw [heq₁, heq₂]
      · exact absurd (hs.unique source ticket₂ k₁ k₂ hold₁ hold₂ hserial).symm hne₂
    · rcases moveObject_eq_some h₂ with ⟨-, hold₂⟩ | ⟨-, -, hold₂⟩
      · exact absurd (hs.unique ticket₁ source k₁ k₂ hold₁ hold₂ hserial) hne₁
      · exact hs.unique ticket₁ ticket₂ k₁ k₂ hold₁ hold₂ hserial

end

omit [DecidableEq O] in
theorem Fits.tickets (hs : Good s) (hidle : Idle t s) (hnumbered : Numbered { s with pauseTickets })
    (hticket : ∀ ticket k, s.pauseTickets ticket = some k → k.nativeOwner ≠ t →
      pauseTickets ticket = some k) : Fits t s .outside { s with pauseTickets } :=
  ⟨{ Does.refl t s with ticket := hticket },
    ⟨{ hs.consistent with }, hnumbered, hs.requested, hs.stopped⟩, .of_idle hidle rfl⟩

theorem Fits.dropTicket (hs : Good s) (hidle : Idle t s) (hk : s.pauseTickets ticket = some k)
    (howner : k.nativeOwner = t) :
    Fits t s .outside { s with pauseTickets := update s.pauseTickets ticket none } := by
  refine .tickets hs hidle hs.numbered.drop fun ticket' k' hk' hne => ?_
  rwa [update_of_ne]
  rintro rfl
  cases hk.symm.trans hk'
  exact hne howner

theorem Fits.moveTicket (hs : Good s) (hidle : Idle t s)
    (hk : s.pauseTickets source = some k) (howner : k.nativeOwner = t)
    (htarget : s.pauseTickets target = none) :
    Fits t s .outside { s with pauseTickets := moveObject s.pauseTickets source target } := by
  refine .tickets hs hidle hs.numbered.move fun ticket' k' hk' hne => ?_
  have hsource : ticket' ≠ source := by
    rintro rfl
    cases hk.symm.trans hk'
    exact hne howner
  have htarget' : ticket' ≠ target := by
    rintro rfl
    cases htarget.symm.trans hk'
  rwa [moveObject, update_of_ne htarget', update_of_ne hsource]

omit [DecidableEq O] in
theorem Fits.releaseTicket (hs : Good s) (hmutex : s.mutex = none) (hidle : Idle t s)
    (serial : Nat) :
    Fits t s .outside (releaseTicket s serial) := by
  unfold CollectionPauseDomain.releaseTicket
  split_ifs
  · exact (Fits.stay hs hidle rfl).congr rfl
  · exact (Fits.cancels hs hmutex hidle).congr rfl
  · exact (Fits.stay hs hidle rfl).congr rfl

omit [DecidableEq T] in
theorem grant_keeps_ticket (hfree : s.pauseTickets ticket = none)
    (hk : s.pauseTickets ticket' = some k) : (grant t s ticket).pauseTickets ticket' = some k := by
  have hne : ticket' ≠ ticket := by
    rintro rfl
    cases hfree.symm.trans hk
  rwa [grant_pauseTickets_of_ne hne]

theorem Fits.grant (hs : Good s) (hmutex : s.mutex = none) (hidle : Idle t s)
    (hfree : s.pauseTickets ticket = none) : Fits t s .outside (grant t s ticket) :=
  ⟨.free hmutex rfl (fun _ => .rfl) fun _ _ => grant_keeps_ticket hfree,
    ⟨{ hs.consistent with }, hs.numbered.grant, fun _ => rfl, fun h => absurd hmutex h⟩,
    .of_idle hidle rfl⟩

theorem Fits.initiate (hs : Good s) (hmutex : s.mutex = none) (hidle : Idle t s)
    (hfree : s.pauseTickets ticket = none) (hrequested : s.requested = false)
    (howner : (s.slots i).nativeOwner = some t) (hid : (s.slots i).id ≠ 0#64)
    (hparked : (s.slots i).parked = false) (hblocking : (s.slots i).blocking = false) :
    Fits t s .outside (CollectionPauseDomain.grant t
      { s.setSlot i (parkedSlot s i (s.slots i).blocking) with
        initiatorIndex := some i, initiatorId := (s.slots i).id, parked := s.parked + 1 }
      ticket) := by
  have hnone : s.initiatorId = 0#64 := by
    by_contra h
    cases hrequested.symm.trans (hs.requested h)
  have hpark := (Writes.park hs.consistent hid hparked (s.slots i).blocking).consistent
    hs.consistent
  have hself : update s.slots i (parkedSlot s i (s.slots i).blocking) i =
      parkedSlot s i (s.slots i).blocking := update_self _ _ _
  refine ⟨.write hmutex rfl (only_owner howner)
      (only_owner howner)
      (fun j hj => iff_of_false (fun h => hj (some.inj h.2).symm) fun h => h.1 hnone) ?_,
    ⟨{ hpark with initiator := fun _ => ⟨i, rfl, ?_⟩ }, ?_, fun _ => rfl, fun h => absurd hmutex h⟩,
    .of_idle (fun j hj hp => ?_) rfl⟩
  · exact fun _ _ => grant_keeps_ticket hfree
  · simp only [CollectionPauseDomain.grant, Domain.setSlot, hself]
    exact ⟨rfl, rfl, hblocking⟩
  · exact Numbered.grant { hs.numbered with }
  · by_cases hji : j = i
    · subst hji
      exact .inr ⟨hid, rfl⟩
    · simp only [CollectionPauseDomain.grant, Domain.setSlot, update_of_ne hji] at hj hp ⊢
      exact .inl ((hidle j hj hp).resolve_right fun h => h.1 hnone)

end Requests

-- Participants and callbacks

section Participants

variable (hs : Good s) (hmutex : s.mutex = none) (hidle : Idle t s)
include hs hmutex hidle

theorem Fits.enters (hid : (s.slots i).id = 0#64) {id : BitVec 64} (hnew : id ≠ 0#64) :
    Fits t s .outside { s.setSlot i { s.slots i with id, nativeOwner := some t } with
      active := s.active + 1 } := by
  have hparked : (s.slots i).parked = false :=
    Bool.eq_false_iff.mpr fun h => hs.consistent.enrolled i h hid
  have hfree := hs.consistent.free i hid
  refine .write hs hmutex ⟨?_, rfl, fun _ => hnew, fun h => absurd h hnew, fun h => ?_,
    not_initiates hs.consistent hparked⟩ (fun _ hu => nomatch hfree.symm.trans hu)
    (fun _ hu => (some.inj hu).symm) (fun j _ => hidle j) fun h => ?_
  · have hold : (s.slots i).enrolled = false := by rw [Slot.enrolled, hid]; rfl
    rw [hold, Slot.enrolled_iff.mpr hnew]
    rfl
  · cases hparked.symm.trans h
  · cases hparked.symm.trans h

theorem Fits.leaves (howner : (s.slots i).nativeOwner = some t) (hid : (s.slots i).id ≠ 0#64)
    (hinitiator : (s.slots i).id ≠ s.initiatorId) :
    Fits t s .outside { s.setSlot i {} with
      parked := if (s.slots i).parked then s.parked - 1 else s.parked
      active := s.active - 1 } := by
  refine .write hs hmutex ⟨?_, ?_, nofun, fun _ => rfl, nofun,
    fun h => hinitiator (Initiates.slot hs.consistent h).1⟩
    (only_owner howner) nofun (fun j _ => hidle j) nofun
  · have henrolled := Slot.enrolled_iff.mpr hid
    have hpos : 0 < tally Slot.enrolled s.slots := Tally.pos henrolled
    rw [henrolled]
    exact Nat.sub_add_cancel (hs.consistent.active ▸ hpos)
  · split
    next h =>
      have hpos : 0 < tally Slot.parked s.slots := Tally.pos h
      rw [h]
      exact Nat.sub_add_cancel (hs.consistent.parked ▸ hpos)
    next h => rw [Bool.eq_false_iff.mpr h]

theorem Fits.commit (h : whileStopped t s ticket = .paused) :
    Fits t s (.committing ticket) { s with mutex := some t } := by
  unfold whileStopped at h
  split_ifs at h with _ hcurrent hcount
  refine ⟨.free hmutex rfl (fun _ => .rfl) fun _ _ h => h,
    ⟨{ hs.consistent with }, { hs.numbered with }, hs.requested, fun _ => not_not.mp hcount⟩,
    fun j hj hp => (hidle j hj hp).imp_right .inl, nofun, nofun, fun ticket' heq => ?_⟩
  cases heq
  exact ⟨rfl, hcurrent⟩

section

omit hmutex

theorem Fits.committed (hheld : s.mutex = some t) : Fits t s .outside { s with mutex := none } :=
  ⟨⟨fun _ _ _ _ => .inl ⟨rfl, .rfl⟩, fun _ _ _ h => h,
      fun _ hu hu' => absurd (some.inj (hu'.symm.trans hheld)) hu, fun _ _ h _ => h⟩,
    ⟨{ hs.consistent with }, { hs.numbered with }, hs.requested, fun h => absurd rfl h⟩,
    .of_idle hidle rfl⟩

theorem mayRun_not_parked (h : mayRun t s i = true) : (s.slots i).parked = false := by
  obtain ⟨howner, hid, hblocking, hinit⟩ := of_decide_eq_true h
  refine Bool.eq_false_iff.mpr fun hparked => ?_
  rcases hidle i howner hparked with hb | hi
  · exact hblocking hb
  · exact hinit (Initiates.slot hs.consistent hi).1

theorem Fits.run (h : mayRun t s i = true) (context : Option C) :
    Fits t s .outside { s with context := update s.context i context } := by
  have hparked := mayRun_not_parked hs hidle h
  refine ⟨{ Does.refl t s with }, ⟨{ hs.consistent with context := fun j hj => ?_ },
    { hs.numbered with }, hs.requested, hs.stopped⟩, .of_idle hidle rfl⟩
  have hji : j ≠ i := by
    rintro rfl
    cases hparked.symm.trans hj
  dsimp only
  rw [update_of_ne hji]
  exact hs.consistent.context j hj

end

end Participants

-- Soundness

section Steps

variable [DecidableEq O] {p p' : Position O n}

section

variable (hs : Good s)

include hs

omit [DecidableEq O] in
theorem leave_sound (hmutex : s.mutex = none) (hidle : Idle t s) :
    Fits t s .outside (leave t s i) := by
  unfold leave
  dsimp only
  split
  · exact (Fits.stay hs hidle rfl).congr rfl
  next h =>
    simp only [not_or, not_not] at h
    exact (Fits.leaves hs hmutex hidle h.2.1 h.1 h.2.2.2).congr rfl

omit [DecidableEq O] in
theorem poll_sound (hmutex : s.mutex = none) (hidle : Idle t s) :
    Leads (Fits t s) (some (poll t s i)) := by
  unfold poll
  dsimp only
  split
  · exact .some (.stay hs hidle rfl)
  split
  · exact .some ((Fits.stay hs hidle rfl).congr rfl)
  next hslot =>
    simp only [not_or, not_not, Bool.not_eq_true] at hslot
    exact .some (.polls hs hmutex hslot.2.2.2 hidle hslot.2.2.1 hslot.1 hslot.2.1)

theorem park_sound (hmutex : s.mutex = none) (hidle : Idle t s) (scope : O) :
    Fits t s .outside (park t s i scope) := by
  unfold park
  dsimp only
  split
  · exact .stay hs hidle rfl
  next h =>
    simp only [not_or, not_not, Bool.not_eq_true] at h
    exact (Fits.parks hs hmutex h.2.2.2.2 hidle h.2.2.2.1 h.2.1).congr rfl

omit [DecidableEq O] in
theorem finishBlock_sound (hidle : Idle t s) {id : BitVec 64} :
    Leads (Fits t s) (some (finishBlock t s i id)) := by
  unfold finishBlock
  dsimp only
  split
  · exact .some ((Fits.stay hs hidle rfl).congr rfl)
  next hslot =>
    simp only [not_or, not_not] at hslot
    refine .some ⟨.refl t s, hs, fun j hj hp => (hidle j hj hp).imp_right .inl, nofun,
      fun j hj => ?_, nofun⟩
    cases hj
    exact ⟨hslot.2.2.2, hslot.2.1, hslot.2.2.1⟩

theorem begin_sound (hmutex : s.mutex = none) (hidle : Idle t s)
    (hfree : s.pauseTickets ticket = none) (initiator : Option O) :
    Fits t s .outside (begin t s initiator ticket) := by
  fun_cases begin t s initiator ticket with
  | case1 | case3 | case4 => exact .stay hs hidle rfl
  | case2 => exact .grant hs hmutex hidle hfree
  | case5 hopen participant i _ entry h =>
    simp only [not_or, not_not, Bool.not_eq_true] at h hopen
    exact .initiate hs hmutex hidle hfree hopen.2.1 h.2.2.2 h.1 h.2.1 h.2.2.1

theorem enter_sound (hmutex : s.mutex = none) (hidle : Idle t s) (participant : O) :
    Fits t s .outside (enter t s participant) := by
  fun_cases enter t s participant with
  | case1 | case2 => exact (Fits.stay hs hidle rfl).congr rfl
  | case3 _ hopen i hi =>
    have hid : (s.slots i).id = 0#64 := by simpa using List.find?_some hi
    exact (Fits.enters hs hmutex hidle hid (not_or.1 (not_or.1 hopen).2).2).congr rfl

theorem start_sound (hidle : Idle t s) : Leads (Fits t s) (start t s op) := by
  have hstay : Fits t s .outside s := .stay hs hidle rfl
  cases op with
  | enter participant => exact .guard fun _ => (Fits.stay hs hidle rfl).congr rfl
  | leave participant =>
    simp only [start]
    split
    · exact .some hstay
    · refine .guard fun hmutex => ?_
      have hfits : Fits t s .outside { s with
          participants := update s.participants participant none } := hstay.congr rfl
      exact (leave_sound hfits.good hmutex hidle).after hfits.does
  | poll participant =>
    simp only [start]
    split
    · exact .some hstay
    · refine .some (.stay hs hidle ?_)
      split <;> rfl
  | parkForBlocking participant scope =>
    simp only [start]
    split
    · exact .some hstay
    · exact .guard fun hmutex => park_sound hs hmutex.1 hidle scope
  | finishBlock scope =>
    simp only [start]
    split
    · exact .some hstay
    · refine .ite (fun _ => ?_) fun _ => .none
      have hfits : Fits t s .outside { s with
          blockingScopes := update s.blockingScopes scope none } := hstay.congr rfl
      exact (finishBlock_sound hfits.good hidle).mono fun _ _ h => h.after hfits.does
  | requestPause initiator ticket =>
    exact .guard fun hfree =>
      begin_sound hs hfree.1 hidle (isNone_iff_eq_none.mp hfree.2) initiator
  | waitUntilPaused ticket | drain => exact .some (.stay hs hidle rfl)
  | whileStopped ticket =>
    exact .ite (fun hmutex => .ite (fun hpaused => .some (.commit hs hmutex hidle hpaused))
      fun _ => .some hstay) fun _ => .none
  | reset ticket =>
    simp only [start]
    split
    · exact .some hstay
    next k hk =>
      refine .ite (fun _ => .some (hstay.congr rfl)) fun howner => .guard fun hmutex => ?_
      have hfits := Fits.dropTicket hs hidle hk (not_not.mp howner)
      exact (Fits.releaseTicket hfits.good hmutex hidle k.serial).after hfits.does
  | close =>
    refine .guard fun hmutex => ?_
    have hfits : Fits t s .outside { s with closed := true } := hstay.congr rfl
    exact (Fits.cancels hfits.good hmutex hidle).after hfits.does
  | moveParticipant source target | moveScope source target =>
    exact .guard fun _ => hstay.congr rfl
  | moveTicket source target =>
    simp only [start]
    split
    · exact .some hstay
    · exact .none
    next k hk htarget =>
      exact .ite (fun _ => .some (hstay.congr rfl)) fun howner =>
        .some (.moveTicket hs hidle hk (not_not.mp howner) htarget)

theorem advance_sound (hat : At t p s) : Leads (Fits t s) (advance t s timeout p) := by
  cases p with
  | outside => exact .none
  | entering participant =>
    exact .guard fun hmutex => enter_sound hs hmutex.1 (hat.isIdle nofun) participant
  | pollLock i =>
    exact .ite (fun hmutex => poll_sound hs hmutex (hat.isIdle nofun)) fun _ => .none
  | pollWait i =>
    refine .guard fun hmutex => ?_
    obtain ⟨howner, hparked, -, hinit⟩ := hat.polling i rfl
    refine .unparks hs hmutex.1 howner (fun j hj hown hp => ?_) hparked hinit _
    refine (hat.idle j hown hp).imp_right fun hor => hor.resolve_right fun heq => hj ?_
    injection heq with heq
    exact heq.symm
  | finishWait i =>
    refine .guard fun hmutex => ?_
    obtain ⟨howner, hparked, hblocking⟩ := hat.finishing i rfl
    refine .unparks hs hmutex.1 howner (fun j _ => hat.isIdle nofun j) hparked (fun hinit => ?_) _
    cases hblocking.symm.trans (Initiates.slot hs.consistent hinit).2.2
  | waiting ticket =>
    exact .ite (fun _ => .map fun _ _ => .stay hs (hat.isIdle nofun) rfl) fun _ => .none
  | committing ticket =>
    exact .some (.committed hs (hat.isIdle nofun) (hat.committing ticket rfl).1)
  | draining => exact .guard fun _ => .stay hs (hat.isIdle nofun) rfl

theorem act_sound (hat : At t p s) : Leads (Fits t s) (act t turn p s) := by
  refine .ite (fun _ => .none) fun _ => ?_
  split
  case h_1 => exact start_sound hs (hat.isIdle nofun)
  case h_2 => exact .guard fun hrun => .run hs (hat.isIdle nofun) hrun _
  case h_3 | h_4 => exact .none
  case h_5 | h_6 => exact advance_sound hs hat

end

end Steps

-- Runs

section Runs

variable [DecidableEq O] {p p' : Position O n}

def outline : Outline (act (T := T) (O := O) (C := C) (n := n)) where
  Good := Good
  At := At
  Does := Does
  sound hs hat hact :=
    have h := act_sound hs hat hact
    ⟨h.does, h.good, h.at_⟩
  stable hu hs h hd := h.stable hu hs hd

theorem outline_initial : (outline (T := T) (O := O) (C := C) (n := n)).Holds initial := by
  refine ⟨⟨⟨?_, ?_, nofun, fun _ _ => rfl, nofun, fun h => absurd rfl h⟩, ⟨nofun, nofun⟩,
    fun h => absurd rfl h, fun h => absurd rfl h⟩, fun t => .of_idle nofun rfl⟩
  · exact (Tally.eq_zero fun _ => rfl).symm
  · exact (Tally.eq_zero fun _ => rfl).symm

omit [DecidableEq T] [DecidableEq O] in
theorem Good.parked (hs : Good s) (hmutex : s.mutex ≠ none) (hid : (s.slots i).id ≠ 0#64) :
    (s.slots i).parked = true := by
  have hcount : tally Slot.parked s.slots = tally Slot.enrolled s.slots := by
    rw [← hs.consistent.parked, ← hs.consistent.active]
    exact hs.stopped hmutex
  exact Tally.forall_of_eq
    (fun j hj => Slot.enrolled_iff.mpr (hs.consistent.enrolled j hj)) hcount i
    (Slot.enrolled_iff.mpr hid)

omit [DecidableEq O] in
theorem Good.isStopped (hs : Good s) (hat : At t (.committing ticket) s) : Stopped t ticket s := by
  obtain ⟨hmutex, hcurrent⟩ := hat.committing ticket rfl
  have hheld : s.mutex ≠ none := by
    rw [hmutex]
    exact nofun
  refine ⟨fun i hid =>
    ⟨hs.parked hheld hid, hs.consistent.context i (hs.parked hheld hid)⟩, hcurrent,
    fun ticket' k' hk' hserial => ?_⟩
  unfold current at hcurrent
  split at hcurrent
  next k hk =>
    have hserial' := (of_decide_eq_true hcurrent).2.1
    exact hs.numbered.unique ticket' ticket k' k hk' hk (hserial.trans hserial'.symm)
  next => cases hcurrent

theorem start_held (hmutex : s.mutex ≠ none) :
    Leads (fun _ => SameParticipants s) (start t s op) := by
  cases op <;> simp only [start, hmutex, false_and, if_false]
  all_goals repeat' split
  all_goals first | exact .none | exact .some ⟨rfl, fun _ _ => rfl⟩

theorem advance_held (hmutex : s.mutex ≠ none) :
    Leads (fun _ => SameParticipants s) (advance t s timeout p) := by
  cases p <;> simp only [advance, hmutex, false_and, if_false]
  case committing => exact .some ⟨rfl, fun _ _ => rfl⟩
  all_goals exact .none

theorem act_held (hs : Good s) (hat : At t p s) (hmutex : s.mutex ≠ none) :
    Leads (fun _ => SameParticipants s) (act t turn p s) := by
  refine .ite (fun _ => .none) fun _ => ?_
  split
  case h_1 => exact start_held hmutex
  case h_2 =>
    refine .guard fun hrun => ?_
    -- a participant that changes its roots is not parked
    have hparked := mayRun_not_parked hs (hat.isIdle nofun) hrun
    cases hparked.symm.trans (hs.parked hmutex (of_decide_eq_true hrun).2.1)
  case h_3 | h_4 => exact .none
  case h_5 | h_6 => exact advance_held hmutex

theorem run_held {schedule : List (T × Turn O C n)} (h : outline.Holds cfg)
    (hp : cfg.position t = .committing ticket) (hother : ∀ turn ∈ schedule, turn.1 ≠ t)
    (hrun : run act cfg schedule = some cfg') :
    cfg'.position t = .committing ticket ∧ SameParticipants cfg.shared cfg'.shared := by
  induction schedule generalizing cfg with
  | nil =>
    cases hrun
    exact ⟨hp, rfl, fun _ _ => rfl⟩
  | cons turn schedule ih =>
    simp only [run, List.foldlM_cons, bind_eq_bind, bind_eq_some_iff] at hrun
    obtain ⟨cfg₁, hstep, hrest⟩ := hrun
    have h₁ := outline.step h hstep
    obtain ⟨⟨p', s'⟩, hact, rfl⟩ := map_eq_some_iff.mp hstep
    have hat := h.2 t
    rw [hp] at hat
    have hheld : cfg.shared.mutex ≠ none := by
      rw [(At.committing hat ticket rfl).1]
      exact some_ne_none _
    have hsame := act_held h.1 (h.2 turn.1) hheld hact
    have hp₁ : update cfg.position turn.1 p' t = .committing ticket := by
      rw [update_of_ne (hother turn List.mem_cons_self).symm]
      exact hp
    obtain ⟨hp', hslots, hcontext⟩ := ih h₁ hp₁
      (fun turn' hmem => hother turn' (List.mem_cons_of_mem _ hmem)) hrest
    refine ⟨hp', hslots.trans hsame.slots, fun i hi => (hcontext i ?_).trans (hsame.context i hi)⟩
    show (s'.slots i).id ≠ 0#64
    rwa [hsame.slots]

/-- Along every schedule of any number of threads, whenever a callback runs all participants are
parked with their present roots published, no participant is added, removed or unparked
before it returns, and its ticket is the only current one. -/
theorem run_stopped {schedule : List (T × Turn O C n)}
    {cfg : Config T (Position O n) (Domain T O C n)}
    (hrun : run act initial schedule = some cfg) {ticket : O}
    (hp : cfg.position t = .committing ticket) :
    Stopped t ticket cfg.shared ∧ ∀ schedule' cfg', (∀ turn ∈ schedule', turn.1 ≠ t) →
      run act cfg schedule' = some cfg' →
      cfg'.position t = .committing ticket ∧ SameParticipants cfg.shared cfg'.shared := by
  have h := outline.run outline_initial hrun
  have hat := h.2 t
  rw [hp] at hat
  exact ⟨Good.isStopped h.1 hat, fun _ _ hother hrun' => run_held h hp hother hrun'⟩

/-- The ticket of a callback that runs. -/
def Position.committing? : Position O n → Option O
  | .committing ticket => some ticket
  | _ => none

omit [DecidableEq O] in
theorem Position.eq_of_committing? (h : p.committing? = some ticket) : p = .committing ticket := by
  cases p <;> cases h
  rfl

def collectBlocked : List (Bool × Turn Nat Nat 2) :=
  [(false, .call (.enter 0)), (false, .proceed), (true, .call (.enter 1)), (true, .proceed),
   (false, .run 0 (some 7)), (true, .run 1 (some 8)), (true, .call (.parkForBlocking 1 0)),
   (false, .call (.requestPause (some 0) 0)), (false, .call (.whileStopped 0))]

theorem run_stopped_collectBlocked : ∃ cfg : Config Bool (Position Nat 2) (Domain Bool Nat Nat 2),
      run act initial collectBlocked = some cfg ∧
      cfg.position false = .committing 0 ∧ Stopped false 0 cfg.shared := by
  have hmap : (run act initial collectBlocked).map (fun cfg =>
      (cfg.position false).committing?) = some (some 0) := by decide
  obtain ⟨cfg, hrun, hposition⟩ := map_eq_some_iff.mp hmap
  have hp : cfg.position false = .committing 0 := Position.eq_of_committing? hposition
  exact ⟨cfg, hrun, hp, (run_stopped hrun hp).1⟩

/-- Along every schedule the counters count the slots. -/
theorem run_counted {schedule : List (T × Turn O C n)}
    (hrun : run act initial schedule = some cfg) :
    cfg.shared.active = tally Slot.enrolled cfg.shared.slots ∧
      cfg.shared.parked = tally Slot.parked cfg.shared.slots := by
  have hgood : Good cfg.shared := (outline.run outline_initial hrun).1
  exact ⟨hgood.consistent.active, hgood.consistent.parked⟩

theorem run_counted_collectBlocked : ∃ cfg, run act initial collectBlocked = some cfg ∧
    tally Slot.enrolled cfg.shared.slots = 2 ∧ tally Slot.parked cfg.shared.slots = 2 := by
  have hmap : (run act initial collectBlocked).map (fun cfg =>
      (cfg.shared.active, cfg.shared.parked)) = some (2, 2) := by decide
  obtain ⟨cfg, hrun, hcounters⟩ := map_eq_some_iff.mp hmap
  obtain ⟨hactive, hparked⟩ := Prod.mk.inj hcounters
  obtain ⟨henrolled, htally⟩ := run_counted hrun
  exact ⟨cfg, hrun, henrolled.symm.trans hactive, htally.symm.trans hparked⟩

end Runs

end Uwvm2.Thread.CollectionPauseDomain
