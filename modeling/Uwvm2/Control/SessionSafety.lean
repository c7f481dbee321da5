import Uwvm2.Control.Session

/-!
# Control session safety

Serial numbers tell permits and sessions of an authority apart, so closing a session never
frees the place of another. Requests are numbered by the authority, across all its sessions.
-/

namespace Uwvm2.Control

open Function List

variable {A S : Type}

-- Histories

section

variable [DecidableEq A]

def acceptedIds (a : A) (trace : List (Event A S)) : List Nat :=
  trace.reverse.filterMap fun
    | .accepted a' _ _ id => if a' = a then some id else none
    | _ => none

def completedIds (a : A) (trace : List (Event A S)) : List Nat :=
  trace.reverse.filterMap fun
    | .completed a' _ id => if a' = a then some id else none
    | _ => none

/-- What has to hold of the events before an event. -/
def Allowed (earlier : List (Event A S)) : Event A S → Prop
  | .accepted a _ _ id => id = (acceptedIds a earlier).length + 1 ∧ .revoked a ∉ earlier
  | .completed a s id => (∃ serial, .accepted a s serial id ∈ earlier) ∧
      (∀ s', .completed a s' id ∉ earlier) ∧ .revoked a ∉ earlier
  | .revoked _ => True

/-- Every event of a history, latest first, is allowed by those before it. -/
def History : List (Event A S) → Prop
  | [] => True
  | e :: earlier => Allowed earlier e ∧ History earlier

theorem acceptedIds_cons_accepted (a : A) (s : S) (serial id : Nat) (trace : List (Event A S)) :
    acceptedIds a (.accepted a s serial id :: trace) = acceptedIds a trace ++ [id] := by
  simp [acceptedIds]

theorem History.split {e : Event A S}
    (h : History (later ++ e :: earlier)) : Allowed earlier e ∧ History earlier := by
  induction later with
  | nil => exact h
  | cons _ later ih => exact ih h.2

theorem History.consecutive (h : History trace) (a : A) :
    acceptedIds a trace = List.range' 1 (acceptedIds a trace).length := by
  induction trace with
  | nil => rfl
  | cons e earlier ih =>
    have hearlier := ih h.2
    cases e with
    | accepted a' s serial id =>
      by_cases ha : a' = a
      · subst ha
        rw [acceptedIds_cons_accepted, length_append, length_singleton, range'_1_concat,
          ← hearlier, h.1.1, Nat.add_comm]
      · simpa [acceptedIds, ha] using hearlier
    | completed => simpa [acceptedIds] using hearlier
    | revoked => simpa [acceptedIds] using hearlier

theorem mem_completedIds {trace : List (Event A S)} {id : Nat} :
    id ∈ completedIds a trace ↔ ∃ s, .completed a s id ∈ trace := by
  simp only [completedIds, mem_filterMap, mem_reverse]
  constructor
  · rintro ⟨e, he, h⟩
    split at h
    · split at h
      · next heq =>
        cases heq
        cases h
        exact ⟨_, he⟩
      · cases h
    · cases h
  · rintro ⟨s, hs⟩
    exact ⟨_, hs, by simp⟩

theorem mem_acceptedIds {trace : List (Event A S)} {id : Nat} :
    id ∈ acceptedIds a trace ↔ ∃ s serial, .accepted a s serial id ∈ trace := by
  simp only [acceptedIds, mem_filterMap, mem_reverse]
  constructor
  · rintro ⟨e, he, h⟩
    split at h
    · split at h
      · next heq =>
        cases heq
        cases h
        exact ⟨_, _, he⟩
      · cases h
    · cases h
  · rintro ⟨s, serial, hs⟩
    exact ⟨_, hs, by simp⟩

theorem History.once (h : History trace) (a : A) : (completedIds a trace).Nodup := by
  induction trace with
  | nil => exact .nil
  | cons e earlier ih =>
    have hearlier := ih h.2
    cases e with
    | completed a' s id =>
      by_cases ha : a' = a
      · subst ha
        have hcons : completedIds a' (.completed a' s id :: earlier) = completedIds a' earlier ++
            [id] := by
          simp [completedIds]
        rw [hcons]
        refine nodup_append.mpr ⟨hearlier, pairwise_singleton _ _, ?_⟩
        rintro id' hid' _ hmem rfl
        obtain rfl := mem_singleton.mp hmem
        obtain ⟨s', hs'⟩ := mem_completedIds.mp hid'
        exact h.1.2.1 s' hs'
      · simpa [completedIds, ha] using hearlier
    | accepted => simpa [completedIds] using hearlier
    | revoked => simpa [completedIds] using hearlier

theorem History.acceptor (h : History trace) {a : A} {s' : S} {id : Nat}
    (hs : .accepted a s serial id ∈ trace) (hs' : .accepted a s' serial' id ∈ trace) : s' = s := by
  induction trace with
  | nil => cases hs
  | cons e earlier ih =>
    -- an id that is given out again is larger than those given out before
    have hfresh : ∀ {s₁ serial₁ s₂ serial₂}, e = .accepted a s₁ serial₁ id →
        .accepted a s₂ serial₂ id ∉ earlier := fun heq hmem => by
      subst heq
      have hin := mem_acceptedIds.mpr ⟨_, _, hmem⟩
      rw [h.2.consecutive a, mem_range'_1] at hin
      have := h.1.1
      omega
    rcases mem_cons.mp hs with he | hs
    · rcases mem_cons.mp hs' with he' | hs'
      · cases he.trans he'.symm
        rfl
      · exact absurd hs' (hfresh he.symm)
    · rcases mem_cons.mp hs' with he' | hs'
      · exact absurd hs (hfresh he'.symm)
      · exact ih h.2 hs hs'

theorem History.completed_mem {trace : List (Event A S)} (h : History trace) {s : S} {id : Nat}
    (hs : .completed a s id ∈ trace) : id ∈ acceptedIds a trace := by
  obtain ⟨later, earlier, rfl⟩ := append_of_mem hs
  obtain ⟨serial, hacc⟩ := h.split.1.1
  exact mem_acceptedIds.mpr ⟨s, serial, by simp [hacc]⟩

theorem History.revoked {earlier : List (Event A S)} (h : History trace)
    (hsplit : trace = later ++ .revoked a :: earlier) :
    (∀ s serial id, .accepted a s serial id ∉ later) ∧ ∀ s id, .completed a s id ∉ later := by
  subst hsplit
  constructor
  · intro s serial id hmem
    obtain ⟨l₁, l₂, rfl⟩ := append_of_mem hmem
    rw [append_assoc] at h
    exact h.split.1.2 (by simp)
  · intro s id hmem
    obtain ⟨l₁, l₂, rfl⟩ := append_of_mem hmem
    rw [append_assoc] at h
    exact h.split.1.2.2 (by simp)

end

-- The invariant

def World.ActiveOn (w : World A S) (a : A) (s : S) : Prop :=
  (w.session s).owner = some a ∧ ((w.session s).state = .ready ∨ (w.session s).state = .pending)

/-- Permits and attached sessions have serial numbers that were issued, each its own. -/
structure Serials (w : World A S) : Prop where
  session : ∀ {s a}, (w.session s).owner = some a →
    1 ≤ (w.session s).serial ∧ (w.session s).serial ≤ (w.authority a).issued
  distinct : ∀ {s s' a}, (w.session s).owner = some a → (w.session s').owner = some a →
    (w.session s).serial = (w.session s').serial → s = s'
  permit : ∀ {i : Nat} {p : Permit A} {a}, w.permits[i]? = some p → p.owner = some a →
    1 ≤ p.serial ∧ p.serial ≤ (w.authority a).issued ∧
      ∀ s, (w.session s).owner = some a → (w.session s).serial ≠ p.serial
  permits : ∀ {i j : Nat} {p q : Permit A} {a}, w.permits[i]? = some p → w.permits[j]? = some q →
    p.owner = some a → q.owner = some a → p.serial = q.serial → i = j

section

variable {w : World A S}

theorem Serials.congr (h : Serials w)
    (hissued : ∀ a, (w.authority a).issued ≤ (w'.authority a).issued)
    (howner : ∀ s, (w'.session s).owner = (w.session s).owner)
    (hserial : ∀ s, (w'.session s).serial = (w.session s).serial)
    (hpermits : ∀ {i : Nat} {p : Permit A} {a : A}, w'.permits[i]? = some p → p.owner = some a →
      w.permits[i]? = some p) : Serials w' where
  session {s a} hs := by
    rw [howner] at hs
    rw [hserial]
    exact ⟨(h.session hs).1, Nat.le_trans (h.session hs).2 (hissued a)⟩
  distinct {s s' a} hs hs' heq := by
    rw [howner] at hs hs'
    rw [hserial, hserial] at heq
    exact h.distinct hs hs' heq
  permit {i p a} hp ha := by
    obtain ⟨hpos, hle, hne⟩ := h.permit (hpermits hp ha) ha
    refine ⟨hpos, Nat.le_trans hle (hissued a), fun s hs => ?_⟩
    rw [howner] at hs
    rw [hserial]
    exact hne s hs
  permits hp hq ha hb heq := h.permits (hpermits hp ha) (hpermits hq hb) ha hb heq

theorem permit_of_set {permits : List (Permit A)} {p : Permit A}
    (hq : (permits.set i { p with owner := none })[j]? = some q) (hb : q.owner = some b) :
    j ≠ i ∧ permits[j]? = some q := by
  by_cases hij : i = j
  · subst hij
    rw [getElem?_set_self'] at hq
    obtain ⟨_, _, rfl⟩ := Option.map_eq_some_iff.mp hq
    cases hb
  · rw [getElem?_set_ne hij] at hq
    exact ⟨Ne.symm hij, hq⟩

theorem Serials.append (h : Serials w)
    (hfresh : ∀ {a}, p.owner = some a → 1 ≤ p.serial ∧ p.serial ≤ (w.authority a).issued ∧
      (∀ s, (w.session s).owner = some a → (w.session s).serial ≠ p.serial) ∧
      ∀ {i : Nat} {q : Permit A}, w.permits[i]? = some q → q.owner = some a → q.serial ≠ p.serial) :
    Serials { w with permits := w.permits ++ [p] } := by
  have hcases : ∀ {i : Nat} {q : Permit A}, (w.permits ++ [p])[i]? = some q →
      w.permits[i]? = some q ∨ i = w.permits.length ∧ q = p := fun {i q} hq => by
    rw [getElem?_append] at hq
    split at hq
    · exact .inl hq
    · rw [getElem?_singleton] at hq
      split at hq
      · cases hq
        exact .inr ⟨by omega, rfl⟩
      · cases hq
  refine { h with permit := fun hq ha => ?_, permits := fun hq hr ha hb heq => ?_ }
  · obtain hq | ⟨_, rfl⟩ := hcases hq
    · exact h.permit hq ha
    · exact ⟨(hfresh ha).1, (hfresh ha).2.1, (hfresh ha).2.2.1⟩
  · obtain hq' | ⟨hi, rfl⟩ := hcases hq
    · obtain hr' | ⟨_, rfl⟩ := hcases hr
      · exact h.permits hq' hr' ha hb heq
      · exact absurd heq ((hfresh hb).2.2.2 hq' ha)
    · obtain hr' | ⟨hj, _⟩ := hcases hr
      · exact absurd heq.symm ((hfresh ha).2.2.2 hr' hb)
      · rw [hi, hj]

end

structure Good [DecidableEq A] (w : World A S) : Prop where
  serials : Serials w
  active : ∀ {a s}, w.ActiveOn a s → (w.authority a).alive → (w.authority a).activeSession =
    (w.session s).serial
  single : ∀ {a s s'}, w.ActiveOn a s → w.ActiveOn a s' → s = s'
  history : History w.trace
  last : ∀ a, (acceptedIds a w.trace).length = (w.authority a).lastRequest
  pending : ∀ {s a}, (w.session s).owner = some a → (w.session s).state = .pending →
    (∃ serial, .accepted a s serial (w.session s).pendingId ∈ w.trace) ∧
      ∀ s', .completed a s' (w.session s).pendingId ∉ w.trace
  revoked : ∀ {a}, .revoked a ∈ w.trace → (w.authority a).alive = false
  attached : ∀ {s a}, (w.session s).owner = some a → (w.session s).state ≠ .unauthorized

variable [DecidableEq A]

theorem Good.initial (config : A → LaunchConfig) : Good (World.initial config : World A S) where
  serials := ⟨nofun, nofun, nofun, nofun⟩
  active h := nomatch h.1
  single h := nomatch h.1
  history := trivial
  last _ := rfl
  pending h := nomatch h
  revoked h := nomatch h
  attached h := nomatch h

variable {w : World A S} {a : A} {s : S}

@[simp] theorem setAuthority_session (x : Authority) :
    (w.setAuthority a x).session = w.session := rfl

@[simp] theorem setAuthority_self (x : Authority) : (w.setAuthority a x).authority a = x :=
  update_self _ _ _

theorem setAuthority_other (hb : b ≠ a) (x : Authority) :
    (w.setAuthority a x).authority b = w.authority b :=
  update_of_ne hb _ _

theorem setAuthority_keep {β : Type} (f : Authority → β) (hf : f x = f (w.authority a)) (b : A) :
    f ((w.setAuthority a x).authority b) = f (w.authority b) := by
  by_cases hb : b = a
  · rw [hb, setAuthority_self, hf]
  · rw [setAuthority_other hb]

theorem Good.change (h : Good w) (hissued : (w.authority a).issued ≤ x.issued)
    (hactive : ∀ {u}, w.ActiveOn a u → x.alive → x.activeSession = (w.session u).serial)
    (hhistory : History trace)
    (hlast : ∀ b, (acceptedIds b trace).length = ((w.setAuthority a x).authority b).lastRequest)
    (hpending : ∀ {s b}, (w.session s).owner = some b → (w.session s).state = .pending →
      (∃ serial, .accepted b s serial (w.session s).pendingId ∈ trace) ∧
        ∀ s', .completed b s' (w.session s).pendingId ∉ trace)
    (hrevoked : ∀ {b}, .revoked b ∈ trace → ((w.setAuthority a x).authority b).alive = false) :
    Good { w.setAuthority a x with trace } := by
  refine { h with
    serials := h.serials.congr (fun b => ?_) (fun _ => rfl) (fun _ => rfl) fun hp _ => hp
    active := fun {b u} hu hb => ?_
    history := hhistory
    last := hlast
    pending := hpending
    revoked := hrevoked }
  · by_cases hba : b = a
    · rwa [hba, setAuthority_self]
    · exact Nat.le_of_eq (by rw [setAuthority_other hba])
  · dsimp only at hb ⊢
    by_cases hba : b = a
    · subst hba
      rw [setAuthority_self] at hb ⊢
      exact hactive hu hb
    · rw [setAuthority_other hba] at hb ⊢
      exact h.active hu hb

theorem Good.setAuthority (h : Good w) (hissued : (w.authority a).issued ≤ x.issued)
    (halive : x.alive = (w.authority a).alive) (hlast : x.lastRequest = (w.authority a).lastRequest)
    (hactive : ∀ {u}, w.ActiveOn a u → x.alive → x.activeSession = (w.session u).serial) :
    Good (w.setAuthority a x) :=
  h.change hissued hactive h.history
    (fun b => (h.last b).trans (setAuthority_keep (·.lastRequest) hlast b).symm)
    h.pending fun hb => (setAuthority_keep (·.alive) halive _).trans (h.revoked hb)

theorem Good.execution (h : Good w) (value : ExecutionState) :
    Good (w.setAuthority a { w.authority a with execution := value }) :=
  h.setAuthority (Nat.le_refl _) rfl rfl h.active

-- Permits

theorem Good.tickets (h : Good w) (tickets : List (Ticket A)) : Good { w with tickets } :=
  { h with serials := { h.serials with } }

theorem Good.takePermit (h : Good w) (place : Nat) (p : Permit A) :
    Good { w with permits := w.permits.set place { p with owner := none } } := by
  refine { h with
    serials := h.serials.congr (fun _ => Nat.le_refl _) (fun _ => rfl) (fun _ => rfl) ?_ }
  exact fun hq hb => (permit_of_set hq hb).2

theorem Good.issuePermit (h : Good w) : Good (issuePermit a w) := by
  unfold Control.issuePermit
  dsimp only
  split
  · exact { h with serials := h.serials.append nofun }
  -- The new serial number is larger than all that were issued.
  have hissued : Good (w.setAuthority a
      { w.authority a with issued := (w.authority a).issued + 1 }) :=
    h.setAuthority (Nat.le_succ _) rfl rfl h.active
  refine { hissued with serials := hissued.serials.append fun hb => ?_ }
  cases hb
  refine ⟨Nat.le_add_left _ _, by simp [World.setAuthority], fun s hs heq => ?_,
    fun hq hb heq => ?_⟩
  · exact absurd (heq ▸ (h.serials.session hs).2) (Nat.not_succ_le_self _)
  · exact absurd (heq ▸ (h.serials.permit hq hb).2.1) (Nat.not_succ_le_self _)

theorem Good.movePermit (h : Good w) {place : Nat} (hp : w.permits[place]? = some p) :
    Good { w with permits := w.permits.set place { p with owner := none } ++ [p] } := by
  have htaken := h.takePermit place p
  refine { htaken with serials := htaken.serials.append fun {b} hb => ?_ }
  obtain ⟨hpos, hle, hne⟩ := h.serials.permit hp hb
  refine ⟨hpos, hle, hne, fun hq hb' heq => ?_⟩
  obtain ⟨hij, hq⟩ := permit_of_set hq hb'
  exact hij (h.serials.permits hq hp hb' hb heq)

def Event.authority : Event A S → A
  | .accepted a _ _ _ | .completed a _ _ | .revoked a => a

theorem acceptedIds_cons_other (trace : List (Event A S))
    (he : ∀ s serial id, e ≠ .accepted a s serial id) :
    acceptedIds a (e :: trace) = acceptedIds a trace := by
  cases e with
  | accepted a' s serial id =>
    have ha : a' ≠ a := fun heq => he s serial id (by rw [heq])
    simp [acceptedIds, ha]
  | completed => simp [acceptedIds]
  | revoked => simp [acceptedIds]

theorem Good.log (h : Good w) (hallowed : Allowed w.trace e)
    (hissued : (w.authority e.authority).issued ≤ x.issued)
    (hactive : ∀ {u}, w.ActiveOn e.authority u → x.alive → x.activeSession = (w.session u).serial)
    (hlast : (acceptedIds e.authority (e :: w.trace)).length = x.lastRequest)
    (hpending : ∀ {u a s' id}, e = .completed a s' id → (w.session u).owner = some a →
      (w.session u).state ≠ .pending)
    (hrevoked : .revoked e.authority ∈ e :: w.trace → x.alive = false) :
    Good { w.setAuthority e.authority x with trace := e :: w.trace } := by
  refine h.change hissued hactive ⟨hallowed, h.history⟩ (fun b => ?_) (fun {u b} hu hstate => ?_)
    fun {b} hb => ?_
  · by_cases hb : b = e.authority
    · rw [hb, setAuthority_self, hlast]
    · rw [setAuthority_other hb,
        acceptedIds_cons_other _ (by rintro s serial id rfl; exact hb rfl), h.last]
  · obtain ⟨⟨serial, hacc⟩, hcomp⟩ := h.pending hu hstate
    refine ⟨⟨serial, mem_cons_of_mem _ hacc⟩, fun s' hmem => ?_⟩
    exact hcomp s' ((mem_cons.mp hmem).resolve_left fun heq => hpending heq.symm hu hstate)
  · by_cases hba : b = e.authority
    · rw [hba, setAuthority_self]
      exact hrevoked (hba ▸ hb)
    · rw [setAuthority_other hba]
      exact h.revoked ((mem_cons.mp hb).resolve_left (by rintro rfl; exact hba rfl))

theorem Good.revoke (h : Good w) : Good (revoke a w) := by
  unfold Control.revoke
  split
  · exact h
  exact h.log (e := .revoked a) trivial (Nat.le_refl _) nofun
    ((congrArg length (acceptedIds_cons_other _ nofun)).trans (h.last a)) nofun fun _ => rfl

-- Sessions

theorem Good.live (h : Good w) (howner : (w.session s).owner = some a)
    (hlive : liveLocked (w.authority a) (w.session s) = .none) :
    (w.authority a).alive = true ∧ w.ActiveOn a s := by
  unfold liveLocked at hlive
  split at hlive
  · cases hlive
  next halive =>
  split at hlive
  · cases hlive
  next hopen =>
  refine ⟨not_not.mp halive, howner, ?_⟩
  have hattached := h.attached howner
  cases hstate : (w.session s).state with
  | unauthorized => exact absurd hstate hattached
  | ready => exact .inl rfl
  | pending => exact .inr rfl
  | closed => exact absurd (.inr hstate) hopen

theorem Good.not_revoked (h : Good w) (halive : (w.authority a).alive = true) :
    .revoked a ∉ w.trace := by
  intro hmem
  rw [h.revoked hmem] at halive
  cases halive

theorem Good.logCompleted (h : Good w) {id : Nat} (htrace : w.trace = trace)
    (halive : (w.authority a).alive = true) (haccepted : ∃ serial, .accepted a s serial id ∈ trace)
    (hcompleted : ∀ s', .completed a s' id ∉ trace)
    (hother : ∀ u, (w.session u).owner = some a → (w.session u).state ≠ .pending) :
    Good { w with trace := .completed a s id :: trace } := by
  subst htrace
  have hlog := h.log (e := .completed a s id) (x := w.authority a)
    ⟨haccepted, hcompleted, h.not_revoked halive⟩ (Nat.le_refl _) h.active
    ((congrArg length (acceptedIds_cons_other _ nofun)).trans (h.last a))
    (fun heq => (Event.completed.inj heq).1 ▸ hother _)
    fun hmem => h.revoked ((mem_cons.mp hmem).resolve_left nofun)
  rwa [World.setAuthority, Event.authority, update_eq_self] at hlog

variable [DecidableEq S]

omit [DecidableEq A] in
@[simp] theorem setSession_self (x : Session A) : (w.setSession s x).session s = x :=
  update_self _ _ _

omit [DecidableEq A] in
theorem setSession_other (hu : u ≠ s) (x : Session A) :
    (w.setSession s x).session u = w.session u :=
  update_of_ne hu _ _

theorem Good.putSession (h : Good w)
    (hserial : ∀ {a}, x.owner = some a → 1 ≤ x.serial ∧ x.serial ≤ (w.authority a).issued ∧
      (∀ u, u ≠ s → (w.session u).owner = some a → (w.session u).serial ≠ x.serial) ∧
      ∀ {i : Nat} {p : Permit A}, w.permits[i]? = some p → p.owner = some a → x.serial ≠ p.serial)
    (hactive : ∀ {a}, x.owner = some a → x.state = .ready ∨ x.state = .pending →
      ((w.authority a).alive → (w.authority a).activeSession = x.serial) ∧ ∀ u, u ≠ s →
        ¬ w.ActiveOn a u)
    (hattached : x.state ≠ .unauthorized) (hpending : ∀ {a}, x.owner = some a → x.state = .pending →
      (∃ serial, .accepted a s serial x.pendingId ∈ w.trace) ∧
        ∀ s', .completed a s' x.pendingId ∉ w.trace) : Good (w.setSession s x) := by
  refine { h with
    serials := {
      session := fun {u b} hb => ?_
      distinct := fun {u u' b} hb hb' heq => ?_
      permit := fun {i p b} hp hb => ?_
      permits := h.serials.permits }
    active := fun {b u} hu hb => ?_
    single := fun {b u u'} hu hu' => ?_
    pending := fun {u b} hb hstate => ?_
    attached := fun {u b} hb => ?_ }
  · by_cases hu : u = s
    · rw [hu, setSession_self] at hb ⊢
      exact ⟨(hserial hb).1, (hserial hb).2.1⟩
    · rw [setSession_other hu] at hb ⊢
      exact h.serials.session hb
  · by_cases hu : u = s
    · by_contra hne
      rw [hu] at hb heq hne
      rw [setSession_other (Ne.symm hne)] at hb' heq
      rw [setSession_self] at hb heq
      exact (hserial hb).2.2.1 u' (Ne.symm hne) hb' heq.symm
    · rw [setSession_other hu] at hb heq
      by_cases hu' : u' = s
      · rw [hu', setSession_self] at hb' heq
        exact absurd heq ((hserial hb').2.2.1 u hu hb)
      · rw [setSession_other hu'] at hb' heq
        exact h.serials.distinct hb hb' heq
  · obtain ⟨hpos, hle, hne⟩ := h.serials.permit hp hb
    refine ⟨hpos, hle, fun u hu => ?_⟩
    by_cases hus : u = s
    · rw [hus, setSession_self] at hu ⊢
      exact (hserial hu).2.2.2 hp hb
    · rw [setSession_other hus] at hu ⊢
      exact hne u hu
  · by_cases hus : u = s
    · rw [World.ActiveOn, hus, setSession_self] at hu
      rw [hus, setSession_self]
      exact (hactive hu.1 hu.2).1 hb
    · rw [World.ActiveOn, setSession_other hus] at hu
      rw [setSession_other hus]
      exact h.active hu hb
  · rw [World.ActiveOn] at hu hu'
    by_cases hus : u = s
    · by_contra hne
      rw [hus] at hu hne
      rw [setSession_other (Ne.symm hne)] at hu'
      rw [setSession_self] at hu
      exact (hactive hu.1 hu.2).2 u' (Ne.symm hne) hu'
    · rw [setSession_other hus] at hu
      by_cases hus' : u' = s
      · rw [hus', setSession_self] at hu'
        exact absurd hu ((hactive hu'.1 hu'.2).2 u hus)
      · rw [setSession_other hus'] at hu'
        exact h.single hu hu'
  · by_cases hu : u = s
    · subst hu
      rw [setSession_self] at hb hstate ⊢
      exact hpending hb hstate
    · rw [setSession_other hu] at hb hstate ⊢
      exact h.pending hb hstate
  · by_cases hu : u = s
    · rwa [hu, setSession_self]
    · rw [setSession_other hu] at hb ⊢
      exact h.attached hb

/-- A session changes its state and its pending request; it does not become active by that. -/
theorem Good.setSession (h : Good w) (howner : x.owner = (w.session s).owner)
    (hserial : x.serial = (w.session s).serial) (hactive : x.state = .ready ∨ x.state = .pending →
      (w.session s).state = .ready ∨ (w.session s).state = .pending)
    (hattached : x.state ≠ .unauthorized) (hpending : ∀ {a}, x.owner = some a → x.state = .pending →
      (∃ serial, .accepted a s serial x.pendingId ∈ w.trace) ∧
        ∀ s', .completed a s' x.pendingId ∉ w.trace) : Good (w.setSession s x) := by
  refine h.putSession (fun {a} ha => ?_) (fun {a} ha hx => ?_) hattached hpending
  · rw [howner] at ha
    rw [hserial]
    obtain ⟨hpos, hle⟩ := h.serials.session ha
    exact ⟨hpos, hle, fun u hu hb heq => hu (h.serials.distinct hb ha heq),
      fun hp hb => (h.serials.permit hp hb).2.2 s ha⟩
  · have hs : w.ActiveOn a s := ⟨howner ▸ ha, hactive hx⟩
    exact ⟨fun halive => (h.active hs halive).trans hserial.symm, fun u hu hau =>
      hu (h.single hau hs)⟩

theorem Good.decoder (h : Good w) (howner : (w.session s).owner = some a) (decoder : FrameDecoder) :
    Good (w.setSession s { w.session s with decoder }) :=
  h.setSession rfl rfl id (h.attached howner) h.pending

section

variable (w : World A S) (a : A) (s : S)

theorem closeLocked_log (trace : List (Event A S)) :
    closeLocked a s { w with trace } = { closeLocked a s w with trace } := by
  unfold Control.closeLocked
  dsimp only
  split <;> rfl

theorem closeLocked_trace : (closeLocked a s w).trace = w.trace := by
  unfold Control.closeLocked
  dsimp only
  split <;> rfl

theorem closeLocked_alive : ((closeLocked a s w).authority a).alive = (w.authority a).alive := by
  unfold Control.closeLocked
  dsimp only
  split
  · simp [World.setSession, World.setAuthority]
  · rfl

theorem closeLocked_self : ((closeLocked a s w).session s).state = .closed := by
  unfold Control.closeLocked
  dsimp only
  rw [setSession_self]

theorem closeLocked_other (hu : u ≠ s) : (closeLocked a s w).session u = w.session u := by
  unfold Control.closeLocked
  dsimp only
  rw [setSession_other hu]
  split <;> rfl

end

theorem Good.closeLocked (h : Good w) (howner : (w.session s).owner = some a) :
    Good (closeLocked a s w) := by
  have hclosed : Good (w.setSession s { w.session s with
      state := .closed, pendingId := 0, decoder := {} }) :=
    h.setSession rfl rfl (by simp) (by simp) (by simp)
  unfold Control.closeLocked
  dsimp only
  split
  · next hself =>
    -- Another active session would have the serial number of this one.
    refine hclosed.setAuthority (Nat.le_refl _) rfl rfl fun {u} hu halive => ?_
    have hserial := hclosed.active hu halive
    obtain rfl : u = s := by
      refine hclosed.serials.distinct hu.1 (by rw [setSession_self]; exact howner) ?_
      rw [← hserial, setSession_self]
      exact hself
    rw [World.ActiveOn, setSession_self] at hu
    simp at hu
  · exact hclosed

-- Requests

theorem Good.logAccepted (h : Good w) {id : Nat} (halive : (w.authority a).alive = true)
    (hid : id = (w.authority a).lastRequest + 1) (hactive : w.ActiveOn a s)
    (howner : x.owner = some a) (hserial : x.serial = (w.session s).serial)
    (hstate : x.state = .pending) (hpending : x.pendingId = id) :
    Good { (w.setAuthority a { w.authority a with lastRequest := id }).setSession s x with
      trace := .accepted a s serial id :: w.trace } := by
  have hlast : (acceptedIds a w.trace).length + 1 = id := by rw [h.last, hid]
  have hnew : ∀ s', .completed a s' id ∉ w.trace := fun s' hmem => by
    have hin := h.history.completed_mem hmem
    rw [h.history.consecutive, mem_range'_1] at hin
    omega
  have hcounted : Good { w.setAuthority a { w.authority a with lastRequest := id } with
      trace := .accepted a s serial id :: w.trace } :=
    h.log (e := .accepted a s serial id) ⟨hlast.symm, h.not_revoked halive⟩ (Nat.le_refl _) h.active
      (by rw [Event.authority, acceptedIds_cons_accepted, length_append,
        length_singleton, hlast]) nofun
      fun hmem => h.revoked ((mem_cons.mp hmem).resolve_left nofun)
  refine hcounted.setSession (howner.trans hactive.1.symm) hserial (fun _ => hactive.2)
    (by rw [hstate]; nofun) fun {b} hb _ => ?_
  obtain rfl : a = b := Option.some.inj (howner.symm.trans hb)
  rw [hpending]
  exact ⟨⟨serial, mem_cons_self⟩, fun s' hmem =>
    hnew s' ((mem_cons.mp hmem).resolve_left nofun)⟩

theorem admit_requestId (h : admitRequest owner decoder = .ok command) :
    decoder.decoded.requestId = owner.lastRequest + 1 := by
  unfold admitRequest at h
  dsimp only at h
  repeat' split at h
  all_goals first
    | cases h
    | next hid => exact not_not.mp hid

section

variable (h : Good w)

include h

theorem Good.receive (bytes : List UInt8) : Good (receive s bytes w).2 := by
  unfold Control.receive
  split
  · exact h
  next a howner =>
  dsimp only
  split
  · exact h
  next hlive =>
  obtain ⟨halive, hactive⟩ := h.live howner (not_not.mp hlive)
  split
  · exact h
  generalize (w.session s).decoder.feed bytes = fed
  obtain ⟨part, decoder⟩ := fed
  have hfed := h.decoder howner decoder
  have howner' : ((w.setSession s { w.session s with decoder }).session s).owner = some a := by
    rw [setSession_self]
    exact howner
  dsimp only
  split
  · exact hfed.closeLocked howner'
  split
  · exact hfed
  split
  · exact hfed.closeLocked howner'
  · next parsed hadmit =>
    have hactive' : (w.setSession s { w.session s with decoder }).ActiveOn a s := by
      rw [World.ActiveOn, setSession_self]
      exact hactive
    refine Good.tickets (hfed.logAccepted halive (admit_requestId hadmit) hactive' ?_ ?_ rfl rfl) _
    · exact howner'
    · rfl

theorem Good.complete (ticket : Ticket A) (result : HostCompletion) :
    Good (complete s ticket result w).2 := by
  unfold Control.complete
  split
  · exact h
  next a howner =>
  dsimp only
  split
  · exact h
  next hlive =>
  obtain ⟨halive, hactive⟩ := h.live howner (not_not.mp hlive)
  split
  · exact h
  next hmatch =>
  split
  · exact h
  generalize result.execution (w.authority a).execution = execution
  obtain ⟨hpending, -, -, hid⟩ : (w.session s).state = .pending ∧ ticket.owner = some a ∧
      ticket.session = (w.session s).serial ∧ ticket.id = (w.session s).pendingId := by
    simpa [not_or] using hmatch
  obtain ⟨haccepted, hcompleted⟩ := h.pending howner hpending
  rw [← hid] at haccepted hcompleted
  -- The session is the only one of its authority that waits for a completion.
  have hothers : ∀ u, u ≠ s → (w.session u).owner = some a → (w.session u).state ≠ .pending :=
    fun u hu howner' hpending' => hu (h.single ⟨howner', .inr hpending'⟩ hactive)
  split
  · have hclosed := (h.execution (a := a) execution).closeLocked (s := s) howner
    rw [closeLocked_log]
    refine hclosed.logCompleted (closeLocked_trace _ a s) ?_ haccepted hcompleted ?_
    · rw [closeLocked_alive, setAuthority_self]
      exact halive
    · intro u howner'
      by_cases hu : u = s
      · subst hu
        rw [closeLocked_self]
        nofun
      · rw [closeLocked_other _ _ _ hu] at howner' ⊢
        exact hothers u hu howner'
  · have hready : Good (w.setSession s { w.session s with pendingId := 0, state := .ready }) :=
      h.setSession rfl rfl (fun _ => hactive.2) nofun nofun
    have hexecution := hready.execution (a := a) execution
    refine hexecution.logCompleted rfl (by rw [setAuthority_self]; exact halive)
      haccepted hcompleted ?_
    intro u howner'
    by_cases hu : u = s
    · subst hu
      rw [setAuthority_session, setSession_self]
      nofun
    · rw [setAuthority_session, setSession_other hu] at howner' ⊢
      exact hothers u hu howner'

-- Attachment

/-- A session takes the free place of an authority, with the serial number of a permit that
is gone. -/
theorem Good.occupy (halive : (w.authority a).alive = true)
    (hfree : (w.authority a).activeSession = 0) (howner : x.owner = some a)
    (hstate : x.state = .ready) (hissued : 1 ≤ x.serial ∧ x.serial ≤ (w.authority a).issued)
    (hsessions : ∀ u, (w.session u).owner = some a → (w.session u).serial ≠ x.serial)
    (hpermits : ∀ {i : Nat} {p : Permit A}, w.permits[i]? = some p → p.owner = some a →
      x.serial ≠ p.serial)
    :
    Good ((w.setAuthority a { w.authority a with activeSession := x.serial }).setSession s x) := by
  have hnobody : ∀ u, ¬ w.ActiveOn a u := fun u hu => by
    have hserial := h.active hu halive
    have := (h.serials.session hu.1).1
    omega
  have hplaced : Good (w.setAuthority a { w.authority a with activeSession := x.serial }) :=
    h.setAuthority (Nat.le_refl _) rfl rfl fun hu => absurd hu (hnobody _)
  refine hplaced.putSession (fun {b} hb => ?_) (fun {b} hb _ => ?_) (by rw [hstate]; nofun)
    (fun _ hpending => nomatch hstate.symm.trans hpending)
  all_goals obtain rfl : a = b := Option.some.inj (howner.symm.trans hb)
  · rw [setAuthority_self]
    exact ⟨hissued.1, hissued.2, fun u _ => hsessions u, hpermits⟩
  · rw [setAuthority_self]
    exact ⟨fun _ => rfl, fun u _ => hnobody u⟩

theorem Good.attach (place : Nat) (origin : LaunchOrigin) (peer : AuthenticatedLaunchPeer) :
    Good (attach s place origin peer w).2 := by
  have htaken := h.takePermit place (w.permits.getD place {})
  fun_cases Control.attach s place origin peer w with
  | case8 permit _ _ a howner _ halive _ _ _ hfree => ?_
  | _ => exact htaken
  rw [not_or] at halive
  have hpermit : w.permits[place]? = some permit := by
    simp only [permit, getD_eq_getElem?_getD] at howner ⊢
    cases hplace : w.permits[place]? with
    | none =>
      rw [hplace] at howner
      cases howner
    | some permit => rfl
  obtain ⟨hpos, hle, hsessions⟩ := h.serials.permit hpermit howner
  refine htaken.occupy (x := { w.session s with
    serial := permit.serial, owner := some a, state := .ready })
    (not_not.mp halive.1) (not_not.mp hfree) rfl rfl ⟨hpos, hle⟩ hsessions ?_
  intro i p hp hb heq
  obtain ⟨hij, hp⟩ := permit_of_set hp hb
  exact hij (h.serials.permits hp hpermit hb howner heq.symm)

-- Runs

omit [DecidableEq S] in
theorem Good.confirmExecutionState (value : ExecutionState) :
    Good (confirmExecutionState s value w).2 := by
  fun_cases Control.confirmExecutionState s value w with
  | case4 => exact h.execution value
  | _ => exact h

theorem Good.finishStream : Good (finishStream s w).2 := by
  unfold Control.finishStream
  split
  · exact h
  next howner =>
  dsimp only
  split
  · exact h
  · exact h.closeLocked howner

theorem Good.disconnect : Good (disconnect s w) := by
  unfold Control.disconnect
  split
  · exact h.setSession rfl rfl (by simp) (by simp) (by simp)
  · next howner => exact h.closeLocked howner

theorem Good.call (call : Call A S) : Good (w.call call) := by
  cases call with
  | issuePermit a => exact h.issuePermit
  | movePermit place =>
    simp only [World.call]
    split
    · exact h
    · next hp => exact h.movePermit hp
  | revoke a => exact h.revoke
  | attachLauncher s permit peer => exact h.attach permit _ peer
  | attachConsole s permit => exact h.attach permit _ _
  | receive s bytes => exact h.receive bytes
  | complete s place result =>
    simp only [World.call]
    split
    · exact h
    · next ticket _ => exact h.complete ticket result
  | moveTicket place =>
    simp only [World.call]
    split
    · exact h
    · exact h.tickets _
  | confirmExecutionState s value => exact h.confirmExecutionState value
  | finishStream s => exact h.finishStream
  | disconnect s => exact h.disconnect

theorem Good.run (calls : List (Call A S)) : Good (w.run calls) := by
  induction calls generalizing w with
  | nil => exact h
  | cons call calls ih => exact ih (h.call call)

end

omit [DecidableEq A] in
theorem liveLocked_dead (session : Session A) (h : owner.alive = false) :
    liveLocked owner session = .revoked := by
  simp [liveLocked, h]

structure Safe (w : World A S) : Prop where
  /-- At most one session is active per authority. -/
  single : ∀ {a s s'}, w.ActiveOn a s → w.ActiveOn a s' → s = s'
  /-- The requests of an authority are accepted in the order 1, 2, 3, … -/
  consecutive : ∀ a, acceptedIds a w.trace = List.range' 1 (acceptedIds a w.trace).length
  /-- No request is completed twice. -/
  once : ∀ a, (completedIds a w.trace).Nodup
  /-- A request was accepted before it is completed, and by no other session. -/
  own : ∀ {later earlier a s id}, w.trace = later ++ .completed a s id :: earlier →
    (∃ serial, .accepted a s serial id ∈ earlier) ∧
      ∀ s' serial, .accepted a s' serial id ∈ w.trace → s' = s
  /-- Nothing is accepted or completed after the authority was revoked. -/
  revoked : ∀ {later earlier a}, w.trace = later ++ .revoked a :: earlier →
    (∀ s serial id, .accepted a s serial id ∉ later) ∧ ∀ s id, .completed a s id ∉ later
  /-- Sessions of a revoked authority refuse bytes and completions, without any effect. -/
  refused : ∀ {a s}, .revoked a ∈ w.trace → (w.session s).owner = some a →
    (∀ bytes, receive s bytes w = (⟨.revoked, 0, none⟩, w)) ∧
      ∀ ticket result, complete s ticket result w = (.revoked, w)

theorem Good.safe (h : Good w) : Safe w where
  single := h.single
  consecutive := h.history.consecutive
  once := h.history.once
  own {later earlier a s id} hsplit := by
    have hhistory := h.history
    rw [hsplit] at hhistory ⊢
    obtain ⟨serial, hacc⟩ := hhistory.split.1.1
    have hmem : .accepted a s serial id ∈ later ++ .completed a s id :: earlier :=
      mem_append_right _ (mem_cons_of_mem _ hacc)
    exact ⟨⟨serial, hacc⟩, fun s' serial' hacc' => hhistory.acceptor hmem hacc'⟩
  revoked hsplit := h.history.revoked hsplit
  refused {a s} hrevoked howner := by
    have hdead := liveLocked_dead (w.session s) (h.revoked hrevoked)
    constructor
    · intro bytes
      simp [Control.receive, howner, hdead]
    · intro ticket result
      simp [Control.complete, howner, hdead]

/-- Hosts may call in any order, with any bytes. -/
theorem run_session_safe (config : A → LaunchConfig) (calls : List (Call A S)) :
    Safe ((World.initial config).run calls) :=
  ((Good.initial config).run calls).safe

def permitIds (a : A) (serial : Nat) (trace : List (Event A S)) : List Nat :=
  trace.reverse.filterMap fun
    | .accepted a' _ serial' id => if a' = a ∧ serial' = serial then some id else none
    | _ => none

def statusFrame (id : UInt8) : List UInt8 :=
  [0x55, 0x57, 0x43, 0x31, 1, 0, 1, 0, 0, 0, 0, 0, 0, 0, 0, 0] ++ List.replicate 16 1 ++
    [1, 0, 0, 0, 0, 0, 0, 0] ++ [id, 0, 0, 0, 0, 0, 0, 0]

def consoleConfig : LaunchConfig where
  debugEnabled := true
  compiler := .llvm
  instanceId := List.replicate 16 1
  vmProcess := 7
  origin := .console

/-- The session of a second permit does not start with request 1: it goes on where the session
of the first permit stopped. -/
theorem run_secondPermit_continues :
    let w := (World.initial fun _ => consoleConfig : World Unit Bool).run
      [.issuePermit (), .attachConsole false 0, .receive false (statusFrame 1), .disconnect false,
        .issuePermit (), .attachConsole true 1, .receive true (statusFrame 2)]
    permitIds () 1 w.trace = [1] ∧ permitIds () 2 w.trace = [2] := by
  decide +kernel

end Uwvm2.Control
