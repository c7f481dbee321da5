import Uwvm2.Storage.CompactNumeric

/-!
# The lifecycle of a compact slot

What a history of events has to be for slots, tokens and readers to be safe, and
the proof outline that keeps it: an invariant of the shared state, an assertion for
every position of a thread, and what a thread may do to the others. The outline
follows the locks. What the publication lock protects stays as it is while a thread
holds it, the phase leaves `published` only under the registry lock, and live bits
are only cleared under exclusive admission.
-/

namespace Uwvm2.Storage.CompactNumeric

variable {T D : Type}

-- Histories

/-- Every event of a history, latest first, is justified by the events before it. -/
def Justified {E : Type} (P : List E → E → Prop) : List E → Prop
  | [] => True
  | e :: earlier => P earlier e ∧ Justified P earlier

def Event.Issues (token : Nat) : Event T D → Prop
  | .reserved none first => first ≤ token ∧ token < first + reservedWidth
  | .appended _ _ issued _ => issued = token
  | _ => False

/-- What has to come before an event. -/
def Lifecycle (earlier : List (Event T D)) : Event T D → Prop
  -- neither the token nor the slot was issued before, and the slot was not swept
  | .appended d slot token _ =>
    (∀ e ∈ earlier, ¬ e.Issues token) ∧ (∀ token' bits', .appended d slot token' bits' ∉ earlier) ∧
      .swept d slot ∉ earlier
  | .reserved none first =>
    ∀ token, first ≤ token → token < first + reservedWidth → ∀ e ∈ earlier, ¬ e.Issues token
  -- the slot was appended, and neither swept nor in a range whose retirement began
  | .acquired id d slot token =>
    (∃ bits, .appended d slot token bits ∈ earlier) ∧ .swept d slot ∉ earlier ∧
      .retireBegan d ∉ earlier ∧ ∀ d' slot' token', .acquired id d' slot' token' ∉ earlier
  -- a reader that was not reset returns the bits appended for its token
  | .read id bits =>
    .reset id ∉ earlier ∧ ∃ d slot token bits', bits = some bits' ∧
      .acquired id d slot token ∈ earlier ∧ .appended d slot token bits' ∈ earlier
  | .swept d slot => ∃ token bits, .appended d slot token bits ∈ earlier
  -- every reader of the range was reset
  | .released d => ∀ id slot token, .acquired id d slot token ∈ earlier → .reset id ∈ earlier
  | _ => True

-- The invariant

def reservations (trace : List (Event T D)) : List (Option T × Nat) :=
  trace.filterMap fun
    | .reserved publisher first => some (publisher, first)
    | _ => none

/-- Blocks lie apart below the issuer, and no two ranges are published from one. -/
structure TokensOk (issuer : Nat) (trace : List (Event T D)) : Prop where
  apart : (reservations trace).Pairwise fun a b => b.2 + reservedWidth ≤ a.2
  below : ∀ a ∈ reservations trace, a.2 + reservedWidth ≤ issuer
  reserved : ∀ d first, .published d first ∈ trace → ∃ t, .reserved (some t) first ∈ trace
  unique : ∀ d d' first, .published d first ∈ trace → .published d' first ∈ trace → d = d'

/-- Acquired readers hold a lease, and each descriptor counts its own. -/
structure ReadersOk [Target] [DecidableEq D] (readers : D → Nat) (leases : List (Lease T))
    (held : List (Reader D)) (nextReader : Nat) (trace : List (Event T D)) : Prop where
  leased : ∀ r ∈ held, .reader r.id ∈ leases
  nodup : (held.map Reader.id).Nodup
  count : ∀ d, readers d = held.countP (·.descriptor = d)
  count_le : ∀ d, readers d ≤ sizeMax
  acquired : ∀ r ∈ held, .acquired r.id r.descriptor r.slot r.token ∈ trace ∧ .reset r.id ∉ trace ∧
    ∃ bits, .appended r.descriptor r.slot r.token bits ∈ trace
  lt : ∀ id d slot token, .acquired id d slot token ∈ trace → id < nextReader
  reset_lt : ∀ id, .reset id ∈ trace → id < nextReader
  held_or_reset : ∀ id d slot token, .acquired id d slot token ∈ trace →
    ⟨id, d, slot, token⟩ ∈ held ∨ .reset id ∈ trace

/-- The slots of one descriptor against what happened to them. -/
structure SlotsOk (d : D) (x : Descriptor T) (leases : List (Lease T)) (held : List (Reader D))
    (trace : List (Event T D)) : Prop where
  capacity_le : x.capacity ≤ reservedWidth
  fresh : x.phase = .prepared → x.initializedFrontier = 0
  live_le : ∀ i, x.isLive i → i < x.initializedFrontier ∨
    i = x.initializedFrontier ∧ ∃ t, x.publishLock = some t ∧ .call t ∈ leases
  payload_length : .released d ∉ trace → x.payload.length = x.capacity
  appended : ∀ i token bits, .appended d i token bits ∈ trace → i < x.initializedFrontier ∧
    i < x.capacity ∧ token = x.tokenBegin + i ∧
    (.released d ∉ trace → x.payload[i]? = some bits)
  initialized : ∀ i, i < x.initializedFrontier →
    ∃ bits, .appended d i (x.tokenBegin + i) bits ∈ trace
  swept : ∀ i, .swept d i ∈ trace → i < x.initializedFrontier ∧ x.isLive i = false
  retiring : .retireBegan d ∈ trace →
    (x.registeredNode = false ∨ x.phase ≠ .published) ∧ x.phase ≠ .prepared
  released : .released d ∈ trace →
    (x.phase = .closing ∨ x.phase = .retired) ∧ ∀ r ∈ held, r.descriptor ≠ d
  published : ∀ first, .published d first ∈ trace → x.tokenBegin = first ∧ x.pendingNode = false
  published_phase : x.phase = .published → .published d x.tokenBegin ∈ trace
  published_frontier : 0 < x.initializedFrontier → .published d x.tokenBegin ∈ trace

structure Good [Target] [DecidableEq D] (s : Shared T D) : Prop where
  outer : s.exclusive.isSome → ∀ l ∈ s.leases, l.isOuter
  tokens : TokensOk s.nextObjectTokenId s.trace
  readers : ReadersOk (fun d => (s.descriptor d).readers) s.leases s.held s.nextReader s.trace
  slots : ∀ d, SlotsOk d (s.descriptor d) s.leases s.held s.trace
  lifecycle : Justified Lifecycle s.trace

-- Assertions

namespace Position

def page : Position D → Option D
  | .leaving _ page _ _ => page
  | .publishLocked d | .publishIssuer d | .publishReserve d _ | .publishReserved d _
  | .publishScan d _ | .publishLinked d => some d
  | .appendLocked d _ | .appendFrontier d _ | .appendStore d _ _ | .appendLoadLive d _ _
  | .appendStoreLive d _ _ _ | .appendPublish d _ _ => some d
  | .retireLocked d | .retirePhase d | .retirePrepared d | .retireUnlink d | .retireClose d =>
    some d
  | .finishPhase d | .finishReaders d | .finishRelease d | .finishRetired d => some d
  | _ => none

def registry : Position D → Bool
  | .leaving registry _ _ _ => registry
  | .publishScan _ _ | .publishLinked _ => true
  | .retirePhase _ | .retirePrepared _ | .retireUnlink _ | .retireClose _ => true
  | .acquireScan _ | .acquireFound _ _ | .acquireCheck _ _ | .acquireFrontier _ _
  | .acquireLive _ _ _ | .acquireReaders _ _ _ | .acquireCount _ _ _ => true
  | _ => false

def leased : Position D → Bool
  | .leaving _ _ lease _ => lease
  | .publishAdmitted _ | .publishLocked _ | .publishIssuer _ | .publishReserve _ _
  | .publishReserved _ _ | .publishScan _ _ | .publishLinked _ => true
  | .appendAdmitted _ _ | .appendLocked _ _ | .appendFrontier _ _ | .appendStore _ _ _
  | .appendLoadLive _ _ _ | .appendStoreLive _ _ _ _ | .appendPublish _ _ _ => true
  | .acquireAdmitted _ | .acquireScan _ | .acquireFound _ _ | .acquireStore _ _
  | .acquireRelock _ _ | .acquireCheck _ _ | .acquireFrontier _ _ | .acquireLive _ _ _
  | .acquireReaders _ _ _ | .acquireCount _ _ _ => true
  | _ => false

def stopped : Position D → Bool
  | .marksPhase _ | .marksReaders _ | .marksClear _ => true
  | .markReaders _ _ | .markPhase _ _ | .markFrontier _ _ | .markLive _ _ | .markSet _ _ => true
  | .sweepPhase _ | .sweepReaders _ | .sweepLoad _ _ _ | .sweepStore _ _ _ _ => true
  | _ => false

def quiet : Position D → Bool
  | .appendPublish _ _ _ => false
  | _ => true

end Position

structure Holds (t : T) (p : Position D) (s : Shared T D) : Prop where
  registry : s.registryLock = some t ↔ p.registry = true
  page : ∀ d, (s.descriptor d).publishLock = some t ↔ p.page = some d
  lease : p.leased → .call t ∈ s.leases
  stopped : p.stopped → s.exclusive = some t
  quiet : ∀ d, p.page = some d → p.quiet → ∀ i, (s.descriptor d).isLive i →
    i < (s.descriptor d).initializedFrontier

def Facts [Target] (t : T) (s : Shared T D) : Position D → Prop
  | .publishIssuer d | .publishReserve d _ =>
    (s.descriptor d).phase = .prepared ∧ (s.descriptor d).pendingNode = true
  | .publishReserved d first | .publishScan d first =>
    (s.descriptor d).phase = .prepared ∧ (s.descriptor d).pendingNode = true ∧
      .reserved (some t) first ∈ s.trace ∧ ∀ d', .published d' first ∉ s.trace
  | .publishLinked d =>
    (s.descriptor d).phase = .prepared ∧ .published d (s.descriptor d).tokenBegin ∈ s.trace
  | .appendFrontier d _ => (s.descriptor d).phase = .published
  | .appendStore d _ index =>
    (s.descriptor d).phase = .published ∧ (s.descriptor d).initializedFrontier = index ∧
      index < (s.descriptor d).capacity
  | .appendLoadLive d bits index | .appendPublish d bits index =>
    (s.descriptor d).phase = .published ∧ (s.descriptor d).initializedFrontier = index ∧
      index < (s.descriptor d).capacity ∧ (s.descriptor d).payload[index]? = some bits
  | .appendStoreLive d bits index old =>
    (s.descriptor d).phase = .published ∧ (s.descriptor d).initializedFrontier = index ∧
      index < (s.descriptor d).capacity ∧ (s.descriptor d).payload[index]? = some bits ∧
      old = (s.descriptor d).live (index / 64)
  | .sweepStore d word _ old => old = (s.descriptor d).live word
  | .retirePrepared d => (s.descriptor d).phase = .prepared
  | .retireUnlink d => (s.descriptor d).phase = .published
  | .retireClose d => (s.descriptor d).phase = .published ∧ (s.descriptor d).registeredNode = false
  | .finishReaders d => (s.descriptor d).phase = .closing
  | .finishRelease d => (s.descriptor d).phase = .closing ∧ (s.descriptor d).readers = 0
  | .finishRetired d => (s.descriptor d).phase = .closing
  | .acquireFrontier _ d => (s.descriptor d).phase = .published ∧ .retireBegan d ∉ s.trace
  | .acquireLive token d slot =>
    (s.descriptor d).phase = .published ∧ .retireBegan d ∉ s.trace ∧
      token = (s.descriptor d).tokenBegin + slot ∧ slot < (s.descriptor d).initializedFrontier
  | .acquireReaders token d slot =>
    (s.descriptor d).phase = .published ∧ .retireBegan d ∉ s.trace ∧
      token = (s.descriptor d).tokenBegin + slot ∧ slot < (s.descriptor d).initializedFrontier ∧
      (s.descriptor d).isLive slot
  | .acquireCount token d slot =>
    (s.descriptor d).phase = .published ∧ .retireBegan d ∉ s.trace ∧
      token = (s.descriptor d).tokenBegin + slot ∧ slot < (s.descriptor d).initializedFrontier ∧
      (s.descriptor d).isLive slot ∧ (s.descriptor d).readers < sizeMax
  | .leaveReader id => id < s.nextReader ∧ ∀ r ∈ s.held, r.id ≠ id
  | _ => True

structure Changes (t : T) (s : Shared T D) (x x' : Descriptor T) : Prop where
  capacity : x'.capacity = x.capacity
  publishLock : ∀ u, u ≠ t → (x'.publishLock = some u ↔ x.publishLock = some u)
  page : x.publishLock ≠ some t → x'.phase = x.phase ∧ x'.pendingNode = x.pendingNode ∧
    x'.payload = x.payload ∧ x'.initializedFrontier = x.initializedFrontier ∧
    ∀ i, x'.isLive i → x.isLive i
  frontier : x.initializedFrontier ≤ x'.initializedFrontier
  registry : s.registryLock ≠ some t →
    x'.registeredNode = x.registeredNode ∧ (x.phase = .published → x'.phase = .published)
  live : s.exclusive ≠ some t → (.call t ∉ s.leases ∨ x.publishLock ≠ some t) → x'.live = x.live
  live_mono : s.exclusive ≠ some t → ∀ i, x.isLive i → x'.isLive i
  readers : x'.readers ≤ x.readers ∨ s.registryLock = some t ∧ x.phase = .published
  tokenBegin : s.registryLock ≠ some t ∨ x.phase ≠ .prepared → x'.tokenBegin = x.tokenBegin

structure Does (t : T) (s s' : Shared T D) : Prop where
  registryLock : ∀ u, u ≠ t → (s'.registryLock = some u ↔ s.registryLock = some u)
  exclusive : ∀ u, u ≠ t → s.exclusive = some u → s'.exclusive = some u
  leases : ∀ u, u ≠ t → .call u ∈ s.leases → .call u ∈ s'.leases
  descriptor : ∀ d, Changes t s (s.descriptor d) (s'.descriptor d)
  trace : ∀ e ∈ s.trace, e ∈ s'.trace
  published : ∀ d first, .published d first ∈ s'.trace →
    .published d first ∈ s.trace ∨ .reserved (some t) first ∈ s.trace
  retireBegan : ∀ d, .retireBegan d ∈ s'.trace →
    .retireBegan d ∈ s.trace ∨ s.registryLock = some t
  nextReader : s.nextReader ≤ s'.nextReader
  held : ∀ r ∈ s'.held, r ∈ s.held ∨ s.nextReader ≤ r.id

def At [Target] (t : T) (p : Position D) (s : Shared T D) : Prop := Holds t p s ∧ Facts t s p

-- Stability

variable [DecidableEq D]

section

omit [DecidableEq D]

theorem mem_reservations :
    (publisher, first) ∈ reservations trace ↔ .reserved publisher first ∈ trace := by
  simp only [reservations, List.mem_filterMap]
  constructor
  · rintro ⟨e, he, h⟩
    split at h
    · cases h
      exact he
    · cases h
  · exact fun h => ⟨_, h, rfl⟩

theorem apart_of_ne {blocks : List (Option T × Nat)}
    (h : blocks.Pairwise fun a b => b.2 + reservedWidth ≤ a.2)
    (ha : a ∈ blocks) (hb : b ∈ blocks) (hne : a ≠ b) :
    b.2 + reservedWidth ≤ a.2 ∨ a.2 + reservedWidth ≤ b.2 := by
  let Apart (x y : Option T × Nat) : Prop :=
    y.2 + reservedWidth ≤ x.2 ∨ x.2 + reservedWidth ≤ y.2
  have hsymm : Std.Symm Apart := ⟨fun _ _ hxy => hxy.symm⟩
  have hapart : blocks.Pairwise Apart := h.imp Or.inl
  exact hapart.forall ha hb hne

theorem TokensOk.eq_of_overlap (h : TokensOk issuer trace) (ha : .reserved p a ∈ trace)
    (hb : .reserved q b ∈ trace)
    (hab : a < b + reservedWidth) (hba : b < a + reservedWidth) : p = q ∧ a = b := by
  by_contra hne
  have hpairs : (p, a) ≠ (q, b) := fun heq => hne (Prod.mk.inj heq)
  rcases apart_of_ne h.apart (mem_reservations.mpr ha) (mem_reservations.mpr hb)
    hpairs with hab' | hab'
  · exact absurd hab (by simpa using hab')
  · exact absurd hba (by simpa using hab')

end

theorem first_lt : first < first + reservedWidth := Nat.lt_add_of_pos_right (by decide)

section

omit [DecidableEq D]

theorem Holds.page_ne (hu : u ≠ t) (h : Holds u p s) (hp : p.page = some d) :
    (s.descriptor d).publishLock ≠ some t := by
  rw [(h.page d).mpr hp]
  exact fun heq => hu (Option.some.inj heq)

theorem Holds.registry_ne (hu : u ≠ t)
    (h : Holds u p s) (hp : p.registry = true) : s.registryLock ≠ some t := by
  rw [h.registry.mpr hp]
  exact fun heq => hu (Option.some.inj heq)

theorem Holds.stable (hu : u ≠ t) (h : Holds u p s) (hd : Does t s s') : Holds u p s' where
  registry := (hd.registryLock u hu).trans h.registry
  page d := ((hd.descriptor d).publishLock u hu).trans (h.page d)
  lease hl := hd.leases u hu (h.lease hl)
  stopped hp := hd.exclusive u hu (h.stopped hp)
  quiet d hp hq i hi := by
    obtain ⟨_, _, _, hfrontier, hlive⟩ := (hd.descriptor d).page (h.page_ne hu hp)
    rw [hfrontier]
    exact h.quiet d hp hq i (hlive i hi)

end

variable [Target]

theorem Good.exclusive_none {s : Shared T D} (h : Good s) (ht : .call t ∈ s.leases) :
    s.exclusive = none := by
  cases hx : s.exclusive with
  | none => rfl
  | some u => cases h.outer (by rw [hx]; rfl) _ ht

theorem Good.exclusive_ne {s : Shared T D} (hs : Good s) (h : Holds u p s) (hl : p.leased = true) :
    s.exclusive ≠ some t := by
  rw [hs.exclusive_none (h.lease hl)]
  exact nofun

/-- A thread that looks at a published range under the registry lock keeps seeing it
published, with the same tokens, not in retirement and with the same live slots. -/
theorem Holds.acquiring_stable (hu : u ≠ t) (hs : Good s) (h : Holds u p s) (hd : Does t s s')
    (hr : p.registry = true) (hl : p.leased = true) {d : D}
    (hphase : (s.descriptor d).phase = .published) (hretire : .retireBegan d ∉ s.trace) :
    (s'.descriptor d).phase = .published ∧ .retireBegan d ∉ s'.trace ∧
      (s'.descriptor d).tokenBegin = (s.descriptor d).tokenBegin ∧
      (∀ i, (s.descriptor d).isLive i → (s'.descriptor d).isLive i) ∧
      (s'.descriptor d).readers ≤ (s.descriptor d).readers := by
  have hreg := h.registry_ne hu hr
  have hx := hd.descriptor d
  refine ⟨(hx.registry hreg).2 hphase, fun hb => ?_, hx.tokenBegin (.inl hreg),
    hx.live_mono (hs.exclusive_ne h hl), hx.readers.resolve_right fun hr' => hreg hr'.1⟩
  exact (hd.retireBegan d hb).elim hretire hreg

theorem Facts.stable {s : Shared T D} (hu : u ≠ t) (hs : Good s) (h : Holds u p s)
    (hf : Facts u s p) (hd : Does t s s') : Facts u s' p := by
  have hpage {d : D} (hp : p.page = some d) := (hd.descriptor d).page (h.page_ne hu hp)
  cases p with
  | publishIssuer d | publishReserve d =>
    obtain ⟨hphase, hpending, _⟩ := hpage rfl
    exact ⟨hphase.trans hf.1, hpending.trans hf.2⟩
  | publishReserved d first | publishScan d first =>
    obtain ⟨hphase, hpending, _⟩ := hpage rfl
    refine ⟨hphase.trans hf.1, hpending.trans hf.2.1, hd.trace _ hf.2.2.1, fun d' hd' => ?_⟩
    rcases hd.published d' first hd' with hold | hnew
    · exact hf.2.2.2 d' hold
    · have := hs.tokens.eq_of_overlap hf.2.2.1 hnew first_lt first_lt
      exact hu (Option.some.inj this.1)
  | publishLinked d =>
    have htoken := (hd.descriptor d).tokenBegin (.inl (h.registry_ne hu rfl))
    exact ⟨(hpage rfl).1.trans hf.1, htoken ▸ hd.trace _ hf.2⟩
  | appendFrontier d | retirePrepared d | finishReaders d | finishRetired d | retireUnlink d =>
    exact (hpage rfl).1.trans hf
  | appendStore d bits index =>
    obtain ⟨hphase, _, _, hfrontier, _⟩ := hpage rfl
    exact ⟨hphase.trans hf.1, hfrontier.trans hf.2.1, (hd.descriptor d).capacity ▸ hf.2.2⟩
  | appendLoadLive d bits index | appendPublish d bits index =>
    obtain ⟨hphase, _, hpayload, hfrontier, _⟩ := hpage rfl
    exact ⟨hphase.trans hf.1, hfrontier.trans hf.2.1, (hd.descriptor d).capacity ▸ hf.2.2.1,
      hpayload ▸ hf.2.2.2⟩
  | appendStoreLive d bits index old =>
    obtain ⟨hphase, _, hpayload, hfrontier, _⟩ := hpage rfl
    obtain ⟨hf₁, hf₂, hf₃, hf₄, hf₅⟩ := hf
    have hlive := (hd.descriptor d).live (hs.exclusive_ne h rfl) (.inr (h.page_ne hu rfl))
    exact ⟨hphase.trans hf₁, hfrontier.trans hf₂, (hd.descriptor d).capacity ▸ hf₃, hpayload ▸ hf₄,
      hlive ▸ hf₅⟩
  | sweepStore d word count old =>
    -- no other thread has a lease, so none is on the way to set a live bit
    have hexclusive := h.stopped rfl
    have hne : s.exclusive ≠ some t := by
      rw [hexclusive]
      exact fun heq => hu (Option.some.inj heq)
    have hcall : .call t ∉ s.leases := fun hc => by
      cases hexclusive.symm.trans (hs.exclusive_none hc)
    exact hf.trans (congrFun ((hd.descriptor d).live hne (.inl hcall)) word).symm
  | retireClose d =>
    exact ⟨(hpage rfl).1.trans hf.1,
      ((hd.descriptor d).registry (h.registry_ne hu rfl)).1.trans hf.2⟩
  | finishRelease d =>
    refine ⟨(hpage rfl).1.trans hf.1, ?_⟩
    rcases (hd.descriptor d).readers with hle | ⟨_, hpublished⟩
    · exact Nat.le_zero.mp (hf.2 ▸ hle)
    · cases hf.1.symm.trans hpublished
  | acquireFrontier token d =>
    obtain ⟨hphase, hretire, _⟩ := h.acquiring_stable hu hs hd rfl rfl hf.1 hf.2
    exact ⟨hphase, hretire⟩
  | acquireLive token d slot =>
    obtain ⟨hf₁, hf₂, htok, hslot⟩ := hf
    obtain ⟨hphase, hretire, htoken, _⟩ := h.acquiring_stable hu hs hd rfl rfl hf₁ hf₂
    exact ⟨hphase, hretire, htoken ▸ htok, Nat.lt_of_lt_of_le hslot (hd.descriptor d).frontier⟩
  | acquireReaders token d slot =>
    obtain ⟨hf₁, hf₂, htok, hslot, hl⟩ := hf
    obtain ⟨hphase, hretire, htoken, hlive, _⟩ := h.acquiring_stable hu hs hd rfl rfl hf₁ hf₂
    exact ⟨hphase, hretire, htoken ▸ htok, Nat.lt_of_lt_of_le hslot (hd.descriptor d).frontier,
      hlive _ hl⟩
  | acquireCount token d slot =>
    obtain ⟨hf₁, hf₂, htok, hslot, hl, hlt⟩ := hf
    obtain ⟨hphase, hretire, htoken, hlive, hreaders⟩ :=
      h.acquiring_stable hu hs hd rfl rfl hf₁ hf₂
    exact ⟨hphase, hretire, htoken ▸ htok, Nat.lt_of_lt_of_le hslot (hd.descriptor d).frontier,
      hlive _ hl, Nat.lt_of_le_of_lt hreaders hlt⟩
  | leaveReader id =>
    refine ⟨Nat.lt_of_lt_of_le hf.1 hd.nextReader, fun r hr => ?_⟩
    rcases hd.held r hr with hold | hnew
    · exact hf.2 r hold
    · have := hf.1
      omega
  | _ => trivial

end Uwvm2.Storage.CompactNumeric
