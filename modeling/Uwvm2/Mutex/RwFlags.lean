import Uwvm2.Lib.Holders
import Uwvm2.Mutex.RwExclusion

/-!
# The flags of the spin lock

WRITER is set exactly while a unique guard is inside, PENDING exactly while a guard has the
ticket, and WRITER_WAITING only while a guard that sets it is under way. With the count of
the readers this determines the word: without guards it is zero.
-/

namespace Uwvm2.Mutex

open RelyGuarantee BitVec

-- The flags

theorem and_twoPow_eq_zero (hi : i < 32) :
    w &&& BitVec.twoPow 32 i = 0#32 ↔ w.getLsbD i = false := by
  rw [and_twoPow]
  cases hbit : w.getLsbD i with
  | false => simp
  | true =>
    have hne : BitVec.twoPow 32 i ≠ 0#32 := fun hzero => by
      have := congrArg (BitVec.getLsbD · i) hzero
      simp [hi] at this
    simp [hne]

theorem getLsbD_add (hi : i < 3) : (w + readerMask).getLsbD i = w.getLsbD i := by
  have hlow : (w + readerMask).setWidth 3 = w.setWidth 3 := by
    rw [setWidth_add _ _ (by decide)]
    exact BitVec.add_zero _
  simpa [hi] using congrArg (BitVec.getLsbD · i) hlow

theorem getLsbD_sub (hi : i < 3) : (w - readerMask).getLsbD i = w.getLsbD i := by
  have hsum : w - readerMask + readerMask = w := BitVec.sub_add_cancel ..
  rw [← getLsbD_add hi, hsum]

theorem getLsbD_and_not {m : Word} (hi : i < 3) :
    (w &&& ~~~m).getLsbD i = (w.getLsbD i && !m.getLsbD i) := by
  have hlt : i < 32 := Nat.lt_trans hi (by decide)
  rw [getLsbD_and, getLsbD_not, decide_eq_true hlt, Bool.true_and]

theorem eq_zero (hcount : count w = 0) (hflags : ∀ i < 3, w.getLsbD i = false) : w = 0#32 := by
  refine eq_of_getLsbD_eq fun i hi => ?_
  rw [getLsbD_zero]
  by_cases hlow : i < 3
  · exact hflags i hlow
  · have hbit := congrArg (BitVec.getLsbD · (i - 3)) (eq_of_toNat_eq hcount : w >>> 3 = 0#32)
    simpa [Nat.add_sub_cancel' (Nat.le_of_not_lt hlow)] using hbit

-- What one access does to the flags

def Position.isWriting : Position → Bool
  | .writing _ => true
  | _ => false

def Position.holdsTicket : Position → Bool
  | .loadUnique _ ticket | .announce _ ticket _ | .enterUnique _ ticket _ => ticket
  | .writing guard => guard.tickets
  | _ => false

/-- A guard that sets WRITER_WAITING is under way. -/
def Position.announcing : Position → Bool
  | .loadUnique guard _ | .announce guard _ _ | .takeTicket guard _ | .enterUnique guard _ _
  | .writing guard => guard.announces
  | _ => false

/-- Only the guards that take tickets have one, and these do not enter without. -/
def Position.Ticketed : Position → Prop
  | .loadUnique guard ticket => ticket = true → guard.tickets = true
  | .announce guard ticket _ => guard.announces = true ∧ (ticket = true → guard.tickets = true)
  | .takeTicket guard old => guard.tickets = true ∧ old.getLsbD 1 = false
  | .enterUnique guard ticket _ => ticket = guard.tickets
  | _ => True

structure FlagsStep (position : Position) (w : Word) (position' : Position) (w' : Word) : Prop where
  writer : FlagStep position.isWriting (w.getLsbD 0) position'.isWriting (w'.getLsbD 0)
  pending : FlagStep position.holdsTicket (w.getLsbD 1) position'.holdsTicket (w'.getLsbD 1)
  waiting : (w'.getLsbD 2 = true → position'.announcing = true) ∨
    w'.getLsbD 2 = w.getLsbD 2 ∧ (position.announcing = true → position'.announcing = true)
  ticketed : position'.Ticketed

theorem FlagsStep.keep (hflags : ∀ i < 3, w'.getLsbD i = w.getLsbD i)
    (hwriting : position'.isWriting = position.isWriting)
    (hticket : position'.holdsTicket = position.holdsTicket)
    (hannouncing : position.announcing = true → position'.announcing = true)
    (hticketed : position'.Ticketed) : FlagsStep position w position' w' :=
  ⟨.inl ⟨hwriting, hflags 0 (by decide)⟩, .inl ⟨hticket, hflags 1 (by decide)⟩,
    .inr ⟨hflags 2 (by decide), hannouncing⟩, hticketed⟩

theorem FlagsStep.quiet (hflags : ∀ i < 3, w'.getLsbD i = w.getLsbD i)
    (hwriting : position'.isWriting = position.isWriting)
    (hticket : position'.holdsTicket = position.holdsTicket) (hquiet : position.announcing = false)
    (hticketed : position'.Ticketed) : FlagsStep position w position' w' :=
  .keep hflags hwriting hticket (fun h => absurd (hquiet.symm.trans h) Bool.false_ne_true) hticketed

theorem released_flags (guard : UniqueGuard) : guard.released.getLsbD 0 = true ∧
    guard.released.getLsbD 1 = guard.tickets ∧ guard.released.getLsbD 2 = guard.announces := by
  cases guard <;> decide

theorem dispatch_flags {guard : UniqueGuard} (h : ticket = true → guard.tickets = true) (w : Word) :
    FlagsStep (.loadUnique guard ticket) w (guard.dispatch ticket w) w := by
  unfold UniqueGuard.dispatch
  split
  · next hannounce => exact .keep (fun _ _ => rfl) rfl rfl id ⟨hannounce.1, h⟩
  split
  · next hticket =>
    split
    · exact .keep (fun _ _ => rfl) rfl rfl id h
    · next hfree =>
      have hnone : ticket = false := Bool.eq_false_iff.mpr hticket.2
      exact .keep (fun _ _ => rfl) rfl hnone.symm id
        ⟨hticket.1, (and_twoPow_eq_zero (by decide)).mp (not_not.mp hfree)⟩
  next hticket =>
  have heq : ticket = guard.tickets := by
    cases ticket <;> cases hguard : guard.tickets <;> simp_all
  split
  · exact .keep (fun _ _ => rfl) rfl rfl id heq
  · exact .keep (fun _ _ => rfl) rfl rfl id h

theorem advance_flags {turn : Turn} {position : Position} (hchecked : position.Checked)
    (hticketed : position.Ticketed) : Leads (FlagsStep position w) (advance turn position w) := by
  cases position with
  | idle =>
    cases turn with
    | shared guard =>
      refine .some ?_
      cases guard <;> exact .quiet (fun _ _ => rfl) rfl rfl rfl trivial
    | unique guard =>
      refine .some ?_
      cases guard <;> exact .quiet (fun _ _ => rfl) rfl rfl rfl (by
        first | trivial | exact Bool.false_ne_true.elim)
    | go | fail => exact .none
  | enterShared guard old =>
    exact exchange_leads (.quiet (fun _ _ => rfl) rfl rfl rfl trivial) fun heq =>
      heq ▸ .quiet (fun _ => getLsbD_add) rfl rfl rfl trivial
  | enterZero =>
    refine exchange_leads (.quiet (fun _ _ => rfl) rfl rfl rfl trivial) ?_
    rintro rfl
    exact ⟨.inr (.inl ⟨rfl, rfl, rfl, rfl⟩), .inl ⟨rfl, rfl⟩, .inr ⟨rfl, Bool.false_ne_true.elim⟩,
      trivial⟩
  | announce guard ticket old =>
    refine exchange_leads (.keep (fun _ _ => rfl) rfl rfl id hticketed.2) ?_
    rintro rfl
    refine ⟨.inl ⟨rfl, ?_⟩, .inl ⟨rfl, ?_⟩, .inl fun _ => hticketed.1, hticketed.2⟩
    all_goals simp [writerWaitingMask]
  | takeTicket guard old =>
    refine exchange_leads (.keep (fun _ _ => rfl) rfl rfl id Bool.false_ne_true.elim) ?_
    rintro rfl
    refine ⟨.inl ⟨rfl, ?_⟩, .inr (.inl ⟨rfl, hticketed.2, rfl, ?_⟩), .inr ⟨?_, id⟩,
      fun _ => hticketed.1⟩
    all_goals simp [pendingMask]
  | enterUnique guard ticket old =>
    refine exchange_leads (.keep (fun _ _ => rfl) rfl rfl id fun h => hticketed.symm.trans h) ?_
    rintro rfl
    have hfree : w.getLsbD 0 = false := (and_twoPow_eq_zero (by decide)).mp hchecked.1
    refine ⟨.inr (.inl ⟨rfl, hfree, rfl, ?_⟩), .inl ⟨hticketed.symm, ?_⟩, .inr ⟨?_, id⟩, trivial⟩
    all_goals simp [writerMask]
  | add =>
    refine .guard fun _ => ?_
    split <;> exact .quiet (fun _ => getLsbD_add) rfl rfl rfl trivial
  | rollBack | reading guard =>
    exact .guard fun _ => .quiet (fun _ => getLsbD_sub) rfl rfl rfl trivial
  | loadShared guard =>
    refine .guard fun _ => ?_
    split <;> exact .quiet (fun _ _ => rfl) rfl rfl rfl trivial
  | loadUnique guard ticket => exact .guard fun _ => dispatch_flags hticketed w
  | writing guard =>
    obtain ⟨hwriter, hpending, hwaiting⟩ := released_flags guard
    refine .guard fun _ => ⟨.inr (.inr ⟨rfl, rfl, ?_⟩), ?_, ?_, trivial⟩
    · rw [getLsbD_and_not (by decide), hwriter]
      exact Bool.and_false _
    · rw [getLsbD_and_not (by decide), hpending]
      cases htickets : guard.tickets with
      | true => exact .inr (.inr ⟨htickets, rfl, Bool.and_false _⟩)
      | false => exact .inl ⟨htickets.symm, Bool.and_true _⟩
    · rw [getLsbD_and_not (by decide), hwaiting]
      cases hannounces : guard.announces with
      | true => exact .inl fun hset => absurd hset (by simp)
      | false => exact .inr ⟨Bool.and_true _, fun h =>
          absurd (hannounces.symm.trans h) Bool.false_ne_true⟩

-- Runs

variable {T : Type}

structure Flagged (cfg : Config T Position Word) : Prop where
  ticketed : ∀ t, (cfg.position t).Ticketed
  writer : FlagTracks (fun t => (cfg.position t).isWriting) (cfg.shared.getLsbD 0)
  pending : FlagTracks (fun t => (cfg.position t).holdsTicket) (cfg.shared.getLsbD 1)
  waiting : cfg.shared.getLsbD 2 = true → ∃ t, (cfg.position t).announcing = true

theorem flagged_initial : Flagged (initial : Config T Position Word) := by
  have hnone : FlagTracks (fun _ : T => false) false := ⟨⟨nofun, nofun⟩, nofun⟩
  have hzero : ∀ i, (initial : Config T Position Word).shared.getLsbD i = false := fun _ =>
    getLsbD_zero
  exact ⟨fun _ => trivial, (hzero 0).symm ▸ hnone, (hzero 1).symm ▸ hnone, by rw [hzero]; nofun⟩

variable [DecidableEq T]

theorem Flagged.step {turn : T × Turn} (h : Flagged cfg) (hchecked : ∀ t, (cfg.position t).Checked)
    (hstep : RelyGuarantee.step act cfg turn = some cfg') : Flagged cfg' := by
  obtain ⟨t, l⟩ := turn
  simp only [RelyGuarantee.step, Option.map_eq_some_iff] at hstep
  obtain ⟨⟨position, bits⟩, hact, rfl⟩ := hstep
  have hflags := advance_flags (hchecked t) (h.ticketed t) hact
  have htracks : ∀ {holds : Position → Bool} {flag flag' : Bool},
      FlagTracks (fun u => holds (cfg.position u)) flag →
      FlagStep (holds (cfg.position t)) flag (holds position) flag' →
      FlagTracks (fun u => holds (Function.update cfg.position t position u)) flag' := by
    intro holds flag flag' htracks hstep
    have hupdate := Function.comp_update holds cfg.position t position
    exact (congrArg (FlagTracks · flag') hupdate).mpr (htracks.step hstep)
  refine ⟨fun u => ?_, htracks h.writer hflags.writer, htracks h.pending hflags.pending,
    fun hset => ?_⟩
  · by_cases hu : u = t
    · subst hu
      simpa using hflags.ticketed
    · simpa [hu] using h.ticketed u
  · rcases hflags.waiting with hnew | ⟨hkept, hstays⟩
    · exact ⟨t, by simpa using hnew hset⟩
    · obtain ⟨u, hu⟩ := h.waiting (hkept.symm.trans hset)
      by_cases hut : u = t
      · subst hut
        exact ⟨u, by simpa using hstays hu⟩
      · exact ⟨u, by simpa [hut] using hu⟩

/-- The count is the number of the readers, those about to leave included; PENDING belongs to one
guard at most; and the word is zero when no guard is left, if there are never `2 ^ 29` readers. -/
theorem run_word {schedule : List (T × Turn)} {cfg : Config T Position Word}
    (hrun : run act initial schedule = some cfg)
    (hreaders : ∀ before cfg', before <+: schedule → run act initial before = some cfg' →
      (readers cfg').encard < 2 ^ 29) :
    (readers cfg).encard = count cfg.shared ∧
      ((cfg.shared &&& pendingMask ≠ 0#32 ↔ ∃ t, (cfg.position t).holdsTicket = true) ∧
        ∀ t u, (cfg.position t).holdsTicket = true → (cfg.position u).holdsTicket = true → t = u) ∧
      ((∀ t, cfg.position t = .idle) → cfg.shared = 0#32) := by
  have hinv : Excludes cfg ∧ Flagged cfg :=
    run_invariant (I := fun cfg => Excludes cfg ∧ Flagged cfg)
      (fun h hstep hbound => ⟨h.1.step hstep hbound, h.2.step h.1.checked hstep⟩)
      ⟨excludes_initial, flagged_initial⟩ hrun hreaders
  obtain ⟨hexcludes, hflagged⟩ := hinv
  refine ⟨hexcludes.agrees.counted, ⟨?_, fun t u => hflagged.pending.one⟩, fun hidle => ?_⟩
  · have hbit : cfg.shared &&& pendingMask = 0#32 ↔ cfg.shared.getLsbD 1 = false :=
      and_twoPow_eq_zero (i := 1) (by decide)
    rw [ne_eq, hbit, Bool.not_eq_false]
    exact hflagged.pending.set
  · have hcount : count cfg.shared = 0 := by
      have hcounted := hexcludes.agrees.counted
      simp only [hidle, Position.role, Role.Counted] at hcounted
      simpa using hcounted.symm
    refine eq_zero hcount fun i hi => Bool.eq_false_iff.mpr fun hset => ?_
    interval_cases i
    · obtain ⟨t, ht⟩ := hflagged.writer.set.mp hset
      rw [hidle] at ht
      cases ht
    · obtain ⟨t, ht⟩ := hflagged.pending.set.mp hset
      rw [hidle] at ht
      cases ht
    · obtain ⟨t, ht⟩ := hflagged.waiting hset
      rw [hidle] at ht
      cases ht

/-- A reader is inside and another has yet to take its increment back, while a writer that holds
the ticket waits for both. -/
def ticketWaits : List (Fin 4 × Turn) :=
  [(0, .unique .rwUnique), (0, .go), (1, .shared .rwShared), (1, .go), (2, .unique .fair),
    (2, .go), (2, .go), (0, .go), (3, .shared .rwShared), (3, .go)]

def allLeave : List (Fin 4 × Turn) :=
  [(1, .go), (1, .go), (1, .go), (3, .go), (2, .go), (2, .go), (2, .go)]

theorem run_word_ticketWaits :
    (∃ cfg, run act initial ticketWaits = some cfg ∧ cfg.position 1 = .rollBack ∧
      cfg.position 3 = .reading .rwShared ∧ cfg.position 2 = .loadUnique .fair true ∧
      (readers cfg).encard = 2 ∧ cfg.shared &&& pendingMask ≠ 0#32 ∧
      ∀ t, (cfg.position t).holdsTicket = true → t = 2) ∧
    ∃ cfg, run act initial (ticketWaits ++ allLeave) = some cfg ∧ cfg.shared = 0#32 := by
  have hbound : ∀ cfg : Config (Fin 4) Position Word, (readers cfg).encard < 2 ^ 29 := fun cfg => by
    refine Set.encard_le_card.trans_lt ?_
    rw [ENat.card_eq_coe_fintype_card, Fintype.card_fin]
    exact_mod_cast (by decide : 4 < 2 ^ 29)
  have hwaits : (run act initial ticketWaits).map (fun cfg =>
      (cfg.position 1, cfg.position 3, cfg.position 2, count cfg.shared)) =
        some (.rollBack, .reading .rwShared, .loadUnique .fair true, 2) := by
    decide
  have hleave : (run act initial (ticketWaits ++ allLeave)).map (fun cfg =>
      decide (∀ t, cfg.position t = .idle)) = some true := by
    decide
  constructor
  · obtain ⟨cfg, hcfg, hvalues⟩ := Option.map_eq_some_iff.mp hwaits
    simp only [Prod.mk.injEq] at hvalues
    obtain ⟨hback, hreading, hticket, htwo⟩ := hvalues
    have hholds : (cfg.position 2).holdsTicket = true := by
      rw [hticket]
      rfl
    obtain ⟨hcount, ⟨hpending, hone⟩, _⟩ := run_word hcfg fun _ cfg' _ _ => hbound cfg'
    rw [htwo] at hcount
    exact ⟨cfg, hcfg, hback, hreading, hticket, hcount, hpending.mpr ⟨2, hholds⟩,
      fun t ht => hone t 2 ht hholds⟩
  · obtain ⟨cfg, hcfg, hidle⟩ := Option.map_eq_some_iff.mp hleave
    exact ⟨cfg, hcfg, (run_word hcfg fun _ cfg' _ _ => hbound cfg').2.2 (of_decide_eq_true hidle)⟩

end Uwvm2.Mutex
