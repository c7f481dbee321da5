import Uwvm2.Mutex.RwSpinLock

/-!
# Mutual exclusion of the spin lock guards

The word is decomposed into its WRITER flag, which is set exactly while a unique guard is
inside, and its count, which is the number of shared guards that have incremented it: those
inside and those about to take the increment back. PENDING and WRITER_WAITING carry no
exclusion, so it does not matter which guards set and clear them.
-/

namespace Uwvm2.Mutex

open Function BitVec
open RelyGuarantee (Leads)

-- The word

def count (w : Word) : Nat := (w >>> 3).toNat

def Owned (w : Word) : Prop := w &&& writerMask ≠ 0#32

instance : DecidablePred Owned := fun w => inferInstanceAs (Decidable (w &&& writerMask ≠ 0#32))

theorem count_eq (w : Word) : count w = w.toNat / 8 := by
  simp [count, Nat.shiftRight_eq_div_pow]

theorem owned_iff (w : Word) : Owned w ↔ w.toNat % 2 = 1 := by
  rw [Owned, ne_eq, ← toNat_inj]
  simp [writerMask, Nat.and_one_is_mod]

theorem count_add (h : count w + 1 < 2 ^ 29) : count (w + readerMask) = count w + 1 := by
  rw [count_eq] at h
  simp only [count_eq, readerMask, toNat_add, toNat_ofNat]
  omega

theorem owned_add (w : Word) : Owned (w + readerMask) ↔ Owned w := by
  simp only [owned_iff, readerMask, toNat_add, toNat_ofNat]
  omega

theorem count_sub (h : 0 < count w) : count (w - readerMask) + 1 = count w := by
  rw [count_eq] at h
  simp only [count_eq, readerMask, toNat_sub, toNat_ofNat]
  omega

theorem owned_sub (w : Word) : Owned (w - readerMask) ↔ Owned w := by
  simp only [owned_iff, readerMask, toNat_sub, toNat_ofNat]
  omega

theorem count_or {m : Word} (hm : m >>> 3 = 0#32) : count (w ||| m) = count w := by
  rw [count, ushiftRight_or_distrib, hm, or_zero, count]

theorem count_and_not {m : Word} (hm : m >>> 3 = 0#32) : count (w &&& ~~~m) = count w := by
  have hbits : (w &&& ~~~m) >>> 3 = w >>> 3 := by
    refine eq_of_getLsbD_eq fun i hi => ?_
    have hbit := congrArg (BitVec.getLsbD · i) hm
    simp only [getLsbD_ushiftRight, getLsbD_zero] at hbit
    by_cases hlt : 3 + i < 32
    · simp only [getLsbD_ushiftRight, getLsbD_and, getLsbD_not, hbit, hlt]
      simp
    · simp [getLsbD_of_ge w (3 + i) (by omega)]
  rw [count, hbits, count]

theorem count_eq_zero {w : Word} (h : w &&& readerCountMask = 0#32) : count w = 0 := by
  have hcount : count (w &&& ~~~7#32) = count w := count_and_not (by decide)
  rw [← hcount]
  have hmask : readerCountMask = ~~~7#32 := by decide
  rw [← hmask, h]
  rfl

theorem not_owned_and_not (h : ~~~m &&& writerMask = 0#32) : ¬ Owned (w &&& ~~~m) := by
  rw [Owned, BitVec.and_assoc, h, BitVec.and_zero]
  exact not_not.mpr rfl

theorem owned_or (h : m &&& writerMask = 0#32) : Owned (w ||| m) ↔ Owned w := by
  rw [Owned, Owned, and_or_distrib_right, h, or_zero]

theorem owned_or_writer (w : Word) : Owned (w ||| writerMask) := by
  rw [Owned, BitVec.and_or_distrib_right, BitVec.and_self]
  intro hzero
  have hbit := congrArg (BitVec.getLsbD · 0) hzero
  simp [writerMask] at hbit

-- What one access does

/-- What a guard is to the others. -/
inductive Role
  | outside
  /-- Counted, and about to take the increment back. -/
  | passing
  | reading
  | writing
  deriving DecidableEq, Repr

def Position.role : Position → Role
  | .rollBack => .passing
  | .reading _ => .reading
  | .writing _ => .writing
  | _ => .outside

def Role.Counted (r : Role) : Prop := r = .passing ∨ r = .reading

/-- The word that an exchange compares with has passed the tests before it. -/
def Position.Checked : Position → Prop
  | .enterShared guard old => old &&& guard.blocking = 0#32
  | .enterUnique _ _ old => old &&& writerMask = 0#32 ∧ old &&& readerCountMask = 0#32
  | _ => True

/-- The effect of one access on the role of its guard and on the word. -/
inductive Effect : Role → Word → Role → Word → Prop
  | stay : count w' = count w → (Owned w' ↔ Owned w) → Effect r w r w'
  | enter : ¬ Owned w → Effect .outside w .reading (w + readerMask)
  | pass : Effect .outside w .passing (w + readerMask)
  | leave : r.Counted → Effect r w .outside (w - readerMask)
  | acquire : ¬ Owned w → count w = 0 → Owned w' → count w' = 0 → Effect .outside w .writing w'
  | release : count w' = count w → ¬ Owned w' → Effect .writing w .outside w'

theorem Effect.refl (r : Role) (w : Word) : Effect r w r w := .stay rfl .rfl

theorem Effect.flag {w m : Word} (hm : m >>> 3 = 0#32) (hw : m &&& writerMask = 0#32) :
    Effect r w r (w ||| m) :=
  .stay (count_or hm) (owned_or hw)

theorem exchange_leads {failure : Position} {Q : Position → Word → Prop} (hfailure : Q failure bits)
    (hsuccess : bits = old → Q success desired) :
    Leads Q (compareExchangeWeak turn old desired success failure bits) := by
  cases turn with
  | go => exact .ite (fun heq => .some (hsuccess heq)) fun _ => .some hfailure
  | fail => exact .some hfailure
  | shared | unique => exact .none

theorem not_owned_of_blocking {guard : SharedGuard} (h : w &&& guard.blocking = 0#32) :
    ¬ Owned w := by
  have hmask : writerMask = guard.blocking &&& writerMask := by cases guard <;> decide
  rw [Owned, hmask, ← BitVec.and_assoc, h, BitVec.zero_and]
  exact not_not.mpr rfl

theorem role_start_shared (guard : SharedGuard) : guard.start.role = .outside := by
  cases guard <;> rfl

theorem role_start_unique (guard : UniqueGuard) : guard.start.role = .outside := by
  cases guard <;> rfl

theorem dispatch_outside (guard : UniqueGuard) (ticket : Bool) (old : Word) :
    (guard.dispatch ticket old).role = .outside ∧ (guard.dispatch ticket old).Checked := by
  unfold UniqueGuard.dispatch
  split
  · exact ⟨rfl, trivial⟩
  split
  · split
    · exact ⟨rfl, trivial⟩
    · exact ⟨rfl, trivial⟩
  split
  · next hfree => exact ⟨rfl, hfree⟩
  · exact ⟨rfl, trivial⟩

theorem advance_effect {turn : Turn} {position : Position} (hchecked : position.Checked) :
    Leads (fun position' bits' => Effect position.role bits position'.role bits' ∧
      position'.Checked) (advance turn position bits) := by
  cases position with
  | idle =>
    cases turn with
    | shared guard =>
      refine .some ?_
      rw [role_start_shared]
      exact ⟨.refl _ _, by cases guard <;> trivial⟩
    | unique guard =>
      refine .some ?_
      rw [role_start_unique]
      exact ⟨.refl _ _, by cases guard <;> trivial⟩
    | go | fail => exact .none
  | enterShared guard old =>
    refine exchange_leads ⟨.refl _ _, trivial⟩ ?_
    rintro rfl
    exact ⟨.enter (not_owned_of_blocking hchecked), trivial⟩
  | enterZero =>
    refine exchange_leads ⟨.refl _ _, trivial⟩ ?_
    rintro rfl
    exact ⟨.acquire (by decide) rfl (by decide) rfl, trivial⟩
  | announce guard ticket old | takeTicket guard old =>
    refine exchange_leads ⟨.refl _ _, trivial⟩ ?_
    rintro rfl
    exact ⟨.flag (by decide) (by decide), trivial⟩
  | enterUnique guard ticket old =>
    refine exchange_leads ⟨.refl _ _, trivial⟩ ?_
    rintro rfl
    have hzero := count_eq_zero hchecked.2
    exact ⟨.acquire (not_not.mpr hchecked.1) hzero (owned_or_writer _)
      ((count_or (by decide)).trans hzero), trivial⟩
  | add =>
    refine .guard fun _ => ?_
    by_cases hfree : bits &&& writerMask = 0#32
    · rw [if_pos hfree]
      exact ⟨.enter (not_not.mpr hfree), trivial⟩
    · rw [if_neg hfree]
      exact ⟨.pass, trivial⟩
  | rollBack => exact .guard fun _ => ⟨.leave (.inl rfl), trivial⟩
  | loadShared guard =>
    refine .guard fun _ => ?_
    by_cases hblocked : bits &&& guard.blocking ≠ 0#32
    · rw [if_pos hblocked]
      exact ⟨.refl _ _, trivial⟩
    · rw [if_neg hblocked]
      exact ⟨.refl _ _, not_not.mp hblocked⟩
  | reading guard => exact .guard fun _ => ⟨.leave (.inr rfl), trivial⟩
  | loadUnique guard ticket =>
    obtain ⟨hrole, hchecked'⟩ := dispatch_outside guard ticket bits
    refine .guard fun _ => ?_
    rw [hrole]
    exact ⟨.refl _ _, hchecked'⟩
  | writing guard =>
    have hflags : guard.released >>> 3 = 0#32 := by cases guard <;> decide
    have hwriter : ~~~guard.released &&& writerMask = 0#32 := by cases guard <;> decide
    exact .guard fun _ => ⟨.release (count_and_not hflags) (not_owned_and_not hwriter), trivial⟩

-- The invariant

/-- The word agrees with the roles of the guards. -/
structure Agrees {T : Type} (role : T → Role) (w : Word) : Prop where
  counted : {t | (role t).Counted}.encard = count w
  owned : (∃ t, role t = .writing) → Owned w
  exclusive : ∀ {t u}, role t = .writing → role u = .writing ∨ role u = .reading → u = t

section

variable {T : Type} {role : T → Role} {w w' : Word} {t : T} {r : Role}

theorem Agrees.outside (h : Agrees role w) (hfree : ¬ Owned w) (hzero : count w = 0) (u : T) :
    role u = .outside := by
  have hempty : {u | (role u).Counted} = ∅ := by
    rw [← Set.encard_eq_zero, h.counted, hzero]
    rfl
  have hu : ¬ (role u).Counted := Set.eq_empty_iff_forall_notMem.mp hempty u
  cases hrole : role u with
  | outside => rfl
  | passing => exact absurd (.inl hrole) hu
  | reading => exact absurd (.inr hrole) hu
  | writing => exact absurd (h.owned ⟨u, hrole⟩) hfree

variable [DecidableEq T]

theorem counted_enter (h : role t = .outside) (hr : r.Counted) :
    {u | (update role t r u).Counted}.encard = {u | (role u).Counted}.encard + 1 := by
  have hset : {u | (update role t r u).Counted} = insert t {u | (role u).Counted} := by
    ext u
    by_cases hu : u = t
    · subst hu
      simpa using hr
    · simp [hu]
  rw [hset, Set.encard_insert_of_notMem]
  simp [h, Role.Counted]

theorem counted_leave (h : (role t).Counted) :
    {u | (update role t .outside u).Counted}.encard + 1 = {u | (role u).Counted}.encard := by
  have hset : {u | (update role t .outside u).Counted} = {u | (role u).Counted} \ {t} := by
    ext u
    by_cases hu : u = t
    · subst hu
      simp [Role.Counted]
    · simp [hu]
  rw [hset]
  exact Set.encard_sdiff_singleton_add_one (s := {u | (role u).Counted}) h

theorem counted_other (h : (role t).Counted ↔ r.Counted) :
    {u | (update role t r u).Counted} = {u | (role u).Counted} := by
  ext u
  by_cases hu : u = t
  · subst hu
    simpa using h.symm
  · simp [hu]

theorem of_update (hr : r ≠ x) (hu : update role t r u = x) : role u = x ∧ u ≠ t := by
  by_cases hut : u = t
  · subst hut
    rw [update_self] at hu
    exact absurd hu hr
  · rw [update_of_ne hut] at hu
    exact ⟨hu, hut⟩

theorem Agrees.exclusive_update (h : Agrees role w) (hwriting : r ≠ .writing)
    (hreading : r ≠ .reading) (ha : update role t r a = .writing)
    (hu : update role t r u = .writing ∨ update role t r u = .reading) : u = a := by
  refine h.exclusive (of_update hwriting ha).1 ?_
  obtain hu | hu := hu
  · exact .inl (of_update hwriting hu).1
  · exact .inr (of_update hreading hu).1

theorem Agrees.step (h : Agrees role w) (he : Effect (role t) w r w')
    (hbound : {u | (update role t r u).Counted}.encard < 2 ^ 29) :
    Agrees (update role t r) w' := by
  generalize hrole : role t = r₀ at he
  cases he with
  | stay hcount howned =>
    subst hrole
    rw [update_eq_self]
    exact ⟨h.counted.trans (by rw [hcount]), fun hw => howned.mpr (h.owned hw), h.exclusive⟩
  | enter hfree =>
    -- A guard that becomes a reader saw no writer in the word it incremented.
    have hnone : ∀ {u}, update role t .reading u ≠ .writing := fun hu =>
      hfree (h.owned ⟨_, (of_update (by nofun) hu).1⟩)
    rw [counted_enter hrole (.inr rfl), h.counted] at hbound
    refine ⟨?_, fun ⟨_, hu⟩ => absurd hu hnone, fun hu => absurd hu hnone⟩
    rw [counted_enter hrole (.inr rfl), h.counted, count_add (by exact_mod_cast hbound)]
    rfl
  | pass =>
    rw [counted_enter hrole (.inl rfl), h.counted] at hbound
    refine ⟨?_, fun ⟨u, hu⟩ => (owned_add w).mpr (h.owned ⟨u, (of_update (by nofun) hu).1⟩),
      h.exclusive_update (by nofun) (by nofun)⟩
    rw [counted_enter hrole (.inl rfl), h.counted, count_add (by exact_mod_cast hbound)]
    rfl
  | leave hcounted =>
    subst hrole
    have hleave := counted_leave hcounted
    have hpos : 0 < count w := by
      rw [h.counted] at hleave
      by_contra hzero
      rw [Nat.eq_zero_of_not_pos hzero] at hleave
      simp at hleave
    refine ⟨?_, fun ⟨u, hu⟩ => (owned_sub w).mpr (h.owned ⟨u, (of_update (by nofun) hu).1⟩),
      h.exclusive_update (by nofun) (by nofun)⟩
    rw [h.counted, ← count_sub hpos, Nat.cast_add, Nat.cast_one] at hleave
    exact WithTop.add_right_cancel ENat.one_ne_top hleave
  | acquire hfree hzero howned hcount =>
    have houtside := h.outside hfree hzero
    have hself : ∀ {u}, update role t .writing u ≠ .outside → u = t := fun {u} hu => by
      by_contra hne
      rw [update_of_ne hne] at hu
      exact hu (houtside u)
    refine ⟨?_, fun _ => howned, fun {a u} ha hu => ?_⟩
    · rw [counted_other (by simp [hrole, Role.Counted]), h.counted, hzero, hcount]
    · have hu' : update role t .writing u ≠ .outside := by
        obtain hu | hu := hu <;> rw [hu] <;> nofun
      rw [hself hu', hself (u := a) (by rw [ha]; nofun)]
  | release hcount hfree =>
    -- The guard that leaves was the only writer.
    have hnone : ∀ {u}, update role t .outside u ≠ .writing := fun hu =>
      (of_update (by nofun) hu).2 (h.exclusive hrole (.inl (of_update (by nofun) hu).1))
    refine ⟨?_, fun ⟨_, hu⟩ => absurd hu hnone, fun hu => absurd hu hnone⟩
    rw [counted_other (by simp [hrole, Role.Counted]), h.counted, hcount]

end

-- Exclusion

open RelyGuarantee

variable {T : Type}

def readers (cfg : Config T Position Word) : Set T := {t | (cfg.position t).role.Counted}

structure Excludes (cfg : Config T Position Word) : Prop where
  checked : ∀ t, (cfg.position t).Checked
  agrees : Agrees (fun t => (cfg.position t).role) cfg.shared

theorem excludes_initial : Excludes (initial : Config T Position Word) := by
  refine ⟨fun _ => trivial, ?_, fun ⟨_, h⟩ => (nomatch h), fun h => (nomatch h)⟩
  simp [initial, Position.role, Role.Counted, count]

variable [DecidableEq T]

theorem Excludes.step {turn : T × Turn} (h : Excludes cfg)
    (hstep : RelyGuarantee.step act cfg turn = some cfg')
    (hbound : (readers cfg').encard < 2 ^ 29) :
    Excludes cfg' := by
  obtain ⟨t, l⟩ := turn
  simp only [RelyGuarantee.step, Option.map_eq_some_iff] at hstep
  obtain ⟨⟨position, bits⟩, hact, rfl⟩ := hstep
  obtain ⟨heffect, hchecked⟩ := advance_effect (h.checked t) hact
  have hroles : (fun u => (update cfg.position t position u).role) =
      update (fun u => (cfg.position u).role) t position.role :=
    comp_update Position.role cfg.position t position
  constructor
  · intro u
    by_cases hu : u = t
    · subst hu
      simpa using hchecked
    · simpa [hu] using h.checked u
  · rw [hroles]
    refine h.agrees.step heffect ?_
    rw [← hroles]
    exact hbound

/-- No writer is inside together with another writer or a reader, if there are never
`2 ^ 29` readers at once. -/
theorem run_mutually_exclusive {schedule : List (T × Turn)} {cfg : Config T Position Word}
    (hrun : run act initial schedule = some cfg)
    (hreaders : ∀ before cfg', before <+: schedule → run act initial before = some cfg' →
      (readers cfg').encard < 2 ^ 29)
    {t u : T} (hne : u ≠ t) (ht : (cfg.position t).role = .writing) :
    (cfg.position u).role ≠ .writing ∧ (cfg.position u).role ≠ .reading := by
  have hexcludes : Excludes cfg := run_invariant Excludes.step excludes_initial hrun hreaders
  constructor
  · intro hu
    exact hne (hexcludes.agrees.exclusive ht (.inl hu))
  · intro hu
    exact hne (hexcludes.agrees.exclusive ht (.inr hu))

/-- A writer holds the lock with a ticket, and a reader is about to take its increment back. -/
theorem run_mutually_exclusive_passing : ∃ cfg : Config Bool Position Word,
    run act initial [(false, .unique .fair), (false, .go), (false, .go), (false, .go), (false, .go),
      (true, .shared .rwShared), (true, .go)] = some cfg ∧
    cfg.position false = .writing .fair ∧ cfg.position true = .rollBack ∧
    (cfg.position true).role ≠ .writing ∧ (cfg.position true).role ≠ .reading := by
  have hbound : ∀ cfg : Config Bool Position Word, (readers cfg).encard < 2 ^ 29 := fun cfg => by
    refine Set.encard_le_card.trans_lt ?_
    rw [ENat.card_eq_coe_fintype_card, Fintype.card_bool]
    exact_mod_cast (by decide : 2 < 2 ^ 29)
  have hrun : (run act (initial : Config Bool Position Word) [(false, .unique .fair), (false, .go),
      (false, .go), (false, .go), (false, .go), (true, .shared .rwShared), (true, .go)]).map
      (fun cfg => (cfg.position false, cfg.position true)) = some (.writing .fair, .rollBack) := by
    decide
  obtain ⟨cfg, hcfg, hpositions⟩ := Option.map_eq_some_iff.mp hrun
  obtain ⟨hfalse, htrue⟩ := Prod.mk.inj hpositions
  exact ⟨cfg, hcfg, hfalse, htrue,
    run_mutually_exclusive hcfg (fun _ cfg' _ _ => hbound cfg') (t := false)
      (by decide) (by rw [hfalse]; rfl)⟩

end Uwvm2.Mutex
