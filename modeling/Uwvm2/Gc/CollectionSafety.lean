import Uwvm2.Gc.RootCensus

/-!
# Transactions over the pause domain

Every step of a transaction is a step of the pause domain or leaves the domain as it is, so
that the outline of the domain carries over. A transaction that is in its callback keeps the
participants stopped.
-/

namespace Uwvm2.Gc.CollectionTransaction

open Thread Option
open CollectionPauseDomain (SameParticipants Stopped stoppedView)
open RelyGuarantee

variable {T O F S H : Type} {n : Nat}

abbrev Control (T O F S : Type) (n : Nat) :=
  CollectionPauseDomain.Domain T O (CollectionRootContext F S) n

def Stage.Holds (control : CollectionPauseDomain.Position O n) (domain : Control T O F S n) :
    Stage O → Prop
  | .counting ticket => control = .committing ticket
  | .copying ticket result => control = .committing ticket ∧ result.status ≠ .collected
  | .collecting ticket _ static roots => control = .committing ticket ∧ ∃ population,
    PopulationRoots ((stoppedView domain).map (·.rootContext)) population ∧
      roots = population ++ static
  | .committed _ result invoked | .resetting _ result invoked | .done result invoked =>
    invoked = none → result.status ≠ .collected
  | _ => True

theorem stoppedView_contexts {s' : Control T O F S n} (h : SameParticipants s s') :
    (stoppedView s').map (·.rootContext) = (stoppedView s).map (·.rootContext) := by
  simp only [stoppedView, List.map_filterMap, h.slots]
  refine List.filterMap_congr fun i _ => ?_
  split <;> rfl

theorem Stage.Holds.stable {control : CollectionPauseDomain.Position O n} {s : Control T O F S n}
    {stage : Stage O} (h : stage.Holds control s)
    (hsame : (∃ ticket, control = .committing ticket) → SameParticipants s s') :
    stage.Holds control s' := by
  cases stage with
  | collecting ticket result static roots =>
    obtain ⟨hcontrol, population, hroots, heq⟩ := h
    refine ⟨hcontrol, population, ?_, heq⟩
    rw [stoppedView_contexts (hsame ⟨ticket, hcontrol⟩)]
    exact hroots
  | _ => exact h

variable [DecidableEq T]

structure Does (t : T) (s s' : State T O F S H n) : Prop where
  domain : CollectionPauseDomain.Does t s.domain s'.domain
  held : s.domain.mutex ≠ none → SameParticipants s.domain s'.domain

structure At (t : T) (p : Position O n) (s : State T O F S H n) : Prop where
  control : CollectionPauseDomain.At t p.control s.domain
  stage : p.stage.Holds p.control s.domain

structure Fits (t : T) (s : State T O F S H n) (p' : Position O n) (s' : State T O F S H n) :
    Prop where
  does : Does t s s'
  good : CollectionPauseDomain.Good s'.domain
  at_ : At t p' s'

section Steps

variable {t : T} {p p' : Position O n} {s s' : State T O F S H n}

omit [DecidableEq T] in
theorem Does.of_domain [DecidableEq T] (h : s'.domain = s.domain) : Does t s s' := by
  refine ⟨?_, fun _ => ?_⟩
  · rw [h]
    exact .refl t _
  · rw [h]
    exact ⟨rfl, fun _ _ => rfl⟩

theorem Fits.local (hs : CollectionPauseDomain.Good s.domain) (hat : At t p s)
    (hdomain : s'.domain = s.domain) (hstage : stage.Holds p.control s'.domain) :
    Fits t s { p with stage } s' :=
  ⟨.of_domain hdomain, hdomain ▸ hs, hdomain ▸ hat.control, hstage⟩

variable [DecidableEq O] {collectHeap : List RootReference → H → GcObjectStatus × Nat × H}

/-- The step fits the outline. It changes the heap only when it calls the collector, and it is
behind the copying pass if the collector is called next. -/
structure Steps (collectHeap : List RootReference → H → GcObjectStatus × Nat × H) (t : T)
    (p : Position O n) (s : State T O F S H n) (p' : Position O n) (s' : State T O F S H n) :
    Prop where
  fits : Fits t s p' s'
  heap : s'.heap = s.heap ∨ ∃ ticket result static roots,
    p.stage = .collecting ticket result static roots ∧ s'.heap = (collectHeap roots s.heap).2.2
  collecting : ∀ {ticket result static roots}, p'.stage = .collecting ticket result static roots →
    p.stage = .copying ticket result ∧ static = s.static

omit [DecidableEq O] in
theorem Steps.local (hs : CollectionPauseDomain.Good s.domain) (hat : At t p s)
    (hplain : ∀ ticket result static roots, stage ≠ .collecting ticket result static roots)
    (hstage : stage.Holds p.control s.domain) : Steps collectHeap t p s { p with stage } s :=
  ⟨.local hs hat rfl hstage, .inl rfl, fun h => absurd h (hplain _ _ _ _)⟩

theorem onDomain_sound (hs : CollectionPauseDomain.Good s.domain) (hat : At t p s)
    (hplain : ∀ ticket result static roots, stage ≠ .collecting ticket result static roots)
    (hstage : ∀ control domain, CollectionPauseDomain.act t turn p.control s.domain =
      some (control, domain) → stage.Holds control domain) :
    Leads (Steps collectHeap t p s) (onDomain t p s turn stage) := by
  refine .map fun ⟨control, domain⟩ hact => ⟨?_, .inl rfl, fun h => absurd h (hplain _ _ _ _)⟩
  obtain ⟨hdoes, hgood, hat'⟩ := CollectionPauseDomain.outline.sound hs hat.control hact
  exact ⟨⟨hdoes, fun hheld => CollectionPauseDomain.act_held hs hat.control hheld hact⟩,
    hgood, hat', hstage control domain hact⟩

theorem whileStopped_committing {control : CollectionPauseDomain.Position O n}
    (hpaused : CollectionPauseDomain.whileStopped t domain ticket = .paused)
    (h : CollectionPauseDomain.act t (.call (.whileStopped ticket)) control domain =
      some (control', domain')) : control' = .committing ticket := by
  unfold CollectionPauseDomain.act at h
  split at h
  next => cases h
  next =>
    cases control with
    | outside =>
      dsimp only [CollectionPauseDomain.start] at h
      rw [if_pos hpaused] at h
      split at h
      next =>
        cases h
        rfl
      next => cases h
    | _ => cases h

theorem ofWait_uncollected (result : CollectionPauseDomain.CollectionPauseResult) :
    (CollectionTransactionResult.ofWait result).status ≠ .collected := by
  cases result <;> exact nofun

theorem ofCommit_uncollected (result : CollectionPauseDomain.CollectionPauseResult) :
    (CollectionTransactionResult.ofCommit result).status ≠ .collected := by
  cases result <;> exact nofun

theorem waitStep_sound (hs : CollectionPauseDomain.Good s.domain) (hat : At t p s) :
    Leads (Steps collectHeap t p s) (waitStep t p s ticket timeout) := by
  unfold waitStep
  split
  · exact .none
  · exact onDomain_sound hs hat nofun fun _ _ _ => trivial
  · exact onDomain_sound hs hat nofun fun _ _ _ _ => ofWait_uncollected _

theorem act_sound {turn : Turn O F S n} (hs : CollectionPauseDomain.Good s.domain)
    (hat : At t p s) :
    Leads (Steps collectHeap t p s) (act collectHeap t turn p s) := by
  have hholds := hat.stage
  refine .ite (fun _ => .none) fun _ => ?_
  split
  next => exact onDomain_sound hs hat nofun fun _ _ _ => trivial
  next hidle =>
    exact .some ⟨.local hs hat rfl hat.stage, .inl rfl, fun h => nomatch hidle.symm.trans h⟩
  next =>
    split
    next hcontrol =>
      rw [← hcontrol]
      split
      · exact .some (.local hs hat nofun fun _ => nofun)
      · exact .some (.local hs hat nofun trivial)
    next => exact .none
  next => exact onDomain_sound hs hat nofun fun _ _ _ => trivial
  next =>
    refine .ite (fun _ => onDomain_sound hs hat nofun fun _ _ _ => trivial) fun _ => ?_
    split
    · exact .some (.local hs hat nofun trivial)
    · exact .some (.local hs hat nofun fun _ => nofun)
  next => exact onDomain_sound hs hat nofun fun _ _ _ => trivial
  next =>
    split
    · exact .some (.local hs hat nofun fun _ => nofun)
    · exact onDomain_sound hs hat nofun fun _ _ _ => trivial
  next => exact waitStep_sound hs hat
  next => exact waitStep_sound hs hat
  next ticket =>
    split
    next hpaused =>
      exact onDomain_sound hs hat nofun fun _ _ hact => whileStopped_committing hpaused hact
    next => exact onDomain_sound hs hat nofun fun _ _ _ _ => ofCommit_uncollected _
  next ticket part allocated hstage =>
    rw [hstage] at hholds
    split
    next herror => exact .some (.local hs hat nofun fun _ => countRoots_error herror)
    next result hok =>
      obtain ⟨-, population, -, -, -, rfl⟩ := countRoots_ok.mp hok
      exact .some (.local hs hat nofun ⟨hholds, nofun⟩)
  next ticket result part hstage =>
    rw [hstage] at hholds
    split
    next herror => exact .some (.local hs hat nofun fun _ => copyRoots_error hholds.2 herror)
    next roots hok =>
      obtain ⟨-, population, hroots, heq, -⟩ := copyRoots_ok.mp hok
      refine .some ⟨.local hs hat rfl ⟨hholds.1, population, hroots, heq⟩, .inl rfl, fun h => ?_⟩
      cases h
      exact ⟨hstage, rfl⟩
  next hstage =>
    exact .some ⟨.local hs hat rfl nofun, .inr ⟨_, _, _, _, hstage, rfl⟩, nofun⟩
  next hstage =>
    rw [hstage] at hholds
    exact onDomain_sound hs hat nofun fun _ _ _ => hholds
  next hstage =>
    rw [hstage] at hholds
    exact onDomain_sound hs hat nofun fun _ _ _ => hholds
  next => exact .some (.local hs hat nofun trivial)
  next => exact .none

def outline (collectHeap : List RootReference → H → GcObjectStatus × Nat × H) :
    Outline (act (T := T) (O := O) (F := F) (S := S) (n := n) collectHeap) where
  Good s := CollectionPauseDomain.Good s.domain
  At := At
  Does := Does
  sound hs hat h :=
    have hfits := (act_sound hs hat h).fits
    ⟨hfits.does, hfits.good, hfits.at_⟩
  stable {t u p s s'} hu hs hat hd := by
    refine ⟨hat.control.stable hu hs hd.domain, hat.stage.stable ?_⟩
    rintro ⟨ticket, hp⟩
    have hcontrol := hat.control
    rw [hp] at hcontrol
    refine hd.held ?_
    rw [(hcontrol.committing ticket rfl).1]
    nofun

theorem outline_initial (collectHeap : List RootReference → H → GcObjectStatus × Nat × H)
    (static : List RootReference) (heap : H) :
    (outline (T := T) (O := O) (F := F) (S := S) (n := n) collectHeap).Holds
      (initial static heap) :=
  have h := CollectionPauseDomain.outline_initial (T := T) (O := O)
    (C := CollectionRootContext F S) (n := n)
  ⟨h.1, fun t => ⟨h.2 t, trivial⟩⟩

-- Runs

def presentContexts (s : Control T O F S n) : List (Option (CollectionRootContext F S)) :=
  (List.finRange n).filterMap fun i => if (s.slots i).id ≠ 0#64 then some (s.context i) else none

omit [DecidableEq O] in
theorem stopped_contexts {domain : Control T O F S n} (h : Stopped t ticket domain) :
    (stoppedView domain).map (·.rootContext) = presentContexts domain := by
  simp only [stoppedView, presentContexts, List.map_filterMap]
  refine List.filterMap_congr fun i _ => ?_
  split
  next hid => exact congrArg some (h.parked i hid).2
  next => rfl

/-- The roots of a participant. If its context is one that a thread has prepared, these are the
roots of the thread's activations, from the innermost on, and then the native ones. -/
structure ParticipantRoots (context : Option (CollectionRootContext F S))
    (roots : List RootReference) :
    Prop where
  visited : HasRoots context roots
  stack : ∀ thread nativeRoots stack,
    context = some (prepareCollectionRootContext thread nativeRoots) →
    Represents thread stack → roots = stack.flatMap (Activation.roots thread.carriers) ++
      readCarriers thread.carriers nativeRoots.data nativeRoots.size

theorem HasRoots.participantRoots (h : HasRoots context roots) :
    ParticipantRoots context roots where
  visited := h
  stack thread nativeRoots stack hcontext hrepresents := by
    subst hcontext
    exact h.prepared hrepresents

/-- What holds of a configuration: the collector is called with the roots that all participants
have while they are stopped and the static roots of the copying pass; nothing else changes
the heap; and a transaction that has not called the collector does not report a collection. -/
structure Complete (collectHeap : List RootReference → H → GcObjectStatus × Nat × H)
    (cfg : Config T (Position O n) (State T O F S H n)) : Prop where
  collecting : ∀ t ticket result static roots,
    (cfg.position t).stage = .collecting ticket result static roots →
    Stopped t ticket cfg.shared.domain ∧ ∃ parts,
      List.Forall₂ ParticipantRoots (presentContexts cfg.shared.domain) parts ∧
        roots = parts.flatten ++ static
  static : ∀ turn cfg', step (act collectHeap) cfg turn = some cfg' →
    ∀ ticket result static roots,
      (cfg'.position turn.1).stage = .collecting ticket result static roots →
      Stopped turn.1 ticket cfg.shared.domain ∧ static = cfg.shared.static
  heap : ∀ turn cfg', step (act collectHeap) cfg turn = some cfg' →
    cfg'.shared.heap = cfg.shared.heap ∨ ∃ ticket result static roots,
      (cfg.position turn.1).stage = .collecting ticket result static roots ∧
        cfg'.shared.heap = (collectHeap roots cfg.shared.heap).2.2
  reports : ∀ t result, (cfg.position t).stage = .done result none → result.status ≠ .collected

/-- Along every schedule of any number of threads and transactions. -/
theorem run_complete {static : List RootReference} {heap : H} {schedule : List (T × Turn O F S n)}
    {cfg : Config T (Position O n) (State T O F S H n)}
    (hrun : run (act collectHeap) (initial static heap) schedule = some cfg) :
    Complete collectHeap cfg := by
  have h := (outline collectHeap).run (outline_initial collectHeap static heap) hrun
  have hs : CollectionPauseDomain.Good cfg.shared.domain := h.1
  have hat (t : T) : At t (cfg.position t) cfg.shared := h.2 t
  have hstopped {t : T} {ticket : O} (hp : (cfg.position t).control = .committing ticket) :
      Stopped t ticket cfg.shared.domain := by
    have hcontrol := (hat t).control
    rw [hp] at hcontrol
    exact hs.isStopped hcontrol
  refine ⟨fun t ticket result static roots hstage => ?_,
    fun turn cfg' hstep ticket result static roots hstage => ?_, fun turn cfg' hstep => ?_,
    fun t result hstage => ?_⟩
  · have hholds := (hat t).stage
    rw [hstage] at hholds
    obtain ⟨hcontrol, population, ⟨parts, hparts, rfl⟩, rfl⟩ := hholds
    refine ⟨hstopped hcontrol, parts, ?_, rfl⟩
    rw [← stopped_contexts (hstopped hcontrol)]
    exact hparts.imp fun _ _ hroots => hroots.participantRoots
  · obtain ⟨⟨p', s'⟩, hact, rfl⟩ := map_eq_some_iff.mp hstep
    dsimp only at hstage
    rw [Function.update_self] at hstage
    obtain ⟨hcopying, hstatic⟩ := (act_sound hs (hat turn.1) hact).collecting hstage
    have hholds := (hat turn.1).stage
    rw [hcopying] at hholds
    exact ⟨hstopped hholds.1, hstatic⟩
  · obtain ⟨⟨p', s'⟩, hact, rfl⟩ := map_eq_some_iff.mp hstep
    exact (act_sound hs (hat turn.1) hact).heap
  · have hholds := (hat t).stage
    rw [hstage] at hholds
    exact hholds rfl

end Steps

-- A collection

local instance neZero_two : NeZero 2 := ⟨two_ne_zero⟩

/-- A thread with two frames; the inner one has two roots and the outer one has one. -/
def twoFrames (first : BitVec 64) : NativeThread (Fin 2) (Fin 2) :=
  (performAll { frames := fun _ => {}, carriers := fun _ _ => ⟨0#64, 0#32⟩ } []
    [.enter 0 (some 0) 1#64, .store 0 0 ⟨first, 5#32⟩, .publish 0 1#64,
     .enter 1 (some 1) 3#64, .store 1 0 ⟨first + 1#64, 6#32⟩, .store 1 1 ⟨first + 2#64, 8#32⟩,
     .publish 1 2#64]).1

def collectFrames : List (Bool × Turn Nat (Fin 2) (Fin 2) 2) :=
  [(false, .control (.call (.enter 0))), (false, .control .proceed),
   (true, .control (.call (.enter 1))), (true, .control .proceed),
   (false, .control (.run 0 (some (prepareCollectionRootContext (twoFrames 10#64) {})))),
   (true, .control (.run 1 (some (prepareCollectionRootContext (twoFrames 20#64) ⟨some 0, 1⟩)))),
   (true, .control (.call (.parkForBlocking 1 0))), (false, .collect 0 0), (false, .proceed),
   (false, .proceed), (false, .proceed), (false, .proceed), (false, .count none true),
   (false, .copy none)]

def Stage.collecting? : Stage O → Option (List RootReference × List RootReference)
  | .collecting _ _ static roots => some (static, roots)
  | _ => none

theorem Stage.eq_of_collecting? {stage : Stage O} (h : stage.collecting? = some (static, roots)) :
    ∃ ticket result, stage = .collecting ticket result static roots := by
  cases stage with
  | collecting ticket result _ _ =>
    cases h
    exact ⟨ticket, result, rfl⟩
  | _ => cases h

def recordRoots (roots : List RootReference) (heap : List (List RootReference)) :
    GcObjectStatus × Nat × List (List RootReference) := (.ok, 0, roots :: heap)

theorem run_complete_collectFrames : ∃ cfg : Config Bool (Position Nat 2)
        (State Bool Nat (Fin 2) (Fin 2) (List (List RootReference)) 2),
      run (act recordRoots) (initial [⟨30#64, 5#32⟩] []) collectFrames = some cfg ∧
      (cfg.position false).stage.collecting? = some ([⟨30#64, 5#32⟩],
        [⟨11#64, 6#32⟩, ⟨12#64, 8#32⟩, ⟨10#64, 5#32⟩, ⟨21#64, 6#32⟩, ⟨22#64, 8#32⟩, ⟨20#64, 5#32⟩,
         ⟨20#64, 5#32⟩, ⟨30#64, 5#32⟩]) ∧ Complete recordRoots cfg := by
  have hmap : (run (act recordRoots) (initial [⟨30#64, 5#32⟩] []) collectFrames).map
      (fun cfg : Config Bool (Position Nat 2)
        (State Bool Nat (Fin 2) (Fin 2) (List (List RootReference)) 2) =>
        (cfg.position false).stage.collecting?) = some (some ([⟨30#64, 5#32⟩],
        [⟨11#64, 6#32⟩, ⟨12#64, 8#32⟩, ⟨10#64, 5#32⟩, ⟨21#64, 6#32⟩, ⟨22#64, 8#32⟩, ⟨20#64, 5#32⟩,
         ⟨20#64, 5#32⟩, ⟨30#64, 5#32⟩])) := by decide +kernel
  obtain ⟨cfg, hrun, hstage⟩ := map_eq_some_iff.mp hmap
  exact ⟨cfg, hrun, hstage, run_complete hrun⟩

/-- The static roots stand behind the roots of the participants, not before them. -/
theorem collectFrames_static_last : ∃ (cfg : Config Bool (Position Nat 2)
        (State Bool Nat (Fin 2) (Fin 2) (List (List RootReference)) 2))
      (ticket : Nat) (result : CollectionTransactionResult) (static roots : List RootReference),
      run (act recordRoots) (initial [⟨30#64, 5#32⟩] []) collectFrames = some cfg ∧
      (cfg.position false).stage = .collecting ticket result static roots ∧
      ∀ population, roots ≠ static ++ population := by
  have hmap : (run (act recordRoots) (initial [⟨30#64, 5#32⟩] []) collectFrames).map
      (fun cfg : Config Bool (Position Nat 2)
        (State Bool Nat (Fin 2) (Fin 2) (List (List RootReference)) 2) =>
        ((cfg.position false).stage.collecting?.map fun r => (r.1, r.2.take 1))) =
      some (some ([⟨30#64, 5#32⟩], [⟨11#64, 6#32⟩])) := by decide +kernel
  obtain ⟨cfg, hrun, heq⟩ := map_eq_some_iff.mp hmap
  obtain ⟨⟨static, roots⟩, hcollecting, heq⟩ := map_eq_some_iff.mp heq
  obtain ⟨ticket, result, hstage⟩ := Stage.eq_of_collecting? hcollecting
  simp only [Prod.mk.injEq] at heq
  obtain ⟨rfl, htake⟩ := heq
  refine ⟨cfg, ticket, result, _, roots, hrun, hstage, ?_⟩
  rintro population rfl
  revert htake
  simp

end Uwvm2.Gc.CollectionTransaction
