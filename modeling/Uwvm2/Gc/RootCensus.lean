import Uwvm2.Gc.CollectionTransaction
import Uwvm2.Gc.RootStack
import Uwvm2.Thread.StoppedWorld

/-!
# The collector gets all roots

The two passes show the roots of the population and then the static ones, or fail. The
callback runs while all participants are stopped, so that the population is the one that the
participants have at that time, until the collector has returned.
-/

namespace Uwvm2.Gc.CollectionTransaction

open Thread CollectionPauseDomain

variable {F S : Type}

-- Roots

def CollectionRootContext.native (context : CollectionRootContext F S) : List RootReference :=
  readCarriers context.memory.carriers context.nativeRoots.data context.nativeRoots.size

/-- The roots of a context that can be visited: those of its frames, from the innermost on, and
then its native ones. -/
structure ContextRoots (context : CollectionRootContext F S) (chain : List F) : Prop where
  population : context.population = .preciseNative
  size : context.nativeRoots.size ≤ maxRoots
  data : context.nativeRoots.size ≠ 0 → context.nativeRoots.data ≠ none
  frames : ValidChain context.memory maxFrames 0 context.frames chain
  native : ∀ reference ∈ context.native, runtimeKind reference = true

def HasRoots (context : Option (CollectionRootContext F S)) (roots : List RootReference) : Prop :=
  ∃ c chain, context = some c ∧ ContextRoots c chain ∧ roots = chainRoots c.memory chain ++ c.native

/-- The contexts stand for the roots, in order. -/
def PopulationRoots (contexts : List (Option (CollectionRootContext F S)))
    (roots : List RootReference) : Prop :=
  ∃ parts, List.Forall₂ HasRoots contexts parts ∧ roots = parts.flatten

theorem HasRoots.prepared (h : Represents thread stack)
    (hroots : HasRoots (some (prepareCollectionRootContext thread nativeRoots)) roots) :
    roots = stack.flatMap (Activation.roots thread.carriers) ++
      readCarriers thread.carriers nativeRoots.data nativeRoots.size := by
  obtain ⟨c, chain, hc, hcontext, rfl⟩ := hroots
  cases hc
  have hchain : chain = stack.map Activation.frame := hcontext.frames.linked.unique h.linked
  rw [hchain, ← h.chainRoots]
  rfl

-- The passes

section Passes

variable {c : Census}

theorem visitContext_ok : visitContext visitor c context = (true, c') ↔
      ∃ roots, HasRoots (some context) roots ∧ visitor.Accepts c roots c' := by
  unfold visitContext
  dsimp only
  constructor
  · intro h
    split_ifs at h with hpopulation hspan hframes hnative
    · cases h
    · cases h
    · cases h
    · simp only [not_or, not_and] at hspan
      obtain ⟨chain, hchain, haccepts⟩ :=
        visitQuiescentFrameRoots_ok.mp ⟨Decidable.not_not.mp hframes, rfl⟩
      obtain ⟨hkinds, hrest⟩ := Visitor.accepts_guarded.mp h
      exact ⟨_, ⟨context, chain, rfl, ⟨Decidable.not_not.mp hpopulation, Nat.le_of_not_lt hspan.1,
        hspan.2, hchain, hkinds⟩, rfl⟩, Visitor.accepts_append.mpr ⟨_, haccepts, hrest⟩⟩
    · cases h
  · rintro ⟨roots, ⟨c₀, chain, hc₀, hcontext, rfl⟩, haccepts⟩
    cases hc₀
    obtain ⟨c₁, hframes, hnative⟩ := Visitor.accepts_append.mp haccepts
    obtain ⟨hok, hstate⟩ := visitQuiescentFrameRoots_ok.mpr ⟨chain, hcontext.frames, hframes⟩
    have hspan : ¬ (context.nativeRoots.size > maxRoots ∨
        (context.nativeRoots.size ≠ 0 ∧ context.nativeRoots.data = none)) := by
      rintro (hsize | ⟨hsize, hdata⟩)
      · exact absurd hcontext.size (Nat.not_le_of_lt hsize)
      · exact hcontext.data hsize hdata
    have hguarded : (visitor.guarded runtimeKind).Accepts c₁ context.native c' :=
      Visitor.accepts_guarded.mpr ⟨hcontext.native, hnative⟩
    rw [if_neg (not_not_intro hcontext.population), if_neg hspan,
      if_neg (not_not_intro hok), hstate]
    have heach : (visitor.guarded runtimeKind).each c₁ (readCarriers context.memory.carriers
        context.nativeRoots.data context.nativeRoots.size) = (true, c') := hguarded
    rw [heach]
    rfl

theorem visitParticipant_ok : visitParticipant visitor c participant = (true, c') ↔
      ∃ roots, HasRoots participant.rootContext roots ∧ visitor.Accepts c roots c' := by
  unfold visitParticipant
  cases hcontext : participant.rootContext with
  | none =>
    constructor
    · nofun
    · rintro ⟨roots, ⟨c₀, chain, hc₀, -⟩, -⟩
      cases hc₀
  | some context => exact visitContext_ok

theorem visitPopulation_ok {participants : List (StoppedParticipant (CollectionRootContext F S))} :
    visitPopulation visitor c participants = (true, c') ↔
      ∃ roots, PopulationRoots (participants.map (·.rootContext)) roots ∧
        visitor.Accepts c roots c' := by
  have hnested : (visitParticipant visitor).Accepts c participants c' ↔
      ∃ parts, List.Forall₂ (fun p l => HasRoots p.rootContext l) participants parts ∧
        visitor.Accepts c parts.flatten c' :=
    Visitor.accepts_nested fun _ _ _ => visitParticipant_ok
  refine hnested.trans ?_
  simp only [PopulationRoots, List.forall₂_map_left_iff]
  constructor
  · rintro ⟨parts, hparts, haccepts⟩
    exact ⟨_, ⟨parts, hparts, rfl⟩, haccepts⟩
  · rintro ⟨_, ⟨parts, hparts, rfl⟩, haccepts⟩
    exact ⟨parts, hparts, haccepts⟩

theorem visitStatic_ok :
    visitStatic visitor c static part = (true, c') ↔ part = none ∧ visitor.Accepts c static c' := by
  cases part with
  | none => exact ⟨fun h => ⟨rfl, h⟩, fun h => h.2⟩
  | some shown =>
    constructor
    · nofun
    · exact fun h => nomatch h.1

/-- Both parts of a pass succeed exactly if the visitor accepts the roots of the population and
then the static ones. -/
theorem passes_ok {participants : List (StoppedParticipant (CollectionRootContext F S))} :
    (∃ c₁, visitPopulation visitor c participants = (true, c₁) ∧
        visitStatic visitor c₁ static part = (true, c')) ↔
      part = none ∧ ∃ population, PopulationRoots (participants.map (·.rootContext)) population ∧
        visitor.Accepts c (population ++ static) c' := by
  simp only [visitPopulation_ok, visitStatic_ok, Visitor.accepts_append]
  constructor
  · rintro ⟨c₁, ⟨population, hroots, hfirst⟩, hpart, hrest⟩
    exact ⟨hpart, population, hroots, c₁, hfirst, hrest⟩
  · rintro ⟨hpart, population, hroots, c₁, hfirst, hrest⟩
    exact ⟨c₁, ⟨population, hroots, hfirst⟩, hpart, hrest⟩

theorem count_accepts (hc : c.result.roots ≤ maxRoots) : count.Accepts c l c' ↔
    c.result.roots + l.length ≤ maxRoots ∧
      c' = { c with result := { c.result with roots := c.result.roots + l.length } } := by
  induction l generalizing c with
  | nil => simpa using fun _ => hc
  | cons r l ih =>
    rw [Visitor.accepts_cons, List.length_cons]
    constructor
    · rintro ⟨c₁, hr, hl⟩
      unfold count at hr
      split at hr
      next => cases hr
      next hne =>
        cases hr
        obtain ⟨hfits, rfl⟩ := (ih (by dsimp only; omega)).mp hl
        dsimp only at hfits ⊢
        rw [Nat.add_right_comm, Nat.add_assoc] at hfits ⊢
        exact ⟨hfits, rfl⟩
    · rintro ⟨hfits, rfl⟩
      have hne : c.result.roots ≠ maxRoots := by omega
      refine ⟨_, if_neg hne, (ih (by dsimp only; omega)).mpr ⟨?_, ?_⟩⟩
      · dsimp only
        omega
      · dsimp only
        rw [Nat.add_right_comm, Nat.add_assoc]

theorem copy_accepts (hc : c.copied.length ≤ c.result.roots) : copy.Accepts c l c' ↔
    c.copied.length + l.length ≤ c.result.roots ∧ c' = { c with copied := c.copied ++ l } := by
  induction l generalizing c with
  | nil => simpa using fun _ => hc
  | cons r l ih =>
    have hnext : (c.copied ++ [r]).length = c.copied.length + 1 := by simp
    rw [Visitor.accepts_cons, List.length_cons]
    constructor
    · rintro ⟨c₁, hr, hl⟩
      unfold copy at hr
      split at hr
      next => cases hr
      next hne =>
        cases hr
        obtain ⟨hfits, rfl⟩ := (ih (by dsimp only; omega)).mp hl
        dsimp only at hfits ⊢
        refine ⟨by omega, ?_⟩
        rw [List.append_assoc, List.singleton_append]
    · rintro ⟨hfits, rfl⟩
      have hne : c.copied.length ≠ c.result.roots := by omega
      refine ⟨_, if_neg hne, (ih (by dsimp only; omega)).mpr ⟨?_, ?_⟩⟩
      · dsimp only
        omega
      · dsimp only
        rw [List.append_assoc, List.singleton_append]

end Passes

-- The callback

section Callback

variable {participants : List (StoppedParticipant (CollectionRootContext F S))}
  {roots : List RootReference}

/-- The first pass succeeds exactly if all roots can be shown, are not too many, and there is
memory for them. -/
theorem countRoots_ok {active : Nat} :
    countRoots participants static part active allocated = .ok result ↔
      part = none ∧ ∃ population, PopulationRoots (participants.map (·.rootContext)) population ∧
        (population ++ static).length ≤ maxRoots ∧
        ((population ++ static).length ≠ 0 → allocated = true) ∧
        result = { participants := active, roots := (population ++ static).length } := by
  constructor
  · intro h
    dsimp only [countRoots] at h
    split_ifs at h with hpopulation hstatic hallocated
    obtain ⟨hpart, population, hroots, haccepts⟩ :=
      passes_ok.mp ⟨_, Prod.ext (by simpa using hpopulation) rfl,
        Prod.ext (by simpa using hstatic) rfl⟩
    obtain ⟨hfits, hstate⟩ := (count_accepts (Nat.zero_le _)).mp haccepts
    simp only [hstate, Nat.zero_add, not_and, Decidable.not_not] at h hallocated hfits
    cases h
    exact ⟨hpart, population, hroots, hfits, hallocated, rfl⟩
  · rintro ⟨rfl, population, hroots, hfits, hallocated, rfl⟩
    have haccepts : count.Accepts { result := { participants := active } }
      (population ++ static) _ :=
      (count_accepts (Nat.zero_le _)).mpr ⟨by rwa [Nat.zero_add], rfl⟩
    obtain ⟨c₁, hpopulation, hstatic⟩ := passes_ok.mpr ⟨rfl, population, hroots, haccepts⟩
    simpa [countRoots, hpopulation, hstatic] using hallocated

/-- The second pass succeeds exactly if all roots can be shown and are as many as before. -/
theorem copyRoots_ok : copyRoots participants static part result = .ok roots ↔
      part = none ∧ ∃ population, PopulationRoots (participants.map (·.rootContext)) population ∧
        roots = population ++ static ∧ roots.length = result.roots := by
  constructor
  · intro h
    dsimp only [copyRoots] at h
    split_ifs at h with hpopulation hstatic
    simp only [not_or, Decidable.not_not] at hstatic
    obtain ⟨hpart, population, hroots, haccepts⟩ :=
      passes_ok.mp ⟨_, Prod.ext (by simpa using hpopulation) rfl, Prod.ext hstatic.1 rfl⟩
    obtain ⟨-, hstate⟩ := (copy_accepts (Nat.zero_le _)).mp haccepts
    simp only [hstate] at h hstatic
    cases h
    exact ⟨hpart, population, hroots, rfl, hstatic.2⟩
  · rintro ⟨rfl, population, hroots, rfl, hlength⟩
    have haccepts : copy.Accepts { result } (population ++ static) _ :=
      (copy_accepts (Nat.zero_le _)).mpr ⟨by rw [hlength]; exact Nat.le_of_eq (Nat.zero_add _), rfl⟩
    obtain ⟨c₁, hpopulation, hstatic⟩ := passes_ok.mpr ⟨rfl, population, hroots, haccepts⟩
    simpa [copyRoots, hpopulation, hstatic] using hlength

end Callback

-- A failed pass does not report a collection

def Census.Uncollected (c : Census) : Prop := c.result.status ≠ .collected

section Uncollected

variable {visitor : Visitor Census RootReference} {c : Census}

theorem Census.Uncollected.failUnlessOverflow (hc : c.Uncollected) (hstatus : status ≠ .collected) :
    (c.failUnlessOverflow status).Uncollected := by
  unfold Census.failUnlessOverflow
  split
  · exact hstatus
  · exact hc

theorem count_uncollected (c : Census) (r : RootReference) (hc : c.Uncollected) :
    (count c r).2.Uncollected := by
  unfold count
  split
  · exact nofun
  · exact hc

theorem copy_uncollected (c : Census) (r : RootReference) (hc : c.Uncollected) :
    (copy c r).2.Uncollected := by
  unfold copy
  split
  · exact hc
  · exact hc

section Visits

variable (hv : ∀ c r, c.Uncollected → (visitor c r).2.Uncollected)
include hv

theorem deliver_uncollected (hc : c.Uncollected) :
    (deliver m visitor left result c head).2.Uncollected := by
  induction left generalizing result c head with
  | zero => cases head <;> exact hc
  | succ left ih =>
    cases head with
    | none => exact hc
    | some f =>
      have hkeeps : (visitor.counted.each (result.visited, c)
          ((m.frames f).roots m.carriers)).2.2.Uncollected :=
        Visitor.each_keeps (P := fun s : Nat × Census => s.2.Uncollected)
          (fun s r hs => hv s.2 r hs) hc
      rw [deliver]
      split
      next visited c₁ heach =>
        rw [heach] at hkeeps
        exact ih hkeeps
      next visited c₁ heach =>
        rw [heach] at hkeeps
        exact hkeeps

theorem visitQuiescentFrameRoots_uncollected (hc : c.Uncollected) :
    (visitQuiescentFrameRoots m head visitor c frames).2.Uncollected := by
  unfold visitQuiescentFrameRoots
  dsimp only
  split
  · exact hc
  · exact deliver_uncollected hv hc

theorem visitContext_uncollected (hc : c.Uncollected) :
    (visitContext visitor c context).2.Uncollected := by
  have hframes : (visitQuiescentFrameRoots context.memory context.frames visitor c
      maxFrames).2.Uncollected := visitQuiescentFrameRoots_uncollected hv hc
  have hnative (l : List RootReference) : ((visitor.guarded runtimeKind).each
      (visitQuiescentFrameRoots context.memory context.frames visitor c maxFrames).2
        l).2.Uncollected := by
    refine Visitor.each_keeps (fun c r hc => ?_) hframes
    unfold Visitor.guarded
    split
    · exact hv c r hc
    · exact hc
  unfold visitContext
  dsimp only
  split_ifs
  · exact nofun
  · exact nofun
  · exact hframes.failUnlessOverflow nofun
  · exact hnative _
  · exact (hnative _).failUnlessOverflow nofun

theorem visitPopulation_uncollected (hc : c.Uncollected)
    (participants : List (StoppedParticipant (CollectionRootContext F S))) :
    (visitPopulation visitor c participants).2.Uncollected := by
  refine Visitor.each_keeps (fun c participant hc => ?_) hc
  unfold visitParticipant
  split
  · exact nofun
  · exact visitContext_uncollected hv hc

theorem visitStatic_uncollected (hc : c.Uncollected) (static : List RootReference)
    (part : Option (List RootReference)) : (visitStatic visitor c static part).2.Uncollected := by
  cases part with
  | none => exact Visitor.each_keeps hv hc
  | some shown =>
    have hkeeps : (visitor.each c shown).2.Uncollected := Visitor.each_keeps hv hc
    exact hkeeps

end Visits

theorem countRoots_error
    (h : countRoots participants static part active allocated = .error result) :
    result.status ≠ .collected := by
  have hpopulation := visitPopulation_uncollected count_uncollected
    (c := { result := { participants := active } }) nofun participants
  have hstatic := visitStatic_uncollected count_uncollected hpopulation static part
  dsimp only [countRoots] at h
  split_ifs at h
  · cases h
    exact nofun
  · cases h
    exact hstatic.failUnlessOverflow nofun
  · cases h
    exact hpopulation

theorem copyRoots_error (hresult : result.status ≠ .collected)
    (h : copyRoots participants static part result = .error result') :
    result'.status ≠ .collected := by
  have hpopulation := visitPopulation_uncollected copy_uncollected (c := { result })
    hresult participants
  have hstatic := visitStatic_uncollected copy_uncollected hpopulation static part
  dsimp only [copyRoots] at h
  split_ifs at h
  · cases h
    exact hstatic.failUnlessOverflow nofun
  · cases h
    exact hpopulation

end Uncollected

end Uwvm2.Gc.CollectionTransaction
