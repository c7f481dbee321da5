import Mathlib

/-!
# Threads over a shared state

Any number of threads, each at a position of its own, take atomic steps on one
shared state in any order. A proof outline gives an invariant of the shared state,
an assertion for every position, and what a thread may do to the others; then the
invariant and all assertions hold along every schedule.
-/

namespace RelyGuarantee

open Option

variable {T P S L : Type}

structure Config (T P S : Type) where
  position : T → P
  shared : S

/-- One atomic step of a thread at a position, with a label that resolves the choices
left to it; none if the step is not enabled. -/
abbrev Action (T P S L : Type) := T → L → P → S → Option (P × S)

/-- Wherever a step leads, if it is enabled, `Q` holds. -/
def Leads (Q : P → S → Prop) (r : Option (P × S)) : Prop := ∀ ⦃p s⦄, r = some (p, s) → Q p s

namespace Leads

variable {Q : P → S → Prop} {p : P} {s : S} {r : Option (P × S)} {c : Prop}

theorem none : Leads Q none := nofun

theorem some (h : Q p s) : Leads Q (some (p, s)) := by
  rintro _ _ ⟨⟩
  exact h

theorem ite {inst : Decidable c} (h : c → Leads Q r) (h' : ¬ c → Leads Q r') :
    Leads Q (if c then r else r') := by
  split
  · exact h ‹_›
  · exact h' ‹_›

theorem guard {inst : Decidable c} (h : c → Q p s) : Leads Q (if c then .some (p, s) else .none) :=
  ite (fun hc => some (h hc)) fun _ => none

/-- A step that waits until `c` holds. -/
theorem await {inst : Decidable (¬ c)} (h : c → Leads Q r) : Leads Q (if ¬ c then .none else r) :=
  ite (fun _ => none) fun hc => h (not_not.mp hc)

theorem mono {Q' : P → S → Prop} (h : Leads Q r) (hq : ∀ p s, Q p s → Q' p s) : Leads Q' r :=
  fun _ _ heq => hq _ _ (h heq)

theorem map {A : Type} {o : Option A} {f : A → P × S} (h : ∀ a, o = .some a → Q (f a).1 (f a).2) :
    Leads Q (o.map f) := by
  cases o with
  | none => exact none
  | some a => exact some (h a rfl)

end Leads

variable [DecidableEq T]

def step (act : Action T P S L) (cfg : Config T P S) (turn : T × L) : Option (Config T P S) :=
  (act turn.1 turn.2 (cfg.position turn.1) cfg.shared).map fun r =>
    ⟨Function.update cfg.position turn.1 r.1, r.2⟩

def run (act : Action T P S L) (cfg : Config T P S) (schedule : List (T × L)) :
    Option (Config T P S) :=
  schedule.foldlM (step act) cfg

/-- A proof outline. `Does t` is what a step of `t` may do to the shared state, and
all that other threads rely on. -/
structure Outline (act : Action T P S L) where
  Good : S → Prop
  At : T → P → S → Prop
  Does : T → S → S → Prop
  sound : ∀ {t : T} {l : L} {p p' : P} {s s' : S}, Good s → At t p s →
    act t l p s = some (p', s') → Does t s s' ∧ Good s' ∧ At t p' s'
  stable : ∀ {t u : T} {p : P} {s s' : S}, u ≠ t → Good s → At u p s → Does t s s' → At u p s'

variable {act : Action T P S L}

def Outline.Holds (o : Outline act) (cfg : Config T P S) : Prop :=
  o.Good cfg.shared ∧ ∀ t, o.At t (cfg.position t) cfg.shared

theorem Outline.step (o : Outline act) (h : o.Holds cfg) (hstep : step act cfg turn = some cfg') :
    o.Holds cfg' := by
  obtain ⟨t, l⟩ := turn
  simp only [RelyGuarantee.step, map_eq_some_iff] at hstep
  obtain ⟨⟨p, s⟩, hact, rfl⟩ := hstep
  obtain ⟨hdoes, hgood, hat⟩ := o.sound h.1 (h.2 t) hact
  refine ⟨hgood, fun u => ?_⟩
  dsimp only
  by_cases hu : u = t
  · subst hu
    rwa [Function.update_self]
  · rw [Function.update_of_ne hu]
    exact o.stable hu h.1 (h.2 u) hdoes

theorem Outline.run (o : Outline act) (h : o.Holds cfg) (hrun : run act cfg schedule = some cfg') :
    o.Holds cfg' := by
  induction schedule generalizing cfg with
  | nil =>
    cases hrun
    exact h
  | cons turn schedule ih =>
    simp only [RelyGuarantee.run, List.foldlM_cons, bind_eq_bind,
      bind_eq_some_iff] at hrun
    obtain ⟨cfg₁, hstep, hrest⟩ := hrun
    exact ih (o.step h hstep) hrest

/-- The invariant rule for the runs in which an assumption holds at every configuration. -/
theorem run_invariant {I Assumed : Config T P S → Prop}
    (hstep : ∀ {cfg cfg' : Config T P S} {turn : T × L},
      I cfg → step act cfg turn = some cfg' → Assumed cfg' → I cfg')
    (h : I cfg)
    (hrun : run act cfg schedule = some cfg')
    (hassumed : ∀ before cfg₁, before <+: schedule → run act cfg before = some cfg₁ →
      Assumed cfg₁) : I cfg' := by
  induction schedule generalizing cfg with
  | nil =>
    cases hrun
    exact h
  | cons turn schedule ih =>
    simp only [run, List.foldlM_cons, bind_eq_bind, bind_eq_some_iff] at hrun
    obtain ⟨cfg₁, hfirst, hrest⟩ := hrun
    have hone : run act cfg [turn] = some cfg₁ := by
      simpa [run] using hfirst
    refine ih (hstep h hfirst (hassumed [turn] cfg₁ (by simp) hone)) hrest
      fun before cfg₂ hpre h₂ => ?_
    refine hassumed (turn :: before) cfg₂ (by simpa using hpre) ?_
    simp only [run, List.foldlM_cons, hfirst, bind_eq_bind, bind_some]
    exact h₂

end RelyGuarantee
