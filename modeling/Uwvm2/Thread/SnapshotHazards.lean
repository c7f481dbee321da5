import Uwvm2.Thread.ImmutableSnapshot

/-!
# Hazards protect acquired nodes

A reader acquires a node only while it is current, and its hazard names the node from
before that moment on. A collect frees a node only after it has read every hazard, and
while it reads them the node is retired and no new version can be published: so no
reader can have acquired it.
-/

namespace Uwvm2.Thread.ImmutableSnapshot

open Function List
open Option (map_eq_some_iff bind_some mem_toList getD_some)
open RelyGuarantee

variable {T A P : Type} [DecidableEq T] [DecidableEq A] [Inhabited P]

-- The outline

structure Good (s : Snapshot T A P) : Prop where
  current_live : ∀ a, s.current = some a → s.heap a ≠ none ∧ s.owner a = none
  retired_live : ∀ a ∈ s.retired, s.heap a ≠ none ∧ s.owner a = none ∧ s.current ≠ some a
  retired_nodup : s.retired.Nodup
  published : ∀ a, s.heap a ≠ none → s.owner a = none → s.current = some a ∨ a ∈ s.retired
  owner_live : ∀ a t, s.owner a = some t → s.heap a ≠ none
  readers_nodup : s.readers.Nodup
  borrow : ∀ t a, s.borrow t = some a →
    s.hazard t = some a ∧ t ∈ s.readers ∧ s.heap a ≠ none ∧ s.owner a = none
  contents : s.contents = (s.current.bind s.heap).map Node.value
  replays : replay s.history = some s.contents
  faulted : s.faulted = false

namespace Position

def locked : Position T A P → Bool
  | .registerLink | .registerUnlock | .unregisterUnlink | .unregisterUnlock => true
  | .updateLoad _ | .updateCopy _ _ | .updateEdit _ _ | .exchange _ _ => true
  | .collectStart | .collect _ _ _ | .scan _ _ _ _ _ | .collected _ | .unlock => true
  | _ => false

def registered : Position T A P → Bool
  | .reader _ | .registerUnlock | .acquireLoad _ | .acquireStore _ _ | .acquireCheck _
  | .unregisterStore _ | .unregisterLock | .unregisterUnlink => true
  | _ => false

def borrowed : Position T A P → Option (A × Nat)
  | .reader b | .acquireLoad b | .acquireStore b _ | .unregisterStore b => b
  | _ => none

end Position

structure Holds (t : T) (p : Position T A P) (s : Snapshot T A P) : Prop where
  mutex : s.writers = some t ↔ p.locked = true
  registered : t ∈ s.readers ↔ p.registered = true
  borrow : s.borrow t = p.borrowed.map Prod.fst
  node : ∀ a id, p.borrowed = some (a, id) → ∃ value, s.heap a = some ⟨id, value⟩

def Private (t : T) (s : Snapshot T A P) (a : A) (value : P) : Prop :=
  s.owner a = some t ∧ ∃ id, s.heap a = some ⟨id, value⟩

/-- A collect has looked at the nodes in front of `rest` and kept those it found named. -/
structure Collecting (s : Snapshot T A P) (all kept rest : List A) : Prop where
  retired : s.retired = kept ++ rest
  nodup : all.Nodup
  split : ∃ looked, all = looked ++ rest ∧ kept = looked.filter (· ∈ s.found.map Prod.fst)
  found : ∀ a ∈ rest, a ∉ s.found.map Prod.fst

def Facts (t : T) (s : Snapshot T A P) : Position T A P → Prop
  | .acquireCheck observed => s.hazard t = observed
  | .updateCopy _ previous => previous = s.current
  | .updateEdit _ a => Private t s a (s.contents.getD default)
  | .replaceLock value a => Private t s a value
  | .exchange job replacement =>
    match replacement with
    | some a => ∃ value, Private t s a value ∧ publish s.contents job = some (some value)
    | none => publish s.contents job = some none
  | .collect all kept rest => Collecting s all kept rest
  | .scan all kept candidate rest readers =>
    Collecting s all kept (candidate :: rest) ∧ (∀ r ∈ readers, r ∈ s.readers) ∧
      ∀ r ∈ s.readers, r ∉ readers → s.borrow r ≠ some candidate
  | .collected all => s.retired = all.filter (· ∈ s.found.map Prod.fst)
  | _ => True

structure Does (t : T) (s s' : Snapshot T A P) : Prop where
  mutex : ∀ u, u ≠ t → (s'.writers = some u ↔ s.writers = some u)
  readers : ∀ u, u ≠ t → (u ∈ s'.readers ↔ u ∈ s.readers)
  hazard : ∀ u, u ≠ t → s'.hazard u = s.hazard u
  borrow : ∀ u, u ≠ t → s'.borrow u = s.borrow u
  borrows : ∀ a, s'.borrow t = some a → s.borrow t = some a ∨ s.current = some a
  guarded : s.writers ≠ some t → s'.current = s.current ∧ s'.retired = s.retired ∧
    s'.readers = s.readers ∧ s'.found = s.found ∧ s'.contents = s.contents
  owned : ∀ u, u ≠ t → ∀ a, s.owner a = some u → s'.heap a = s.heap a ∧ s'.owner a = some u
  borrowed : ∀ u, u ≠ t → ∀ a, s.borrow u = some a → s'.heap a = s.heap a

def At (t : T) (p : Position T A P) (s : Snapshot T A P) : Prop := Holds t p s ∧ Facts t s p

-- Stability

variable {t u : T} {p p' : Position T A P} {s s' : Snapshot T A P} {a : A}

omit [DecidableEq T] [DecidableEq A] [Inhabited P] in
theorem Holds.stable (hu : u ≠ t) (h : Holds u p s) (hd : Does t s s') : Holds u p s' where
  mutex := (hd.mutex u hu).trans h.mutex
  registered := (hd.readers u hu).trans h.registered
  borrow := (hd.borrow u hu).trans h.borrow
  node a id hb := by
    rw [hd.borrowed u hu a (by rw [h.borrow, hb]; rfl)]
    exact h.node a id hb

omit [DecidableEq T] [DecidableEq A] [Inhabited P] in
theorem Private.stable (hu : u ≠ t) (h : Private u s a value) (hd : Does t s s') :
    Private u s' a value := by
  obtain ⟨hheap, howner⟩ := hd.owned u hu a h.1
  exact ⟨howner, hheap ▸ h.2⟩

omit [DecidableEq T] [Inhabited P] in
theorem Collecting.congr {all : List A} (h : Collecting s all kept rest)
    (hretired : s'.retired = s.retired) (hfound : s'.found = s.found) :
    Collecting s' all kept rest :=
  ⟨hretired.trans h.retired, h.nodup, hfound ▸ h.split, hfound ▸ h.found⟩

/-- The candidate of a scan is retired, so no reader acquires it. -/
theorem Facts.stable (hu : u ≠ t) (hs : Good s) (h : Holds u p s) (hf : Facts u s p)
    (hd : Does t s s') : Facts u s' p := by
  have hguarded (hp : p.locked = true) : s'.current = s.current ∧ s'.retired = s.retired ∧
      s'.readers = s.readers ∧ s'.found = s.found ∧ s'.contents = s.contents := by
    refine hd.guarded ?_
    rw [h.mutex.mpr hp]
    exact fun heq => hu (Option.some.inj heq)
  cases p with
  | acquireCheck observed => exact (hd.hazard u hu).trans hf
  | updateCopy edit previous => exact Eq.trans hf (hguarded rfl).1.symm
  | updateEdit edit a =>
    obtain ⟨_, _, _, _, hcontents⟩ := hguarded rfl
    have hp : Private u s a (s.contents.getD default) := hf
    rw [← hcontents] at hp
    exact hp.stable hu hd
  | replaceLock value a => exact Private.stable hu hf hd
  | exchange job replacement =>
    obtain ⟨_, _, _, _, hcontents⟩ := hguarded rfl
    cases replacement with
    | none => exact (congrArg (publish · job) hcontents).trans hf
    | some a =>
      obtain ⟨value, hp, hpublish⟩ := hf
      exact ⟨value, hp.stable hu hd, (congrArg (publish · job) hcontents).trans hpublish⟩
  | collect all kept rest =>
    obtain ⟨_, hretired, _, hfound, _⟩ := hguarded rfl
    exact Collecting.congr hf hretired hfound
  | scan all kept candidate rest readers =>
    obtain ⟨_, hretired, hreaders, hfound, _⟩ := hguarded rfl
    obtain ⟨hcollecting, hsub, hnot⟩ := hf
    refine ⟨hcollecting.congr hretired hfound, hreaders ▸ hsub, fun r hr hr' hb => ?_⟩
    have hmem : candidate ∈ s.retired := by
      rw [hcollecting.retired]
      exact mem_append_right _ mem_cons_self
    rw [hreaders] at hr
    by_cases hrt : r = t
    · subst hrt
      rcases hd.borrows candidate hb with hold | hcurrent
      · exact hnot r hr hr' hold
      · exact (hs.retired_live candidate hmem).2.2 hcurrent
    · exact hnot r hr hr' ((hd.borrow r hrt).symm.trans hb)
  | collected all =>
    obtain ⟨_, hretired, _, hfound, _⟩ := hguarded rfl
    simp only [Facts, hretired, hfound]
    exact hf
  | _ => trivial

-- Effects

structure Fits (t : T) (s : Snapshot T A P) (p' : Position T A P) (s' : Snapshot T A P) : Prop where
  does : Does t s s'
  good : Good s'
  at_ : At t p' s'

omit [DecidableEq T] [DecidableEq A] [Inhabited P] in
theorem Does.refl (t : T) (s : Snapshot T A P) : Does t s s where
  mutex _ _ := Iff.rfl
  readers _ _ := Iff.rfl
  hazard _ _ := rfl
  borrow _ _ := rfl
  borrows _ h := .inl h
  guarded _ := ⟨rfl, rfl, rfl, rfl, rfl⟩
  owned _ _ _ h := ⟨rfl, h⟩
  borrowed _ _ _ _ := rfl

omit [DecidableEq T] [DecidableEq A] [Inhabited P] in
theorem Holds.move (h : Holds t p s) (hl : p'.locked = p.locked) (hr : p'.registered = p.registered)
    (hb : p'.borrowed = p.borrowed) : Holds t p' s :=
  ⟨hl ▸ h.mutex, hr ▸ h.registered, hb ▸ h.borrow, hb ▸ h.node⟩

section

omit [DecidableEq T]

theorem Fits.stay (hs : Good s) (h : Holds t p s) (hf : Facts t s p')
    (hl : p'.locked = p.locked := by rfl) (hr : p'.registered = p.registered := by rfl)
    (hb : p'.borrowed = p.borrowed := by rfl) : Fits t s p' s :=
  ⟨.refl t s, hs, h.move hl hr hb, hf⟩

theorem Fits.lock (hs : Good s) (h : Holds t p s) (hlock : ImmutableSnapshot.lock t s = some s')
    (hf : Facts t { s with writers := some t } p') (hl : p'.locked = true := by rfl)
    (hr : p'.registered = p.registered := by rfl) (hb : p'.borrowed = p.borrowed := by rfl) :
    Fits t s p' s' := by
  unfold ImmutableSnapshot.lock at hlock
  split at hlock
  case isFalse => cases hlock
  case isTrue hnone =>
    cases hlock
    refine ⟨{ Does.refl t s with mutex := fun u hu => ?_ }, { hs with },
      ⟨iff_of_true rfl hl, hr ▸ h.registered, hb ▸ h.borrow, hb ▸ h.node⟩, hf⟩
    rw [hnone]
    exact iff_of_false (fun heq => hu (Option.some.inj heq).symm) nofun

theorem Fits.unlock (hs : Good s) (h : Holds t p s) (hp : p.locked = true) (hl : p'.locked = false)
    (hr : p'.registered = p.registered) (hb : p'.borrowed = p.borrowed)
    (hf : Facts t { s with writers := none } p') : Fits t s p' { s with writers := none } := by
  refine ⟨{ Does.refl t s with mutex := fun u hu => iff_of_false nofun fun heq => hu ?_ },
    { hs with }, ⟨iff_of_false nofun (by rw [hl]; exact nofun), hr ▸ h.registered, hb ▸ h.borrow,
    hb ▸ h.node⟩, hf⟩
  exact Option.some.inj (heq.symm.trans (h.mutex.mpr hp))

theorem Fits.register (hs : Good s) (h : Holds t .registerLink s) :
    Fits t s .registerUnlock { s with readers := t :: s.readers } := by
  have hnot : t ∉ s.readers := fun hm => by cases h.registered.mp hm
  refine ⟨{ Does.refl t s with
      readers := fun u hu => by simp [hu]
      guarded := fun hne => absurd (h.mutex.mpr rfl) hne },
    { hs with readers_nodup := nodup_cons.mpr ⟨hnot, hs.readers_nodup⟩, borrow := ?_ },
    ⟨h.mutex, iff_of_true mem_cons_self rfl, h.borrow, nofun⟩, trivial⟩
  intro u a hb
  obtain ⟨hhazard, hmem, hlive⟩ := hs.borrow u a hb
  exact ⟨hhazard, mem_cons_of_mem _ hmem, hlive⟩

end

theorem Fits.unregister (hs : Good s) (h : Holds t .unregisterUnlink s) :
    Fits t s .unregisterUnlock { s with readers := s.readers.erase t } := by
  have hnone : s.borrow t = none := h.borrow
  refine ⟨{ Does.refl t s with
      readers := fun u hu => mem_erase_of_ne hu
      guarded := fun hne => absurd (h.mutex.mpr rfl) hne },
    { hs with readers_nodup := hs.readers_nodup.erase t, borrow := ?_ },
    ⟨h.mutex, iff_of_false hs.readers_nodup.not_mem_erase nofun, h.borrow, nofun⟩, trivial⟩
  intro u a hb
  obtain ⟨hhazard, hmem, hlive⟩ := hs.borrow u a hb
  have hne : u ≠ t := fun heq => by
    rw [heq, hnone] at hb
    cases hb
  exact ⟨hhazard, (mem_erase_of_ne hne).mpr hmem, hlive⟩

theorem Fits.storeHazard (hs : Good s) (h : Holds t p s)
    (hl : p'.locked = p.locked) (hr : p'.registered = p.registered) (hb : p'.borrowed = none)
    (hf : Facts t (ImmutableSnapshot.storeHazard t s o) p') :
    Fits t s p' (ImmutableSnapshot.storeHazard t s o) := by
  have hself : update s.borrow t none t = none := update_self _ _ _
  refine ⟨{ Does.refl t s with
      hazard := fun u hu => update_of_ne hu _ _
      borrow := fun u hu => update_of_ne hu _ _
      borrows := fun a ha => by cases hself.symm.trans ha },
    { hs with borrow := fun u a hu => ?_ },
    ⟨hl ▸ h.mutex, hr ▸ h.registered, hself.trans (by rw [hb]; rfl), by rw [hb]; exact nofun⟩, hf⟩
  have hne : u ≠ t := fun heq => by
    rw [heq] at hu
    cases hself.symm.trans hu
  simp only [ImmutableSnapshot.storeHazard, update_of_ne hne] at hu ⊢
  exact hs.borrow u a hu

omit [DecidableEq T] [DecidableEq A] in
theorem Good.acquired (hs : Good s)
    (hborrowed : borrowed = s.current.bind fun a => (s.heap a).map fun n => (a, n.id)) :
    s.current = borrowed.map Prod.fst ∧
      ∀ a id, borrowed = some (a, id) → ∃ value, s.heap a = some ⟨id, value⟩ := by
  subst hborrowed
  constructor
  · cases hc : s.current with
    | none => rfl
    | some a =>
      obtain ⟨n, hn⟩ := Option.ne_none_iff_exists'.mp (hs.current_live a hc).1
      simp [hn]
  · intro a id hb
    obtain ⟨b, _, hb⟩ := Option.bind_eq_some_iff.mp hb
    obtain ⟨n, hn, heq⟩ := map_eq_some_iff.mp hb
    cases heq
    exact ⟨n.value, hn⟩

theorem Fits.validate (hs : Good s) (h : At t (.acquireCheck s.current) s) :
    Fits t s (.reader (s.current.bind fun a => (s.heap a).map fun n => (a, n.id)))
      { s with borrow := update s.borrow t s.current } := by
  obtain ⟨h, hhazard⟩ := h
  have hself : update s.borrow t s.current t = s.current := update_self _ _ _
  obtain ⟨hborrowed, hnode⟩ := hs.acquired rfl
  refine ⟨{ Does.refl t s with
      borrow := fun u hu => update_of_ne hu _ _
      borrows := fun a ha => .inr (hself.symm.trans ha) },
    { hs with borrow := fun u a hu => ?_ },
    ⟨h.mutex, h.registered, hself.trans hborrowed, hnode⟩, trivial⟩
  by_cases heq : u = t
  · subst heq
    have hcurrent : s.current = some a := hself.symm.trans hu
    exact ⟨Eq.trans hhazard hcurrent, h.registered.mpr rfl, hs.current_live a hcurrent⟩
  · exact hs.borrow u a ((update_of_ne heq _ _).symm.trans hu)

omit [DecidableEq T] in
/-- A change to a node that is neither current nor acquired, and no longer retired. -/
theorem Good.setNode (hs : Good s) (ho : n = none ↔ o = none) (hcurrent : s.current ≠ some a)
    (hborrow : ∀ u, s.borrow u ≠ some a) (hnodup : retired.Nodup)
    (hretired : ∀ b, b ∈ retired ↔ b ∈ s.retired ∧ b ≠ a) :
    Good { s with
      heap := update s.heap a n, owner := update s.owner a o, nextId := k, retired } := by
  refine { hs with
    current_live := fun b hb => ?_
    retired_live := fun b hb => ?_
    retired_nodup := hnodup
    published := fun b hlive hpub => ?_
    owner_live := fun b u hb => ?_
    borrow := fun u b hb => ?_
    contents := ?_ }
  · have hba : b ≠ a := fun heq => hcurrent (heq ▸ hb)
    simpa only [update_of_ne hba] using hs.current_live b hb
  · obtain ⟨hb, hba⟩ := (hretired b).mp hb
    simpa only [update_of_ne hba] using hs.retired_live b hb
  · by_cases hba : b = a
    · simp only [hba, update_self] at hlive hpub
      exact absurd (ho.mpr hpub) hlive
    · simp only [update_of_ne hba] at hlive hpub
      exact (hs.published b hlive hpub).imp_right fun hm => (hretired b).mpr ⟨hm, hba⟩
  · by_cases hba : b = a
    · simp only [hba, update_self] at hb ⊢
      exact fun hnone => by cases (ho.mp hnone).symm.trans hb
    · simp only [update_of_ne hba] at hb ⊢
      exact hs.owner_live b u hb
  · have hba : b ≠ a := fun heq => hborrow u (heq ▸ hb)
    simpa only [update_of_ne hba] using hs.borrow u b hb
  · cases hc : s.current with
    | none => simpa [hc] using hs.contents
    | some b =>
      have hba : b ≠ a := fun heq => hcurrent (heq ▸ hc)
      simpa [hc, update_of_ne hba] using hs.contents

omit [DecidableEq T] in
theorem Fits.setPrivate (hs : Good s)
    (h : Holds t p s) (ha : s.heap a = none ∨ s.owner a = some t) (ho : n = none ↔ o = none)
    (hl : p'.locked = p.locked) (hr : p'.registered = p.registered) (hb : p'.borrowed = p.borrowed)
    (hf : Facts t { s with
      heap := update s.heap a n, owner := update s.owner a o, nextId := k } p') :
    Fits t s p' { s with
      heap := update s.heap a n, owner := update s.owner a o, nextId := k } := by
  have howner (u : T) (hu : u ≠ t) : s.owner a ≠ some u := fun heq => by
    rcases ha with hnone | hmine
    · exact hs.owner_live a u heq hnone
    · exact hu (Option.some.inj (heq.symm.trans hmine))
  have hne {b : A} (hlive : s.heap b ≠ none ∧ s.owner b = none) : b ≠ a := fun heq => by
    subst heq
    rcases ha with hnone | hmine
    · exact hlive.1 hnone
    · cases hlive.2.symm.trans hmine
  have hborrow {u : T} {b : A} (hb : s.borrow u = some b) : b ≠ a := hne (hs.borrow u b hb).2.2
  refine ⟨{ Does.refl t s with
      owned := fun u hu b hb => ?_
      borrowed := fun u hu b hb => update_of_ne (hborrow hb) _ _ },
    hs.setNode ho (fun hc => hne (hs.current_live a hc) rfl) (fun u hb => hborrow hb rfl)
      hs.retired_nodup fun b => ?_,
    ⟨hl ▸ h.mutex, hr ▸ h.registered, hb ▸ h.borrow, fun b id hid => ?_⟩, hf⟩
  · have hba : b ≠ a := fun heq => howner u hu (heq ▸ hb)
    exact ⟨update_of_ne hba _ _, (update_of_ne hba _ _).trans hb⟩
  · exact (and_iff_left_of_imp fun hm =>
      hne ⟨(hs.retired_live b hm).1, (hs.retired_live b hm).2.1⟩).symm
  · rw [hb] at hid
    have hba : b ≠ a := hborrow (u := t) (by rw [h.borrow, hid]; rfl)
    simpa only [update_of_ne hba] using h.node b id hid

omit [DecidableEq T] in
/-- The replacement becomes current, and what was current is retired. -/
theorem Fits.exchange (hs : Good s) (h : At t (.exchange job replacement) s) :
    Fits t s .collectStart (publishLocked s job replacement) := by
  obtain ⟨h, hf⟩ := h
  have hmutex : s.writers = some t := h.mutex.mpr rfl
  have hcontents : publish s.contents job = some ((replacement.bind s.heap).map Node.value) := by
    cases replacement with
    | none => exact hf
    | some a =>
      obtain ⟨value, ⟨_, id, hheap⟩, hpublish⟩ := hf
      rw [hpublish, bind_some, hheap]
      rfl
  have hmine {a : A} (ha : replacement = some a) : s.owner a = some t ∧ s.heap a ≠ none := by
    subst ha
    obtain ⟨value, ⟨howner, _⟩, _⟩ := hf
    exact ⟨howner, hs.owner_live a t howner⟩
  have howner (b : A) : (publishLocked s job replacement).owner b =
      if replacement = some b then none else s.owner b := by
    cases replacement with
    | none => rfl
    | some a =>
      simp only [publishLocked, Option.some.injEq, update_apply, eq_comm]
  have hkeep {b : A} (hb : s.owner b = none) :
      (publishLocked s job replacement).owner b = none := by
    rw [howner b, hb, ite_self]
  have hnot {b : A} (hb : s.owner b = none) : replacement ≠ some b := fun heq => by
    cases hb.symm.trans (hmine heq).1
  refine ⟨{ Does.refl t s with
      guarded := fun hne => absurd hmutex hne
      owned := fun u hu b hb => ⟨rfl, ?_⟩ },
    { hs with
      current_live := fun b hb => ⟨(hmine hb).2, (howner b).trans (if_pos hb)⟩
      retired_live := fun b hb => ?_
      retired_nodup := ?_
      published := fun b hlive hpub => ?_
      owner_live := fun b u hb => ?_
      borrow := fun u b hb => ?_
      contents := ?_
      replays := ?_ }, { h with }, trivial⟩
  · rw [howner b, if_neg fun heq => hu ?_]
    · exact hb
    · exact Option.some.inj (hb.symm.trans (hmine heq).1)
  · rcases mem_append.mp hb with hb | hb
    · obtain ⟨hlive, hpub⟩ := hs.current_live b (mem_toList.mp hb)
      exact ⟨hlive, hkeep hpub, hnot hpub⟩
    · obtain ⟨hlive, hpub, _⟩ := hs.retired_live b hb
      exact ⟨hlive, hkeep hpub, hnot hpub⟩
  · refine List.Nodup.append (Option.toList_nodup _) hs.retired_nodup fun b hb hb' => ?_
    exact (hs.retired_live b hb').2.2 (mem_toList.mp hb)
  · rw [howner b] at hpub
    by_cases heq : replacement = some b
    · exact .inl heq
    · rw [if_neg heq] at hpub
      refine .inr (mem_append.mpr ((hs.published b hlive hpub).imp_left fun hc => ?_))
      exact mem_toList.mpr hc
  · rw [howner b] at hb
    by_cases heq : replacement = some b
    · rw [if_pos heq] at hb
      cases hb
    · rw [if_neg heq] at hb
      exact hs.owner_live b u hb
  · obtain ⟨hhazard, hmem, hlive, hpub⟩ := hs.borrow u b hb
    exact ⟨hhazard, hmem, hlive, hkeep hpub⟩
  · simp only [publishLocked, hcontents, getD_some]
  · simp only [publishLocked, replay, hs.replays, bind_some, hcontents, getD_some]

-- Collection

section Collect

variable {all kept rest : List A} {candidate : A} {readers : List T} {r : T}

omit [DecidableEq T] [Inhabited P] in
/-- The candidate of a collect is none of the nodes it has looked at or will look at. -/
theorem Collecting.next (h : Collecting s all kept (candidate :: rest)) :
    ∃ looked, all = looked ++ candidate :: rest ∧ candidate ∉ looked ∧ candidate ∉ rest ∧
      kept = looked.filter (· ∈ s.found.map Prod.fst) := by
  obtain ⟨looked, hall, hkept⟩ := h.split
  have hnodup := h.nodup
  rw [hall, nodup_append'] at hnodup
  obtain ⟨_, hright, hdisjoint⟩ := hnodup
  exact ⟨looked, hall, fun hm => hdisjoint hm mem_cons_self, (nodup_cons.mp hright).1, hkept⟩

omit [DecidableEq T] in
theorem Fits.keep (hs : Good s) (h : At t (.scan all kept candidate rest (r :: readers)) s) :
    Fits t s (.collect all (kept ++ [candidate]) rest)
      { s with found := (candidate, r) :: s.found } := by
  obtain ⟨h, hcollecting, _⟩ := h
  obtain ⟨looked, hall, hlooked, hrest, hkept⟩ := hcollecting.next
  refine ⟨{ Does.refl t s with guarded := fun hne => absurd (h.mutex.mpr rfl) hne }, { hs with },
    { h with }, ?_, hcollecting.nodup, ⟨looked ++ [candidate], ?_, ?_⟩, fun a ha hm => ?_⟩
  · rw [append_assoc]
    exact hcollecting.retired
  · rw [hall, append_assoc]
    rfl
  · have hfilter : looked.filter (· ∈ ((candidate, r) :: s.found).map Prod.fst) = kept := by
      rw [hkept]
      refine filter_congr fun a ha => ?_
      have hne : a ≠ candidate := fun heq => hlooked (heq ▸ ha)
      simp [hne]
    rw [filter_append, hfilter]
    simp
  · rcases mem_cons.mp hm with heq | hm
    · have heq : a = candidate := heq
      exact hrest (heq ▸ ha)
    · exact hcollecting.found a (mem_cons_of_mem _ ha) hm

omit [DecidableEq T] in
theorem Fits.delete (hs : Good s) (h : At t (.scan all kept candidate rest []) s) :
    Fits t s (.collect all kept rest)
      { s with retired := kept ++ rest, heap := update s.heap candidate none } := by
  obtain ⟨h, hcollecting, _, hnot⟩ := h
  obtain ⟨looked, hall, _, _, hkept⟩ := hcollecting.next
  have hretired := hcollecting.retired
  have hmem : candidate ∈ s.retired := by
    rw [hretired]
    exact mem_append_right _ mem_cons_self
  obtain ⟨_, hpub, hcurrent⟩ := hs.retired_live candidate hmem
  have hnodup := hs.retired_nodup
  rw [hretired, nodup_middle, nodup_cons] at hnodup
  -- every reader was scanned, and none had acquired the candidate
  have hborrow (u : T) : s.borrow u ≠ some candidate := fun hb =>
    hnot u (hs.borrow u candidate hb).2.1 not_mem_nil hb
  have hgood := hs.setNode (k := s.nextId) (iff_of_true rfl rfl) hcurrent hborrow
    hnodup.2 fun b => by
    rw [hretired, perm_middle.mem_iff, mem_cons]
    exact ⟨fun hb => ⟨.inr hb, fun heq => hnodup.1 (heq ▸ hb)⟩, fun hb => hb.1.resolve_left hb.2⟩
  rw [← hpub, update_eq_self] at hgood
  refine ⟨{ Does.refl t s with
      guarded := fun hne => absurd (h.mutex.mpr rfl) hne
      owned := fun u _ b hb => ⟨update_of_ne (fun heq => ?_) _ _, hb⟩
      borrowed := fun u _ b hb => update_of_ne (fun heq => hborrow u (by rw [hb, heq])) _ _ },
    hgood, ⟨h.mutex, h.registered, h.borrow, nofun⟩, rfl, hcollecting.nodup,
    ⟨looked ++ [candidate], ?_, ?_⟩, fun a ha => hcollecting.found a (mem_cons_of_mem _ ha)⟩
  · rw [heq, hpub] at hb
    cases hb
  · rw [hall, append_assoc]
    rfl
  · have hfound : candidate ∉ s.found.map Prod.fst := hcollecting.found candidate mem_cons_self
    rw [filter_append, ← hkept, filter_cons_of_neg (by simpa using hfound), filter_nil,
      append_nil]

end Collect

-- Steps

omit [DecidableEq T] in
theorem start_sound (hs : Good s) (h : Holds t p s) :
    Leads (Fits t s) ((start p op).map (·, s)) := by
  unfold start
  split
  all_goals first
    | exact .none
    | exact .some (.stay hs h trivial)

theorem updateCopy_sound (hs : Good s) (h : At t (.updateCopy edit previous) s) :
    Leads (Fits t s) (advance t turn s (.updateCopy edit previous)) := by
  obtain ⟨h, hprevious⟩ := h
  have hprevious : previous = s.current := hprevious
  cases turn with
  | allocate a =>
    refine .await fun hnone => ?_
    have hfits {value : P} (hvalue : s.contents.getD default = value) :
        Fits t s (.updateEdit edit a) (allocate t s a value) := by
      refine .setPrivate hs h (.inl hnone) (iff_of_false nofun nofun) rfl rfl rfl ?_
      exact ⟨update_self _ _ _, s.nextId, by rw [← hvalue]; exact update_self _ _ _⟩
    cases previous with
    | none => exact .some (hfits (by rw [hs.contents, ← hprevious]; rfl))
    | some b =>
      obtain ⟨n, hn⟩ := Option.ne_none_iff_exists'.mp (hs.current_live b hprevious.symm).1
      simp only [hn]
      refine .some (hfits ?_)
      rw [hs.contents, ← hprevious, bind_some, hn]
      rfl
  | fail => exact .some (.stay hs h trivial)
  | _ => exact .none

theorem updateEdit_sound (hs : Good s) (h : At t (.updateEdit edit a) s) :
    Leads (Fits t s) (advance t turn s (.updateEdit edit a)) := by
  obtain ⟨h, howner, id, hheap⟩ := h
  have hupdate : update s.owner a (some t) = s.owner := by
    rw [← howner, update_eq_self]
  simp only [advance, hheap, bind_some]
  cases hedit : edit (s.contents.getD default) with
  | none =>
    exact .some (.setPrivate hs h (.inr howner) (iff_of_true rfl rfl) rfl rfl rfl trivial)
  | some value =>
    have hfits : Fits t s (.exchange (.update edit) (some a)) { s with
        heap := update s.heap a (some ⟨id, value⟩)
        owner := update s.owner a (some t)
        nextId := s.nextId } := by
      refine .setPrivate hs h (.inr howner) (iff_of_false nofun nofun) rfl rfl rfl ?_
      refine ⟨value, ⟨update_self _ _ _, id, update_self _ _ _⟩, ?_⟩
      simp only [publish, hedit, Option.map_some]
    rw [hupdate] at hfits
    exact .some hfits

theorem scan_sound {all : List A}
    (hs : Good s) (h : At t (.scan all kept candidate rest readers) s) :
    Leads (Fits t s) (advance t turn s (.scan all kept candidate rest readers)) := by
  cases readers with
  | nil => exact .some (.delete hs h)
  | cons r readers =>
    refine .ite (fun _ => .some (.keep hs h)) fun hhazard => .some ?_
    obtain ⟨h, hcollecting, hsub, hnot⟩ := h
    refine .stay hs h
      ⟨hcollecting, fun u hu => hsub u (mem_cons_of_mem _ hu), fun u hu hu' hb => ?_⟩
    by_cases hur : u = r
    · exact hhazard (hur ▸ (hs.borrow u candidate hb).1)
    · exact hnot u hu (fun hm => hu' ((mem_cons.mp hm).resolve_left hur)) hb

theorem advance_sound (hs : Good s) (hat : At t p s) : Leads (Fits t s) (advance t turn s p) := by
  have h : Holds t p s := hat.1
  cases p with
  | outside | reader => exact .none
  | registerLock | unregisterLock | updateLock | collectLock =>
    exact .map fun _ hlock => .lock hs h hlock trivial
  | registerLink => exact .some (.register hs h)
  | registerUnlock | unregisterUnlock | collected | unlock =>
    exact .some (.unlock hs h rfl rfl rfl rfl trivial)
  | acquireLoad borrowed => exact .some (.stay hs h trivial)
  | acquireStore borrowed observed =>
    exact .some (.storeHazard hs h rfl rfl rfl (update_self _ _ _))
  | acquireCheck observed =>
    refine .ite (fun hcurrent => ?_) fun _ => .some (.stay hs h trivial)
    subst hcurrent
    exact .some (.validate hs hat)
  | unregisterStore borrowed => exact .some (.storeHazard hs h rfl rfl rfl trivial)
  | unregisterUnlink => exact .some (.unregister hs h)
  | updateLoad edit => exact .some (.stay hs h rfl)
  | updateCopy edit previous => exact updateCopy_sound hs hat
  | updateEdit edit a => exact updateEdit_sound hs hat
  | replaceAllocate value =>
    cases turn with
    | allocate a =>
      refine .await fun hnone => .some ?_
      refine .setPrivate hs h (.inl hnone) (iff_of_false nofun nofun) rfl rfl rfl ?_
      exact ⟨update_self _ _ _, s.nextId, update_self _ _ _⟩
    | fail => exact .some (.stay hs h trivial)
    | _ => exact .none
  | replaceLock value a => exact .map fun _ hlock => .lock hs h hlock ⟨value, hat.2, rfl⟩
  | clearLock => exact .map fun _ hlock => .lock hs h hlock rfl
  | exchange job replacement => exact .some (.exchange hs hat)
  | collectStart =>
    refine .some ⟨{ Does.refl t s with guarded := fun hne => absurd (h.mutex.mpr rfl) hne },
      { hs with }, ⟨h.mutex, h.registered, h.borrow, nofun⟩, rfl, hs.retired_nodup, ⟨[], rfl, rfl⟩,
      fun _ _ => not_mem_nil⟩
  | collect all kept rest =>
    cases rest with
    | nil =>
      refine .some (.stay hs h ?_)
      obtain ⟨looked, hall, hkept⟩ := hat.2.split
      rw [append_nil] at hall
      exact hat.2.retired.trans (by rw [append_nil, hkept, hall])
    | cons candidate rest =>
      exact .some (.stay hs h ⟨hat.2, fun _ hr => hr, fun r hr hr' => absurd hr hr'⟩)
  | scan all kept candidate rest readers => exact scan_sound hs hat

theorem act_sound (hs : Good s) (hat : At t p s) : Leads (Fits t s) (act t turn p s) := by
  unfold act
  split
  case h_1 => exact .some (.storeHazard hs hat.1 rfl rfl rfl trivial)
  case h_2 => exact start_sound hs hat.1
  case h_3 => exact advance_sound hs hat

-- Runs

def outline : Outline (act (T := T) (A := A) (P := P)) where
  Good := Good
  At := At
  Does := Does
  sound hs hat hact :=
    have h := act_sound hs hat hact
    ⟨h.does, h.good, h.at_⟩
  stable hu hs h hd := ⟨h.1.stable hu hd, h.2.stable hu hs h.1 hd⟩

theorem outline_initial : (outline (T := T) (A := A) (P := P)).Holds initial := by
  refine ⟨⟨nofun, nofun, nodup_nil, fun _ h => absurd rfl h, nofun, nodup_nil, nofun, rfl,
    rfl, rfl⟩, fun t => ⟨⟨iff_of_false nofun nofun, iff_of_false not_mem_nil nofun, rfl, nofun⟩,
    trivial⟩⟩

/-- A step of a reader that returns from `acquire` returns what is current. -/
def ReturnsCurrent (p p' : Position T A P) (s : Snapshot T A P) : Prop :=
  ∀ observed borrowed, p = .acquireCheck observed → p' = .reader borrowed →
    s.current = borrowed.map Prod.fst ∧
      ∀ a id, borrowed = some (a, id) → ∃ value, s.heap a = some ⟨id, value⟩

theorem act_returnsCurrent (hs : Good s) (hact : act t turn p s = some (p', s')) :
    ReturnsCurrent p p' s := by
  rintro observed borrowed rfl rfl
  have hstep : advance t turn s (.acquireCheck observed) = some (.reader borrowed, s') := by
    cases turn with
    | call => cases hact
    | _ => exact hact
  simp only [advance] at hstep
  split at hstep
  case isTrue hcurrent =>
    cases hstep
    subst hcurrent
    exact hs.acquired rfl
  case isFalse => cases hstep

/-- The nodes that were published and not deleted. -/
def Retained (s : Snapshot T A P) (a : A) : Prop := s.heap a ≠ none ∧ s.owner a = none

/-- In every schedule of readers and writers a node that a reader has acquired stays in place,
with its number, until the reader acquires again or releases; an acquire returns what
is current when it returns; the current version is what all publications give, one
after the other; and when a collect is done the retained nodes are the current one and
those retired nodes that a hazard named when the collect read it. -/
theorem run_snapshot {schedule : List (T × Turn A P)}
    {cfg : Config T (Position T A P) (Snapshot T A P)}
    (hrun : run act initial schedule = some cfg) :
    (∀ t a id, (cfg.position t).borrowed = some (a, id) →
      ∃ value, cfg.shared.heap a = some ⟨id, value⟩) ∧
    (∀ turn cfg', step act cfg turn = some cfg' →
      ReturnsCurrent (cfg.position turn.1) (cfg'.position turn.1) cfg.shared) ∧
    replay cfg.shared.history = some ((cfg.shared.current.bind cfg.shared.heap).map Node.value) ∧
    ∀ t all, cfg.position t = .collected all → ∀ a, Retained cfg.shared a ↔
      cfg.shared.current = some a ∨ a ∈ all ∧ ∃ r, (a, r) ∈ cfg.shared.found := by
  obtain ⟨hs, hat⟩ := outline.run outline_initial hrun
  refine ⟨fun t => (hat t).1.node, fun turn cfg' hstep => ?_, hs.contents ▸ hs.replays,
    fun t all ht a => ?_⟩
  · obtain ⟨⟨p', s'⟩, hact, rfl⟩ := map_eq_some_iff.mp hstep
    simp only [update_self]
    exact act_returnsCurrent hs hact
  · have hretired : cfg.shared.retired = all.filter (· ∈ cfg.shared.found.map Prod.fst) := by
      have hfacts := (hat t).2
      rw [ht] at hfacts
      exact hfacts
    have hmem : a ∈ cfg.shared.retired ↔ a ∈ all ∧ ∃ r, (a, r) ∈ cfg.shared.found := by
      rw [hretired, mem_filter, decide_eq_true_eq, mem_map]
      simp
    rw [← hmem]
    constructor
    · exact fun h => hs.published a h.1 h.2
    · rintro (hcurrent | hm)
      · exact hs.current_live a hcurrent
      · obtain ⟨hlive, hpub, _⟩ := hs.retired_live a hm
        exact ⟨hlive, hpub⟩

/-- A reader acquires a version, which is then replaced. While the writer collects, the reader
releases it, after the writer has read its hazard. -/
def releaseDuringCollect : List (Bool × Turn Nat Nat) :=
  (false, .call (.replace 5)) :: (false, .allocate 0) :: List.replicate 5 (false, .proceed) ++
  (true, .call .register) :: List.replicate 3 (true, .proceed) ++
  (true, .call .acquire) :: List.replicate 3 (true, .proceed) ++
  (false, .call (.replace 6)) :: (false, .allocate 1) :: List.replicate 7 (false, .proceed) ++
  (false, .call .collect) :: List.replicate 4 (false, .proceed) ++
  (true, .call .release) :: List.replicate 2 (false, .proceed)

/-- What is retained, current and named by the hazards once the collect has returned. -/
def leftBehind (cfg : Config Bool (Position Bool Nat Nat) (Snapshot Bool Nat Nat)) :
    Bool × List Nat × Option Nat × Option Nat × Option Nat :=
  (!(cfg.position false).locked && !(cfg.position false).registered, cfg.shared.retired,
    cfg.shared.current, cfg.shared.hazard false, cfg.shared.hazard true)

theorem releaseDuringCollect_leftBehind : (run act initial releaseDuringCollect).map leftBehind =
      some (true, [0], some 1, none, none) := by decide

/-- A retired node that no hazard names can be retained after a collect. -/
theorem retained_unnamed : ∃ cfg, run act initial releaseDuringCollect = some cfg ∧
      Retained cfg.shared 0 ∧ cfg.shared.current ≠ some 0 ∧ ∀ r, cfg.shared.hazard r ≠ some 0 := by
  obtain ⟨cfg, hrun, hleft⟩ := map_eq_some_iff.mp releaseDuringCollect_leftBehind
  simp only [leftBehind, Prod.mk.injEq] at hleft
  obtain ⟨_, hretired, hcurrent, hfalse, htrue⟩ := hleft
  have hs : Good cfg.shared := (outline.run outline_initial hrun).1
  obtain ⟨hlive, hpub, hne⟩ := hs.retired_live 0 (by rw [hretired]; exact mem_singleton_self 0)
  refine ⟨cfg, hrun, ⟨hlive, hpub⟩, hne, fun r => ?_⟩
  cases r with
  | false => rw [hfalse]; exact nofun
  | true => rw [htrue]; exact nofun

/-- The acquire returns what is current, and the first collect is done while the reader still
has the version that was replaced. -/
theorem run_snapshot_releaseDuringCollect :
    (∃ cfg cfg', run act initial (releaseDuringCollect.take 14) = some cfg ∧
      step act cfg (true, .proceed) = some cfg' ∧ cfg.position true = .acquireCheck (some 0) ∧
      cfg'.position true = .reader (some (0, 0)) ∧ cfg.shared.current = some 0 ∧
      ∃ value, cfg.shared.heap 0 = some ⟨0, value⟩) ∧
    ∃ cfg, run act initial (releaseDuringCollect.take 23) = some cfg ∧
      (cfg.position true).borrowed = some (0, 0) ∧ cfg.position false = .collected [0] ∧
      (∃ value, cfg.shared.heap 0 = some ⟨0, value⟩) ∧
      replay cfg.shared.history =
        some ((cfg.shared.current.bind cfg.shared.heap).map Node.value) ∧
      ∀ a, Retained cfg.shared a ↔
        cfg.shared.current = some a ∨ a ∈ [0] ∧ ∃ r, (a, r) ∈ cfg.shared.found := by
  have hchecks : (run act initial (releaseDuringCollect.take 14)).bind (fun cfg =>
      (step act cfg (true, .proceed)).map fun cfg' => (cfg.position true, cfg'.position true)) =
        some (.acquireCheck (some 0), .reader (some (0, 0))) := rfl
  have hcollected : (run act initial (releaseDuringCollect.take 23)).map (fun cfg =>
      ((cfg.position true).borrowed, cfg.position false)) =
        some (some (0, 0), .collected [0]) := rfl
  constructor
  · obtain ⟨cfg, hrun, h⟩ := Option.bind_eq_some_iff.mp hchecks
    obtain ⟨cfg', hstep, hvalues⟩ := map_eq_some_iff.mp h
    obtain ⟨hcheck, hreader⟩ := Prod.mk.inj hvalues
    obtain ⟨hcurrent, hnode⟩ := (run_snapshot hrun).2.1 _ _ hstep _ _ hcheck hreader
    exact ⟨cfg, cfg', hrun, hstep, hcheck, hreader, hcurrent, hnode 0 0 rfl⟩
  · obtain ⟨cfg, hrun, hvalues⟩ := map_eq_some_iff.mp hcollected
    obtain ⟨hborrowed, hposition⟩ := Prod.mk.inj hvalues
    obtain ⟨hnode, _, hreplay, hretained⟩ := run_snapshot hrun
    exact ⟨cfg, hrun, hborrowed, hposition, hnode true 0 0 hborrowed, hreplay,
      hretained false [0] hposition⟩

end Uwvm2.Thread.ImmutableSnapshot
