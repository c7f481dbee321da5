import Mathlib

/-!
# Computations with a state that can fail

A failure keeps the state as it is at that moment. A computation may also be undefined, which
is neither a result nor a failure. `Triple` says that a computation is defined and what holds
afterwards; `Simulates` says that two computations are defined and go the same way.
-/

abbrev Effect (σ ε : Type) := ExceptT ε (StateT σ Option)

namespace Effect

variable {σ τ ε α β γ δ : Type} {s : σ} {t : τ}

def exec (m : Effect σ ε α) (s : σ) : Option (Except ε α × σ) := m.run.run s

/-- Undefined without a value. -/
def demand (x : Option α) : Effect σ ε α := ExceptT.mk fun s => x.map fun a => (.ok a, s)

def require (p : Prop) [Decidable p] (e : ε) : Effect σ ε Unit := if p then pure () else throw e

def onlyIf (p : Prop) [Decidable p] (m : Effect σ ε Unit) : Effect σ ε Unit :=
  if p then m else pure ()

def onError (m : Effect σ ε α) (f : σ → σ) : Effect σ ε α := ExceptT.mk fun s =>
  match exec m s with
  | some (.error e, s') => some (.error e, f s')
  | x => x

/-- The loop `for(i = 0; i != n; ++i)` over an accumulator. -/
def times (n : Nat) (body : Nat → γ → Effect σ ε γ) (c : γ) : Effect σ ε γ :=
  (List.range n).foldlM (fun c i => body i c) c

/-- At most `fuel` rounds of `while(cond) body`; undefined if they do not suffice. -/
def whileDo (cond : σ → Bool) (body : Effect σ ε Unit) : Nat → Effect σ ε Unit
  | 0 => demand none
  | fuel + 1 => do
    if cond (← get) then
      body
      whileDo cond body fuel

@[simp] theorem exec_pure (a : α) : exec (pure a : Effect σ ε α) s = some (.ok a, s) := rfl

@[simp] theorem exec_get : exec (get : Effect σ ε σ) s = some (.ok s, s) := rfl

@[simp] theorem exec_set (s' : σ) : exec (set s' : Effect σ ε PUnit) s = some (.ok ⟨⟩, s') := rfl

@[simp] theorem exec_demand (a : α) :
    exec (demand (some a) : Effect σ ε α) s = some (.ok a, s) := rfl

theorem exec_bind_ok (h : exec m s = some (.ok a, s')) : exec (m >>= f) s = exec (f a) s' := by
  show (m.run.run s).bind _ = _
  rw [show m.run.run s = _ from h]
  rfl

theorem exec_bind_error
    (h : exec m s = some (.error e, s')) : exec (m >>= f) s = some (.error e, s') := by
  show (m.run.run s).bind _ = _
  rw [show m.run.run s = _ from h]
  rfl

theorem times_succ (n : Nat) (body : Nat → γ → Effect σ ε γ) (c : γ) :
    times (n + 1) body c = times n body c >>= body n := by
  rw [times, List.range_succ, List.foldlM_append]
  refine bind_congr fun c' => ?_
  rw [List.foldlM_cons]
  exact bind_pure _

section While

variable {cond : σ → Bool} {body : Effect σ ε Unit} {fuel : Nat}

theorem exec_whileDo_stop (h : cond s = false) :
    exec (whileDo cond body (fuel + 1)) s = some (.ok (), s) := by
  rw [whileDo, exec_bind_ok exec_get, h]
  rfl

theorem exec_whileDo_round (h : cond s = true) :
    exec (whileDo cond body (fuel + 1)) s = exec (body >>= fun _ => whileDo cond body fuel) s := by
  rw [whileDo, exec_bind_ok exec_get, h]
  rfl

/-- The loop comes from `s` to `s'` in `n` rounds. -/
def Rounds (cond : σ → Bool) (body : Effect σ ε Unit) (n : Nat) (s s' : σ) : Prop :=
  ∀ fuel, exec (whileDo cond body (n + fuel)) s = exec (whileDo cond body fuel) s'

theorem Rounds.refl : Rounds cond body 0 s s := fun fuel => by rw [Nat.zero_add]

theorem Rounds.one (h : cond s = true) (hbody : exec body s = some (.ok (), s')) :
    Rounds cond body 1 s s' := by
  intro fuel
  rw [Nat.add_comm, exec_whileDo_round h, exec_bind_ok hbody]

theorem Rounds.trans (h : Rounds cond body m s s') (h' : Rounds cond body n s' s'') :
    Rounds cond body (m + n) s s'' := by
  intro fuel
  rw [Nat.add_assoc, h, h']

/-- With enough fuel, the loop goes on where its rounds lead. -/
theorem Rounds.exec (h : Rounds cond body n s s') (hfuel : n < fuel) :
    ∃ rest, exec (whileDo cond body fuel) s = exec (whileDo cond body (rest + 1)) s' := by
  obtain ⟨rest, rfl⟩ : ∃ rest, fuel = n + (rest + 1) := ⟨fuel - n - 1, by omega⟩
  exact ⟨rest, h _⟩

end While

-- Triples

section Triple

variable {Q : α → σ → Prop} {Q' : β → σ → Prop} {E E' : ε → σ → Prop}

/-- The computation is defined at `s`; a result is in `Q` and a failure in `E`. -/
def Triple (m : Effect σ ε α) (s : σ) (Q : α → σ → Prop) (E : ε → σ → Prop) : Prop :=
  ∃ r s', exec m s = some (r, s') ∧
    match r with
    | .ok a => Q a s'
    | .error e => E e s'

theorem Triple.of_ok (h : exec m s = some (.ok a, s')) (hQ : Q a s') :
    Triple m s Q E := ⟨.ok a, s', h, hQ⟩

theorem Triple.pure (h : Q a s) : Triple (pure a) s Q E := .of_ok rfl h

theorem Triple.throw (h : E e s) : Triple (throw e : Effect σ ε α) s Q E := ⟨.error e, s, rfl, h⟩

theorem Triple.bind (h : Triple m s Q E)
    (hf : ∀ a s', Q a s' → Triple (f a) s' Q' E) : Triple (m >>= f) s Q' E := by
  obtain ⟨r, s', hm, hr⟩ := h
  cases r with
  | error e => exact ⟨.error e, s', exec_bind_error hm, hr⟩
  | ok a =>
    obtain ⟨r, s'', hf, hr⟩ := hf a s' hr
    exact ⟨r, s'', (exec_bind_ok hm).trans hf, hr⟩

theorem Triple.get (h : Triple (f s) s Q E) : Triple (get >>= f) s Q E :=
  (Triple.of_ok (Q := fun a s' => a = s ∧ s' = s) rfl ⟨rfl, rfl⟩).bind
    (by rintro _ _ ⟨rfl, rfl⟩; exact h)

theorem Triple.modify (h : Triple (f ⟨⟩) (g s) Q E) : Triple (modify g >>= f) s Q E :=
  (Triple.of_ok (Q := fun _ s' => s' = g s) rfl rfl).bind (by rintro _ _ rfl; exact h)

theorem Triple.demand (hx : x = some b) (h : Triple (f b) s Q E) :
    Triple (demand x >>= f) s Q E := by
  subst hx
  exact (Triple.of_ok (Q := fun a s' => a = b ∧ s' = s) rfl ⟨rfl, rfl⟩).bind
    (by rintro _ _ ⟨rfl, rfl⟩; exact h)

theorem Triple.mono {Q' : α → σ → Prop} (h : Triple m s Q E)
    (hQ : ∀ a s', Q a s' → Q' a s') (hE : ∀ e s', E e s' → E' e s') : Triple m s Q' E' := by
  obtain ⟨r, s', hm, hr⟩ := h
  cases r with
  | error e => exact ⟨.error e, s', hm, hE e s' hr⟩
  | ok a => exact ⟨.ok a, s', hm, hQ a s' hr⟩

theorem Triple.require {p : Prop} [Decidable p] {Q : Unit → σ → Prop} (hp : p → Q () s)
    (hn : ¬ p → E e s) : Triple (require p e) s Q E := by
  unfold Effect.require
  split
  · next h => exact .pure (hp h)
  · next h => exact .throw (hn h)

theorem Triple.onlyIf {p : Prop} [Decidable p] {Q : Unit → σ → Prop}
    (hp : p → Triple m s Q E) (hn : ¬ p → Q () s) : Triple (onlyIf p m) s Q E := by
  unfold Effect.onlyIf
  split
  · next h => exact hp h
  · next h => exact .pure (hn h)

theorem Triple.times (Inv : Nat → γ → σ → Prop) (init : Inv 0 c s)
    (step : ∀ i c s', i < n → Inv i c s' → Triple (body i c) s' (Inv (i + 1)) E) :
    Triple (times n body c) s (Inv n) E := by
  induction n with
  | zero => exact .pure init
  | succ n ih =>
    rw [times_succ]
    refine (ih fun i c s' hi => step i c s' (Nat.lt_succ_of_lt hi)).bind fun c' s' hinv => ?_
    exact step n c' s' (Nat.lt_succ_self n) hinv

/-- A loop ends if each round keeps an invariant and makes a measure smaller. -/
theorem Triple.whileDo {cond : σ → Bool} (Inv : σ → Prop) (measure : σ → Nat)
    (step : ∀ s, Inv s → cond s = true →
      Triple body s (fun _ s' => Inv s' ∧ measure s' < measure s) E)
    (init : Inv s) (hfuel : measure s < fuel) :
    Triple (whileDo cond body fuel) s (fun _ s' => Inv s' ∧ cond s' = false) E := by
  induction fuel generalizing s with
  | zero => exact absurd hfuel (Nat.not_lt_zero _)
  | succ fuel ih =>
    cases hc : cond s with
    | false => exact .of_ok (exec_whileDo_stop hc) ⟨init, hc⟩
    | true =>
      have hround : Triple (body >>= fun _ => Effect.whileDo cond body fuel) s
          (fun _ s' => Inv s' ∧ cond s' = false) E :=
        (step s init hc).bind fun _ s' h => ih h.1 (by omega)
      unfold Triple at hround ⊢
      rwa [exec_whileDo_round hc]

end Triple

-- Simulation

section Simulation

variable {R R' : σ → τ → Prop} {Q : α → β → Prop}

/-- Equal failures, or results in `Q`. -/
def Related (Q : α → β → Prop) : Except ε α → Except ε β → Prop
  | .ok a, .ok b => Q a b
  | .error e, .error e' => e = e'
  | _, _ => False

/-- From states in `R` both computations are defined and lead to states in `R'`, with equal
failures or results in `Q`. -/
def Simulates (R R' : σ → τ → Prop) (Q : α → β → Prop) (m : Effect σ ε α)
    (m' : Effect τ ε β) : Prop :=
  ∀ s t, R s t → ∃ r s' r' t', exec m s = some (r, s') ∧ exec m' t = some (r', t') ∧
    R' s' t' ∧ Related Q r r'

theorem Simulates.pure (hR : ∀ s t, R s t → R' s t) (h : Q a b) :
    Simulates R R' Q (pure a : Effect σ ε α) (pure b) :=
  fun s t hst => ⟨.ok a, s, .ok b, t, rfl, rfl, hR s t hst, h⟩

theorem Simulates.throw (e : ε) (hR : ∀ s t, R s t → R' s t) :
    Simulates R R' Q (throw e : Effect σ ε α) (throw e) :=
  fun s t hst => ⟨.error e, s, .error e, t, rfl, rfl, hR s t hst, rfl⟩

theorem Simulates.bind {Q' : γ → δ → Prop} (h : Simulates R R Q m m')
    (hR : ∀ s t, R s t → R' s t) (hf : ∀ a b, Q a b → Simulates R R' Q' (f a) (f' b)) :
    Simulates R R' Q' (m >>= f) (m' >>= f') := by
  intro s t hst
  obtain ⟨r, s', r', t', hm, hm', hst', hr⟩ := h s t hst
  cases r with
  | error e =>
    cases r' with
    | error e' =>
      exact ⟨.error e, s', .error e', t', exec_bind_error hm, exec_bind_error hm',
        hR s' t' hst', hr⟩
    | ok b => exact hr.elim
  | ok a =>
    cases r' with
    | error e' => exact hr.elim
    | ok b =>
      rw [exec_bind_ok hm, exec_bind_ok hm']
      exact hf a b hr s' t' hst'

theorem Simulates.seq {Q' : γ → δ → Prop} (h : Simulates R R Q m m')
    (hf : ∀ a b, Q a b → Simulates R R Q' (f a) (f' b)) : Simulates R R Q' (m >>= f) (m' >>= f') :=
  h.bind (fun _ _ h => h) hf

theorem Simulates.mono {Q' : α → β → Prop} (h : Simulates R R' Q m m')
    (hQ : ∀ a b, Q a b → Q' a b) : Simulates R R' Q' m m' := by
  intro s t hst
  obtain ⟨r, s', r', t', hm, hm', hst', hr⟩ := h s t hst
  refine ⟨r, s', r', t', hm, hm', hst', ?_⟩
  cases r <;> cases r'
  · exact hr
  · exact hr
  · exact hr
  · exact hQ _ _ hr

theorem Simulates.require {p : Prop} [Decidable p] (e : ε) :
    Simulates R R (fun _ _ => p) (require p e : Effect σ ε Unit) (require p e) := by
  intro s t hst
  unfold Effect.require
  split
  · next h => exact ⟨.ok (), s, .ok (), t, rfl, rfl, hst, h⟩
  · exact ⟨.error e, s, .error e, t, rfl, rfl, hst, rfl⟩

theorem Simulates.check {p : Prop} [Decidable p] (h : p → Simulates R R Q m m') :
    Simulates R R Q (do Effect.require p e; m) (do Effect.require p e; m') :=
  (Simulates.require e).seq fun _ _ => h

theorem Simulates.onlyIf {p : Prop} [Decidable p]
    {Q : Unit → Unit → Prop} (hp : p → Simulates R R Q m m') (hn : ¬ p → Q () ()) :
    Simulates R R Q (onlyIf p m) (onlyIf p m') := by
  unfold Effect.onlyIf
  split
  · next h => exact hp h
  · next h => exact .pure (fun _ _ h => h) (hn h)

theorem Simulates.demand (hx : x = some a) (hy : y = some b)
    (h : Q a b) : Simulates R R Q (demand x : Effect σ ε α) (demand y) := by
  subst hx hy
  exact fun s t hst => ⟨.ok a, s, .ok b, t, rfl, rfl, hst, h⟩

theorem Simulates.demand_bind (hx : x = some a) (hy : y = some b)
    (h : Simulates R R' Q (f a) (f' b)) :
    Simulates R R' Q (Effect.demand x >>= f) (Effect.demand y >>= f') := by
  subst hx hy
  exact fun s t hst => h s t hst

theorem Simulates.onError {m' : Effect τ ε β}
    (h : Simulates R R Q m m') (hf : ∀ s t, R s t → R (f s) (f' t)) :
    Simulates R R Q (onError m f) (onError m' f') := by
  intro s t hst
  obtain ⟨r, s', r', t', hm, hm', hst', hr⟩ := h s t hst
  have hleft : exec (Effect.onError m f) s = match exec m s with
    | some (.error e, s') => some (.error e, f s')
    | x => x := rfl
  have hright : exec (Effect.onError m' f') t = match exec m' t with
    | some (.error e, s') => some (.error e, f' s')
    | x => x := rfl
  rw [hleft, hright, hm, hm']
  cases r with
  | error e =>
    cases r' with
    | error e' => exact ⟨.error e, f s', .error e', f' t', rfl, rfl, hf s' t' hst', hr⟩
    | ok b => exact hr.elim
  | ok a =>
    cases r' with
    | error e' => exact hr.elim
    | ok b => exact ⟨.ok a, s', .ok b, t', rfl, rfl, hst', hr⟩

theorem Simulates.times (Inv : Nat → γ → δ → Prop) (init : Inv 0 c d)
    (step : ∀ i c d, i < n → Inv i c d → Simulates R R (Inv (i + 1)) (body i c) (body' i d)) :
    Simulates R R (Inv n) (times n body c) (times n body' d) := by
  induction n with
  | zero => exact .pure (fun _ _ h => h) init
  | succ n ih =>
    rw [times_succ, times_succ]
    refine (ih fun i c d hi => step i c d (Nat.lt_succ_of_lt hi)).bind (fun _ _ h => h)
      fun c' d' hinv => ?_
    exact step n c' d' (Nat.lt_succ_self n) hinv

end Simulation

end Effect
