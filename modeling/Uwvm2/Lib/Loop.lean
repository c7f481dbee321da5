import Mathlib

/-!
# Loops

A loop `while (cond) body` whose body may leave it early is run for a number of rounds.
`Returns` says that enough rounds give a result, and every larger number the same one.
-/

namespace Loop

open Relation

variable {σ τ α ε : Type}

/-- At most `fuel` rounds of the loop; `none` if they do not suffice. -/
def whileDo (cond : σ → Bool) (body : σ → Except ε σ) : Nat → σ → ExceptT ε Option σ
  | 0, _ => ExceptT.mk none
  | fuel + 1, s =>
    if cond s then
      match body s with
      | .error e => throw e
      | .ok s' => whileDo cond body fuel s'
    else pure s

/-- With enough fuel the computation returns `a`. -/
def Returns (f : Nat → ExceptT ε Option α) (a : α) : Prop :=
  ∃ least, ∀ fuel, least ≤ fuel → f fuel = pure a

theorem Returns.pure : Returns (fun _ => (pure a : ExceptT ε Option α)) a :=
  ⟨0, fun _ _ => rfl⟩

theorem Returns.bind {β : Type} {g : α → Nat → ExceptT ε Option β} {b : β} (hf : Returns f a)
    (hg : Returns (g a) b) : Returns (fun fuel => f fuel >>= fun a => g a fuel) b := by
  obtain ⟨m, hm⟩ := hf
  obtain ⟨n, hn⟩ := hg
  refine ⟨max m n, fun fuel hfuel => ?_⟩
  show f fuel >>= _ = _
  rw [hm fuel (by omega), pure_bind, hn fuel (by omega)]

theorem Returns.caught {ε' : Type} (h : Returns f a) :
    Returns (fun fuel => (liftM (f fuel).run : ExceptT ε' Option (Except ε α))) (.ok a) := by
  obtain ⟨least, h⟩ := h
  refine ⟨least, fun fuel hfuel => ?_⟩
  show (liftM (f fuel).run : ExceptT ε' Option (Except ε α)) = _
  rw [h fuel hfuel]
  rfl

theorem Returns.foldlM {f : Nat → σ → α → ExceptT ε Option σ} (Inv : List α → σ → Prop)
    (todo : List α) (step : ∀ done a rest s, todo = done ++ a :: rest → Inv done s →
      ∃ s', Returns (fun fuel => f fuel s a) s' ∧ Inv (done ++ [a]) s')
    {s : σ} (init : Inv [] s) :
    ∃ s', Returns (fun fuel => todo.foldlM (f fuel) s) s' ∧ Inv todo s' := by
  suffices ∀ done rest s, todo = done ++ rest → Inv done s →
      ∃ s', Returns (fun fuel => rest.foldlM (f fuel) s) s' ∧ Inv todo s' from
    this [] todo s rfl init
  intro done rest
  induction rest generalizing done with
  | nil =>
    intro s split inv
    rw [List.append_nil] at split
    exact ⟨s, .pure, split ▸ inv⟩
  | cons a rest ih =>
    intro s split inv
    obtain ⟨s₁, first, inv₁⟩ := step done a rest s split inv
    obtain ⟨s₂, others, inv₂⟩ := ih (done ++ [a]) s₁ (by simp [split]) inv₁
    exact ⟨s₂, .bind first others, inv₂⟩

theorem foldlM_range (Inv : Nat → σ → Prop) (init : Inv 0 s)
    (step : ∀ i s, i < n → Inv i s → ∃ s', body s i = some s' ∧ Inv (i + 1) s') :
    ∃ s', (List.range n).foldlM body s = some s' ∧ Inv n s' := by
  induction n with
  | zero => exact ⟨s, rfl, init⟩
  | succ n ih =>
    obtain ⟨s₁, hbefore, inv⟩ := ih fun i s hi => step i s (Nat.lt_succ_of_lt hi)
    obtain ⟨s₂, hlast, inv⟩ := step n s₁ (Nat.lt_succ_self n) inv
    refine ⟨s₂, ?_, inv⟩
    rw [List.range_succ, List.foldlM_append, hbefore]
    show List.foldlM body s₁ [n] = some s₂
    rw [List.foldlM_cons, hlast]
    rfl

def whileSome (cond : σ → Bool) (body : σ → Option σ) : Nat → σ → Option σ
  | 0, _ => none
  | fuel + 1, s => if cond s then body s >>= whileSome cond body fuel else some s

theorem whileSome_eq_some {cond : σ → Bool} (Inv : σ → Prop) (measure : σ → Nat)
    (step : ∀ s, Inv s → cond s = true → ∃ s', body s = some s' ∧ Inv s' ∧ measure s' < measure s)
    (init : Inv s) (hfuel : measure s < fuel) :
    ∃ s', whileSome cond body fuel s = some s' ∧ Inv s' ∧ cond s' = false := by
  induction fuel generalizing s with
  | zero => exact absurd hfuel (Nat.not_lt_zero _)
  | succ fuel ih =>
    rw [whileSome]
    cases hc : cond s with
    | false => exact ⟨s, rfl, init, hc⟩
    | true =>
      obtain ⟨s₁, hbody, inv, less⟩ := step s init hc
      obtain ⟨s₂, hrest, inv, stop⟩ := ih inv (by omega)
      refine ⟨s₂, ?_, inv, stop⟩
      rw [if_pos rfl, hbody]
      exact hrest

-- Rounds

section Rounds

variable (cond : σ → Bool) (body : σ → Except ε σ)

def Round (s s' : σ) : Prop := cond s = true ∧ body s = .ok s'

def Rounds : σ → σ → Prop := ReflTransGen (Round cond body)

variable {cond body} {s s' : σ}

theorem Rounds.refl : Rounds cond body s s := ReflTransGen.refl

theorem Rounds.trans (h : Rounds cond body s s') (h' : Rounds cond body s' s'') :
    Rounds cond body s s'' := ReflTransGen.trans h h'

theorem Rounds.head (h : cond s = true) (hs : body s = .ok s') (h' : Rounds cond body s' s'') :
    Rounds cond body s s'' :=
  ReflTransGen.head ⟨h, hs⟩ h'

theorem Rounds.returns (h : Rounds cond body s s') (stop : cond s' = false) :
    Returns (fun fuel => whileDo cond body fuel s) s' := by
  induction h using ReflTransGen.head_induction_on with
  | refl =>
    refine ⟨1, fun fuel hfuel => ?_⟩
    obtain ⟨rest, rfl⟩ : ∃ rest, fuel = rest + 1 := ⟨fuel - 1, by omega⟩
    simp [whileDo, stop]
  | head round _ ih =>
    obtain ⟨least, ih⟩ := ih
    refine ⟨least + 1, fun fuel hfuel => ?_⟩
    obtain ⟨rest, rfl⟩ : ∃ rest, fuel = rest + 1 := ⟨fuel - 1, by omega⟩
    simp only [whileDo, round.1, round.2, ↓reduceIte]
    exact ih rest (by omega)

/-- A loop ends if each round keeps an invariant and makes a measure smaller. -/
theorem exists_rounds (Inv : σ → Prop) (measure : σ → Nat)
    (step : ∀ s, Inv s → cond s = true → ∃ s', body s = .ok s' ∧ Inv s' ∧ measure s' < measure s)
    (init : Inv s) : ∃ s', Rounds cond body s s' ∧ cond s' = false ∧ Inv s' := by
  induction hn : measure s using Nat.strong_induction_on generalizing s with
  | _ n ih =>
    cases hc : cond s with
    | false => exact ⟨s, .refl, hc, init⟩
    | true =>
      obtain ⟨s₁, hs, inv, less⟩ := step s init hc
      obtain ⟨s₂, rounds, stop, inv₂⟩ := ih (measure s₁) (hn ▸ less) inv rfl
      exact ⟨s₂, .head hc hs rounds, stop, inv₂⟩

end Rounds

end Loop
