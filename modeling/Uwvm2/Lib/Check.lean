import Mathlib

/-!
# Checks that can fail

Inversion of computations in `Except`: what a successful run of a sequence of
checks says about each of them.
-/

variable {ε α β : Type}

/-- Fail with `e` unless `p` holds. -/
def ensure (p : Prop) [Decidable p] (e : ε) : Except ε Unit :=
  if p then .ok () else .error e

@[simp] theorem ensure_ok {p : Prop} [Decidable p] {e : ε} {u : Unit} : ensure p e = .ok u ↔ p := by
  unfold ensure
  split <;> simp [*]

theorem ensure_pos {p : Prop} [Decidable p] (h : p) : ensure p e = .ok () := if_pos h

theorem ensure_neg {p : Prop} [Decidable p] (h : ¬ p) : ensure p e = .error e := if_neg h

@[simp] theorem bind_ok {x : Except ε α} {f : α → Except ε β} {b : β} :
    x >>= f = .ok b ↔ ∃ a, x = .ok a ∧ f a = .ok b := by
  cases x with
  | error e => simp [bind, Except.bind]
  | ok a => simp [bind, Except.bind]

@[simp] theorem ok_bind {a : α} {f : α → Except ε β} : (Except.ok a >>= f) = f a := rfl

@[simp] theorem error_bind {e : ε} {f : α → Except ε β} : (Except.error e >>= f) = .error e := rfl

theorem ensure_bind {p : Prop} [Decidable p] (h : p) : ensure p e >>= f = f () := by
  rw [ensure_pos h, ok_bind]

@[simp] theorem pure_ok {a b : α} : (pure a : Except ε α) = .ok b ↔ a = b := by
  simp [pure, Except.pure]

theorem error_of_not_ok {x : Except ε α} (h : ∀ a, x ≠ .ok a) : ∃ e, x = .error e := by
  cases x with
  | error e => exact ⟨e, rfl⟩
  | ok a => exact absurd rfl (h a)

-- Lists

@[simp] theorem forM_ok {as : List α} {f : α → Except ε Unit} {u : Unit} :
    as.forM f = .ok u ↔ ∀ a ∈ as, f a = .ok () := by
  induction as with
  | nil => simp [List.forM, pure_ok]
  | cons a as ih =>
    simp only [List.forM, bind_ok, ih, List.forall_mem_cons]
    exact ⟨fun ⟨_, ha, has⟩ => ⟨ha, has⟩, fun ⟨ha, has⟩ => ⟨(), ha, has⟩⟩

theorem mapM_eq_some : as.mapM f = some bs ↔ List.Forall₂ (fun a b => f a = some b) as bs := by
  induction as generalizing bs with
  | nil => simp [List.forall₂_nil_left_iff, eq_comm]
  | cons a as ih =>
    simp only [List.mapM_cons, Option.bind_eq_bind, Option.bind_eq_some_iff, ih,
      List.forall₂_cons_left_iff]
    constructor
    · rintro ⟨b, hb, bs', hbs, h⟩
      cases h
      exact ⟨b, bs', hb, hbs, rfl⟩
    · rintro ⟨b, bs', hb, hbs, rfl⟩
      exact ⟨b, hb, bs', hbs, rfl⟩

theorem mapError_ok {ε' : Type} {x : Except ε α} {f : ε → ε'} :
    x.mapError f = .ok a ↔ x = .ok a := by
  cases x <;> simp [Except.mapError]

-- Errors

/-- Every error of the computation satisfies `P`. -/
def FailsWith (P : ε → Prop) (x : Except ε α) : Prop := ∀ e, x = .error e → P e

namespace FailsWith

variable {P : ε → Prop} {x : Except ε α}

theorem pure : FailsWith P (.ok a : Except ε α) := nofun

theorem check {p : Prop} [Decidable p] (h : P e) : FailsWith P (ensure p e) := by
  intro e' he'
  unfold ensure at he'
  split at he' <;> cases he'
  exact h

theorem bind (hx : FailsWith P x) (hf : ∀ a, FailsWith P (f a)) : FailsWith P (x >>= f) := by
  intro e he
  cases x with
  | error e' =>
    cases he
    exact hx _ rfl
  | ok a => exact hf a e he

theorem ite {p : Prop} [Decidable p] (hx : FailsWith P x) (hy : FailsWith P y) :
    FailsWith P (if p then x else y) := by
  split
  · exact hx
  · exact hy

theorem forM {as : List β} (h : ∀ a ∈ as, FailsWith P (f a)) : FailsWith P (as.forM f) := by
  induction as with
  | nil => exact .pure
  | cons a as ih =>
    exact .bind (h a List.mem_cons_self) fun _ => ih fun b hb => h b (List.mem_cons_of_mem _ hb)

theorem mapError {ε' : Type} {Q : ε' → Prop} {f : ε → ε'} (h : FailsWith (fun e => Q (f e)) x) :
    FailsWith Q (x.mapError f) := by
  cases x with
  | error e =>
    rintro _ ⟨⟩
    exact h e rfl
  | ok a => nofun

end FailsWith

-- Computations that follow an abstract one

variable {σ τ : Type}

/-- `r` succeeds exactly when `e` has a value, with the state that stands for it. -/
def Tracks (view : α → σ) (r : Except ε σ) (e : Option α) : Prop :=
  ∀ s, r = .ok s ↔ ∃ a, e = some a ∧ s = view a

theorem Tracks.pure (h : s = view a) : Tracks view (pure s : Except ε σ) (some a) := by
  intro s'
  rw [pure_ok, h]
  exact ⟨fun hs => ⟨a, rfl, hs.symm⟩, fun ⟨_, ha, hs⟩ => by cases ha; exact hs.symm⟩

theorem Tracks.error : Tracks view (.error e) none := by
  intro s
  simp

theorem Tracks.bind (hr : Tracks view r e)
    (hk : ∀ a, e = some a → Tracks view' (k (view a)) (g a)) :
    Tracks view' (r >>= k) (e.bind g) := by
  intro t
  simp only [bind_ok, Option.bind_eq_some_iff]
  constructor
  · rintro ⟨s, hs, ht⟩
    obtain ⟨a, ha, rfl⟩ := (hr s).mp hs
    obtain ⟨b, hb, rfl⟩ := (hk a ha t).mp ht
    exact ⟨b, ⟨a, ha, hb⟩, rfl⟩
  · rintro ⟨b, ⟨a, ha, hb⟩, rfl⟩
    exact ⟨_, (hr _).mpr ⟨a, ha, rfl⟩, (hk a ha _).mpr ⟨b, hb, rfl⟩⟩

theorem Tracks.bind_pure {k : σ → τ} (hr : Tracks view r e) (hk : ∀ a, k (view a) = view' a) :
    Tracks view' (r >>= fun s => Pure.pure (k s)) e := by
  intro t
  simp only [bind_ok, pure_ok, hr _]
  constructor
  · rintro ⟨_, ⟨a, ha, rfl⟩, rfl⟩
    exact ⟨a, ha, hk a⟩
  · rintro ⟨a, ha, rfl⟩
    exact ⟨_, ⟨a, ha, rfl⟩, hk a⟩

theorem Tracks.some (hr : Tracks view r e) :
    Tracks (fun a => some (view a)) (Option.some <$> r) e :=
  map_eq_pure_bind Option.some r ▸ hr.bind_pure fun _ => rfl

theorem Tracks.reindex {f : α → β} (hr : Tracks (fun a => view (f a)) r e)
    (he : ∀ b, e' = .some b ↔ ∃ a, e = .some a ∧ b = f a) : Tracks view r e' := by
  intro s
  simp only [hr s, he]
  constructor
  · rintro ⟨a, ha, rfl⟩
    exact ⟨_, ⟨a, ha, rfl⟩, rfl⟩
  · rintro ⟨_, ⟨a, ha, rfl⟩, rfl⟩
    exact ⟨a, ha, rfl⟩

theorem Tracks.ensure {p : Prop} [Decidable p] (hno : ¬ p → e = none)
    (hk : p → Tracks view (k ()) e) : Tracks view (ensure p err >>= k) e := by
  by_cases hp : p
  · rw [ensure_pos hp]
    exact hk hp
  · rw [ensure_neg hp, hno hp]
    exact .error
