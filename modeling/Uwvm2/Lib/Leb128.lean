import Mathlib

/-!
# LEB128 integers

The variable-length integer encodings of the WebAssembly binary format as
relations, what it means for a reader to be correct for such a relation, and
reference readers.
-/

namespace Leb128

variable {α ε : Type}

/-- The unsigned encodings of width `n`: seven bits per byte, least significant
first, the high bit set on all bytes but the last. -/
inductive Unsigned : Nat → List UInt8 → Nat → Prop
  | last : b.toNat < 128 → b.toNat < 2 ^ n → Unsigned n [b] b.toNat
  | more : 128 ≤ b.toNat → 7 < n → Unsigned (n - 7) bs m →
      Unsigned n (b :: bs) (128 * m + (b.toNat - 128))

/-- The signed encodings of width `n`; bit six of the last byte is the sign. -/
inductive Signed : Nat → List UInt8 → Int → Prop
  | nonneg : b.toNat < 64 → b.toNat < 2 ^ (n - 1) → Signed n [b] b.toNat
  | neg : 64 ≤ b.toNat → b.toNat < 128 → 128 - 2 ^ (n - 1) ≤ (b.toNat : Int) →
      Signed n [b] (b.toNat - 128)
  | more : 128 ≤ b.toNat → 7 < n → Signed (n - 7) bs m →
      Signed n (b :: bs) (128 * m + (b.toNat - 128))

/-- `read` takes exactly one encoding from the front of its input. -/
structure Reads (G : List UInt8 → α → Prop) (read : List UInt8 → Except ε (α × List UInt8)) :
    Prop where
  sound : ∀ {bs x rest}, read bs = .ok (x, rest) → ∃ a, bs = a ++ rest ∧ G a x
  complete : ∀ {a x rest}, G a x → read (a ++ rest) = .ok (x, rest)

theorem Unsigned.ne_nil : ¬ Unsigned n [] m := nofun

theorem Signed.ne_nil : ¬ Signed n [] m := nofun

theorem two_pow_eq (h : 7 ≤ n) : 2 ^ n = 128 * 2 ^ (n - 7) := by
  rw [show (128 : Nat) = 2 ^ 7 from rfl, ← Nat.pow_add, Nat.add_sub_cancel' h]

theorem Unsigned.lt (h : Unsigned n bs m) : m < 2 ^ n := by
  induction h with
  | last _ h => exact h
  | @more n bs m b hb hn _ ih =>
    have hbyte : b.toNat < 256 := b.toNat_lt
    have hpow := two_pow_eq (Nat.le_of_lt hn)
    omega

theorem Signed.lt (h : Signed n bs m) : m < (2 ^ (n - 1) : Nat) := by
  induction h with
  | nonneg _ h => exact Int.ofNat_lt.mpr h
  | @neg n _ =>
    have hpos : 0 < 2 ^ (n - 1) := Nat.two_pow_pos _
    omega
  | @more n bs m b hb hn _ ih =>
    have hbyte : b.toNat < 256 := b.toNat_lt
    have hpow := two_pow_eq (Nat.le_sub_one_of_lt hn)
    rw [Nat.sub_right_comm] at hpow
    omega

theorem Signed.mono (h : Signed n bs m) (hle : n ≤ k) : Signed k bs m := by
  induction h generalizing k with
  | nonneg hb hn =>
    exact .nonneg hb (Nat.lt_of_lt_of_le hn (Nat.pow_le_pow_right (by decide) (by omega)))
  | @neg n _ hb hb' hn =>
    have hpow : (2 : Int) ^ (n - 1) ≤ 2 ^ (k - 1) := by
      exact_mod_cast Nat.pow_le_pow_right (by decide : 0 < 2) (by omega : n - 1 ≤ k - 1)
    exact .neg hb hb' (by omega)
  | more hb hn _ ih => exact .more hb (by omega) (ih (by omega))

theorem Signed.length_le (h : Signed n bs m) : 7 * bs.length ≤ n + 6 ∨ bs.length = 1 := by
  induction h with
  | nonneg => exact .inr rfl
  | neg => exact .inr rfl
  | more _ hn _ ih =>
    rw [List.length_cons]
    omega

theorem Reads.mapError {ε' : Type} {G : List UInt8 → α → Prop}
    {read : List UInt8 → Except ε (α × List UInt8)} {g : ε → ε'} (hr : Reads G read) :
    Reads G fun bs => (read bs).mapError g where
  sound {bs x rest} h := by
    cases hbs : read bs with
    | error e => simp [hbs, Except.mapError] at h
    | ok r =>
      simp only [hbs, Except.mapError, Except.ok.injEq] at h
      exact hr.sound (h ▸ hbs)
  complete h := by simp [hr.complete h, Except.mapError]

-- Reference readers

/-- Why a reference reader stops: the input ends inside the integer, or the value
does not fit. -/
inductive Failure
  | endOfInput
  | overflow
  deriving DecidableEq, Repr

def readUnsigned : Nat → List UInt8 → Except Failure (Nat × List UInt8)
  | _, [] => .error .endOfInput
  | n, b :: bs =>
    if b.toNat < 128 then
      if b.toNat < 2 ^ n then .ok (b.toNat, bs) else .error .overflow
    else if 7 < n then
      match readUnsigned (n - 7) bs with
      | .ok (m, rest) => .ok (128 * m + (b.toNat - 128), rest)
      | .error e => .error e
    else .error .overflow

def readSigned : Nat → List UInt8 → Except Failure (Int × List UInt8)
  | _, [] => .error .endOfInput
  | n, b :: bs =>
    if b.toNat < 64 then
      if b.toNat < 2 ^ (n - 1) then .ok (b.toNat, bs) else .error .overflow
    else if b.toNat < 128 then
      if 128 - 2 ^ (n - 1) ≤ (b.toNat : Int) then .ok (b.toNat - 128, bs) else .error .overflow
    else if 7 < n then
      match readSigned (n - 7) bs with
      | .ok (m, rest) => .ok (128 * m + (b.toNat - 128), rest)
      | .error e => .error e
    else .error .overflow

theorem readUnsigned_reads (n : Nat) : Reads (Unsigned n) (readUnsigned n) where
  sound {bs x rest} h := by
    fun_induction readUnsigned n bs generalizing x with
    | case2 n b bs hb hn =>
      cases h
      exact ⟨[b], rfl, .last hb hn⟩
    | case4 n b bs hb hn m rest' hm ih =>
      simp only [Except.ok.injEq, Prod.mk.injEq] at h
      obtain ⟨rfl, rfl⟩ := h
      obtain ⟨a, rfl, ha⟩ := ih hm
      exact ⟨b :: a, rfl, .more (Nat.le_of_not_lt hb) hn ha⟩
    | _ => cases h
  complete := by
    intro a x rest h
    induction h with
    | last hb hn => simp [readUnsigned, hb, hn]
    | more hb hn _ ih => simp [readUnsigned, hn, ih, Nat.not_lt.mpr hb]

theorem readSigned_reads (n : Nat) : Reads (Signed n) (readSigned n) where
  sound {bs x rest} h := by
    fun_induction readSigned n bs generalizing x with
    | case2 n b bs hb hn =>
      cases h
      exact ⟨[b], rfl, .nonneg hb hn⟩
    | case4 n b bs hb hb' hn =>
      cases h
      exact ⟨[b], rfl, .neg (Nat.le_of_not_lt hb) hb' hn⟩
    | case6 n b bs _ hb hn m rest' hm ih =>
      simp only [Except.ok.injEq, Prod.mk.injEq] at h
      obtain ⟨rfl, rfl⟩ := h
      obtain ⟨a, rfl, ha⟩ := ih hm
      exact ⟨b :: a, rfl, .more (Nat.le_of_not_lt hb) hn ha⟩
    | _ => cases h
  complete := by
    intro a x rest h
    induction h with
    | nonneg hb hn => simp [readSigned, hb, hn]
    | neg hb hb' hn => simp [readSigned, hb', hn, Nat.not_lt.mpr hb]
    | @more n bs m b hb hn _ ih =>
      have h64 : ¬ b.toNat < 64 := by omega
      simp [readSigned, hn, ih, Nat.not_lt.mpr hb, h64]

-- A writer

def put (n : Nat) : List UInt8 :=
  if n / 128 = 0 then [UInt8.ofNat (n % 128)]
  else UInt8.ofNat (n % 128 + 128) :: put (n / 128)

theorem put_unsigned (n : Nat) (h : n < 2 ^ w) : Unsigned w (put n) n := by
  fun_induction put n generalizing w with
  | case1 n hlast =>
    have hbyte : (UInt8.ofNat (n % 128)).toNat = n := by
      rw [show (UInt8.ofNat (n % 128)).toNat = n % 128 % 256 from UInt8.toNat_ofNat']
      omega
    have henc := Unsigned.last (b := UInt8.ofNat (n % 128)) (n := w) (by omega) (by omega)
    rwa [hbyte] at henc
  | case2 n hmore ih =>
    have hbyte : (UInt8.ofNat (n % 128 + 128)).toNat = n % 128 + 128 := by
      rw [show (UInt8.ofNat (n % 128 + 128)).toNat = (n % 128 + 128) % 256 from UInt8.toNat_ofNat']
      omega
    have hw : 7 < w := by
      by_contra hle
      have : 2 ^ w ≤ 2 ^ 7 := Nat.pow_le_pow_right (by decide) (by omega)
      omega
    have hpow := two_pow_eq (Nat.le_of_lt hw)
    have henc := Unsigned.more (b := UInt8.ofNat (n % 128 + 128)) (by omega) hw
      (ih (w := w - 7) (by omega))
    rw [hbyte, Nat.add_sub_cancel, Nat.div_add_mod] at henc
    exact henc

theorem readUnsigned_put (h : n < 2 ^ w) (rest : List UInt8) :
    readUnsigned w (put n ++ rest) = .ok (n, rest) :=
  (readUnsigned_reads w).complete (put_unsigned n h)

end Leb128
