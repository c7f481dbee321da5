import Uwvm2.Lib.Utf8

/-!
# The UTF-8 check of names

The byte-by-byte check of RFC 3629 that the parser runs over every name, and that
it accepts exactly the UTF-8 strings. A pointer into the text is the rest of the
text from there.
-/

namespace Uwvm2.Parser

open List

inductive UtfErrorCode
  | success
  | longHeaderBits
  | tooShortSequence
  | tooLongSequence
  | overlongEncoding
  | excessiveCodepoint
  | illegalSurrogate
  | containsEmptyCharacters
  deriving DecidableEq, Repr

def IsContinuation (b : UInt8) : Prop := b &&& 0b11000000 = 0b10000000

instance : DecidablePred IsContinuation := fun b =>
  inferInstanceAs (Decidable (b &&& 0b11000000 = 0b10000000))

def codepoint₂ (b₀ b₁ : UInt8) : Nat := (b₀.toNat &&& 0x1F) <<< 6 ||| (b₁.toNat &&& 0x3F)

def codepoint₃ (b₀ b₁ b₂ : UInt8) : Nat :=
  (b₀.toNat &&& 0x0F) <<< 12 ||| (b₁.toNat &&& 0x3F) <<< 6 ||| (b₂.toNat &&& 0x3F)

def codepoint₄ (b₀ b₁ b₂ b₃ : UInt8) : Nat :=
  (b₀.toNat &&& 0x07) <<< 18 ||| (b₁.toNat &&& 0x3F) <<< 12 ||| (b₂.toNat &&& 0x3F) <<< 6 |||
    (b₃.toNat &&& 0x3F)

/-- Where the check stops, and why. -/
def checkLegalUtf8Rfc3629Unchecked (zeroIllegal : Bool) : List UInt8 → List UInt8 × UtfErrorCode
  | [] => ([], .success)
  | b₀ :: rest =>
    if b₀ < 0b10000000 then
      if zeroIllegal ∧ b₀ = 0 then (b₀ :: rest, .containsEmptyCharacters)
      else checkLegalUtf8Rfc3629Unchecked zeroIllegal rest
    else if b₀ &&& 0b11100000 = 0b11000000 then
      match rest with
      | b₁ :: rest' =>
        if ¬ IsContinuation b₁ then (b₀ :: rest, .tooShortSequence)
        else if codepoint₂ b₀ b₁ < 0x80 then (b₀ :: rest, .overlongEncoding)
        else checkLegalUtf8Rfc3629Unchecked zeroIllegal rest'
      | _ => (b₀ :: rest, .tooShortSequence)
    else if b₀ &&& 0b11110000 = 0b11100000 then
      match rest with
      | b₁ :: b₂ :: rest' =>
        if ¬ IsContinuation b₁ then (b₀ :: rest, .tooShortSequence)
        else if ¬ IsContinuation b₂ then (b₀ :: rest, .tooShortSequence)
        else if codepoint₃ b₀ b₁ b₂ < 0x800 then (b₀ :: rest, .overlongEncoding)
        else if 0xD7FF < codepoint₃ b₀ b₁ b₂ ∧ codepoint₃ b₀ b₁ b₂ < 0xE000 then
          (b₀ :: rest, .illegalSurrogate)
        else checkLegalUtf8Rfc3629Unchecked zeroIllegal rest'
      | _ => (b₀ :: rest, .tooShortSequence)
    else if b₀ &&& 0b11111000 = 0b11110000 then
      match rest with
      | b₁ :: b₂ :: b₃ :: rest' =>
        if ¬ IsContinuation b₁ then (b₀ :: rest, .tooShortSequence)
        else if ¬ IsContinuation b₂ then (b₀ :: rest, .tooShortSequence)
        else if ¬ IsContinuation b₃ then (b₀ :: rest, .tooShortSequence)
        else if codepoint₄ b₀ b₁ b₂ b₃ < 0x10000 then (b₀ :: rest, .overlongEncoding)
        else if 0x10FFFF < codepoint₄ b₀ b₁ b₂ b₃ then (b₀ :: rest, .excessiveCodepoint)
        else checkLegalUtf8Rfc3629Unchecked zeroIllegal rest'
      | _ => (b₀ :: rest, .tooShortSequence)
    else if IsContinuation b₀ then (b₀ :: rest, .tooLongSequence)
    else (b₀ :: rest, .longHeaderBits)

inductive Utf8Specification
  | utf8Rfc3629
  | utf8Rfc3629AndZeroIllegal
  deriving DecidableEq, Repr

def checkLegalUtf8Unchecked : Utf8Specification → List UInt8 → List UInt8 × UtfErrorCode
  | .utf8Rfc3629 => checkLegalUtf8Rfc3629Unchecked false
  | .utf8Rfc3629AndZeroIllegal => checkLegalUtf8Rfc3629Unchecked true

-- Masks as ranges

theorem and_eq_iff (m k : UInt8) (lo hi : Nat)
    (h : ∀ x : BitVec 8, x &&& m.toBitVec = k.toBitVec ↔ lo ≤ x.toNat ∧ x.toNat < hi) (b : UInt8) :
    b &&& m = k ↔ lo ≤ b.toNat ∧ b.toNat < hi := by
  rw [← UInt8.toBitVec_inj, UInt8.toBitVec_and]
  exact h b.toBitVec

theorem isContinuation_iff (b : UInt8) : IsContinuation b ↔ 0x80 ≤ b.toNat ∧ b.toNat < 0xC0 :=
  and_eq_iff _ _ _ _ (by decide) b

theorem lead₂_iff (b : UInt8) : b &&& 0b11100000 = 0b11000000 ↔ 0xC0 ≤ b.toNat ∧ b.toNat < 0xE0 :=
  and_eq_iff _ _ _ _ (by decide) b

theorem lead₃_iff (b : UInt8) : b &&& 0b11110000 = 0b11100000 ↔ 0xE0 ≤ b.toNat ∧ b.toNat < 0xF0 :=
  and_eq_iff _ _ _ _ (by decide) b

theorem lead₄_iff (b : UInt8) : b &&& 0b11111000 = 0b11110000 ↔ 0xF0 ≤ b.toNat ∧ b.toNat < 0xF8 :=
  and_eq_iff _ _ _ _ (by decide) b

theorem codepoint₂_eq (b₀ b₁ : UInt8) : codepoint₂ b₀ b₁ = b₀.toNat % 32 * 64 + b₁.toNat % 64 := by
  have h₀ : b₀.toNat &&& 0x1F = b₀.toNat % 32 := Nat.and_two_pow_sub_one_eq_mod _ 5
  have h₁ : b₁.toNat &&& 0x3F = b₁.toNat % 64 := Nat.and_two_pow_sub_one_eq_mod _ 6
  rw [codepoint₂, h₀, h₁, ← Nat.shiftLeft_add_eq_or_of_lt (by omega), Nat.shiftLeft_eq]

theorem codepoint₃_eq (b₀ b₁ b₂ : UInt8) :
    codepoint₃ b₀ b₁ b₂ = b₀.toNat % 16 * 4096 + b₁.toNat % 64 * 64 + b₂.toNat % 64 := by
  have h₀ : b₀.toNat &&& 0x0F = b₀.toNat % 16 := Nat.and_two_pow_sub_one_eq_mod _ 4
  have h₁ : b₁.toNat &&& 0x3F = b₁.toNat % 64 := Nat.and_two_pow_sub_one_eq_mod _ 6
  have h₂ : b₂.toNat &&& 0x3F = b₂.toNat % 64 := Nat.and_two_pow_sub_one_eq_mod _ 6
  rw [codepoint₃, h₀, h₁, h₂, Nat.or_assoc, ← Nat.shiftLeft_add_eq_or_of_lt (by omega) (i := 6),
    ← Nat.shiftLeft_add_eq_or_of_lt]
  · simp only [Nat.shiftLeft_eq]
    omega
  · simp only [Nat.shiftLeft_eq]
    omega

theorem codepoint₄_eq (b₀ b₁ b₂ b₃ : UInt8) : codepoint₄ b₀ b₁ b₂ b₃ =
      b₀.toNat % 8 * 262144 + b₁.toNat % 64 * 4096 + b₂.toNat % 64 * 64 + b₃.toNat % 64 := by
  have h₀ : b₀.toNat &&& 0x07 = b₀.toNat % 8 := Nat.and_two_pow_sub_one_eq_mod _ 3
  have h₁ : b₁.toNat &&& 0x3F = b₁.toNat % 64 := Nat.and_two_pow_sub_one_eq_mod _ 6
  have h₂ : b₂.toNat &&& 0x3F = b₂.toNat % 64 := Nat.and_two_pow_sub_one_eq_mod _ 6
  have h₃ : b₃.toNat &&& 0x3F = b₃.toNat % 64 := Nat.and_two_pow_sub_one_eq_mod _ 6
  rw [codepoint₄, h₀, h₁, h₂, h₃, Nat.or_assoc, Nat.or_assoc,
    ← Nat.shiftLeft_add_eq_or_of_lt (by omega) (i := 6), ← Nat.shiftLeft_add_eq_or_of_lt (i := 12),
    ← Nat.shiftLeft_add_eq_or_of_lt]
  · simp only [Nat.shiftLeft_eq]
    omega
  · simp only [Nat.shiftLeft_eq]
    omega
  · simp only [Nat.shiftLeft_eq]
    omega

-- Correctness

theorem lt_iff (b : UInt8) : b < 0b10000000 ↔ b.toNat < 0x80 := UInt8.lt_iff_toNat_lt

theorem not_lead₂ {b : UInt8} (h : 0xE0 ≤ b.toNat) : ¬ b &&& 0b11100000 = 0b11000000 := by
  rw [lead₂_iff]
  omega

theorem not_lead₃ {b : UInt8} (h : 0xF0 ≤ b.toNat) : ¬ b &&& 0b11110000 = 0b11100000 := by
  rw [lead₃_iff]
  omega

theorem not_lt {b : UInt8} (h : 0x80 ≤ b.toNat) : ¬ b < 0b10000000 := by
  rw [lt_iff]
  omega

theorem continuation (h : b.toNat = 0x80 + n % 64) : ¬ ¬ IsContinuation b := by
  rw [isContinuation_iff]
  omega

theorem checkLegalUtf8_encodes (h : Utf8.Encodes v bs) (hv : v.isValidChar) :
    checkLegalUtf8Rfc3629Unchecked false (bs ++ rest) =
      checkLegalUtf8Rfc3629Unchecked false rest := by
  simp only [Nat.isValidChar] at hv
  cases h with
  | @one b hlt h₀ =>
    conv_lhs => unfold checkLegalUtf8Rfc3629Unchecked
    dsimp only [cons_append, nil_append]
    rw [if_pos ((lt_iff b).mpr (h₀ ▸ hlt)), if_neg (by simp)]
  | @two b₀ b₁ hlo hhi h₀ h₁ =>
    have hcode : codepoint₂ b₀ b₁ = v := by rw [codepoint₂_eq]; omega
    conv_lhs => unfold checkLegalUtf8Rfc3629Unchecked
    dsimp only [cons_append, nil_append]
    rw [if_neg (not_lt (by omega)), if_pos ((lead₂_iff b₀).mpr (by omega)),
      if_neg (continuation h₁), hcode, if_neg (by omega)]
  | @three b₀ b₁ b₂ hlo hhi h₀ h₁ h₂ =>
    have hcode : codepoint₃ b₀ b₁ b₂ = v := by rw [codepoint₃_eq]; omega
    conv_lhs => unfold checkLegalUtf8Rfc3629Unchecked
    dsimp only [cons_append, nil_append]
    rw [if_neg (not_lt (by omega)), if_neg (not_lead₂ (by omega)),
      if_pos ((lead₃_iff b₀).mpr (by omega)), if_neg (continuation h₁), if_neg (continuation h₂),
      hcode, if_neg (by omega), if_neg (by omega)]
  | @four b₀ b₁ b₂ b₃ hlo hhi h₀ h₁ h₂ h₃ =>
    have hcode : codepoint₄ b₀ b₁ b₂ b₃ = v := by rw [codepoint₄_eq]; omega
    conv_lhs => unfold checkLegalUtf8Rfc3629Unchecked
    dsimp only [cons_append, nil_append]
    rw [if_neg (not_lt (by omega)), if_neg (not_lead₂ (by omega)), if_neg (not_lead₃ (by omega)),
      if_pos ((lead₄_iff b₀).mpr (by omega)), if_neg (continuation h₁), if_neg (continuation h₂),
      if_neg (continuation h₃), hcode, if_neg (by omega), if_neg (by omega)]

theorem valid_of_checkLegalUtf8 (h : (checkLegalUtf8Rfc3629Unchecked false bs).2 = .success) :
    Utf8.Valid bs := by
  fun_induction checkLegalUtf8Rfc3629Unchecked false bs with
  | case1 => exact .nil
  | case3 b₀ rest hlt _ ih =>
    have hb := (lt_iff b₀).mp hlt
    exact (Utf8.Encodes.one hb rfl).cons (.inl (by omega)) (ih h)
  | case6 b₀ _ hlead b₁ rest hc₁ hlo ih =>
    have hb₀ := (lead₂_iff b₀).mp hlead
    have hb₁ := (isContinuation_iff b₁).mp (not_not.mp hc₁)
    rw [codepoint₂_eq] at hlo
    have henc : Utf8.Encodes (b₀.toNat % 32 * 64 + b₁.toNat % 64) [b₀, b₁] :=
      .two (by omega) (by omega) (by omega) (by omega)
    exact henc.cons (.inl (by omega)) (ih h)
  | case12 b₀ _ _ hlead b₁ b₂ rest hc₁ hc₂ hlo hsur ih =>
    have hb₀ := (lead₃_iff b₀).mp hlead
    have hb₁ := (isContinuation_iff b₁).mp (not_not.mp hc₁)
    have hb₂ := (isContinuation_iff b₂).mp (not_not.mp hc₂)
    rw [codepoint₃_eq] at hlo hsur
    have henc : Utf8.Encodes
        (b₀.toNat % 16 * 4096 + b₁.toNat % 64 * 64 + b₂.toNat % 64) [b₀, b₁, b₂] :=
      .three (by omega) (by omega) (by omega) (by omega) (by omega)
    refine henc.cons ?_ (ih h)
    simp only [Nat.isValidChar]
    omega
  | case19 b₀ _ _ _ hlead b₁ b₂ b₃ rest hc₁ hc₂ hc₃ hlo hhi ih =>
    have hb₀ := (lead₄_iff b₀).mp hlead
    have hb₁ := (isContinuation_iff b₁).mp (not_not.mp hc₁)
    have hb₂ := (isContinuation_iff b₂).mp (not_not.mp hc₂)
    have hb₃ := (isContinuation_iff b₃).mp (not_not.mp hc₃)
    rw [codepoint₄_eq] at hlo hhi
    have henc : Utf8.Encodes
        (b₀.toNat % 8 * 262144 + b₁.toNat % 64 * 4096 + b₂.toNat % 64 * 64 + b₃.toNat % 64)
        [b₀, b₁, b₂, b₃] :=
      .four (by omega) (by omega) (by omega) (by omega) (by omega) (by omega)
    exact henc.cons (.inr (by omega)) (ih h)
  | _ => cases h

theorem checkLegalUtf8Unchecked_success :
    (checkLegalUtf8Unchecked .utf8Rfc3629 bs).2 = .success ↔ Utf8.Valid bs := by
  constructor
  · exact valid_of_checkLegalUtf8
  · intro h
    refine h.induct (P := fun bs => (checkLegalUtf8Unchecked .utf8Rfc3629 bs).2 = .success) rfl ?_
    intro v bs rest henc hv ih
    rw [← ih]
    exact congrArg Prod.snd (checkLegalUtf8_encodes henc hv)

end Uwvm2.Parser
