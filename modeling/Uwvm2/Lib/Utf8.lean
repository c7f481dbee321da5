import Mathlib

/-!
# UTF-8

Byte strings that encode a sequence of Unicode scalar values, and the encoding of
one scalar value by the ranges of its bytes.
-/

namespace Utf8

/-- The encodings of sequences of scalar values. -/
def Valid (bs : List UInt8) : Prop := ∃ cs : List Char, bs = cs.flatMap String.utf8EncodeChar

/-- The bytes of a code point, by the length of the sequence. -/
inductive Encodes (v : Nat) : List UInt8 → Prop
  | one : v < 0x80 → b.toNat = v → Encodes v [b]
  | two : 0x80 ≤ v → v < 0x800 → b₀.toNat = 0xC0 + v / 64 → b₁.toNat = 0x80 + v % 64 →
      Encodes v [b₀, b₁]
  | three : 0x800 ≤ v → v < 0x10000 → b₀.toNat = 0xE0 + v / 4096 →
      b₁.toNat = 0x80 + v / 64 % 64 → b₂.toNat = 0x80 + v % 64 → Encodes v [b₀, b₁, b₂]
  | four : 0x10000 ≤ v → v < 0x110000 → b₀.toNat = 0xF0 + v / 262144 →
      b₁.toNat = 0x80 + v / 4096 % 64 → b₂.toNat = 0x80 + v / 64 % 64 →
      b₃.toNat = 0x80 + v % 64 → Encodes v [b₀, b₁, b₂, b₃]

theorem toNat_ofNat (h : n < 256) : (UInt8.ofNat n).toNat = n := by
  rw [UInt8.toNat_ofNat']
  exact Nat.mod_eq_of_lt h

theorem scalar_lt (c : Char) : c.val.toNat < 0x110000 := by
  obtain h | ⟨_, h⟩ := c.valid
  · exact Nat.lt_trans h (by decide)
  · exact h

theorem encodes_char (c : Char) : Encodes c.val.toNat (String.utf8EncodeChar c) := by
  have hlt := scalar_lt c
  unfold String.utf8EncodeChar
  generalize c.val.toNat = v at hlt ⊢
  dsimp only
  split
  · exact .one (by omega) (toNat_ofNat (by omega))
  split
  · exact .two (by omega) (by omega) (by rw [toNat_ofNat] <;> omega) (by rw [toNat_ofNat] <;> omega)
  split
  · exact .three (by omega) (by omega) (by rw [toNat_ofNat] <;> omega)
      (by rw [toNat_ofNat] <;> omega) (by rw [toNat_ofNat] <;> omega)
  · exact .four (by omega) (by omega) (by rw [toNat_ofNat] <;> omega)
      (by rw [toNat_ofNat] <;> omega) (by rw [toNat_ofNat] <;> omega)
      (by rw [toNat_ofNat] <;> omega)

theorem Encodes.unique (h : Encodes v bs) (h' : Encodes v bs') : bs = bs' := by
  have byte {b b' : UInt8} {n : Nat} (hb : b.toNat = n) (hb' : b'.toNat = n) : b = b' :=
    UInt8.toNat_inj.mp (hb.trans hb'.symm)
  cases h with
  | one hv h₀ =>
    cases h' with
    | one _ h₀' => rw [byte h₀ h₀']
    | _ => omega
  | two hv _ h₀ h₁ =>
    cases h' with
    | two _ _ h₀' h₁' => rw [byte h₀ h₀', byte h₁ h₁']
    | _ => omega
  | three hv _ h₀ h₁ h₂ =>
    cases h' with
    | three _ _ h₀' h₁' h₂' => rw [byte h₀ h₀', byte h₁ h₁', byte h₂ h₂']
    | _ => omega
  | four hv _ h₀ h₁ h₂ h₃ =>
    cases h' with
    | four _ _ h₀' h₁' h₂' h₃' => rw [byte h₀ h₀', byte h₁ h₁', byte h₂ h₂', byte h₃ h₃']
    | _ => omega

theorem Encodes.char (h : Encodes v bs) (hv : v.isValidChar) :
    ∃ c : Char, bs = String.utf8EncodeChar c := by
  exact ⟨.ofNatAux v hv, h.unique (encodes_char (.ofNatAux v hv))⟩

theorem Valid.nil : Valid [] := ⟨[], rfl⟩

theorem Encodes.cons (h : Encodes v bs) (hv : v.isValidChar) (hrest : Valid rest) :
    Valid (bs ++ rest) := by
  obtain ⟨c, rfl⟩ := h.char hv
  obtain ⟨cs, rfl⟩ := hrest
  exact ⟨c :: cs, List.flatMap_cons.symm⟩

/-- A valid string is built from encoded scalar values. -/
theorem Valid.induct {P : List UInt8 → Prop} (h : Valid bs) (nil : P [])
    (cons : ∀ v bs rest, Encodes v bs → v.isValidChar → P rest → P (bs ++ rest)) : P bs := by
  obtain ⟨cs, rfl⟩ := h
  induction cs with
  | nil => exact nil
  | cons c cs ih =>
    rw [List.flatMap_cons]
    exact cons _ _ _ (encodes_char c) c.valid ih

end Utf8
