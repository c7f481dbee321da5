import Mathlib

/-!
# Words from bytes

The number that a list of bytes stands for, with the least significant byte first, and the
bytes of a number.
-/

namespace ByteWord

def value : List UInt8 → Nat
  | [] => 0
  | b :: bs => b.toNat + 256 * value bs

/-- The word of `size` bytes at an offset. -/
def at_ (bytes : List UInt8) (offset size : Nat) : Nat := value ((bytes.drop offset).take size)

/-- The last `size` bytes of a number. -/
def bytes : Nat → Nat → List UInt8
  | 0, _ => []
  | size + 1, n => UInt8.ofNat n :: bytes size (n / 256)

@[simp] theorem length_bytes (size n : Nat) : (bytes size n).length = size := by
  induction size generalizing n with
  | zero => rfl
  | succ size ih => rw [bytes, List.length_cons, ih]

theorem value_bytes (size n : Nat) : value (bytes size n) = n % 256 ^ size := by
  induction size generalizing n with
  | zero => rw [Nat.pow_zero, Nat.mod_one]; rfl
  | succ size ih =>
    have hlow : (UInt8.ofNat n).toNat = n % 256 := UInt8.toNat_ofNat'
    rw [bytes, value, ih, hlow, Nat.pow_succ', Nat.mod_mul]

theorem bytes_value (l : List UInt8) : bytes l.length (value l) = l := by
  induction l with
  | nil => rfl
  | cons b l ih =>
    have hb : b.toNat < 256 := b.toNat_lt
    rw [List.length_cons, bytes, value, Nat.add_mul_div_left _ _ (by decide), Nat.div_eq_of_lt hb,
      Nat.zero_add, ih]
    congr 1
    apply UInt8.toNat.inj
    rw [UInt8.toNat_ofNat']
    omega

theorem at_append_left (h : size = l.length) : at_ (l ++ rest) 0 size = value l := by
  rw [at_, List.drop_zero, List.take_left' h.symm]

theorem at_append_right (h : l.length ≤ offset) :
    at_ (l ++ rest) offset size = at_ rest (offset - l.length) size := by
  rw [at_, at_, List.drop_append, List.drop_eq_nil_of_le h, List.nil_append]

theorem bytes_mod (size n : Nat) : bytes size (n % 256 ^ size) = bytes size n := by
  have h := bytes_value (bytes size n)
  rwa [length_bytes, value_bytes] at h

theorem bytes_inj (hm : m < 256 ^ size) (hn : n < 256 ^ size) (h : bytes size m = bytes size n) :
    m = n := by
  have hvalue := congrArg value h
  rwa [value_bytes, value_bytes, Nat.mod_eq_of_lt hm, Nat.mod_eq_of_lt hn] at hvalue

end ByteWord
