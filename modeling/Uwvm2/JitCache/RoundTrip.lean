import Uwvm2.JitCache.Containment

/-!
# Decoders on their own output

What both round trips need: the decoders' steps on input that was written for them, and matches
that repeat earlier bytes.
-/

namespace Uwvm2.JitCache

open Effect ByteWord

variable {x out : List UInt8}

/-- A decoder whose output has never been larger than it is. -/
def Decoder.mid (first out : List UInt8) : Decoder :=
  { first := first, out := out, largest := out.length }

@[simp] theorem Decoder.mid_first (first out : List UInt8) :
    (Decoder.mid first out).first = first := rfl

@[simp] theorem Decoder.mid_out (first out : List UInt8) : (Decoder.mid first out).out = out := rfl

theorem exec_nextByte (b : UInt8) (rest out : List UInt8) :
    exec nextByte (.mid (b :: rest) out) = some (.ok b, .mid rest out) := rfl

theorem exec_nextU16 (hn : n < 2 ^ 16) (rest out : List UInt8) :
    exec nextU16 (.mid (bytes 2 n ++ rest) out) = some (.ok n, .mid rest out) := by
  have hlong : 2 ≤ (bytes 2 n ++ rest).length := by
    rw [List.length_append, length_bytes]
    omega
  have htake : (bytes 2 n ++ rest).take 2 = bytes 2 n :=
    List.take_left' (length_bytes 2 n)
  have hdrop : (bytes 2 n ++ rest).drop 2 = rest := List.drop_left' (length_bytes 2 n)
  have hvalue : value (bytes 2 n) = n := by
    rw [value_bytes]
    exact Nat.mod_eq_of_lt hn
  unfold nextU16
  rw [exec_bind_ok exec_get, require, if_pos (by exact hlong), exec_bind_ok (exec_pure ()),
    exec_bind_ok exec_get]
  show some (Except.ok (value ((bytes 2 n ++ rest).take 2)),
    Decoder.mk ((bytes 2 n ++ rest).drop 2) out out.length) = _
  rw [htake, hdrop, hvalue]
  rfl

theorem exec_appendOut (bytes first out : List UInt8) :
    exec (appendOut bytes) (.mid first out) = some (.ok (), .mid first (out ++ bytes)) := by
  show some (Except.ok (),
    Decoder.mk first (out ++ bytes) (max out.length (out.length + bytes.length))) = _
  rw [Nat.max_eq_right (Nat.le_add_right _ _), ← List.length_append]
  rfl

theorem exec_require {σ ε : Type} {p : Prop} [Decidable p] {e : ε} {s : σ} (h : p) :
    exec (require p e) s = some (.ok (), s) := by
  rw [require, if_pos h]
  rfl

-- Matches

/-- The `length` bytes at `pos` stand at `prev` too. -/
def Repeats (x : List UInt8) (prev pos length : Nat) : Prop :=
  ∀ k < length, x[prev + k]? = x[pos + k]?

theorem take_succ (h : x[pos]? = some b) : x.take pos ++ [b] = x.take (pos + 1) := by
  rw [List.take_add_one, h]
  rfl

/-- A copy from the output gives back what the match stands for, even if it overlaps itself. -/
theorem exec_copyMatch (hprev : prev < pos) (hfits : pos + length ≤ x.length)
    (hrepeats : Repeats x prev pos length) (rest : List UInt8) :
    exec (copyMatch host (pos - prev) length) (.mid rest (x.take pos)) =
      some (.ok (), .mid rest (x.take (pos + length))) := by
  unfold copyMatch
  induction length with
  | zero => rfl
  | succ length ih =>
    have hsome : x[pos + length]? = some x[pos + length] := List.getElem?_eq_getElem (by omega)
    have hread : (x.take (pos + length))[host.sub (x.take (pos + length)).length (pos - prev)]? =
        some x[pos + length] := by
      rw [List.length_take_of_le (by omega), sub_eq (by omega), List.getElem?_take_of_lt (by omega),
        show pos + length - (pos - prev) = prev + length by omega,
          hrepeats length (Nat.lt_succ_self _), hsome]
    rw [times_succ, exec_bind_ok (ih (by omega) fun k hk => hrepeats k (Nat.lt_succ_of_lt hk)),
      exec_bind_ok exec_get]
    show exec (demand (x.take (pos + length))[host.sub (x.take (pos + length)).length
      (pos - prev)]? >>= _) _ = _
    rw [hread, exec_bind_ok (exec_demand _), exec_appendOut, take_succ hsome]
    rfl

/-- The loop that extends a match reads inside the input, and its bytes are repeated. -/
theorem extendMatch_repeats (hprev : prev < pos) (hfits : pos + len + left ≤ x.length)
    (hrepeats : Repeats x prev pos len) :
    ∃ n, extendMatch x prev pos left len = some n ∧ len ≤ n ∧ n ≤ len + left ∧
      Repeats x prev pos n := by
  induction left generalizing len with
  | zero => exact ⟨len, rfl, Nat.le_refl _, Nat.le_refl _, hrepeats⟩
  | succ left ih =>
    have hprevious : x[prev + len]? = some x[prev + len] := List.getElem?_eq_getElem (by omega)
    have hcurrent : x[pos + len]? = some x[pos + len] := List.getElem?_eq_getElem (by omega)
    rw [extendMatch, hprevious, hcurrent]
    show ∃ n, (if x[prev + len] = x[pos + len] then _ else _) = some n ∧ _
    split
    · next heq =>
      have hlonger : Repeats x prev pos (len + 1) := by
        intro k hk
        by_cases hklen : k = len
        · rw [hklen, hprevious, hcurrent, heq]
        · exact hrepeats k (by omega)
      obtain ⟨n, hn, hge, hle, hrep⟩ := ih (by omega) hlonger
      exact ⟨n, hn, by omega, by omega, hrep⟩
    · exact ⟨len, rfl, Nat.le_refl _, Nat.le_add_right _ _, hrepeats⟩

-- The loop

section Loop

variable {round : Decode Unit}

theorem decompress_of_rounds
    (h : Rounds (unfinished expected) round n (.mid compressed []) (.mid [] x))
    (hn : n ≤ compressed.length) (hx : x.length = expected) :
    decompress round compressed expected = some (true, .mid [] x) := by
  obtain ⟨fuel, hexec⟩ := h.exec (Nat.lt_succ_of_le hn)
  have hstop : unfinished expected (.mid [] x) = false := decide_eq_false (not_not.mpr hx)
  rw [exec_whileDo_stop hstop] at hexec
  have hloop : exec (decompressLoop round (compressed.length + 1) expected)
      { first := compressed, out := [], largest := 0 } =
      some (.ok true, .mid [] x) := by
    show exec _ (Decoder.mid compressed []) = _
    rw [decompressLoop, exec_bind_ok hexec]
    rfl
  rw [decompress, hloop]

theorem decompress_of_return (h : Rounds (unfinished expected) round n (.mid compressed []) s)
    (hn : n ≤ compressed.length) (hmore : s.out.length ≠ expected)
    (hlast : exec round s = some (.error true, s')) :
    decompress round compressed expected = some (true, s') := by
  obtain ⟨fuel, hexec⟩ := h.exec (Nat.lt_succ_of_le hn)
  have hround : unfinished expected s = true := decide_eq_true hmore
  rw [exec_whileDo_round hround, exec_bind_error hlast] at hexec
  have hloop : exec (decompressLoop round (compressed.length + 1) expected)
      { first := compressed, out := [], largest := 0 } =
      some (.error true, s') := by
    show exec _ (Decoder.mid compressed []) = _
    rw [decompressLoop, exec_bind_error hexec]
  rw [decompress, hloop]

end Loop

end Uwvm2.JitCache
