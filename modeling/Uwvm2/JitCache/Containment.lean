import Uwvm2.JitCache.Compress

/-!
# Hostile compressed input

On any input and for any expected size, the decoders end, keep their output within the expected
size and copy only from the output so far. They succeed only if the output has the expected size
and no input is left.
-/

namespace Uwvm2.JitCache

open Effect

variable {host : Host} {expected : Nat} {s : Decoder}

/-- The output has never been larger than expected, and at most `left` bytes of input are left. -/
structure Contained (expected left : Nat) (s : Decoder) : Prop where
  out_le : s.out.length ≤ expected
  largest_le : s.largest ≤ expected
  first_le : s.first.length ≤ left

structure Ended (expected : Nat) (ok : Bool) (s : Decoder) : Prop where
  largest_le : s.largest ≤ expected
  complete : ok = true → s.out.length = expected ∧ s.first = []

variable {left : Nat}

section

variable (h : Contained expected left s)

include h

theorem Contained.refused : Ended expected false s := ⟨h.largest_le, nofun⟩

theorem Contained.drop (k : Nat) :
    Contained expected (left - k) { s with first := s.first.drop k } where
  out_le := h.out_le
  largest_le := h.largest_le
  first_le := by
    have := h.first_le
    rw [List.length_drop]
    omega

theorem Contained.mono (hle : left ≤ left') :
    Contained expected left' s := ⟨h.out_le, h.largest_le, Nat.le_trans h.first_le hle⟩

theorem Contained.append (hfits : s.out.length + bytes.length ≤ expected) : Contained expected left
      { s with out := s.out ++ bytes, largest := max s.largest (s.out.length + bytes.length) } where
  out_le := by
    rw [List.length_append]
    exact hfits
  largest_le := Nat.max_le.mpr ⟨h.largest_le, hfits⟩
  first_le := h.first_le

end

theorem sub_eq (h : b ≤ a) : host.sub a b = a - b := if_pos h

-- Steps of the decoders

section

variable (h : Contained expected left s)

include h

theorem ensure_contained {p : Prop} [Decidable p] :
    Triple (require p false) s (fun _ s' => p ∧ s' = s) (Ended expected) :=
  .require (fun hp => ⟨hp, rfl⟩) fun _ => h.refused

theorem nextByte_contained :
    Triple nextByte s (fun _ s' => s'.out = s.out ∧ 0 < left ∧ Contained expected (left - 1) s')
      (Ended expected) := by
  refine .get ?_
  cases hfirst : s.first with
  | nil => exact .throw h.refused
  | cons b rest =>
    refine .modify (.pure ⟨rfl, ?_, ?_⟩)
    · have := h.first_le
      rw [hfirst, List.length_cons] at this
      omega
    · have := h.drop 1
      rwa [hfirst] at this

theorem nextU16_contained :
    Triple nextU16 s (fun _ s' => s'.out = s.out ∧ Contained expected left s')
      (Ended expected) := by
  refine .get ((ensure_contained h).bind ?_)
  rintro _ _ ⟨_, rfl⟩
  exact .get (.modify (.pure ⟨rfl, (h.drop 2).mono (Nat.sub_le _ _)⟩))

theorem appendOut_contained (hfits : s.out.length + bytes.length ≤ expected) :
    Triple (appendOut bytes) s (fun _ s' => s'.out = s.out ++ bytes ∧ Contained expected left s')
      (Ended expected) :=
  .of_ok rfl ⟨rfl, h.append hfits⟩

theorem copyMatch_contained (hoffset : offset ≠ 0 ∧ offset ≤ s.out.length)
    (hlength : s.out.length + length ≤ expected) :
    Triple (copyMatch host offset length) s (fun _ => Contained expected left)
      (Ended expected) := by
  refine (Triple.times (fun i _ s' => s'.out.length = s.out.length + i ∧
    Contained expected left s') ⟨rfl, h⟩
    fun i _ s' hi inv => ?_).mono (fun _ _ inv => inv.2) fun _ _ h => h
  obtain ⟨hout, contained⟩ := inv
  have hread : host.sub s'.out.length offset < s'.out.length := by
    rw [sub_eq (by omega)]
    omega
  refine .get (.demand (List.getElem?_eq_getElem hread) ?_)
  refine (appendOut_contained contained (by rw [List.length_singleton]; omega)).mono
    ?_ fun _ _ h => h
  rintro _ s'' ⟨hout', contained'⟩
  refine ⟨?_, contained'⟩
  rw [hout', List.length_append, List.length_singleton, hout]
  rfl

-- Rounds

theorem lzssMatch_contained (offset length : Nat) :
    Triple (lzssMatch host expected offset length) s (fun _ => Contained expected left)
      (Ended expected) := by
  refine .get ((ensure_contained h).bind ?_)
  rintro _ _ ⟨hoffset, rfl⟩
  refine .get ((ensure_contained h).bind ?_)
  rintro _ _ ⟨hlength, rfl⟩
  have := h.out_le
  rw [sub_eq h.out_le] at hlength
  exact copyMatch_contained h hoffset (by omega)

theorem decompressLzssItem_contained (flags : BitVec 8) (bit : Nat) :
    Triple (decompressLzssItem host expected flags bit) s (fun _ => Contained expected left)
      (Ended expected) := by
  refine .get (.onlyIf (fun hmore => ?_) fun _ => h)
  split
  · refine (nextU16_contained h).bind ?_
    rintro token s' ⟨_, h'⟩
    exact lzssMatch_contained h' _ _
  · refine (nextByte_contained h).bind ?_
    rintro b s' ⟨hout, _, h'⟩
    refine (appendOut_contained h' ?_).mono (fun _ _ h => h.2.mono (Nat.sub_le _ _)) fun _ _ h => h
    have := h.out_le
    rw [hout, List.length_singleton]
    omega

theorem decompressLzssGroup_contained :
    Triple (decompressLzssGroup host expected) s
      (fun _ s' => 0 < left ∧ Contained expected (left - 1) s') (Ended expected) := by
  refine (nextByte_contained h).bind ?_
  rintro flags s' ⟨_, hpos, h'⟩
  refine (Triple.times (fun _ _ => Contained expected (left - 1)) h' fun bit _ s'' _ inv => ?_).mono
    (fun _ _ h => ⟨hpos, h⟩) fun _ _ h => h
  exact decompressLzssItem_contained inv flags.toBitVec bit

end

theorem length_readNativeLzLength (h : readNativeLzLength host first len = some (len', rest)) :
    rest.length ≤ first.length := by
  induction first generalizing len with
  | nil => cases h
  | cons v first ih =>
    rw [readNativeLzLength] at h
    split at h
    · cases h
    · split at h
      · cases h
        exact Nat.le_succ _
      · exact Nat.le_succ_of_le (ih h)

section

variable (h : Contained expected left s)

include h

theorem nextNativeLzLength_contained (short len : Nat) :
    Triple (nextNativeLzLength host short len) s
      (fun _ s' => s'.out = s.out ∧ Contained expected left s') (Ended expected) := by
  unfold nextNativeLzLength
  split
  · refine .get ?_
    cases hread : readNativeLzLength host s.first len with
    | none => exact .throw h.refused
    | some result =>
      obtain ⟨len', rest⟩ := result
      exact .modify (.pure
        ⟨rfl, h.out_le, h.largest_le, Nat.le_trans (length_readNativeLzLength hread) h.first_le⟩)
  · exact .pure ⟨rfl, h⟩

theorem nativeLzLiterals_contained (token : Nat) :
    Triple (nativeLzLiterals host expected token) s (fun _ => Contained expected left)
      (Ended expected) := by
  refine (nextNativeLzLength_contained h _ _).bind ?_
  rintro literalSize s₁ ⟨_, h₁⟩
  refine .get ((ensure_contained h₁).bind ?_)
  rintro _ _ ⟨hstored, rfl⟩
  refine .get ((ensure_contained h₁).bind ?_)
  rintro _ _ ⟨hfits, rfl⟩
  rw [sub_eq h₁.out_le] at hfits
  refine .get ((appendOut_contained h₁ ?_).bind ?_)
  · have := h₁.out_le
    rw [List.length_take_of_le hstored]
    omega
  · rintro _ s₂ ⟨_, h₂⟩
    exact .of_ok rfl ((h₂.drop literalSize).mono (Nat.sub_le _ _))

theorem nativeLzMatch_contained (token : Nat) :
    Triple (nativeLzMatch host expected token) s (fun _ => Contained expected left)
      (Ended expected) := by
  refine (nextU16_contained h).bind ?_
  rintro offset s₁ ⟨_, h₁⟩
  refine .get ((ensure_contained h₁).bind ?_)
  rintro _ _ ⟨hoffset, rfl⟩
  refine (nextNativeLzLength_contained h₁ _ _).bind ?_
  rintro matchSize s₂ ⟨hout, h₂⟩
  refine .get ((ensure_contained h₂).bind ?_)
  rintro _ _ ⟨hmatch, rfl⟩
  have := h₂.out_le
  rw [sub_eq h₂.out_le] at hmatch
  exact copyMatch_contained h₂ (hout ▸ hoffset) (by omega)

theorem decompressNativeLzSequence_contained :
    Triple (decompressNativeLzSequence host expected) s
      (fun _ s' => 0 < left ∧ Contained expected (left - 1) s') (Ended expected) := by
  refine (nextByte_contained h).bind ?_
  rintro token s₁ ⟨_, hpos, h₁⟩
  refine (nativeLzLiterals_contained h₁ token.toNat).bind fun _ s₂ h₂ => ?_
  refine .get ((Triple.onlyIf (Q := fun _ => Contained expected (left - 1)) (fun hdone => ?_)
    fun _ => h₂).bind ?_)
  · exact .get (.throw ⟨h₂.largest_le, fun hempty => ⟨hdone, of_decide_eq_true hempty⟩⟩)
  · intro _ s₃ h₃
    exact (nativeLzMatch_contained h₃ token.toNat).mono (fun _ _ h => ⟨hpos, h⟩) fun _ _ h => h

end

section

variable {round : Decode Unit}
  (hround : ∀ left s, Contained expected left s →
    Triple round s (fun _ s' => 0 < left ∧ Contained expected (left - 1) s') (Ended expected))

include hround

theorem decompressLoop_ended (h : Contained expected s.first.length s)
    (hfuel : s.first.length < fuel) :
    Triple (decompressLoop round fuel expected) s (Ended expected) (Ended expected) := by
  refine (Triple.whileDo (fun s => Contained expected s.first.length s) (fun s => s.first.length)
    (fun s h _ => ?_) h hfuel).bind ?_
  · refine (hround _ s h).mono ?_ fun _ _ h => h
    rintro _ s' ⟨hpos, h'⟩
    have := h'.first_le
    exact ⟨⟨h'.out_le, h'.largest_le, Nat.le_refl _⟩, by omega⟩
  · rintro _ s ⟨h, hstop⟩
    refine .get (.pure ⟨h.largest_le, fun hempty => ⟨?_, of_decide_eq_true hempty⟩⟩)
    exact not_not.mp (of_decide_eq_false hstop)

/-- Both decoders end if a round takes a byte and keeps the output contained. -/
theorem decompress_ended (input : List UInt8) :
    ∃ ok s, decompress round input expected = some (ok, s) ∧ Ended expected ok s := by
  have hinit : Contained expected input.length { first := input, out := [], largest := 0 } :=
    ⟨Nat.zero_le _, Nat.zero_le _, Nat.le_refl _⟩
  obtain ⟨r, s, hexec, hr⟩ :=
    decompressLoop_ended (s := { first := input, out := [], largest := 0 }) hround hinit
    (Nat.lt_succ_self input.length)
  unfold decompress
  rw [hexec]
  cases r with
  | ok ok => exact ⟨ok, s, rfl, hr⟩
  | error ok => exact ⟨ok, s, rfl, hr⟩

end

/-- On every input and for every expected size, both decoders return, without a read outside the
bytes already produced; the output never gets larger than expected, and they succeed only with
an output of the expected size and no input left. -/
theorem hostile_input_contained (host : Host) (input : List UInt8) (expectedSize : Nat) :
    (∃ ok s, decompressLzss host input expectedSize = some (ok, s) ∧ s.largest ≤ expectedSize ∧
      (ok = true → s.out.length = expectedSize ∧ s.first = [])) ∧
    ∃ ok s, decompressNativeLz host input expectedSize = some (ok, s) ∧ s.largest ≤ expectedSize ∧
      (ok = true → s.out.length = expectedSize ∧ s.first = []) := by
  obtain ⟨ok, s, hlzss, ended⟩ :=
    decompress_ended (fun _ _ h => @decompressLzssGroup_contained host _ _ _ h) input
  obtain ⟨ok', s', hnative, ended'⟩ :=
    decompress_ended (fun _ _ h => @decompressNativeLzSequence_contained host _ _ _ h) input
  exact ⟨⟨ok, s, hlzss, ended.largest_le, ended.complete⟩,
    ⟨ok', s', hnative, ended'.largest_le, ended'.complete⟩⟩

end Uwvm2.JitCache
