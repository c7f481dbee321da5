import Uwvm2.JitCache.RoundTrip

/-!
# The Native-LZ round trip

The compressor keeps the invariant that the decoder, on what is written so far, produces the input
up to the anchor. A sequence with a match keeps it; the last sequence or the last match completes
the input.
-/

namespace Uwvm2.JitCache

open Effect List ByteWord Region

variable {host : Host} {x rest : List UInt8}

-- Lengths

theorem appendNativeLzLength_eq (out : List UInt8) (len : Nat) :
    appendNativeLzLength out len = out ++ appendNativeLzLength [] len := by
  induction len using Nat.strongRecOn generalizing out with
  | ind len ih =>
    rw [appendNativeLzLength, appendNativeLzLength.eq_def []]
    split
    · next hlong =>
      rw [ih (len - 255) (by omega), ih (len - 255) (by omega) ([] ++ [255]),
        nil_append, append_assoc]
    · rw [nil_append]

theorem readNativeLzLength_append (hfits : start + len ≤ host.sizeMax) (rest : List UInt8) :
    readNativeLzLength host (appendNativeLzLength [] len ++ rest) start =
      some (start + len, rest) := by
  induction len using Nat.strongRecOn generalizing start with
  | ind len ih =>
    rw [appendNativeLzLength]
    split
    · next hlong =>
      have hbyte : (255 : UInt8).toNat = 255 := rfl
      rw [nil_append, appendNativeLzLength_eq, append_assoc, singleton_append, readNativeLzLength,
        hbyte, if_neg (by omega), if_neg (by omega), ih (len - 255) (by omega) (by omega),
        show start + 255 + (len - 255) = start + len by omega]
    · next hshort =>
      have hbyte : (UInt8.ofNat len).toNat = len := by
        rw [show (UInt8.ofNat len).toNat = len % 256 from UInt8.toNat_ofNat']
        omega
      rw [nil_append, singleton_append, readNativeLzLength, hbyte, if_neg (by omega),
        if_pos (by omega)]

/-- The bytes behind the token that continue a length. -/
def nativeLzExtension (n : Nat) : List UInt8 :=
  if 15 ≤ n then appendNativeLzLength [] (n - 15) else []

theorem exec_nextNativeLzLength (hfits : start + n ≤ host.sizeMax) (rest out : List UInt8) :
    exec (nextNativeLzLength host (min n 15) (start + min n 15))
      (.mid (nativeLzExtension n ++ rest) out) = some (.ok (start + n), .mid rest out) := by
  unfold nextNativeLzLength nativeLzExtension
  by_cases hlong : 15 ≤ n
  · have hread := @readNativeLzLength_append host (start + 15) (n - 15) (by omega) rest
    rw [show start + 15 + (n - 15) = start + n by omega] at hread
    rw [Nat.min_eq_right hlong, if_pos rfl, if_pos hlong, exec_bind_ok exec_get,
      Decoder.mid_first, hread]
    rfl
  · rw [Nat.min_eq_left (by omega), if_neg (by omega), if_neg hlong]
    rfl

theorem nativeLzToken_halves {a b : Nat} (ha : a ≤ 15) (hb : b ≤ 15) :
    (UInt8.ofNat ((a <<< 4) ||| b)).toNat >>> 4 = a ∧
      (UInt8.ofNat ((a <<< 4) ||| b)).toNat &&& 0x0f = b := by
  have h : ∀ a b : Fin 16, (UInt8.ofNat ((a.val <<< 4) ||| b.val)).toNat >>> 4 = a.val ∧
      (UInt8.ofNat ((a.val <<< 4) ||| b.val)).toNat &&& 0x0f = b.val := by decide
  exact h ⟨a, by omega⟩ ⟨b, by omega⟩

-- Sequences

theorem appendNativeLzSequence_match (out literals : List UInt8) (offset matchSize : Nat) :
    appendNativeLzSequence out literals (some (offset, matchSize)) =
      out ++ (UInt8.ofNat ((min literals.length 15 <<< 4) ||| min (matchSize - 4) 15) ::
        (nativeLzExtension literals.length ++ (literals ++ (bytes 2 (offset % 2 ^ 16) ++
          nativeLzExtension (matchSize - 4))))) := by
  unfold appendNativeLzSequence nativeLzExtension appendLe nativeLzMinMatch
  dsimp only
  split <;> split <;> simp only [append_assoc, append_nil, cons_append, nil_append,
    appendNativeLzLength_eq (out ++ _)]

theorem appendNativeLzSequence_last (out literals : List UInt8) :
    appendNativeLzSequence out literals none =
      out ++ (UInt8.ofNat ((min literals.length 15 <<< 4) ||| 0) ::
        (nativeLzExtension literals.length ++ literals)) := by
  unfold appendNativeLzSequence nativeLzExtension
  dsimp only
  split <;> simp only [append_assoc, cons_append, nil_append, appendNativeLzLength_eq (out ++ _)]

theorem exec_nativeLzLiterals {token : Nat} {literals : List UInt8}
    (htoken : token >>> 4 = min literals.length 15)
    {expected : Nat} (hfits : out.length + literals.length ≤ expected)
    (hsize : expected ≤ host.sizeMax)
    (rest : List UInt8) :
    exec (nativeLzLiterals host expected token)
      (.mid (nativeLzExtension literals.length ++ (literals ++ rest)) out) =
      some (.ok (), .mid rest (out ++ literals)) := by
  have hlength := @exec_nextNativeLzLength host 0 literals.length (by omega) (literals ++ rest) out
  rw [Nat.zero_add, Nat.zero_add] at hlength
  unfold nativeLzLiterals
  rw [htoken, exec_bind_ok hlength, exec_bind_ok exec_get, exec_bind_ok (exec_require ?_),
    exec_bind_ok exec_get,
    exec_bind_ok (exec_require ?_), exec_bind_ok exec_get, Decoder.mid_first, take_left,
    exec_bind_ok (exec_appendOut _ _ _)]
  · show some (Except.ok (), Decoder.mk ((literals ++ rest).drop literals.length) _ _) = _
    rw [drop_left]
    rfl
  · rw [Decoder.mid_out, sub_eq (by omega)]
    omega
  · rw [Decoder.mid_first, length_append]
    exact Nat.le_add_right _ _

theorem exec_nativeLzMatch {token prev : Nat} (htoken : token &&& 0x0f = min (matchSize - 4) 15)
    (hprev : prev < pos) (hnear : pos - prev ≤ nativeLzMaxOffset) (hmin : 4 ≤ matchSize)
    (hfits : pos + matchSize ≤ x.length) (hsize : x.length ≤ host.sizeMax)
    (hrepeats : Repeats x prev pos matchSize) (rest : List UInt8) :
    exec (nativeLzMatch host x.length token)
      (.mid (bytes 2 ((pos - prev) % 2 ^ 16) ++ (nativeLzExtension (matchSize - 4) ++ rest))
        (x.take pos)) =
      some (.ok (), .mid rest (x.take (pos + matchSize))) := by
  have hout : (x.take pos).length = pos := length_take_of_le (by omega)
  have hlength := @exec_nextNativeLzLength host 4 (matchSize - 4) (by omega) rest (x.take pos)
  rw [show 4 + (matchSize - 4) = matchSize by omega] at hlength
  unfold nativeLzMaxOffset at hnear
  unfold nativeLzMatch nativeLzMinMatch
  rw [Nat.mod_eq_of_lt (by omega), exec_bind_ok (exec_nextU16 (by omega) _ _),
    exec_bind_ok exec_get,
    exec_bind_ok (exec_require ?_), htoken, exec_bind_ok hlength, exec_bind_ok exec_get,
      exec_bind_ok (exec_require ?_)]
  · exact exec_copyMatch hprev hfits hrepeats rest
  · rw [Decoder.mid_out, hout, sub_eq (by omega)]
    omega
  · rw [Decoder.mid_out, hout]
    omega

theorem take_append_slice {anchor pos : Nat} (h : anchor ≤ pos) :
    x.take anchor ++ (x.drop anchor).take (pos - anchor) = x.take pos := by
  rw [← take_add, Nat.add_sub_cancel' h]

theorem length_slice {anchor pos : Nat} (h : pos ≤ x.length) :
    ((x.drop anchor).take (pos - anchor)).length = pos - anchor := by
  rw [length_take, length_drop]
  omega

theorem exec_sequence_match {anchor prev : Nat} (hanchor : anchor ≤ pos) (hprev : prev < pos)
    (hnear : pos - prev ≤ nativeLzMaxOffset) (hmin : 4 ≤ matchSize)
    (hfits : pos + matchSize ≤ x.length) (hsize : x.length ≤ host.sizeMax)
    (hrepeats : Repeats x prev pos matchSize) (rest : List UInt8) :
    exec (decompressNativeLzSequence host x.length)
      (.mid (appendNativeLzSequence [] ((x.drop anchor).take (pos - anchor))
        (some (pos - prev, matchSize)) ++ rest)
        (x.take anchor)) = some (.ok (), .mid rest (x.take (pos + matchSize))) := by
  have hliterals := @length_slice x anchor pos (by omega)
  have hout : (x.take anchor).length = anchor := length_take_of_le (by omega)
  have hpos : (x.take pos).length = pos := length_take_of_le (by omega)
  obtain ⟨hhigh, hlow⟩ :=
    nativeLzToken_halves (Nat.min_le_right ((x.drop anchor).take (pos - anchor)).length 15)
    (Nat.min_le_right (matchSize - 4) 15)
  rw [appendNativeLzSequence_match, nil_append, cons_append, append_assoc, append_assoc,
    append_assoc]
  unfold decompressNativeLzSequence
  rw [exec_bind_ok (exec_nextByte _ _ _),
    exec_bind_ok (exec_nativeLzLiterals hhigh (by omega) hsize _),
    take_append_slice hanchor, exec_bind_ok exec_get, onlyIf,
      if_neg (by rw [Decoder.mid_out]; omega),
    exec_bind_ok (exec_pure ())]
  exact exec_nativeLzMatch hlow hprev hnear hmin hfits hsize hrepeats rest

theorem exec_sequence_last {anchor : Nat} (hanchor : anchor ≤ x.length)
    (hsize : x.length ≤ host.sizeMax) :
    exec (decompressNativeLzSequence host x.length)
      (.mid (appendNativeLzSequence [] ((x.drop anchor).take (x.length - anchor)) none)
        (x.take anchor)) =
      some (.error true, .mid [] x) := by
  have hliterals := @length_slice x anchor x.length (Nat.le_refl _)
  have hout : (x.take anchor).length = anchor := length_take_of_le hanchor
  have hhigh := (nativeLzToken_halves
    (Nat.min_le_right ((x.drop anchor).take (x.length - anchor)).length 15) (Nat.zero_le 15)).1
  have hexec := @exec_nativeLzLiterals host (x.take anchor) _ _ hhigh x.length (by omega) hsize []
  rw [append_nil] at hexec
  rw [appendNativeLzSequence_last, nil_append]
  unfold decompressNativeLzSequence
  rw [exec_bind_ok (exec_nextByte _ _ _), exec_bind_ok hexec, take_append_slice hanchor,
    take_length, exec_bind_ok exec_get, onlyIf, if_pos (by rw [Decoder.mid_out])]
  rfl

-- The compressor

theorem nativeLzReadU32_eq (h : pos + 4 ≤ x.length) :
    nativeLzReadU32 x pos = some (BitVec.ofNat 32 (value ((x.drop pos).take 4))) := by
  rw [nativeLzReadU32, read_ok h]
  rfl

theorem nativeLzHash4_defined {pos : Nat} (h : pos + 4 ≤ x.length) :
    ∃ hash, nativeLzHash4 x pos = some hash := by
  rw [nativeLzHash4, nativeLzReadU32_eq h]
  exact ⟨_, rfl⟩

theorem repeats_of_readU32 {prev : Nat} (hprev : prev + 4 ≤ x.length) (hpos : pos + 4 ≤ x.length)
    (h : BitVec.ofNat 32 (value ((x.drop prev).take 4)) =
      BitVec.ofNat 32 (value ((x.drop pos).take 4))) :
    Repeats x prev pos 4 := by
  have hslice : (x.drop prev).take 4 = (x.drop pos).take 4 := by
    have hlen : ∀ {i : Nat}, i + 4 ≤ x.length → ((x.drop i).take 4).length = 4 := by
      intro i hi
      rw [length_take, length_drop]
      omega
    have hbytes := congrArg (fun v => bytes 4 v.toNat) h
    simp only [BitVec.toNat_ofNat] at hbytes
    rw [show (2 : Nat) ^ 32 = 256 ^ 4 from rfl, bytes_mod, bytes_mod] at hbytes
    have hvalue := bytes_value ((x.drop prev).take 4)
    have hvalue' := bytes_value ((x.drop pos).take 4)
    rw [hlen hprev] at hvalue
    rw [hlen hpos] at hvalue'
    rw [← hvalue, hbytes, hvalue']
  intro k hk
  have hcell := congrArg (·[k]?) hslice
  simpa only [getElem?_take_of_lt hk, getElem?_drop] using hcell

theorem nativeLzFound_spec (host : Host) {prev pos : Nat} (hpos : pos + 4 ≤ x.length) :
    ∃ found, nativeLzFound host x prev pos = some found ∧
      (found = true → prev < pos ∧ pos - prev ≤ nativeLzMaxOffset ∧ Repeats x prev pos 4) := by
  unfold nativeLzFound
  split
  · next hnear =>
    rw [nativeLzReadU32_eq hpos, nativeLzReadU32_eq (by omega)]
    exact ⟨_, rfl, fun heq =>
      ⟨hnear.2.1, hnear.2.2, repeats_of_readU32 (by omega) hpos (of_decide_eq_true heq)⟩⟩
  · exact ⟨false, rfl, nofun⟩

theorem nativeLzHashInside_defined {pos matchSize : Nat} (h : pos + matchSize ≤ x.length)
    (table : HashTable) :
    ∃ table', nativeLzHashInside x pos matchSize table = some table' := by
  obtain ⟨table', hfold, _⟩ : ∃ table', nativeLzHashInside x pos matchSize table = some table' ∧
      True := by
    refine Loop.foldlM_range (fun _ _ => True) trivial fun i table hi _ => ?_
    obtain ⟨hash, hhash⟩ :=
      @nativeLzHash4_defined x (pos + 1 + i) (by unfold nativeLzMinMatch at hi; omega)
    refine ⟨table.insert hash (pos + 1 + i), ?_, trivial⟩
    show nativeLzHash4 x (pos + 1 + i) >>= _ = _
    rw [hhash]
    rfl
  exact ⟨table', hfold⟩

/-- The decoder, on what is written so far, produces the input up to the anchor. -/
structure NativeLzInvariant (host : Host) (x : List UInt8) (s : NativeLzWriter) : Prop where
  anchor_le : s.anchor ≤ s.pos
  pos_le : s.pos ≤ x.length
  decodes : ∃ n ≤ s.out.length, ∀ rest,
    Rounds (unfinished x.length) (decompressNativeLzSequence host x.length) n
      (.mid (s.out ++ rest) []) (.mid rest (x.take s.anchor))

theorem nativeLzInvariant_init (host : Host) (x : List UInt8) :
    NativeLzInvariant host x { table := .empty host, anchor := 0, pos := 0, out := [] } :=
  ⟨Nat.le_refl _, Nat.zero_le _, 0, Nat.le_refl _, fun _ => .refl⟩

/-- A sequence with a match moves the anchor behind the match. -/
theorem NativeLzInvariant.append {s : NativeLzWriter} (inv : NativeLzInvariant host x s)
    {prev : Nat} (hprev : prev < s.pos) (hnear : s.pos - prev ≤ nativeLzMaxOffset)
    (hmin : 4 ≤ matchSize) (hfits : s.pos + matchSize ≤ x.length) (hsize : x.length ≤ host.sizeMax)
    (hrepeats : Repeats x prev s.pos matchSize) (table : HashTable) :
    NativeLzInvariant host x {
      table := table
      anchor := s.pos + matchSize
      pos := s.pos + matchSize
      out := appendNativeLzSequence s.out ((x.drop s.anchor).take (s.pos - s.anchor))
        (some (s.pos - prev, matchSize)) } where
  anchor_le := Nat.le_refl _
  pos_le := hfits
  decodes := by
    obtain ⟨n, hn, hrounds⟩ := inv.decodes
    have hanchor := inv.anchor_le
    have hmore (rest : List UInt8) : unfinished x.length (.mid rest (x.take s.anchor)) = true := by
      refine decide_eq_true ?_
      rw [Decoder.mid_out, length_take_of_le (by omega)]
      omega
    -- The new sequence does not depend on what stands before it.
    have hsplit := appendNativeLzSequence_match s.out ((x.drop s.anchor).take (s.pos - s.anchor))
      (s.pos - prev) matchSize
    have halone := appendNativeLzSequence_match [] ((x.drop s.anchor).take (s.pos - s.anchor))
      (s.pos - prev) matchSize
    rw [nil_append] at halone
    rw [← halone] at hsplit
    refine ⟨n + 1, ?_, fun rest => ?_⟩
    · dsimp only
      rw [hsplit, halone, length_append, length_cons]
      omega
    · dsimp only
      rw [hsplit, append_assoc]
      exact (hrounds _).trans
        (.one (hmore _) (exec_sequence_match hanchor hprev hnear hmin hfits hsize hrepeats rest))

theorem NativeLzInvariant.step {s : NativeLzWriter} (inv : NativeLzInvariant host x s)
    (hsize : x.length ≤ host.sizeMax) (hmore : s.pos + 4 ≤ x.length) :
    ∃ s', nativeLzStep host x s = some s' ∧ NativeLzInvariant host x s' ∧
      x.length - s'.pos < x.length - s.pos := by
  obtain ⟨hash, hhash⟩ := nativeLzHash4_defined hmore
  obtain ⟨found, hfound, hspec⟩ := @nativeLzFound_spec x host (s.table hash) s.pos hmore
  have hanchor := inv.anchor_le
  unfold nativeLzStep
  rw [hhash]
  show ∃ s', (nativeLzFound host x (s.table hash) s.pos >>= _) = some s' ∧ _
  rw [hfound]
  cases found with
  | false =>
    refine ⟨_, rfl, ⟨Nat.le_succ_of_le hanchor, by show s.pos + 1 ≤ x.length; omega,
      inv.decodes⟩, ?_⟩
    show x.length - (s.pos + 1) < _
    omega
  | true =>
    obtain ⟨hprev, hnear, hfour⟩ := hspec rfl
    have hfits : s.pos + 4 + (x.length - s.pos - 4) ≤ x.length := by omega
    obtain ⟨matchSize, hextend, hmin, hmax, hrepeats⟩ := extendMatch_repeats hprev hfits hfour
    have hread : read x s.anchor (s.pos - s.anchor) =
        some ((x.drop s.anchor).take (s.pos - s.anchor)) :=
      read_ok (by omega)
    obtain ⟨table, htable⟩ :=
      @nativeLzHashInside_defined x s.pos matchSize (by omega) (s.table.insert hash s.pos)
    refine ⟨_, ?_, inv.append hprev hnear hmin (by omega) hsize hrepeats table, ?_⟩
    · show extendMatch x _ _ (x.length - s.pos - 4) 4 >>= _ = _
      rw [hextend]
      show read x s.anchor (s.pos - s.anchor) >>= _ = _
      rw [hread]
      show nativeLzHashInside x s.pos matchSize (s.table.insert hash s.pos) >>= _ = _
      rw [htable]
      rfl
    · show x.length - (s.pos + matchSize) < _
      omega

theorem decompress_compressNativeLz (hsize : x.length ≤ host.sizeMax) :
    ∃ compressed, compressNativeLz host x = some compressed ∧
      decompressNativeLz host compressed x.length = some (true, .mid [] x) := by
  unfold compressNativeLz
  split
  · next hempty =>
    obtain rfl := length_eq_zero_iff.mp hempty
    exact ⟨[], rfl, decompress_of_rounds .refl (Nat.le_refl _) rfl⟩
  · obtain ⟨s, hloop, inv, _⟩ :
        ∃ s, Loop.whileSome (fun s => decide (s.pos + nativeLzMinMatch ≤ x.length))
        (nativeLzStep host x) (x.length + 1)
          { table := .empty host, anchor := 0, pos := 0, out := [] } = some s ∧
        NativeLzInvariant host x s ∧ _ :=
      Loop.whileSome_eq_some (NativeLzInvariant host x) (fun s => x.length - s.pos)
        (fun s inv hmore => inv.step hsize (of_decide_eq_true hmore))
        (nativeLzInvariant_init host x)
        (Nat.lt_succ_of_le (Nat.sub_le _ _))
    obtain ⟨n, hn, hrounds⟩ := inv.decodes
    have hanchor : s.anchor ≤ x.length := Nat.le_trans inv.anchor_le inv.pos_le
    rw [hloop]
    by_cases hdone : s.anchor = x.length
    · -- The input ends in a match, or it is empty.
      have hall := hrounds []
      rw [append_nil, hdone, take_length] at hall
      refine ⟨s.out, ?_, decompress_of_rounds hall hn rfl⟩
      show (if s.anchor ≠ x.length then _ else _) = _
      rw [if_neg (not_not.mpr hdone)]
      rfl
    · -- The input ends in literals.
      have hread : read x s.anchor (x.length - s.anchor) =
          some ((x.drop s.anchor).take (x.length - s.anchor)) := read_ok (by omega)
      have hsplit := appendNativeLzSequence_last s.out
        ((x.drop s.anchor).take (x.length - s.anchor))
      have halone := appendNativeLzSequence_last [] ((x.drop s.anchor).take (x.length - s.anchor))
      rw [nil_append] at halone
      rw [← halone] at hsplit
      have hrounds := hrounds
        (appendNativeLzSequence [] ((x.drop s.anchor).take (x.length - s.anchor)) none)
      rw [← hsplit] at hrounds
      refine ⟨_, ?_, decompress_of_return hrounds ?_ ?_ (exec_sequence_last hanchor hsize)⟩
      · show (if s.anchor ≠ x.length then _ else _) = _
        rw [if_pos hdone, hread]
        rfl
      · rw [hsplit, length_append]
        omega
      · rw [Decoder.mid_out, length_take_of_le hanchor]
        exact hdone

/-- On every input, the decompressor succeeds on what the compressor writes and gives the input
back. -/
theorem native_lz_round_trip (host : Host) (x : ByteString host) :
    ∃ compressed s, compressNativeLz host x.bytes = some compressed ∧
      decompressNativeLz host compressed x.bytes.length = some (true, s) ∧ s.out = x.bytes := by
  obtain ⟨compressed, hcompress, hdecompress⟩ := decompress_compressNativeLz x.length_le_sizeMax
  exact ⟨compressed, _, hcompress, hdecompress, rfl⟩

end Uwvm2.JitCache
