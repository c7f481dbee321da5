import Uwvm2.JitCache.RoundTrip

/-!
# The LZSS round trip

Inside a group, the items written so far are decoded with any flags that agree with theirs, so the
flag byte can be filled in when the group is complete. A complete group is one round of the
decoder.
-/

namespace Uwvm2.JitCache

open Effect List

variable {host : Host} {x rest : List UInt8}

-- Tokens and flags

structure LzssMatch (distance length : Nat) : Prop where
  distance_pos : 1 ≤ distance
  distance_le : distance ≤ 4096
  length_ge : 3 ≤ length
  length_le : length ≤ 18

theorem LzssMatch.unpack {length : Nat} (h : LzssMatch distance length) :
    (lzssToken distance length &&& 0x0fff) + 1 = distance ∧
      (lzssToken distance length >>> 12) + lzssMinMatch = length := by
  obtain ⟨hpos, hwindow, hmin, hmax⟩ := h
  have htoken : lzssToken distance length = (length - 3) * 4096 + (distance - 1) := by
    unfold lzssToken lzssMinMatch
    rw [← Nat.shiftLeft_add_eq_or_of_lt (show distance - 1 < 2 ^ 12 by omega), Nat.shiftLeft_eq]
    exact Nat.mod_eq_of_lt (by omega)
  unfold lzssMinMatch
  rw [htoken, show (0x0fff : Nat) = 2 ^ 12 - 1 from rfl, Nat.and_two_pow_sub_one_eq_mod,
    Nat.shiftRight_eq_div_pow]
  omega

theorem lzssToken_lt (distance length : Nat) : lzssToken distance length < 2 ^ 16 :=
  Nat.mod_lt _ (Nat.two_pow_pos _)

theorem flag_set_iff (flags : BitVec 8) (hbit : bit < 8) :
    flags &&& (1#8 <<< bit) ≠ 0#8 ↔ flags.getLsbD bit = true := by
  rw [show (1#8 <<< bit) = BitVec.twoPow 8 bit from rfl, BitVec.and_twoPow]
  split
  · next hset =>
    refine iff_of_true (fun hzero => ?_) hset
    have hlsb := congrArg (·.getLsbD bit) hzero
    simp [hbit] at hlsb
  · next hset => exact iff_of_false (not_not.mpr rfl) hset

theorem getLsbD_flag (flags : BitVec 8) (hbit : bit < 8) (i : Nat) :
    (flags ||| (1#8 <<< bit)).getLsbD i = (flags.getLsbD i || decide (i = bit)) := by
  rw [BitVec.getLsbD_or, show (1#8 <<< bit) = BitVec.twoPow 8 bit from rfl, BitVec.getLsbD_twoPow]
  by_cases hi : i = bit
  · simp [hi, hbit]
  · simp [hi, Ne.symm hi]

-- Items

theorem exec_lzssItem_skip (flags : BitVec 8) (bit : Nat) (rest : List UInt8) :
    exec (decompressLzssItem host x.length flags bit) (.mid rest x) =
      some (.ok (), .mid rest x) := by
  rw [decompressLzssItem, exec_bind_ok exec_get, onlyIf, Decoder.mid_out, if_neg (not_not.mpr rfl)]
  rfl

theorem exec_lzssItem_literal (hbit : bit < 8) (hclear : flags.getLsbD bit = false)
    (hb : x[pos]? = some b) (rest : List UInt8) :
    exec (decompressLzssItem host x.length flags bit) (.mid (b :: rest) (x.take pos)) =
      some (.ok (), .mid rest (x.take (pos + 1))) := by
  have hlt : pos < x.length := (List.getElem?_eq_some_iff.mp hb).1
  have hmore : (x.take pos).length ≠ x.length := by
    rw [length_take_of_le (by omega)]
    omega
  have hflag : ¬ flags &&& (1#8 <<< bit) ≠ 0#8 := by
    rw [flag_set_iff flags hbit, hclear]
    exact Bool.false_ne_true
  rw [decompressLzssItem, exec_bind_ok exec_get, onlyIf, if_pos (by exact hmore), if_neg hflag,
    exec_bind_ok (exec_nextByte _ _ _), exec_appendOut, take_succ hb]

theorem exec_lzssItem_match {bit length : Nat} (hbit : bit < 8) (hset : flags.getLsbD bit = true)
    (hmatch : LzssMatch distance length) (hdistance : distance ≤ pos)
    (hfits : pos + length ≤ x.length) (hrepeats : Repeats x (pos - distance) pos length)
    (rest : List UInt8) :
    exec (decompressLzssItem host x.length flags bit)
      (.mid (ByteWord.bytes 2 (lzssToken distance length) ++ rest) (x.take pos)) =
      some (.ok (), .mid rest (x.take (pos + length))) := by
  have hout : (x.take pos).length = pos := length_take_of_le (by omega)
  have hlong := hmatch.length_ge
  have hpos := hmatch.distance_pos
  have hmore : (x.take pos).length ≠ x.length := by omega
  have hcopy : exec (copyMatch host (pos - (pos - distance)) length) _ = _ :=
    exec_copyMatch (by omega) hfits hrepeats rest
  rw [Nat.sub_sub_self hdistance] at hcopy
  rw [decompressLzssItem, exec_bind_ok exec_get, onlyIf, if_pos (by exact hmore),
    if_pos ((flag_set_iff flags hbit).mpr hset), exec_bind_ok (exec_nextU16 (lzssToken_lt _ _) _ _),
    hmatch.unpack.1, hmatch.unpack.2, lzssMatch, exec_bind_ok exec_get,
      exec_bind_ok (exec_require ?_),
    exec_bind_ok exec_get, exec_bind_ok (exec_require ?_)]
  · exact hcopy
  · rw [Decoder.mid_out, hout, sub_eq (by omega)]
    omega
  · rw [Decoder.mid_out, hout]
    omega

-- The search

theorem lzssHash3_defined (h : pos + 3 ≤ x.length) : ∃ hash, lzssHash3 x pos = some hash := by
  unfold lzssHash3
  rw [getElem?_eq_getElem (show pos < x.length by omega),
    getElem?_eq_getElem (show pos + 1 < x.length by omega),
    getElem?_eq_getElem (show pos + 2 < x.length by omega)]
  exact ⟨_, rfl⟩

structure LzssFound (x : List UInt8) (pos length distance : Nat) : Prop where
  isMatch : LzssMatch distance length
  distance_le : distance ≤ pos
  fits : pos + length ≤ x.length
  repeats : Repeats x (pos - distance) pos length

theorem lzssSearch_spec (host : Host) (table : HashTable) (pos : Nat) :
    ∃ bestLen bestOffset table', lzssSearch host x table pos = some (bestLen, bestOffset, table') ∧
      (bestLen = 0 ∨ LzssFound x pos bestLen bestOffset) := by
  unfold lzssSearch
  split
  · next hroom =>
    unfold lzssMinMatch at hroom
    obtain ⟨hash, hhash⟩ := lzssHash3_defined hroom
    rw [hhash]
    show ∃ bestLen bestOffset table',
      (if table hash ≠ host.sizeMax ∧ table hash < pos then _ else _) = _ ∧ _
    split
    · next hprev =>
      split
      · next hnear =>
        unfold lzssWindowSize at hnear
        have hfits : pos + 0 + min lzssMaxMatch (x.length - pos) ≤ x.length := by omega
        obtain ⟨n, hextend, _, hmax, hrepeats⟩ := extendMatch_repeats hprev.2 hfits nofun
        unfold lzssMaxMatch at hmax
        dsimp only
        rw [hextend]
        show ∃ bestLen bestOffset table', (if lzssMinMatch ≤ n then _ else _) = _ ∧ _
        split
        · next hlong =>
          unfold lzssMinMatch at hlong
          refine ⟨_, _, _, rfl,
            .inr ⟨⟨by omega, by omega, hlong, by omega⟩, Nat.sub_le _ _, by omega, ?_⟩⟩
          rwa [Nat.sub_sub_self (Nat.le_of_lt hprev.2)]
        · exact ⟨_, _, _, rfl, .inl rfl⟩
      · exact ⟨_, _, _, rfl, .inl rfl⟩
    · exact ⟨_, _, _, rfl, .inl rfl⟩
  · exact ⟨_, _, _, rfl, .inl rfl⟩

theorem lzssHashInside_defined (x : List UInt8) (pos length : Nat) (table : HashTable) :
    ∃ table', lzssHashInside x pos length table = some table' := by
  obtain ⟨table', hfold, _⟩ : ∃ table', lzssHashInside x pos length table = some table' ∧ True := by
    refine Loop.foldlM_range (fun _ _ => True) trivial fun i table _ _ => ?_
    dsimp only
    split
    · next hroom =>
      obtain ⟨hash, hhash⟩ := lzssHash3_defined hroom
      refine ⟨table.insert hash (pos + (i + 1)), ?_, trivial⟩
      rw [hhash]
      rfl
    · exact ⟨table, rfl, trivial⟩
  exact ⟨table', hfold⟩

-- Groups

/-- The first `bit` items of a group that was begun in the state `start`. -/
structure GroupInvariant (host : Host) (x : List UInt8) (start : LzssWriter) (bit : Nat)
    (s : LzssWriter × BitVec 8) :
    Prop where
  pos_le : s.1.pos ≤ x.length
  advances : start.pos + min bit 1 ≤ s.1.pos
  tokens : ∀ token ∈ s.1.tokens, LzssMatch token.1 token.2
  clear : ∀ i, bit ≤ i → s.2.getLsbD i = false
  decodes : ∃ items, s.1.out = start.out ++ [0] ++ items ∧
    ∀ flags : BitVec 8, (∀ i < bit, flags.getLsbD i = s.2.getLsbD i) → ∀ rest,
      exec (times bit (fun bit _ => decompressLzssItem host x.length flags bit) ())
        (.mid (items ++ rest) (x.take start.pos)) = some (.ok (), .mid rest (x.take s.1.pos))

theorem GroupInvariant.decodes_succ {s' : LzssWriter} {flags' : BitVec 8}
    (inv : GroupInvariant host x start bit (s, flags)) (hout : s'.out = s.out ++ item)
    (hagree : ∀ i < bit, flags'.getLsbD i = flags.getLsbD i)
    (hitem : ∀ read : BitVec 8, read.getLsbD bit = flags'.getLsbD bit → ∀ rest,
      exec (decompressLzssItem host x.length read bit) (.mid (item ++ rest) (x.take s.pos)) =
        some (.ok (), .mid rest (x.take s'.pos))) :
    ∃ items, s'.out = start.out ++ [0] ++ items ∧
      ∀ read : BitVec 8, (∀ i < bit + 1, read.getLsbD i = flags'.getLsbD i) → ∀ rest,
        exec (times (bit + 1) (fun bit _ => decompressLzssItem host x.length read bit) ())
          (.mid (items ++ rest) (x.take start.pos)) = some (.ok (), .mid rest (x.take s'.pos)) := by
  obtain ⟨items, hitems, hdecode⟩ := inv.decodes
  refine ⟨items ++ item, by rw [hout, hitems, append_assoc], fun read hread rest => ?_⟩
  have hbefore := hdecode read (fun i hi => (hread i (Nat.lt_succ_of_lt hi)).trans (hagree i hi))
    (item ++ rest)
  rw [times_succ, append_assoc, exec_bind_ok hbefore]
  exact hitem read (hread bit (Nat.lt_succ_self bit)) rest

theorem GroupInvariant.step (hstart : start.pos < x.length) {s : LzssWriter × BitVec 8}
    (hbit : bit < 8) (inv : GroupInvariant host x start bit s) :
    ∃ s', lzssItem host x s bit = some s' ∧ GroupInvariant host x start (bit + 1) s' := by
  obtain ⟨s, flags⟩ := s
  unfold lzssItem
  dsimp only
  split
  · next hend =>
    -- Both loops skip the rest of the group.
    refine ⟨_, rfl, inv.pos_le, by dsimp only; omega, inv.tokens, fun i hi =>
      inv.clear i (by omega), ?_⟩
    refine inv.decodes_succ (append_nil _).symm (fun _ _ => rfl) fun read _ rest => ?_
    rw [nil_append, hend, take_length]
    exact exec_lzssItem_skip read bit rest
  · next hmore =>
    have hle : s.pos ≤ x.length := inv.pos_le
    have hfrom : start.pos + min bit 1 ≤ s.pos := inv.advances
    obtain ⟨bestLen, bestOffset, table, hsearch, hfound⟩ := @lzssSearch_spec x host s.table s.pos
    rw [hsearch]
    show ∃ s', (if bestLen ≠ 0 then _ else _) = some s' ∧ _
    split
    · next hlen =>
      have found := hfound.resolve_left hlen
      have hshort := found.isMatch.length_ge
      obtain ⟨table', htable⟩ := lzssHashInside_defined x s.pos bestLen table
      rw [htable]
      refine ⟨_, rfl, found.fits, by dsimp only; omega, ?_, fun i hi => ?_, ?_⟩
      · intro token htoken
        rcases mem_append.mp htoken with htoken | htoken
        · exact inv.tokens token htoken
        · obtain rfl := mem_singleton.mp htoken
          exact found.isMatch
      · rw [getLsbD_flag flags hbit, inv.clear i (by omega), decide_eq_false (by omega)]
        rfl
      · refine inv.decodes_succ rfl (fun i hi => ?_) fun read hread rest => ?_
        · rw [getLsbD_flag flags hbit, decide_eq_false (by omega), Bool.or_false]
        · rw [getLsbD_flag flags hbit, decide_eq_true rfl, Bool.or_true] at hread
          exact exec_lzssItem_match hbit hread found.isMatch found.distance_le found.fits
            found.repeats rest
    · have hb : x[s.pos]? = some x[s.pos] := getElem?_eq_getElem (by omega)
      rw [hb]
      refine ⟨_, rfl, by dsimp only; omega, by dsimp only; omega, inv.tokens,
        fun i hi => inv.clear i (by omega), ?_⟩
      refine inv.decodes_succ rfl (fun _ _ => rfl) fun read hread rest => ?_
      rw [inv.clear bit (Nat.le_refl bit)] at hread
      exact exec_lzssItem_literal hbit hread hb rest

/-- The decoder, on what is written so far, produces the input up to the position. -/
structure LzssInvariant (host : Host) (x : List UInt8) (s : LzssWriter) : Prop where
  pos_le : s.pos ≤ x.length
  tokens : ∀ token ∈ s.tokens, LzssMatch token.1 token.2
  decodes : ∃ n ≤ s.out.length, ∀ rest,
    Rounds (unfinished x.length) (decompressLzssGroup host x.length) n (.mid (s.out ++ rest) [])
      (.mid rest (x.take s.pos))

theorem LzssInvariant.group (inv : LzssInvariant host x s) (hmore : s.pos ≠ x.length) :
    ∃ s', lzssGroup host x s = some s' ∧ LzssInvariant host x s' ∧
      x.length - s'.pos < x.length - s.pos := by
  have hlt : s.pos < x.length := Nat.lt_of_le_of_ne inv.pos_le hmore
  have hinit : GroupInvariant host x s 0 ({ s with out := s.out ++ [0] }, 0#8) :=
    ⟨inv.pos_le, Nat.le_refl _, inv.tokens, fun i _ => BitVec.getLsbD_zero, [], (append_nil _).symm,
      fun _ _ _ => rfl⟩
  obtain ⟨⟨s', flags⟩, hfold, group⟩ := Loop.foldlM_range (GroupInvariant host x s) hinit
    fun bit _ hbit inv => inv.step hlt hbit
  obtain ⟨items, hout, hitems⟩ := group.decodes
  obtain ⟨n, hn, hrounds⟩ := inv.decodes
  have hset : s'.out.set s.out.length (UInt8.ofBitVec flags) = s.out ++
      (UInt8.ofBitVec flags :: items) := by
    rw [show s'.out = s.out ++ [0] ++ items from hout, append_assoc,
      set_append_right _ _ (Nat.le_refl _), Nat.sub_self]
    rfl
  have hlong : s.pos + min 8 1 ≤ s'.pos := group.advances
  refine ⟨{ s' with out := s'.out.set s.out.length (UInt8.ofBitVec flags) }, ?_,
    ⟨group.pos_le, group.tokens, ?_⟩, ?_⟩
  · rw [lzssGroup, hfold]
    rfl
  · refine ⟨n + 1, ?_, fun rest => ?_⟩
    · dsimp only
      rw [hset, length_append, length_cons]
      omega
    · have hround : exec (decompressLzssGroup host x.length)
          (.mid (UInt8.ofBitVec flags :: (items ++ rest)) (x.take s.pos)) =
            some (.ok (), .mid rest (x.take s'.pos)) := by
        rw [decompressLzssGroup, exec_bind_ok (exec_nextByte _ _ _)]
        exact hitems flags (fun _ _ => rfl) rest
      have hunfinished : unfinished x.length
          (.mid (UInt8.ofBitVec flags :: (items ++ rest)) (x.take s.pos)) = true := by
        refine decide_eq_true ?_
        rw [Decoder.mid_out, length_take_of_le inv.pos_le]
        exact hmore
      dsimp only
      rw [hset, append_assoc, cons_append]
      exact (hrounds _).trans (.one hunfinished hround)
  · dsimp only
    omega

theorem decompress_compressLzss (host : Host) (x : List UInt8) :
    ∃ writer, lzssWriter host x = some writer ∧ compressLzss host x = some writer.out ∧
      decompressLzss host writer.out x.length = some (true, .mid [] x) ∧
      ∀ token ∈ writer.tokens, LzssMatch token.1 token.2 := by
  obtain ⟨writer, hwriter, inv, hstop⟩ : ∃ s, lzssWriter host x = some s ∧ LzssInvariant host x s ∧
      decide (s.pos ≠ x.length) = false :=
    Loop.whileSome_eq_some (LzssInvariant host x) (fun s => x.length - s.pos)
      (fun s inv hmore => inv.group (of_decide_eq_true hmore))
      ⟨Nat.zero_le _, fun _ h => absurd h not_mem_nil, 0, Nat.le_refl _, fun _ => .refl⟩
      (Nat.lt_succ_of_le (Nat.sub_le _ _))
  have hend : writer.pos = x.length := not_not.mp (of_decide_eq_false hstop)
  obtain ⟨n, hn, hrounds⟩ := inv.decodes
  have hall := hrounds []
  rw [append_nil, hend, take_length] at hall
  refine ⟨writer, hwriter, ?_, decompress_of_rounds hall hn rfl, inv.tokens⟩
  unfold compressLzss
  split
  · next hempty =>
    obtain rfl := length_eq_zero_iff.mp hempty
    cases hwriter
    rfl
  · rw [hwriter]
    rfl

/-- On every input, the decompressor succeeds on what the compressor writes and gives the input
back. Every token that is written holds its match. -/
theorem lzss_round_trip (host : Host) (x : ByteString host) :
    ∃ writer s, lzssWriter host x.bytes = some writer ∧ compressLzss host x.bytes =
      some writer.out ∧
      decompressLzss host writer.out x.bytes.length = some (true, s) ∧ s.out = x.bytes ∧
      ∀ token ∈ writer.tokens, 1 ≤ token.1 ∧ token.1 ≤ 4096 ∧ 3 ≤ token.2 ∧ token.2 ≤ 18 ∧
        (lzssToken token.1 token.2 &&& 0x0fff) + 1 = token.1 ∧
        (lzssToken token.1 token.2 >>> 12) + lzssMinMatch = token.2 := by
  obtain ⟨writer, hwriter, hcompress, hdecompress, htokens⟩ := decompress_compressLzss host x.bytes
  refine ⟨writer, _, hwriter, hcompress, hdecompress, rfl, fun token htoken => ?_⟩
  have hmatch := htokens token htoken
  exact ⟨hmatch.distance_pos, hmatch.distance_le, hmatch.length_ge, hmatch.length_le, hmatch.unpack⟩

end Uwvm2.JitCache
