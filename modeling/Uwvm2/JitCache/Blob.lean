import Uwvm2.JitCache.Format
import Uwvm2.Lib.PrefixCode

/-!
# What the parser accepts

An accepted file is its header and the four parts behind it, with no byte between them or left
over. Written out again, the header and the parts are the file. The metadata are prefix codes of
the fields that they hold.
-/

namespace Uwvm2.JitCache

open List ByteWord Region Leb128

variable {host : Host} {file : List UInt8} {view : CacheBlobView} {header : CacheFixedHeader}

-- Metadata

theorem leb128_isPrefixCode : IsPrefixCode fun n : BitVec 64 => put n.toNat := by
  refine .of_read (readUnsigned 64) (fun r => .ok (r.1.toNat, r.2)) ?_ fun n s =>
    readUnsigned_put n.isLt s
  rintro ⟨a, s⟩ ⟨b, t⟩ heq
  obtain ⟨hab, hst⟩ := Prod.mk.inj (Except.ok.inj heq)
  exact Prod.ext (BitVec.toNat_inj.mp hab) hst

def keyValue (key value : List UInt8) : List UInt8 :=
  put (BitVec.ofNat 64 key.length).toNat ++ key ++
    (put (BitVec.ofNat 64 value.length).toNat ++ value)

theorem appendKeyValueBytes_eq (out key value : List UInt8) :
    appendKeyValueBytes out key value = out ++ keyValue key value := by
  simp only [appendKeyValueBytes, appendU64Leb128, keyValue, append_assoc]

/-- The value of a field can be told from the metadata, whatever stands behind it. -/
theorem keyValue_isPrefixCode (key : List UInt8) :
    IsPrefixCode fun value : ByteString host => keyValue key value.bytes := by
  refine (leb128_isPrefixCode.sized (fun _ _ => ByteString.ext) fun a b hsize => ?_).behind _
  have hnat := congrArg BitVec.toNat hsize
  rwa [BitVec.toNat_ofNat, BitVec.toNat_ofNat, Nat.mod_eq_of_lt a.length_lt_two_pow,
    Nat.mod_eq_of_lt b.length_lt_two_pow] at hnat

theorem makeIsaMetadata_eq (ctx : CacheContext host) :
    makeIsaMetadata ctx = keyValue (utf8 "target") ctx.targetTriple.bytes ++
      (keyValue (utf8 "cpu") ctx.cpuName.bytes ++
        keyValue (utf8 "features") ctx.cpuFeatures.bytes) := by
  simp only [makeIsaMetadata, appendKeyValueBytes_eq, nil_append, append_assoc]

theorem makeContextMetadata_eq (ctx : CacheContext host) :
    makeContextMetadata ctx = keyValue (utf8 "product") cacheProductName ++
      (keyValue (utf8 "key") ctx.cacheKey.bytes ++
      (keyValue (utf8 "llvm") ctx.llvmVersion.bytes ++
        (keyValue (utf8 "uwvm_abi") ctx.uwvmAbi.bytes ++
        keyValue (utf8 "codegen") ctx.codegenPolicy.bytes))) := by
  simp only [makeContextMetadata, appendKeyValueBytes_eq, nil_append, append_assoc]

theorem makeIsaMetadata_eq_iff : makeIsaMetadata c = makeIsaMetadata d ↔
      c.targetTriple = d.targetTriple ∧ c.cpuName = d.cpuName ∧ c.cpuFeatures = d.cpuFeatures := by
  constructor
  · intro h
    rw [makeIsaMetadata_eq, makeIsaMetadata_eq] at h
    obtain ⟨htarget, h⟩ := keyValue_isPrefixCode _ h
    obtain ⟨hcpu, h⟩ := keyValue_isPrefixCode _ h
    exact ⟨htarget, hcpu, (keyValue_isPrefixCode _).injective h⟩
  · rintro ⟨htarget, hcpu, hfeatures⟩
    rw [makeIsaMetadata, makeIsaMetadata, htarget, hcpu, hfeatures]

theorem makeContextMetadata_eq_iff : makeContextMetadata c = makeContextMetadata d ↔
      c.cacheKey = d.cacheKey ∧ c.llvmVersion = d.llvmVersion ∧ c.uwvmAbi = d.uwvmAbi ∧
        c.codegenPolicy = d.codegenPolicy := by
  constructor
  · intro h
    rw [makeContextMetadata_eq, makeContextMetadata_eq] at h
    obtain ⟨hkey, h⟩ := keyValue_isPrefixCode _ (append_cancel_left h)
    obtain ⟨hllvm, h⟩ := keyValue_isPrefixCode _ h
    obtain ⟨habi, h⟩ := keyValue_isPrefixCode _ h
    exact ⟨hkey, hllvm, habi, (keyValue_isPrefixCode _).injective h⟩
  · rintro ⟨hkey, hllvm, habi, hcodegen⟩
    rw [makeContextMetadata, makeContextMetadata, hkey, hllvm, habi, hcodegen]

theorem metadataEqual_eq (h : read file first n.toNat = some stored) :
    metadataEqual file (some first) n expected = some (decide (stored = expected)) := by
  have hlength := length_of_read h
  unfold metadataEqual
  split
  · next hsize =>
    rw [decide_eq_false]
    rintro rfl
    exact hsize hlength.symm
  · next hsize =>
    split
    · next hzero =>
      rw [hzero] at hlength hsize
      obtain rfl := length_eq_zero_iff.mp hlength
      obtain rfl := length_eq_zero_iff.mp (not_not.mp hsize).symm
      rfl
    · rw [Option.bind_eq_bind, Option.bind_some, h]
      rfl

-- The fixed header

theorem bytes_ofNat_at (hbits : bits = 8 * size) (hfits : offset + size ≤ file.length) :
    bytes size (BitVec.ofNat bits (at_ file offset size)).toNat =
      (file.drop offset).take size := by
  have hlength : ((file.drop offset).take size).length = size := by
    rw [length_take, length_drop]
    omega
  have hvalue := bytes_value ((file.drop offset).take size)
  rw [hlength] at hvalue
  rw [BitVec.toNat_ofNat, hbits, Nat.pow_mul, bytes_mod]
  exact hvalue

theorem serialize_parseFixedHeader (h : parseFixedHeader file = some header) :
    serializeFixedHeader header = file.take cacheFixedHeaderSize := by
  unfold parseFixedHeader at h
  split at h
  · cases h
  · next hlong =>
    unfold cacheFixedHeaderSize at hlong
    cases h
    unfold serializeFixedHeader
    rw [bytes_ofNat_at rfl (by omega), bytes_ofNat_at rfl (by omega), bytes_ofNat_at rfl (by omega),
      bytes_ofNat_at rfl (by omega), bytes_ofNat_at rfl (by omega), bytes_ofNat_at rfl (by omega),
      bytes_ofNat_at rfl (by omega), bytes_ofNat_at rfl (by omega), bytes_ofNat_at rfl (by omega),
      ← take_add, ← take_add, ← take_add, ← take_add, ← take_add, ← take_add,
      ← take_add, ← take_add, ← take_add]
    rfl

theorem length_serializeFixedHeader (header : CacheFixedHeader) :
    (serializeFixedHeader header).length = cacheFixedHeaderSize := by
  simp only [serializeFixedHeader, length_append, length_bytes, header.magic_length]
  rfl

theorem bytes_toNat_inj (hbits : bits = 8 * size) {b : BitVec bits}
    (h : bytes size a.toNat = bytes size b.toNat) : a = b := by
  have hpow : (256 : Nat) ^ size = 2 ^ bits := by rw [hbits, Nat.pow_mul]
  exact BitVec.toNat_inj.mp (bytes_inj (hpow ▸ a.isLt) (hpow ▸ b.isLt) h)

theorem serializeFixedHeader_injective : Function.Injective serializeFixedHeader := by
  intro a b h
  obtain ⟨h, hsignatureSize⟩ := append_inj' h (by simp)
  obtain ⟨h, hcontextSize⟩ := append_inj' h (by simp)
  obtain ⟨h, hisaSize⟩ := append_inj' h (by simp)
  obtain ⟨h, hpayloadSize⟩ := append_inj' h (by simp)
  obtain ⟨h, huncompressedSize⟩ := append_inj' h (by simp)
  obtain ⟨h, hsignature⟩ := append_inj' h (by simp)
  obtain ⟨h, hcompression⟩ := append_inj' h (by simp)
  obtain ⟨h, hheaderSize⟩ := append_inj' h (by simp)
  obtain ⟨hmagic, hversion⟩ := append_inj' h (by simp)
  cases a
  cases b
  cases hmagic
  cases bytes_toNat_inj rfl hversion
  cases bytes_toNat_inj rfl hheaderSize
  cases bytes_toNat_inj rfl hcompression
  cases bytes_toNat_inj rfl hsignature
  cases bytes_toNat_inj rfl huncompressedSize
  cases bytes_toNat_inj rfl hpayloadSize
  cases bytes_toNat_inj rfl hisaSize
  cases bytes_toNat_inj rfl hcontextSize
  cases bytes_toNat_inj rfl hsignatureSize
  rfl

theorem parseFixedHeader_serialize (header : CacheFixedHeader) (rest : List UInt8) :
    parseFixedHeader (serializeFixedHeader header ++ rest) = some header := by
  have hlong : ¬ (serializeFixedHeader header ++ rest).length < cacheFixedHeaderSize := by
    rw [length_append, length_serializeFixedHeader]
    omega
  obtain ⟨header', hparsed⟩ : ∃ header', parseFixedHeader (serializeFixedHeader header ++ rest) =
      some header' := by
    rw [parseFixedHeader, dif_neg hlong]
    exact ⟨_, rfl⟩
  have hserialized := serialize_parseFixedHeader hparsed
  rw [take_left' (length_serializeFixedHeader header)] at hserialized
  rw [hparsed, serializeFixedHeader_injective hserialized]

-- Sizes

theorem checkedAdd_eq_some :
    checkedAdd host v add = some total ↔ v + add.toNat = total ∧ total ≤ host.sizeMax := by
  have hpow : 0 < 2 ^ host.sizeBits := Nat.two_pow_pos _
  unfold checkedAdd Host.toSize Host.sizeMax
  split
  · next hbig =>
    constructor
    · nofun
    · rintro ⟨rfl, hle⟩
      omega
  · next hadd =>
    have hfits : add.toNat % 2 ^ host.sizeBits = add.toNat := Nat.mod_eq_of_lt (by omega)
    rw [hfits]
    split
    · next hbig =>
      constructor
      · nofun
      · rintro ⟨rfl, hle⟩
        omega
    · next hsum =>
      rw [Nat.mod_eq_of_lt (by omega), Option.some.injEq]
      constructor
      · rintro rfl
        omega
      · exact And.left

theorem toSize_eq (h : n.toNat ≤ host.sizeMax) : host.toSize n = n.toNat := by
  have hpow : 0 < 2 ^ host.sizeBits := Nat.two_pow_pos _
  unfold Host.sizeMax at h
  exact Nat.mod_eq_of_lt (by omega)

-- The parts of a file

/-- Offset and size of the header and of the four parts that the view points to. -/
def CacheBlobView.parts (view : CacheBlobView) : Option (List (Nat × Nat)) := do
  return [(0, cacheFixedHeaderSize),
    (← view.isaMetadata, view.header.isaMetadataSize.toNat),
    (← view.contextMetadata, view.header.contextMetadataSize.toNat),
    (← view.signature, view.header.signatureSize.toNat),
    (← view.payload, view.header.payloadSize.toNat)]

structure Accepted (host : Host) (file : List UInt8) (view : CacheBlobView)
    (header : CacheFixedHeader) : Prop where
  parsed : parseFixedHeader file = some header
  magic : header.magic = cacheMagic
  version : header.version = cacheFormatVersion
  fixedHeaderSize : header.fixedHeaderSize.toNat = cacheFixedHeaderSize
  length : cacheFixedHeaderSize + header.isaMetadataSize.toNat + header.contextMetadataSize.toNat +
    header.signatureSize.toNat + header.payloadSize.toNat = file.length
  fits : file.length ≤ host.sizeMax
  view_eq : view = {
    header := header
    isaMetadata := some cacheFixedHeaderSize
    contextMetadata := some (cacheFixedHeaderSize + header.isaMetadataSize.toNat)
    signature := some (cacheFixedHeaderSize + header.isaMetadataSize.toNat +
      header.contextMetadataSize.toNat)
    payload := some (cacheFixedHeaderSize + header.isaMetadataSize.toNat +
      header.contextMetadataSize.toNat + header.signatureSize.toNat) }

theorem total_eq_some :
    (do
      let total ← checkedAdd host cacheFixedHeaderSize header.isaMetadataSize
      let total ← checkedAdd host total header.contextMetadataSize
      let total ← checkedAdd host total header.signatureSize
      checkedAdd host total header.payloadSize) = some total ↔
    cacheFixedHeaderSize + header.isaMetadataSize.toNat + header.contextMetadataSize.toNat +
      header.signatureSize.toNat + header.payloadSize.toNat = total ∧ total ≤ host.sizeMax := by
  simp only [Option.bind_eq_bind, Option.bind_eq_some_iff, checkedAdd_eq_some]
  constructor
  · rintro ⟨_, ⟨rfl, _⟩, _, ⟨rfl, _⟩, _, ⟨rfl, _⟩, rfl, hle⟩
    exact ⟨rfl, hle⟩
  · rintro ⟨rfl, hle⟩
    exact ⟨_, ⟨rfl, by omega⟩, _, ⟨rfl, by omega⟩, _, ⟨rfl, by omega⟩, rfl, hle⟩

theorem parseCacheBlob_ok_iff :
    parseCacheBlob host file view = (.ok, view') ↔ ∃ header, Accepted host file view' header := by
  constructor
  · intro h
    unfold parseCacheBlob at h
    split at h
    · cases h
    next header hparsed =>
    dsimp only at h
    split at h
    · cases h
    next hmagic =>
    split at h
    · cases h
    next hversion =>
    rw [not_or, not_not, not_not] at hversion
    split at h
    · cases h
    next total hsome =>
    obtain ⟨hsum, hfits⟩ := total_eq_some.mp hsome
    split at h
    · cases h
    next hlength =>
    rw [not_not] at hlength
    rw [toSize_eq (by omega), toSize_eq (by omega), toSize_eq (by omega)] at h
    exact ⟨header, hparsed, not_not.mp hmagic, hversion.1, hversion.2, hsum.trans hlength.symm,
      hlength ▸ hfits, (congrArg Prod.snd h).symm⟩
  · rintro ⟨header, accepted⟩
    have hlength := accepted.length
    have hfits := accepted.fits
    simp only [parseCacheBlob, accepted.parsed, accepted.magic, accepted.version,
      accepted.fixedHeaderSize, total_eq_some.mpr ⟨hlength, hfits⟩, ne_eq,
        not_true_eq_false, or_self,
      if_false]
    rw [toSize_eq (by omega), toSize_eq (by omega), toSize_eq (by omega), accepted.view_eq]

theorem parseCacheBlob_failed (h : (parseCacheBlob host file view).1 ≠ .ok) :
    (parseCacheBlob host file view).2 =
      { view with header := (parseCacheBlob host file view).2.header } := by
  revert h
  unfold parseCacheBlob
  split
  · exact fun _ => rfl
  dsimp only
  split
  · exact fun _ => rfl
  split
  · exact fun _ => rfl
  split
  · exact fun _ => rfl
  split
  · exact fun _ => rfl
  · exact fun h => absurd rfl h

theorem Accepted.tiles (accepted : Accepted host file view header) :
    ∃ parts, view.parts = some parts ∧ Tiles parts 0 file.length := by
  obtain rfl := accepted.view_eq
  refine ⟨_, rfl, rfl, ?_, rfl, rfl, rfl, accepted.length⟩
  rw [Nat.zero_add]

theorem Accepted.header_eq (accepted : Accepted host file view header) : view.header = header := by
  rw [accepted.view_eq]

theorem Accepted.reserialized (accepted : Accepted host file view header)
    (hparts : view.parts = some parts) (htiles : Tiles parts 0 file.length) :
    serializeFixedHeader view.header ++
      (parts.tail.flatMap fun part => (file.drop part.1).take part.2) = file := by
  have hfile : (parts.flatMap fun part => (file.drop part.1).take part.2) = file := by
    rw [htiles.flatMap, drop_zero, Nat.sub_zero, take_length]
  rw [accepted.header_eq, serialize_parseFixedHeader accepted.parsed]
  rw [accepted.view_eq] at hparts
  cases hparts
  exact hfile

/-- Every file is either accepted, and then its views tile it and give it back, or its views stay
what they were. -/
theorem parse_cache_blob_partitions (host : Host) (file : List UInt8) (initial : CacheBlobView) :
    match parseCacheBlob host file initial with
    | (.ok, view) => ∃ parts, view.parts = some parts ∧ Tiles parts 0 file.length ∧
        (∀ i, i < file.length ↔ ∃! k : Nat, ∃ part, parts[k]? = some part ∧ InRange i part) ∧
        file.length ≤ host.sizeMax ∧
        serializeFixedHeader view.header ++
          (parts.tail.flatMap fun part => (file.drop part.1).take part.2) = file
    | (_, view) => view = { initial with header := view.header } := by
  rcases hresult : parseCacheBlob host file initial with ⟨status, view⟩
  have hfailed : status ≠ .ok → view = { initial with header := view.header } := by
    have := @parseCacheBlob_failed host file initial
    rwa [hresult] at this
  cases status with
  | ok =>
    obtain ⟨header, accepted⟩ := parseCacheBlob_ok_iff.mp hresult
    obtain ⟨parts, hparts, htiles⟩ := accepted.tiles
    refine ⟨parts, hparts, htiles, fun i => ⟨fun hi => htiles.existsUnique (Nat.zero_le i) hi, ?_⟩,
      accepted.fits, accepted.reserialized hparts htiles⟩
    rintro ⟨k, ⟨part, hk, hin⟩, _⟩
    exact (htiles.bounds (mem_of_getElem? hk) hin).2
  | _ => exact hfailed nofun

end Uwvm2.JitCache
