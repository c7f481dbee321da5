import Uwvm2.JitCache.Store
import Uwvm2.JitCache.Lzss
import Uwvm2.JitCache.NativeLz

/-!
# Files written are files read

A file made for a context is accepted, its views hold what was written, and decompression gives the
object back. The metadata in it are accepted for another context only if the contexts agree.
-/

namespace Uwvm2.JitCache

open List Region

variable {host : Host} {sign : Signer host} {ctx c d : CacheContext host} {object : ByteString host}
  {policy : CachePolicy} {blob : List UInt8}

-- What is written

theorem build_bind_eq_pure {α β : Type} {m : Build α} {f : α → Build β} {b : β}
    (h : m >>= f = pure b) :
    ∃ a, m = pure a ∧ f a = pure b := by
  have hrun : (m.run : Option (Except CacheStatus α)) >>= ExceptT.bindCont f = some (.ok b) := h
  obtain ⟨r, hm, hf⟩ := Option.bind_eq_some_iff.mp hrun
  cases r with
  | error status => cases hf
  | ok a => exact ⟨a, hm, hf⟩

structure Built (sign : Signer host) (ctx : CacheContext host) (object : List UInt8)
    (policy : CachePolicy)
    (blob : List UInt8) (compression : CompressionKind) (signature payload : List UInt8) :
    Prop where
  payload_eq : makePayload host policy.compression object = pure (compression, payload)
  signature_length : signature.length = if policy.generateSignature then cacheEd25519SignatureSize
    else 0
  blob_eq : blob = serializeFixedHeader
    (makeHeader ctx object payload compression policy.generateSignature) ++
    (makeIsaMetadata ctx ++ (makeContextMetadata ctx ++ (signature ++ payload)))

theorem length_makeSignature (h : makeSignature sign ctx header payload generate = pure signature) :
    signature.length = if generate then cacheEd25519SignatureSize else 0 := by
  unfold makeSignature at h
  cases generate with
  | false =>
    cases h
    rfl
  | true =>
    rw [if_pos rfl] at h
    split at h
    · cases h
    · split at h
      · cases h
      · next hlength =>
        cases h
        exact not_not.mp hlength

theorem built_of_build (h : buildCacheBlob sign ctx (some object) policy = pure blob) :
    ∃ compression signature payload, Built sign ctx object.bytes policy blob compression
      signature payload := by
  unfold buildCacheBlob at h
  dsimp only at h
  split at h
  · cases h
  · obtain ⟨⟨compression, payload⟩, hpayload, h⟩ := build_bind_eq_pure h
    obtain ⟨signature, hsignature, h⟩ := build_bind_eq_pure h
    cases h
    refine ⟨compression, signature, payload, hpayload, length_makeSignature hsignature, ?_⟩
    simp only [append_assoc]

section Built

variable {compression : CompressionKind} {signature payload : List UInt8} {view : CacheBlobView}

/-- The sizes in the header of an accepted file are those of the parts that were written. -/
structure Stored (ctx : CacheContext host) (object : List UInt8) (generate : Bool)
    (blob : List UInt8)
    (compression : CompressionKind) (payload : List UInt8) (view : CacheBlobView) : Prop where
  header_eq : view.header = makeHeader ctx object payload compression generate
  isaMetadata : ∃ first, view.isaMetadata = some first ∧
    read blob first view.header.isaMetadataSize.toNat = some (makeIsaMetadata ctx)
  contextMetadata : ∃ first, view.contextMetadata = some first ∧
    read blob first view.header.contextMetadataSize.toNat = some (makeContextMetadata ctx)
  payload : ∃ first, view.payload = some first ∧
    read blob first view.header.payloadSize.toNat = some payload

theorem Built.stored {object : List UInt8}
    (built : Built sign ctx object policy blob compression signature payload)
    (accepted : Accepted host blob view header) :
    Stored ctx object policy.generateSignature blob compression payload view := by
  obtain ⟨_, hsignature, hblob⟩ := built
  have hheader : header = makeHeader ctx object payload compression policy.generateSignature := by
    have hparsed := accepted.parsed
    rw [hblob, parseFixedHeader_serialize] at hparsed
    exact (Option.some.inj hparsed).symm
  have hheaderLength :=
    length_serializeFixedHeader (makeHeader ctx object payload compression policy.generateSignature)
  have hlength := accepted.length
  -- Each size in the header is at most the real one, and the sums are equal.
  have hisa : header.isaMetadataSize.toNat = (makeIsaMetadata ctx).length % 2 ^ 64 := by
    rw [hheader]
    exact BitVec.toNat_ofNat _ _
  have hcontext : header.contextMetadataSize.toNat = (makeContextMetadata ctx).length % 2 ^ 64 := by
    rw [hheader]
    exact BitVec.toNat_ofNat _ _
  have hsig : header.signatureSize.toNat = signature.length % 2 ^ 64 := by
    rw [hheader, hsignature]
    exact BitVec.toNat_ofNat _ _
  have hpayload : header.payloadSize.toNat = payload.length % 2 ^ 64 := by
    rw [hheader]
    exact BitVec.toNat_ofNat _ _
  have htotal : blob.length = cacheFixedHeaderSize + (makeIsaMetadata ctx).length +
      (makeContextMetadata ctx).length + signature.length + payload.length := by
    rw [hblob]
    simp only [length_append, hheaderLength]
    omega
  have hle (n : Nat) : n % 2 ^ 64 ≤ n := Nat.mod_le _ _
  have hisaLe := hle (makeIsaMetadata ctx).length
  have hcontextLe := hle (makeContextMetadata ctx).length
  have hsigLe := hle signature.length
  have hpayloadLe := hle payload.length
  obtain rfl := accepted.view_eq
  refine ⟨hheader, ⟨_, rfl, ?_⟩, ⟨_, rfl, ?_⟩, ⟨_, rfl, ?_⟩⟩
  · rw [show header.isaMetadataSize.toNat = (makeIsaMetadata ctx).length by omega, hblob,
      ← hheaderLength]
    exact read_append _ _ _
  · rw [show header.contextMetadataSize.toNat = (makeContextMetadata ctx).length by omega,
      show header.isaMetadataSize.toNat = (makeIsaMetadata ctx).length by omega, hblob,
        ← hheaderLength,
      ← length_append, ← append_assoc]
    exact read_append _ _ _
  · rw [show header.payloadSize.toNat = payload.length by omega,
      show header.signatureSize.toNat = signature.length by omega,
      show header.contextMetadataSize.toNat = (makeContextMetadata ctx).length by omega,
      show header.isaMetadataSize.toNat = (makeIsaMetadata ctx).length by omega, hblob,
        ← hheaderLength,
      ← length_append, ← length_append, ← length_append, ← append_assoc, ← append_assoc,
      ← append_assoc]
    have hread := read_append (serializeFixedHeader
      (makeHeader ctx object payload compression policy.generateSignature) ++ makeIsaMetadata ctx ++
        makeContextMetadata ctx ++ signature) payload []
    rwa [append_nil] at hread

end Built

theorem Host.sizeMax_lt (host : Host) : host.sizeMax < 2 ^ 64 := by
  have hpow : 2 ^ host.sizeBits ≤ 2 ^ 64 := Nat.pow_le_pow_right (by decide) host.sizeBits_le
  have hpos : 0 < 2 ^ host.sizeBits := Nat.two_pow_pos _
  unfold Host.sizeMax
  omega

theorem Built.accepted {object : List UInt8}
    (built : Built sign ctx object policy blob compression signature payload)
    (hmemory : blob.length ≤ host.sizeMax) :
    ∃ view, Accepted host blob view
      (makeHeader ctx object payload compression policy.generateSignature) := by
  obtain ⟨_, hsignature, hblob⟩ := built
  have hlt := host.sizeMax_lt
  have htotal : blob.length = cacheFixedHeaderSize + (makeIsaMetadata ctx).length +
      (makeContextMetadata ctx).length + signature.length + payload.length := by
    rw [hblob]
    simp only [length_append, length_serializeFixedHeader]
    omega
  refine ⟨_, ?_, rfl, rfl, rfl, ?_, hmemory, rfl⟩
  · rw [hblob, parseFixedHeader_serialize]
  · have hsize (n : Nat) (hn : n < 2 ^ 64) : (BitVec.ofNat 64 n).toNat = n := by
      rw [BitVec.toNat_ofNat, Nat.mod_eq_of_lt hn]
    unfold makeHeader
    dsimp only
    rw [hsize _ (by omega), hsize _ (by omega), ← hsignature, hsize _ (by omega),
      hsize _ (by omega), htotal]

def SameFields (c d : CacheContext host) : Prop :=
  (c.targetTriple = d.targetTriple ∧ c.cpuName = d.cpuName ∧ c.cpuFeatures = d.cpuFeatures) ∧
    c.cacheKey = d.cacheKey ∧ c.llvmVersion = d.llvmVersion ∧ c.uwvmAbi = d.uwvmAbi ∧
      c.codegenPolicy = d.codegenPolicy

theorem sameFields_iff :
    makeIsaMetadata c = makeIsaMetadata d ∧ makeContextMetadata c = makeContextMetadata d ↔
      SameFields c d := by
  rw [makeIsaMetadata_eq_iff, makeContextMetadata_eq_iff]
  rfl

/-- Both metadata are equal exactly if the fields in them are, and a file built for one context
passes the comparisons for another one only then. -/
theorem no_cache_confusion (sign : Signer host) (c d : CacheContext host) :
    (makeIsaMetadata c = makeIsaMetadata d ∧ makeContextMetadata c = makeContextMetadata d ↔
      SameFields c d) ∧
    ∀ object policy blob initial view, buildCacheBlob sign c object policy = pure blob →
      parseCacheBlob host blob initial = (.ok, view) →
      metadataEqual blob view.isaMetadata view.header.isaMetadataSize (makeIsaMetadata d) =
        some true →
      metadataEqual blob view.contextMetadata view.header.contextMetadataSize
        (makeContextMetadata d) = some true →
      SameFields c d := by
  refine ⟨sameFields_iff, fun object policy blob initial view hbuild hparse hisa hcontext =>
    sameFields_iff.mp ?_⟩
  cases object with
  | none => cases hbuild
  | some object =>
    obtain ⟨compression, signature, payload, built⟩ := built_of_build hbuild
    obtain ⟨header, accepted⟩ := parseCacheBlob_ok_iff.mp hparse
    have stored := built.stored accepted
    obtain ⟨first, hfirst, hread⟩ := stored.isaMetadata
    obtain ⟨first', hfirst', hread'⟩ := stored.contextMetadata
    rw [hfirst, metadataEqual_eq hread, Option.some.injEq] at hisa
    rw [hfirst', metadataEqual_eq hread', Option.some.injEq] at hcontext
    exact ⟨of_decide_eq_true hisa, of_decide_eq_true hcontext⟩

-- What is read

theorem decompressPayload_makePayload {kind compression : CompressionKind} {payload : List UInt8}
    (h : makePayload host kind object.bytes = pure (compression, payload)) :
    decompressPayload host compression payload object.bytes.length = some (some object.bytes) ∧
      CompressionKind.ofCode compression.code = compression := by
  have hraw : decompressPayload host .none object.bytes object.bytes.length =
      some (some object.bytes) ∧
      CompressionKind.ofCode CompressionKind.none.code = .none := ⟨if_neg (not_not.mpr rfl), rfl⟩
  obtain ⟨compressed, hcompress, h⟩ := build_bind_eq_pure h
  split at h
  · cases h
    exact hraw
  · cases h
    cases kind with
    | none =>
      cases hcompress
      exact hraw
    | uwvmLzss =>
      obtain ⟨writer, _, hwriter, hdecompress, _⟩ := decompress_compressLzss host object.bytes
      rw [compressObject, hwriter] at hcompress
      cases hcompress
      rw [decompressPayload, hdecompress]
      exact ⟨rfl, rfl⟩
    | uwvmNativeLz =>
      obtain ⟨compressed, hnative, hdecompress⟩ :=
        decompress_compressNativeLz object.length_le_sizeMax
      rw [compressObject, hnative] at hcompress
      cases hcompress
      rw [decompressPayload, hdecompress]
      exact ⟨rfl, rfl⟩
    | unknown code => cases hcompress

/-- A file that is built and fits into memory is accepted, its views tile it, its metadata are
accepted for the same context, and its payload decompresses to the object. -/
theorem cache_blob_faithful (sign : Signer host) (ctx : CacheContext host)
    (object : ByteString host) (policy : CachePolicy) (initial : CacheBlobView)
    (hbuild : buildCacheBlob sign ctx (some object) policy = pure blob)
    (hmemory : blob.length ≤ host.sizeMax) :
    ∃ view parts, parseCacheBlob host blob initial = (.ok, view) ∧
      view.parts = some parts ∧ Tiles parts 0 blob.length ∧
      metadataEqual blob view.isaMetadata view.header.isaMetadataSize (makeIsaMetadata ctx) =
        some true ∧
      metadataEqual blob view.contextMetadata view.header.contextMetadataSize
        (makeContextMetadata ctx) = some true ∧
      ∃ first payload, view.payload = some first ∧
        read blob first (host.toSize view.header.payloadSize) = some payload ∧
        decompressPayload host (.ofCode view.header.compression) payload
          (host.toSize view.header.uncompressedSize) = some (some object.bytes) := by
  obtain ⟨compression, signature, payload, built⟩ := built_of_build hbuild
  obtain ⟨view, accepted⟩ := built.accepted hmemory
  obtain ⟨parts, hparts, htiles⟩ := accepted.tiles
  have stored := built.stored accepted
  obtain ⟨first, hfirst, hread⟩ := stored.isaMetadata
  obtain ⟨first', hfirst', hread'⟩ := stored.contextMetadata
  obtain ⟨at', hat, hpayload⟩ := stored.payload
  refine ⟨view, parts, parseCacheBlob_ok_iff.mpr ⟨_, accepted⟩, hparts, htiles, ?_, ?_, at',
    payload, hat, ?_, ?_⟩
  · rw [hfirst, metadataEqual_eq hread, decide_eq_true rfl]
  · rw [hfirst', metadataEqual_eq hread', decide_eq_true rfl]
  · rwa [toSize_eq]
    have := accepted.length
    rw [stored.header_eq]
    omega
  · obtain ⟨hdecompress, hcode⟩ := decompressPayload_makePayload built.payload_eq
    have hcompression : view.header.compression = compression.code := by
      rw [stored.header_eq]
      rfl
    have hsize : host.toSize view.header.uncompressedSize = object.bytes.length := by
      rw [stored.header_eq]
      show (BitVec.ofNat 64 object.bytes.length).toNat % 2 ^ host.sizeBits = _
      have hle := object.length_le_sizeMax
      have hpos : 0 < 2 ^ host.sizeBits := Nat.two_pow_pos _
      unfold Host.sizeMax at hle
      rw [BitVec.toNat_ofNat, Nat.mod_eq_of_lt object.length_lt_two_pow,
        Nat.mod_eq_of_lt (by omega)]
    rw [hcompression, hcode, hsize]
    exact hdecompress

-- A compressed and signed object

def host64 : Host := ⟨64, by decide, by decide⟩

def filledContext : CacheContext host64 where
  cacheDir := ⟨utf8 "/cache", by decide⟩
  cacheKey := ⟨utf8 "k1", by decide⟩
  targetTriple := ⟨utf8 "x86_64", by decide⟩
  cpuName := ⟨utf8 "znver4", by decide⟩
  cpuFeatures := ⟨utf8 "+avx2", by decide⟩
  llvmVersion := ⟨utf8 "22", by decide⟩
  uwvmAbi := ⟨utf8 "2", by decide⟩
  codegenPolicy := ⟨utf8 "O3", by decide⟩
  signatureSeed := Vector.replicate 32 1
  hasSignatureSeed := true
  cacheKeyIsComplete := true

def signedPolicy : CachePolicy where
  enable := true
  generateSignature := true
  verifySignature := true
  compression := .uwvmLzss
  maxObjectBytes := 512

def repeated : ByteString host64 := ⟨replicate 16 7, by decide⟩

/-- The seed and the payload stand for a signature. -/
def signWithSeed : Signer host64 := fun ctx _ _ _ payload =>
  some ((ctx.signatureSeed.toList ++ payload ++ ctx.signatureSeed.toList).take 64)

/-- A literal and a match of fifteen bytes. -/
def repeatedPayload : List UInt8 := [2, 7, 0, 0xc0]

def signedHeader : CacheFixedHeader :=
  makeHeader filledContext repeated.bytes repeatedPayload .uwvmLzss true

def signedBlob : List UInt8 :=
  serializeFixedHeader signedHeader ++ makeIsaMetadata filledContext ++
    makeContextMetadata filledContext ++
    (replicate 32 1 ++ repeatedPayload ++ replicate 28 1) ++ repeatedPayload

theorem cache_blob_faithful_signed :
    buildCacheBlob signWithSeed filledContext (some repeated) signedPolicy = pure signedBlob ∧
    ∃ view parts, parseCacheBlob host64 signedBlob ⟨signedHeader, none, none, none, none⟩ =
        (.ok, view) ∧ view.parts = some parts ∧ Tiles parts 0 signedBlob.length ∧
      metadataEqual signedBlob view.isaMetadata view.header.isaMetadataSize
        (makeIsaMetadata filledContext) = some true ∧
      metadataEqual signedBlob view.contextMetadata view.header.contextMetadataSize
        (makeContextMetadata filledContext) = some true ∧
      ∃ first payload, view.payload = some first ∧
        read signedBlob first (host64.toSize view.header.payloadSize) = some payload ∧
        decompressPayload host64 (.ofCode view.header.compression) payload
          (host64.toSize view.header.uncompressedSize) = some (some repeated.bytes) := by
  have hcompress : compressLzss host64 repeated.bytes = some repeatedPayload := by decide
  have hbuild : buildCacheBlob signWithSeed filledContext (some repeated) signedPolicy =
      pure signedBlob := by
    simp only [buildCacheBlob, makePayload, compressObject, signedPolicy, hcompress]
    rfl
  have hmemory : signedBlob.length ≤ host64.sizeMax := by
    simp only [signedBlob, length_append, length_serializeFixedHeader, makeIsaMetadata,
      makeContextMetadata, appendKeyValueBytes, appendU64Leb128]
    unfold Leb128.put
    decide
  exact ⟨hbuild, cache_blob_faithful _ _ _ _ _ hbuild hmemory⟩

end Uwvm2.JitCache
