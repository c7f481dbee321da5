import Uwvm2.JitCache.Blob
import Uwvm2.JitCache.Compress

/-!
# Writing cache files

`build_cache_blob` compresses an object, falls back to the object itself if that does not make it
smaller, and puts header, metadata, signature and payload together.
-/

namespace Uwvm2.JitCache

inductive CompressionKind
  | none
  | uwvmLzss
  | uwvmNativeLz
  | unknown (code : BitVec 32)
  deriving DecidableEq, Repr

def CompressionKind.code : CompressionKind → BitVec 32
  | .none => 0
  | .uwvmLzss => 1
  | .uwvmNativeLz => 2
  | .unknown code => code

def CompressionKind.ofCode (code : BitVec 32) : CompressionKind :=
  if code = 0 then .none else if code = 1 then .uwvmLzss else if code = 2 then .uwvmNativeLz
    else .unknown code

inductive SignatureKind
  | none
  | ed25519Identity
  deriving DecidableEq, Repr

def SignatureKind.code : SignatureKind → BitVec 32
  | .none => 0
  | .ed25519Identity => 1

structure CachePolicy where
  enable : Bool
  generateSignature : Bool
  verifySignature : Bool
  compression : CompressionKind
  maxObjectBytes : Nat

/-- `ed25519_identity_sign`: the signature of a header, both metadata and a payload. -/
abbrev Signer (host : Host) :=
  CacheContext host → List UInt8 → List UInt8 → List UInt8 → List UInt8 → Option (List UInt8)

variable {host : Host}

/-- A function that may return a status other than `ok`. -/
abbrev Build := ExceptT CacheStatus Option

def compressObject (host : Host) (kind : CompressionKind) (object : List UInt8) :
    Build (List UInt8) :=
  match kind with
  | .none => pure object
  | .uwvmLzss => liftM (compressLzss host object)
  | .uwvmNativeLz => liftM (compressNativeLz host object)
  | .unknown _ => throw .unsupportedCompression

def makePayload (host : Host) (kind : CompressionKind) (object : List UInt8) :
    Build (CompressionKind × List UInt8) := do
  let payload ← compressObject host kind object
  -- Storing larger compressed output only slows loads.
  if kind ≠ .none ∧ payload.length ≥ object.length then return (.none, object)
  else return (kind, payload)

def makeHeader (ctx : CacheContext host) (object payload : List UInt8)
    (compression : CompressionKind) (generateSignature : Bool) : CacheFixedHeader where
  magic := cacheMagic
  magic_length := rfl
  version := cacheFormatVersion
  fixedHeaderSize := BitVec.ofNat 32 cacheFixedHeaderSize
  compression := compression.code
  signature := if generateSignature then SignatureKind.ed25519Identity.code
    else SignatureKind.none.code
  uncompressedSize := BitVec.ofNat 64 object.length
  payloadSize := BitVec.ofNat 64 payload.length
  isaMetadataSize := BitVec.ofNat 64 (makeIsaMetadata ctx).length
  contextMetadataSize := BitVec.ofNat 64 (makeContextMetadata ctx).length
  signatureSize := BitVec.ofNat 64 (if generateSignature then cacheEd25519SignatureSize else 0)

def makeSignature (sign : Signer host) (ctx : CacheContext host) (header payload : List UInt8)
    (generateSignature : Bool) : Build (List UInt8) :=
  if generateSignature then
    match sign ctx header (makeIsaMetadata ctx) (makeContextMetadata ctx) payload with
    | none => throw .unsupportedSignature
    | some signature =>
      if signature.length ≠ cacheEd25519SignatureSize then throw .unsupportedSignature
        else pure signature
  else pure []

/-- `build_cache_blob`; the object is `none` for a null pointer with a size that is not zero. -/
def buildCacheBlob (sign : Signer host) (ctx : CacheContext host)
    (object : Option (ByteString host)) (policy : CachePolicy) : Build (List UInt8) :=
  match object with
  | none => throw .malformed
  | some object =>
    if object.bytes.length > policy.maxObjectBytes then throw .sizeLimitExceeded
    else do
      let (compression, payload) ← makePayload host policy.compression object.bytes
      let header := serializeFixedHeader
        (makeHeader ctx object.bytes payload compression policy.generateSignature)
      let signature ← makeSignature sign ctx header payload policy.generateSignature
      return header ++ makeIsaMetadata ctx ++ makeContextMetadata ctx ++ signature ++ payload

def decompressPayload (host : Host) (kind : CompressionKind) (payload : List UInt8)
    (expectedSize : Nat) :
    Option (Option (List UInt8)) :=
  match kind with
  | .none => if payload.length ≠ expectedSize then some none else some (some payload)
  | .uwvmLzss =>
    (decompressLzss host payload expectedSize).map fun r => if r.1 then some r.2.out else none
  | .uwvmNativeLz =>
    (decompressNativeLz host payload expectedSize).map fun r => if r.1 then some r.2.out else none
  | .unknown _ => some none

end Uwvm2.JitCache
