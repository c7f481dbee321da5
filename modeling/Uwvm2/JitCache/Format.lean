import Uwvm2.Lib.ByteWord
import Uwvm2.Lib.Leb128
import Uwvm2.Lib.Region

/-!
# The file format of the LLVM JIT cache

A cache file is a fixed header of 64 bytes, the ISA metadata, the context metadata, a signature and
the payload. The sizes of the four parts stand in the header.
-/

namespace Uwvm2.JitCache

open ByteWord

/-- The machine on which the cache runs, known by the width of `std::size_t`. -/
structure Host where
  sizeBits : Nat
  sizeBits_ge : 16 ≤ sizeBits
  sizeBits_le : sizeBits ≤ 64

def Host.sizeMax (host : Host) : Nat := 2 ^ host.sizeBits - 1

/-- Bytes in memory. No object is larger than the greatest `std::ptrdiff_t`. -/
structure ByteString (host : Host) where
  bytes : List UInt8
  length_lt : bytes.length < 2 ^ (host.sizeBits - 1)

@[ext] theorem ByteString.ext {host : Host} {a b : ByteString host} (h : a.bytes = b.bytes) :
    a = b := by
  cases a
  cases b
  cases h
  rfl

variable {host : Host}

theorem ByteString.length_lt_two_pow (s : ByteString host) : s.bytes.length < 2 ^ 64 :=
  Nat.lt_of_lt_of_le s.length_lt
    (Nat.pow_le_pow_right (by decide) (by have := host.sizeBits_le; omega))

theorem ByteString.length_le_sizeMax (s : ByteString host) : s.bytes.length ≤ host.sizeMax := by
  have hlt := s.length_lt
  have hpow : 2 ^ (host.sizeBits - 1) ≤ 2 ^ host.sizeBits :=
    Nat.pow_le_pow_right (by decide) (by omega)
  unfold Host.sizeMax
  omega

def utf8 (s : String) : List UInt8 := s.toUTF8.data.toList

inductive CacheStatus
  | ok
  | disabled
  | ioError
  | malformed
  | invalidMagic
  | unsupportedVersion
  | isaMismatch
  | contextMismatch
  | signatureMissing
  | signatureMismatch
  | unsupportedSignature
  | unsupportedCompression
  | decompressionFailed
  | sizeLimitExceeded
  deriving DecidableEq, Repr

structure CacheContext (host : Host) where
  cacheDir : ByteString host
  cacheKey : ByteString host
  targetTriple : ByteString host
  cpuName : ByteString host
  cpuFeatures : ByteString host
  llvmVersion : ByteString host
  uwvmAbi : ByteString host
  codegenPolicy : ByteString host
  signatureSeed : Vector UInt8 32
  hasSignatureSeed : Bool
  cacheKeyIsComplete : Bool

structure CacheFixedHeader where
  magic : List UInt8
  magic_length : magic.length = 8
  version : BitVec 32
  fixedHeaderSize : BitVec 32
  compression : BitVec 32
  signature : BitVec 32
  uncompressedSize : BitVec 64
  payloadSize : BitVec 64
  isaMetadataSize : BitVec 64
  contextMetadataSize : BitVec 64
  signatureSize : BitVec 64

/-- What the parser fills in. A pointer into the file is the number of bytes before it; `none` is
the null pointer. -/
structure CacheBlobView where
  header : CacheFixedHeader
  isaMetadata : Option Nat
  contextMetadata : Option Nat
  signature : Option Nat
  payload : Option Nat

def cacheProductName : List UInt8 := utf8 "uwvm2"

def cacheMagic : List UInt8 := [0x55, 0x57, 0x56, 0x4D, 0x4C, 0x4A, 0x43, 0x01]

def cacheFormatVersion : BitVec 32 := 5

def cacheFixedHeaderSize : Nat := 64

def cacheEd25519SignatureSize : Nat := 64

-- Metadata

/-- `append_le`, for a value of `width` bytes. -/
def appendLe (width : Nat) (out : List UInt8) (value : Nat) : List UInt8 :=
  out ++ ByteWord.bytes width value

def appendU64Leb128 (out : List UInt8) (v : BitVec 64) : List UInt8 := out ++ Leb128.put v.toNat

def appendKeyValueBytes (out key value : List UInt8) : List UInt8 :=
  let out := appendU64Leb128 out (BitVec.ofNat 64 key.length)
  let out := out ++ key
  let out := appendU64Leb128 out (BitVec.ofNat 64 value.length)
  out ++ value

def makeIsaMetadata (ctx : CacheContext host) : List UInt8 :=
  let out := appendKeyValueBytes [] (utf8 "target") ctx.targetTriple.bytes
  let out := appendKeyValueBytes out (utf8 "cpu") ctx.cpuName.bytes
  appendKeyValueBytes out (utf8 "features") ctx.cpuFeatures.bytes

def makeContextMetadata (ctx : CacheContext host) : List UInt8 :=
  let out := appendKeyValueBytes [] (utf8 "product") cacheProductName
  let out := appendKeyValueBytes out (utf8 "key") ctx.cacheKey.bytes
  let out := appendKeyValueBytes out (utf8 "llvm") ctx.llvmVersion.bytes
  let out := appendKeyValueBytes out (utf8 "uwvm_abi") ctx.uwvmAbi.bytes
  appendKeyValueBytes out (utf8 "codegen") ctx.codegenPolicy.bytes

/-- `metadata_equal`, with `none` for a comparison that reads outside the file. -/
def metadataEqual (file : List UInt8) (first : Option Nat) (n : BitVec 64) (expected : List UInt8) :
    Option Bool :=
  if n.toNat ≠ expected.length then some false
  else if n = 0 then some true
  else do
    let stored ← Region.read file (← first) n.toNat
    return stored = expected

-- The fixed header

def serializeFixedHeader (header : CacheFixedHeader) : List UInt8 :=
  header.magic ++ ByteWord.bytes 4 header.version.toNat ++
    ByteWord.bytes 4 header.fixedHeaderSize.toNat ++
    ByteWord.bytes 4 header.compression.toNat ++ ByteWord.bytes 4 header.signature.toNat ++
    ByteWord.bytes 8 header.uncompressedSize.toNat ++ ByteWord.bytes 8 header.payloadSize.toNat ++
    ByteWord.bytes 8 header.isaMetadataSize.toNat ++
      ByteWord.bytes 8 header.contextMetadataSize.toNat ++
    ByteWord.bytes 8 header.signatureSize.toNat

def parseFixedHeader (file : List UInt8) : Option CacheFixedHeader :=
  if h : file.length < cacheFixedHeaderSize then none
  else some {
    magic := file.take 8
    magic_length := List.length_take_of_le (by unfold cacheFixedHeaderSize at h; omega)
    version := BitVec.ofNat 32 (at_ file 8 4)
    fixedHeaderSize := BitVec.ofNat 32 (at_ file 12 4)
    compression := BitVec.ofNat 32 (at_ file 16 4)
    signature := BitVec.ofNat 32 (at_ file 20 4)
    uncompressedSize := BitVec.ofNat 64 (at_ file 24 8)
    payloadSize := BitVec.ofNat 64 (at_ file 32 8)
    isaMetadataSize := BitVec.ofNat 64 (at_ file 40 8)
    contextMetadataSize := BitVec.ofNat 64 (at_ file 48 8)
    signatureSize := BitVec.ofNat 64 (at_ file 56 8) }

-- The parser

def Host.toSize (host : Host) (n : BitVec 64) : Nat := n.toNat % 2 ^ host.sizeBits

/-- `checked_add`, with the new value of its first argument if it succeeds. -/
def checkedAdd (host : Host) (v : Nat) (add : BitVec 64) : Option Nat :=
  if host.sizeMax < add.toNat then none
  else if host.sizeMax - host.toSize add < v then none
  else some ((v + host.toSize add) % 2 ^ host.sizeBits)

def parseCacheBlob (host : Host) (file : List UInt8) (view : CacheBlobView) :
    CacheStatus × CacheBlobView :=
  match parseFixedHeader file with
  | none => (.malformed, view)
  | some header =>
    let view := { view with header := header }
    if header.magic ≠ cacheMagic then (.invalidMagic, view)
    else if header.version ≠ cacheFormatVersion ∨
      header.fixedHeaderSize.toNat ≠ cacheFixedHeaderSize then
      (.unsupportedVersion, view)
    else
      let total := do
        let total ← checkedAdd host cacheFixedHeaderSize header.isaMetadataSize
        let total ← checkedAdd host total header.contextMetadataSize
        let total ← checkedAdd host total header.signatureSize
        checkedAdd host total header.payloadSize
      match total with
      | none => (.malformed, view)
      | some total =>
        if file.length ≠ total then (.malformed, view)
        else
          let isaMetadata := cacheFixedHeaderSize
          let contextMetadata := isaMetadata + host.toSize header.isaMetadataSize
          let signature := contextMetadata + host.toSize header.contextMetadataSize
          let payload := signature + host.toSize header.signatureSize
          (.ok, { view with
            isaMetadata := some isaMetadata
            contextMetadata := some contextMetadata
            signature := some signature
            payload := some payload })

end Uwvm2.JitCache
