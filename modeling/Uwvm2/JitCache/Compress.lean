import Uwvm2.JitCache.Format
import Uwvm2.Lib.Effect
import Uwvm2.Lib.Loop

/-!
# The compressors of the LLVM JIT cache

LZSS writes literals and matches behind flag bytes, one flag byte for eight of them. Native-LZ
writes sequences of literals and a match, with long lengths continued in more bytes. A read
outside the input or outside the bytes already produced is undefined.
-/

namespace Uwvm2.JitCache

open Effect

def lzssWindowSize : Nat := 4096

def lzssMinMatch : Nat := 3

def lzssMaxMatch : Nat := 18

def nativeLzMinMatch : Nat := 4

def nativeLzMaxOffset : Nat := 65535

/-- The latest position with each hash, or `npos`. -/
abbrev HashTable := BitVec 16 → Nat

def HashTable.empty (host : Host) : HashTable := fun _ => host.sizeMax

def HashTable.insert (table : HashTable) (hash : BitVec 16) (pos : Nat) : HashTable :=
  Function.update table hash pos

/-- `while(len != limit && first[prev + len] == first[pos + len]) { ++len; }`, with the number of
bytes that are left. -/
def extendMatch (first : List UInt8) (prev pos : Nat) : Nat → Nat → Option Nat
  | 0, len => some len
  | left + 1, len => do
    let a ← first[prev + len]?
    let b ← first[pos + len]?
    if a = b then extendMatch first prev pos left (len + 1) else some len

-- LZSS

def lzssHash3 (first : List UInt8) (pos : Nat) : Option (BitVec 16) := do
  let b0 : BitVec 32 := (← first[pos]?).toBitVec.setWidth 32
  let b1 : BitVec 32 := (← first[pos + 1]?).toBitVec.setWidth 32
  let b2 : BitVec 32 := (← first[pos + 2]?).toBitVec.setWidth 32
  let v := (b0 * 251) ^^^ (b1 * 911) ^^^ (b2 * 3571)
  return ((v ^^^ (v >>> 16)) &&& 0xffff).setWidth 16

def lzssToken (offset length : Nat) : Nat :=
  (((length - lzssMinMatch) <<< 12) ||| (offset - 1)) % 2 ^ 16

def appendLzssToken (out : List UInt8) (offset length : Nat) : List UInt8 :=
  appendLe 2 out (lzssToken offset length)

/-- The variables of the compressor. `tokens` has no counterpart in the source: it records distance
and length of the match tokens written so far. -/
structure LzssWriter where
  table : HashTable
  pos : Nat
  out : List UInt8
  tokens : List (Nat × Nat)

/-- `best_len` and `best_offset` at a position, and the table afterwards. -/
def lzssSearch (host : Host) (first : List UInt8) (table : HashTable) (pos : Nat) :
    Option (Nat × Nat × HashTable) :=
  if pos + lzssMinMatch ≤ first.length then do
    let h ← lzssHash3 first pos
    let prev := table h
    let table := table.insert h pos
    if prev ≠ host.sizeMax ∧ prev < pos then
      let offset := pos - prev
      if offset ≤ lzssWindowSize then
        let limit := min lzssMaxMatch (first.length - pos)
        let len ← extendMatch first prev pos limit 0
        if lzssMinMatch ≤ len then some (len, offset, table) else some (0, 0, table)
      else some (0, 0, table)
    else some (0, 0, table)
  else some (0, 0, table)

def lzssHashInside (first : List UInt8) (pos length : Nat) (table : HashTable) : Option HashTable :=
  (List.range (length - 1)).foldlM (fun table i =>
    let k := i + 1
    if pos + k + lzssMinMatch ≤ first.length then do
      return table.insert (← lzssHash3 first (pos + k)) (pos + k)
    else some table) table

def lzssItem (host : Host) (first : List UInt8) : LzssWriter × BitVec 8 → Nat →
    Option (LzssWriter × BitVec 8)
  | (s, flags), bit =>
    if s.pos = first.length then some (s, flags)
    else do
      let (bestLen, bestOffset, table) ← lzssSearch host first s.table s.pos
      if bestLen ≠ 0 then
        let table ← lzssHashInside first s.pos bestLen table
        some ({
          table := table
          pos := s.pos + bestLen
          out := appendLzssToken s.out bestOffset bestLen
          tokens := s.tokens ++ [(bestOffset, bestLen)] }, flags ||| (1#8 <<< bit))
      else
        let b ← first[s.pos]?
        some ({ s with table := table, pos := s.pos + 1, out := s.out ++ [b] }, flags)

def lzssGroup (host : Host) (first : List UInt8) (s : LzssWriter) : Option LzssWriter := do
  let flagPos := s.out.length
  let (s, flags) ← (List.range 8).foldlM (lzssItem host first) ({ s with out := s.out ++ [0] }, 0#8)
  return { s with out := s.out.set flagPos (UInt8.ofBitVec flags) }

/-- The compressor at its end. Each round takes a byte at least. -/
def lzssWriter (host : Host) (first : List UInt8) : Option LzssWriter :=
  Loop.whileSome (fun s => s.pos ≠ first.length) (lzssGroup host first) (first.length + 1)
    { table := .empty host, pos := 0, out := [], tokens := [] }

def compressLzss (host : Host) (first : List UInt8) : Option (List UInt8) :=
  if first.length = 0 then some [] else (lzssWriter host first).map LzssWriter.out

-- Native-LZ

def nativeLzReadU32 (first : List UInt8) (pos : Nat) : Option (BitVec 32) := do
  return BitVec.ofNat 32 (ByteWord.value (← Region.read first pos 4))

def nativeLzHash4 (first : List UInt8) (pos : Nat) : Option (BitVec 16) := do
  let v ← nativeLzReadU32 first pos
  return ((v * 2654435761) >>> 16).setWidth 16

def appendNativeLzLength (out : List UInt8) (len : Nat) : List UInt8 :=
  if 255 ≤ len then appendNativeLzLength (out ++ [255]) (len - 255) else out ++ [UInt8.ofNat len]
termination_by len
decreasing_by omega

/-- `append_native_lz_sequence`; a match is given by its offset and size. -/
def appendNativeLzSequence (out literals : List UInt8) (found : Option (Nat × Nat)) : List UInt8 :=
  let literalToken := min literals.length 15
  let matchToken := match found with
    | some (_, matchSize) => min (matchSize - nativeLzMinMatch) 15
    | none => 0
  let out := out ++ [UInt8.ofNat ((literalToken <<< 4) ||| matchToken)]
  let out := if 15 ≤ literals.length then appendNativeLzLength out (literals.length - 15) else out
  let out := out ++ literals
  match found with
  | none => out
  | some (offset, matchSize) =>
    let out := appendLe 2 out (offset % 2 ^ 16)
    let encodedMatchSize := matchSize - nativeLzMinMatch
    if 15 ≤ encodedMatchSize then appendNativeLzLength out (encodedMatchSize - 15) else out

structure NativeLzWriter where
  table : HashTable
  anchor : Nat
  pos : Nat
  out : List UInt8

def nativeLzFound (host : Host) (first : List UInt8) (prev pos : Nat) : Option Bool :=
  if prev ≠ host.sizeMax ∧ prev < pos ∧ pos - prev ≤ nativeLzMaxOffset then do
    return (← nativeLzReadU32 first prev) = (← nativeLzReadU32 first pos)
  else some false

def nativeLzHashInside (first : List UInt8) (pos matchSize : Nat) (table : HashTable) :
    Option HashTable :=
  (List.range (matchSize - nativeLzMinMatch)).foldlM (fun table i => do
    let p := pos + 1 + i
    return table.insert (← nativeLzHash4 first p) p) table

def nativeLzStep (host : Host) (first : List UInt8) (s : NativeLzWriter) :
    Option NativeLzWriter := do
  let h ← nativeLzHash4 first s.pos
  let prev := s.table h
  let table := s.table.insert h s.pos
  if ← nativeLzFound host first prev s.pos then
    let matchSize ← extendMatch first prev s.pos (first.length - s.pos - nativeLzMinMatch)
      nativeLzMinMatch
    let literals ← Region.read first s.anchor (s.pos - s.anchor)
    let table ← nativeLzHashInside first s.pos matchSize table
    return {
      table := table
      anchor := s.pos + matchSize
      pos := s.pos + matchSize
      out := appendNativeLzSequence s.out literals (some (s.pos - prev, matchSize)) }
  else return { s with table := table, pos := s.pos + 1 }

def compressNativeLz (host : Host) (first : List UInt8) : Option (List UInt8) :=
  if first.length = 0 then some []
  else do
    let s ← Loop.whileSome (fun s => s.pos + nativeLzMinMatch ≤ first.length)
      (nativeLzStep host first)
      (first.length + 1) { table := .empty host, anchor := 0, pos := 0, out := [] }
    if s.anchor ≠ first.length then
      return appendNativeLzSequence s.out
        (← Region.read first s.anchor (first.length - s.anchor)) none
    else return s.out

-- Decoders

/-- The input that is left and the output so far. `largest` has no counterpart in the source: it
is the largest size that the output has had. -/
structure Decoder where
  first : List UInt8
  out : List UInt8
  largest : Nat
  deriving DecidableEq, Repr

/-- A decoder ends early by returning a `bool`. -/
abbrev Decode := Effect Decoder Bool

def Host.sub (host : Host) (a b : Nat) : Nat := if b ≤ a then a - b else 2 ^ host.sizeBits - (b - a)

def nextByte : Decode UInt8 := do
  match (← get).first with
  | [] => throw false
  | b :: rest =>
    modify fun s => { s with first := rest }
    return b

def nextU16 : Decode Nat := do
  require (2 ≤ (← get).first.length) false
  let value := ByteWord.value ((← get).first.take 2)
  modify fun s => { s with first := s.first.drop 2 }
  return value

def appendOut (bytes : List UInt8) : Decode Unit := modify fun s =>
  { s with out := s.out ++ bytes, largest := max s.largest (s.out.length + bytes.length) }

def copyMatch (host : Host) (offset length : Nat) : Decode Unit :=
  times length (fun _ _ => do
    let out := (← get).out
    let b ← demand out[host.sub out.length offset]?
    appendOut [b]) ()

def lzssMatch (host : Host) (expectedSize offset length : Nat) : Decode Unit := do
  require (offset ≠ 0 ∧ offset ≤ (← get).out.length) false
  require (length ≤ host.sub expectedSize (← get).out.length) false
  copyMatch host offset length

def decompressLzssItem (host : Host) (expectedSize : Nat) (flags : BitVec 8) (bit : Nat) :
    Decode Unit := do
  onlyIf ((← get).out.length ≠ expectedSize) do
    if flags &&& (1#8 <<< bit) ≠ 0#8 then
      let token ← nextU16
      lzssMatch host expectedSize ((token &&& 0x0fff) + 1) ((token >>> 12) + lzssMinMatch)
    else
      let b ← nextByte
      appendOut [b]

def decompressLzssGroup (host : Host) (expectedSize : Nat) : Decode Unit := do
  let flags ← nextByte
  times 8 (fun bit _ => decompressLzssItem host expectedSize flags.toBitVec bit) ()

def readNativeLzLength (host : Host) : List UInt8 → Nat → Option (Nat × List UInt8)
  | [], _ => none
  | v :: first, len =>
    if host.sizeMax - v.toNat < len then none
    else if v.toNat ≠ 255 then some (len + v.toNat, first)
    else readNativeLzLength host first (len + v.toNat)

/-- A length whose first part comes from the token. -/
def nextNativeLzLength (host : Host) (short : Nat) (len : Nat) : Decode Nat := do
  if short = 15 then
    match readNativeLzLength host (← get).first len with
    | none => throw false
    | some (len, rest) =>
      modify fun s => { s with first := rest }
      return len
  else return len

def nativeLzLiterals (host : Host) (expectedSize token : Nat) : Decode Unit := do
  let literalSize ← nextNativeLzLength host (token >>> 4) (token >>> 4)
  require (literalSize ≤ (← get).first.length) false
  require (literalSize ≤ host.sub expectedSize (← get).out.length) false
  appendOut ((← get).first.take literalSize)
  modify fun s => { s with first := s.first.drop literalSize }

def nativeLzMatch (host : Host) (expectedSize token : Nat) : Decode Unit := do
  let offset ← nextU16
  require (offset ≠ 0 ∧ offset ≤ (← get).out.length) false
  let matchSize ← nextNativeLzLength host (token &&& 0x0f) (nativeLzMinMatch + (token &&& 0x0f))
  require (matchSize ≤ host.sub expectedSize (← get).out.length) false
  copyMatch host offset matchSize

def decompressNativeLzSequence (host : Host) (expectedSize : Nat) : Decode Unit := do
  let token ← nextByte
  nativeLzLiterals host expectedSize token.toNat
  -- A sequence without a match is the last one.
  onlyIf ((← get).out.length = expectedSize) do throw (decide ((← get).first = []))
  nativeLzMatch host expectedSize token.toNat

def unfinished (expectedSize : Nat) (s : Decoder) : Bool := s.out.length ≠ expectedSize

def decompressLoop (round : Decode Unit) (fuel expectedSize : Nat) : Decode Bool := do
  whileDo (unfinished expectedSize) round fuel
  return decide ((← get).first = [])

/-- A decoder from start to end. Each round of its loop takes a byte of the input at least. -/
def decompress (round : Decode Unit) (input : List UInt8) (expectedSize : Nat) :
    Option (Bool × Decoder) :=
  match exec (decompressLoop round (input.length + 1) expectedSize)
    { first := input, out := [], largest := 0 } with
  | none => none
  | some (.ok result, s) => some (result, s)
  | some (.error result, s) => some (result, s)

def decompressLzss (host : Host) (input : List UInt8) (expectedSize : Nat) :
    Option (Bool × Decoder) :=
  decompress (decompressLzssGroup host expectedSize) input expectedSize

def decompressNativeLz (host : Host) (input : List UInt8) (expectedSize : Nat) :
    Option (Bool × Decoder) :=
  decompress (decompressNativeLzSequence host expectedSize) input expectedSize

end Uwvm2.JitCache
