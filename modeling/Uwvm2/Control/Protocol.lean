import Uwvm2.Lib.ByteWord

/-!
# Frames of the control protocol

A frame is a header of 48 bytes and a payload. The decoder collects the bytes of one frame
from any number of reads; an error is kept until it is reset.
-/

namespace Uwvm2.Control

open ByteWord

inductive Error
  | none
  | disabled
  | unsupportedBackend
  | unsupportedMode
  | invalidLaunch
  | unauthorized
  | sameProcess
  | wrongPeer
  | busy
  | closed
  | revoked
  | malformed
  | unsupportedVersion
  | unsupportedCommand
  | oversized
  | truncated
  | wrongInstance
  | staleGeneration
  | replay
  | exhausted
  | unavailableCapability
  | invalidState
  | wrongCompletion
  deriving DecidableEq, Repr

inductive Operation
  | status
  | pause
  | resume
  | step
  | readMemory
  | replaceFunction
  | detach
  | breakpointSet
  | breakpointClear
  | breakpointList
  | backtrace
  | locals
  deriving DecidableEq, Repr

def Operation.ofCode : Nat → Option Operation
  | 1 => some .status
  | 2 => some .pause
  | 3 => some .resume
  | 4 => some .step
  | 5 => some .readMemory
  | 6 => some .replaceFunction
  | 7 => some .detach
  | 8 => some .breakpointSet
  | 9 => some .breakpointClear
  | 10 => some .breakpointList
  | 11 => some .backtrace
  | 12 => some .locals
  | _ => none

def Operation.code : Operation → Nat
  | .status => 1
  | .pause => 2
  | .resume => 3
  | .step => 4
  | .readMemory => 5
  | .replaceFunction => 6
  | .detach => 7
  | .breakpointSet => 8
  | .breakpointClear => 9
  | .breakpointList => 10
  | .backtrace => 11
  | .locals => 12

def headerBytes : Nat := 48

def maxFunctionBodyBytes : Nat := 65536

def maxPayloadBytes : Nat := 32 + maxFunctionBodyBytes

def maxMemoryReadBytes : Nat := 65536

def frameMagic : Nat := 0x31435755

def uint64Max : Nat := 2 ^ 64 - 1

structure FrameHeader where
  command : Operation := .status
  payloadBytes : Nat := 0
  instanceId : List UInt8 := List.replicate 16 0
  generation : Nat := 0
  requestId : Nat := 0
  deriving DecidableEq, Repr

def decodeHeader (input : List UInt8) : Except Error FrameHeader :=
  if input.length < headerBytes then .error .truncated
  else if at_ input 0 4 ≠ frameMagic then .error .malformed
  else if at_ input 4 2 ≠ 1 then .error .unsupportedVersion
  else if at_ input 12 4 ≠ 0 then .error .malformed
  else match Operation.ofCode (at_ input 6 2) with
    | none => .error .unsupportedCommand
    | some command =>
      if maxPayloadBytes < at_ input 8 4 then .error .oversized
      else if at_ input 32 8 = 0 ∨ at_ input 40 8 = 0 then .error .malformed
      else .ok {
        command
        payloadBytes := at_ input 8 4
        instanceId := (input.drop 16).take 16
        generation := at_ input 32 8
        requestId := at_ input 40 8 }

/-- The 48 bytes that `encode_frame` puts before the payload. -/
def encodeHeader (header : FrameHeader) : List UInt8 :=
  ByteWord.bytes 4 frameMagic ++ (ByteWord.bytes 2 1 ++ (ByteWord.bytes 2 header.command.code ++
    (ByteWord.bytes 4 header.payloadBytes ++ (ByteWord.bytes 4 0 ++ (header.instanceId ++
      (ByteWord.bytes 8 header.generation ++ ByteWord.bytes 8 header.requestId))))))

structure EncodeResult where
  status : Error
  written : Nat
  deriving DecidableEq, Repr

/-- The result, and the bytes put into an output that has room for `capacity`. -/
def encodeFrame (header : FrameHeader) (payload : List UInt8) (capacity : Nat) :
    EncodeResult × List UInt8 :=
  if maxPayloadBytes < payload.length then (⟨.oversized, 0⟩, [])
  else if header.generation = 0 ∨ header.requestId = 0 ∨ header.payloadBytes ≠ payload.length then
    (⟨.malformed, 0⟩, [])
  else
    let total := headerBytes + payload.length
    if capacity < total then (⟨.truncated, 0⟩, [])
    else (⟨.none, total⟩, encodeHeader header ++ payload)

/-- The decoder of one frame; `storage` holds the bytes in use. -/
structure FrameDecoder where
  storage : List UInt8 := []
  target : Nat := headerBytes
  decoded : FrameHeader := {}
  failure : Error := .none
  deriving DecidableEq, Repr

namespace FrameDecoder

def used (d : FrameDecoder) : Nat := d.storage.length

def ready (d : FrameDecoder) : Bool :=
  d.failure = .none && d.used = d.target && headerBytes ≤ d.used

def payload (d : FrameDecoder) : List UInt8 :=
  if d.ready then d.storage.drop headerBytes else []

structure FeedResult where
  status : Error
  consumed : Nat
  complete : Bool
  deriving DecidableEq, Repr

/-- The loop of `feed`. Every round consumes a byte, so as many rounds as there are bytes are
enough. -/
def feedLoop : Nat → List UInt8 → Nat → FrameDecoder → FeedResult × FrameDecoder
  | 0, _, consumed, d => (⟨.none, consumed, d.ready⟩, d)
  | rounds + 1, input, consumed, d =>
    if input.isEmpty ∨ d.used = d.target then (⟨.none, consumed, d.ready⟩, d)
    else
      let count := min input.length (d.target - d.used)
      let d := { d with storage := d.storage ++ input.take count }
      if d.used = headerBytes then
        match decodeHeader (d.storage.take headerBytes) with
        | .error failure => (⟨failure, consumed + count, false⟩, { d with failure })
        | .ok decoded =>
          feedLoop rounds (input.drop count) (consumed + count)
            { d with decoded, target := headerBytes + decoded.payloadBytes }
      else feedLoop rounds (input.drop count) (consumed + count) d

def feed (d : FrameDecoder) (input : List UInt8) : FeedResult × FrameDecoder :=
  if d.failure ≠ .none then (⟨d.failure, 0, false⟩, d)
  else if d.ready then (⟨.busy, 0, true⟩, d)
  else feedLoop input.length input 0 d

def finishStream (d : FrameDecoder) : Error × FrameDecoder :=
  if d.failure ≠ .none then (d.failure, d)
  else if d.used ≠ 0 ∧ ¬ d.ready then (.truncated, { d with failure := .truncated })
  else (.none, d)

def reset (d : FrameDecoder) : FrameDecoder :=
  { d with storage := [], target := headerBytes, decoded := {}, failure := .none }

end FrameDecoder

end Uwvm2.Control
