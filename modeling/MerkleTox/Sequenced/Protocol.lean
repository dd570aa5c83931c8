import MerkleTox.Library.AssocMap
import MerkleTox.Proto.MessagePack

/-! # Packets, constants and envelopes of the sequenced transport

The data that two sessions exchange, with the numeric limits of
`tox_sequenced::protocol`. Message ids are wrapping 32-bit words; fragment
indices and counts are natural numbers, reduced modulo `2 ^ 16` where the source
computes with `u16` and the reduction can matter.
-/

namespace MerkleTox.Sequenced

open Proto

/-- `FlatMap`: a map in insertion order. -/
abbrev FlatMap := Library.AssocMap

/-- `MessageId(u32)`. -/
abbrev MessageId := BitVec 32

/-- A monotonic clock reading in nanoseconds. -/
abbrev Instant := Int

/-- A duration in nanoseconds. -/
abbrev Duration := Nat

def fromSecs (secs : Nat) : Duration := secs * 1000000000

def fromMillis (millis : Nat) : Duration := millis * 1000000

/-- `now.saturating_duration_since(earlier)`. -/
def durationSince (now earlier : Instant) : Duration := (now - earlier).toNat

def maxToxPacketSize : Nat := 1373
def minTransportSlots : Nat := 32
def maxTotalReassemblyBuffer : Nat := 16 * 1024 * 1024
def estimatedPayloadSize : Nat := 1300
def maxMessageSize : Nat := 1024 * 1024
def maxFragmentsPerMessage : Nat := 1024
def bitsetWords : Nat := 16
def maxConcurrentOutgoing : Nat := minTransportSlots
def maxConcurrentIncoming : Nat := minTransportSlots
def maxCompletedIncoming : Nat := 1024
def maxDatagramQueue : Nat := 128
def reassemblyTimeout : Duration := fromSecs 30
def packetOverhead : Nat := 20
def delayedAckTimeout : Duration := fromMillis 40

inductive Priority
  | critical | high | standard | low | bulk
  deriving DecidableEq, Repr

instance instNeZeroFive : NeZero 5 := ⟨by decide⟩

/-- `priority as u8`, the level of the scheduler. -/
def Priority.level : Priority → Fin 5
  | .critical => 0 | .high => 1 | .standard => 2 | .low => 3 | .bulk => 4

/-- High-level message types, declared in the order of their wire codes from `0x01`. -/
inductive MessageType
  | capsAnnounce | capsAck | syncHeads | fetchBatchReq | merkleNode | blobQuery | blobAvail
  | blobReq | blobData | syncSketch | syncReconFail | syncShardChecksums | handshakeError
  | syncRateLimited | keywrapAck | reinclusionRequest | reinclusionResponse | reconPowChallenge
  | reconPowSolution | adminGossip
  deriving DecidableEq, Repr

namespace MessageType

/-- The `repr(u8)` discriminant. -/
def code : MessageType → UInt8
  | capsAnnounce => 0x01 | capsAck => 0x02 | syncHeads => 0x03 | fetchBatchReq => 0x04
  | merkleNode => 0x05 | blobQuery => 0x06 | blobAvail => 0x07 | blobReq => 0x08
  | blobData => 0x09 | syncSketch => 0x0A | syncReconFail => 0x0B | syncShardChecksums => 0x0C
  | handshakeError => 0x0D | syncRateLimited => 0x0E | keywrapAck => 0x0F
  | reinclusionRequest => 0x10 | reinclusionResponse => 0x11 | reconPowChallenge => 0x12
  | reconPowSolution => 0x13 | adminGossip => 0x14

def ofCode : Nat → Option MessageType
  | 0x01 => some capsAnnounce | 0x02 => some capsAck | 0x03 => some syncHeads
  | 0x04 => some fetchBatchReq | 0x05 => some merkleNode | 0x06 => some blobQuery
  | 0x07 => some blobAvail | 0x08 => some blobReq | 0x09 => some blobData
  | 0x0A => some syncSketch | 0x0B => some syncReconFail | 0x0C => some syncShardChecksums
  | 0x0D => some handshakeError | 0x0E => some syncRateLimited | 0x0F => some keywrapAck
  | 0x10 => some reinclusionRequest | 0x11 => some reinclusionResponse
  | 0x12 => some reconPowChallenge | 0x13 => some reconPowSolution | 0x14 => some adminGossip
  | _ => none

def priority : MessageType → Priority
  | capsAnnounce | capsAck => .critical
  | syncHeads | fetchBatchReq => .high
  | syncSketch | syncReconFail | syncShardChecksums | syncRateLimited | reconPowChallenge
  | reconPowSolution => .high
  | handshakeError | keywrapAck => .high
  | merkleNode => .standard
  | blobQuery | blobAvail | blobReq => .low
  | blobData => .bulk
  | reinclusionRequest | reinclusionResponse => .high
  | adminGossip => .high

@[simp]
theorem ofCode_code (messageType : MessageType) :
    ofCode messageType.code.toNat = some messageType := by
  cases messageType <;> rfl

theorem code_lt (messageType : MessageType) : messageType.code.toNat < 128 := by
  cases messageType <;> decide

end MessageType

/-- A cumulative base index, and a mask of the fragments behind it. -/
structure SelectiveAck where
  messageId : MessageId
  baseIndex : Nat
  bitmask : BitVec 64
  rwnd : Nat
  deriving DecidableEq

structure Nack where
  messageId : MessageId
  missingIndices : List Nat
  deriving DecidableEq

/-- A raw packet of the lossy transport. -/
inductive Packet
  | data (messageId : MessageId) (fragmentIndex totalFragments : Nat) (data : Bytes)
  | ack (ack : SelectiveAck)
  | nack (nack : Nack)
  | ping (t1 : Int)
  | pong (t1 t2 t3 : Int)
  | datagram (messageType : MessageType) (data : Bytes)
  deriving DecidableEq

inductive SequencedError
  | messageTooLarge
  | serializationError (message : String)
  | queueFull
  | invalidFragmentIndex
  | invalidMtu
  | invalidTotalFragments
  deriving DecidableEq, Repr

inductive SessionEvent
  | messageCompleted (messageId : MessageId) (messageType : MessageType) (payload : Bytes)
  | messageFailed (messageId : MessageId) (reason : String)
  | messageAcked (messageId : MessageId)
  | readyToSend
  | congestionWindowChanged (cwnd : Nat)
  deriving DecidableEq

/-- The message envelope, borrowed for sending and owned after reassembly. -/
structure Envelope where
  messageType : MessageType
  payload : Bytes
  deriving DecidableEq

/-- `serialize(&OutboundEnvelope)`: a two-element array. -/
def Envelope.serialize (envelope : Envelope) : Bytes :=
  writeArrayLen 2 ++ writeU8 envelope.messageType.code ++ writeBin envelope.payload

/-- `deserialize::<InboundEnvelope>`: further array elements are skipped, bytes
behind the array are ignored. -/
def Envelope.deserialize (input : Bytes) : Option Envelope := do
  let (len, rest) ← readArrayLen input
  if len < 2 then none
  let ((idx, enumLen), rest) ← readEnumHeader rest
  let messageType ← MessageType.ofCode idx
  if enumLen ≠ 1 then none
  let (payload, rest) ← readBin rest
  let _ ← skipValues rest (len - 2)
  some ⟨messageType, payload⟩

/-- The message type read off the first bytes of fragment 0. -/
def peekMessageType : Bytes → Option MessageType
  | 0x92 :: code :: _ => MessageType.ofCode code.toNat
  | _ => none

/-- What a sender wraps, the receiver unwraps. -/
theorem Envelope.deserialize_serialize (envelope : Envelope)
    (hlen : envelope.payload.length < 2 ^ 32) :
    deserialize envelope.serialize = some envelope := by
  have hbin := readBin_writeBin_append envelope.payload [] hlen
  have hcode := envelope.messageType.code_lt
  rw [List.append_nil] at hbin
  simp [deserialize, serialize, writeArrayLen, writeU8, hcode, readArrayLen, readMarker, readByte,
    readEnumHeader, Marker.ofByte, hbin, skipValues, skipValues.go]

theorem Envelope.serialize_length_pos (envelope : Envelope) : 0 < envelope.serialize.length := by
  simp [serialize, writeArrayLen]

/-- The wrapping only adds bytes, so a bounded message has a bounded payload. -/
theorem Envelope.payload_length_le (envelope : Envelope) :
    envelope.payload.length ≤ envelope.serialize.length := by
  simp only [serialize, writeBin, List.length_append]
  omega

end MerkleTox.Sequenced
