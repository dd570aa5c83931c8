import Mathlib.Data.Nat.Log
import MerkleTox.Fs.Opaque
import MerkleTox.Wire.Content

/-! # Packing nodes for the wire

`MerkleNode::pack_wire` and the two ways to unpack. The payload is the timestamp, the content
and the metadata of a node, compressed if that makes it shorter, and padded. An exception node
is sent as it is; for the others the payload is encrypted with the key of the message, and the
sequence number with the key of the header.
-/

namespace MerkleTox.Wire

open Proto MerkleTox.Core

/-- BLAKE3, zstd and the ciphers. -/
class WireCrypto where
  blake3 : Bytes → Bytes32
  /-- `zstd::encode_all` at level 3. -/
  compress : Bytes → Option Bytes
  /-- `zstd::decode_all`. -/
  decompress : Bytes → Option Bytes
  /-- `ChaCha20::new(key, nonce)` and `apply_keystream`. -/
  applyKeystream : MessageKey → Bytes → Bytes → Bytes
  /-- `ChaCha20Poly1305` with key, nonce, associated data and plaintext: ciphertext and tag. -/
  encryptDetached : HeaderKey → Bytes → Bytes → Bytes → Bytes × Bytes
  /-- The same with key, nonce, associated data, ciphertext and tag. -/
  decryptDetached : HeaderKey → Bytes → Bytes → Bytes → Bytes → Option Bytes
  /-- `derive_key("merkle-tox v1 hint", k_msg)`. -/
  deriveHint : MessageKey → Bytes32

inductive UnpackError
  | invalidWirePayloadSize (actual expectedMin : Nat)
  | invalidPadding (message : String)
  | decompressionFailed
  | content
  deriving DecidableEq, Repr

def minPaddingBin : Nat := 128

/-- `Vec::resize` with zeros. -/
def resize (data : Bytes) (len : Nat) : Bytes :=
  data.take len ++ List.replicate (len - data.length) 0

/-- A `0x80` and zeros up to the next power of two. -/
def applyPadding (data : Bytes) : Bytes :=
  let data := data ++ [0x80]
  resize data (max (2 ^ Nat.clog 2 data.length) minPaddingBin)

def removePadding (data : Bytes) : Except String Bytes :=
  match Fs.removePadding data with
  | some data => .ok data
  | none =>
      if data.all (· = 0) then .error "No non-zero bytes found (invalid padding)"
      else .error "Last non-zero byte is not 0x80"

/-- The 12 bytes of a nonce. -/
def nonceBytes (nonce : Bytes32) : Bytes := (Bytes32.toBytes nonce).take 12

variable [WireCrypto]

/-- `MerkleNode::hash`. -/
def hashNode (node : MerkleNode) : NodeHash := ⟨WireCrypto.blake3 (writeNode node)⟩

def computeSenderHint (kMsg : MessageKey) : BitVec 32 :=
  BitVec.ofNat 32 (fromBe ((Bytes32.toBytes (WireCrypto.deriveHint kMsg)).take 4))

/-- `encrypt_routing_aead`, the tag behind the ciphertext. -/
def encryptRoutingAead (kHeader : HeaderKey) (nonce : Bytes) (seq : BitVec 64) (aad : Bytes32) :
    Bytes :=
  let (buffer, tag) :=
    WireCrypto.encryptDetached kHeader nonce (Bytes32.toBytes aad) (toBe 8 seq.toNat)
  buffer ++ tag

def decryptRoutingAead (kHeader : HeaderKey) (nonce ciphertext : Bytes) (aad : Bytes32) :
    Option (BitVec 64) := do
  if ciphertext.length ≠ 24 then none
  let buffer ← WireCrypto.decryptDetached kHeader nonce (Bytes32.toBytes aad)
    (ciphertext.take 8) (ciphertext.drop 8)
  if buffer.length = 8 then some (BitVec.ofNat 64 (fromBe buffer)) else none

/-- Timestamp, content and metadata. -/
def payloadOf (node : MerkleNode) : Bytes :=
  toBe 8 (ofSigned 8 node.networkTimestamp) ++ writeContent node.content ++ node.metadata

/-- The payload before padding, with its flags. -/
def compressPayload (payload : Bytes) (useCompression : Bool) : Bytes × BitVec 32 :=
  if useCompression then
    match WireCrypto.compress payload with
    | some compressed =>
        if compressed.length < payload.length then (compressed, 1) else (payload, 0)
    | none => (payload, 0)
  else (payload, 0)

/-- `pack_wire`. -/
def packWire (node : MerkleNode) (keys : PackKeys) (useCompression : Bool) : WireNode :=
  let (payload, flags) := compressPayload (payloadOf node) useCompression
  let payloadData := applyPadding payload
  match keys with
  | .exception =>
      { parents := node.parents
        senderHint := 0
        encryptedRouting :=
          Bytes32.toBytes node.senderPk.bytes ++ toBe 8 node.sequenceNumber.toNat
        payloadData := payloadData
        topologicalRank := node.topologicalRank
        flags := flags
        authentication := node.authentication }
  | .content ck =>
      let payloadNonce := nonceBytes ck.payloadNonce
      let encryptedPayload :=
        payloadNonce ++ WireCrypto.applyKeystream ck.kMsg payloadNonce payloadData
      let payloadHash := WireCrypto.blake3 encryptedPayload
      let routingNonce := nonceBytes ck.routingNonce
      { parents := node.parents
        senderHint := computeSenderHint ck.kMsg
        encryptedRouting := routingNonce ++
          encryptRoutingAead ck.kHeader routingNonce node.sequenceNumber payloadHash
        payloadData := encryptedPayload
        topologicalRank := node.topologicalRank
        flags := flags ||| 2
        authentication := node.authentication }

/-- `try_decrypt_routing`: the sequence number, if the key of the header is the right one. -/
def tryDecryptRouting (wire : WireNode) (kHeader : HeaderKey) : Option (BitVec 64) :=
  if wire.encryptedRouting.length ≠ 36 then none
  else
    decryptRoutingAead kHeader (wire.encryptedRouting.take 12) (wire.encryptedRouting.drop 12)
      (WireCrypto.blake3 wire.payloadData)

def decompressPayload (wire : WireNode) (payloadData : Bytes) : Except UnpackError Bytes :=
  if Fs.isCompressed wire then
    match WireCrypto.decompress payloadData with
    | some payloadData => .ok payloadData
    | none => .error .decompressionFailed
  else .ok payloadData

/-- The timestamp, the content and, behind them, the metadata. -/
def readPayload (wire : WireNode) (senderPk : PhysicalDevicePk) (authorPk : LogicalIdentityPk)
    (sequenceNumber : BitVec 64) (payloadData : Bytes) : Except UnpackError MerkleNode :=
  if payloadData.length < 8 then .error (.invalidWirePayloadSize payloadData.length 8)
  else
    match content.read (payloadData.drop 8) with
    | none => .error .content
    | some (content, metadata) =>
        .ok
          { parents := wire.parents
            authorPk := authorPk
            senderPk := senderPk
            sequenceNumber := sequenceNumber
            topologicalRank := wire.topologicalRank
            networkTimestamp := toSigned 8 (fromBe (payloadData.take 8))
            content := content
            metadata := metadata
            authentication := wire.authentication
            powNonce := 0 }

/-- `decode_payload`. -/
def decodePayload (wire : WireNode) (senderPk : PhysicalDevicePk) (authorPk : LogicalIdentityPk)
    (sequenceNumber : BitVec 64) (payloadData : Bytes) : Except UnpackError MerkleNode :=
  match removePadding payloadData with
  | .error message => .error (.invalidPadding ("Invalid padding: " ++ message))
  | .ok payloadData => do
      let payloadData ← decompressPayload wire payloadData
      readPayload wire senderPk authorPk sequenceNumber payloadData

def unpackWireContent (wire : WireNode) (senderPk : PhysicalDevicePk)
    (authorPk : LogicalIdentityPk) (sequenceNumber : BitVec 64) (kMsg : MessageKey) :
    Except UnpackError MerkleNode :=
  if wire.payloadData.length < 12 then
    .error (.invalidWirePayloadSize wire.payloadData.length 12)
  else
    decodePayload wire senderPk authorPk sequenceNumber
      (WireCrypto.applyKeystream kMsg (wire.payloadData.take 12) (wire.payloadData.drop 12))

/-- `unpack_wire_exception`; the author is taken to be the sender. -/
def unpackWireException (wire : WireNode) : Except UnpackError MerkleNode :=
  let routing := wire.encryptedRouting
  if routing.length < 40 then .error (.invalidWirePayloadSize routing.length 40)
  else
    let senderPk : PhysicalDevicePk := ⟨Bytes32.ofBytes (routing.take 32)⟩
    let sequenceNumber := BitVec.ofNat 64 (fromBe ((routing.drop 32).take 8))
    decodePayload wire senderPk senderPk.toLogical sequenceNumber wire.payloadData

end MerkleTox.Wire
