import MerkleTox.Core.Dag

/-! # Primitives of the engine

What the engine takes from outside: hashing, signatures, key derivation, ECIES,
the encodings of nodes and the random generator. The development is parametric
in them; a result that relies on one of their laws names the law.
-/

namespace MerkleTox.Core

open Proto

/-- An Ed25519 signing key, by its seed. -/
structure SigningKey where
  seed : Bytes32
  deriving DecidableEq, Repr

/-- `StdRng`, by its seed and the number of draws made. -/
structure Rng where
  seed : Nat
  position : Nat
  deriving DecidableEq, Repr

structure PackContentKeys where
  kMsg : MessageKey
  kHeader : HeaderKey
  routingNonce : Bytes32
  payloadNonce : Bytes32

inductive PackKeys
  | content (keys : PackContentKeys)
  | exception

class Primitives where
  /-- `MerkleNode::hash`, BLAKE3 of the serialized node. -/
  hash : MerkleNode → NodeHash
  /-- The length of the serialized content. -/
  contentSize : Content → Nat
  /-- `MerkleNode::serialize_for_auth`. -/
  serializeForAuth : MerkleNode → Bytes
  /-- `WireNode::serialize_for_auth`. -/
  wireSerializeForAuth : WireNode → Bytes
  /-- The serialized `DelegationSignData` of a certificate. -/
  delegationSignData : DelegationCertificate → Bytes
  /-- `VerifyingKey::from_bytes(key)` followed by `verify` or `verify_strict`. -/
  verify : Bytes32 → Bytes → Ed25519Signature → Bool
  sign : SigningKey → Bytes → Ed25519Signature
  verifyingKey : SigningKey → Bytes32
  /-- The bytes of a public key as signed in a pre-key. -/
  keyBytes : EphemeralX25519Pk → Bytes
  validatePow : LogicalIdentityPk → NodeHash → Nat → Bool
  validatePowV2 : LogicalIdentityPk → ControlAction → Bool
  /-- `ConversationKeys::derive(k_conv).calculate_mac(data)`. -/
  calculateMac : KConv → Bytes → Bytes32
  ratchetInitSender : KConv → PhysicalDevicePk → ChainKey
  ratchetStep : ChainKey → ChainKey
  ratchetMessageKey : ChainKey → MessageKey
  deriveKHeaderEpoch : KConv → SenderKey → HeaderKey
  deriveKHeaderExport : KConv → HeaderKey
  deriveKPayloadExport : KConv → Bytes32
  deriveLegacyBridgeDedupId : ConversationId → PhysicalDevicePk → String → Nat → NodeHash
  eciesWrap : EphemeralX25519Sk → EphemeralX25519Pk → Option EphemeralX25519Pk →
    Option Bytes32 → Bytes → Bytes
  eciesUnwrap : EphemeralX25519Sk → EphemeralX25519Pk → Option EphemeralX25519Sk →
    Option Bytes32 → Bytes → Option Bytes
  /-- `device_pk_to_x25519`. -/
  devicePkToX25519 : PhysicalDevicePk → EphemeralX25519Pk
  x25519PublicKey : EphemeralX25519Sk → EphemeralX25519Pk
  diffieHellman : EphemeralX25519Sk → EphemeralX25519Pk → Bytes32
  /-- BLAKE3 of a one-time pre-key, its `opk_id`. -/
  opkId : EphemeralX25519Pk → NodeHash
  /-- The next 32 bytes of the generator. -/
  fillBytes : Rng → Bytes32
  packWire : MerkleNode → PackKeys → Option WireNode

export Primitives (hash)

namespace Rng

variable [Primitives]

def next (rng : Rng) : Bytes32 × Rng :=
  (Primitives.fillBytes rng, { rng with position := rng.position + 1 })

end Rng

/-- The 32 bytes of a key. -/
def Bytes32.toBytes (key : Bytes32) : Bytes := toBe 32 key.toNat

def Bytes32.ofBytes (bytes : Bytes) : Bytes32 := BitVec.ofNat 256 (fromBe bytes)

/-- `ecies_unwrap_32`: an unwrapping that must give exactly 32 bytes. -/
def eciesUnwrap32 [Primitives] (spkSk : EphemeralX25519Sk) (ephemeralPk : EphemeralX25519Pk)
    (opkSk : Option EphemeralX25519Sk) (authSecret : Option Bytes32) (ciphertext : Bytes) :
    Option Bytes32 :=
  match Primitives.eciesUnwrap spkSk ephemeralPk opkSk authSecret ciphertext with
  | some plaintext => if plaintext.length = 32 then some (.ofBytes plaintext) else none
  | none => none

end MerkleTox.Core
