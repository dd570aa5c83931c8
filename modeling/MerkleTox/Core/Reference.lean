import MerkleTox.Core.World

/-! # Reference primitives

An idealised instance of the primitives, for evaluating runs: a signature is the key
and a digest of the data, a ciphertext names the key that opens it, and the key
derivations are injective arithmetic on words.
-/

namespace MerkleTox.Core

open Library Proto

namespace Reference

/-- A digest of a list of numbers. -/
def digest (numbers : List Nat) : Nat :=
  numbers.foldl (fun acc number => (acc * 1000003 + number + 1) % 2 ^ 255) 17

def certCode (cert : DelegationCertificate) : Nat :=
  digest [cert.version, cert.conversationId.bytes.toNat, cert.devicePk.bytes.toNat,
    cert.permissions.toNat, cert.expiresAt.toNat]

def actionCode : ControlAction → Nat
  | .genesis _ creatorPk _ flags createdAt _ =>
      digest [1, creatorPk.bytes.toNat, flags.toNat, createdAt.toNat]
  | .setTitle _ => digest [2]
  | .setTopic _ => digest [3]
  | .invite invite => digest [4, invite.inviteePk.bytes.toNat, invite.role]
  | .leave logicalPk => digest [5, logicalPk.bytes.toNat]
  | .authorizeDevice cert => digest [6, certCode cert]
  | .revokeDevice target _ => digest [7, target.bytes.toNat]
  | .announcement preKeys _ => digest [8, preKeys.length]
  | .handshakePulse => digest [9]
  | .snapshot data => digest [10, data.basisHash.bytes.toNat]
  | .anchorSnapshot data cert =>
      digest (11 :: data.basisHash.bytes.toNat :: certCode cert ::
        data.members.map fun member => member.publicKey.bytes.toNat)
  | .softAnchor basisHash cert => digest [12, basisHash.bytes.toNat, certCode cert]

def contentCode : Content → Nat
  | .custom tagId data => digest [1, tagId, data.length]
  | .keyWrap generation _ ephemeralPk wrappedKeys =>
      digest [2, generation, ephemeralPk.bytes.toNat, wrappedKeys.length]
  | .senderKeyDistribution ephemeralPk wrappedKeys ephemeralSigningPk _ =>
      digest [3, ephemeralPk.bytes.toNat, wrappedKeys.length, ephemeralSigningPk.bytes.toNat]
  | .historyExport blobHash blobSize _ ephemeralPk _ =>
      digest [4, blobHash.bytes.toNat, blobSize, ephemeralPk.bytes.toNat]
  | .control action => digest [5, actionCode action]
  | .text text => digest [6, text.length]
  | .blob hash .. => digest [7, hash.bytes.toNat]
  | .location latitude longitude _ => digest [8, latitude.toNat, longitude.toNat]
  | .edit targetHash newText => digest [9, targetHash.bytes.toNat, newText.length]
  | .reaction targetHash _ => digest [10, targetHash.bytes.toNat]
  | .redaction targetHash _ => digest [11, targetHash.bytes.toNat]
  | .legacyBridge sourcePk text messageType _ =>
      digest [12, sourcePk.bytes.toNat, text.length, messageType]
  | .unknown discriminant data => digest [13, discriminant, data.length]

def nodeCode (node : MerkleNode) : Nat :=
  digest ([node.authorPk.bytes.toNat, node.senderPk.bytes.toNat, node.seq,
    node.topologicalRank, node.networkTimestamp.toNat, contentCode node.content] ++
    node.parents.map fun parent => parent.bytes.toNat)

def signature (key : Bytes32) (data : Bytes) : Ed25519Signature :=
  ⟨BitVec.ofNat 512 (key.toNat * 2 ^ 256 + fromBe data)⟩

end Reference

open Reference

instance referencePrimitives : Primitives where
  hash node := ⟨BitVec.ofNat 256 (1 + nodeCode node)⟩
  contentSize _ := 64
  serializeForAuth node := toBe 32 (nodeCode node)
  wireSerializeForAuth wire := wire.payloadData
  delegationSignData cert := toBe 32 (certCode cert)
  verify key data sig := sig = signature key data
  sign key data := signature key.seed data
  verifyingKey key := key.seed
  keyBytes pk := Bytes32.toBytes pk.bytes
  validatePow _ _ _ := true
  validatePowV2 _ _ := true
  calculateMac kConv data := kConv.bytes + BitVec.ofNat 256 (fromBe data)
  ratchetInitSender kConv senderPk := ⟨kConv.bytes * 5 + senderPk.bytes * 7 + 1⟩
  ratchetStep key := ⟨key.bytes * 3 + 1⟩
  ratchetMessageKey key := ⟨key.bytes * 2 + 1⟩
  deriveKHeaderEpoch kConv senderKey := ⟨kConv.bytes * 11 + senderKey.bytes⟩
  deriveKHeaderExport kConv := ⟨kConv.bytes * 13⟩
  deriveKPayloadExport kConv := kConv.bytes * 17
  deriveLegacyBridgeDedupId conversationId sourcePk _ messageType :=
    ⟨conversationId.bytes + sourcePk.bytes + BitVec.ofNat 256 messageType⟩
  eciesWrap _ spk _ _ plaintext := Bytes32.toBytes spk.bytes ++ plaintext
  eciesUnwrap secret _ _ _ ciphertext :=
    if ciphertext.take 32 = Bytes32.toBytes secret.bytes then some (ciphertext.drop 32) else none
  devicePkToX25519 pk := ⟨pk.bytes⟩
  x25519PublicKey secret := ⟨secret.bytes⟩
  diffieHellman secret pk := secret.bytes * pk.bytes
  opkId pk := ⟨pk.bytes⟩
  fillBytes rng := BitVec.ofNat 256 (rng.seed * 1000003 + rng.position + 1000)
  packWire node _ := some
    { parents := node.parents
      senderHint := 0
      encryptedRouting := []
      payloadData := toBe 32 (nodeCode node)
      topologicalRank := node.topologicalRank
      flags := 0
      authentication := node.authentication }

instance referenceCodec : WireCodec where
  unpack _ _ _ := none

namespace Reference

/-! ## A conversation -/

def room : ConversationId := ⟨7⟩

/-- Sign a node with the key of its sender. -/
def sign (node : MerkleNode) : MerkleNode :=
  { node with
      authentication := .signature
        (Reference.signature node.senderPk.bytes (Primitives.serializeForAuth node)) }

/-- The founder's device key is the founder's own key. -/
def genesis : MerkleNode :=
  sign
    { parents := []
      authorPk := ⟨1⟩
      senderPk := ⟨1⟩
      sequenceNumber := 1
      topologicalRank := 0
      networkTimestamp := 1000
      content := .control (.genesis "room" ⟨1⟩ .all 0 1000 0)
      metadata := []
      authentication := .ephemeralSignature ⟨0⟩
      powNonce := 0 }

/-- A certificate of the founder for a device. -/
def certificate (devicePk : PhysicalDevicePk) : DelegationCertificate :=
  let unsigned : DelegationCertificate :=
    { version := 1
      conversationId := room
      devicePk := devicePk
      permissions := .all
      expiresAt := 100000
      signature := ⟨0⟩ }
  { unsigned with signature := Reference.signature 1 (Primitives.delegationSignData unsigned) }

end Reference

end MerkleTox.Core
