import MerkleTox.Core.Dag
import MerkleTox.Proto.Codec

/-! # The encodings of nodes and their contents

The codecs that `ToxProto` derives for the types of `merkle_tox_core::dag`, with the fields in
their order and the variants by their tags.
-/

namespace MerkleTox.Wire

open Proto MerkleTox.Core

/-! ## Keys and hashes -/

def bytes32 : Codec Bytes32 := .word 256 32 (by norm_num) rfl

/-- A newtype of 32 bytes, a structure with one field. -/
def newtype {α : Type} (make : Bytes32 → α) (bytes : α → Bytes32)
    (hmake : ∀ value, make (bytes value) = value) : Codec α :=
  (bytes32.struct 1 (by norm_num)).via make bytes hmake

def nodeHash : Codec NodeHash := newtype .mk NodeHash.bytes fun _ => rfl

def conversationId : Codec ConversationId := newtype .mk ConversationId.bytes fun _ => rfl

def logicalIdentityPk : Codec LogicalIdentityPk := newtype .mk LogicalIdentityPk.bytes fun _ => rfl

def physicalDevicePk : Codec PhysicalDevicePk := newtype .mk PhysicalDevicePk.bytes fun _ => rfl

def ephemeralX25519Pk : Codec EphemeralX25519Pk := newtype .mk EphemeralX25519Pk.bytes fun _ => rfl

def ephemeralSigningPk : Codec EphemeralSigningPk :=
  newtype .mk EphemeralSigningPk.bytes fun _ => rfl

def ephemeralSigningSk : Codec EphemeralSigningSk :=
  newtype .mk EphemeralSigningSk.bytes fun _ => rfl

def ed25519Signature : Codec Ed25519Signature :=
  ((Codec.word 512 64 (by norm_num) rfl).struct 1 (by norm_num)).via .mk
    Ed25519Signature.bytes fun _ => rfl

def permissions : Codec Permissions := .bits 32 (by norm_num)

/-! ## Structures -/

def memberInfo : Codec MemberInfo :=
  ((logicalIdentityPk.pair (Codec.u8.pair .i64)).struct 3 (by norm_num)).via
    (fun (publicKey, role, joinedAt) => ⟨publicKey, role, joinedAt⟩)
    (fun info => (info.publicKey, info.role, info.joinedAt)) fun _ => rfl

def delegationCertificate : Codec DelegationCertificate :=
  ((Codec.u32.pair (conversationId.pair (physicalDevicePk.pair (permissions.pair
    (Codec.i64.pair ed25519Signature))))).struct 6 (by norm_num)).via
    (fun (version, conversationId, devicePk, permissions, expiresAt, signature) =>
      ⟨version, conversationId, devicePk, permissions, expiresAt, signature⟩)
    (fun cert => (cert.version, cert.conversationId, cert.devicePk, cert.permissions,
      cert.expiresAt, cert.signature)) fun _ => rfl

def inviteAction : Codec InviteAction :=
  ((logicalIdentityPk.pair .u8).struct 2 (by norm_num)).via
    (fun (inviteePk, role) => ⟨inviteePk, role⟩)
    (fun invite => (invite.inviteePk, invite.role)) fun _ => rfl

def signedPreKey : Codec SignedPreKey :=
  ((ephemeralX25519Pk.pair (ed25519Signature.pair .i64)).struct 3 (by norm_num)).via
    (fun (publicKey, signature, expiresAt) => ⟨publicKey, signature, expiresAt⟩)
    (fun key => (key.publicKey, key.signature, key.expiresAt)) fun _ => rfl

def wrappedKey : Codec WrappedKey :=
  ((physicalDevicePk.pair (nodeHash.pair .bin)).struct 3 (by norm_num)).via
    (fun (recipientPk, opkId, ciphertext) => ⟨recipientPk, opkId, ciphertext⟩)
    (fun key => (key.recipientPk, key.opkId, key.ciphertext)) fun _ => rfl

def snapshotData : Codec SnapshotData :=
  ((nodeHash.pair (memberInfo.list.pair
    ((physicalDevicePk.pair .u64).tuple 2 (by norm_num)).list)).struct 3 (by norm_num)).via
    (fun (basisHash, members, lastSeqNumbers) => ⟨basisHash, members, lastSeqNumbers⟩)
    (fun data => (data.basisHash, data.members, data.lastSeqNumbers)) fun _ => rfl

/-! ## Enumerations -/

def customEmoji : Codec (Bytes32 × String) := (bytes32.pair .str).struct 2 (by norm_num)

def emojiArms : Nat → Nat → Reader EmojiSource
  | 0, len => readVariant .str .unicode len
  | 1, len => readVariant customEmoji (fun (emojiHash, shortcode) => .custom emojiHash shortcode) len
  | _, _ => fun _ => none

def writeEmoji : EmojiSource → Bytes
  | .unicode text => writeVariant 0 (Codec.str.write text)
  | .custom emojiHash shortcode => writeVariant 1 (customEmoji.write (emojiHash, shortcode))

def FitsEmoji : EmojiSource → Prop
  | .unicode text => Codec.str.Fits text
  | .custom emojiHash shortcode => customEmoji.Fits (emojiHash, shortcode)

def emojiSource : Codec EmojiSource where
  write := writeEmoji
  read := readEnum emojiArms
  Fits := FitsEmoji
  read_write emoji rest hfits := by
    cases emoji with
    | unicode text =>
        rw [writeEmoji, readEnum_writeVariant _ (by norm_num), emojiArms]
        exact readVariant_write .str _ text hfits rest
    | custom emojiHash shortcode =>
        rw [writeEmoji, readEnum_writeVariant _ (by norm_num), emojiArms]
        exact readVariant_write customEmoji _ (emojiHash, shortcode) hfits rest

/-! ## Control actions -/

abbrev GenesisFields := String × LogicalIdentityPk × Permissions × BitVec 64 × Int × Nat

def genesisFields : Codec GenesisFields :=
  (Codec.str.pair (logicalIdentityPk.pair (permissions.pair ((Codec.bits 64 (by norm_num)).pair
    (Codec.i64.pair .u64))))).struct 6 (by norm_num)

def revokeDeviceFields : Codec (PhysicalDevicePk × String) :=
  (physicalDevicePk.pair .str).struct 2 (by norm_num)

def announcementFields : Codec (List SignedPreKey × SignedPreKey) :=
  (signedPreKey.list.pair signedPreKey).struct 2 (by norm_num)

def anchorSnapshotFields : Codec (SnapshotData × DelegationCertificate) :=
  (snapshotData.pair delegationCertificate).struct 2 (by norm_num)

def softAnchorFields : Codec (NodeHash × DelegationCertificate) :=
  (nodeHash.pair delegationCertificate).struct 2 (by norm_num)

def controlArms : Nat → Nat → Reader ControlAction
  | 0, len => readVariant genesisFields
      (fun (title, creatorPk, permissions, flags, createdAt, powNonce) =>
        .genesis title creatorPk permissions flags createdAt powNonce) len
  | 1, len => readVariant .str .setTitle len
  | 2, len => readVariant .str .setTopic len
  | 3, len => readVariant inviteAction .invite len
  | 4, len => readVariant logicalIdentityPk .leave len
  | 5, len => readVariant delegationCertificate .authorizeDevice len
  | 6, len => readVariant revokeDeviceFields
      (fun (targetDevicePk, reason) => .revokeDevice targetDevicePk reason) len
  | 7, len => readVariant announcementFields
      (fun (preKeys, lastResortKey) => .announcement preKeys lastResortKey) len
  | 8, len => fun rest => if len ≠ 1 then none else some (.handshakePulse, rest)
  | 9, len => readVariant snapshotData .snapshot len
  | 10, len => readVariant anchorSnapshotFields (fun (data, cert) => .anchorSnapshot data cert) len
  | 11, len => readVariant softAnchorFields
      (fun (basisHash, cert) => .softAnchor basisHash cert) len
  | _, _ => fun _ => none

def writeControl : ControlAction → Bytes
  | .genesis title creatorPk permissions flags createdAt powNonce => writeVariant 0
      (genesisFields.write (title, creatorPk, permissions, flags, createdAt, powNonce))
  | .setTitle title => writeVariant 1 (Codec.str.write title)
  | .setTopic topic => writeVariant 2 (Codec.str.write topic)
  | .invite invite => writeVariant 3 (inviteAction.write invite)
  | .leave logicalPk => writeVariant 4 (logicalIdentityPk.write logicalPk)
  | .authorizeDevice cert => writeVariant 5 (delegationCertificate.write cert)
  | .revokeDevice targetDevicePk reason =>
      writeVariant 6 (revokeDeviceFields.write (targetDevicePk, reason))
  | .announcement preKeys lastResortKey =>
      writeVariant 7 (announcementFields.write (preKeys, lastResortKey))
  | .handshakePulse => writeU8 8
  | .snapshot data => writeVariant 9 (snapshotData.write data)
  | .anchorSnapshot data cert => writeVariant 10 (anchorSnapshotFields.write (data, cert))
  | .softAnchor basisHash cert => writeVariant 11 (softAnchorFields.write (basisHash, cert))

def FitsControl : ControlAction → Prop
  | .genesis title creatorPk permissions flags createdAt powNonce =>
      genesisFields.Fits (title, creatorPk, permissions, flags, createdAt, powNonce)
  | .setTitle title => Codec.str.Fits title
  | .setTopic topic => Codec.str.Fits topic
  | .invite invite => inviteAction.Fits invite
  | .leave logicalPk => logicalIdentityPk.Fits logicalPk
  | .authorizeDevice cert => delegationCertificate.Fits cert
  | .revokeDevice targetDevicePk reason => revokeDeviceFields.Fits (targetDevicePk, reason)
  | .announcement preKeys lastResortKey => announcementFields.Fits (preKeys, lastResortKey)
  | .handshakePulse => True
  | .snapshot data => snapshotData.Fits data
  | .anchorSnapshot data cert => anchorSnapshotFields.Fits (data, cert)
  | .softAnchor basisHash cert => softAnchorFields.Fits (basisHash, cert)

def controlAction : Codec ControlAction where
  write := writeControl
  read := readEnum controlArms
  Fits := FitsControl
  read_write action rest hfits := by
    cases action with
    | genesis title creatorPk permissions flags createdAt powNonce =>
        rw [writeControl, readEnum_writeVariant _ (by norm_num), controlArms]
        exact readVariant_write genesisFields _
          (title, creatorPk, permissions, flags, createdAt, powNonce) hfits rest
    | setTitle title =>
        rw [writeControl, readEnum_writeVariant _ (by norm_num), controlArms]
        exact readVariant_write .str _ title hfits rest
    | setTopic topic =>
        rw [writeControl, readEnum_writeVariant _ (by norm_num), controlArms]
        exact readVariant_write .str _ topic hfits rest
    | invite invite =>
        rw [writeControl, readEnum_writeVariant _ (by norm_num), controlArms]
        exact readVariant_write inviteAction _ invite hfits rest
    | leave logicalPk =>
        rw [writeControl, readEnum_writeVariant _ (by norm_num), controlArms]
        exact readVariant_write logicalIdentityPk _ logicalPk hfits rest
    | authorizeDevice cert =>
        rw [writeControl, readEnum_writeVariant _ (by norm_num), controlArms]
        exact readVariant_write delegationCertificate _ cert hfits rest
    | revokeDevice targetDevicePk reason =>
        rw [writeControl, readEnum_writeVariant _ (by norm_num), controlArms]
        exact readVariant_write revokeDeviceFields _ (targetDevicePk, reason) hfits rest
    | announcement preKeys lastResortKey =>
        rw [writeControl, readEnum_writeVariant _ (by norm_num), controlArms]
        exact readVariant_write announcementFields _ (preKeys, lastResortKey) hfits rest
    | handshakePulse => exact (readEnum_unit controlArms 8 (by norm_num) rest).trans rfl
    | snapshot data =>
        rw [writeControl, readEnum_writeVariant _ (by norm_num), controlArms]
        exact readVariant_write snapshotData _ data hfits rest
    | anchorSnapshot data cert =>
        rw [writeControl, readEnum_writeVariant _ (by norm_num), controlArms]
        exact readVariant_write anchorSnapshotFields _ (data, cert) hfits rest
    | softAnchor basisHash cert =>
        rw [writeControl, readEnum_writeVariant _ (by norm_num), controlArms]
        exact readVariant_write softAnchorFields _ (basisHash, cert) hfits rest

/-! ## Contents -/

abbrev KeyWrapFields := Nat × NodeHash × EphemeralX25519Pk × List WrappedKey

abbrev SenderKeyFields :=
  EphemeralX25519Pk × List WrappedKey × EphemeralSigningPk × List EphemeralSigningSk

abbrev HistoryExportFields :=
  NodeHash × Nat × Option Bytes32 × EphemeralX25519Pk × List WrappedKey

def customFields : Codec (Nat × Bytes) := (Codec.u32.pair .bin).struct 2 (by norm_num)

def keyWrapFields : Codec KeyWrapFields :=
  (Codec.u64.pair (nodeHash.pair (ephemeralX25519Pk.pair wrappedKey.list))).struct 4 (by norm_num)

def senderKeyFields : Codec SenderKeyFields :=
  (ephemeralX25519Pk.pair (wrappedKey.list.pair (ephemeralSigningPk.pair
    ephemeralSigningSk.list))).struct 4 (by norm_num)

def historyExportFields : Codec HistoryExportFields :=
  (nodeHash.pair (Codec.u64.pair (bytes32.option.pair (ephemeralX25519Pk.pair
    wrappedKey.list)))).struct 5 (by norm_num)

def blobFields : Codec (NodeHash × String × String × Nat × Bytes) :=
  (nodeHash.pair (Codec.str.pair (Codec.str.pair (Codec.u64.pair .bin)))).struct 5 (by norm_num)

def locationFields : Codec (BitVec 64 × BitVec 64 × Option String) :=
  (Codec.f64.pair (Codec.f64.pair Codec.str.option)).struct 3 (by norm_num)

/-- A node and a text about it: an edit or a redaction. -/
def targetFields : Codec (NodeHash × String) := (nodeHash.pair .str).struct 2 (by norm_num)

def reactionFields : Codec (NodeHash × EmojiSource) :=
  (nodeHash.pair emojiSource).struct 2 (by norm_num)

def legacyBridgeFields : Codec (PhysicalDevicePk × String × Nat × NodeHash) :=
  (physicalDevicePk.pair (Codec.str.pair (Codec.u8.pair nodeHash))).struct 4 (by norm_num)

/-- An unknown variant keeps the bytes of its payload. -/
def readUnknown (tag len : Nat) : Reader Content := fun rest =>
  (captureValues (len - 1) rest).map fun (data, rest) => (.unknown tag data, rest)

def contentArms : Nat → Nat → Reader Content
  | 0, len => readVariant customFields (fun (tagId, data) => .custom tagId data) len
  | 1, len => readVariant keyWrapFields
      (fun (generation, anchorHash, ephemeralPk, wrappedKeys) =>
        .keyWrap generation anchorHash ephemeralPk wrappedKeys) len
  | 2, len => readVariant senderKeyFields
      (fun (ephemeralPk, wrappedKeys, ephemeralSigningPk, disclosedKeys) =>
        .senderKeyDistribution ephemeralPk wrappedKeys ephemeralSigningPk disclosedKeys) len
  | 3, len => readVariant historyExportFields
      (fun (blobHash, blobSize, baoRoot, ephemeralPk, wrappedKeys) =>
        .historyExport blobHash blobSize baoRoot ephemeralPk wrappedKeys) len
  | 4, len => readVariant controlAction .control len
  | 5, len => readVariant .str .text len
  | 6, len => readVariant blobFields
      (fun (blobHash, name, mimeType, size, metadata) => .blob blobHash name mimeType size metadata) len
  | 7, len => readVariant locationFields
      (fun (latitude, longitude, title) => .location latitude longitude title) len
  | 8, len => readVariant targetFields (fun (targetHash, newText) => .edit targetHash newText) len
  | 9, len => readVariant reactionFields
      (fun (targetHash, emoji) => .reaction targetHash emoji) len
  | 10, len => readVariant targetFields
      (fun (targetHash, reason) => .redaction targetHash reason) len
  | 11, len => readVariant legacyBridgeFields
      (fun (sourcePk, text, messageType, dedupId) =>
        .legacyBridge sourcePk text messageType dedupId) len
  | tag, len => readUnknown tag len

def writeContent : Content → Bytes
  | .custom tagId data => writeVariant 0 (customFields.write (tagId, data))
  | .keyWrap generation anchorHash ephemeralPk wrappedKeys =>
      writeVariant 1 (keyWrapFields.write (generation, anchorHash, ephemeralPk, wrappedKeys))
  | .senderKeyDistribution ephemeralPk wrappedKeys ephemeralSigningPk disclosedKeys =>
      writeVariant 2
        (senderKeyFields.write (ephemeralPk, wrappedKeys, ephemeralSigningPk, disclosedKeys))
  | .historyExport blobHash blobSize baoRoot ephemeralPk wrappedKeys =>
      writeVariant 3
        (historyExportFields.write (blobHash, blobSize, baoRoot, ephemeralPk, wrappedKeys))
  | .control action => writeVariant 4 (controlAction.write action)
  | .text text => writeVariant 5 (Codec.str.write text)
  | .blob blobHash name mimeType size metadata =>
      writeVariant 6 (blobFields.write (blobHash, name, mimeType, size, metadata))
  | .location latitude longitude title =>
      writeVariant 7 (locationFields.write (latitude, longitude, title))
  | .edit targetHash newText => writeVariant 8 (targetFields.write (targetHash, newText))
  | .reaction targetHash emoji => writeVariant 9 (reactionFields.write (targetHash, emoji))
  | .redaction targetHash reason => writeVariant 10 (targetFields.write (targetHash, reason))
  | .legacyBridge sourcePk text messageType dedupId =>
      writeVariant 11 (legacyBridgeFields.write (sourcePk, text, messageType, dedupId))
  -- the discriminant is cast to `u8`, the data is written as it is
  | .unknown discriminant data =>
      if data.isEmpty then writeU8 (UInt8.ofNat discriminant) else writeVariant discriminant data

/-- An unknown variant has a tag that is not known and at most one value of data. -/
def FitsContent : Content → Prop
  | .custom tagId data => customFields.Fits (tagId, data)
  | .keyWrap generation anchorHash ephemeralPk wrappedKeys =>
      keyWrapFields.Fits (generation, anchorHash, ephemeralPk, wrappedKeys)
  | .senderKeyDistribution ephemeralPk wrappedKeys ephemeralSigningPk disclosedKeys =>
      senderKeyFields.Fits (ephemeralPk, wrappedKeys, ephemeralSigningPk, disclosedKeys)
  | .historyExport blobHash blobSize baoRoot ephemeralPk wrappedKeys =>
      historyExportFields.Fits (blobHash, blobSize, baoRoot, ephemeralPk, wrappedKeys)
  | .control action => controlAction.Fits action
  | .text text => Codec.str.Fits text
  | .blob blobHash name mimeType size metadata =>
      blobFields.Fits (blobHash, name, mimeType, size, metadata)
  | .location latitude longitude title => locationFields.Fits (latitude, longitude, title)
  | .edit targetHash newText => targetFields.Fits (targetHash, newText)
  | .reaction targetHash emoji => reactionFields.Fits (targetHash, emoji)
  | .redaction targetHash reason => targetFields.Fits (targetHash, reason)
  | .legacyBridge sourcePk text messageType dedupId =>
      legacyBridgeFields.Fits (sourcePk, text, messageType, dedupId)
  | .unknown discriminant data =>
      12 ≤ discriminant ∧ discriminant < 256 ∧ (data = [] ∨ skipValues data 1 = some [])

theorem contentArms_unknown {tag : Nat} (htag : 12 ≤ tag) (len : Nat) :
    contentArms tag len = readUnknown tag len := by
  obtain ⟨extra, rfl⟩ := Nat.exists_eq_add_of_le htag
  rw [Nat.add_comm]
  rfl

theorem readEnum_unknown {discriminant : Nat} {data : Bytes}
    (hfits : FitsContent (.unknown discriminant data)) (rest : Bytes) :
    readEnum contentArms (writeContent (.unknown discriminant data) ++ rest) =
      some (.unknown discriminant data, rest) := by
  obtain ⟨hlow, hhigh, hempty | hone⟩ := hfits
  · rw [writeContent, hempty, if_pos List.isEmpty_nil, readEnum_unit _ _ hhigh,
      contentArms_unknown hlow]
    rfl
  · have hdata : data.isEmpty = false := by
      rw [List.isEmpty_eq_false_iff]
      rintro rfl
      cases hone
    rw [writeContent, hdata, if_neg Bool.false_ne_true, readEnum_writeVariant _ hhigh,
      contentArms_unknown hlow, readUnknown, captureValues_one rest hone]
    rfl

def content : Codec Content where
  write := writeContent
  read := readEnum contentArms
  Fits := FitsContent
  read_write content rest hfits := by
    cases content with
    | custom tagId data =>
        rw [writeContent, readEnum_writeVariant _ (by norm_num), contentArms]
        exact readVariant_write customFields _ (tagId, data) hfits rest
    | keyWrap generation anchorHash ephemeralPk wrappedKeys =>
        rw [writeContent, readEnum_writeVariant _ (by norm_num), contentArms]
        exact readVariant_write keyWrapFields _ (generation, anchorHash, ephemeralPk, wrappedKeys)
          hfits rest
    | senderKeyDistribution ephemeralPk wrappedKeys ephemeralSigningPk disclosedKeys =>
        rw [writeContent, readEnum_writeVariant _ (by norm_num), contentArms]
        exact readVariant_write senderKeyFields _
          (ephemeralPk, wrappedKeys, ephemeralSigningPk, disclosedKeys) hfits rest
    | historyExport blobHash blobSize baoRoot ephemeralPk wrappedKeys =>
        rw [writeContent, readEnum_writeVariant _ (by norm_num), contentArms]
        exact readVariant_write historyExportFields _
          (blobHash, blobSize, baoRoot, ephemeralPk, wrappedKeys) hfits rest
    | control action =>
        rw [writeContent, readEnum_writeVariant _ (by norm_num), contentArms]
        exact readVariant_write controlAction _ action hfits rest
    | text text =>
        rw [writeContent, readEnum_writeVariant _ (by norm_num), contentArms]
        exact readVariant_write .str _ text hfits rest
    | blob blobHash name mimeType size metadata =>
        rw [writeContent, readEnum_writeVariant _ (by norm_num), contentArms]
        exact readVariant_write blobFields _ (blobHash, name, mimeType, size, metadata) hfits rest
    | location latitude longitude title =>
        rw [writeContent, readEnum_writeVariant _ (by norm_num), contentArms]
        exact readVariant_write locationFields _ (latitude, longitude, title) hfits rest
    | edit targetHash newText =>
        rw [writeContent, readEnum_writeVariant _ (by norm_num), contentArms]
        exact readVariant_write targetFields _ (targetHash, newText) hfits rest
    | reaction targetHash emoji =>
        rw [writeContent, readEnum_writeVariant _ (by norm_num), contentArms]
        exact readVariant_write reactionFields _ (targetHash, emoji) hfits rest
    | redaction targetHash reason =>
        rw [writeContent, readEnum_writeVariant _ (by norm_num), contentArms]
        exact readVariant_write targetFields _ (targetHash, reason) hfits rest
    | legacyBridge sourcePk text messageType dedupId =>
        rw [writeContent, readEnum_writeVariant _ (by norm_num), contentArms]
        exact readVariant_write legacyBridgeFields _ (sourcePk, text, messageType, dedupId) hfits
          rest
    | unknown discriminant data => exact readEnum_unknown hfits rest

/-! ## Nodes -/

/-- `NodeAuth::serialize`. -/
def writeAuth : NodeAuth → Bytes
  | .ephemeralSignature signature => writeVariant 0 (ed25519Signature.write signature)
  | .signature signature => writeVariant 1 (ed25519Signature.write signature)

/-- `MerkleNode::serialize`; the nonce of the proof of work is skipped. -/
def writeNode (node : MerkleNode) : Bytes :=
  writeArrayLen 9 ++ nodeHash.list.write node.parents ++ logicalIdentityPk.write node.authorPk ++
    physicalDevicePk.write node.senderPk ++ writeUint node.sequenceNumber.toNat ++
    writeUint node.topologicalRank ++ writeSint node.networkTimestamp ++
    writeContent node.content ++ writeBin node.metadata ++ writeAuth node.authentication

end MerkleTox.Wire
