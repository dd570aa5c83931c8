import MerkleTox.Core.SideEffects

/-! # Authoring nodes

`engine::authoring`: the construction, signing and packing of own nodes, the
rotation of the conversation key, and the distributions of sender keys after a
rotation, for a rekey and just in time for devices that lack the key.

The side effects of an own node may rotate the key, which authors further nodes.
Those are key wraps and distributions, whose side effects do not rotate, so the
recursion is tied in two levels.
-/

namespace MerkleTox.Core

open Library Proto

namespace Engine

variable [Primitives]
variable (engine : Engine) (rotate : Rotation) (store : InMemoryStore)
  (conversationId : ConversationId)

/-- The ephemeral signing key of an epoch, drawn when there is none. -/
def ensureSigningKey (epoch : Nat) : SigningKey × Engine :=
  match engine.selfEphemeralSigningKeys.get epoch with
  | some key => (key, engine)
  | none =>
      let (bytes, rng) := engine.rng.next
      (⟨bytes⟩, { engine with
        rng := rng
        selfEphemeralSigningKeys := engine.selfEphemeralSigningKeys.insert epoch ⟨bytes⟩ })

/-- Draw the two nonces of an encrypted wire form. -/
def drawContentKeys (kMsg : MessageKey) (kHeader : HeaderKey) : PackKeys × Engine :=
  let (routingNonce, rng) := engine.rng.next
  let (payloadNonce, rng) := rng.next
  (.content ⟨kMsg, kHeader, routingNonce, payloadNonce⟩, engine.withRng rng)

/-- The sender key that headers are derived from. -/
def headerSenderKey (em : Established) (senderPk : PhysicalDevicePk) (epoch : Nat)
    (kConv : KConv) : SenderKey :=
  ⟨(em.initialChainKey senderPk epoch kConv).bytes⟩

/-- The key of an epoch, or of the current one. -/
def keyOrCurrent (em : Established) (epoch : Nat) : Option KConv :=
  (em.getKeys epoch).or (em.getKeys em.currentEpoch)

/-- The keys an own encrypted node is packed with. -/
def contentPackKeys (node : MerkleNode) (nowMs : Int) : Option PackKeys × Engine :=
  match engine.establishedState conversationId with
  | none => (none, engine)
  | some em =>
      if node.content.isHistoryExport then
        match keyOrCurrent em node.epoch with
        | none => (none, engine)
        | some kConv =>
            let (keys, engine) := engine.drawContentKeys
              ⟨Primitives.deriveKPayloadExport kConv⟩ (Primitives.deriveKHeaderExport kConv)
            (some keys, engine)
      else
        match em.peekKeys node.senderPk node.seq nowMs with
        | (none, em) => (none, engine.setConversation conversationId (.established em))
        | (some (kMsg, _), em) =>
            let kConv := (keyOrCurrent em node.epoch).getD ⟨0⟩
            let kHeader := Primitives.deriveKHeaderEpoch kConv
              (headerSenderKey em node.senderPk node.epoch kConv)
            let (keys, engine) := (engine.setConversation conversationId
              (.established em)).drawContentKeys kMsg kHeader
            (some keys, engine)

/-- The epoch whose ephemeral key signs an own node. -/
def ownSigningEpoch (content : Content) (currentEpoch : Nat) : Nat :=
  if content.isSenderKeyDistribution && 0 < currentEpoch then currentEpoch - 1 else currentEpoch

/-- A distribution falls back to the device signature while the previous epoch has no
ephemeral key. -/
def needsDeviceSig (node : MerkleNode) (useEpoch : Option Nat) : Bool :=
  let epoch := useEpoch.getD 0
  node.nodeType = .admin || node.content.isControl ||
    (node.content.isSenderKeyDistribution &&
      (epoch = 0 || !engine.selfEphemeralSigningKeys.contains (epoch - 1)))

def currentEpochOf : Nat :=
  ((engine.establishedState conversationId).map Established.currentEpoch).getD 0

/-- Count an own message, except a history export. -/
def countMessage (content : Content) : Engine :=
  if content.isHistoryExport then engine
  else engine.modifyEstablished conversationId fun em =>
    { em with
        messageCount := (em.messageCount + 1) % 2 ^ 32
        selfMessageCount := (em.selfMessageCount + 1) % 2 ^ 32 }

/-- Sign an own node: admin nodes, control actions and first distributions with the
device key, later distributions with an ephemeral key, and encrypted nodes with an
ephemeral key over their wire form. -/
def signNode (node : MerkleNode) (useEpoch : Option Nat) (nowMs : Int) :
    Except MerkleToxError (MerkleNode × Option WireNode) × Engine :=
  let signingEpoch := ownSigningEpoch node.content
    (useEpoch.getD (engine.currentEpochOf conversationId))
  if engine.needsDeviceSig node useEpoch then
    match engine.selfSk with
    | none => (.error (.crypto "Missing signing key for Admin node"), engine)
    | some key =>
        (.ok ({ node with
          authentication := .signature (Primitives.sign key
            (Primitives.serializeForAuth node)) }, none), engine)
  else if node.isExceptionNode then
    let (key, engine) := engine.ensureSigningKey signingEpoch
    (.ok ({ node with
      authentication := .ephemeralSignature (Primitives.sign key
        (Primitives.serializeForAuth node)) }, none), engine)
  else
    let engine := engine.countMessage conversationId node.content
    let (packKeys, engine) := engine.contentPackKeys conversationId node nowMs
    let wire := packKeys.bind (Primitives.packWire node)
    let (key, engine) := engine.ensureSigningKey signingEpoch
    let data := match wire with
      | some wire => Primitives.wireSerializeForAuth wire
      | none => Primitives.serializeForAuth node
    let authentication := NodeAuth.ephemeralSignature (Primitives.sign key data)
    (.ok ({ node with authentication := authentication },
      wire.map fun wire => { wire with authentication := authentication }), engine)

/-- The wire form of an own node that was not packed in signing. -/
def packLate (node : MerkleNode) (nowMs : Int) : Option WireNode × Engine :=
  if (engine.establishedState conversationId).isNone then (none, engine)
  else if node.isExceptionNode then (Primitives.packWire node .exception, engine)
  else
    let (packKeys, engine) := engine.contentPackKeys conversationId node nowMs
    (packKeys.bind (Primitives.packWire node), engine)

/-- The parents of an own node: the verified heads of its track, and for content nodes
those of the admin track too. -/
def ownParents (overlay : Overlay) (conversationId : ConversationId) (content : Content) :
    List NodeHash :=
  let heads := match content with
    | .control (.softAnchor basisHash _) => [basisHash]
    | _ =>
        if content.nodeType = NodeType.admin then overlay.getAdminHeads conversationId
        else (overlay.getAdminHeads conversationId).foldl insertOnce
          (overlay.getHeads conversationId)
  sortByKey (fun head => head.bytes.toNat) (heads.filter overlay.isVerified)

/-- The last sequence number of this device: in its ratchet, in the cache, in the
store. -/
def ownLastSeq : Nat :=
  let fromRatchet := ((engine.establishedState conversationId).map fun em =>
    em.getSenderLastSeq engine.selfPk).getD 0
  let fromCache := (engine.pendingCache.lastVerifiedSequences.get
    (conversationId, engine.selfPk)).getD 0
  max (max fromRatchet fromCache) (store.getLastSequenceNumber engine.selfPk)

/-- The node to be signed. -/
def draftNode (content : Content) (metadata : Bytes) (useEpoch : Option Nat) (nowMs : Int) :
    MerkleNode :=
  let overlay := engine.overlay store
  let parents := ownParents overlay conversationId content
  let lastSeq := engine.ownLastSeq store conversationId
  let epoch := useEpoch.getD (engine.currentEpochOf conversationId)
  { parents := parents
    authorPk := engine.selfLogicalPk
    senderPk := engine.selfPk
    sequenceNumber := BitVec.ofNat 64
      (if epochOf lastSeq = epoch then lastSeq + 1 else seqOf epoch 1)
    topologicalRank :=
      if parents.isEmpty then 0 else wrap64 ((parents.filterMap overlay.getRank).foldl max 0 + 1)
    networkTimestamp := nowMs
    content := content
    metadata := metadata
    authentication := .ephemeralSignature ⟨0⟩
    powNonce := 0 }

/-- Put an own node into the cache and note it as authored. -/
def noteAuthored (node : MerkleNode) : Engine :=
  { engine with
      pendingCache := engine.pendingCache.putNode conversationId node true
      authored := (conversationId, node) :: engine.authored }

/-- Put an own node, with its wire form, into the cache. -/
def putOwn (node : MerkleNode) (wire : Option WireNode) (nowMs : Int) : Option WireNode × Engine :=
  let engine := engine.noteAuthored conversationId node
  let (wire, engine) := match wire with
    | some wire => (some wire, engine)
    | none => engine.packLate conversationId node nowMs
  match wire with
  | none => (none, engine)
  | some wire =>
      (some wire, { engine with
        pendingCache := { engine.pendingCache with
          wireNodes := engine.pendingCache.wireNodes.insert (hash node)
            (conversationId, wire) } })

/-- What an own node writes before its side effects. -/
def ownEffects (node : MerkleNode) (wire : Option WireNode) : List Effect :=
  (match engine.establishedState conversationId with
    | some em =>
        if node.nodeType = .admin then []
        else [.writeEpochMetadata conversationId em.messageCount em.lastRotationTimeMs]
    | none => []) ++
  [.writeStore conversationId node true] ++
  (wire.map (.writeWireNode conversationId (hash node))).toList

def authorNodeInternal (content : Content) (metadata : Bytes) (useEpoch : Option Nat)
    (nowMs : Int) : Outcome :=
  let draft := engine.draftNode store conversationId content metadata useEpoch nowMs
  match engine.signNode conversationId draft useEpoch nowMs with
  | (.error error, engine) => (.error error, engine)
  | (.ok (node, wire), engine) =>
      let (wire, engine) := engine.putOwn conversationId node wire nowMs
      let written := engine.ownEffects conversationId node wire
      match engine.applySideEffects rotate store conversationId node nowMs with
      | (.error error, engine) => (.error error, engine)
      | (.ok sideEffects, engine) =>
          let (invalidated, engine) :=
            if changesAuthorization node.content then
              engine.revalidateAllVerifiedNodes store conversationId nowMs
            else ([], engine)
          (.ok (written ++ sideEffects ++ invalidated ++
            [.emitEvent (.nodeVerified conversationId (hash node) node)]), engine)

/-- Wrap a payload for each recipient but this device, consuming a one-time pre-key of
the recipient where it has one. -/
def wrapFor (engine : Engine) (ephemeralSk : EphemeralX25519Sk) (authenticated : Bool)
    (payload : Bytes) (nowMs : Int) : List PhysicalDevicePk → List WrappedKey × Engine
  | [] => ([], engine)
  | recipientPk :: rest =>
      if recipientPk = engine.selfPk then
        engine.wrapFor ephemeralSk authenticated payload nowMs rest
      else
        let spk := engine.resolveRecipientSpk recipientPk nowMs
        let (opk, engine) := engine.consumeRecipientOpk recipientPk nowMs
        let authSecret :=
          if authenticated then engine.selfDhSk.map fun sk => Primitives.diffieHellman sk spk
          else none
        let wrapped : WrappedKey :=
          { recipientPk := recipientPk
            opkId := (opk.map Prod.snd).getD .zero
            ciphertext := Primitives.eciesWrap ephemeralSk spk (opk.map Prod.fst) authSecret
              payload }
        let (others, engine) := engine.wrapFor ephemeralSk authenticated payload nowMs rest
        (wrapped :: others, engine)

/-- The 72 bytes of a distribution: chain key, last sequence number and header key. -/
def tripletPayload (chainKey : ChainKey) (lastSeq : Nat) (kHeader : HeaderKey) : Bytes :=
  chainKey.bytes.toBytes ++ toBe 8 (wrap64 lastSeq) ++ kHeader.bytes.toBytes

def anchorHash : NodeHash :=
  (engine.latestAnchorHashes.get conversationId).getD ⟨conversationId.bytes⟩

def activeRecipients (nowMs : Int) : List PhysicalDevicePk × Engine :=
  let (devices, manager) := engine.identityManager.listActiveAuthorizedDevices ⟨.zero, []⟩
    conversationId nowMs u64Max
  (devices, engine.withIdentity manager)

/-- Members that announced no pre-key are left out of an ordinary rotation. -/
def onlyLastResort (devicePk : PhysicalDevicePk) : Bool :=
  (engine.peerAnnouncements.get devicePk).any fun announcement => announcement.preKeys.isEmpty

/-- Note the devices that were sent this device's sender key. -/
def noteSent (devices : List PhysicalDevicePk) : Engine :=
  engine.modifyEstablished conversationId fun em =>
    { em with sharedKeysSentTo := devices.foldl insertOnce em.sharedKeysSentTo }

/-- Store a new sender key of this device. -/
def setOwnSenderKey (epoch : Nat) (senderKey : SenderKey) : Engine :=
  engine.modifyEstablished conversationId fun em =>
    { em with senderKeys := em.senderKeys.insert (engine.selfPk, epoch) senderKey }

/-- The header key of this device's sender key in an epoch. -/
def ownHeaderKey (epoch : Nat) (senderKey : SenderKey) : HeaderKey :=
  match engine.establishedState conversationId with
  | some em =>
      Primitives.deriveKHeaderEpoch ((keyOrCurrent em epoch).getD ⟨0⟩) senderKey
  | none => ⟨0⟩

/-- Wrap a triplet for the recipients and author the distribution node. -/
def distribute (epoch : Nat) (payload : Bytes) (recipients : List PhysicalDevicePk)
    (ephemeralSigningPk : EphemeralSigningPk) (disclosedKeys : List EphemeralSigningSk)
    (ephemeralSk : EphemeralX25519Sk) (nowMs : Int) :
    Outcome :=
  let (wrappedKeys, engine) := engine.wrapFor ephemeralSk true payload nowMs recipients
  let engine := engine.noteSent conversationId (wrappedKeys.map WrappedKey.recipientPk)
  engine.authorNodeInternal rotate store conversationId
    (.senderKeyDistribution (Primitives.x25519PublicKey ephemeralSk) wrappedKeys
      ephemeralSigningPk disclosedKeys) [] (some epoch) nowMs

/-- The distribution that opens an epoch: a fresh sender key, the new signing key and
the disclosed signing key of the epoch before. -/
def authorSenderKeyDistribution (newGeneration : Nat) (oldGeneration : Option Nat) (nowMs : Int) :
    Outcome :=
  let (signingKey, engine) := engine.ensureSigningKey newGeneration
  let disclosed := ((oldGeneration.bind engine.selfEphemeralSigningKeys.get).map
    fun key => EphemeralSigningSk.mk key.seed).toList
  let (ephemeralSk, rng) := engine.rng.next
  let (senderKeyBytes, rng) := rng.next
  let senderKey : SenderKey := ⟨senderKeyBytes⟩
  let engine := (engine.withRng rng).setOwnSenderKey conversationId newGeneration senderKey
  let payload := tripletPayload ⟨senderKey.bytes⟩ (newGeneration * 2 ^ 32)
    (engine.ownHeaderKey conversationId newGeneration senderKey)
  if (engine.establishedState conversationId).isNone then
    (.error (.other "Cannot author SKD: conversation not established"), engine)
  else
    let (recipients, engine) := engine.activeRecipients conversationId nowMs
    engine.distribute rotate store conversationId newGeneration payload recipients
      ⟨Primitives.verifyingKey signingKey⟩ disclosed ⟨ephemeralSk⟩ nowMs

/-- Install a new conversation key: the next epoch, or epoch 0 of a new conversation. -/
def installKey (kConv : KConv) (nowMs : Int) : Option Nat × Nat × Engine :=
  match engine.establishedState conversationId with
  | some em =>
      (some em.currentEpoch, wrap64 (em.currentEpoch + 1),
        engine.setConversation conversationId (.established (em.rotate kConv nowMs)))
  | none =>
      (none, 0, engine.setConversation conversationId (.established (.new kConv nowMs)))

/-- Author the key wrap of a new conversation key for the active devices; without any
recipient it is left out, except in a new conversation. -/
def authorKeyWrap (newGeneration : Nat) (kConv : KConv) (postRevocation : Bool) (nowMs : Int) :
    Outcome :=
  let (ephemeralSk, rng) := engine.rng.next
  let (recipients, engine) := (engine.withRng rng).activeRecipients conversationId nowMs
  let chosen := recipients.filter fun devicePk =>
    postRevocation || !engine.onlyLastResort devicePk
  let (wrappedKeys, engine) := engine.wrapFor ⟨ephemeralSk⟩ false kConv.bytes.toBytes nowMs chosen
  if !wrappedKeys.isEmpty || newGeneration = 0 then
    engine.authorNodeInternal rotate store conversationId
      (.keyWrap newGeneration (engine.anchorHash conversationId)
        (Primitives.x25519PublicKey ⟨ephemeralSk⟩) wrappedKeys)
      [] (some newGeneration) nowMs
  else (.ok [], engine)

/-- The signing key of an epoch that has ended is dropped. -/
def dropSigningKey (epoch : Option Nat) : Engine :=
  match epoch with
  | some epoch => { engine with
      selfEphemeralSigningKeys := engine.selfEphemeralSigningKeys.erase epoch }
  | none => engine

def rotateConversationKeyWith (nowMs : Int) (postRevocation : Bool) : Outcome :=
  let (kConvBytes, rng) := engine.clearPending.rng.next
  let (oldGeneration, newGeneration, engine) :=
    (engine.clearPending.withRng rng).installKey conversationId ⟨kConvBytes⟩ nowMs
  match engine.authorKeyWrap rotate store conversationId newGeneration ⟨kConvBytes⟩
      postRevocation nowMs with
  | (.error error, engine) => (.error error, engine)
  | (.ok wrapEffects, engine) =>
      match engine.authorSenderKeyDistribution rotate store conversationId newGeneration
          oldGeneration nowMs with
      | (.error error, engine) => (.error error, engine)
      | (.ok distributionEffects, engine) =>
          (.ok (.writeConversationKey conversationId newGeneration ⟨kConvBytes⟩ ::
            (wrapEffects ++ distributionEffects)), engine.dropSigningKey oldGeneration)

/-- The rotation as a node's side effects see it: the nodes it authors do not rotate. -/
def rotateConversationKey (nowMs : Int) : Rotation := fun engine postRevocation =>
  engine.rotateConversationKeyWith (fun engine _ => (.ok [], engine)) store conversationId nowMs
    postRevocation

/-- `author_node_internal` with side effects that rotate. -/
def authorWithRotation (content : Content) (metadata : Bytes) (useEpoch : Option Nat)
    (nowMs : Int) : Outcome :=
  engine.authorNodeInternal (rotateConversationKey store conversationId nowMs) store
    conversationId content metadata useEpoch nowMs

/-- A fresh sender key of this device within the current epoch. -/
def senderRekey (nowMs : Int) : Outcome :=
  match engine.establishedState conversationId with
  | none => (.ok [], engine)
  | some em =>
      let epoch := em.currentEpoch
      let (senderKeyBytes, rng) := engine.rng.next
      let senderKey : SenderKey := ⟨senderKeyBytes⟩
      let engine := (engine.withRng rng).modifyEstablished conversationId fun em =>
        { em with
            senderKeys := em.senderKeys.insert (engine.selfPk, epoch) senderKey
            selfMessageCount := 0
            selfLastRekeyTimeMs := nowMs
            sharedKeysSentTo := [] }
      let (signingKey, engine) := engine.ensureSigningKey epoch
      let lastSeq := ((engine.establishedState conversationId).map fun em =>
        em.getSenderLastSeq engine.selfPk).getD 0
      let payload := tripletPayload ⟨senderKey.bytes⟩ lastSeq
        (engine.ownHeaderKey conversationId epoch senderKey)
      let (ephemeralSk, rng) := engine.rng.next
      let (recipients, engine) := (engine.withRng rng).activeRecipients conversationId nowMs
      engine.distribute (rotateConversationKey store conversationId nowMs) store conversationId
        epoch payload recipients ⟨Primitives.verifyingKey signingKey⟩ [] ⟨ephemeralSk⟩ nowMs

/-- The ratchet state a just-in-time distribution hands out. -/
def jitState (em : Established) (kConv : KConv) : Nat × ChainKey × HeaderKey :=
  let epoch := em.currentEpoch
  let initial := (seqOf epoch 0, Primitives.ratchetInitSender kConv engine.selfPk)
  let (lastSeq, nextKey) := match em.senderRatchets.get engine.selfPk with
    | some ratchet =>
        if ratchet.epochId = epoch then (ratchet.lastSeq, ratchet.nextKey) else initial
    | none => initial
  let kHeader := match em.jitHeaders.get (engine.selfPk, epoch) with
    | some kHeader => kHeader
    | none => Primitives.deriveKHeaderEpoch kConv (headerSenderKey em engine.selfPk epoch kConv)
  (lastSeq, nextKey, kHeader)

/-- Hand the current state of this device's ratchet to devices that lack it. -/
def authorJitSenderKeyDistribution (targets : List PhysicalDevicePk) (nowMs : Int) : Outcome :=
  match engine.selfSk, engine.establishedState conversationId with
  | none, _ | _, none => (.ok [], engine)
  | some _, some em =>
      match em.getKeys em.currentEpoch with
      | none => (.error (.other "No keys for current epoch"), engine)
      | some kConv =>
          let (lastSeq, nextKey, kHeader) := engine.jitState em kConv
          let (ephemeralSk, rng) := engine.rng.next
          let (wrappedKeys, engine) := (engine.withRng rng).wrapFor ⟨ephemeralSk⟩ true
            (tripletPayload nextKey lastSeq kHeader) nowMs targets
          let engine := engine.noteSent conversationId targets
          let (signingKey, engine) := engine.ensureSigningKey em.currentEpoch
          engine.authorWithRotation store conversationId
            (.senderKeyDistribution (Primitives.x25519PublicKey ⟨ephemeralSk⟩) wrappedKeys
              ⟨Primitives.verifyingKey signingKey⟩ [])
            [] (some em.currentEpoch) nowMs

def messagesPerEpoch : Nat := 5000
def epochDurationMs : Int := 7 * 24 * 60 * 60 * 1000
def messagesPerAnchor : Nat := 400
def messagesPerSenderRekey : Nat := 5000
def senderRekeyDurationMs : Int := 7 * 24 * 60 * 60 * 1000

def checkRotationTriggers (nowMs : Int) : Bool :=
  (engine.establishedState conversationId).any fun em =>
    messagesPerEpoch ≤ em.messageCount || epochDurationMs ≤ nowMs - em.lastRotationTimeMs

def checkSenderRekeyTriggers (nowMs : Int) : Bool :=
  (engine.establishedState conversationId).any fun em =>
    messagesPerSenderRekey ≤ em.selfMessageCount ||
      senderRekeyDurationMs ≤ nowMs - em.selfLastRekeyTimeMs

/-- Contents a device in observer mode may author. -/
def isObserverSafe : Content → Bool
  | .control (.announcement ..) | .control .handshakePulse => true
  | .keyWrap .. | .senderKeyDistribution .. => true
  | _ => false

/-- The guards of `author_node`. -/
def authoringBlocked (content : Content) : Option MerkleToxError :=
  let isSetup := match content with
    | .control (.genesis ..) | .control (.authorizeDevice _) | .control (.revokeDevice ..) => true
    | _ => false
  let isPending := match engine.conversations.get conversationId with
    | some (.pending _) =>
        !engine.identityManager.hasAuthorizationRecord conversationId engine.selfPk
    | _ => false
  let isHealing := match content with
    | .control (.announcement ..) | .control .handshakePulse => true
    | _ => false
  if !isObserverSafe content && !isSetup &&
      engine.keywrapPending.values.any fun pending => pending = conversationId then
    some (.other "Cannot author content: awaiting KEYWRAP_ACK (OPK consumed)")
  else if !isObserverSafe content &&
      (isPending || engine.isIdentityPending conversationId) then
    some (.other
      "Cannot author nodes: device is in observer mode (pending/identity_pending)")
  else if engine.trustRestoredDevices.contains (conversationId, engine.selfPk) && !isHealing then
    some (.other "Cannot author: device is in trust-restored observer mode")
  else none

/-- Rotation or rekey, when one is due. -/
def refreshKeys (nowMs : Int) : Outcome :=
  if engine.checkRotationTriggers conversationId nowMs then
    match rotateConversationKey store conversationId nowMs engine false with
    | (.ok effects, engine) => (.ok (effects ++ [.historySnapshotNeeded conversationId]), engine)
    | (.error error, engine) => (.error error, engine)
  else if engine.checkSenderRekeyTriggers conversationId nowMs then
    engine.senderRekey store conversationId nowMs
  else (.ok [], engine)

/-- Before a content node, share the ratchet with active devices that lack it; a
failure to do so is ignored. -/
def shareJustInTime (content : Content) (nowMs : Int) : List Effect × Engine :=
  if content.isControl || content.isKeyWrap then ([], engine)
  else
    match engine.establishedState conversationId with
    | none => ([], engine)
    | some em =>
        let (authorized, manager) := engine.identityManager.listActiveAuthorizedDevices .global
          conversationId nowMs u64Max
        let engine := engine.withIdentity manager
        let missing := authorized.filter fun devicePk =>
          devicePk ≠ engine.selfPk && !em.sharedKeysSentTo.contains devicePk
        if missing.isEmpty then ([], engine)
        else
          match engine.authorJitSenderKeyDistribution store conversationId missing nowMs with
          | (.ok effects, engine) => (effects, engine)
          | (.error _, engine) => ([], engine)

/-- `author_node` up to its automatic anchors. -/
def authorNodeOnce (content : Content) (metadata : Bytes) (nowMs : Int) : Outcome :=
  let engine := engine.clearPending
  match engine.authoringBlocked conversationId content with
  | some error => (.error error, engine)
  | none =>
      match engine.refreshKeys store conversationId nowMs with
      | (.error error, engine) => (.error error, engine)
      | (.ok refreshed, engine) =>
          let (shared, engine) := engine.shareJustInTime store conversationId content nowMs
          let useGeneration := match content with
            | .keyWrap generation .. => some generation
            | _ => none
          match engine.authorWithRotation store conversationId content metadata useGeneration
              nowMs with
          | (.error error, engine) => (.error error, engine)
          | (.ok effects, engine) => (.ok (refreshed ++ shared ++ effects), engine)

def createSnapshot (nowMs : Int) : Outcome :=
  match (store.heads.get conversationId).getD [] with
  | [] => (.error (.validation .emptyDag), engine)
  | basisHash :: _ =>
      let members := (engine.identityManager.listMembers conversationId).map
        fun (publicKey, role, joinedAt) => MemberInfo.mk publicKey role joinedAt
      let lastSeqNumbers := (engine.identityManager.listAuthorizedDevices conversationId).map
        fun devicePk => (devicePk, store.getLastSequenceNumber devicePk)
      engine.authorNodeOnce store conversationId
        (.control (.snapshot ⟨basisHash, members, lastSeqNumbers⟩)) [] nowMs

def authorSoftAnchor (nowMs : Int) : Outcome :=
  match (store.adminHeads.get conversationId).getD [], engine.selfCerts.get conversationId with
  | [], _ => (.error (.validation .emptyDag), engine)
  | _ :: _, none => (.error .notAuthorized, engine)
  | basisHash :: _, some cert =>
      engine.authorNodeOnce store conversationId (.control (.softAnchor basisHash cert)) [] nowMs

/-- A device without ADMIN re-anchors at a random distance of 400 to 450 hops. -/
def softAnchorDue : Bool × Engine :=
  match engine.selfCerts.get conversationId with
  | none => (false, engine)
  | some cert =>
      let distances := ((store.heads.get conversationId).getD []).filterMap
        store.getAdminDistance
      let hops := distances.min?.getD 0 + 1
      if cert.permissions.includes .admin || hops < 400 then (false, engine)
      else
        let (bytes, rng) := engine.rng.next
        (400 + bytes.toNat % 51 ≤ hops, engine.withRng rng)

/-- The anchors that follow a content node: a snapshot every 400 messages, or a soft
anchor; a failure to author them is ignored. -/
def autoAnchor (nowMs : Int) : List Effect × Engine :=
  let kept (outcome : Outcome) : List Effect × Engine := match outcome with
    | (.ok effects, engine) => (effects, engine)
    | (.error _, engine) => ([], engine)
  if (engine.establishedState conversationId).any fun em =>
      0 < em.messageCount && em.messageCount % messagesPerAnchor = 0 then
    kept (engine.createSnapshot store conversationId nowMs)
  else
    match engine.softAnchorDue store conversationId with
    | (false, engine) => ([], engine)
    | (true, engine) => kept (engine.authorSoftAnchor store conversationId nowMs)

def authorNode (content : Content) (metadata : Bytes) (nowMs : Int) : Outcome :=
  match engine.authorNodeOnce store conversationId content metadata nowMs with
  | (.error error, engine) => (.error error, engine)
  | (.ok effects, engine) =>
      if content.isControl then (.ok effects, engine)
      else
        let (anchorEffects, engine) := engine.autoAnchor store conversationId nowMs
        (.ok (effects ++ anchorEffects), engine)

end Engine

end MerkleTox.Core
