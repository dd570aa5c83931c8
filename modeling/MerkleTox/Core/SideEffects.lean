import MerkleTox.Core.Authenticity

/-! # Side effects of nodes

`apply_side_effects`: what a verified node, or an authentic bootstrap node, does to
the identity state, to the keys of its conversation and to the heads. A revocation
authored here and a handshake pulse rotate the conversation key, which authors nodes
in turn; the rotation is a parameter `rotate`, tied to the authoring functions in
`MerkleTox.Core.Authoring`.
-/

namespace MerkleTox.Core

open Library Proto

/-- The result of a fallible engine operation; state changes survive an error. -/
abbrev Outcome := Except MerkleToxError (List Effect) × Engine

/-- A rotation of the conversation key, for one conversation and store, at one time;
the flag says whether it follows a revocation. -/
abbrev Rotation := Engine → Bool → Outcome

namespace Engine

variable [Primitives]
variable (engine : Engine) (rotate : Rotation) (ctx : CausalContext)
  (conversationId : ConversationId)

def withIdentity (manager : IdentityManager) : Engine :=
  { engine with identityManager := manager }

def setAnchor (nodeHash : NodeHash) : Engine :=
  { engine with
      latestAnchorHashes := engine.latestAnchorHashes.insert conversationId nodeHash }

/-- Rewrite a conversation that exists, pending or established. -/
def modifyConversation (f : Conversation → Conversation) : Engine :=
  { engine with conversations := engine.conversations.modify conversationId f }

def applyGenesis (node : MerkleNode) (creatorPk : LogicalIdentityPk) (createdAt : Int)
    (flags : BitVec 64) : Engine :=
  (((engine.withIdentity (engine.identityManager.addMember conversationId creatorPk 0
      createdAt)).setAnchor conversationId (hash node)).modifyConversation conversationId
        fun conversation => conversation.setGenesisFlags flags).modifyEstablished conversationId
          fun em => { em with identityPending := false }

def applyAuthorize (node : MerkleNode) (cert : DelegationCertificate) : Outcome :=
  let (result, manager) := engine.identityManager.authorizeDevice ctx conversationId
    node.authorPk cert node.networkTimestamp node.topologicalRank (hash node)
  let engine := engine.withIdentity manager
  match result with
  | .error error => (.error (.identity error), engine)
  | .ok () =>
      if cert.devicePk = engine.selfPk then
        (.ok [], { engine with selfCerts := engine.selfCerts.insert conversationId cert })
      else (.ok [], engine)

/-- Whether this device holds ADMIN in a causal context. -/
def holdsAdmin (nowMs : Int) (rank : Nat) : Bool :=
  ((engine.identityManager.getPermissions ctx conversationId engine.selfPk engine.selfLogicalPk
    nowMs rank).getD .none).includes .admin

/-- Rotate and keep the effects if that succeeds. -/
def tryRotate (postRevocation : Bool) : List Effect × Engine :=
  match rotate engine postRevocation with
  | (.ok effects, engine) => (effects, engine)
  | (.error _, engine) => ([], engine)

def applyRevoke (node : MerkleNode) (target : PhysicalDevicePk) (nowMs : Int) :
    List Effect × Engine :=
  let engine := (engine.withIdentity (engine.identityManager.revokeDevice conversationId
    node.senderPk node.authorPk target node.topologicalRank node.networkTimestamp
    (hash node))).modifyConversation conversationId fun conversation =>
      conversation.setVouchers (conversation.vouchers.mapValues fun _ devices =>
        devices.erase target)
  -- Only the author of a revocation rotates; parallel rotations would conflict.
  if node.senderPk = engine.selfPk &&
      engine.holdsAdmin ctx conversationId nowMs node.topologicalRank then
    engine.tryRotate rotate true
  else ([], engine)

def applyLeave (node : MerkleNode) (logicalPk : LogicalIdentityPk) : Engine :=
  engine.withIdentity (engine.identityManager.removeMember conversationId node.senderPk
    node.authorPk logicalPk node.topologicalRank node.networkTimestamp (hash node))

/-- Keep the pre-keys that the announcing device has signed. -/
def applyAnnouncement (node : MerkleNode) (preKeys : List SignedPreKey)
    (lastResortKey : SignedPreKey) : Engine :=
  let valid := preKeys.filter fun preKey =>
    Primitives.verify node.senderPk.bytes (Primitives.keyBytes preKey.publicKey)
      preKey.signature
  { engine with
      peerAnnouncements := engine.peerAnnouncements.insert node.senderPk ⟨valid, lastResortKey⟩ }

def applyAnchorSnapshot (node : MerkleNode) (data : SnapshotData) (nowMs : Int) : Engine :=
  let engine := engine.setAnchor conversationId (hash node)
  let engine := engine.withIdentity (data.members.foldl
    (fun manager member =>
      manager.addMember conversationId member.publicKey member.role member.joinedAt)
    engine.identityManager)
  if data.members.any fun member => member.publicKey = engine.selfLogicalPk then
    { engine with
        trustRestoredDevices :=
          engine.trustRestoredDevices.insert (conversationId, engine.selfPk) nowMs }
  else engine

/-- Five minutes have passed since the last rotation. -/
def rotationDue (nowMs : Int) : Bool :=
  match engine.establishedState conversationId with
  | some em => 300000 ≤ nowMs - em.lastRotationTimeMs
  | none => true

/-- A pulse of a rank not handled before makes an admin rotate, at most every five
minutes. -/
def applyHandshakePulse (node : MerkleNode) (nowMs : Int) : List Effect × Engine :=
  let key := (conversationId, node.senderPk)
  let handled := (engine.highestHandledPulse.get key).getD 0
  let engine := { engine with
    highestHandledPulse := engine.highestHandledPulse.insert key
      (max handled node.topologicalRank) }
  if handled < node.topologicalRank &&
      engine.holdsAdmin ctx conversationId nowMs node.topologicalRank &&
      engine.rotationDue conversationId nowMs then
    engine.tryRotate rotate false
  else ([], engine)

/-- Learn the signing key of the sender, and reset its ratchet when the distribution is
for the current epoch: a rekey. -/
def applyDistribution (node : MerkleNode) (ephemeralSigningPk : EphemeralSigningPk) : Engine :=
  let hasEpochKey := (engine.establishedState conversationId).any fun em =>
    (em.getKeys node.epoch).isSome
  let engine :=
    if hasEpochKey || node.authentication.isSignature then
      { engine with
          peerEphemeralSigningKeys := engine.peerEphemeralSigningKeys.insert
            (node.senderPk, node.epoch) ephemeralSigningPk }
    else engine
  engine.modifyEstablished conversationId fun em =>
    if node.epoch = em.currentEpoch then em.resetSender node.senderPk else em

/-- The administrative and cryptographic action of a node. -/
def applyAction (node : MerkleNode) (nowMs : Int) : Outcome :=
  let done (result : List Effect × Engine) : Outcome := (.ok result.1, result.2)
  match node.content with
  | .control (.genesis _ creatorPk _ flags createdAt _) =>
      (.ok [], engine.applyGenesis conversationId node creatorPk createdAt flags)
  | .control (.authorizeDevice cert) => engine.applyAuthorize ctx conversationId node cert
  | .control (.revokeDevice target _) =>
      done (engine.applyRevoke rotate ctx conversationId node target nowMs)
  | .control (.invite invite) =>
      (.ok [], engine.withIdentity (engine.identityManager.addMember conversationId
        invite.inviteePk invite.role node.networkTimestamp))
  | .control (.leave logicalPk) => (.ok [], engine.applyLeave conversationId node logicalPk)
  | .control (.announcement preKeys lastResortKey) =>
      (.ok [], engine.applyAnnouncement node preKeys lastResortKey)
  | .control (.snapshot _) => (.ok [], engine.setAnchor conversationId (hash node))
  | .control (.anchorSnapshot data _) =>
      (.ok [], engine.applyAnchorSnapshot conversationId node data nowMs)
  | .control (.softAnchor ..) => (.ok [], engine.setAnchor conversationId (hash node))
  | .control .handshakePulse =>
      done (engine.applyHandshakePulse rotate ctx conversationId node nowMs)
  | .senderKeyDistribution _ _ ephemeralSigningPk _ =>
      (.ok [], engine.applyDistribution conversationId node ephemeralSigningPk)
  | _ => (.ok [], engine)

/-- Advance the ratchet of the sender past a content node. -/
def advanceEstablished (em : Established) (conversationId : ConversationId)
    (node : MerkleNode) (nowMs : Int) : List Effect × Established :=
  match em.peekKeys node.senderPk node.seq nowMs with
  | (none, em) => ([], em)
  | (some (_, nextKey), em) =>
      let (previous, em) :=
        em.commitNodeKey node.senderPk node.seq nextKey (hash node) node.epoch
      (.writeRatchetKey conversationId (hash node) nextKey node.epoch ::
        previous.toList.map (.deleteRatchetKey conversationId), em)

/-- Advance the ratchet, or note the sequence number of a node that does not use it. -/
def advanceRatchet (node : MerkleNode) (nowMs : Int) : List Effect × Engine :=
  match engine.establishedState conversationId with
  | none => ([], engine)
  | some em =>
      if node.skipsRatchet then
        ([], engine.setConversation conversationId
          (.established (em.trackSenderSeq node.senderPk node.seq node.epoch)))
      else
        let (effects, em) := advanceEstablished em conversationId node nowMs
        (effects, engine.setConversation conversationId (.established em))

/-- The heads of a track after a node: its parents go, it comes. -/
def nextHeads (heads : List NodeHash) (node : MerkleNode) : List NodeHash :=
  insertOnce (heads.filter fun head => !node.parents.contains head) (hash node)

def updateHeads (engine : Engine) (store : InMemoryStore) (conversationId : ConversationId)
    (node : MerkleNode) : List Effect × Engine :=
  let overlay := engine.overlay store
  let cache := engine.pendingCache
  if node.nodeType = .admin then
    let heads := nextHeads (overlay.getAdminHeads conversationId) node
    ([.updateHeads conversationId heads true],
      { engine with pendingCache :=
          { cache with adminHeads := cache.adminHeads.insert conversationId heads } })
  else
    let heads := nextHeads (overlay.getHeads conversationId) node
    ([.updateHeads conversationId heads false],
      { engine with pendingCache :=
          { cache with heads := cache.heads.insert conversationId heads } })

/-- `apply_side_effects`. -/
def applySideEffects (store : InMemoryStore) (conversationId : ConversationId) (node : MerkleNode)
    (nowMs : Int) : Outcome :=
  let (ctx, engine) := engine.causalContext store node
  match engine.applyAction rotate ctx conversationId node nowMs with
  | (.error error, engine) => (.error error, engine)
  | (.ok actionEffects, engine) =>
      let (ratchetEffects, engine) := engine.advanceRatchet conversationId node nowMs
      let (headEffects, engine) := engine.updateHeads store conversationId node
      (.ok (actionEffects ++ ratchetEffects ++ headEffects), engine)

end Engine

end MerkleTox.Core
