import MerkleTox.Core.Authoring

/-! # Handling received nodes

`handle_node`: the checks a received node passes, the keys it carries for this
device, the decision whether it is verified and the commit of the decision. The
re-verification of the nodes that waited for it is in `MerkleTox.Core.World`.
-/

namespace MerkleTox.Core

open Library Proto

def vouchThreshold : Nat := 1
def maxVouchersPerHash : Nat := 3
def maxSpeculativeNodesPerConversation : Nat := 1000
def maxVerifiedNodesPerDevice : Nat := 1000

namespace Engine

variable [Primitives]
variable (engine : Engine) (store : InMemoryStore) (ctx : CausalContext)
  (conversationId : ConversationId)

/-! ## Checks before the keys of a node are used -/

/-- What the engine knows of a node before it looks at its content. -/
structure Assessment where
  ctx : CausalContext
  structurallyValid : Bool
  authorized : Bool
  quarantined : Bool

/-- A node waits while a parent is unverified, while its sender is neither authorized
nor vouched for, or while its timestamp is off; bootstrap kinds only for the last. -/
def isQuarantined (node : MerkleNode) (authorized : Bool) (nowMs : Int) : Bool :=
  (!node.isBootstrap && node.parents.any fun parent =>
    !(engine.overlay store).isVerified parent) ||
  (!authorized && !node.isBootstrap &&
    engine.vouchCount conversationId (hash node) < vouchThreshold) ||
  !timely (engine.overlay store) node nowMs

def assess (node : MerkleNode) (nowMs : Int) : Except MerkleToxError Assessment × Engine :=
  match engine.checkStructure store node with
  | (.error error, engine) => (.error (.validation error), engine)
  | (.ok structurallyValid, engine) =>
      let (ctx, authorized, engine) := engine.authorization store conversationId node
      (.ok
        { ctx := ctx
          structurallyValid := structurallyValid
          authorized := authorized
          quarantined :=
            engine.isQuarantined store conversationId node authorized nowMs }, engine)

/-- The permission that the content of a node requires of its sender. -/
def requiredPermission (node : MerkleNode) : Permissions :=
  match node.content with
  | .keyWrap .. => .admin
  | .control action =>
      match action with
      | .authorizeDevice _ | .revokeDevice .. | .setTitle _ | .setTopic _ | .snapshot _
      | .anchorSnapshot .. | .genesis .. => .admin
      | .softAnchor .. => .message
      | .invite _ =>
          let flags := ((engine.conversations.get conversationId).map
            Conversation.genesisFlags).getD 0
          if flags &&& flagMemberInvite ≠ 0 then .message else .admin
      | .leave target => if node.authorPk = target then .none else .admin
      | .announcement .. | .handshakePulse => .none
  | _ => .message

def checkPermissions (node : MerkleNode) : Except MerkleToxError Unit :=
  let actual := (engine.identityManager.getPermissions ctx conversationId node.senderPk
    node.authorPk node.networkTimestamp node.topologicalRank).getD .none
  let required := engine.requiredPermission conversationId node
  if actual.includes required then .ok ()
  else .error (.permissionDenied node.senderPk required actual)

/-- Edits, redactions and reactions must fit their target, as far as it is known. -/
def checkTarget (node : MerkleNode) : Except MerkleToxError Unit :=
  let overlay := engine.overlay store
  match node.content with
  | .edit targetHash _ =>
      match overlay.getNode targetHash with
      | none => .ok ()
      | some target =>
          match target.content with
          | .text _ =>
              if target.authorPk = node.authorPk then .ok ()
              else .error (.validation .editAuthorMismatch)
          | _ => .error (.validation .invalidEditTarget)
  | .redaction targetHash _ =>
      match overlay.getNode targetHash with
      | none => .ok ()
      | some target =>
          let permissions := (engine.identityManager.getPermissions ctx conversationId
            node.senderPk node.authorPk node.networkTimestamp node.topologicalRank).getD .none
          if target.authorPk = node.authorPk || permissions.includes .admin then .ok ()
          else .error (.validation .redactionPermissionDenied)
  | .reaction targetHash _ =>
      if overlay.getNodeType targetHash = some .admin then
        .error (.validation .invalidReactionTarget)
      else .ok ()
  | .legacyBridge sourcePk text messageType dedupId =>
      if dedupId = Primitives.deriveLegacyBridgeDedupId conversationId sourcePk text messageType
      then .ok ()
      else .error (.validation .invalidLegacyBridgeDedup)
  | _ => .ok ()

/-- Permissions are checked of authorized senders and of devices with any record. -/
def checkRules (node : MerkleNode) (assessment : Assessment) : Except MerkleToxError Unit := do
  if assessment.authorized ||
      engine.identityManager.hasAuthorizationRecord conversationId node.senderPk then
    engine.checkPermissions assessment.ctx conversationId node
  engine.checkTarget store assessment.ctx conversationId node

/-- Another node was verified under the same sender and sequence number. -/
def recordEquivocation (node : MerkleNode) : Engine :=
  match engine.verifiedNodeSeqs.get (conversationId, node.senderPk, node.seq) with
  | some existing =>
      if existing = hash node then engine
      else { engine with
        equivocations := engine.equivocations ++
          [⟨conversationId, node.senderPk, node.seq, existing, hash node⟩] }
  | none => engine

/-- The ratchet has consumed this sequence number and no skipped key of it remains. -/
def isReplay (node : MerkleNode) : Bool :=
  match engine.establishedState conversationId with
  | none => false
  | some em =>
      match em.senderRatchets.get node.senderPk with
      | none => false
      | some ratchet =>
          ratchet.epochId = node.epoch && node.seq ≤ ratchet.lastSeq &&
            !em.skippedKeys.contains (node.senderPk, node.seq)

/-- The replay check and the quota of an authorized device. -/
def checkSequence (node : MerkleNode) : Except MerkleToxError Unit :=
  let last := (engine.overlay store).getLastSequenceNumber conversationId node.senderPk
  if node.seq ≤ last && engine.isReplay conversationId node then
    .error (.validation (.invalidSequenceNumber node.seq last))
  else if maxVerifiedNodesPerDevice ≤ counterOf last then
    .error (.validation .tooManyVerifiedNodes)
  else .ok ()

/-- All checks that can reject a node before its keys are used. -/
def vet (node : MerkleNode) (nowMs : Int) : Except MerkleToxError Assessment × Engine :=
  match engine.assess store conversationId node nowMs with
  | (.error error, engine) => (.error error, engine)
  | (.ok assessment, engine) =>
      match engine.checkRules store conversationId node assessment with
      | .error error => (.error error, engine)
      | .ok () =>
          if assessment.authorized then
            let engine := engine.recordEquivocation conversationId node
            match engine.checkSequence store conversationId node with
            | .error error => (.error error, engine)
            | .ok () => (.ok assessment, engine)
          else (.ok assessment, engine)

/-! ## Keys carried by a node -/

/-- Whether a key wrap loses against an earlier one that used the same one-time
pre-key: by sender key in a direct conversation, by admin seniority in a group. -/
def opkCollisionLost (node : MerkleNode)
    (consumed : AssocMap NodeHash (NodeHash × PhysicalDevicePk × Nat)) (opkId : NodeHash) :
    Bool :=
  if opkId = .zero then false
  else
    match consumed.get opkId with
    | none => false
    | some (_, previous, _) =>
        let manager := engine.identityManager
        if (manager.listMembers conversationId).length ≤ 2 then
          !(node.senderPk.bytes < previous.bytes)
        else
          !((manager.getAdminSeniority conversationId node.senderPk).getD .lowest).lt
            ((manager.getAdminSeniority conversationId previous).getD .lowest)

/-- Unwrap the conversation key from the first entry for this device that opens. -/
def unwrapKConv (engine : Engine) (conversationId : ConversationId) (node : MerkleNode)
    (ephemeralPk : EphemeralX25519Pk) :
    List WrappedKey → AssocMap NodeHash (NodeHash × PhysicalDevicePk × Nat) →
      Option (KConv × NodeHash) × AssocMap NodeHash (NodeHash × PhysicalDevicePk × Nat)
  | [], consumed => (none, consumed)
  | wrapped :: rest, consumed =>
      if wrapped.recipientPk ≠ engine.selfPk ||
          engine.opkCollisionLost conversationId node consumed wrapped.opkId then
        engine.unwrapKConv conversationId node ephemeralPk rest consumed
      else
        let consumed :=
          if wrapped.opkId = .zero then consumed
          else consumed.insert wrapped.opkId (hash node, node.senderPk, node.topologicalRank)
        match engine.unwrapSecrets.findSome? fun secret => eciesUnwrap32 secret ephemeralPk
            (engine.findOpkSk wrapped.opkId) none wrapped.ciphertext with
        | some key => (some (⟨key⟩, wrapped.opkId), consumed)
        | none => engine.unwrapKConv conversationId node ephemeralPk rest consumed

/-- The conversation after receiving a key for a generation. -/
def receiveKey (generation : Nat) (kConv : KConv) (timestamp : Int) : Established :=
  match engine.conversations.get conversationId with
  | some (.established em) => em.addEpoch generation kConv
  | some (.pending pending) =>
      { pending.establish kConv timestamp generation with
          identityPending := (engine.identityManager.getFounder conversationId).isNone }
  | none =>
      { Pending.new.establish kConv timestamp generation with
          identityPending := (engine.identityManager.getFounder conversationId).isNone }

/-- Install a received key; it lifts the restriction of a trust-restored device. -/
def acceptKey (generation : Nat) (kConv : KConv) (timestamp : Int) : Engine :=
  { engine.setConversation conversationId
      (.established (engine.receiveKey conversationId generation kConv timestamp)) with
    trustRestoredDevices := engine.trustRestoredDevices.erase (conversationId, engine.selfPk) }

/-- What a node's keys give: effects and the one-time pre-keys they used up. -/
structure KeyOutcome where
  effects : List Effect
  opkIds : List NodeHash
  engine : Engine

def processKeyWrap (node : MerkleNode) (generation : Nat) (ephemeralPk : EphemeralX25519Pk)
    (wrappedKeys : List WrappedKey) :
    KeyOutcome :=
  let (received, consumed) := engine.unwrapKConv conversationId node ephemeralPk wrappedKeys
    engine.consumedOpkIds
  let engine := { engine with consumedOpkIds := consumed }
  match received with
  | none => ⟨[], [], engine⟩
  | some (kConv, opkId) =>
      { effects :=
          [.sendPacket node.senderPk (.keywrapAck (hash node) engine.selfPk),
            .writeConversationKey conversationId generation kConv]
        opkIds := [opkId]
        engine := engine.acceptKey conversationId generation kConv node.networkTimestamp }

/-- Unwrap the payload of a distribution; the sender authenticates by the shared
secret of its device key and the pre-key. -/
def unwrapDistribution (node : MerkleNode) (ephemeralPk : EphemeralX25519Pk)
    (wrappedKeys : List WrappedKey) : Option (Bytes × NodeHash) :=
  (wrappedKeys.filter fun wrapped => wrapped.recipientPk = engine.selfPk).findSome?
    fun wrapped =>
      (engine.unwrapSecrets.findSome? fun secret =>
        Primitives.eciesUnwrap secret ephemeralPk (engine.findOpkSk wrapped.opkId)
          (some (Primitives.diffieHellman secret (Primitives.devicePkToX25519 node.senderPk)))
          wrapped.ciphertext).map fun payload => (payload, wrapped.opkId)

/-- The keys that a node of an authorized sender carries for this device. The key of a
history export opens a blob and leaves the conversation alone. -/
def processKeys (node : MerkleNode) : KeyOutcome :=
  match node.content with
  | .keyWrap generation _ ephemeralPk wrappedKeys =>
      engine.processKeyWrap conversationId node generation ephemeralPk wrappedKeys
  | .senderKeyDistribution ephemeralPk wrappedKeys _ _ =>
      match engine.unwrapDistribution node ephemeralPk wrappedKeys with
      | none => ⟨[], [], engine⟩
      | some (payload, opkId) =>
          ⟨[], [opkId], engine.modifyEstablished conversationId fun em =>
            em.seedSender node.senderPk node.epoch payload⟩
  | .historyExport _ _ _ ephemeralPk wrappedKeys =>
      match wrappedKeys.find? fun wrapped => wrapped.recipientPk = engine.selfPk with
      | none => ⟨[], [], engine⟩
      | some wrapped =>
          let opened := engine.unwrapSecrets.findSome? fun secret => eciesUnwrap32 secret
            ephemeralPk (engine.findOpkSk wrapped.opkId) none wrapped.ciphertext
          ⟨[], if opened.isSome then [wrapped.opkId] else [], engine⟩
  | _ => ⟨[], [], engine⟩

/-! ## The decision -/

/-- An anchor of an unauthorized sender rests on a certificate of the founder. -/
def founderCertifies (node : MerkleNode) (cert : DelegationCertificate) (required : Permissions) :
    Bool :=
  match engine.identityManager.getFounder conversationId with
  | none => false
  | some founder =>
      (verifyDelegation cert founder.bytes node.networkTimestamp).isOk &&
        cert.permissions.includes required && cert.devicePk = node.senderPk &&
        cert.conversationId = conversationId

/-- Whether an unauthorized node is verified on account of the certificate it carries.
An authorization is recorded here even when the node turns out not to be verified. -/
def judgeCertificate (node : MerkleNode) (assessment : Assessment) : Bool × Engine :=
  match node.content with
  | .control (.authorizeDevice cert) =>
      let (result, manager) := engine.identityManager.authorizeDevice assessment.ctx
        conversationId node.authorPk cert node.networkTimestamp node.topologicalRank (hash node)
      (result.isOk && assessment.structurallyValid, engine.withIdentity manager)
  | .control (.anchorSnapshot _ cert) =>
      (assessment.structurallyValid &&
        engine.founderCertifies conversationId node cert .admin, engine)
  | .control (.softAnchor _ cert) =>
      (assessment.structurallyValid &&
        engine.founderCertifies conversationId node cert .message, engine)
  | _ => (false, engine)

/-- The generic path is closed to anchors of unauthorized senders. -/
def skipsGenericPath (node : MerkleNode) (authorized : Bool) : Bool :=
  !authorized && match node.content with
    | .control (.anchorSnapshot ..) | .control (.softAnchor ..) => true
    | _ => false

/-- A second soft anchor of one device on one basis is not verified. -/
def dedupSoftAnchor (node : MerkleNode) (verified : Bool) : Bool × Engine :=
  match node.content with
  | .control (.softAnchor basisHash _) =>
      let accepted := (engine.softAnchorDedup.get conversationId).getD []
      if !verified then (false, engine)
      else if accepted.contains (node.senderPk, basisHash) then (false, engine)
      else (true, { engine with
        softAnchorDedup := engine.softAnchorDedup.insert conversationId
          (accepted ++ [(node.senderPk, basisHash)]) })
  | _ => (verified, engine)

/-- The generic path first, for authentic nodes and for all unauthorized ones; then the
certificate. -/
def decideVerified (node : MerkleNode) (assessment : Assessment) (authentic : Bool) :
    Bool × Engine :=
  if assessment.quarantined then (false, engine)
  else if assessment.structurallyValid && !skipsGenericPath node assessment.authorized &&
      (authentic || !assessment.authorized) then (true, engine)
  else if assessment.authorized then (false, engine)
  else engine.judgeCertificate conversationId node assessment

def judge (node : MerkleNode) (assessment : Assessment) (authentic : Bool) : Bool × Engine :=
  let (verified, engine) := engine.decideVerified conversationId node assessment authentic
  engine.dedupSoftAnchor conversationId node verified

/-! ## The commit -/

/-- Store the node in the overlay; too many speculative nodes are refused. -/
def storeNode (node : MerkleNode) (verified : Bool) : Except MerkleToxError Unit × Engine :=
  if !verified &&
      maxSpeculativeNodesPerConversation ≤ (engine.overlay store).speculativeCount then
    (.error (.validation .tooManySpeculativeNodes), engine)
  else (.ok (), { engine with
    pendingCache := engine.pendingCache.putNode conversationId node verified })

/-- Record a device as a voucher for a node, up to a limit for each node. -/
def vouchFor (senderPk : PhysicalDevicePk) (nowMs : Int) (vouchers : Vouchers)
    (parent : NodeHash) : Vouchers :=
  let devices := (vouchers.get parent).getD .empty
  vouchers.insert parent
    (if devices.size < maxVouchersPerHash then devices.insert senderPk nowMs else devices)

/-- The conversation of a node that was not known before is pending. -/
def openConversation : Engine :=
  { engine with
      conversations := engine.conversations.orInsert conversationId (.pending .new) }

/-- An authentic node vouches for its parents. -/
def vouchParents (node : MerkleNode) (authentic : Bool) (nowMs : Int) : Engine :=
  if authentic then
    engine.modifyConversation conversationId fun conversation =>
      conversation.setVouchers
        (node.parents.foldl (vouchFor node.senderPk nowMs) conversation.vouchers)
  else engine

/-- Remember the sequence number of a verified node, to detect equivocation. -/
def noteVerifiedSeq (node : MerkleNode) (verified : Bool) : Engine :=
  if verified then
    { engine with
        verifiedNodeSeqs := engine.verifiedNodeSeqs.insert
          (conversationId, node.senderPk, node.seq) (hash node) }
  else engine

/-- Consume the one-time pre-keys, make sure the conversation exists and record the
vouches and the sequence number of the node. -/
def recordNode (node : MerkleNode) (opkIds : List NodeHash) (verified authentic : Bool)
    (nowMs : Int) : Engine :=
  (((opkIds.foldl consumeOpkSk engine).openConversation conversationId).vouchParents
    conversationId node authentic nowMs).noteVerifiedSeq conversationId node verified

/-- The side effects of a node that is verified, or authentic and of a bootstrap kind. -/
def settle (node : MerkleNode) (verified authentic : Bool) (nowMs : Int) : Outcome :=
  if verified || (authentic && node.isBootstrap) then
    match engine.applySideEffects (rotateConversationKey store conversationId nowMs) store
        conversationId node nowMs with
    | (.error error, engine) => (.error error, engine)
    | (.ok effects, engine) =>
        if verified && changesAuthorization node.content then
          let (invalidated, engine) :=
            engine.revalidateAllVerifiedNodes store conversationId nowMs
          (.ok (effects ++ invalidated), engine)
        else (.ok effects, engine)
  else (.ok [], engine)

/-- The outcome of evaluating a node. -/
structure Verdict where
  verified : Bool
  authentic : Bool
  effects : List Effect

/-- Store a judged node, record it and apply its side effects; `keyEffects` and
`opkIds` come from its keys. -/
def commit (node : MerkleNode) (keyEffects : List Effect) (opkIds : List NodeHash)
    (verified authentic : Bool) (nowMs : Int) : Except MerkleToxError Verdict × Engine :=
  match engine.storeNode store conversationId node verified with
  | (.error error, engine) => (.error error, engine)
  | (.ok (), engine) =>
      match (engine.recordNode conversationId node opkIds verified authentic nowMs).settle store
          conversationId node verified authentic nowMs with
      | (.error error, engine) => (.error error, engine)
      | (.ok effects, engine) =>
          (.ok ⟨verified, authentic,
            keyEffects ++ [.writeStore conversationId node verified] ++ effects⟩, engine)

/-- The keys of a node are used if its sender is authorized. -/
def usedKeys (node : MerkleNode) (assessment : Assessment) : KeyOutcome :=
  if assessment.authorized then engine.processKeys conversationId node else ⟨[], [], engine⟩

/-- What an admitted node does: its keys are used, it is judged and committed. -/
def conclude (node : MerkleNode) (assessment : Assessment) (nowMs : Int) :
    Except MerkleToxError Verdict × Engine :=
  let keys := engine.usedKeys conversationId node assessment
  let authentic := keys.engine.isAuthentic store conversationId node
  let (verified, engine) := keys.engine.judge conversationId node assessment authentic
  engine.commit store conversationId node keys.effects keys.opkIds verified authentic nowMs

/-- The evaluation of one node: everything `handle_node_internal_ext` does with it,
short of re-verifying other nodes and reporting the event. -/
def evaluateNode (node : MerkleNode) (nowMs : Int) : Except MerkleToxError Verdict × Engine :=
  match engine.vet store conversationId node nowMs with
  | (.error error, engine) => (.error error, engine)
  | (.ok assessment, engine) => engine.conclude store conversationId node assessment nowMs

/-- The event that reports the outcome. -/
def nodeEvent (node : MerkleNode) (verified : Bool) : NodeEvent :=
  if verified then
    if engine.isIdentityPending conversationId then
      .nodeIdentityPending conversationId (hash node) node
    else .nodeVerified conversationId (hash node) node
  else .nodeSpeculative conversationId (hash node) node

end Engine

end MerkleTox.Core
