import MerkleTox.Core.Conversation
import MerkleTox.Core.Identity
import MerkleTox.Core.Validation

/-! # The engine and its effects

The state of `MerkleToxEngine` as far as the handling and the authoring of nodes
read it, the effects it emits and its small queries. Peer sessions, blob transfers
and the counters that only the background tasks read are left out. One reading of
the network clock stands for all readings within a call.
-/

namespace MerkleTox.Core

open Library Proto

inductive MerkleToxError
  | identity (error : IdentityError)
  | validation (error : ValidationError)
  | crypto (message : String)
  | permissionDenied (pk : PhysicalDevicePk) (required actual : Permissions)
  | keyNotFound (conversationId : ConversationId) (epoch : Nat)
  | notAuthorized
  | other (message : String)
  deriving DecidableEq, Repr

inductive NodeEvent
  | nodeVerified (conversationId : ConversationId) (hash : NodeHash) (node : MerkleNode)
  | nodeIdentityPending (conversationId : ConversationId) (hash : NodeHash) (node : MerkleNode)
  | nodeSpeculative (conversationId : ConversationId) (hash : NodeHash) (node : MerkleNode)
  | nodeInvalidated (conversationId : ConversationId) (hash : NodeHash)
  deriving DecidableEq, Repr

inductive ProtocolMessage
  | keywrapAck (keywrapHash : NodeHash) (recipientPk : PhysicalDevicePk)
  deriving DecidableEq, Repr

inductive Effect
  | sendPacket (peerPk : PhysicalDevicePk) (message : ProtocolMessage)
  | writeStore (conversationId : ConversationId) (node : MerkleNode) (verified : Bool)
  | writeWireNode (conversationId : ConversationId) (hash : NodeHash) (wire : WireNode)
  | deleteWireNode (conversationId : ConversationId) (hash : NodeHash)
  | writeRatchetKey (conversationId : ConversationId) (hash : NodeHash) (key : ChainKey)
      (epochId : Nat)
  | deleteRatchetKey (conversationId : ConversationId) (hash : NodeHash)
  | updateHeads (conversationId : ConversationId) (heads : List NodeHash) (isAdmin : Bool)
  | writeConversationKey (conversationId : ConversationId) (epoch : Nat) (key : KConv)
  | writeEpochMetadata (conversationId : ConversationId) (count : Nat) (time : Int)
  | emitEvent (event : NodeEvent)
  | historySnapshotNeeded (conversationId : ConversationId)
  deriving DecidableEq, Repr

structure Announcement where
  preKeys : List SignedPreKey
  lastResortKey : SignedPreKey
  deriving DecidableEq, Repr

structure Equivocation where
  conversationId : ConversationId
  devicePk : PhysicalDevicePk
  seq : Nat
  existingHash : NodeHash
  conflictingHash : NodeHash
  deriving DecidableEq, Repr

structure BlacklistState where
  tier : Nat
  expiresAtMs : Int
  deriving DecidableEq, Repr

def BlacklistState.isActive (state : BlacklistState) (nowMs : Int) : Bool :=
  0 < state.tier && nowMs < state.expiresAtMs

/-- A search for the admin ancestors of a node, with what it read and what it found. -/
structure Search where
  overlay : Overlay
  node : MerkleNode
  ancestors : List NodeHash

structure Engine where
  selfPk : PhysicalDevicePk
  selfLogicalPk : LogicalIdentityPk
  selfSk : Option SigningKey
  selfDhSk : Option EphemeralX25519Sk
  identityManager : IdentityManager
  conversations : AssocMap ConversationId Conversation
  ephemeralKeys : AssocMap EphemeralX25519Pk EphemeralX25519Sk
  peerAnnouncements : AssocMap PhysicalDevicePk Announcement
  rng : Rng
  pendingCache : PendingCache
  highestHandledPulse : AssocMap (ConversationId × PhysicalDevicePk) Nat
  latestAnchorHashes : AssocMap ConversationId NodeHash
  selfEphemeralSigningKeys : AssocMap Nat SigningKey
  peerEphemeralSigningKeys : AssocMap (PhysicalDevicePk × Nat) EphemeralSigningPk
  adminAncestorsCache : LruCache NodeHash (List NodeHash)
  trustRestoredDevices : AssocMap (ConversationId × PhysicalDevicePk) Int
  /-- The conversations of the key wraps that await their acknowledgement. -/
  keywrapPending : AssocMap NodeHash ConversationId
  consumedOpkIds : AssocMap NodeHash (NodeHash × PhysicalDevicePk × Nat)
  softAnchorDedup : AssocMap ConversationId (List (PhysicalDevicePk × NodeHash))
  selfCerts : AssocMap ConversationId DelegationCertificate
  verifiedNodeSeqs : AssocMap (ConversationId × PhysicalDevicePk × Nat) NodeHash
  equivocations : List Equivocation
  /-- A history that the code does not have: the nodes authored here, newest first. -/
  authored : List (ConversationId × MerkleNode)
  /-- Another such history: the searches for admin ancestors, newest first. -/
  searches : List Search

variable (engine : Engine) (conversationId : ConversationId)

namespace Engine

def new (selfPk : PhysicalDevicePk) (selfLogicalPk : LogicalIdentityPk)
    (selfSk : Option SigningKey) (selfDhSk : Option EphemeralX25519Sk) (rng : Rng) : Engine where
  selfPk := selfPk
  selfLogicalPk := selfLogicalPk
  selfSk := selfSk
  selfDhSk := selfDhSk
  identityManager := .new
  conversations := .empty
  ephemeralKeys := .empty
  peerAnnouncements := .empty
  rng := rng
  pendingCache := .new
  highestHandledPulse := .empty
  latestAnchorHashes := .empty
  selfEphemeralSigningKeys := .empty
  peerEphemeralSigningKeys := .empty
  adminAncestorsCache := .new 20000
  trustRestoredDevices := .empty
  keywrapPending := .empty
  consumedOpkIds := .empty
  softAnchorDedup := .empty
  selfCerts := .empty
  verifiedNodeSeqs := .empty
  equivocations := []
  authored := []
  searches := []

def overlay (store : InMemoryStore) : Overlay := ⟨store, engine.pendingCache⟩

def clearPending : Engine := { engine with pendingCache := .new }

/-- The established state of a conversation. -/
def establishedState : Option Established :=
  (engine.conversations.get conversationId).bind Conversation.established?

def setConversation (conversation : Conversation) : Engine :=
  { engine with conversations := engine.conversations.insert conversationId conversation }

/-- Rewrite the state of a conversation that is established. -/
def modifyEstablished (f : Established → Established) : Engine :=
  match engine.establishedState conversationId with
  | some em => engine.setConversation conversationId (.established (f em))
  | none => engine

/-- Record a freshly drawn key or nonce as used. -/
def withRng (rng : Rng) : Engine := { engine with rng := rng }

def vouchCount (nodeHash : NodeHash) : Nat :=
  match engine.conversations.get conversationId with
  | some conversation => ((conversation.vouchers.get nodeHash).map AssocMap.size).getD 0
  | none => 0

def isIdentityPending : Bool :=
  (engine.establishedState conversationId).any Established.identityPending

section Keys

variable [Primitives]

/-- Our one-time pre-key with the given id; the zero id stands for none. -/
def findOpkSk (opkId : NodeHash) : Option EphemeralX25519Sk :=
  if opkId = .zero then none
  else
    (engine.ephemeralKeys.entries.find? fun entry => Primitives.opkId entry.1 = opkId).map
      Prod.snd

def consumeOpkSk (engine : Engine) (opkId : NodeHash) : Engine :=
  if opkId = .zero then engine
  else
    match engine.ephemeralKeys.entries.find? fun entry => Primitives.opkId entry.1 = opkId with
    | some entry => { engine with ephemeralKeys := engine.ephemeralKeys.erase entry.1 }
    | none => engine

/-- The secrets tried in unwrapping: the signed pre-keys, then the device's own key. -/
def unwrapSecrets : List EphemeralX25519Sk :=
  engine.ephemeralKeys.values ++ engine.selfDhSk.toList

def getRecipientSpk (recipientPk : PhysicalDevicePk) (nowMs : Int) : Option EphemeralX25519Pk :=
  (engine.peerAnnouncements.get recipientPk).map fun announcement =>
    match announcement.preKeys.find? fun preKey => nowMs < preKey.expiresAt with
    | some preKey => preKey.publicKey
    | none => announcement.lastResortKey.publicKey

def resolveRecipientSpk (recipientPk : PhysicalDevicePk) (nowMs : Int) : EphemeralX25519Pk :=
  (engine.getRecipientSpk recipientPk nowMs).getD (Primitives.devicePkToX25519 recipientPk)

/-- Take the first unexpired one-time pre-key of a recipient; the first pre-key is the
signed one and is never consumed. -/
def consumeRecipientOpk (recipientPk : PhysicalDevicePk) (nowMs : Int) :
    Option (EphemeralX25519Pk × NodeHash) × Engine :=
  match engine.peerAnnouncements.get recipientPk with
  | none => (none, engine)
  | some announcement =>
      let index := 1 + (announcement.preKeys.drop 1).findIdx fun preKey => nowMs < preKey.expiresAt
      match announcement.preKeys[index]? with
      | none => (none, engine)
      | some opk =>
          let rest := { announcement with preKeys := announcement.preKeys.eraseIdx index }
          (some (opk.publicKey, Primitives.opkId opk.publicKey),
            { engine with peerAnnouncements := engine.peerAnnouncements.insert recipientPk rest })

end Keys

/-- A bound on the nodes the search for admin ancestors can take from its stack. -/
def ancestorBound (overlay : Overlay) (parents : List NodeHash) : Nat :=
  parents.length + (overlay.cache.nodes.values.map fun node => node.parents.length).sum +
    (overlay.store.nodes.values.map fun stored => stored.node.parents.length).sum

/-- Depth-first search for the admin ancestors of a node. The answers for ancestors
that were evaluated before are taken from the cache. -/
def collectAdminAncestors (overlay : Overlay) :
    Nat → List NodeHash → List NodeHash → List NodeHash → LruCache NodeHash (List NodeHash) →
      List NodeHash × LruCache NodeHash (List NodeHash)
  | 0, _, _, found, cache => (found, cache)
  | _, [], _, found, cache => (found, cache)
  | fuel + 1, parent :: stack, visited, found, cache =>
      if visited.contains parent then
        collectAdminAncestors overlay fuel stack visited found cache
      else
        match overlay.getNode parent with
        | none => collectAdminAncestors overlay fuel stack (parent :: visited) found cache
        | some node =>
            let found := if node.nodeType = .admin then insertOnce found parent else found
            match cache.get parent with
            | (some known, cache) =>
                collectAdminAncestors overlay fuel stack (parent :: visited)
                  (known.foldl insertOnce found) cache
            | (none, cache) =>
                collectAdminAncestors overlay fuel (node.parents.reverse ++ stack)
                  (parent :: visited) found cache

variable [Primitives]

/-- The causal context of a node, remembering its admin ancestors. -/
def searchAncestors (overlay : Overlay) (node : MerkleNode) : CausalContext × Engine :=
  let (ancestors, cache) := collectAdminAncestors overlay
    (ancestorBound overlay node.parents + 1) node.parents.reverse [] []
    engine.adminAncestorsCache
  (⟨hash node, ancestors⟩,
    { engine with
        adminAncestorsCache := cache.put (hash node) ancestors
        searches := ⟨overlay, node, ancestors⟩ :: engine.searches })

def causalContext (store : InMemoryStore) (node : MerkleNode) : CausalContext × Engine :=
  engine.searchAncestors (engine.overlay store) node

end Engine

end MerkleTox.Core
