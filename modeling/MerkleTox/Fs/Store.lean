import MerkleTox.Fs.Conversation

/-! # The file-system store

The conversations of a store behind one index from hashes to conversations, which every
read of a node consults first.
-/

namespace MerkleTox.Fs

open Library Proto MerkleTox.Core

def compactThreshold : Nat := 500

/-- `clock` is the last time stamp that the store took; each is later than the one before. -/
structure FsStore where
  conversations : AssocMap ConversationId ConversationContext
  nodeToConv : AssocMap NodeHash ConversationId
  clock : Nat

/-- `effective_timestamp`: the latest time stamp of a node and its ancestors. The first
argument bounds the length of a chain of ancestors. -/
def effectiveTimestamp (lookup : NodeHash → Option MerkleNode) : Nat → MerkleNode → Int
  | 0, node => node.networkTimestamp
  | fuel + 1, node =>
      node.parents.foldl (fun latest parent =>
        match lookup parent with
        | some ancestor => max latest (effectiveTimestamp lookup fuel ancestor)
        | none => latest) node.networkTimestamp

variable (store : FsStore) (conversationId : ConversationId)

namespace FsStore

def new : FsStore := ⟨.empty, .empty, 0⟩

/-- The next time stamp. -/
def now : Nat := store.clock + 1

/-- Open a conversation for the first time. -/
def ensureConversation [IndexSearch] [Primitives] (store : FsStore)
    (conversationId : ConversationId) : FsStore :=
  if store.conversations.contains conversationId then store
  else
    match ConversationContext.load (.new store.now) with
    | some context =>
        { store with
          conversations := store.conversations.insert conversationId context
          clock := store.now }
    | none => store

/-- Rewrite the context of a conversation. -/
def update (f : ConversationContext → ConversationContext) : FsStore :=
  { store with conversations := store.conversations.modify conversationId f }

def context : Option ConversationContext :=
  store.conversations.get conversationId

/-- The conversation that the index of hashes names. -/
def locate (nodeHash : NodeHash) : Option ConversationContext :=
  (store.nodeToConv.get nodeHash).bind store.context

/-! ## Reads -/

def hasNode (nodeHash : NodeHash) : Bool := store.nodeToConv.contains nodeHash

def hasChildren (store : FsStore) (nodeHash : NodeHash) : Bool :=
  (store.locate nodeHash).any fun context => context.hasChildren nodeHash

def getHeads : List NodeHash :=
  ((store.context conversationId).map fun context => context.state.heads).getD []

def getAdminHeads : List NodeHash :=
  ((store.context conversationId).map fun context => context.state.adminHeads).getD []

def getLastSequenceNumber (store : FsStore) (conversationId : ConversationId)
    (senderPk : PhysicalDevicePk) : Nat :=
  ((store.context conversationId).map fun context =>
    context.getLastSequenceNumber senderPk).getD 0

def getNodeCounts (store : FsStore) (conversationId : ConversationId) : Nat × Nat :=
  ((store.context conversationId).map ConversationContext.getNodeCounts).getD (0, 0)

def getNodeHashesInRange (range : SyncRange) : List NodeHash :=
  ((store.context conversationId).map fun context => context.hashesInRange range).getD []

def getOpaqueNodeHashes : List NodeHash :=
  ((store.context conversationId).map fun context => context.files.opaqueStore.hashes).getD []

def getConversationKeys (store : FsStore) (conversationId : ConversationId) :
    List (Nat × KConv) :=
  ((store.context conversationId).map ConversationContext.getConversationKeys).getD []

def getEpochMetadata (store : FsStore) (conversationId : ConversationId) : Option (Nat × Int) :=
  (store.context conversationId).bind ConversationContext.getEpochMetadata

def getRatchetKey (store : FsStore) (conversationId : ConversationId) (nodeHash : NodeHash) :
    Option (ChainKey × Nat) :=
  (store.context conversationId).bind fun context => context.getRatchetKey nodeHash

def getWireNode [WireFormat] (store : FsStore) (nodeHash : NodeHash) : Option WireNode :=
  (store.locate nodeHash).bind fun context =>
    match context.files.opaqueStore.getNode nodeHash with
    | .ok (some data) => WireFormat.deserializeWire data
    | _ => none

section Lookup

variable [IndexSearch]

def getNodeType (store : FsStore) (nodeHash : NodeHash) : Option NodeType :=
  (store.locate nodeHash).bind fun context => context.getNodeType nodeHash

def getRank (store : FsStore) (nodeHash : NodeHash) : Option Nat :=
  (store.locate nodeHash).bind fun context => context.getRank nodeHash

def getAdminDistance (store : FsStore) (nodeHash : NodeHash) : Option Nat :=
  (store.locate nodeHash).bind fun context => context.getAdminDistance nodeHash

def isVerified (store : FsStore) (nodeHash : NodeHash) : Bool :=
  (store.locate nodeHash).any fun context => context.isVerified nodeHash

variable [Primitives]

def getNode (store : FsStore) (nodeHash : NodeHash) : Option MerkleNode :=
  (store.locate nodeHash).bind fun context => context.getNode nodeHash

def getSpeculativeNodes : List MerkleNode :=
  ((store.context conversationId).map fun context =>
    context.speculativeHashes.filterMap store.getNode).getD []

/-- The order of presentation: by rank, then by effective time stamp, then by hash. -/
def presentedBefore (left right : MerkleNode) : Bool :=
  let time := effectiveTimestamp store.getNode store.nodeToConv.size
  left.topologicalRank < right.topologicalRank ||
    left.topologicalRank = right.topologicalRank &&
      (time left < time right ||
        time left = time right && (hash left).bytes ≤ (hash right).bytes)

def getVerifiedNodesByType (nodeType : NodeType) : List MerkleNode :=
  ((store.context conversationId).map fun context =>
    ((context.verifiedHashes nodeType).filterMap store.getNode).insertionSort
      fun left right => store.presentedBefore left right).getD []

/-! ## Writes -/

def saveState (store : FsStore) (conversationId : ConversationId)
    (change : ConvState → ConvState) : FsStore :=
  (store.ensureConversation conversationId).update conversationId fun context =>
    context.saveState (change context.state)

def setHeads (heads : List NodeHash) : FsStore :=
  store.saveState conversationId fun state => { state with heads := heads }

def setAdminHeads (heads : List NodeHash) : FsStore :=
  store.saveState conversationId fun state => { state with adminHeads := heads }

def updateEpochMetadata (messageCount : Nat) (lastRotationTime : Int) : FsStore :=
  store.saveState conversationId fun state =>
    { state with messageCount := messageCount, lastRotationTime := lastRotationTime }

def putConversationKey (epoch : Nat) (kConv : KConv) : FsStore :=
  (store.ensureConversation conversationId).update conversationId fun context =>
    { context with files := { context.files with keys := context.files.keys.insert epoch kConv } }

def markVerified (store : FsStore) (conversationId : ConversationId) (nodeHash : NodeHash) :
    FsStore :=
  (store.ensureConversation conversationId).update conversationId fun context =>
    context.markVerified nodeHash

def putRatchetKey (store : FsStore) (conversationId : ConversationId) (nodeHash : NodeHash)
    (chainKey : ChainKey) (epochId : Nat) : FsStore :=
  (store.ensureConversation conversationId).update conversationId fun context =>
    context.putRatchetKey nodeHash chainKey epochId

def removeRatchetKey (store : FsStore) (conversationId : ConversationId)
    (nodeHash : NodeHash) : FsStore :=
  store.update conversationId fun context => context.removeRatchetKey nodeHash

/-- Compaction of an open conversation; the pack takes its id from the clock. -/
def compactInternal (store : FsStore) (conversationId : ConversationId) : FsStore :=
  { store.update conversationId fun context => context.compactInternal store.now with
    clock := store.now }

def compact : FsStore :=
  (store.ensureConversation conversationId).compactInternal conversationId

/-- `put_node` up to its check of the threshold. -/
def recordNode (store : FsStore) (conversationId : ConversationId) (node : MerkleNode)
    (verified : Bool) : FsStore :=
  let written := (store.ensureConversation conversationId).update conversationId fun context =>
    context.recordNode node verified
  { written with nodeToConv := written.nodeToConv.insert (hash node) conversationId }

def isFull : Bool :=
  (store.context conversationId).any fun context =>
    compactThreshold ≤ context.volatileNodes.size

def putNode (node : MerkleNode) (verified : Bool) : FsStore :=
  let recorded := store.recordNode conversationId node verified
  if recorded.isFull conversationId then recorded.compactInternal conversationId else recorded

section Wire

variable [WireFormat]

def putWireNode (nodeHash : NodeHash) (wire : WireNode) : FsStore :=
  let written := (store.ensureConversation conversationId).update conversationId fun context =>
    { context with files := { context.files with
      opaqueStore := context.files.opaqueStore.putNode nodeHash
        (WireFormat.serializeWire wire) } }
  { written with nodeToConv := written.nodeToConv.insert nodeHash conversationId }

def removeWireNode (nodeHash : NodeHash) : FsStore :=
  let removed := (store.ensureConversation conversationId).update conversationId fun context =>
    { context with files := { context.files with
      opaqueStore := context.files.opaqueStore.removeNode nodeHash } }
  { removed with nodeToConv := removed.nodeToConv.erase nodeHash }

end Wire

/-! ## Reopening -/

/-- Open a conversation of a directory and index its hashes. -/
def discover (files : ConversationId → Option ConversationFiles) (store : FsStore)
    (conversationId : ConversationId) : FsStore :=
  match (files conversationId).bind ConversationContext.load with
  | some context =>
      { store with
        conversations := store.conversations.insert conversationId context
        nodeToConv := context.loadedHashes.foldl
          (fun index nodeHash => index.insert nodeHash conversationId) store.nodeToConv }
  | none => store

def files (store : FsStore) (conversationId : ConversationId) : Option ConversationFiles :=
  (store.context conversationId).map ConversationContext.files

/-- The entries of the directory of conversations, in an order of which the environment
decides the beginning. -/
def directory (order : List ConversationId) : List ConversationId :=
  (order.filter fun conversationId => store.conversations.contains conversationId).dedup ++
    store.conversations.keys.filter fun conversationId => !order.contains conversationId

/-- Open a store on the files of another. -/
def reopen (order : List ConversationId) : FsStore :=
  (store.directory order).foldl (discover store.files) ⟨.empty, .empty, store.clock⟩

end Lookup

end FsStore

end MerkleTox.Fs
