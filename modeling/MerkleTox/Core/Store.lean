import MerkleTox.Core.Primitives

/-! # The node store and the overlay of pending writes

`InMemoryStore` is the store the engine is called with; `PendingCache` holds what
the engine has written as effects but the store has not yet seen, and the overlay
reads through the cache to the store. A stored node is kept with its verification
flag and with its distance to the admin track, computed when it is stored. The
store holds one conversation's nodes, as the source ignores the conversation there.
-/

namespace MerkleTox.Core

open Library Proto

structure StoredNode where
  node : MerkleNode
  verified : Bool
  adminDistance : Nat

structure InMemoryStore where
  nodes : AssocMap NodeHash StoredNode
  speculativeNodes : List NodeHash
  opaqueNodes : List NodeHash
  wireNodes : AssocMap NodeHash (ConversationId × WireNode)
  lastSequenceNumbers : AssocMap PhysicalDevicePk Nat
  heads : AssocMap ConversationId (List NodeHash)
  adminHeads : AssocMap ConversationId (List NodeHash)
  keys : AssocMap (ConversationId × Nat) KConv
  ratchetKeys : AssocMap (ConversationId × NodeHash) (ChainKey × Nat)
  epochMetadata : AssocMap ConversationId (Nat × Int)
  children : AssocMap NodeHash (List NodeHash)

/-- Insert into a set kept as a list. -/
def insertOnce {α : Type} [DecidableEq α] (set : List α) (element : α) : List α :=
  if set.contains element then set else set ++ [element]

theorem mem_insertOnce {α : Type} [DecidableEq α] {set : List α} {element other : α} :
    other ∈ insertOnce set element ↔ other ∈ set ∨ other = element := by
  unfold insertOnce
  split
  next hmem =>
    refine ⟨.inl, ?_⟩
    rintro (h | rfl)
    · exact h
    · exact List.contains_iff_mem.mp hmem
  next => rw [List.mem_append, List.mem_singleton]

theorem nodup_insertOnce {α : Type} [DecidableEq α] {set : List α} (element : α)
    (hnodup : set.Nodup) : (insertOnce set element).Nodup := by
  unfold insertOnce
  split
  next => exact hnodup
  next hmem =>
    rw [List.nodup_append]
    refine ⟨hnodup, List.nodup_singleton _, fun other hother last hlast => ?_⟩
    rintro rfl
    rw [List.mem_singleton] at hlast
    exact hmem (List.contains_iff_mem.mpr (hlast ▸ hother))

variable (cache : PendingCache) (overlay : Overlay) (store : InMemoryStore)
  (conversationId : ConversationId)

namespace InMemoryStore

def new : InMemoryStore :=
  ⟨.empty, [], [], .empty, .empty, .empty, .empty, .empty, .empty, .empty, .empty⟩

def hasNode (hash : NodeHash) : Bool := store.nodes.contains hash

def isVerified (hash : NodeHash) : Bool :=
  (store.nodes.get hash).any StoredNode.verified

def getNode (hash : NodeHash) : Option MerkleNode :=
  (store.nodes.get hash).map StoredNode.node

def getAdminDistance (hash : NodeHash) : Option Nat :=
  (store.nodes.get hash).map StoredNode.adminDistance

/-- The consecutive soft anchors that end at a node; the first argument bounds the walk
along the basis hashes, which the number of stored nodes does. -/
def softAnchorChainLength (lookup : NodeHash → Option MerkleNode) : Nat → NodeHash → Option Nat
  | 0, _ => none
  | fuel + 1, hash =>
      match lookup hash with
      | none => none
      | some node =>
          match node.content with
          | .control (.softAnchor basisHash _) =>
              some (1 + (softAnchorChainLength lookup fuel basisHash).getD 0)
          | _ => some 0

/-- The distance to the admin track of a node to be stored, from the stored distances
of its parents. -/
def storedDistance (node : MerkleNode) : Nat :=
  if node.nodeType = .admin then 0
  else
    match (node.parents.filterMap store.getAdminDistance).min? with
    | none => 10
    | some distance => distance + 1

def noteSequence (senderPk : PhysicalDevicePk) (seq : Nat) : InMemoryStore :=
  { store with
      lastSequenceNumbers := store.lastSequenceNumbers.insert senderPk
        (max seq ((store.lastSequenceNumbers.get senderPk).getD 0)) }

/-- Note a node as a child of each of its parents. -/
def noteChild (nodeHash : NodeHash) (parents : List NodeHash)
    (children : AssocMap NodeHash (List NodeHash)) : AssocMap NodeHash (List NodeHash) :=
  parents.foldl (fun children parent =>
    children.insert parent ((children.get parent).getD [] ++ [nodeHash])) children

def hasChildren (hash : NodeHash) : Bool :=
  (store.children.get hash).any fun children => !children.isEmpty

variable [Primitives]

def putNode (node : MerkleNode) (verified : Bool) : InMemoryStore :=
  let nodeHash := hash node
  let noted := if verified then store.noteSequence node.senderPk node.seq else store
  { noted with
      nodes := store.nodes.insert nodeHash ⟨node, verified, store.storedDistance node⟩
      speculativeNodes :=
        if verified then store.speculativeNodes.erase nodeHash
        else insertOnce store.speculativeNodes nodeHash
      opaqueNodes := store.opaqueNodes.erase nodeHash
      children := noteChild nodeHash node.parents store.children }

def putWireNode (nodeHash : NodeHash) (wire : WireNode) : InMemoryStore :=
  { store with
      wireNodes := store.wireNodes.insert nodeHash (conversationId, wire)
      opaqueNodes :=
        if store.hasNode nodeHash then store.opaqueNodes
        else insertOnce store.opaqueNodes nodeHash }

def removeWireNode (nodeHash : NodeHash) : InMemoryStore :=
  { store with
      wireNodes := store.wireNodes.erase nodeHash
      opaqueNodes := store.opaqueNodes.erase nodeHash }

def getSpeculativeNodes : List MerkleNode :=
  store.speculativeNodes.filterMap store.getNode

def getLastSequenceNumber (senderPk : PhysicalDevicePk) : Nat :=
  (store.lastSequenceNumbers.get senderPk).getD 0

/-- The verified nodes of a track in the order of their ranks. -/
def getVerifiedNodesByType (nodeType : NodeType) : List MerkleNode :=
  sortByKey MerkleNode.topologicalRank
    ((store.nodes.values.filter fun stored =>
      stored.verified && stored.node.nodeType = nodeType).map StoredNode.node)

def getConversationKeys : List (Nat × KConv) :=
  sortByKey Prod.fst
    ((store.keys.entries.filter fun entry => entry.1.1 = conversationId).map
      fun entry => (entry.1.2, entry.2))

end InMemoryStore

/-- Writes that the store has not yet seen. -/
structure PendingCache where
  nodes : AssocMap NodeHash MerkleNode
  wireNodes : AssocMap NodeHash (ConversationId × WireNode)
  verified : List NodeHash
  heads : AssocMap ConversationId (List NodeHash)
  adminHeads : AssocMap ConversationId (List NodeHash)
  lastVerifiedSequences : AssocMap (ConversationId × PhysicalDevicePk) Nat
  adminDistances : AssocMap NodeHash Nat

def PendingCache.new : PendingCache := ⟨.empty, .empty, [], .empty, .empty, .empty, .empty⟩

/-- `EngineStore`: the cache in front of the store. -/
structure Overlay where
  store : InMemoryStore
  cache : PendingCache

namespace Overlay

def getNode (overlay : Overlay) (hash : NodeHash) : Option MerkleNode :=
  (overlay.cache.nodes.get hash).or (overlay.store.getNode hash)

def hasNode (overlay : Overlay) (hash : NodeHash) : Bool :=
  overlay.cache.nodes.contains hash || overlay.store.hasNode hash

def isVerified (overlay : Overlay) (hash : NodeHash) : Bool :=
  overlay.cache.verified.contains hash || overlay.store.isVerified hash

def getWireNode (hash : NodeHash) : Option WireNode :=
  ((overlay.cache.wireNodes.get hash).or (overlay.store.wireNodes.get hash)).map Prod.snd

def getRank (hash : NodeHash) : Option Nat :=
  (overlay.getNode hash).map MerkleNode.topologicalRank

def getNodeType (hash : NodeHash) : Option NodeType :=
  (overlay.getNode hash).map MerkleNode.nodeType

def getSoftAnchorChainLength (hash : NodeHash) : Option Nat :=
  InMemoryStore.softAnchorChainLength overlay.getNode
    (overlay.cache.nodes.size + overlay.store.nodes.size + 1) hash

/-- The distance of a node to the admin track. Distances of cached nodes are computed
from their parents and remembered; the first argument bounds the walk through the
cached nodes. -/
def adminDistance (overlay : Overlay) :
    Nat → AssocMap NodeHash Nat → NodeHash → Option Nat × AssocMap NodeHash Nat
  | 0, known, _ => (none, known)
  | fuel + 1, known, hash =>
      match known.get hash with
      | some distance => (some distance, known)
      | none =>
          match overlay.cache.nodes.get hash with
          | none => (overlay.store.getAdminDistance hash, known)
          | some node =>
              if node.nodeType = .admin then (some 0, known.insert hash 0)
              else
                let (least, known) := node.parents.foldl
                  (fun (least, known) parent =>
                    let (distance, known) := overlay.adminDistance fuel known parent
                    (match least, distance with
                      | some least, some distance => some (min least distance)
                      | none, distance => distance
                      | least, none => least, known))
                  ((none : Option Nat), known)
                let distance := match least with
                  | some least => least + 1
                  | none => 10
                (some distance, known.insert hash distance)

def getHeads : List NodeHash :=
  (overlay.cache.heads.get conversationId).getD
    ((overlay.store.heads.get conversationId).getD [])

def getAdminHeads : List NodeHash :=
  (overlay.cache.adminHeads.get conversationId).getD
    ((overlay.store.adminHeads.get conversationId).getD [])

def getLastSequenceNumber (overlay : Overlay) (conversationId : ConversationId)
    (senderPk : PhysicalDevicePk) : Nat :=
  (overlay.cache.lastVerifiedSequences.get (conversationId, senderPk)).getD
    (overlay.store.getLastSequenceNumber senderPk)

/-- The number of speculative nodes in store and cache. -/
def speculativeCount : Nat :=
  (overlay.store.nodes.values.filter fun stored => !stored.verified).length +
    (overlay.cache.nodes.keys.filter fun hash =>
      !overlay.store.hasNode hash && !overlay.cache.verified.contains hash).length

variable [Primitives]

def getSpeculativeNodes (overlay : Overlay) : List MerkleNode :=
  let stored := overlay.store.getSpeculativeNodes.filter fun node =>
    !overlay.cache.verified.contains (hash node)
  let storedHashes := stored.map hash
  stored ++ (overlay.cache.nodes.entries.filter fun entry =>
    !overlay.cache.verified.contains entry.1 && !storedHashes.contains entry.1).map Prod.snd

def getOpaqueNodeHashes : List NodeHash :=
  let stored := overlay.store.opaqueNodes.filter fun hash => !overlay.cache.nodes.contains hash
  stored ++ (overlay.cache.wireNodes.entries.filter fun entry =>
    entry.2.1 = conversationId && !overlay.cache.nodes.contains entry.1 &&
      !stored.contains entry.1).map Prod.fst

end Overlay

namespace PendingCache

variable [Primitives]

def putNode (node : MerkleNode) (verified : Bool) : PendingCache :=
  let stored := { cache with nodes := cache.nodes.insert (hash node) node }
  if verified then
    { stored with
        lastVerifiedSequences := cache.lastVerifiedSequences.insert
          (conversationId, node.senderPk) node.seq
        verified := insertOnce cache.verified (hash node) }
  else stored

def markVerified (nodeHash : NodeHash) : PendingCache :=
  let marked := { cache with verified := insertOnce cache.verified nodeHash }
  match cache.nodes.get nodeHash with
  | some node =>
      { marked with
          lastVerifiedSequences := cache.lastVerifiedSequences.insert
            (conversationId, node.senderPk) node.seq }
  | none => marked

/-- What re-verification notes about a node it has just verified. -/
def noteReverified (node : MerkleNode) : PendingCache :=
  let key := (conversationId, node.senderPk)
  { cache with
      nodes := cache.nodes.insert (hash node) node
      verified := insertOnce cache.verified (hash node)
      lastVerifiedSequences := cache.lastVerifiedSequences.insert key
        (max node.seq ((cache.lastVerifiedSequences.get key).getD 0)) }

end PendingCache

end MerkleTox.Core
